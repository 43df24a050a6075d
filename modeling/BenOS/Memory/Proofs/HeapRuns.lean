/-
Runs of the kernel heap: sequences of `heap_malloc` and `heap_free` from
a freshly created heap.

`HeapState` pairs the heap with the live allocations its callers hold;
`heapStep` is one call, enabled for the sizes a 32-bit request can round
up to whole blocks and for pointers that are live. The invariant
(`HeapInv`) ties the table to an abstract pool: the table represents the
pool, and every live pointer is the address of a run of the pool, no run
twice.

# What is exact about it

`heap_runs_exact`: along a run whose frees stay within an `int` of the
pool's start, every call behaves as the allocator should (`StepOk`)
exactly when no request is made in a state where no free run is long
enough and yet the last block of the table is free (`MallocGuard`). In
such a state the scan runs off the table inside a free run that is too
short and hands it out all the same.
-/
import Mathlib.Data.List.Perm.Basic
import BenOS.Lib.Run
import BenOS.Memory.Proofs.Marks

namespace BenOS.Memory

open Lib

-- ============================================================== the system

/-- The number of blocks a request of `size` bytes needs. -/
def blocksFor (size : Nat) : Nat :=
  (size + (benosHeapBlockSize - 1)) / benosHeapBlockSize

/-- The run of blocks a pointer stands for, when it was handed out for
`n` blocks of a pool at `saddr`. -/
def runOf (saddr : Addr) (a : Addr × Nat) : BlockRun :=
  ⟨(a.1 - saddr).toNat / benosHeapBlockSize, a.2⟩

/-- The heap, and the pointers its callers hold with the number of
blocks each was asked for. -/
structure HeapState where
  heap : Heap
  live : List (Addr × Nat)

/-- One call. -/
inductive HeapOp
  | malloc (size : Nat)
  | free (ptr : Addr)

/-- One call on the heap: a request of at least one byte that rounds up
within 32 bits, or the release of a live pointer. -/
def heapStep (s : HeapState) : HeapOp → Option HeapState
  | .malloc size =>
      if 1 ≤ size ∧ size ≤ 0xFFFFF000 then
        let r := heapMalloc s.heap size
        some
          { heap := r.2
            live := if r.1 = 0#32 then s.live
              else (r.1, blocksFor size) :: s.live }
      else none
  | .free ptr =>
      match s.live.find? (fun a => a.1 == ptr) with
      | some a => some { heap := heapFree s.heap ptr, live := s.live.erase a }
      | none => none

-- ======================================================= what is required

/-- The live allocations lie in the table and share no block. -/
structure LiveOk (s : HeapState) : Prop where
  inside : ∀ a ∈ s.live,
    (runOf s.heap.saddr a).start + a.2 ≤ s.heap.table.total
  apart : (s.live.map (runOf s.heap.saddr)).Pairwise BlockRun.Apart

/-- What `heap_malloc` owes its caller: a pointer stands for a run of
free blocks of the table, as long as the request rounded up; without
such a run the answer is null and the heap is untouched. -/
structure MallocOk (heap : Heap) (size : Nat) : Prop where
  granted : (heapMalloc heap size).1 ≠ 0#32 →
    ∃ b : Nat, (heapMalloc heap size).1 = heapBlockToAddress heap b
      ∧ b + blocksFor size ≤ heap.table.total
      ∧ FreeRun (IsFree heap.table) b (blocksFor size)
  refused : ¬ HasFreeRun (IsFree heap.table) heap.table.total
      (blocksFor size) →
    (heapMalloc heap size).1 = 0#32 ∧ (heapMalloc heap size).2 = heap

/-- What is required of one call: it leaves the live allocations apart
and inside, and a request is served as `MallocOk` says. -/
def StepOk (s : HeapState) (op : HeapOp) (s' : HeapState) : Prop :=
  LiveOk s' ∧
    match op with
    | .malloc size => MallocOk s.heap size
    | .free _ => True

/-- A request comes while a free run is long enough, or while the table
does not end in a free block. -/
def MallocGuard (s : HeapState) (op : HeapOp) (_ : HeapState) : Prop :=
  match op with
  | .malloc size =>
      HasFreeRun (IsFree s.heap.table) s.heap.table.total (blocksFor size)
        ∨ s.heap.table.total = 0
        ∨ ¬ IsFree s.heap.table (s.heap.table.total - 1)
  | .free _ => True

/-- A pointer given back lies less than 2 GiB above the pool's start, so
that its distance is the `int` the source takes it for. -/
def FreeGuard (s : HeapState) (op : HeapOp) (_ : HeapState) : Prop :=
  match op with
  | .malloc _ => True
  | .free ptr => (ptr - s.heap.saddr).toNat < 2 ^ 31

instance (s : HeapState) (op : HeapOp) (s' : HeapState) :
    Decidable (MallocGuard s op s') := by
  cases op
  · exact inferInstanceAs (Decidable (_ ∨ _))
  · exact inferInstanceAs (Decidable True)

instance (s : HeapState) (op : HeapOp) (s' : HeapState) :
    Decidable (FreeGuard s op s') := by
  cases op
  · exact inferInstanceAs (Decidable True)
  · exact inferInstanceAs (Decidable (_ < _))

-- ===================================================== addresses and sizes

/-- In the range of `heapStep`, rounding up to whole blocks does not
wrap. -/
theorem heapAlignValueToUpper_blocks {size : Nat} (h : size ≤ 0xFFFFF000) :
    heapAlignValueToUpper size / benosHeapBlockSize = blocksFor size := by
  simp only [heapAlignValueToUpper, blocksFor, benosHeapBlockSize]
  split <;> omega

theorem blocksFor_pos {size : Nat} (h : 1 ≤ size) : 1 ≤ blocksFor size := by
  simp only [blocksFor, benosHeapBlockSize]
  omega

/-- The address of a block lies that many block sizes above the pool's
start. -/
theorem heapBlockToAddress_sub (heap : Heap) {b : Nat} (hb : b < 2 ^ 20) :
    (heapBlockToAddress heap b - heap.saddr).toNat
      = b * benosHeapBlockSize := by
  unfold heapBlockToAddress
  rw [BitVec.add_comm, BitVec.add_sub_cancel]
  rw [show ((b : Int) * (benosHeapBlockSize : Int))
      = ((b * benosHeapBlockSize : Nat) : Int) by push_cast; rfl]
  rw [BitVec.ofInt_natCast, BitVec.toNat_ofNat]
  simp only [benosHeapBlockSize]
  omega

theorem runOf_block (heap : Heap) {b : Nat} (hb : b < 2 ^ 20) (n : Nat) :
    runOf heap.saddr (heapBlockToAddress heap b, n) = ⟨b, n⟩ := by
  unfold runOf
  rw [heapBlockToAddress_sub heap hb, Nat.mul_div_cancel b (by decide)]

/-- `heap_address_to_block` undoes `heap_block_to_address` below 2 GiB. -/
theorem heapAddressToBlock_eq (heap : Heap) {ptr : Addr} {b : Nat}
    (hptr : (ptr - heap.saddr).toNat = b * benosHeapBlockSize)
    (hlow : (ptr - heap.saddr).toNat < 2 ^ 31) :
    heapAddressToBlock heap ptr = b := by
  unfold heapAddressToBlock
  rw [BitVec.toInt_eq_toNat_of_lt (by omega), hptr]
  have hdiv : b * benosHeapBlockSize / benosHeapBlockSize = b :=
    Nat.mul_div_cancel b (by decide)
  rw [Int.tdiv_eq_ediv_of_nonneg (by omega), ← Int.natCast_ediv, hdiv]

-- ============================================================ the invariant

/-- The table represents a pool, and the live pointers are addresses of
runs of that pool, each run at most once. -/
structure HeapInv (s : HeapState) (pool : BlockPool s.heap.table.total) :
    Prop where
  small : s.heap.table.total < 2 ^ 20
  rep : Represents s.heap.table pool
  run : ∀ a ∈ s.live, runOf s.heap.saddr a ∈ pool.runs
  block : ∀ a ∈ s.live, ∃ b : Nat, b < 2 ^ 20 ∧
    (a.1 - s.heap.saddr).toNat = b * benosHeapBlockSize
  apart : (s.live.map (runOf s.heap.saddr)).Pairwise BlockRun.Apart

/-- Some pool stands behind the table. -/
def HeapOk (s : HeapState) : Prop := ∃ pool, HeapInv s pool

theorem HeapOk.liveOk {s : HeapState} (h : HeapOk s) : LiveOk s := by
  obtain ⟨pool, hinv⟩ := h
  exact ⟨fun a ha => pool.inside _ (hinv.run a ha), hinv.apart⟩

/-- What `heap_create` leaves where it succeeds: a cleared table, and no
more blocks than fit into 32 bits of addresses. -/
theorem heapCreate_eq {heap₀ : Heap} {ptr end_ : Addr} {table : HeapTable}
    (h : (heapCreate heap₀ ptr end_ table).1 = benosAllOk) :
    (heapCreate heap₀ ptr end_ table).2
        = { table := heapClearEntries table, saddr := ptr }
      ∧ table.total < 2 ^ 20 := by
  unfold heapCreate at h ⊢
  split
  case isTrue hbad =>
    rw [if_pos hbad] at h
    cases h
  case isFalse hgood =>
    rw [if_neg hgood] at h
    have htotal : table.total = (end_ - ptr).toNat / benosHeapBlockSize := by
      by_contra hne
      have hres : heapValidateTable ptr end_ table = -einvarg := by
        simp only [heapValidateTable, ne_eq, hne, not_false_eq_true, if_true]
      simp only [hres] at h
      cases h
    have hres : heapValidateTable ptr end_ table = 0 := by
      simp only [heapValidateTable, htotal, ne_eq, not_true_eq_false,
        if_false]
    simp only [hres]
    have hlt : (end_ - ptr).toNat < 2 ^ 32 := (end_ - ptr).isLt
    refine ⟨rfl, ?_⟩
    rw [htotal]
    simp only [benosHeapBlockSize]
    omega

/-- A heap fresh from `heap_create` stands for the empty pool. -/
theorem heapInv_create {heap₀ : Heap} {ptr end_ : Addr} {table : HeapTable}
    (h : (heapCreate heap₀ ptr end_ table).1 = benosAllOk) :
    HeapInv ⟨(heapCreate heap₀ ptr end_ table).2, []⟩
      (BlockPool.empty _) := by
  obtain ⟨heq, hsmall⟩ := heapCreate_eq h
  rw [heq]
  refine ⟨hsmall, ⟨?_, ?_⟩, ?_, ?_, List.Pairwise.nil⟩
  · intro r hr
    exact absurd hr (List.not_mem_nil)
  · intro i hi _
    show (if 0 ≤ (i : Int) ∧ (i : Int) < table.total then _ else _) = _
    have hi' : i < table.total := hi
    rw [if_pos (by omega)]
  · intro a ha
    exact absurd ha (List.not_mem_nil)
  · intro a ha
    exact absurd ha (List.not_mem_nil)

theorem heapOk_create {heap₀ : Heap} {ptr end_ : Addr} {table : HeapTable}
    (h : (heapCreate heap₀ ptr end_ table).1 = benosAllOk) :
    HeapOk ⟨(heapCreate heap₀ ptr end_ table).2, []⟩ :=
  ⟨_, heapInv_create h⟩

-- ============================================================== heap_malloc

/-- The three ways `heap_malloc` answers a request of `size` bytes. -/
inductive MallocCase (heap : Heap) (size : Nat) : Addr × Heap → Prop
  | found {b : Nat} :
      FirstFit (IsFree heap.table) heap.table.total (blocksFor size) b →
      MallocCase heap size
        (heapBlockToAddress heap b, heapMarkBlocksTaken heap b (blocksFor size))
  | full :
      ¬ HasFreeRun (IsFree heap.table) heap.table.total (blocksFor size) →
      (heap.table.total = 0 ∨ ¬ IsFree heap.table (heap.table.total - 1)) →
      MallocCase heap size (0#32, heap)
  | cut {b : Nat} :
      ¬ HasFreeRun (IsFree heap.table) heap.table.total (blocksFor size) →
      TrailingRun (IsFree heap.table) heap.table.total b →
      MallocCase heap size
        (heapBlockToAddress heap b, heapMarkBlocksTaken heap b (blocksFor size))

theorem heapMalloc_cases (heap : Heap) {size : Nat} (hlo : 1 ≤ size)
    (hhi : size ≤ 0xFFFFF000) :
    MallocCase heap size (heapMalloc heap size) := by
  have hout := heapGetStartBlock_outcome heap (blocksFor_pos hlo)
  unfold heapMalloc heapMallocBlocks
  rw [heapAlignValueToUpper_blocks hhi]
  generalize heapGetStartBlock heap (blocksFor size) = start at hout
  cases hout with
  | found hfit =>
      simp only
      rw [if_neg (by omega)]
      exact MallocCase.found hfit
  | full hnone hlast =>
      simp only
      rw [if_pos (by decide)]
      exact MallocCase.full hnone hlast
  | cut hnone htrail _ =>
      simp only
      rw [if_neg (by omega)]
      exact MallocCase.cut hnone htrail

/-- Under the guard a request is served as it should be. -/
theorem mallocOk_of_guard {heap : Heap} {size : Nat} (hlo : 1 ≤ size)
    (hhi : size ≤ 0xFFFFF000)
    (hguard : HasFreeRun (IsFree heap.table) heap.table.total (blocksFor size)
      ∨ heap.table.total = 0 ∨ ¬ IsFree heap.table (heap.table.total - 1)) :
    MallocOk heap size := by
  have hcase := heapMalloc_cases heap hlo hhi
  generalize hr : heapMalloc heap size = r at hcase
  cases hcase with
  | @found b hfit =>
      refine ⟨fun _ => ⟨b, by rw [hr], hfit.inside, hfit.run⟩, fun hnone => ?_⟩
      exact absurd hfit.hasFreeRun hnone
  | full hnone hlast =>
      refine ⟨fun hne => ?_, fun _ => by rw [hr]; exact ⟨rfl, rfl⟩⟩
      rw [hr] at hne
      exact absurd rfl hne
  | @cut b hnone htrail =>
      rcases hguard with hrun | hzero | hlast
      · exact absurd hrun hnone
      · have := htrail.below
        omega
      · have hb := htrail.below
        exact absurd (htrail.run _ (by omega) (by omega)) hlast

/-- Outside the guard it is not: the short run at the table's end is
marked, although no run is long enough. -/
theorem guard_of_mallocOk {heap : Heap} {size : Nat} (hlo : 1 ≤ size)
    (hhi : size ≤ 0xFFFFF000) (hok : MallocOk heap size) :
    HasFreeRun (IsFree heap.table) heap.table.total (blocksFor size)
      ∨ heap.table.total = 0 ∨ ¬ IsFree heap.table (heap.table.total - 1) := by
  have hcase := heapMalloc_cases heap hlo hhi
  generalize hr : heapMalloc heap size = r at hcase
  cases hcase with
  | found hfit => exact Or.inl hfit.hasFreeRun
  | full _ hlast => exact Or.inr hlast
  | @cut b hnone htrail =>
      -- `refused` would leave the entry of block `b` free
      have hsame : heapMarkBlocksTaken heap b (blocksFor size) = heap := by
        have := (hok.refused hnone).2
        rwa [hr] at this
      have hfree : IsFree heap.table b :=
        htrail.run b (Nat.le_refl _) (by have := htrail.below; omega)
      have hentry := heapMarkBlocksTaken_entries heap
        (b := b) (blocksFor_pos hlo) (b : Int)
      have hpos := blocksFor_pos hlo
      rw [hsame, if_pos (by omega), Int.toNat_natCast] at hentry
      unfold IsFree at hfree
      rw [hentry] at hfree
      exact absurd hfree (entryType_chainEntry _ _)

-- ================================================================ the steps

/-- Marking a run of free blocks taken keeps the invariant, with the
address of its first block as one more live pointer. -/
theorem HeapInv.taken {s : HeapState} {pool : BlockPool s.heap.table.total}
    (hinv : HeapInv s pool) {b n : Nat} (hn : 1 ≤ n)
    (hin : b + n ≤ s.heap.table.total)
    (hrun : FreeRun (IsFree s.heap.table) b n) :
    HeapInv
      { heap := heapMarkBlocksTaken s.heap b n
        live := (heapBlockToAddress s.heap b, n) :: s.live }
      (pool.alloc ⟨b, n⟩ hn hin (hinv.rep.freeRun hin hrun)) := by
  have hfree := hinv.rep.freeRun hin hrun
  have hb : b < 2 ^ 20 := by
    have := hinv.small
    omega
  have haddr := heapBlockToAddress_sub s.heap hb
  have hrun' := runOf_block s.heap hb n
  refine ⟨hinv.small, represents_taken hinv.rep hn hin hrun, ?_, ?_, ?_⟩
  all_goals simp only [heapMarkBlocksTaken_saddr]
  · intro a ha
    rw [BlockPool.alloc_runs]
    rcases List.mem_cons.mp ha with rfl | ha
    · rw [hrun']
      exact List.mem_cons_self
    · exact List.mem_cons_of_mem _ (hinv.run a ha)
  · intro a ha
    rcases List.mem_cons.mp ha with rfl | ha
    · exact ⟨b, hb, haddr⟩
    · exact hinv.block a ha
  · rw [List.map_cons, List.pairwise_cons, hrun']
    refine ⟨fun q hq i hc => ?_, hinv.apart⟩
    obtain ⟨a, ha, rfl⟩ := List.mem_map.mp hq
    exact hfree i hc _ (hinv.run a ha)

theorem heapOk_taken {s : HeapState} (h : HeapOk s) {b n : Nat} (hn : 1 ≤ n)
    (hin : b + n ≤ s.heap.table.total)
    (hrun : FreeRun (IsFree s.heap.table) b n) :
    HeapOk
      { heap := heapMarkBlocksTaken s.heap b n
        live := (heapBlockToAddress s.heap b, n) :: s.live } := by
  obtain ⟨pool, hinv⟩ := h
  exact ⟨_, hinv.taken hn hin hrun⟩

/-- A pointer may be forgotten. -/
theorem HeapOk.forget {heap : Heap} {a : Addr × Nat} {live : List (Addr × Nat)}
    (h : HeapOk ⟨heap, a :: live⟩) : HeapOk ⟨heap, live⟩ := by
  obtain ⟨pool, hinv⟩ := h
  refine ⟨pool, hinv.small, hinv.rep, ?_, ?_, ?_⟩
  · exact fun c hc => hinv.run c (List.mem_cons_of_mem _ hc)
  · exact fun c hc => hinv.block c (List.mem_cons_of_mem _ hc)
  · exact (List.pairwise_cons.mp hinv.apart).2

/-- A guarded request keeps the invariant. -/
theorem heapOk_malloc {s : HeapState} {size : Nat} (h : HeapOk s)
    (hlo : 1 ≤ size) (hhi : size ≤ 0xFFFFF000)
    (hguard : HasFreeRun (IsFree s.heap.table) s.heap.table.total
        (blocksFor size)
      ∨ s.heap.table.total = 0
      ∨ ¬ IsFree s.heap.table (s.heap.table.total - 1)) :
    HeapOk
      { heap := (heapMalloc s.heap size).2
        live := if (heapMalloc s.heap size).1 = 0#32 then s.live
          else ((heapMalloc s.heap size).1, blocksFor size) :: s.live } := by
  have hcase := heapMalloc_cases s.heap hlo hhi
  generalize heapMalloc s.heap size = r at hcase
  cases hcase with
  | full _ _ =>
      rw [if_pos rfl]
      exact h
  | @cut b hnone htrail =>
      have hb := htrail.below
      rcases hguard with hrun | hzero | hlast
      · exact absurd hrun hnone
      · omega
      · exact absurd (htrail.run _ (by omega) (by omega)) hlast
  | @found b hfit =>
      have htaken := heapOk_taken h (blocksFor_pos hlo) hfit.inside hfit.run
      simp only
      split
      · exact htaken.forget
      · exact htaken

/-- Distinct live pointers stand for distinct runs. -/
theorem HeapInv.runOf_ne {s : HeapState}
    {pool : BlockPool s.heap.table.total} (hinv : HeapInv s pool)
    {a q : Addr × Nat} (ha : a ∈ s.live) (hq : q ∈ s.live.erase a) :
    runOf s.heap.saddr q ≠ runOf s.heap.saddr a := by
  intro heq
  have hapart := (((List.perm_cons_erase ha).map _).pairwise hinv.apart
    (fun h => h.symm) : ((a :: s.live.erase a).map
      (runOf s.heap.saddr)).Pairwise BlockRun.Apart)
  rw [List.map_cons, List.pairwise_cons] at hapart
  have hself := hapart.1 _ (List.mem_map_of_mem hq)
  rw [heq] at hself
  exact BlockRun.not_apart_self (pool.pos _ (hinv.run a ha)) hself

/-- A live pointer less than 2 GiB above the pool's start leads to the
first block of its run. -/
theorem HeapInv.addressToBlock {s : HeapState}
    {pool : BlockPool s.heap.table.total} (hinv : HeapInv s pool)
    {a : Addr × Nat} (ha : a ∈ s.live)
    (hlow : (a.1 - s.heap.saddr).toNat < 2 ^ 31) :
    heapAddressToBlock s.heap a.1 = (runOf s.heap.saddr a).start := by
  obtain ⟨b, _, hblock⟩ := hinv.block a ha
  unfold runOf
  rw [heapAddressToBlock_eq s.heap hblock hlow, hblock,
    Nat.mul_div_cancel b (by decide)]

/-- Giving back such a pointer keeps the invariant. -/
theorem HeapInv.freed {s : HeapState} {pool : BlockPool s.heap.table.total}
    (hinv : HeapInv s pool) {a : Addr × Nat} (ha : a ∈ s.live)
    (hlow : (a.1 - s.heap.saddr).toNat < 2 ^ 31) :
    HeapInv { heap := heapFree s.heap a.1, live := s.live.erase a }
      (pool.release (runOf s.heap.saddr a)) := by
  have hrep := represents_freed hinv.rep (hinv.run a ha)
  rw [← hinv.addressToBlock ha hlow] at hrep
  refine ⟨hinv.small, hrep, ?_, ?_, ?_⟩
  · intro q hq
    exact (List.mem_erase_of_ne (hinv.runOf_ne ha hq)).mpr
      (hinv.run q (List.mem_of_mem_erase hq))
  · intro q hq
    exact hinv.block q (List.mem_of_mem_erase hq)
  · exact hinv.apart.sublist (List.erase_sublist.map _)

theorem heapOk_free {s : HeapState} {a : Addr × Nat} (h : HeapOk s)
    (ha : a ∈ s.live) (hlow : (a.1 - s.heap.saddr).toNat < 2 ^ 31) :
    HeapOk { heap := heapFree s.heap a.1, live := s.live.erase a } := by
  obtain ⟨pool, hinv⟩ := h
  exact ⟨_, hinv.freed ha hlow⟩

/-- One guarded call keeps the invariant. -/
theorem heapOk_step {s s' : HeapState} {op : HeapOp} (h : HeapOk s)
    (hstep : heapStep s op = some s') (hfree : FreeGuard s op s')
    (hguard : MallocGuard s op s') : HeapOk s' := by
  cases op with
  | malloc size =>
      simp only [heapStep] at hstep
      split at hstep
      case isFalse => cases hstep
      case isTrue hsize =>
        injection hstep with hs'
        subst hs'
        exact heapOk_malloc h hsize.1 hsize.2 hguard
  | free ptr =>
      simp only [heapStep] at hstep
      split at hstep
      case h_2 => cases hstep
      case h_1 a hfind =>
        injection hstep with hs'
        subst hs'
        have ha : a ∈ s.live := List.mem_of_find?_eq_some hfind
        have hptr : a.1 = ptr := by
          have := List.find?_some hfind
          simpa using this
        subst hptr
        exact heapOk_free h ha hfree

-- ================================================================= the runs

/-- Along every run from `heap_create` whose frees stay below 2 GiB, each
call does what the allocator owes its callers exactly when each request
comes in a state where a free run is long enough or the table does not
end in a free block. -/
theorem heap_runs_exact {heap₀ : Heap} {ptr end_ : Addr} {table : HeapTable}
    (hcreate : (heapCreate heap₀ ptr end_ table).1 = benosAllOk)
    {ops : List HeapOp}
    (hfree : Along heapStep FreeGuard
      ⟨(heapCreate heap₀ ptr end_ table).2, []⟩ ops) :
    Along heapStep StepOk ⟨(heapCreate heap₀ ptr end_ table).2, []⟩ ops
      ↔ Along heapStep MallocGuard
          ⟨(heapCreate heap₀ ptr end_ table).2, []⟩ ops := by
  refine along_iff_of_inv (I := HeapOk)
    (fun s op s' h hstep hf hg => heapOk_step h hstep hf hg) ?_
    (heapOk_create hcreate) hfree
  intro s op s' h hstep hf
  constructor
  · intro h
    obtain ⟨-, hcall⟩ := h
    cases op with
    | malloc size =>
        simp only [heapStep] at hstep
        split at hstep
        case isFalse => cases hstep
        case isTrue hsize => exact guard_of_mallocOk hsize.1 hsize.2 hcall
    | free ptr => trivial
  · intro hg
    refine ⟨(heapOk_step h hstep hf hg).liveOk, ?_⟩
    cases op with
    | malloc size =>
        simp only [heapStep] at hstep
        split at hstep
        case isFalse => cases hstep
        case isTrue hsize => exact mallocOk_of_guard hsize.1 hsize.2 hg
    | free ptr => trivial

/-- A two-block pool at 16 MiB, before `heap_create`. -/
def twoBlockTable : HeapTable := { entries := fun _ => 0xFF, total := 2 }

/-- Two blocks requested, given back and requested one by one: the
guards hold at every call. -/
theorem heap_runs_exact_two_blocks :
    Along heapStep StepOk
      ⟨(heapCreate ⟨twoBlockTable, 0#32⟩ 0x01000000#32 0x01002000#32
        twoBlockTable).2, []⟩
      [.malloc 5000, .free 0x01000000#32, .malloc 4096, .malloc 1] :=
  (heap_runs_exact (by decide) (by decide)).mpr (by decide)

/-- It is not so that every call on every heap does what the allocator
owes: asked for three blocks of a fresh pool of two, `heap_malloc`
answers with the first. -/
theorem heap_malloc_beyond_table :
    ¬ ∀ (heap₀ : Heap) (ptr end_ : Addr) (table : HeapTable),
        (heapCreate heap₀ ptr end_ table).1 = benosAllOk →
        ∀ ops : List HeapOp, Along heapStep StepOk
          ⟨(heapCreate heap₀ ptr end_ table).2, []⟩ ops := by
  intro hall
  have hrun := hall ⟨twoBlockTable, 0#32⟩ 0x01000000#32 0x01002000#32
    twoBlockTable (by decide) [.malloc 12288]
  obtain ⟨⟨-, hcall⟩, -⟩ := (along_cons_of_step (by rfl)).mp hrun
  have hnull := (hcall.refused (by decide)).1
  exact absurd hnull (by decide)

end BenOS.Memory
