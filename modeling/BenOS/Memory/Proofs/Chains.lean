/-
What `heap_free` gives back, over runs of the heap whose every request
is made while a long enough free run exists.

The runs are those of `servedStep`: each request is granted, and what it
was granted is live until it is given back. `ChainsExact` says that the
table holds the chains of the live allocations and nothing else, and
`LiveInv` is that with the abstract pool behind it: the runs of the pool
are the runs of the live pointers.

# What is exact about it

`heap_address_to_block` takes the distance of a pointer from the pool's
start as an `int`. From block 2^19 on the distance is negative, and the
block number with it: nothing there is ever found again. The scan takes
the lowest run that is long enough, so a request stays below exactly
when some such run starts there (`LowRun`).
-/
import BenOS.Memory.Proofs.HeapRuns

namespace BenOS.Memory

open Lib

-- ============================================================== the system

/-- One call, of a run in which no request is made in vain. -/
def servedStep (s : HeapState) : HeapOp → Option HeapState
  | .malloc size =>
      if 1 ≤ size ∧ size ≤ 0xFFFFF000
          ∧ HasFreeRun (IsFree s.heap.table) s.heap.table.total
              (blocksFor size) then
        some
          { heap := (heapMalloc s.heap size).2
            live := ((heapMalloc s.heap size).1, blocksFor size) :: s.live }
      else none
  | .free ptr =>
      match s.live.find? (fun a => a.1 == ptr) with
      | some a => some { heap := heapFree s.heap ptr, live := s.live.erase a }
      | none => none

-- ======================================================= what is required

/-- Each live allocation is a chain of its blocks in the table, no two of
them share a block, and all other entries are free. -/
structure ChainsExact (s : HeapState) : Prop extends LiveOk s where
  address : ∀ a ∈ s.live,
    a.1 = heapBlockToAddress s.heap (runOf s.heap.saddr a).start
  chain : ∀ a ∈ s.live, ∀ i, (runOf s.heap.saddr a).Covers i →
    s.heap.table.entries i = chainEntry (runOf s.heap.saddr a) i
  free : ∀ i < s.heap.table.total,
    (∀ a ∈ s.live, ¬ (runOf s.heap.saddr a).Covers i) →
    s.heap.table.entries i = heapBlockTableEntryFree

/-- The release of `ptr` clears the blocks of the live allocation it is
the address of, and leaves every other entry as it is. -/
def FreesExactly (s : HeapState) (ptr : Addr) (s' : HeapState) : Prop :=
  ∃ a ∈ s.live, a.1 = ptr ∧ ∀ i : Int, s'.heap.table.entries i
    = if ((runOf s.heap.saddr a).start : Int) ≤ i
        ∧ i < (runOf s.heap.saddr a).start + a.2 then heapBlockTableEntryFree
      else s.heap.table.entries i

/-- What is required of one call: the table is exactly the chains of what
is live, all free once nothing is; a release clears what it releases and
no more; and what a request was granted can be given back so that the
table is again as it was. -/
structure FreeUndoes (s : HeapState) (op : HeapOp) (s' : HeapState) :
    Prop where
  chains : ChainsExact s'
  emptied : s'.live = [] → ∀ i < s'.heap.table.total,
    s'.heap.table.entries i = heapBlockTableEntryFree
  call : match op with
    | .malloc size => ∀ i < s.heap.table.total,
        (heapFree s'.heap (heapMalloc s.heap size).1).table.entries i
          = s.heap.table.entries i
    | .free ptr => FreesExactly s ptr s'

/-- A run of free blocks that is long enough starts less than 2 GiB above
the pool's start. -/
def LowRun (s : HeapState) (op : HeapOp) (_ : HeapState) : Prop :=
  match op with
  | .malloc size => ∃ b < 2 ^ 19, b + blocksFor size ≤ s.heap.table.total
      ∧ FreeRun (IsFree s.heap.table) b (blocksFor size)
  | .free _ => True

-- ============================================================ the invariant

/-- The pool behind the table, and the live pointers it consists of, all
of them less than 2 GiB above the pool's start. -/
structure LiveInv (s : HeapState) (pool : BlockPool s.heap.table.total) :
    Prop extends HeapInv s pool where
  all : ∀ r ∈ pool.runs, ∃ a ∈ s.live, runOf s.heap.saddr a = r
  low : ∀ a ∈ s.live, (a.1 - s.heap.saddr).toNat < 2 ^ 31

/-- The invariant leaves the table no choice. -/
theorem LiveInv.chainsExact {s : HeapState}
    {pool : BlockPool s.heap.table.total} (h : LiveInv s pool) :
    ChainsExact s := by
  refine ⟨HeapOk.liveOk ⟨pool, h.toHeapInv⟩, ?_, ?_, ?_⟩
  · intro a ha
    obtain ⟨b, hb, hblock⟩ := h.block a ha
    have haddr := heapBlockToAddress_sub s.heap hb
    unfold runOf
    rw [hblock, Nat.mul_div_cancel b (by decide)]
    have hsub : a.1 - s.heap.saddr
        = heapBlockToAddress s.heap b - s.heap.saddr :=
      BitVec.eq_of_toNat_eq (hblock.trans haddr.symm)
    exact (BitVec.sub_left_inj _).mp hsub
  · intro a ha i hc
    exact h.rep.chain _ (h.run a ha) i hc
  · intro i hi hfree
    refine h.rep.free i hi fun r hr => ?_
    obtain ⟨a, ha, rfl⟩ := h.all r hr
    exact hfree a ha

theorem ChainsExact.emptied {s : HeapState} (h : ChainsExact s)
    (hnone : s.live = []) : ∀ i < s.heap.table.total,
      s.heap.table.entries i = heapBlockTableEntryFree := by
  intro i hi
  refine h.free i hi fun a ha => ?_
  rw [hnone] at ha
  exact absurd ha List.not_mem_nil

/-- A run handed out below 2 GiB keeps the invariant. -/
theorem LiveInv.taken {s : HeapState} {pool : BlockPool s.heap.table.total}
    (h : LiveInv s pool) {b n : Nat} (hn : 1 ≤ n)
    (hin : b + n ≤ s.heap.table.total)
    (hrun : FreeRun (IsFree s.heap.table) b n) (hlow : b < 2 ^ 19) :
    LiveInv
      { heap := heapMarkBlocksTaken s.heap b n
        live := (heapBlockToAddress s.heap b, n) :: s.live }
      (pool.alloc ⟨b, n⟩ hn hin (h.rep.freeRun hin hrun)) := by
  refine ⟨h.toHeapInv.taken hn hin hrun, ?_, ?_⟩
  all_goals simp only [heapMarkBlocksTaken_saddr]
  · intro r hr
    rcases List.mem_cons.mp hr with rfl | hr
    · exact ⟨_, List.mem_cons_self, runOf_block s.heap (by omega) n⟩
    · obtain ⟨a, ha, hra⟩ := h.all r hr
      exact ⟨a, List.mem_cons_of_mem _ ha, hra⟩
  · intro a ha
    rcases List.mem_cons.mp ha with rfl | ha
    · rw [heapBlockToAddress_sub s.heap (by omega)]
      simp only [benosHeapBlockSize]
      omega
    · exact h.low a ha

/-- The release of a live pointer keeps it. -/
theorem LiveInv.freed {s : HeapState} {pool : BlockPool s.heap.table.total}
    (h : LiveInv s pool) {a : Addr × Nat} (ha : a ∈ s.live) :
    LiveInv { heap := heapFree s.heap a.1, live := s.live.erase a }
      (pool.release (runOf s.heap.saddr a)) := by
  refine ⟨h.toHeapInv.freed ha (h.low a ha), ?_, ?_⟩
  · intro r hr
    obtain ⟨q, hq, hqr⟩ := h.all r (List.mem_of_mem_erase hr)
    have hne : q ≠ a := by
      intro heq
      rw [← hqr, heq] at hr
      exact pool.nodup.not_mem_erase hr
    exact ⟨q, (List.mem_erase_of_ne hne).mpr hq, hqr⟩
  · intro q hq
    exact h.low q (List.mem_of_mem_erase hq)

-- ================================================================ the steps

/-- A request that a run makes is granted the lowest run that is long
enough. -/
theorem servedStep_malloc {s s' : HeapState} {size : Nat}
    (h : servedStep s (.malloc size) = some s') :
    ∃ b, 1 ≤ blocksFor size
      ∧ FirstFit (IsFree s.heap.table) s.heap.table.total
          (blocksFor size) b
      ∧ heapMalloc s.heap size = (heapBlockToAddress s.heap b,
          heapMarkBlocksTaken s.heap b (blocksFor size))
      ∧ s' =
        { heap := heapMarkBlocksTaken s.heap b (blocksFor size)
          live := (heapBlockToAddress s.heap b, blocksFor size)
            :: s.live } := by
  simp only [servedStep] at h
  split at h
  case isFalse => cases h
  case isTrue hsize =>
    obtain ⟨hlo, hhi, hserves⟩ := hsize
    injection h with hs'
    have hcase := heapMalloc_cases s.heap hlo hhi
    generalize heapMalloc s.heap size = r at hcase hs'
    cases hcase with
    | @found b hfit => exact ⟨b, blocksFor_pos hlo, hfit, rfl, hs'.symm⟩
    | full hnone _ => exact absurd hserves hnone
    | cut hnone _ => exact absurd hserves hnone

theorem servedStep_enabled {s : HeapState} {size : Nat} (hlo : 1 ≤ size)
    (hhi : size ≤ 0xFFFFF000)
    (hserves : HasFreeRun (IsFree s.heap.table) s.heap.table.total
      (blocksFor size)) :
    ∃ s', servedStep s (.malloc size) = some s' :=
  ⟨_, if_pos ⟨hlo, hhi, hserves⟩⟩

/-- A release that a run makes is of a live pointer. -/
theorem servedStep_free {s s' : HeapState} {ptr : Addr}
    (h : servedStep s (.free ptr) = some s') :
    ∃ a ∈ s.live, a.1 = ptr
      ∧ s' = { heap := heapFree s.heap a.1, live := s.live.erase a } := by
  simp only [servedStep] at h
  split at h
  case h_2 => cases h
  case h_1 a hfind =>
    injection h with hs'
    have hptr : a.1 = ptr := by
      have := List.find?_some hfind
      simpa using this
    refine ⟨a, List.mem_of_find?_eq_some hfind, hptr, ?_⟩
    rw [hptr]
    exact hs'.symm

/-- Under `LowRun` the lowest run starts below 2 GiB too. -/
theorem LowRun.firstFit {s s' : HeapState} {size b : Nat}
    (h : LowRun s (.malloc size) s')
    (hfit : FirstFit (IsFree s.heap.table) s.heap.table.total
      (blocksFor size) b) : b < 2 ^ 19 := by
  obtain ⟨c, hc, -, hrun⟩ := h
  by_contra hb
  exact hfit.first c (by omega) hrun

/-- The invariant goes along a run whose requests meet `LowRun`. -/
theorem liveInv_step {s s' : HeapState} {op : HeapOp}
    (h : ∃ pool, LiveInv s pool) (hstep : servedStep s op = some s')
    (hlow : LowRun s op s') : ∃ pool, LiveInv s' pool := by
  obtain ⟨pool, hinv⟩ := h
  cases op with
  | malloc size =>
      obtain ⟨b, hn, hfit, -, rfl⟩ := servedStep_malloc hstep
      exact ⟨_, hinv.taken hn hfit.inside hfit.run (hlow.firstFit hfit)⟩
  | free ptr =>
      obtain ⟨a, ha, -, rfl⟩ := servedStep_free hstep
      exact ⟨_, hinv.freed ha⟩

-- ============================================ what a call gives and takes

/-- A live pointer is released exactly. -/
theorem LiveInv.freesExactly {s : HeapState}
    {pool : BlockPool s.heap.table.total} (h : LiveInv s pool)
    {a : Addr × Nat} (ha : a ∈ s.live) :
    FreesExactly s a.1
      { heap := heapFree s.heap a.1, live := s.live.erase a } := by
  refine ⟨a, ha, rfl, fun i => ?_⟩
  have hentries := heapMarkBlocksFree_entries h.rep (h.run a ha) i
  rw [← h.addressToBlock ha (h.low a ha)] at hentries ⊢
  exact hentries

/-- A run handed out below 2 GiB is given back by `heap_free`. -/
theorem heapFree_low {heap : Heap} {pool : BlockPool heap.table.total}
    (h : Represents heap.table pool) {b n : Nat} (hn : 1 ≤ n)
    (hin : b + n ≤ heap.table.total)
    (hrun : FreeRun (IsFree heap.table) b n) (hlow : b < 2 ^ 19) :
    heapFree (heapMarkBlocksTaken heap b n) (heapBlockToAddress heap b)
      = heap := by
  have hsub := heapBlockToAddress_sub heap (b := b) (by omega)
  have hblock : heapAddressToBlock (heapMarkBlocksTaken heap b n)
      (heapBlockToAddress heap b) = b := by
    refine heapAddressToBlock_eq _ hsub ?_
    rw [heapMarkBlocksTaken_saddr, hsub]
    simp only [benosHeapBlockSize]
    omega
  unfold heapFree
  rw [hblock]
  exact heapMarkBlocks_undo h hn hin hrun

/-- From 2 GiB on the distance of a block is a negative `int`. -/
theorem heapAddressToBlock_far (heap : Heap) {b : Nat} (hlo : 2 ^ 19 ≤ b)
    (hhi : b < 2 ^ 20) :
    heapAddressToBlock heap (heapBlockToAddress heap b)
      = (b : Int) - 2 ^ 20 := by
  have hsub := heapBlockToAddress_sub heap hhi
  have hint : (heapBlockToAddress heap b - heap.saddr).toInt
      = ((b : Int) - 2 ^ 20) * benosHeapBlockSize := by
    rw [BitVec.toInt_eq_toNat_cond, hsub]
    simp only [benosHeapBlockSize]
    rw [if_neg (by omega)]
    omega
  unfold heapAddressToBlock
  rw [hint]
  exact Int.mul_tdiv_cancel _ (by decide)

/-- A run handed out there is not given back by `heap_free`. -/
theorem heapFree_far {heap : Heap} {b n : Nat} (hn : 1 ≤ n)
    (hin : b + n ≤ heap.table.total)
    (hrun : FreeRun (IsFree heap.table) b n) (hlo : 2 ^ 19 ≤ b)
    (hhi : b < 2 ^ 20) :
    ¬ ∀ i < heap.table.total,
      (heapFree (heapMarkBlocksTaken heap b n)
        (heapBlockToAddress heap b)).table.entries i
      = heap.table.entries i := by
  intro hsame
  have hblock : heapAddressToBlock (heapMarkBlocksTaken heap b n)
      (heapBlockToAddress heap b) = (b : Int) - 2 ^ 20 :=
    heapAddressToBlock_far heap hlo hhi
  unfold heapFree at hsame
  rw [hblock] at hsame
  simp only [heapMarkBlocksFree] at hsame
  have hloop := fun j => heapMarkBlocksFreeLoop_cases j
    ((heapMarkBlocksTaken heap b n).table.total
      - ((b : Int) - 2 ^ 20)).toNat ((b : Int) - 2 ^ 20)
    (heapMarkBlocksTaken heap b n).table.entries
  rcases hloop b with hkept | ⟨-, hreach⟩
  · -- block `b` is still marked
    have hentry := heapMarkBlocksTaken_entries heap (b := b) hn (b : Int)
    rw [← hkept, hsame b (by omega), if_pos (by omega),
      Int.toNat_natCast] at hentry
    have hfree := hrun b (Nat.le_refl _) (by omega)
    unfold IsFree at hfree
    rw [hentry] at hfree
    exact entryType_chainEntry _ _ hfree
  · -- the loop came by block 0, cleared it and went on
    have hnext := hreach.chained 0 (by omega) (by omega)
    have hzero : (heapMarkBlocksTaken heap b n).table.entries 0
        = heap.table.entries 0 := by
      rw [heapMarkBlocksTaken_entries heap hn, if_neg (by omega)]
    have hcleared : heap.table.entries 0 = heapBlockTableEntryFree := by
      have h0 := hsame 0 (by omega)
      rw [Nat.cast_zero] at h0
      rw [← h0]
      refine (heapMarkBlocksFreeLoop_reaches 0 _ _ _).1
        ⟨by omega, ?_, fun m hm hm' => hreach.chained m hm (by omega)⟩
      have := hreach.inside
      omega
    rw [hzero, hcleared] at hnext
    exact hnext rfl

/-- One call: what is required of it holds exactly under `LowRun`. -/
theorem freeUndoes_iff {s s' : HeapState} {op : HeapOp}
    (h : ∃ pool, LiveInv s pool) (hstep : servedStep s op = some s') :
    FreeUndoes s op s' ↔ LowRun s op s' := by
  obtain ⟨pool, hinv⟩ := h
  constructor
  · intro hok
    cases op with
    | free ptr => trivial
    | malloc size =>
        obtain ⟨b, hn, hfit, hgrant, rfl⟩ := servedStep_malloc hstep
        have hcall := hok.call
        simp only [hgrant] at hcall
        by_contra hlow
        have hfar : 2 ^ 19 ≤ b := by
          by_contra hb
          exact hlow ⟨b, by omega, hfit.inside, hfit.run⟩
        have hsmall := hinv.small
        have hin := hfit.inside
        exact heapFree_far hn hin hfit.run hfar (by omega) hcall
  · intro hlow
    obtain ⟨pool', hinv'⟩ := liveInv_step ⟨pool, hinv⟩ hstep hlow
    have hchains := hinv'.chainsExact
    refine ⟨hchains, hchains.emptied, ?_⟩
    cases op with
    | malloc size =>
        obtain ⟨b, hn, hfit, hgrant, rfl⟩ := servedStep_malloc hstep
        intro i _
        simp only [hgrant]
        rw [heapFree_low hinv.rep hn hfit.inside hfit.run
          (hlow.firstFit hfit)]
    | free ptr =>
        obtain ⟨a, ha, rfl, rfl⟩ := servedStep_free hstep
        exact hinv.freesExactly ha

-- ================================================================= the runs

theorem liveInv_create {heap₀ : Heap} {ptr end_ : Addr} {table : HeapTable}
    (h : (heapCreate heap₀ ptr end_ table).1 = benosAllOk) :
    LiveInv ⟨(heapCreate heap₀ ptr end_ table).2, []⟩
      (BlockPool.empty _) := by
  refine ⟨heapInv_create h, ?_, ?_⟩
  · intro r hr
    exact absurd hr (List.not_mem_nil)
  · intro a ha
    exact absurd ha (List.not_mem_nil)

/-- A fresh heap, and every call of a run on it. -/
theorem freeUndoes_run_iff {heap₀ : Heap} {ptr end_ : Addr}
    {table : HeapTable}
    (hcreate : (heapCreate heap₀ ptr end_ table).1 = benosAllOk)
    (ops : List HeapOp) :
    (ChainsExact ⟨(heapCreate heap₀ ptr end_ table).2, []⟩
        ∧ Along servedStep FreeUndoes
            ⟨(heapCreate heap₀ ptr end_ table).2, []⟩ ops)
      ↔ Along servedStep LowRun
          ⟨(heapCreate heap₀ ptr end_ table).2, []⟩ ops := by
  have hinv := liveInv_create hcreate
  have hruns := along_iff_of_inv (I := fun s => ∃ pool, LiveInv s pool)
    (A := fun _ _ _ => True) (C := LowRun) (Q := FreeUndoes)
    (fun s op s' h hstep _ hlow => liveInv_step h hstep hlow)
    (fun s op s' h hstep _ => freeUndoes_iff h hstep)
    ⟨_, hinv⟩ (along_true _ ops)
  rw [← hruns]
  exact and_iff_right hinv.chainsExact

/-- In a pool of up to 2 GiB no request can go beyond. -/
theorem lowRun_of_small {s : HeapState} (h : s.heap.table.total ≤ 2 ^ 19)
    (ops : List HeapOp) : Along servedStep LowRun s ops := by
  refine along_of_inv (I := fun s => s.heap.table.total ≤ 2 ^ 19)
    (C := fun _ _ _ => True) ?_ ?_ h (along_true _ ops)
  · intro s op s' hsmall hstep _
    cases op with
    | malloc size =>
        obtain ⟨b, _, _, _, rfl⟩ := servedStep_malloc hstep
        exact hsmall
    | free ptr =>
        obtain ⟨a, _, _, rfl⟩ := servedStep_free hstep
        exact hsmall
  · intro s op s' hsmall hstep _
    cases op with
    | free ptr => trivial
    | malloc size =>
        obtain ⟨b, hn, hfit, _, _⟩ := servedStep_malloc hstep
        have hin := hfit.inside
        exact ⟨b, by omega, hin, hfit.run⟩

/-- Along every run from `heap_create` in which each request is made when
a long enough free run exists, the table is at every point exactly the
chains of what is live, each release clears what it releases and no
more, and what is granted can be given back without a trace, exactly when
each request is made when such a run starts less than 2 GiB above the
start of the pool. -/
theorem heap_free_undoes_exact {heap₀ : Heap} {ptr end_ : Addr}
    {table : HeapTable}
    (hcreate : (heapCreate heap₀ ptr end_ table).1 = benosAllOk)
    (ops : List HeapOp) :
    (ChainsExact ⟨(heapCreate heap₀ ptr end_ table).2, []⟩
        ∧ Along servedStep FreeUndoes
            ⟨(heapCreate heap₀ ptr end_ table).2, []⟩ ops)
      ↔ Along servedStep LowRun
          ⟨(heapCreate heap₀ ptr end_ table).2, []⟩ ops :=
  freeUndoes_run_iff hcreate ops

/-- A run on a pool of two blocks: both are taken, and the first is given
back and taken again. -/
@[irreducible] def twoBlockOps : List HeapOp :=
  [.malloc 1, .malloc 4096, .free 0x01000000#32, .malloc 1]

/-- In it `heap_free` undoes `heap_malloc`. -/
theorem heap_free_undoes_exact_two_blocks :
    Along servedStep FreeUndoes
      ⟨(heapCreate ⟨twoBlockTable, 0#32⟩ 0x01000000#32 0x01002000#32
        twoBlockTable).2, []⟩ twoBlockOps :=
  ((heap_free_undoes_exact (by decide) twoBlockOps).mpr
    (lowRun_of_small (by decide) twoBlockOps)).2

/-- On a pool of one block more than 2 GiB: with the first 2 GiB taken,
the last block is handed out and never found again. -/
theorem not_freeUndoes_far {heap₀ : Heap} {ptr end_ : Addr}
    {table : HeapTable}
    (hcreate : (heapCreate heap₀ ptr end_ table).1 = benosAllOk)
    (htable : table.total = 2 ^ 19 + 1) :
    ¬ (ChainsExact ⟨(heapCreate heap₀ ptr end_ table).2, []⟩
        ∧ Along servedStep FreeUndoes
            ⟨(heapCreate heap₀ ptr end_ table).2, []⟩
            [.malloc 0x80000000, .malloc 1]) := by
  rw [freeUndoes_run_iff hcreate]
  intro hrun
  have hinv := heapInv_create hcreate
  have htotal : (heapCreate heap₀ ptr end_ table).2.table.total
      = 2 ^ 19 + 1 := by
    rw [(heapCreate_eq hcreate).1]
    exact htable
  generalize (heapCreate heap₀ ptr end_ table).2 = heap at hrun hinv htotal
  obtain ⟨n, hn⟩ : ∃ n, blocksFor 0x80000000 = n := ⟨_, rfl⟩
  have hn' : n = 2 ^ 19 := by
    rw [← hn]
    decide +kernel
  have hone : blocksFor 1 = 1 := by decide
  have hfree : ∀ i < heap.table.total, IsFree heap.table i := by
    intro i hi
    refine (hinv.rep.isFree_iff hi).mpr fun r hr => ?_
    exact absurd hr List.not_mem_nil
  have hstart : FreeRun (IsFree heap.table) 0 n :=
    fun i _ hi => hfree i (by omega)
  -- the first request takes all blocks but the last
  obtain ⟨s₁, hs₁⟩ := servedStep_enabled (s := ⟨heap, []⟩)
    (show 1 ≤ 0x80000000 by omega) (by omega)
    ⟨0, by rw [hn]; simp only; omega, by rw [hn]; exact hstart⟩
  obtain ⟨-, hrest⟩ := (along_cons_of_step hs₁).mp hrun
  obtain ⟨b, hpos, hfit, -, rfl⟩ := servedStep_malloc hs₁
  rw [hn] at hpos hfit hrest
  have hb : b = 0 := by
    by_contra hne
    exact hfit.first 0 (by omega) hstart
  have hentries := fun i : Nat =>
    heapMarkBlocksTaken_entries heap (b := b) hpos i
  have hlast : IsFree (heapMarkBlocksTaken heap b n).table n := by
    unfold IsFree
    rw [hentries, if_neg (by omega)]
    exact hfree _ (by omega)
  -- and the second is granted the last, which lies too high
  obtain ⟨s₂, hs₂⟩ := servedStep_enabled (s := ⟨heapMarkBlocksTaken heap b n,
      [(heapBlockToAddress heap b, n)]⟩) (Nat.le_refl 1) (by omega)
    ⟨n, by rw [hone]; simp only [heapMarkBlocksTaken]; omega, by
      intro i hi hi'
      have : i = n := by omega
      rw [this]
      exact hlast⟩
  obtain ⟨⟨c, hc, -, hcrun⟩, -⟩ := (along_cons_of_step hs₂).mp hrest
  have htaken := hcrun c (Nat.le_refl _) (by omega)
  unfold IsFree at htaken
  rw [hentries, if_pos (by omega)] at htaken
  exact entryType_chainEntry _ _ htaken

/-- A pool of one block more than 2 GiB, before `heap_create`. -/
def farTable : HeapTable := { entries := fun _ => 0xFF, total := 2 ^ 19 + 1 }

/-- It is not so that `heap_free` undoes `heap_malloc` on every pool. -/
theorem heap_free_loses_far_block :
    ¬ ∀ (heap₀ : Heap) (ptr end_ : Addr) (table : HeapTable),
        (heapCreate heap₀ ptr end_ table).1 = benosAllOk →
        ∀ ops : List HeapOp,
          ChainsExact ⟨(heapCreate heap₀ ptr end_ table).2, []⟩
            ∧ Along servedStep FreeUndoes
                ⟨(heapCreate heap₀ ptr end_ table).2, []⟩ ops := by
  intro hall
  have hcreate : (heapCreate ⟨farTable, 0#32⟩ 0x01000000#32 0x81001000#32
      farTable).1 = benosAllOk := by decide +kernel
  exact not_freeUndoes_far hcreate rfl (hall _ _ _ _ hcreate _)

end BenOS.Memory
