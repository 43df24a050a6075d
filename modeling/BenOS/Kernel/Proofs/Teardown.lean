/-
Tearing a process down: `process_terminate_allocations` in every state
that calls of `process_malloc` and `process_free` lead to.

The loop hands the pointer of every entry to `process_free`, of the empty
ones too. Null is found in the table there, at an empty entry, and what
stops the call is the pager, which refuses to map no bytes. So an empty
entry gives nothing back (`processFree_null`), an entry with a pointer
gives back that one run (`processFree_entry`), and after `n` rounds the
runs of the first `n` entries are given back and no others (`swept`).

`process_teardown` is about whole runs. Each request has to find a run of
free blocks long enough, or a table that does not end in a free block
(`SizeGuard`): otherwise the heap hands out the short run at its end and
marks entries behind the table, and these no release gets to
(`tornDown_beyond_table`).
-/
import BenOS.Kernel.Exit
import BenOS.Kernel.Proofs.AllocRuns
import BenOS.Memory.Proofs.Release
import BenOS.Memory.Proofs.Requests

namespace BenOS.Kernel

open Lib Memory

variable {o : Objects} {others : List (Addr × Nat)} {r r' : Ram}

-- ========================================================= what is given back

/-- The pointers `process_free` gives to `kfree`. -/
def processFreeReleases (process ptr : Addr) (r : Ram) : List Addr :=
  match processGetAllocationByAddr r.mem process ptr with
  | none => []
  | some i =>
      let m := mapAllocation r.mem process (allocPtr r.mem process i)
        (allocSize r.mem process i) 0x00#32
      if m.1 < 0 then [] else [ptr]

/-- Those the loop of `process_terminate_allocations` does. -/
def terminateReleases (process : Addr) : Nat → Ram → List Addr
  | 0, _ => []
  | i + 1, r =>
      let r' := terminateAllocations process i r
      terminateReleases process i r
        ++ processFreeReleases process (allocPtr r'.mem process i) r'

/-- The heap changes by these releases and by nothing else. -/
theorem processFree_heap (process ptr : Addr) (r : Ram) :
    (processFree process ptr r).heap
      = (processFreeReleases process ptr r).foldl heapFree r.heap := by
  unfold processFree processFreeReleases
  cases processGetAllocationByAddr r.mem process ptr with
  | none => rfl
  | some i =>
      simp only
      split <;> rfl

theorem terminateAllocations_heap (process : Addr) (n : Nat) (r : Ram) :
    (terminateAllocations process n r).heap
      = (terminateReleases process n r).foldl heapFree r.heap := by
  induction n with
  | zero => rfl
  | succ n ih =>
      unfold terminateAllocations terminateReleases
      simp only
      rw [processFree_heap, List.foldl_append, ih]

/-- The process is torn down: no entry of its table is left, each run was
given to the heap once, and the runs are given back; the directory is
still that of the process. -/
structure TornDown (o : Objects) (r : Ram) : Prop where
  empty : ∀ i < benosMaxProgramAllocations,
    allocPtr (processTerminateAllocations o.process r).mem o.process i = 0#32
      ∧ allocSize (processTerminateAllocations o.process r).mem o.process i
        = 0#32
  once : terminateReleases o.process benosMaxProgramAllocations r
    = (recorded r.mem o.process).map Prod.fst
  distinct : ((recorded r.mem o.process).map Prod.fst).Nodup
  back : GivenBack o (recorded r.mem o.process) r
    (processTerminateAllocations o.process r)
  links : o.Links (processTerminateAllocations o.process r).mem

-- =============================================================== one entry

/-- Null is not given to the heap, and nothing is unmapped for it: the
pager refuses a request without bytes. -/
theorem processFree_null (h : ProcOk o others r) :
    processFree o.process 0#32 r = r
      ∧ processFreeReleases o.process 0#32 r = [] := by
  unfold processFree processFreeReleases
  cases hfound : processGetAllocationByAddr r.mem o.process 0#32 with
  | none => exact ⟨rfl, rfl⟩
  | some i =>
      obtain ⟨hi, hnull⟩ := allocIndex_some hfound
      simp only
      rw [hnull, h.empty i hi hnull, mapAllocation_null]
      exact ⟨rfl, rfl⟩

/-- An entry with a pointer is found by it, and no other is. -/
theorem processGetAllocationByAddr_entry (h : ProcOk o others r) {i : Nat}
    (hi : i < benosMaxProgramAllocations)
    (hptr : allocPtr r.mem o.process i ≠ 0#32) :
    processGetAllocationByAddr r.mem o.process (allocPtr r.mem o.process i)
      = some i := by
  cases hfound : processGetAllocationByAddr r.mem o.process
      (allocPtr r.mem o.process i) with
  | none => exact absurd rfl (allocIndex_none hfound i hi)
  | some j =>
      obtain ⟨hj, heq⟩ := allocIndex_some hfound
      by_cases hij : i = j
      · rw [hij]
      · exact absurd heq (h.allocPtr_ne hi hj hij hptr)

/-- The run of an entry with a pointer is given back. -/
theorem processFree_entry (h : ProcOk o others r) {i : Nat}
    (hi : i < benosMaxProgramAllocations)
    (hptr : allocPtr r.mem o.process i ≠ 0#32) :
    processFreeReleases o.process (allocPtr r.mem o.process i) r
        = [allocPtr r.mem o.process i]
      ∧ ∃ m', Struck o r.mem i m'
        ∧ processFree o.process (allocPtr r.mem o.process i) r
          = kfree (allocPtr r.mem o.process i) { r with mem := m' } := by
  have hfound := processGetAllocationByAddr_entry h hi hptr
  obtain ⟨hmap, hstruck⟩ := processFree_struck h hfound hptr
  refine ⟨?_, hstruck⟩
  unfold processFreeReleases
  rw [hfound]
  simp only
  rw [hmap, if_neg (Int.lt_irrefl 0)]

-- ================================================================ the loop

/-- The allocations the first `n` entries record. -/
def recordedBefore (m : Bytes) (process : Addr) (n : Nat) :
    List (Addr × Nat) :=
  (List.range n).filterMap (recordAt m process)

theorem recordedBefore_succ (m : Bytes) (process : Addr) (n : Nat) :
    recordedBefore m process (n + 1)
      = recordedBefore m process n ++ (recordAt m process n).toList := by
  unfold recordedBefore
  rw [List.range_succ, List.filterMap_append]
  refine congrArg _ ?_
  rw [List.filterMap_cons]
  cases recordAt m process n with
  | none => rfl
  | some a => rfl

/-- After `n` rounds the first `n` entries are empty and their runs given
back; the process lives on with the others. -/
structure Swept (o : Objects) (others : List (Addr × Nat)) (r : Ram) (n : Nat)
    (r' : Ram) : Prop where
  ok : ProcOk o others r'
  slots : ∀ j < benosMaxProgramAllocations,
    allocPtr r'.mem o.process j
        = (if j < n then 0#32 else allocPtr r.mem o.process j)
      ∧ allocSize r'.mem o.process j
        = if j < n then 0#32 else allocSize r.mem o.process j
  back : GivenBack o (recordedBefore r.mem o.process n) r r'

/-- The first `n + 1` entries are entry `n` and the first `n`. -/
theorem ite_lt_succ {α : Type} (a b : α) (j n : Nat) :
    (if j < n + 1 then a else b)
      = if j = n then a else if j < n then a else b := by
  rcases Nat.lt_trichotomy j n with hlt | heq | hgt
  · rw [if_pos (by omega), if_neg (by omega), if_pos hlt]
  · rw [if_pos (by omega), if_pos heq]
  · rw [if_neg (by omega), if_neg (by omega), if_neg (by omega)]

/-- A round at an empty entry. -/
theorem Swept.empty_entry {n : Nat} (hn : n < benosMaxProgramAllocations)
    (h : Swept o others r n r') (hnull : allocPtr r.mem o.process n = 0#32) :
    Swept o others r (n + 1) r' := by
  have hsize : allocSize r.mem o.process n = 0#32 := by
    have hslot := h.slots n hn
    rw [if_neg (Nat.lt_irrefl n), if_neg (Nat.lt_irrefl n)] at hslot
    rw [← hslot.2]
    exact h.ok.empty n hn (hslot.1.trans hnull)
  refine ⟨h.ok, fun j hj => ?_, ?_⟩
  · obtain ⟨hptr, hsz⟩ := h.slots j hj
    rw [ite_lt_succ, ite_lt_succ, hptr, hsz]
    by_cases hjn : j = n
    · rw [if_pos hjn, if_pos hjn, hjn, hnull, hsize]
      exact ⟨ite_self _, ite_self _⟩
    · rw [if_neg hjn, if_neg hjn]
      exact ⟨rfl, rfl⟩
  · rw [recordedBefore_succ]
    unfold recordAt
    rw [if_pos hnull]
    simp only [Option.toList_none, List.append_nil]
    exact h.back

/-- A round at an entry with a pointer. -/
theorem Swept.entry {n : Nat} (hn : n < benosMaxProgramAllocations)
    (h : Swept o others r n r') (hram : r.heap.saddr = benosHeadAddress)
    (hptr : allocPtr r.mem o.process n ≠ 0#32) :
    Swept o others r (n + 1)
        (processFree o.process (allocPtr r.mem o.process n) r')
      ∧ processFreeReleases o.process (allocPtr r.mem o.process n) r'
        = [allocPtr r.mem o.process n] := by
  obtain ⟨hsame, hsize⟩ := h.slots n hn
  rw [if_neg (Nat.lt_irrefl n)] at hsame hsize
  rw [← hsame] at hptr ⊢
  have hfound := processGetAllocationByAddr_entry h.ok hn hptr
  have hred := processFree_found h.ok hfound hptr
  obtain ⟨hrel, m', hstruck, hres⟩ := processFree_entry h.ok hn hptr
  refine ⟨⟨hred.ok, fun j hj => ?_, ?_⟩, hrel⟩
  · obtain ⟨hp, hs⟩ := hstruck.slots j hj
    obtain ⟨hp', hs'⟩ := h.slots j hj
    rw [hres, kfree_mem]
    simp only
    rw [hp, hs, hp', hs', ite_lt_succ, ite_lt_succ]
    exact ⟨rfl, rfl⟩
  · have hlast : (recordAt r.mem o.process n).toList
        = [(allocPtr r'.mem o.process n,
          blocksFor (allocSize r'.mem o.process n).toNat)] := by
      unfold recordAt
      rw [← hsame, ← hsize, if_neg hptr]
      rfl
    rw [recordedBefore_succ, hlast]
    refine h.back.snoc h.ok.ram
      (List.mem_append_left _ (mem_recorded hn hptr))
      (h.ok.ram.saddr.trans hram.symm) ?_ hred.view
    rw [hres, kfree_heap]

/-- The loop goes through the entries one by one and gives each run to the
heap, in the order of the table. -/
theorem swept (h : ProcOk o others r) (n : Nat) :
    n ≤ benosMaxProgramAllocations →
      Swept o others r n (terminateAllocations o.process n r)
        ∧ terminateReleases o.process n r
          = (recordedBefore r.mem o.process n).map Prod.fst := by
  induction n with
  | zero =>
      intro _
      refine ⟨⟨h, fun j _ => ?_, ?_⟩, rfl⟩
      · rw [if_neg (Nat.not_lt_zero j), if_neg (Nat.not_lt_zero j)]
        exact ⟨rfl, rfl⟩
      · exact GivenBack.refl r
  | succ n ih =>
      intro hn
      obtain ⟨hswept, hrel⟩ := ih (by omega)
      have hslot := (hswept.slots n (by omega)).1
      rw [if_neg (Nat.lt_irrefl n)] at hslot
      unfold terminateAllocations terminateReleases
      simp only
      rw [hslot, hrel, recordedBefore_succ, List.map_append]
      by_cases hnull : allocPtr r.mem o.process n = 0#32
      · obtain ⟨hfree, hnone⟩ := processFree_null hswept.ok
        rw [hnull, hfree, hnone]
        unfold recordAt
        rw [if_pos hnull]
        exact ⟨hswept.empty_entry (by omega) hnull, rfl⟩
      · obtain ⟨hswept', hone⟩ :=
          hswept.entry (by omega) h.ram.saddr hnull
        rw [hone]
        unfold recordAt
        rw [if_neg hnull]
        exact ⟨hswept', rfl⟩

/-- A live process is torn down. -/
theorem ProcOk.tornDown (h : ProcOk o others r) : TornDown o r := by
  obtain ⟨hswept, hrel⟩ := swept h benosMaxProgramAllocations (Nat.le_refl _)
  refine ⟨fun i hi => ?_, hrel, h.ram.nodup_fst, hswept.back,
    hswept.ok.links⟩
  obtain ⟨hptr, hsize⟩ := hswept.slots i hi
  rw [if_pos hi] at hptr hsize
  exact ⟨hptr, hsize⟩

-- ================================================================ the calls

/-- One call of a process: a request of any size of at least a byte, or
the release of any pointer. -/
def callStep (process : Addr) (r : Ram) : AllocOp → Option Ram
  | .malloc size =>
      if 1 ≤ size ∧ size < 2 ^ 32 then some (processMalloc process size r).2
      else none
  | .free ptr => some (processFree process ptr r)

theorem callStep_malloc (process : Addr) (r : Ram) {size : Nat}
    (hlo : 1 ≤ size) (hsize : size < 2 ^ 32) :
    callStep process r (.malloc size)
      = some (processMalloc process size r).2 := by
  unfold callStep
  exact if_pos ⟨hlo, hsize⟩

/-- A request finds a run of free blocks long enough, or a table that does
not end in a free block. -/
def RequestGuard (r : Ram) (op : AllocOp) (_ : Ram) : Prop :=
  match op with
  | .malloc size => SizeGuard r.heap size
  | .free _ => True

/-- A request that meets the guard keeps the process alive. -/
theorem procOk_processMalloc (h : ProcOk o others r) {size : Nat}
    (hlo : 1 ≤ size) (hsize : size < 2 ^ 32)
    (hguard : SizeGuard r.heap size) :
    ProcOk o others (processMalloc o.process size r).2 := by
  rcases heapMalloc_of_guard (h.ram.inMemory) hlo hsize hguard with
    hserves | hnull
  · rcases processMalloc_spec h hlo hserves rfl with ⟨-, hun⟩ | ⟨-, hext⟩
    · exact hun.ok
    · exact hext.ok
  · rw [processMalloc_of_refused o.process hnull]
    exact ⟨h.ram.of_heap rfl, h.links, h.empty⟩

/-- A release of whatever pointer does. -/
theorem procOk_processFree (h : ProcOk o others r) (ptr : Addr) :
    ProcOk o others (processFree o.process ptr r) := by
  rcases processFree_spec h ptr with ⟨-, hsame⟩ | ⟨-, n, -, hred⟩
  · rw [hsame]
    exact h
  · exact hred.ok

/-- One call keeps the process alive. -/
theorem procOk_callStep (h : ProcOk o others r) {op : AllocOp}
    (hstep : callStep o.process r op = some r')
    (hguard : RequestGuard r op r') : ProcOk o others r' := by
  cases op with
  | malloc size =>
      unfold callStep at hstep
      simp only at hstep
      split at hstep
      case isFalse => cases hstep
      case isTrue hsize =>
        rw [← Option.some.inj hstep]
        exact procOk_processMalloc h hsize.1 hsize.2 hguard
  | free ptr =>
      rw [← Option.some.inj hstep]
      exact procOk_processFree h ptr

/-- From the start of a process on, over any sequence of `process_malloc`
and `process_free` whose requests meet the guard: in every state it goes
through, `process_terminate_allocations` empties the table, gives every
run of it to the heap exactly once and unmaps its pages, and changes no
other block and no other page. -/
theorem process_teardown (h : Fresh o others r) {ops : List AllocOp}
    (hguard : Along (callStep o.process) RequestGuard r ops) :
    TornDown o r
      ∧ Along (callStep o.process) (fun _ _ r' => TornDown o r') r ops := by
  refine ⟨h.ok.tornDown, ?_⟩
  refine along_of_inv (I := ProcOk o others) ?_ ?_ h.ok hguard
  · intro r op r' hok hstep hg
    exact procOk_callStep hok hstep hg
  · intro r op r' hok hstep hg
    exact (procOk_callStep hok hstep hg).tornDown

/-- A process asks for two blocks, gives back null, and gives back the
blocks. -/
theorem process_teardown_two_blocks :
    Along (callStep (objectsAt 0).process)
      (fun _ _ r' => TornDown (objectsAt 0) r') twoFresh
      [.malloc 5000, .free 0#32, .free 0x0180C000#32] := by
  refine (process_teardown fresh_first ?_).2
  have hserves := serves_twoFresh 5000 (by decide)
  refine (along_cons_of_step
    (callStep_malloc _ _ (by decide) (by decide))).mpr ⟨?_, ?_⟩
  · exact Or.inl ⟨by decide, by decide, hserves⟩
  · refine (along_cons_of_step rfl).mpr ⟨trivial, ?_⟩
    exact (along_cons_of_step rfl).mpr ⟨trivial, trivial⟩

-- ======================================================= outside the guard

/-- A block that `kzalloc` answers with is mapped and recorded, as long as
an entry of the table is empty. -/
theorem processMalloc_recorded (hap : o.Apart) {size : Nat} {ptr : Addr}
    {r₁ : Ram} (hkz : kzalloc size r = (ptr, r₁)) (hne : ptr ≠ 0#32)
    (hl : o.Links r₁.mem)
    (hslot : ∃ i < benosMaxProgramAllocations,
      allocPtr r₁.mem o.process i = 0#32)
    (hsize : size < 2 ^ 32) (hlo : 1 ≤ size)
    (hpage : ptr.toNat % pagingPageSize = 0)
    (hfit : ptr.toNat + blockBytes (blocksFor size) ≤ 2 ^ 31) :
    ∃ m, (processMalloc o.process size r).2 = { r₁ with mem := m }
      ∧ (ptr, blocksFor size) ∈ recorded m o.process := by
  have hval : (BitVec.ofNat 32 size).toNat = size := by
    rw [BitVec.toNat_ofNat]
    omega
  obtain ⟨j, hj, hnull⟩ := hslot
  cases hidx : allocIndex r₁.mem o.process 0#32 with
  | none => exact absurd hnull (allocIndex_none hidx j hj)
  | some i =>
      obtain ⟨hi, -⟩ := allocIndex_some hidx
      obtain ⟨m, hmap, -, hslots⟩ := mapAllocation_setAllocation hap hl
        (BitVec.ofNat 32 size) allocFlags hpage
        (by rw [hval]; exact blocksFor_pos hlo) (by rw [hval]; exact hfit) hi
      obtain ⟨hptr, hsz⟩ := hslots i hi
      rw [if_pos rfl] at hptr hsz
      refine ⟨setAllocation m o.process i ptr (BitVec.ofNat 32 size), ?_, ?_⟩
      · unfold processMalloc
        simp only
        rw [hkz]
        simp only
        rw [if_neg hne]
        unfold processFindFreeAllocIndex
        rw [hidx]
        simp only
        rw [if_neg (by omega), hmap, if_neg (Int.lt_irrefl 0),
          Int.toNat_natCast]
      · have hrec := mem_recorded hi (hptr ▸ hne)
        rwa [hptr, hsz, hval] at hrec

/-- The short run at the table's end is given to a request that finds no
run long enough, mapped and recorded like any other. -/
theorem processMalloc_cut (h : ProcOk o others r) {size : Nat} (hlo : 1 ≤ size)
    (hhi : size ≤ 2 ^ 30) (hguard : ¬ SizeGuard r.heap size)
    (hslot : ∃ i < benosMaxProgramAllocations,
      allocPtr r.mem o.process i = 0#32) :
    ∃ b m served, b < r.heap.table.total
      ∧ r.heap.table.total < b + blocksFor size
      ∧ (processMalloc o.process size r).2
        = ⟨heapMarkBlocksTaken r.heap b (blocksFor size), m, served⟩
      ∧ (blockAddress b, blocksFor size) ∈ recorded m o.process := by
  have hrange : size ≤ 0xFFFFF000 := Nat.le_trans hhi (by decide)
  have hcase := heapMalloc_cases r.heap hlo hrange
  generalize hq : heapMalloc r.heap size = q at hcase
  cases hcase with
  | found hfit =>
      exact absurd (Or.inl ⟨hlo, hrange, hfit.hasFreeRun⟩) hguard
  | full _ hlast => exact absurd (Or.inr hlast) hguard
  | @cut b hnone htrail =>
      have hb := htrail.below
      have htotal := h.ram.total
      simp only [kernelHeapBlocks] at htotal
      have hshort : r.heap.table.total < b + blocksFor size := by
        by_contra hfits
        exact hnone ⟨b, by omega, fun i hi hi' =>
          htrail.run i hi (by omega)⟩
      rw [heapBlockToAddress_eq r.heap h.ram.saddr] at hq
      have haddr := toNat_blockAddress (b := b) (by omega)
      have hne : blockAddress b ≠ 0#32 := blockAddress_ne_null (by omega)
      have hhead : benosHeadAddress.toNat = 0x01000000 := rfl
      have hgranted : (heapMalloc r.heap size).1 ≠ 0#32 := by
        rw [hq]
        exact hne
      have hkz := kzalloc_of_ne_null hgranted
      rw [hq] at hkz
      obtain ⟨hlinks, htable, -, -⟩ := @ProcOk.keep o others r h
        ⟨r.heap, memset r.mem (blockAddress b) 0x00 size, r.served⟩
        fun c hc => h.ram.sameOn_trailing htrail hhi hc
      obtain ⟨j, hj, hnull⟩ := hslot
      obtain ⟨m, hres, hrec⟩ := processMalloc_recorded h.apart hkz hne hlinks
        ⟨j, hj, (htable j hj).1.trans hnull⟩ (by omega) hlo
        (by
          rw [haddr, hhead]
          simp only [benosHeapBlockSize, pagingPageSize]
          omega)
        (by
          rw [haddr, hhead]
          simp only [blockBytes, blocksFor, benosHeapBlockSize]
          omega)
      exact ⟨b, m, _, hb, hshort, hres, hrec⟩

/-- No release frees what is marked behind the table. -/
theorem foldl_heapFree_behind (ptrs : List Addr) (j : Int) :
    ∀ heap : Heap, heap.table.total ≤ j →
      (ptrs.foldl heapFree heap).table.entries j = heap.table.entries j := by
  induction ptrs with
  | nil => exact fun _ _ => rfl
  | cons ptr ptrs ih =>
      intro heap hj
      rw [List.foldl_cons]
      have hout : j ∉ heapFreeTouched heap ptr := by
        intro hin
        have hrange := heapFreeTouched_range.1 j hin
        omega
      exact (ih (heapFree heap ptr) hj).trans (heapFree_untouched hout)

theorem terminateAllocations_behind {process : Addr} {n : Nat}
    (hr : r' = terminateAllocations process n r) (j : Int)
    (hj : r.heap.table.total ≤ j) :
    r'.heap.table.entries j = r.heap.table.entries j := by
  rw [hr, terminateAllocations_heap]
  exact foldl_heapFree_behind _ j r.heap hj

/-- Outside the guard the process is not torn down: the run it is given
goes on behind the table, and what is marked there stays. -/
theorem not_tornDown_of_cut (h : ProcOk o others r) {size : Nat}
    (hlo : 1 ≤ size) (hhi : size ≤ 2 ^ 30) (hguard : ¬ SizeGuard r.heap size)
    (hslot : ∃ i < benosMaxProgramAllocations,
      allocPtr r.mem o.process i = 0#32) :
    ¬ TornDown o (processMalloc o.process size r).2 := by
  intro hdown
  obtain ⟨b, m, served, hb, hshort, hres, hrec⟩ :=
    processMalloc_cut h hlo hhi hguard hslot
  rw [hres] at hdown
  have htotal := h.ram.total
  have hhead : benosHeadAddress.toNat = 0x01000000 := rfl
  have haddr := toNat_blockAddress (b := b) (by
    simp only [kernelHeapBlocks] at htotal
    omega)
  have hsub : (blockAddress b - r.heap.saddr).toNat
      = b * benosHeapBlockSize := by
    rw [BitVec.toNat_sub, haddr, h.ram.saddr, hhead]
    simp only [benosHeapBlockSize, kernelHeapBlocks] at *
    omega
  have hblock : heapAddressToBlock
      (heapMarkBlocksTaken r.heap b (blocksFor size)) (blockAddress b) = b := by
    refine heapAddressToBlock_eq _ hsub ?_
    rw [heapMarkBlocksTaken_saddr, hsub]
    simp only [benosHeapBlockSize, kernelHeapBlocks] at *
    omega
  -- the entry right behind the table
  have hfree := hdown.back.freed _ hrec r.heap.table.total (by
    unfold InRun
    simp only
    rw [hblock]
    omega)
  have hloop : processTerminateAllocations o.process
      ⟨heapMarkBlocksTaken r.heap b (blocksFor size), m, served⟩
      = terminateAllocations o.process benosMaxProgramAllocations
        ⟨heapMarkBlocksTaken r.heap b (blocksFor size), m, served⟩ := rfl
  have hkept :=
    terminateAllocations_behind hloop r.heap.table.total (Int.le_refl _)
  have hmarked := hkept.symm.trans hfree
  simp only at hmarked
  rw [heapMarkBlocksTaken_entries r.heap (blocksFor_pos hlo),
    if_pos (by omega)] at hmarked
  exact entryType_chainEntry _ _ (congrArg heapGetEntryType hmarked)

/-- It is not so for every request: 25601 blocks are asked of a heap that
has 25600. -/
theorem tornDown_beyond_table :
    ¬ ∀ (o : Objects) (others : List (Addr × Nat)) (r : Ram),
      Fresh o others r → ∀ ops : List AllocOp,
        TornDown o r
          ∧ Along (callStep o.process) (fun _ _ r' => TornDown o r') r ops := by
  intro hall
  obtain ⟨-, htotal, hfree⟩ := ramOk_twoFresh
  obtain ⟨-, hrun⟩ := hall _ _ _ fresh_first [.malloc 0x06401000]
  have hdown := ((along_cons_of_step
    (callStep_malloc _ _ (by decide) (by decide))).mp hrun).1
  refine not_tornDown_of_cut fresh_first.ok (by decide) (by decide) ?_
    ⟨0, by decide, fresh_first.empty 0 (by decide)⟩ hdown
  rintro (⟨-, -, b, hin, -⟩ | hzero | htaken)
  · rw [htotal] at hin
    simp only [blocksFor, kernelHeapBlocks, benosHeapBlockSize] at hin
    omega
  · rw [htotal] at hzero
    simp only [kernelHeapBlocks] at hzero
    omega
  · rw [htotal] at htaken
    exact htaken (hfree _ (by decide))

end BenOS.Kernel
