/-
What one call of `process_malloc` or `process_free` does.

The heap, the allocation table and the page directory are changed by
separate calls. `processMalloc_spec` and `processFree_spec` gather what
they come to: a request that is granted adds one run to all three
(`Extended`), a release takes one off them (`Reduced`), anything else
leaves them alone; and in each case every block of another owner keeps
its bytes.
-/
import BenOS.Kernel.Proofs.Objects

namespace BenOS.Kernel

open Lib Memory

variable {o : Objects} {others : List (Addr × Nat)} {r : Ram}

-- ================================================================== frames

/-- Memories that agree on the struct have the same allocation table. -/
theorem alloc_congr {m m' : Bytes} {process : Addr}
    (h : SameOn process (blockBytes 3) m m') {i : Nat}
    (hi : i < benosMaxProgramAllocations) :
    allocPtr m' process i = allocPtr m process i
      ∧ allocSize m' process i = allocSize m process i := by
  have hsize : blockBytes 3 = 12288 := rfl
  rw [hsize] at h
  simp only [benosMaxProgramAllocations] at hi
  constructor
  · refine load32_congr (h.part ?_)
    simp only [BitVec.toNat_ofNat, offAllocations, sizeofProcessAllocation]
    omega
  · refine load32_congr (h.part ?_)
    simp only [BitVec.toNat_ofNat, offAllocations, sizeofProcessAllocation]
    omega

theorem recorded_congr {m m' : Bytes} {process : Addr}
    (h : ∀ i < benosMaxProgramAllocations,
      allocPtr m' process i = allocPtr m process i
        ∧ allocSize m' process i = allocSize m process i) :
    recorded m' process = recorded m process := by
  refine List.filterMap_congr fun i hi => ?_
  obtain ⟨hptr, hsize⟩ := h i (List.mem_range.mp hi)
  unfold recordAt
  rw [hptr, hsize]

/-- Memories that agree outside the page tables agree on the struct and
link the objects alike. -/
theorem sameOn_process_of_outside (hap : o.Apart) {m m' : Bytes}
    (h : ∀ x, ¬ InTables o.parts x → m' x = m x) :
    SameOn o.process (blockBytes 3) m m' :=
  fun x hx => h x fun ⟨i, hi, hin⟩ => hap.process_table i hi x hx hin

theorem links_of_outside (hap : o.Apart) {m m' : Bytes} (hl : o.Links m)
    (h : ∀ x, ¬ InTables o.parts x → m' x = m x) : o.Links m' := by
  refine hl.congr ((sameOn_process_of_outside hap h).part (by decide)) ?_ ?_ ?_
  · exact fun x hx => h x fun ⟨i, hi, hin⟩ => hap.task_table i hi x hx hin
  · exact fun x hx => h x fun ⟨i, hi, hin⟩ => hap.dir.chunk i hi x hin hx
  · exact fun x hx => h x fun ⟨i, hi, hin⟩ => hap.dir.dir i hi x hin hx

/-- Memories that agree on the page tables have the same directory. -/
theorem dirView_congr {m m' : Bytes} (hl : o.Links m) (hl' : o.Links m')
    (h : ∀ i < pagingTotalEntriesPerTable,
      SameOn (o.parts.table i) pagingPageSize m m') :
    dirView m' o.parts.dir = dirView m o.parts.dir := by
  funext v
  unfold dirView pagingGet
  rw [pagingEntryAddress_eq hl'.dirOk, pagingEntryAddress_eq hl.dirOk]
  refine load32_congr fun x hx => h _ (entryTable_lt v) x ?_
  exact InSpan.of_part hx (entryAddress_part _)

/-- Memories that agree outside the allocation table link the objects
alike, and have the same directory. -/
theorem links_of_outside_table (hap : o.Apart) {m m' : Bytes}
    (hl : o.Links m) (h : ∀ x, ¬ InTable o.process x → m' x = m x) :
    o.Links m' ∧ dirView m' o.parts.dir = dirView m o.parts.dir := by
  have hin : ∀ x, InTable o.process x → InSpan o.process (blockBytes 3) x :=
    fun x hx => InSpan.of_part hx (by decide)
  have hlinks : o.Links m' := by
    refine hl.congr ?_ ?_ ?_ ?_
    · refine fun x hx => h x fun hx' => ?_
      exact spansApart_fields o.process (n := 4)
        (k := sizeofProcessAllocation * benosMaxProgramAllocations)
        (by decide) (by decide) x hx hx'
    · exact fun x hx => h x fun hx' => hap.process_task x (hin x hx') hx
    · exact fun x hx => h x fun hx' => hap.process_chunk x (hin x hx') hx
    · exact fun x hx => h x fun hx' => hap.process_dir x (hin x hx') hx
  refine ⟨hlinks, dirView_congr hl hlinks fun i hi x hx => h x fun hx' => ?_⟩
  exact hap.process_table i hi x (hin x hx') hx

-- ================================================================= mapping

/-- What mapping an allocation asks for. -/
def allocRequest (ptr : Addr) (n : Nat) (flags : BitVec 32) : MapReq :=
  ⟨pageOf ptr, pageOf ptr, n, flags⟩

/-- The heap rounds a size up to blocks as the pager rounds its end up to
a page. -/
theorem pagingAlignAddress_end {ptr : Addr} {size : BitVec 32}
    (hpage : ptr.toNat % pagingPageSize = 0)
    (hfit : ptr.toNat + blockBytes (blocksFor size.toNat) ≤ 2 ^ 31) :
    (pagingAlignAddress (ptr + size)).toNat
      = ptr.toNat + blockBytes (blocksFor size.toNat) := by
  have hsize := size_le_blockBytes size.toNat
  have hsum : (ptr + size).toNat = ptr.toNat + size.toNat := by
    rw [BitVec.toNat_add]
    omega
  rw [toNat_pagingAlignAddress (by
    simp only [pagingPageSize]
    omega), hsum]
  simp only [blockBytes, blocksFor, benosHeapBlockSize, pagingPageSize] at *
  omega

/-- An allocation is mapped: every page of it to itself, with the flags
given. -/
theorem mapAllocation_spec (hap : o.Apart) {m : Bytes} (hl : o.Links m)
    {ptr : Addr} (size flags : BitVec 32)
    (hpage : ptr.toNat % pagingPageSize = 0)
    (hn : 1 ≤ blocksFor size.toNat)
    (hfit : ptr.toNat + blockBytes (blocksFor size.toNat) ≤ 2 ^ 31) :
    ∃ m', mapAllocation m o.process ptr size flags = (0, m')
      ∧ Views o.parts m m' (patch MapReq.covers MapReq.value
          (allocRequest ptr (blocksFor size.toNat) flags)
          (dirView m o.parts.dir)) := by
  have hend := pagingAlignAddress_end hpage hfit
  have hchunk := hl.pageDirectory
  have hdir := pagingMapTo_dir (pageOf ptr) (pageOf ptr) flags
    (dirView m o.parts.dir) (pagingAlignAddress_aligned (ptr + size))
  have hpages : (pagingAlignAddress (ptr + size) - ptr).toNat / pagingPageSize
      = blocksFor size.toNat := by
    rw [BitVec.toNat_sub, hend]
    simp only [blockBytes, benosHeapBlockSize, pagingPageSize] at *
    omega
  rw [pageAddress_pageOf hpage, if_neg (by
    rw [hend]
    simp only [blockBytes, benosHeapBlockSize]
    omega), hpages] at hdir
  obtain ⟨hres, hviews⟩ := pagingMapTo_view hap.dir hl.dirOk ptr ptr
    (pagingAlignAddress (ptr + size)) flags
  rw [hdir] at hres hviews
  refine ⟨_, ?_, hviews⟩
  unfold mapAllocation
  rw [hchunk]
  exact Prod.ext hres rfl

/-- Where an allocation has no bytes nothing is mapped. -/
theorem mapAllocation_null (m : Bytes) (process : Addr) (flags : BitVec 32) :
    mapAllocation m process 0#32 0#32 flags = (-einvarg, m) := by
  unfold mapAllocation pagingMapTo
  rw [if_neg (by decide), if_neg (by decide), if_neg (by decide),
    if_pos (by decide)]

/-- An allocation is mapped and entered in the table: the entries
afterwards. -/
theorem mapAllocation_setAllocation (hap : o.Apart) {m : Bytes}
    (hl : o.Links m) {ptr : Addr} (size flags : BitVec 32)
    (hpage : ptr.toNat % pagingPageSize = 0)
    (hn : 1 ≤ blocksFor size.toNat)
    (hfit : ptr.toNat + blockBytes (blocksFor size.toNat) ≤ 2 ^ 31) {i : Nat}
    (hi : i < benosMaxProgramAllocations) :
    ∃ m', mapAllocation m o.process ptr size flags = (0, m')
      ∧ Views o.parts m m' (patch MapReq.covers MapReq.value
          (allocRequest ptr (blocksFor size.toNat) flags)
          (dirView m o.parts.dir))
      ∧ ∀ j < benosMaxProgramAllocations,
        allocPtr (setAllocation m' o.process i ptr size) o.process j
            = (if j = i then ptr else allocPtr m o.process j)
          ∧ allocSize (setAllocation m' o.process i ptr size) o.process j
            = if j = i then size else allocSize m o.process j := by
  obtain ⟨m', hmap, hviews⟩ :=
    mapAllocation_spec hap hl size flags hpage hn hfit
  refine ⟨m', hmap, hviews, fun j hj => ?_⟩
  obtain ⟨-, -, hout⟩ := hviews
  obtain ⟨hptr, hsz⟩ := alloc_congr (sameOn_process_of_outside hap hout) hj
  rw [allocPtr_setAllocation m' o.process ptr size hi hj,
    allocSize_setAllocation m' o.process ptr size hi hj, hptr, hsz]
  exact ⟨rfl, rfl⟩

-- ========================================================== process_malloc

/-- One run more: the process lives on with the run recorded, its pages
are mapped to themselves for the user, and other owners keep their
bytes. -/
structure Extended (o : Objects) (others : List (Addr × Nat)) (r : Ram)
    (a : Addr × Nat) (r' : Ram) : Prop where
  ok : ProcOk o others r'
  recorded : (recorded r'.mem o.process).Perm
    (a :: recorded r.mem o.process)
  view : dirView r'.mem o.parts.dir = patch MapReq.covers MapReq.value
    (allocRequest a.1 a.2 allocFlags) (dirView r.mem o.parts.dir)
  frame : ∀ c ∈ others, SameOn c.1 (blockBytes c.2) r.mem r'.mem

/-- Nothing has changed: not the heap, the allocation table or the page
directory, and other owners keep their bytes. -/
structure Unchanged (o : Objects) (others : List (Addr × Nat)) (r r' : Ram) :
    Prop where
  ok : ProcOk o others r'
  heap : r'.heap = r.heap
  table : ∀ i < benosMaxProgramAllocations,
    allocPtr r'.mem o.process i = allocPtr r.mem o.process i
      ∧ allocSize r'.mem o.process i = allocSize r.mem o.process i
  view : dirView r'.mem o.parts.dir = dirView r.mem o.parts.dir
  objects : ∀ c ∈ o.owned, SameOn c.1 (blockBytes c.2) r.mem r'.mem
  frame : ∀ c ∈ others, SameOn c.1 (blockBytes c.2) r.mem r'.mem

/-- The objects of a live process are apart. -/
theorem ProcOk.apart (h : ProcOk o others r) : o.Apart := by
  have hperm : (recorded r.mem o.process ++ (o.owned ++ others)).Perm
      (o.owned ++ (others ++ recorded r.mem o.process)) := by
    rw [← List.append_assoc o.owned]
    exact List.perm_append_comm
  exact Objects.owned_apart (h.ram.perm hperm)

/-- A memory that keeps the objects links them alike, and has the same
allocation table and the same directory. -/
theorem Objects.keep {m m' : Bytes} (hl : o.Links m)
    (hsame : ∀ c ∈ o.owned, SameOn c.1 (blockBytes c.2) m m') :
    SameOn o.process (blockBytes 3) m m' ∧ o.Links m'
      ∧ dirView m' o.parts.dir = dirView m o.parts.dir := by
  have hpage : blockBytes 1 = pagingPageSize := rfl
  have hprocess : SameOn o.process (blockBytes 3) m m' :=
    hsame (o.process, 3) List.mem_cons_self
  have htask : SameOn o.task (blockBytes 1) m m' :=
    hsame (o.task, 1) (List.mem_cons_of_mem _ List.mem_cons_self)
  have hchunk : SameOn o.parts.chunk (blockBytes 1) m m' :=
    hsame (o.parts.chunk, 1)
      (List.mem_cons_of_mem _ (List.mem_cons_of_mem _ List.mem_cons_self))
  have hdir : SameOn o.parts.dir (blockBytes 1) m m' :=
    hsame (o.parts.dir, 1) (List.mem_cons_of_mem _
      (List.mem_cons_of_mem _ (List.mem_cons_of_mem _ List.mem_cons_self)))
  have htable : ∀ i < pagingTotalEntriesPerTable,
      SameOn (o.parts.table i) (blockBytes 1) m m' := fun i hi =>
    hsame (o.parts.table i, 1) (List.mem_cons_of_mem _
      (List.mem_cons_of_mem _ (List.mem_cons_of_mem _
        (List.mem_cons_of_mem _ (Objects.mem_tables hi)))))
  rw [hpage] at hdir htable
  have hlinks : o.Links m' := by
    refine hl.congr (hprocess.part (by decide)) htask ?_ hdir
    have := hchunk.part (o := 0#32) (l := 4) (by decide)
    rwa [BitVec.add_zero] at this
  exact ⟨hprocess, hlinks, dirView_congr hl hlinks htable⟩

/-- What a heap keeps of every allocation, a process keeps of its own
and of the others. -/
theorem ProcOk.keep (h : ProcOk o others r) {r' : Ram}
    (hsame : ∀ c ∈ recorded r.mem o.process ++ (o.owned ++ others),
      SameOn c.1 (blockBytes c.2) r.mem r'.mem) :
    o.Links r'.mem
      ∧ (∀ i < benosMaxProgramAllocations,
          allocPtr r'.mem o.process i = allocPtr r.mem o.process i
            ∧ allocSize r'.mem o.process i = allocSize r.mem o.process i)
      ∧ dirView r'.mem o.parts.dir = dirView r.mem o.parts.dir
      ∧ ∀ c ∈ others, SameOn c.1 (blockBytes c.2) r.mem r'.mem := by
  obtain ⟨hprocess, hlinks, hview⟩ := Objects.keep h.links fun c hc =>
    hsame c (List.mem_append_right _ (List.mem_append_left _ hc))
  have htable : ∀ i < benosMaxProgramAllocations,
      allocPtr r'.mem o.process i = allocPtr r.mem o.process i
        ∧ allocSize r'.mem o.process i = allocSize r.mem o.process i :=
    fun i hi => alloc_congr hprocess hi
  refine ⟨hlinks, htable, hview, fun c hc => ?_⟩
  exact hsame c (List.mem_append_right _ (List.mem_append_right _ hc))

/-- An index found is one of the table with that pointer, and none means
that no entry has it. -/
theorem allocIndex_some {m : Bytes} {process ptr : Addr} {i : Nat}
    (h : allocIndex m process ptr = some i) :
    i < benosMaxProgramAllocations ∧ allocPtr m process i = ptr := by
  unfold allocIndex at h
  have hmem := List.mem_of_find?_eq_some h
  have hfound := List.find?_some h
  exact ⟨List.mem_range.mp hmem, beq_iff_eq.mp hfound⟩

theorem allocIndex_none {m : Bytes} {process ptr : Addr}
    (h : allocIndex m process ptr = none) :
    ∀ i < benosMaxProgramAllocations, allocPtr m process i ≠ ptr := by
  intro i hi heq
  unfold allocIndex at h
  rw [List.find?_eq_none] at h
  exact h i (List.mem_range.mpr hi) (beq_iff_eq.mpr heq)

/-- A request that the heap refuses is refused. -/
theorem processMalloc_of_refused (process : Addr) {size : Nat}
    (h : heapMalloc r.heap size = (0#32, r.heap)) :
    processMalloc process size r
      = (0#32, { r with
        served := r.served && decide (Serves r.heap size) }) := by
  have hrefused : kzalloc size r = (0#32,
      { r with served := r.served && decide (Serves r.heap size) }) := by
    unfold kzalloc kmalloc
    rw [h]
    exact if_pos rfl
  unfold processMalloc
  simp only
  rw [hrefused, if_pos rfl]

/-- What became of a request that is granted: the block of the heap is
mapped and entered at an empty index. -/
theorem processMalloc_of_granted {process ptr : Addr} {size : Nat} {q : Ram}
    (hq : processMalloc process size r = (ptr, q)) (hne : ptr ≠ 0#32) :
    ∃ r₁ i m, kzalloc size r = (ptr, r₁)
      ∧ allocIndex r₁.mem process 0#32 = some i
      ∧ mapAllocation r₁.mem process ptr (BitVec.ofNat 32 size) allocFlags = m
      ∧ q = { r₁ with
        mem := setAllocation m.2 process i ptr (BitVec.ofNat 32 size) } := by
  unfold processMalloc processFindFreeAllocIndex at hq
  simp only at hq
  generalize kzalloc size r = a at hq ⊢
  obtain ⟨p, r₁⟩ := a
  simp only at hq
  split at hq
  case isTrue => exact absurd (Prod.mk.inj hq).1.symm hne
  case isFalse hp =>
    cases hidx : allocIndex r₁.mem process 0#32 with
    | none =>
        rw [hidx] at hq
        simp only at hq
        rw [if_pos (by decide)] at hq
        exact absurd (Prod.mk.inj hq).1.symm hne
    | some i =>
        rw [hidx] at hq
        simp only at hq
        rw [if_neg (by omega), Int.toNat_natCast] at hq
        split at hq
        case isTrue => exact absurd (Prod.mk.inj hq).1.symm hne
        case isFalse =>
          obtain ⟨rfl, rfl⟩ := Prod.mk.inj hq
          exact ⟨r₁, i, _, rfl, hidx, rfl, rfl⟩

/-- What `process_malloc` answers is what the heap does, and the heap is
left as that leaves it. -/
theorem processMalloc_heap {size : Nat}
    (hne : (processMalloc process size r).1 ≠ 0#32) :
    (processMalloc process size r).1 = (heapMalloc r.heap size).1
      ∧ (processMalloc process size r).2.heap = (heapMalloc r.heap size).2 := by
  rw [← kzalloc_address, ← kzalloc_heap]
  generalize hq : processMalloc process size r = q at hne
  obtain ⟨ptr, q⟩ := q
  obtain ⟨r₁, -, -, hkz, -, -, rfl⟩ := processMalloc_of_granted hq hne
  rw [hkz]
  exact ⟨rfl, rfl⟩

/-- A block that was just allocated and is given back leaves nothing
behind. -/
theorem unchanged_of_granted (h : ProcOk o others r) {size : Nat} {a : Addr}
    {r' : Ram}
    (hg : Granted r (recorded r.mem o.process ++ (o.owned ++ others)) size a
      r') :
    Unchanged o others r (kfree a r') := by
  obtain ⟨hlinks, htable, hview, hframe⟩ :=
    h.keep fun c hc => hg.sameOn hc
  have hrec := recorded_congr htable
  refine ⟨⟨?_, hlinks, ?_⟩, hg.undone, htable, hview, fun c hc => ?_, hframe⟩
  · rw [kfree_mem, hrec]
    exact h.ram.of_heap hg.undone
  · intro i hi hnull
    rw [kfree_mem] at hnull ⊢
    rw [(htable i hi).2]
    exact h.empty i hi ((htable i hi).1.symm.trans hnull)
  · exact hg.sameOn (List.mem_append_right _ (List.mem_append_left _ hc))

/-- The blocks of other owners are apart from every object of the
process. -/
theorem ProcOk.others_apart (h : ProcOk o others r) {c d : Addr × Nat}
    (hc : c ∈ others) (hd : d ∈ o.owned) :
    SpansApart d.1 (blockBytes d.2) c.1 (blockBytes c.2) := by
  have hall := (List.pairwise_append.mp h.ram.spansApart).2.1
  exact (List.pairwise_append.mp hall).2.2 d hd c hc

/-- A memory that changes in the page tables and the allocation table
keeps the blocks of other owners. -/
theorem ProcOk.frame (h : ProcOk o others r) {m m' : Bytes}
    (hout : ∀ x, ¬ InTables o.parts x → ¬ InTable o.process x → m' x = m x) :
    ∀ c ∈ others, SameOn c.1 (blockBytes c.2) m m' := by
  intro c hc x hx
  refine hout x ?_ ?_
  · intro ⟨i, hi, hin⟩
    have hmem : (o.parts.table i, 1) ∈ o.owned := List.mem_cons_of_mem _
      (List.mem_cons_of_mem _ (List.mem_cons_of_mem _
        (List.mem_cons_of_mem _ (Objects.mem_tables hi))))
    have hapart : SpansApart (o.parts.table i) (blockBytes 1) c.1
        (blockBytes c.2) := h.others_apart hc hmem
    have hpage : blockBytes 1 = pagingPageSize := rfl
    rw [hpage] at hapart
    exact hapart x hin hx
  · intro hin
    have hmem : (o.process, 3) ∈ o.owned := List.mem_cons_self
    have hapart : SpansApart o.process (blockBytes 3) c.1 (blockBytes c.2) :=
      h.others_apart hc hmem
    exact hapart x (InSpan.of_part hin (by decide)) hx

/-- A granted block that is mapped and recorded extends the process. -/
theorem extended_of_granted (h : ProcOk o others r) {size : Nat} {a : Addr}
    {r₁ : Ram} (hlo : 1 ≤ size) (hhi : size ≤ 0xFFFFF000)
    (hg : Granted r (recorded r.mem o.process ++ (o.owned ++ others)) size a
      r₁) {i : Nat} (hi : i < benosMaxProgramAllocations)
    (hnull : allocPtr r₁.mem o.process i = 0#32) :
    ∃ m, mapAllocation r₁.mem o.process a (BitVec.ofNat 32 size) allocFlags
        = (0, m)
      ∧ Extended o others r (a, blocksFor size)
          { r₁ with
            mem := setAllocation m o.process i a (BitVec.ofNat 32 size) } := by
  obtain ⟨hlinks, htable, hview, hframe⟩ :=
    h.keep fun c hc => hg.sameOn hc
  have hmem : (a, blocksFor size) ∈ (a, blocksFor size)
      :: (recorded r.mem o.process ++ (o.owned ++ others)) :=
    List.mem_cons_self
  have hsize : (BitVec.ofNat 32 size).toNat = size := by
    rw [BitVec.toNat_ofNat]
    omega
  have hne := hg.ok.ne_null hmem
  have hbelow : a.toNat + blockBytes (blocksFor size) ≤ 2 ^ 31 :=
    Nat.le_trans (hg.ok.below hmem) (by decide)
  obtain ⟨m, hmap, ⟨-, hmview, hout⟩, hslots⟩ := mapAllocation_setAllocation
    h.apart hlinks (BitVec.ofNat 32 size) allocFlags (hg.ok.aligned hmem)
    (by rw [hsize]; exact blocksFor_pos hlo) (by rw [hsize]; exact hbelow) hi
  rw [hsize, hview] at hmview
  refine ⟨m, hmap, ?_⟩
  -- the entries of the table after both stores
  have hafter : ∀ j < benosMaxProgramAllocations,
      allocPtr (setAllocation m o.process i a (BitVec.ofNat 32 size))
          o.process j = (if j = i then a else allocPtr r.mem o.process j)
        ∧ allocSize (setAllocation m o.process i a (BitVec.ofNat 32 size))
          o.process j
          = if j = i then BitVec.ofNat 32 size
            else allocSize r.mem o.process j := by
    intro j hj
    obtain ⟨hptr, hsz⟩ := hslots j hj
    rw [hptr, hsz, (htable j hj).1, (htable j hj).2]
    exact ⟨rfl, rfl⟩
  have hperm : (recorded (setAllocation m o.process i a
      (BitVec.ofNat 32 size)) o.process).Perm
      ((a, blocksFor size) :: recorded r.mem o.process) := by
    refine filterMap_range_perm (i := i) ?_ ?_ _ hi ?_
    · unfold recordAt
      rw [← (htable i hi).1, if_pos hnull]
    · unfold recordAt
      rw [(hafter i hi).1, (hafter i hi).2, if_pos rfl, if_pos rfl,
        if_neg hne, hsize]
    · intro j hj hji
      unfold recordAt
      rw [(hafter j hj).1, (hafter j hj).2, if_neg hji, if_neg hji]
  obtain ⟨hlinks', hview'⟩ := links_of_outside_table h.apart
    (links_of_outside h.apart hlinks hout)
    (fun x hx => setAllocation_outside m o.process a
      (BitVec.ofNat 32 size) hi hx)
  refine ⟨⟨?_, hlinks', ?_⟩, hperm, hview'.trans hmview, ?_⟩
  · have hok := hg.ok.perm (hperm.symm.append_right (o.owned ++ others))
    exact hok.of_heap rfl
  · intro j hj hz
    rw [(hafter j hj).1] at hz
    rw [(hafter j hj).2]
    by_cases hji : j = i
    · rw [if_pos hji] at hz
      exact absurd hz hne
    · rw [if_neg hji] at hz ⊢
      exact h.empty j hj hz
  · intro c hc
    refine (hframe c hc).trans (h.frame (fun x hx hx' => ?_) c hc)
    exact (setAllocation_outside m o.process a _ hi hx').trans (hout x hx)

/-- A served `process_malloc` adds a run to the process, or answers null
and changes nothing. -/
theorem processMalloc_spec (h : ProcOk o others r) {size : Nat}
    (hlo : 1 ≤ size) (hserves : Serves r.heap size) {a : Addr × Ram}
    (ha : processMalloc o.process size r = a) :
    (a.1 = 0#32 ∧ Unchanged o others r a.2)
      ∨ (a.1 ≠ 0#32 ∧ Extended o others r (a.1, blocksFor size) a.2) := by
  obtain ⟨hne, hg⟩ := kzalloc_spec h.ram hlo hserves
  obtain ⟨hhi, -⟩ := heapMalloc_served h.ram hlo hserves
  unfold processMalloc at ha
  simp only at ha
  rw [if_neg hne] at ha
  generalize kzalloc size r = q at hne hg ha
  obtain ⟨ptr, r₁⟩ := q
  simp only at hne hg ha
  unfold processFindFreeAllocIndex at ha
  cases hidx : allocIndex r₁.mem o.process 0#32 with
  | none =>
      rw [hidx] at ha
      simp only at ha
      rw [if_pos (by decide)] at ha
      rw [← ha]
      exact Or.inl ⟨rfl, unchanged_of_granted h hg⟩
  | some i =>
      rw [hidx] at ha
      simp only at ha
      obtain ⟨hi, hnull⟩ := allocIndex_some hidx
      obtain ⟨m, hmap, hext⟩ := extended_of_granted h hlo hhi hg hi hnull
      rw [if_neg (by omega), hmap, if_neg (Int.lt_irrefl 0),
        Int.toNat_natCast] at ha
      rw [← ha]
      exact Or.inr ⟨hne, hext⟩

-- ============================================================ process_free

/-- No two entries of a live process have the same pointer. -/
theorem ProcOk.allocPtr_ne (h : ProcOk o others r) {i j : Nat}
    (hi : i < benosMaxProgramAllocations) (hj : j < benosMaxProgramAllocations)
    (hij : i ≠ j) (hptr : allocPtr r.mem o.process i ≠ 0#32) :
    allocPtr r.mem o.process j ≠ allocPtr r.mem o.process i := by
  intro heq
  have hpos : ∀ c ∈ recorded r.mem o.process, 1 ≤ c.2 := by
    intro c hc
    obtain ⟨b, -, hpos, -⟩ := h.ram.place (List.mem_append_left _ hc)
    exact hpos
  have hall := (List.pairwise_append.mp h.ram.spansApart).1
  unfold recorded at hall
  rw [List.pairwise_filterMap, List.pairwise_iff_getElem] at hall
  -- the lower index first
  have hlt : ∀ {k l : Nat}, l < benosMaxProgramAllocations → k < l →
      allocPtr r.mem o.process k ≠ 0#32 →
      allocPtr r.mem o.process l = allocPtr r.mem o.process k → False := by
    intro k l hl hkl hk heq
    have hpair := hall k l (by rw [List.length_range]; omega)
      (by rw [List.length_range]; omega) hkl
    rw [List.getElem_range, List.getElem_range] at hpair
    have hrec : ∀ {k : Nat}, allocPtr r.mem o.process k ≠ 0#32 →
        recordAt r.mem o.process k = some (allocPtr r.mem o.process k,
          blocksFor (allocSize r.mem o.process k).toNat) := by
      intro k hk
      unfold recordAt
      rw [if_neg hk]
    have hapart := hpair _ (hrec hk) _ (hrec (heq ▸ hk))
    have hk1 := hpos _ (mem_recorded (by omega) hk)
    have hl1 := hpos _ (mem_recorded hl (heq ▸ hk))
    refine hapart (allocPtr r.mem o.process k) ?_ ?_
    · unfold InSpan
      rw [BitVec.sub_self]
      simp only [blockBytes, benosHeapBlockSize, BitVec.toNat_ofNat] at *
      omega
    · unfold InSpan
      rw [heq, BitVec.sub_self]
      simp only [blockBytes, benosHeapBlockSize, BitVec.toNat_ofNat] at *
      omega
  rcases Nat.lt_or_gt_of_ne hij with hlt' | hgt
  · exact hlt hj hlt' hptr heq
  · exact hlt hi hgt (heq ▸ hptr) heq.symm

/-- The entries with the pointer are cleared, the others stay. -/
theorem ujoinLoop_spec (m : Bytes) (process ptr : Addr) (n : Nat) :
    n ≤ benosMaxProgramAllocations →
      (∀ j < benosMaxProgramAllocations,
        allocPtr (ujoinLoop process ptr n m) process j
            = (if j < n ∧ allocPtr m process j = ptr then 0#32
              else allocPtr m process j)
          ∧ allocSize (ujoinLoop process ptr n m) process j
            = if j < n ∧ allocPtr m process j = ptr then 0#32
              else allocSize m process j)
        ∧ ∀ x, ¬ InTable process x → ujoinLoop process ptr n m x = m x := by
  induction n with
  | zero =>
      intro _
      refine ⟨fun j _ => ?_, fun x _ => rfl⟩
      rw [if_neg (by omega), if_neg (by omega)]
      exact ⟨rfl, rfl⟩
  | succ n ih =>
      intro hn
      obtain ⟨htable, hout⟩ := ih (by omega)
      have hn' : n < benosMaxProgramAllocations := by omega
      have hsame : allocPtr (ujoinLoop process ptr n m) process n
          = allocPtr m process n := by
        rw [(htable n hn').1, if_neg (by omega)]
      unfold ujoinLoop
      simp only
      rw [hsame]
      by_cases hhit : allocPtr m process n = ptr
      · rw [if_pos hhit]
        refine ⟨fun j hj => ?_, fun x hx =>
          (setAllocation_outside _ process _ _ hn' hx).trans (hout x hx)⟩
        rw [allocPtr_setAllocation _ process _ _ hn' hj,
          allocSize_setAllocation _ process _ _ hn' hj, (htable j hj).1,
          (htable j hj).2]
        by_cases hjn : j = n
        · subst hjn
          rw [if_pos rfl, if_pos rfl, if_pos ⟨by omega, hhit⟩,
            if_pos ⟨by omega, hhit⟩]
          exact ⟨rfl, rfl⟩
        · have hiff : j < n + 1 ↔ j < n := by omega
          rw [if_neg hjn, if_neg hjn]
          simp only [hiff, and_self]
      · rw [if_neg hhit]
        refine ⟨fun j hj => ?_, hout⟩
        rw [(htable j hj).1, (htable j hj).2]
        have hiff : (j < n + 1 ∧ allocPtr m process j = ptr)
            ↔ (j < n ∧ allocPtr m process j = ptr) := by
          constructor
          · intro ⟨hlt, heq⟩
            have : j ≠ n := fun hjn => hhit (hjn ▸ heq)
            exact ⟨by omega, heq⟩
          · intro ⟨hlt, heq⟩
            exact ⟨by omega, heq⟩
        simp only [hiff, and_self]

/-- `process_allocation_ujoin` clears the entries with the pointer. -/
theorem processAllocationUjoin_spec (m : Bytes) (process ptr : Addr) :
    (∀ j < benosMaxProgramAllocations,
      allocPtr (processAllocationUjoin m process ptr) process j
          = (if allocPtr m process j = ptr then 0#32
            else allocPtr m process j)
        ∧ allocSize (processAllocationUjoin m process ptr) process j
          = if allocPtr m process j = ptr then 0#32
            else allocSize m process j)
      ∧ ∀ x, ¬ InTable process x →
        processAllocationUjoin m process ptr x = m x := by
  obtain ⟨htable, hout⟩ := ujoinLoop_spec m process ptr
    benosMaxProgramAllocations (Nat.le_refl _)
  unfold processAllocationUjoin
  refine ⟨fun j hj => ?_, hout⟩
  obtain ⟨hptr, hsize⟩ := htable j hj
  rw [hptr, hsize]
  simp only [hj, true_and, and_self]

/-- One run less: the process lives on without it, the heap has it back,
its pages have no flags, and other owners keep their bytes. -/
structure Reduced (o : Objects) (others : List (Addr × Nat)) (r : Ram)
    (a : Addr × Nat) (r' : Ram) : Prop where
  ok : ProcOk o others r'
  heap : r'.heap = heapFree r.heap a.1
  recorded : (recorded r.mem o.process).Perm
    (a :: recorded r'.mem o.process)
  view : dirView r'.mem o.parts.dir = patch MapReq.covers MapReq.value
    (allocRequest a.1 a.2 0x00#32) (dirView r.mem o.parts.dir)
  frame : ∀ c ∈ others, SameOn c.1 (blockBytes c.2) r.mem r'.mem

theorem ProcOk.unchanged (h : ProcOk o others r) : Unchanged o others r r :=
  ⟨h, rfl, fun _ _ => ⟨rfl, rfl⟩, rfl, fun _ _ => SameOn.refl _ _ _,
    fun _ _ => SameOn.refl _ _ _⟩

/-- What is left of the memory where the allocation at index `i` is struck
off: its pages have no flags and its entry is null, and nothing else but
page tables and allocation table has changed. -/
structure Struck (o : Objects) (m : Bytes) (i : Nat) (m' : Bytes) : Prop where
  slots : ∀ j < benosMaxProgramAllocations,
    allocPtr m' o.process j
        = (if j = i then 0#32 else allocPtr m o.process j)
      ∧ allocSize m' o.process j
        = if j = i then 0#32 else allocSize m o.process j
  links : o.Links m'
  view : dirView m' o.parts.dir = patch MapReq.covers MapReq.value
    (allocRequest (allocPtr m o.process i)
      (blocksFor (allocSize m o.process i).toNat) 0x00#32)
    (dirView m o.parts.dir)
  outside : ∀ x, ¬ InTables o.parts x → ¬ InTable o.process x → m' x = m x

/-- An allocation found is unmapped and struck off the table, and its
pointer is given to `kfree`. -/
theorem processFree_struck (h : ProcOk o others r) {ptr : Addr} {i : Nat}
    (hfound : processGetAllocationByAddr r.mem o.process ptr = some i)
    (hptr : ptr ≠ 0#32) :
    (mapAllocation r.mem o.process (allocPtr r.mem o.process i)
        (allocSize r.mem o.process i) 0x00#32).1 = 0
      ∧ ∃ m', Struck o r.mem i m'
        ∧ processFree o.process ptr r = kfree ptr { r with mem := m' } := by
  obtain ⟨hi, heq⟩ := allocIndex_some hfound
  have hrec := mem_recorded hi (heq.symm ▸ hptr)
  rw [heq] at hrec
  have hlive : (ptr, blocksFor (allocSize r.mem o.process i).toNat)
      ∈ recorded r.mem o.process ++ (o.owned ++ others) :=
    List.mem_append_left _ hrec
  obtain ⟨-, -, hpos, -⟩ := h.ram.place hlive
  obtain ⟨m, hmap, -, hview, hout⟩ := mapAllocation_spec h.apart h.links
    (allocSize r.mem o.process i) 0x00#32 (h.ram.aligned hlive) hpos
    (Nat.le_trans (h.ram.below hlive) (by decide))
  simp only at hmap hview hpos
  have hprocess := sameOn_process_of_outside h.apart hout
  have hjoined := processAllocationUjoin_spec m o.process ptr
  have hres : processFree o.process ptr r = kfree ptr
      { r with mem := processAllocationUjoin m o.process ptr } := by
    unfold processFree
    rw [hfound]
    simp only
    rw [heq, hmap, if_neg (Int.lt_irrefl 0)]
  rw [heq, hmap]
  refine ⟨rfl, processAllocationUjoin m o.process ptr, ?_, hres⟩
  clear hres
  generalize processAllocationUjoin m o.process ptr = m' at hjoined ⊢
  obtain ⟨hjoin, hjout⟩ := hjoined
  -- the entry found is the only one with the pointer
  have hafter : ∀ j < benosMaxProgramAllocations,
      allocPtr m' o.process j
          = (if j = i then 0#32 else allocPtr r.mem o.process j)
        ∧ allocSize m' o.process j
          = if j = i then 0#32 else allocSize r.mem o.process j := by
    intro j hj
    obtain ⟨hptr', hsz⟩ := alloc_congr hprocess hj
    obtain ⟨hjptr, hjsz⟩ := hjoin j hj
    rw [hptr'] at hjptr hjsz
    rw [hsz] at hjsz
    have hcond : allocPtr r.mem o.process j = ptr ↔ j = i := by
      constructor
      · intro hjp
        by_contra hji
        have hne := h.allocPtr_ne hi hj (Ne.symm hji) (heq.symm ▸ hptr)
        exact hne (hjp.trans heq.symm)
      · intro hji
        rw [hji]
        exact heq
    simp only [hcond] at hjptr hjsz
    exact ⟨hjptr, hjsz⟩
  obtain ⟨hlinks', hview'⟩ := links_of_outside_table h.apart
    (links_of_outside h.apart h.links hout) hjout
  refine ⟨hafter, hlinks', ?_, fun x hx hx' => (hjout x hx').trans (hout x hx)⟩
  rw [heq]
  exact hview'.trans hview

/-- An allocation found is unmapped, struck off the table and given back
to the heap. -/
theorem processFree_found (h : ProcOk o others r) {ptr : Addr} {i : Nat}
    (hfound : processGetAllocationByAddr r.mem o.process ptr = some i)
    (hptr : ptr ≠ 0#32) :
    Reduced o others r (ptr, blocksFor (allocSize r.mem o.process i).toNat)
      (processFree o.process ptr r) := by
  obtain ⟨hi, heq⟩ := allocIndex_some hfound
  obtain ⟨-, m', hstruck, hres⟩ := processFree_struck h hfound hptr
  have hview := hstruck.view
  rw [heq] at hview
  rw [hres]
  have hperm : (recorded r.mem o.process).Perm
      ((ptr, blocksFor (allocSize r.mem o.process i).toNat)
        :: recorded m' o.process) := by
    refine filterMap_range_perm (i := i) ?_ ?_ _ hi ?_
    · unfold recordAt
      rw [(hstruck.slots i hi).1, if_pos rfl, if_pos rfl]
    · unfold recordAt
      rw [heq, if_neg hptr]
    · intro j hj hji
      unfold recordAt
      rw [(hstruck.slots j hj).1, (hstruck.slots j hj).2, if_neg hji,
        if_neg hji]
  refine ⟨⟨?_, hstruck.links, ?_⟩, kfree_heap _ _, hperm, hview, ?_⟩
  · have hok : RamOk r ((ptr, blocksFor (allocSize r.mem o.process i).toNat)
        :: (recorded m' o.process ++ (o.owned ++ others))) := by
      rw [← List.cons_append]
      exact h.ram.perm (hperm.append_right _)
    have hheap : (kfree ptr { r with mem := m' }).heap = (kfree ptr r).heap := by
      rw [kfree_heap, kfree_heap]
    rw [kfree_mem]
    exact RamOk.of_heap (RamOk.kfree hok) hheap
  · intro j hj hz
    rw [kfree_mem] at hz ⊢
    rw [(hstruck.slots j hj).1] at hz
    rw [(hstruck.slots j hj).2]
    by_cases hji : j = i
    · rw [if_pos hji]
    · rw [if_neg hji] at hz ⊢
      exact h.empty j hj hz
  · exact h.frame hstruck.outside

/-- `process_free` takes a run off the process, or changes nothing: where
the pointer is null or none of the table. -/
theorem processFree_spec (h : ProcOk o others r) (ptr : Addr) :
    ((ptr = 0#32 ∨ ∀ i < benosMaxProgramAllocations,
          allocPtr r.mem o.process i ≠ ptr)
        ∧ processFree o.process ptr r = r)
      ∨ (ptr ≠ 0#32
        ∧ ∃ n, (ptr, n) ∈ recorded r.mem o.process
          ∧ Reduced o others r (ptr, n) (processFree o.process ptr r)) := by
  cases hfound : processGetAllocationByAddr r.mem o.process ptr with
  | none =>
      refine Or.inl ⟨Or.inr (allocIndex_none hfound), ?_⟩
      unfold processFree
      rw [hfound]
  | some i =>
      obtain ⟨hi, heq⟩ := allocIndex_some hfound
      by_cases hptr : ptr = 0#32
      · refine Or.inl ⟨Or.inl hptr, ?_⟩
        unfold processFree
        rw [hfound]
        simp only
        rw [heq, h.empty i hi (heq.trans hptr), hptr, mapAllocation_null]
        rfl
      · refine Or.inr ⟨hptr, _, ?_, processFree_found h hfound hptr⟩
        have hrec := mem_recorded hi (heq.symm ▸ hptr)
        rwa [heq] at hrec

end BenOS.Kernel
