/-
The objects of a process: where they lie, and what leaves them alone.

`Objects` names the blocks a loaded process stands on: its struct, its
task and the parts of its page directory. `Links` says that the memory
points from one to the next, and `ProcOk` that the heap has them, the
recorded allocations of the process and the blocks of all `others` as
pairwise disjoint allocations. Every proof about a process starts from
that one separation (`owned_apart`); a store into one object is then seen
nowhere else.
-/
import BenOS.Kernel.Alloc
import BenOS.Memory.Proofs.Kheap

namespace BenOS.Kernel

open Lib Memory

-- ================================================================= objects

/-- The blocks a process stands on. -/
structure Objects where
  process : Addr
  task : Addr
  parts : DirParts

namespace Objects

variable (o : Objects)

/-- The tables of the page directory, a block each. -/
def tables : List (Addr × Nat) :=
  (List.range pagingTotalEntriesPerTable).map fun i => (o.parts.table i, 1)

/-- All the blocks, with the number of blocks each has. -/
def owned : List (Addr × Nat) :=
  (o.process, 3) :: (o.task, 1) :: (o.parts.chunk, 1) :: (o.parts.dir, 1)
    :: o.tables

/-- The memory points from each object to the next. -/
structure Links (m : Bytes) : Prop where
  task : load32 m (o.process + offTask) = o.task
  chunk : load32 m (o.task + offPageDirectory) = o.parts.chunk
  dirOk : DirOk o.parts m

/-- No two of the objects share a byte. -/
structure Apart : Prop where
  dir : DirApart o.parts
  process_task : SpansApart o.process (blockBytes 3) o.task (blockBytes 1)
  process_chunk : SpansApart o.process (blockBytes 3) o.parts.chunk 4
  process_dir : SpansApart o.process (blockBytes 3) o.parts.dir pagingPageSize
  process_table : ∀ i < pagingTotalEntriesPerTable,
    SpansApart o.process (blockBytes 3) (o.parts.table i) pagingPageSize
  task_table : ∀ i < pagingTotalEntriesPerTable,
    SpansApart o.task (blockBytes 1) (o.parts.table i) pagingPageSize

variable {o}

theorem mem_tables {i : Nat} (hi : i < pagingTotalEntriesPerTable) :
    (o.parts.table i, 1) ∈ o.tables :=
  List.mem_map.mpr ⟨i, List.mem_range.mpr hi, rfl⟩

/-- Objects that are allocated are apart. -/
theorem owned_apart {r : Ram} {rest : List (Addr × Nat)}
    (h : RamOk r (o.owned ++ rest)) : o.Apart := by
  have hall := (List.pairwise_append.mp h.spansApart).1
  unfold owned at hall
  obtain ⟨hprocess, hall⟩ := List.pairwise_cons.mp hall
  obtain ⟨htask, hall⟩ := List.pairwise_cons.mp hall
  obtain ⟨hchunk, hall⟩ := List.pairwise_cons.mp hall
  obtain ⟨hdir, htables⟩ := List.pairwise_cons.mp hall
  have hpage : blockBytes 1 = pagingPageSize := rfl
  have hpt : SpansApart o.process (blockBytes 3) o.task (blockBytes 1) :=
    hprocess (o.task, 1) List.mem_cons_self
  have hpc : SpansApart o.process (blockBytes 3) o.parts.chunk (blockBytes 1) :=
    hprocess (o.parts.chunk, 1) (List.mem_cons_of_mem _ List.mem_cons_self)
  have hpd : SpansApart o.process (blockBytes 3) o.parts.dir (blockBytes 1) :=
    hprocess (o.parts.dir, 1) (List.mem_cons_of_mem _
      (List.mem_cons_of_mem _ List.mem_cons_self))
  have hpb : ∀ i < pagingTotalEntriesPerTable, SpansApart o.process
      (blockBytes 3) (o.parts.table i) (blockBytes 1) := fun i hi =>
    hprocess (o.parts.table i, 1) (List.mem_cons_of_mem _
      (List.mem_cons_of_mem _ (List.mem_cons_of_mem _ (mem_tables hi))))
  have htb : ∀ i < pagingTotalEntriesPerTable, SpansApart o.task
      (blockBytes 1) (o.parts.table i) (blockBytes 1) := fun i hi =>
    htask (o.parts.table i, 1) (List.mem_cons_of_mem _
      (List.mem_cons_of_mem _ (mem_tables hi)))
  have hcb : ∀ i < pagingTotalEntriesPerTable, SpansApart o.parts.chunk
      (blockBytes 1) (o.parts.table i) (blockBytes 1) := fun i hi =>
    hchunk (o.parts.table i, 1) (List.mem_cons_of_mem _ (mem_tables hi))
  have hdb : ∀ i < pagingTotalEntriesPerTable, SpansApart o.parts.dir
      (blockBytes 1) (o.parts.table i) (blockBytes 1) := fun i hi =>
    hdir (o.parts.table i, 1) (mem_tables hi)
  have hbb : ∀ i j, i < j → j < pagingTotalEntriesPerTable →
      SpansApart (o.parts.table i) (blockBytes 1) (o.parts.table j)
        (blockBytes 1) := by
    intro i j hij hj
    have hpair := List.pairwise_map.mp htables
    rw [List.pairwise_iff_getElem] at hpair
    have := hpair i j (by rw [List.length_range]; omega)
      (by rw [List.length_range]; omega) hij
    rwa [List.getElem_range, List.getElem_range] at this
  -- the chunk is looked at as one word of its block
  have hword : ∀ {a : Addr} {n : Nat},
      SpansApart a n o.parts.chunk (blockBytes 1) →
      SpansApart a n o.parts.chunk 4 := by
    intro a n hapart x hx hx'
    exact hapart x hx (Nat.lt_trans hx' (by decide))
  rw [hpage] at hpt hpd hpb htb hdb hbb
  refine ⟨⟨?_, fun i hi => (hdb i hi).symm, fun i hi => ?_⟩, ?_, hword hpc,
    hpd, hpb, ?_⟩
  · intro i hi j hj hne
    rcases Nat.lt_or_gt_of_ne hne with hlt | hgt
    · exact hbb i j hlt hj
    · exact (hbb j i hgt hi).symm
  · have := hword (hcb i hi).symm
    rwa [hpage] at this
  · rw [hpage]
    exact hpt
  · rw [hpage]
    exact htb

/-- The page directory of the process is that of the objects. -/
theorem Links.pageDirectory {m : Bytes} (h : o.Links m) :
    processPageDirectory m o.process = o.parts.chunk := by
  unfold processPageDirectory
  rw [h.task, h.chunk]

/-- Memories that agree on the objects other than the tables link them
alike. -/
theorem Links.congr {m m' : Bytes} (h : o.Links m)
    (hprocess : SameOn (o.process + offTask) 4 m m')
    (htask : SameOn o.task (blockBytes 1) m m')
    (hchunk : SameOn o.parts.chunk 4 m m')
    (hdir : SameOn o.parts.dir pagingPageSize m m') : o.Links m' := by
  refine ⟨(load32_congr hprocess).trans h.task, ?_, h.dirOk.sameOn hchunk hdir⟩
  exact (load32_congr (htask.part (by decide))).trans h.chunk

end Objects

-- ==================================================== the allocation table

/-- The allocation an entry of the table records, with its blocks. -/
def recordAt (m : Bytes) (process : Addr) (i : Nat) : Option (Addr × Nat) :=
  if allocPtr m process i = 0#32 then none
  else some (allocPtr m process i, blocksFor (allocSize m process i).toNat)

/-- All the allocations the table records. -/
def recorded (m : Bytes) (process : Addr) : List (Addr × Nat) :=
  (List.range benosMaxProgramAllocations).filterMap (recordAt m process)

theorem mem_recorded {m : Bytes} {process : Addr} {i : Nat}
    (hi : i < benosMaxProgramAllocations) (hptr : allocPtr m process i ≠ 0#32) :
    (allocPtr m process i, blocksFor (allocSize m process i).toNat)
      ∈ recorded m process := by
  refine List.mem_filterMap.mpr ⟨i, List.mem_range.mpr hi, ?_⟩
  unfold recordAt
  rw [if_neg hptr]

theorem exists_of_mem_recorded {m : Bytes} {process : Addr} {a : Addr × Nat}
    (h : a ∈ recorded m process) :
    ∃ i < benosMaxProgramAllocations, allocPtr m process i = a.1
      ∧ allocPtr m process i ≠ 0#32
      ∧ blocksFor (allocSize m process i).toNat = a.2 := by
  obtain ⟨i, hi, hrec⟩ := List.mem_filterMap.mp h
  unfold recordAt at hrec
  split at hrec
  case isTrue => cases hrec
  case isFalse hne =>
    have heq := Option.some.inj hrec
    exact ⟨i, List.mem_range.mp hi, by rw [← heq], hne, by rw [← heq]⟩

/-- Where a list is collected from a table of which one empty entry is
filled, the new one comes on top. -/
theorem filterMap_range_perm {α : Type} {f g : Nat → Option α} {a : α}
    {i : Nat} (hf : f i = none) (hg : g i = some a) (n : Nat) :
    i < n → (∀ j < n, j ≠ i → g j = f j) →
      ((List.range n).filterMap g).Perm (a :: (List.range n).filterMap f) := by
  induction n with
  | zero => intro hi _; omega
  | succ n ih =>
      intro hi hother
      rw [List.range_succ, List.filterMap_append, List.filterMap_append]
      by_cases heq : i = n
      · subst heq
        have hsame : (List.range i).filterMap g = (List.range i).filterMap f :=
          List.filterMap_congr fun j hj =>
            hother j (by have := List.mem_range.mp hj; omega)
              (by have := List.mem_range.mp hj; omega)
        rw [hsame]
        simp only [List.filterMap_cons, List.filterMap_nil, hf, hg,
          List.append_nil]
        exact List.perm_append_singleton _ _
      · have hn : g n = f n := hother n (by omega) (fun h => heq h.symm)
        have hlast : [n].filterMap g = [n].filterMap f :=
          List.filterMap_congr fun j hj => by
            rw [List.mem_singleton.mp hj]
            exact hn
        rw [hlast, ← List.cons_append]
        exact (ih (by omega) fun j hj hne =>
          hother j (by omega) hne).append_right _

/-- Entries of the table are apart from each other, pointers and sizes. -/
theorem alloc_fields_apart (process : Addr) {i j : Nat}
    (hi : i < benosMaxProgramAllocations) (hj : j < benosMaxProgramAllocations) :
    (i ≠ j → SpansApart (allocPtrAddress process i) 4
        (allocPtrAddress process j) 4)
      ∧ (i ≠ j → SpansApart (allocSizeAddress process i) 4
        (allocSizeAddress process j) 4)
      ∧ SpansApart (allocPtrAddress process i) 4
        (allocSizeAddress process j) 4 := by
  simp only [benosMaxProgramAllocations] at hi hj
  refine ⟨fun hne => ?_, fun hne => ?_, ?_⟩ <;>
    refine spansApart_fields process ?_ ?_ <;>
    simp only [BitVec.toNat_sub, BitVec.toNat_ofNat, offAllocations,
      sizeofProcessAllocation] <;> omega

section SetAllocation

variable (m : Bytes) (process : Addr) (ptr : Addr) (size : BitVec 32)
  {i j : Nat} (hi : i < benosMaxProgramAllocations)
  (hj : j < benosMaxProgramAllocations)

include hi hj

theorem allocPtr_setAllocation :
    allocPtr (setAllocation m process i ptr size) process j
      = if j = i then ptr else allocPtr m process j := by
  obtain ⟨hptr, -, -⟩ := alloc_fields_apart process hi hj
  obtain ⟨-, -, hsize⟩ := alloc_fields_apart process hj hi
  unfold allocPtr setAllocation
  rw [load32_store32_apart _ _ hsize.symm]
  by_cases heq : j = i
  · rw [if_pos heq, heq, load32_store32]
  · rw [if_neg heq, load32_store32_apart _ _ (hptr (Ne.symm heq))]

theorem allocSize_setAllocation :
    allocSize (setAllocation m process i ptr size) process j
      = if j = i then size else allocSize m process j := by
  obtain ⟨-, hsize, hmixed⟩ := alloc_fields_apart process hi hj
  unfold allocSize setAllocation
  by_cases heq : j = i
  · rw [if_pos heq, heq, load32_store32]
  · rw [if_neg heq, load32_store32_apart _ _ (hsize (Ne.symm heq)),
      load32_store32_apart _ _ hmixed]

end SetAllocation

/-- The bytes of the allocation table. -/
def InTable (process x : Addr) : Prop :=
  InSpan (process + BitVec.ofNat 32 offAllocations)
    (sizeofProcessAllocation * benosMaxProgramAllocations) x

/-- Setting an entry is seen in the table only. -/
theorem setAllocation_outside (m : Bytes) (process ptr : Addr)
    (size : BitVec 32) {i : Nat} (hi : i < benosMaxProgramAllocations)
    {x : Addr} (hx : ¬ InTable process x) :
    setAllocation m process i ptr size x = m x := by
  have hin : ∀ k, k + 4 ≤ sizeofProcessAllocation →
      ¬ InSpan (process + BitVec.ofNat 32
        (offAllocations + sizeofProcessAllocation * i + k)) 4 x := by
    intro k hk hspan
    refine hx (InSpan.of_part
      (o := BitVec.ofNat 32 (sizeofProcessAllocation * i + k)) (l := 4) ?_ ?_)
    · rw [BitVec.add_assoc, ← BitVec.ofNat_add, ← Nat.add_assoc]
      exact hspan
    · rw [BitVec.toNat_ofNat]
      simp only [sizeofProcessAllocation, benosMaxProgramAllocations] at *
      omega
  unfold setAllocation
  refine (writeBytes_of_not_inSpan _ _ (hin 4 (by decide))).trans ?_
  exact writeBytes_of_not_inSpan _ _ (hin 0 (by decide))

-- =========================================================== a live process

/-- A process lives: its objects, the allocations its table records and
all `others` are disjoint allocations of the heap, the memory links the
objects, and an entry without a pointer has no size. -/
structure ProcOk (o : Objects) (others : List (Addr × Nat)) (r : Ram) :
    Prop where
  ram : RamOk r (recorded r.mem o.process ++ (o.owned ++ others))
  links : o.Links r.mem
  empty : ∀ i < benosMaxProgramAllocations,
    allocPtr r.mem o.process i = 0#32 → allocSize r.mem o.process i = 0#32

end BenOS.Kernel
