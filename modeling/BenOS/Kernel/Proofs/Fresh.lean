/-
Processes that have just started.

`Fresh o others r`: the process lives and its allocation table is empty.
`objectsAt b` is where the kernel puts a process's objects when nothing
but blocks from `b` on is free, and `fresh_at` says when a memory holds a
fresh process there; `twoFresh` is such a memory with two of them.
-/
import BenOS.Kernel.Proofs.Objects

namespace BenOS.Kernel

open Lib Memory

/-- A process that has just started: it lives, and its table is empty. -/
structure Fresh (o : Objects) (others : List (Addr × Nat)) (r : Ram) :
    Prop where
  ok : ProcOk o others r
  empty : ∀ i < benosMaxProgramAllocations,
    allocPtr r.mem o.process i = 0#32

/-- A fresh process has no allocations. -/
theorem recorded_fresh {o : Objects} {others : List (Addr × Nat)} {r : Ram}
    (h : Fresh o others r) : recorded r.mem o.process = [] := by
  rw [List.eq_nil_iff_forall_not_mem]
  intro a ha
  obtain ⟨i, hi, -, hne, -⟩ := exists_of_mem_recorded ha
  exact hne (h.empty i hi)

-- ========================================================== where they lie

/-- The objects of a process, one behind the other from block `b` on. -/
def objectsAt (b : Nat) : Objects :=
  { process := blockAddress b
    task := blockAddress (b + 3)
    parts :=
      { chunk := blockAddress (b + 4)
        dir := blockAddress (b + 5)
        table := fun i => blockAddress (b + 6 + i) } }

/-- The lengths of the objects, in blocks. -/
def objectLengths : List Nat := [3, 1, 1, 1] ++ List.replicate 1024 1

theorem objectsAt_owned (b : Nat) :
    (objectsAt b).owned = placed b objectLengths := by
  unfold objectLengths
  rw [placed_append, placed_replicate]
  simp only [Objects.owned, Objects.tables, objectsAt, placed, List.sum_cons,
    List.sum_nil, List.cons_append, List.nil_append, Nat.add_assoc,
    Nat.reduceAdd]

/-- Word `k` of a memory whose objects lie from block `b` on, where it
lies in one of them. -/
def objectWord (b k : Nat) : BitVec 32 :=
  let block := k / 1024 - 0x1000
  let word := k % 1024
  if block = b ∧ word = 28 then blockAddress (b + 3)
  else if block = b + 3 ∧ word = 0 then blockAddress (b + 4)
  else if block = b + 4 ∧ word = 0 then blockAddress (b + 5)
  else if block = b + 5 then blockAddress (b + 6 + word) ||| 7#32
  else 0#32

variable {w : Nat → BitVec 32} {b : Nat}

/-- A word of a block, read at its address. -/
theorem load32_block (w : Nat → BitVec 32) {c k : Nat} (hc : c < 2 ^ 16)
    (hk : k < 4096) :
    load32 (wordMemory w) (blockAddress c + BitVec.ofNat 32 (4 * k))
      = w ((0x1000 + c) * 1024 + k) := by
  apply load32_wordMemory
  rw [BitVec.toNat_add, toNat_blockAddress hc, BitVec.toNat_ofNat]
  have hhead : benosHeadAddress.toNat = 0x01000000 := rfl
  simp only [benosHeapBlockSize]
  omega

/-- The first word of a block. -/
theorem load32_block_first (w : Nat → BitVec 32) {c : Nat} (hc : c < 2 ^ 16) :
    load32 (wordMemory w) (blockAddress c) = w ((0x1000 + c) * 1024) := by
  have h := load32_block w hc (k := 0) (by decide)
  rwa [Nat.mul_zero, BitVec.add_zero, Nat.add_zero] at h

/-- Such a memory links the objects. -/
theorem links_objectsAt (hb : b < 2 ^ 15)
    (hw : ∀ k, (0x1000 + b) * 1024 ≤ k → k < (0x1000 + b + 6) * 1024 →
      w k = objectWord b k) : (objectsAt b).Links (wordMemory w) := by
  have hword : ∀ c k, b ≤ c → c < b + 6 → k < 1024 →
      w ((0x1000 + c) * 1024 + k)
        = objectWord b ((0x1000 + c) * 1024 + k) := by
    intro c k hlo hhi hk
    exact hw _ (by omega) (by omega)
  refine ⟨?_, ?_, ?_, ?_⟩
  · have h := load32_block w (c := b) (k := 28) (by omega) (by decide)
    rw [hword b 28 (by omega) (by omega) (by decide)] at h
    refine h.trans ?_
    unfold objectWord
    simp only
    rw [if_pos (by omega)]
    rfl
  · have h := load32_block_first w (c := b + 3) (by omega)
    rw [← Nat.add_zero ((0x1000 + (b + 3)) * 1024),
      hword (b + 3) 0 (by omega) (by omega) (by decide)] at h
    have hadd : (objectsAt b).task + offPageDirectory = blockAddress (b + 3) :=
      BitVec.add_zero _
    rw [hadd]
    refine h.trans ?_
    unfold objectWord
    simp only
    rw [if_neg (by omega), if_pos (by omega)]
    rfl
  · have h := load32_block_first w (c := b + 4) (by omega)
    rw [← Nat.add_zero ((0x1000 + (b + 4)) * 1024),
      hword (b + 4) 0 (by omega) (by omega) (by decide)] at h
    refine h.trans ?_
    unfold objectWord
    simp only
    rw [if_neg (by omega), if_neg (by omega), if_pos (by omega)]
    rfl
  · intro i hi
    simp only [pagingTotalEntriesPerTable] at hi
    have h := load32_block w (c := b + 5) (k := i) (by omega) (by omega)
    rw [hword (b + 5) i (by omega) (by omega) hi] at h
    have hval : objectWord b ((0x1000 + (b + 5)) * 1024 + i)
        = blockAddress (b + 6 + i) ||| 7#32 := by
      unfold objectWord
      simp only
      rw [if_neg (by omega), if_neg (by omega), if_neg (by omega),
        if_pos (by omega), show ((0x1000 + (b + 5)) * 1024 + i) % 1024 = i by
          omega]
    show tableAddress (load32 (wordMemory w)
      (blockAddress (b + 5) + BitVec.ofNat 32 (4 * i))) = blockAddress (b + 6 + i)
    have haligned : (blockAddress (b + 6 + i)).toNat % pagingPageSize = 0 := by
      rw [toNat_blockAddress (by omega)]
      have hhead : benosHeadAddress.toNat = 0x01000000 := rfl
      simp only [benosHeapBlockSize, pagingPageSize]
      omega
    rw [h, hval, ← pageAddress_pageOf haligned]
    exact tableAddress_or _ (by decide)

/-- Its allocation table is empty. -/
theorem empty_objectsAt (hb : b < 2 ^ 15)
    (hw : ∀ k, (0x1000 + b) * 1024 ≤ k → k < (0x1000 + b + 6) * 1024 →
      w k = objectWord b k) :
    ∀ i < benosMaxProgramAllocations,
      allocPtr (wordMemory w) (objectsAt b).process i = 0#32
        ∧ allocSize (wordMemory w) (objectsAt b).process i = 0#32 := by
  intro i hi
  simp only [benosMaxProgramAllocations] at hi
  have hzero : ∀ k, 29 ≤ k → k < 3 * 1024 →
      load32 (wordMemory w) (blockAddress b + BitVec.ofNat 32 (4 * k))
        = 0#32 := by
    intro k hlo hhi
    rw [load32_block w (by omega) (by omega), hw _ (by omega) (by omega)]
    unfold objectWord
    simp only
    rw [if_neg (by omega), if_neg (by omega), if_neg (by omega),
      if_neg (by omega)]
  constructor
  · have h := hzero (29 + 2 * i) (by omega) (by omega)
    rwa [show 4 * (29 + 2 * i) = offAllocations + sizeofProcessAllocation * i by
      simp only [offAllocations, sizeofProcessAllocation]; omega] at h
  · have h := hzero (30 + 2 * i) (by omega) (by omega)
    rwa [show 4 * (30 + 2 * i)
        = offAllocations + sizeofProcessAllocation * i + 4 by
      simp only [offAllocations, sizeofProcessAllocation]; omega] at h

/-- A memory and a heap that hold a process so, and whatever else, hold a
fresh one. -/
theorem fresh_at {heap : Heap} {others : List (Addr × Nat)} (hb : b < 2 ^ 15)
    (hw : ∀ k, (0x1000 + b) * 1024 ≤ k → k < (0x1000 + b + 6) * 1024 →
      w k = objectWord b k)
    (hram : RamOk ⟨heap, wordMemory w, true⟩
      (placed b objectLengths ++ others)) :
    Fresh (objectsAt b) others ⟨heap, wordMemory w, true⟩ := by
  have hempty := empty_objectsAt hb hw
  have hnone : recorded (wordMemory w) (objectsAt b).process = [] := by
    rw [List.eq_nil_iff_forall_not_mem]
    intro a ha
    obtain ⟨i, hi, -, hne, -⟩ := exists_of_mem_recorded ha
    exact hne (hempty i hi).1
  refine ⟨⟨?_, links_objectsAt hb hw, fun i hi _ => (hempty i hi).2⟩,
    fun i hi => (hempty i hi).1⟩
  simp only
  rw [hnone, List.nil_append, objectsAt_owned]
  exact hram

-- ============================================================ two of them

/-- A memory with two fresh processes, from block 0 and from block 1030
on. -/
def twoFresh : Ram :=
  { heap := takenFrom 0 (objectLengths ++ objectLengths) emptyHeap
    mem := wordMemory fun k =>
      if k < (0x1000 + 1030) * 1024 then objectWord 0 k else objectWord 1030 k
    served := true }

theorem one_le_objectLengths : ∀ n ∈ objectLengths, 1 ≤ n := by
  intro n hn
  rcases List.mem_append.mp hn with hn | hn
  · simp only [List.mem_cons, List.not_mem_nil, or_false] at hn
    omega
  · rw [(List.mem_replicate.mp hn).2]

theorem sum_objectLengths : objectLengths.sum = 1030 := by
  unfold objectLengths
  rw [List.sum_append, List.sum_replicate_nat]
  rfl

/-- The heap has handed out their objects and nothing else. -/
theorem ramOk_twoFresh :
    RamOk twoFresh ((objectsAt 0).owned ++ (objectsAt 1030).owned)
      ∧ twoFresh.heap.table.total = kernelHeapBlocks
      ∧ ∀ i, 2060 ≤ i → IsFree twoFresh.heap.table i := by
  have hpos : ∀ n ∈ objectLengths ++ objectLengths, 1 ≤ n := by
    intro n hn
    rcases List.mem_append.mp hn with hn | hn
    · exact one_le_objectLengths n hn
    · exact one_le_objectLengths n hn
  have hsum : (objectLengths ++ objectLengths).sum = 2060 := by
    rw [List.sum_append, sum_objectLengths]
  obtain ⟨hok, htotal, hfree⟩ := ramOk_takenFrom hpos
    (by rw [hsum]; decide) twoFresh.mem twoFresh.served
  rw [hsum] at hfree
  rw [placed_append, sum_objectLengths] at hok
  have hheap : twoFresh.heap
      = takenFrom 0 (objectLengths ++ objectLengths) emptyHeap := by
    simp only [twoFresh]
  rw [objectsAt_owned, objectsAt_owned, hheap]
  generalize takenFrom 0 (objectLengths ++ objectLengths) emptyHeap = heap
    at hheap hok htotal hfree
  exact ⟨hok.of_heap hheap, htotal, fun i hi => hfree i (by omega)⟩

theorem fresh_first :
    Fresh (objectsAt 0) (objectsAt 1030).owned twoFresh := by
  refine fresh_at (by decide) (fun k _ hk => if_pos (by omega)) ?_
  rw [← objectsAt_owned]
  exact ramOk_twoFresh.1

theorem fresh_second :
    Fresh (objectsAt 1030) (objectsAt 0).owned twoFresh := by
  refine fresh_at (by decide) (fun k hk _ => if_neg (by omega)) ?_
  rw [← objectsAt_owned]
  exact ramOk_twoFresh.1.perm List.perm_append_comm

/-- A request of a few blocks finds them behind the objects. -/
theorem serves_twoFresh (size : Nat) (h : blocksFor size ≤ 20000) :
    Serves twoFresh.heap size := by
  obtain ⟨-, htotal, hfree⟩ := ramOk_twoFresh
  refine ⟨2060, ?_, fun i hi _ => hfree i hi⟩
  rw [htotal]
  simp only [kernelHeapBlocks]
  omega

end BenOS.Kernel
