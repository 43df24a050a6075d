/-
Blocks that stay taken.

`Held b n r`: the `n` blocks from `b` on are taken, and no chain runs into
them from below: the block before them carries no `HAS_NEXT`, and neither
does some byte of the 4096 below the table, where the release of null
starts. Such blocks stay held whatever is requested (`held_kzalloc`), and
whatever is given back but themselves (`held_kfree`), also where a request
is handed a run that is too short or none, and where a pointer is given
back twice.

What an object is given on a heap in order is held from then on
(`held_of_kzalloc`). So an object that nobody gives back is found in the
table at the end, and what others are given shares no byte with it
(`Held.spansApart`).
-/
import BenOS.Memory.Proofs.Kheap

namespace BenOS.Memory

open Lib

-- ============================================================ what a call does

/-- The entry of a block does not carry `HAS_NEXT`. -/
def EndsChain (heap : Heap) (i : Int) : Prop :=
  heap.table.entries i &&& heapBlockHasNext = 0

/-- Some byte below the table ends a chain that the release of null
starts. In the kernel these are bytes of the boot sector, which is text
for the most part. -/
def NullSafe (heap : Heap) : Prop :=
  ∃ i : Int, -4096 ≤ i ∧ i < 0 ∧ EndsChain heap i

theorem nullSafe_empty : NullSafe emptyHeap := by
  refine ⟨-1, by decide, by decide, ?_⟩
  show (0x00 : UInt8) &&& heapBlockHasNext = 0
  rfl

/-- The scan answers with a free block of the table, or with none. -/
theorem heapGetStartBlockLoop_free (table : HeapTable) (n : Nat) :
    ∀ (k i : Nat) (bc bs : Int), i + k = table.total →
      (bs = -1 ∨ ∃ b : Nat, bs = b ∧ b < i ∧ IsFree table b) →
      heapGetStartBlockLoop table n k i bc bs = -1
        ∨ ∃ b : Nat, heapGetStartBlockLoop table n k i bc bs = b
          ∧ b < table.total ∧ IsFree table b := by
  intro k
  induction k with
  | zero =>
      intro i bc bs hi hbs
      rcases hbs with hbs | ⟨b, hbs, hlt, hfree⟩
      · exact Or.inl hbs
      · exact Or.inr ⟨b, hbs, by omega, hfree⟩
  | succ k ih =>
      intro i bc bs hi hbs
      rw [heapGetStartBlockLoop]
      by_cases hfree : heapGetEntryType (table.entries i)
          ≠ heapBlockTableEntryFree
      · rw [if_pos hfree]
        exact ih (i + 1) 0 (-1) (by omega) (Or.inl rfl)
      · rw [if_neg hfree]
        have hfree' : IsFree table i := not_not.mp hfree
        have hstart : ∃ b : Nat, (if bs = -1 then (i : Int) else bs) = b
            ∧ b < i + 1 ∧ IsFree table b := by
          rcases hbs with hbs | ⟨b, hbs, hlt, hfreeb⟩
          · exact ⟨i, if_pos hbs, by omega, hfree'⟩
          · refine ⟨b, ?_, by omega, hfreeb⟩
            rw [if_neg (by omega), hbs]
        obtain ⟨b, hb, hlt, hfreeb⟩ := hstart
        simp only
        rw [hb]
        split
        · exact Or.inr ⟨b, rfl, by omega, hfreeb⟩
        · exact ih (i + 1) _ _ (by omega) (Or.inr ⟨b, rfl, hlt, hfreeb⟩)

/-- What a request for `n` blocks does: it is refused, or the blocks from
a free one on are marked, those of the table all free. -/
inductive Handed (heap : Heap) (n : Nat) : Addr × Heap → Prop
  | refused : Handed heap n (0#32, heap)
  | marked {b : Nat} : b < heap.table.total → IsFree heap.table b →
      (∀ i, b ≤ i → i < b + n → i < heap.table.total →
        IsFree heap.table i) →
      Handed heap n (heapBlockToAddress heap b, heapMarkBlocksTaken heap b n)

theorem heapMalloc_handed (heap : Heap) (size : Nat) :
    Handed heap (heapAlignValueToUpper size / benosHeapBlockSize)
      (heapMalloc heap size) := by
  unfold heapMalloc heapMallocBlocks
  generalize heapAlignValueToUpper size / benosHeapBlockSize = n
  by_cases hn : 1 ≤ n
  · have hout := heapGetStartBlock_outcome heap hn
    generalize heapGetStartBlock heap n = start at hout
    cases hout with
    | @found b hfit =>
        simp only
        rw [if_neg (by omega)]
        have hin := hfit.inside
        exact Handed.marked (by omega) (hfit.run b (by omega) (by omega))
          fun i hi hi' _ => hfit.run i hi hi'
    | full _ _ =>
        simp only
        rw [if_pos (by decide)]
        exact Handed.refused
    | @cut b _ htrail _ =>
        simp only
        rw [if_neg (by omega)]
        have hlt := htrail.below
        exact Handed.marked hlt (htrail.run b (by omega) (by omega))
          fun i hi _ hi' => htrail.run i hi (by omega)
  · -- no block is asked for, and none is marked
    have hzero : n = 0 := by omega
    subst hzero
    have hloop := heapGetStartBlockLoop_free heap.table 0 heap.table.total 0 0
      (-1) (by omega) (Or.inl rfl)
    unfold heapGetStartBlock
    rcases hloop with hnone | ⟨b, hb, hlt, hfree⟩
    · rw [hnone]
      exact Handed.refused
    · rw [hb]
      simp only
      rw [if_neg (by omega), if_neg (by omega)]
      exact Handed.marked hlt hfree fun i hi hi' _ => absurd hi' (by omega)

/-- What marking leaves of an entry: a run of no blocks marks none. -/
theorem heapMarkBlocksTaken_apply (heap : Heap) (b n : Nat) (j : Int) :
    (heapMarkBlocksTaken heap b n).table.entries j
      = if (b : Int) ≤ j ∧ j < b + n then chainEntry ⟨b, n⟩ j.toNat
        else heap.table.entries j := by
  by_cases hn : 1 ≤ n
  · exact heapMarkBlocksTaken_entries heap hn j
  · have hzero : n = 0 := by omega
    subst hzero
    rw [if_neg (by omega)]
    unfold heapMarkBlocksTaken
    simp only
    rw [show ((b : Int) + ((0 : Nat) : Int) - 1 + 1 - b).toNat = 0 by omega]
    rfl

/-- The free blocks behind a marking are those that were free and are not
marked. -/
theorem isFree_heapMarkBlocksTaken (heap : Heap) (b n i : Nat) :
    IsFree (heapMarkBlocksTaken heap b n).table i
      ↔ IsFree heap.table i ∧ ¬ (b ≤ i ∧ i < b + n) := by
  unfold IsFree
  rw [heapMarkBlocksTaken_apply]
  by_cases hin : b ≤ i ∧ i < b + n
  · rw [if_pos (by omega)]
    exact iff_of_false (entryType_chainEntry _ _) fun h => h.2 hin
  · rw [if_neg (by omega)]
    exact ⟨fun h => ⟨h, hin⟩, fun h => h.1⟩

/-- What the heap hands out is not below the table. -/
theorem NullSafe.takenFrom {heap : Heap} (h : NullSafe heap) (b : Nat)
    (ns : List Nat) : NullSafe (takenFrom b ns heap) := by
  induction ns generalizing b heap with
  | nil => exact h
  | cons n ns ih =>
      obtain ⟨i, hlo, hhi, hend⟩ := h
      refine ih ⟨i, hlo, hhi, ?_⟩ (b + n)
      unfold EndsChain
      rw [heapMarkBlocksTaken_apply, if_neg (by omega)]
      exact hend

-- ============================================================ the invariant

/-- The blocks of the table from `b` on, `n` of them, are taken, and no
chain runs into them from below. -/
structure Held (b n : Nat) (r : Ram) : Prop where
  saddr : r.heap.saddr = benosHeadAddress
  total : r.heap.table.total ≤ kernelHeapBlocks
  lt : b < r.heap.table.total
  pos : 1 ≤ n
  taken : ∀ i, b ≤ i → i < b + n → i < r.heap.table.total →
    ¬ IsFree r.heap.table i
  before : b ≠ 0 → EndsChain r.heap (b - 1)
  below : NullSafe r.heap

/-- The one heap of the kernel: it starts where the kernel puts it, and
has no more blocks. -/
structure KernelHeap (r : Ram) : Prop where
  saddr : r.heap.saddr = benosHeadAddress
  total : r.heap.table.total ≤ kernelHeapBlocks

/-- The blocks of the table from `b` on, `n` of them, are taken: nobody
else is given them before they are given back. -/
structure Taken (b n : Nat) (r : Ram) : Prop where
  saddr : r.heap.saddr = benosHeadAddress
  total : r.heap.table.total ≤ kernelHeapBlocks
  lt : b < r.heap.table.total
  pos : 1 ≤ n
  taken : ∀ i, b ≤ i → i < b + n → i < r.heap.table.total →
    ¬ IsFree r.heap.table i

/-- A pointer is null, or the address of a block outside the `n` from `b`
on. -/
def Clear (b n : Nat) (ptr : Addr) : Prop :=
  ptr = 0#32
    ∨ ∃ k < kernelHeapBlocks, ¬ (b ≤ k ∧ k < b + n) ∧ ptr = blockAddress k

variable {r : Ram} {b n : Nat}

theorem Held.isTaken (h : Held b n r) : Taken b n r :=
  ⟨h.saddr, h.total, h.lt, h.pos, h.taken⟩

/-- Blocks that are taken are not handed out. -/
theorem taken_heapMalloc (h : Taken b n r) {size : Nat} {q : Addr × Heap}
    (hq : heapMalloc r.heap size = q) {m : Bytes} {served : Bool} :
    Taken b n ⟨q.2, m, served⟩ ∧ Clear b n q.1 := by
  have hout := heapMalloc_handed r.heap size
  rw [hq] at hout
  generalize heapAlignValueToUpper size / benosHeapBlockSize = l at hout
  cases hout with
  | refused =>
      exact ⟨⟨h.saddr, h.total, h.lt, h.pos, h.taken⟩, Or.inl rfl⟩
  | @marked k hlt hfree hrun =>
      have hkb : ¬ (b ≤ k ∧ k < b + n) := fun hin =>
        h.taken k hin.1 hin.2 hlt hfree
      have htotal := h.total
      refine ⟨⟨h.saddr, h.total, h.lt, h.pos, fun i hi hi' hit => ?_⟩,
        Or.inr ⟨k, by omega, hkb, heapBlockToAddress_eq r.heap h.saddr k⟩⟩
      intro hfree'
      exact h.taken i hi hi' hit
        ((isFree_heapMarkBlocksTaken r.heap k l i).mp hfree').1

/-- Blocks that are held are not handed out. -/
theorem held_heapMalloc (h : Held b n r) {size : Nat} {q : Addr × Heap}
    (hq : heapMalloc r.heap size = q) {m : Bytes} {served : Bool} :
    Held b n ⟨q.2, m, served⟩ ∧ Clear b n q.1 := by
  obtain ⟨htaken, hclear⟩ :=
    @taken_heapMalloc _ _ _ h.isTaken _ _ hq m served
  have hout := heapMalloc_handed r.heap size
  rw [hq] at hout
  generalize heapAlignValueToUpper size / benosHeapBlockSize = l at hout
  cases hout with
  | refused =>
      exact ⟨⟨h.saddr, h.total, h.lt, h.pos, h.taken, h.before, h.below⟩,
        Or.inl rfl⟩
  | @marked k hlt hfree hrun =>
      have hentries := heapMarkBlocksTaken_apply r.heap k l
      have hpos := h.pos
      refine ⟨⟨htaken.saddr, htaken.total, htaken.lt, htaken.pos, htaken.taken,
        fun hb => ?_, ?_⟩, hclear⟩
      · have hout : ¬ (k ≤ b ∧ b < k + l) := fun hin =>
          h.taken b (Nat.le_refl _) (by omega) h.lt
            (hrun b hin.1 hin.2 h.lt)
        unfold EndsChain
        simp only
        rw [hentries]
        split
        case isFalse => exact h.before hb
        case isTrue hin =>
          -- the block before is the last of the run
          rw [show ((b : Int) - 1).toNat = b - 1 by omega,
            chainEntry_hasNext]
          simp only
          omega
      · obtain ⟨i, hlo, hhi, hend⟩ := h.below
        refine ⟨i, hlo, hhi, ?_⟩
        unfold EndsChain
        simp only
        rw [hentries, if_neg (by omega)]
        exact hend

/-- A request leaves taken blocks taken, and does not answer with them. -/
theorem taken_kzalloc (h : Taken b n r) (size : Nat) :
    Taken b n (kzalloc size r).2 ∧ Clear b n (kzalloc size r).1 := by
  unfold kzalloc kmalloc
  simp only
  split
  · exact ⟨(taken_heapMalloc h rfl).1, Or.inl rfl⟩
  · exact taken_heapMalloc h rfl

/-- A request leaves held blocks held, and does not answer with them. -/
theorem held_kzalloc (h : Held b n r) (size : Nat) :
    Held b n (kzalloc size r).2 ∧ Clear b n (kzalloc size r).1 := by
  unfold kzalloc kmalloc
  simp only
  split
  · exact ⟨(held_heapMalloc h rfl).1, Or.inl rfl⟩
  · exact held_heapMalloc h rfl

/-- Where the release of a pointer other than to held blocks starts. -/
theorem heapAddressToBlock_clear (h : Held b n r) {ptr : Addr}
    (hptr : Clear b n ptr) :
    heapAddressToBlock r.heap ptr = -4096
      ∨ ∃ k : Nat, ¬ (b ≤ k ∧ k < b + n)
        ∧ heapAddressToBlock r.heap ptr = k := by
  rcases hptr with hnull | ⟨k, hk, hkb, hptr⟩
  · refine Or.inl ?_
    unfold heapAddressToBlock
    rw [hnull, h.saddr]
    decide
  · refine Or.inr ⟨k, hkb, ?_⟩
    simp only [kernelHeapBlocks] at hk
    have hsub : (ptr - r.heap.saddr).toNat = k * benosHeapBlockSize := by
      rw [hptr, BitVec.toNat_sub, toNat_blockAddress (by omega), h.saddr]
      have hhead : benosHeadAddress.toNat = 0x01000000 := rfl
      simp only [benosHeapBlockSize]
      omega
    refine heapAddressToBlock_eq r.heap hsub ?_
    rw [hsub]
    simp only [benosHeapBlockSize]
    omega

/-- Giving back null or another block leaves held blocks held. -/
theorem held_kfree (h : Held b n r) {ptr : Addr} (hptr : Clear b n ptr) :
    Held b n (kfree ptr r) := by
  have hstart := heapAddressToBlock_clear h hptr
  have hcases := fun j => heapMarkBlocksFreeLoop_cases j
    (r.heap.table.total - heapAddressToBlock r.heap ptr).toNat
    (heapAddressToBlock r.heap ptr) r.heap.table.entries
  -- what ends a chain still does
  have hends : ∀ j, EndsChain r.heap j → EndsChain (kfree ptr r).heap j := by
    intro j hj
    show heapMarkBlocksFreeLoop _ _ _ j &&& heapBlockHasNext = 0
    rcases hcases j with hsame | ⟨hfree, -⟩
    · rw [hsame]
      exact hj
    · rw [hfree]
      rfl
  have hsame : ∀ j : Nat, b ≤ j → j < b + n → heapMarkBlocksFreeLoop
      (r.heap.table.total - heapAddressToBlock r.heap ptr).toNat
      (heapAddressToBlock r.heap ptr) r.heap.table.entries j
      = r.heap.table.entries j := by
    intro j hj hj'
    rcases hcases j with hsame | ⟨-, hle, -, hall⟩
    · exact hsame
    · exfalso
      rcases hstart with hnull | ⟨k, hkb, hk⟩
      · obtain ⟨i, hlo, hhi, hend⟩ := h.below
        exact hall i (by omega) (by omega) hend
      · exact hall (b - 1) (by omega) (by omega) (h.before (by omega))
  refine ⟨h.saddr, h.total, h.lt, h.pos, fun j hj hj' hjt => ?_,
    fun hb => hends _ (h.before hb), ?_⟩
  · show ¬ heapGetEntryType (heapMarkBlocksFreeLoop _ _ _ j)
      = heapBlockTableEntryFree
    rw [hsame j hj hj']
    exact h.taken j hj hj' hjt
  · obtain ⟨i, hlo, hhi, hend⟩ := h.below
    exact ⟨i, hlo, hhi, hends i hend⟩

/-- What another request is given shares no byte with taken blocks. -/
theorem Taken.spansApart (h : Taken b n r) (hn : n ≤ kernelHeapBlocks)
    {size : Nat} (hsize : size ≤ 0x80000000)
    (hne : (kzalloc size r).1 ≠ 0#32) :
    SpansApart (kzalloc size r).1 size (blockAddress b) (blockBytes n) := by
  have hout := heapMalloc_handed r.heap size
  rw [heapAlignValueToUpper_blocks (by omega)] at hout
  rw [kzalloc_address] at hne ⊢
  have hbytes := size_le_blockBytes size
  generalize heapMalloc r.heap size = q at hout hne
  cases hout with
  | refused => exact absurd rfl hne
  | @marked k hlt hfree hrun =>
      have hb := h.lt
      have htotal := h.total
      simp only [kernelHeapBlocks] at hn htotal
      rw [heapBlockToAddress_eq r.heap h.saddr]
      have hpos := h.pos
      have hkb : k ≠ b := fun heq =>
        h.taken k (by omega) (by omega) hlt hfree
      -- blocks that lie apart, also where they run on behind the table
      have hsep : k + blocksFor size ≤ b ∨ b + n ≤ k := by
        by_contra hno
        by_cases hkb : k ≤ b
        · exact h.taken b (by omega) (by omega) hb (hrun b hkb (by omega) hb)
        · exact h.taken k (by omega) (by omega) hlt hfree
      have hhead : benosHeadAddress.toNat = 0x01000000 := rfl
      refine spansApart_of_dist ?_ ?_
      · rw [BitVec.toNat_sub, toNat_blockAddress (by omega),
          toNat_blockAddress (by omega)]
        simp only [blockBytes, benosHeapBlockSize] at *
        omega
      · rw [BitVec.toNat_sub, toNat_blockAddress (by omega),
          toNat_blockAddress (by omega)]
        simp only [blockBytes, benosHeapBlockSize] at *
        omega

theorem Held.spansApart (h : Held b n r) (hn : n ≤ kernelHeapBlocks)
    {size : Nat} (hsize : size ≤ 0x80000000)
    (hne : (kzalloc size r).1 ≠ 0#32) :
    SpansApart (kzalloc size r).1 size (blockAddress b) (blockBytes n) :=
  h.isTaken.spansApart hn hsize hne

/-- Taken blocks keep their bytes where something else is allocated. -/
theorem Taken.sameOn (h : Taken b n r) (hn : n ≤ kernelHeapBlocks)
    {size : Nat} (hsize : size ≤ 0x80000000) :
    SameOn (blockAddress b) (blockBytes n) r.mem (kzalloc size r).2.mem := by
  have hapart := h.spansApart hn hsize
  unfold kzalloc at hapart ⊢
  simp only at hapart ⊢
  split
  case isTrue => exact SameOn.refl _ _ _
  case isFalse hne =>
    rw [if_neg hne] at hapart
    exact writeBytes_sameOn r.mem (fun _ => 0x00) (hapart hne)

/-- A request that finds its run is no larger than the heap. -/
theorem Serves.size_le {heap : Heap} {size : Nat} (h : Serves heap size)
    (htotal : heap.table.total ≤ kernelHeapBlocks) : size ≤ 0x80000000 := by
  obtain ⟨b, hb, -⟩ := h
  have hbytes := size_le_blockBytes size
  simp only [blockBytes, benosHeapBlockSize, kernelHeapBlocks] at *
  omega

/-- `served` is kept by requests that find their run, and by no others. -/
theorem kzalloc_served_iff (size : Nat) (r : Ram) :
    (kzalloc size r).2.served = true
      ↔ r.served = true ∧ Serves r.heap size := by
  have hserved : (kzalloc size r).2.served
      = (r.served && decide (Serves r.heap size)) := by
    unfold kzalloc kmalloc
    simp only
    split
    · rfl
    · rfl
  rw [hserved, Bool.and_eq_true, decide_eq_true_eq]

-- ============================================================ heaps in order

/-- A heap in order: no chain runs on into a free block. -/
structure Tidy (r : Ram) : Prop where
  saddr : r.heap.saddr = benosHeadAddress
  total : r.heap.table.total ≤ kernelHeapBlocks
  chains : ∀ i : Nat, i + 1 < r.heap.table.total →
    IsFree r.heap.table (i + 1) → EndsChain r.heap i
  below : NullSafe r.heap

/-- A heap whose table stands for a pool is in order. -/
theorem RamOk.tidy {live : List (Addr × Nat)} (h : RamOk r live)
    (hnull : NullSafe r.heap) : Tidy r := by
  obtain ⟨⟨pool, hinv⟩, hsaddr, htotal⟩ := h
  refine ⟨hsaddr, htotal, fun i hi hfree => ?_, hnull⟩
  have hpool := (hinv.rep.isFree_iff hi).mp hfree
  unfold EndsChain
  by_cases hif : pool.Free i
  · have hlt : i < r.heap.table.total := by omega
    have hentry := hinv.rep.free i hlt hif
    simp only at hentry
    rw [hentry]
    rfl
  · -- a block of a run, and the next block is of none
    unfold BlockPool.Free at hif
    push Not at hif
    obtain ⟨q, hq, hcov⟩ := hif
    have hentry := hinv.rep.chain q hq i hcov
    simp only at hentry
    rw [hentry, chainEntry_hasNext]
    intro hlt
    exact hpool q hq ⟨by have := hcov.1; omega, hlt⟩

/-- An allocation is held. -/
theorem RamOk.held {live : List (Addr × Nat)} (h : RamOk r live)
    (hnull : NullSafe r.heap) {a : Addr × Nat} (ha : a ∈ live) :
    ∃ b, a.1 = blockAddress b ∧ Held b a.2 r := by
  obtain ⟨b, haddr, hpos, hin, hplace⟩ := h.place ha
  obtain ⟨⟨pool, hinv⟩, hsaddr, htotal⟩ := h
  have hrun := hinv.run a ha
  simp only at hrun
  rw [hplace] at hrun
  have hinside := pool.inside _ hrun
  simp only at hinside
  refine ⟨b, ?_, hsaddr, htotal, by omega, hpos, fun i hi hi' _ => ?_,
    fun hb => ?_, hnull⟩
  · apply BitVec.eq_of_toNat_eq
    simp only [kernelHeapBlocks] at hin
    rw [haddr, toNat_blockAddress (by omega)]
  · have hentry := hinv.rep.chain _ hrun i ⟨hi, hi'⟩
    simp only at hentry
    unfold IsFree
    rw [hentry]
    exact entryType_chainEntry _ _
  · -- what lies before a run is free, or the last block of another run
    rw [show (b : Int) - 1 = ((b - 1 : Nat) : Int) by omega]
    unfold EndsChain
    by_cases hfree : pool.Free (b - 1)
    · have hentry := hinv.rep.free (b - 1) (by simp only; omega) hfree
      simp only at hentry
      rw [hentry]
      rfl
    · unfold BlockPool.Free at hfree
      push Not at hfree
      obtain ⟨q, hq, hcov⟩ := hfree
      have hentry := hinv.rep.chain q hq (b - 1) hcov
      simp only at hentry
      rw [hentry, chainEntry_hasNext]
      intro hlt
      have hb' : q.Covers b := ⟨by have := hcov.1; omega, by omega⟩
      have hqr : q = ⟨b, a.2⟩ := by
        by_contra hne
        exact pool.apart_of_ne hq hrun hne b hb'
          ⟨Nat.le_refl _, by simp only; omega⟩
      have := hcov.1
      rw [hqr] at this
      simp only at this
      omega

/-- A request leaves the heap where it is. -/
theorem kernelHeap_kzalloc (h : KernelHeap r) (size : Nat) :
    KernelHeap (kzalloc size r).2 := by
  have hout := heapMalloc_handed r.heap size
  have hmalloc : KernelHeap ⟨(heapMalloc r.heap size).2, r.mem, r.served⟩ := by
    generalize heapMalloc r.heap size = q at hout ⊢
    cases hout with
    | refused => exact ⟨h.saddr, h.total⟩
    | marked => exact ⟨h.saddr, h.total⟩
  unfold kzalloc kmalloc
  simp only
  split
  · exact ⟨hmalloc.saddr, hmalloc.total⟩
  · exact ⟨hmalloc.saddr, hmalloc.total⟩

/-- A request that is granted marks a run of free blocks. -/
theorem kzalloc_marks (hsaddr : r.heap.saddr = benosHeadAddress) {size : Nat}
    (hlo : 1 ≤ size) (hhi : size ≤ 0xFFFFF000)
    (hne : (kzalloc size r).1 ≠ 0#32) :
    ∃ b, b < r.heap.table.total ∧ IsFree r.heap.table b
      ∧ (kzalloc size r).1 = blockAddress b
      ∧ (kzalloc size r).2.heap
        = heapMarkBlocksTaken r.heap b (blocksFor size) := by
  have hcase := heapMalloc_cases r.heap hlo hhi
  have hn := blocksFor_pos hlo
  unfold kzalloc kmalloc at hne ⊢
  simp only at hne ⊢
  generalize heapMalloc r.heap size = q at hcase hne ⊢
  cases hcase with
  | full _ _ => exact absurd (by simp only; rfl) hne
  | @found b hfit =>
      have hin := hfit.inside
      have hfree : IsFree r.heap.table b := hfit.run b (by omega) (by omega)
      refine ⟨b, by omega, hfree, ?_⟩
      simp only at hne ⊢
      split at hne
      case isTrue hz => exact absurd rfl hne
      case isFalse hz =>
        rw [if_neg hz]
        exact ⟨heapBlockToAddress_eq r.heap hsaddr b, rfl⟩
  | @cut b _ htrail =>
      have hlt := htrail.below
      have hfree : IsFree r.heap.table b := htrail.run b (by omega) (by omega)
      refine ⟨b, hlt, hfree, ?_⟩
      simp only at hne ⊢
      split at hne
      case isTrue hz => exact absurd rfl hne
      case isFalse hz =>
        rw [if_neg hz]
        exact ⟨heapBlockToAddress_eq r.heap hsaddr b, rfl⟩

/-- What a request is given is taken from then on. -/
theorem taken_of_kzalloc (h : KernelHeap r) {size : Nat} (hlo : 1 ≤ size)
    (hhi : size ≤ 0xFFFFF000) (hne : (kzalloc size r).1 ≠ 0#32) :
    ∃ b, (kzalloc size r).1 = blockAddress b
      ∧ Taken b (blocksFor size) (kzalloc size r).2 := by
  obtain ⟨b, hlt, hfree, haddr, hheap⟩ := kzalloc_marks h.saddr hlo hhi hne
  refine ⟨b, haddr, by rw [hheap]; exact h.saddr, by rw [hheap]; exact h.total,
    by rw [hheap]; exact hlt, blocksFor_pos hlo, fun i hi hi' _ hfree' => ?_⟩
  rw [hheap] at hfree'
  exact ((isFree_heapMarkBlocksTaken r.heap b _ i).mp hfree').2 ⟨hi, hi'⟩

/-- What a request is given is held from then on. -/
theorem held_of_kzalloc (h : Tidy r) {size : Nat} (hlo : 1 ≤ size)
    (hhi : size ≤ 0xFFFFF000) (hne : (kzalloc size r).1 ≠ 0#32) :
    ∃ b, b < r.heap.table.total ∧ IsFree r.heap.table b
      ∧ (kzalloc size r).1 = blockAddress b
      ∧ Held b (blocksFor size) (kzalloc size r).2 := by
  obtain ⟨b, hlt, hfree, haddr, hheap⟩ := kzalloc_marks h.saddr hlo hhi hne
  have hentries := heapMarkBlocksTaken_apply r.heap b (blocksFor size)
  refine ⟨b, hlt, hfree, haddr, by rw [hheap]; exact h.saddr,
    by rw [hheap]; exact h.total, by rw [hheap]; exact hlt, blocksFor_pos hlo,
    fun i hi hi' _ hfree' => ?_, fun hb => ?_, ?_⟩
  · rw [hheap] at hfree'
    exact ((isFree_heapMarkBlocksTaken r.heap b _ i).mp hfree').2 ⟨hi, hi'⟩
  · have hend := h.chains (b - 1) (by omega) (by
      rw [show b - 1 + 1 = b by omega]
      exact hfree)
    unfold EndsChain at hend ⊢
    rw [hheap, hentries, if_neg (by omega),
      show (b : Int) - 1 = ((b - 1 : Nat) : Int) by omega]
    exact hend
  · obtain ⟨i, hi, hi', hend⟩ := h.below
    refine ⟨i, hi, hi', ?_⟩
    unfold EndsChain
    rw [hheap, hentries, if_neg (by omega)]
    exact hend

/-- Two heaps have the same block table. -/
def SameTable (heap heap' : Heap) : Prop :=
  heap'.table.total = heap.table.total
    ∧ ∀ i : Nat, i < heap.table.total →
      heap'.table.entries i = heap.table.entries i

/-- Where a block is held that was free, the table is another. -/
theorem not_sameTable_of_held {r' : Ram} (hlt : b < r.heap.table.total)
    (hfree : IsFree r.heap.table b) (h : Held b n r') :
    ¬ SameTable r.heap r'.heap := by
  intro hsame
  have hpos := h.pos
  refine h.taken b (Nat.le_refl _) (by omega) h.lt ?_
  unfold IsFree at hfree ⊢
  rw [hsame.2 b hlt]
  exact hfree

end BenOS.Memory
