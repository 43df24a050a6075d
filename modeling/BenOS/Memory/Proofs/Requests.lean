/-
One request to the kernel heap: the run of blocks it gets, and what its
size makes of it.

`heap_get_start_block_complete`: where the table has a free run as long
as a request needs, the scan finds the lowest one, and `heap_malloc`
hands out exactly that.

`heap_malloc_size_exact` is about every 32-bit size. A pointer should
stand for a run of at least one block and of as many as the size rounds
up to, all of them blocks of the table that were free; then no later
request is given the same address, and the bytes `kzalloc` clears lie in
the run (`SizeSafe`). Two sizes break it and one state of the table. Size
0, and the sizes that `heap_align_value_to_upper` wraps to 0, ask for no
block: the scan is never satisfied, and where the table ends in a free
run the start of that run is handed out with nothing marked. A size that
no free run is long enough for is granted by the same way out. So the
condition (`SizeGuard`) is that the size rounds up to blocks and a run is
long enough, or else that the table does not end in a free block.
-/
import BenOS.Memory.Proofs.Held

namespace BenOS.Memory

open Lib

-- ============================================================ the pool's place

/-- The pool lies in memory, above the null address. -/
structure InMemory (heap : Heap) : Prop where
  above : 0 < heap.saddr.toNat
  below : heap.saddr.toNat + heap.table.total * benosHeapBlockSize ≤ 2 ^ 32

variable {heap : Heap}

/-- Where a block of the pool lies. -/
theorem InMemory.block_toNat (h : InMemory heap) {b : Nat}
    (hb : b < heap.table.total) :
    (heapBlockToAddress heap b).toNat
      = heap.saddr.toNat + b * benosHeapBlockSize := by
  have habove := h.above
  have hbelow := h.below
  simp only [benosHeapBlockSize] at hbelow
  have hsub := heapBlockToAddress_sub heap (b := b) (by omega)
  rw [BitVec.toNat_sub] at hsub
  have hlt := (heapBlockToAddress heap b).isLt
  simp only [benosHeapBlockSize] at *
  omega

/-- No block of the pool lies at the null address. -/
theorem InMemory.block_ne_null (h : InMemory heap) {b : Nat}
    (hb : b < heap.table.total) : heapBlockToAddress heap b ≠ 0#32 := by
  intro hnull
  have hplace := h.block_toNat hb
  have habove := h.above
  rw [hnull, BitVec.toNat_zero] at hplace
  omega

/-- Distinct blocks of the pool lie at distinct addresses. -/
theorem InMemory.block_inj (h : InMemory heap) {b c : Nat}
    (hb : b < heap.table.total) (hc : c < heap.table.total)
    (heq : heapBlockToAddress heap b = heapBlockToAddress heap c) : b = c := by
  have hplace := h.block_toNat hb
  rw [heq, h.block_toNat hc] at hplace
  simp only [benosHeapBlockSize] at hplace
  omega

/-- The kernel's pool lies in memory. -/
theorem RamOk.inMemory {r : Ram} {live : List (Addr × Nat)} (h : RamOk r live) :
    InMemory r.heap := by
  have hhead : benosHeadAddress.toNat = 0x01000000 := rfl
  have htotal := h.total
  refine ⟨?_, ?_⟩
  · rw [h.saddr, hhead]
    omega
  · rw [h.saddr, hhead]
    simp only [kernelHeapBlocks, benosHeapBlockSize] at *
    omega

-- ============================================================== the first fit

/-- Where a free run is long enough the scan answers with the lowest
one. -/
theorem heapGetStartBlock_of_hasFreeRun {n : Nat} (hn : 1 ≤ n)
    (hrun : HasFreeRun (IsFree heap.table) heap.table.total n) :
    ∃ b : Nat, FirstFit (IsFree heap.table) heap.table.total n b
      ∧ heapGetStartBlock heap n = b := by
  have hout := heapGetStartBlock_outcome heap hn
  generalize heapGetStartBlock heap n = start at hout
  cases hout with
  | found hfit => exact ⟨_, hfit, rfl⟩
  | full hnone _ => exact absurd hrun hnone
  | cut hnone _ _ => exact absurd hrun hnone

/-- A request for `n` blocks is given those from the start the scan
found. -/
theorem heapMalloc_of_start {n b size : Nat}
    (hstart : heapGetStartBlock heap n = b)
    (hsize : heapAlignValueToUpper size / benosHeapBlockSize = n) :
    heapMalloc heap size
      = (heapBlockToAddress heap b, heapMarkBlocksTaken heap b n) := by
  unfold heapMalloc heapMallocBlocks
  rw [hsize, hstart]
  simp only
  rw [if_neg (by omega)]

/-- First fit is complete: on every table and for every number of blocks,
where as many consecutive free blocks are in the table,
`heap_get_start_block` answers with the smallest index at which such a
run starts, and every request for that many blocks is given this run. -/
theorem heap_get_start_block_complete (heap : Heap) {n : Nat} (hn : 1 ≤ n)
    (hrun : HasFreeRun (IsFree heap.table) heap.table.total n) :
    ∃ b : Nat, FirstFit (IsFree heap.table) heap.table.total n b
      ∧ heapGetStartBlock heap n = b
      ∧ (∀ size, heapAlignValueToUpper size / benosHeapBlockSize = n →
          heapMalloc heap size
            = (heapBlockToAddress heap b, heapMarkBlocksTaken heap b n))
      ∧ (InMemory heap → heapBlockToAddress heap b ≠ 0#32) := by
  obtain ⟨b, hfit, hstart⟩ := heapGetStartBlock_of_hasFreeRun hn hrun
  refine ⟨b, hfit, hstart, ?_, ?_⟩
  · exact fun size hsize => heapMalloc_of_start hstart hsize
  · intro hpool
    have hin := hfit.inside
    exact hpool.block_ne_null (by omega)

/-- In a pool of four blocks of which the second is taken, two blocks are
found behind it: the one in front is too short a run. -/
theorem heap_get_start_block_complete_behind :
    heapGetStartBlock
      ⟨⟨fun i => if i = 1 then heapBlockTableEntryTaken else 0, 4⟩,
        0x01000000#32⟩ 2 = 2 := by
  obtain ⟨b, hfit, hstart, -⟩ := heap_get_start_block_complete
    ⟨⟨fun i => if i = 1 then heapBlockTableEntryTaken else 0, 4⟩,
      0x01000000#32⟩ (n := 2) (by decide) (by decide)
  have hin : b + 2 ≤ 4 := hfit.inside
  have hfirst := hfit.run b (Nat.le_refl b) (by omega)
  have hsecond := hfit.run (b + 1) (Nat.le_succ b) (by omega)
  have hb : b = 2 := by
    rcases (by omega : b = 0 ∨ b = 1 ∨ b = 2) with rfl | rfl | rfl
    · exact absurd hsecond (by decide)
    · exact absurd hfirst (by decide)
    · rfl
  rw [hstart, hb]
  rfl

-- ============================================================ any one request

/-- A request, whatever its size, keeps the table's place and length and
frees no block. -/
theorem heapMalloc_keeps (heap : Heap) (size : Nat) :
    (heapMalloc heap size).2.saddr = heap.saddr
      ∧ (heapMalloc heap size).2.table.total = heap.table.total
      ∧ ∀ i : Nat, ¬ IsFree heap.table i →
          ¬ IsFree (heapMalloc heap size).2.table i := by
  have hhanded := heapMalloc_handed heap size
  generalize heapMalloc heap size = r at hhanded
  cases hhanded with
  | refused => exact ⟨rfl, rfl, fun _ h => h⟩
  | @marked b _ _ _ =>
      refine ⟨rfl, rfl, fun i htaken hfree => ?_⟩
      exact htaken ((isFree_heapMarkBlocksTaken heap b _ i).mp hfree).1

/-- What a request answers is null or the address of a block of the table
that was free. -/
theorem heapMalloc_free (heap : Heap) (size : Nat)
    (hne : (heapMalloc heap size).1 ≠ 0#32) :
    ∃ b : Nat, b < heap.table.total ∧ IsFree heap.table b
      ∧ (heapMalloc heap size).1 = heapBlockToAddress heap b := by
  have hhanded := heapMalloc_handed heap size
  generalize heapMalloc heap size = r at hhanded hne
  cases hhanded with
  | refused => exact absurd rfl hne
  | @marked b hlt hfree _ => exact ⟨b, hlt, hfree, rfl⟩

/-- Requests one after the other, without a release. -/
def heapMallocs (heap : Heap) : List Nat → Heap
  | [] => heap
  | size :: sizes => heapMallocs (heapMalloc heap size).2 sizes

theorem heapMallocs_keeps (sizes : List Nat) :
    ∀ heap : Heap, (heapMallocs heap sizes).saddr = heap.saddr
      ∧ (heapMallocs heap sizes).table.total = heap.table.total
      ∧ ∀ i : Nat, ¬ IsFree heap.table i →
          ¬ IsFree (heapMallocs heap sizes).table i := by
  induction sizes with
  | nil => exact fun _ => ⟨rfl, rfl, fun _ h => h⟩
  | cons size sizes ih =>
      intro heap
      obtain ⟨hsaddr, htotal, htaken⟩ := heapMalloc_keeps heap size
      obtain ⟨hsaddr', htotal', htaken'⟩ := ih (heapMalloc heap size).2
      exact ⟨hsaddr'.trans hsaddr, htotal'.trans htotal,
        fun i hi => htaken' i (htaken i hi)⟩

-- ======================================================= what a size is owed

/-- The blocks a pointer for `size` bytes has to stand for: one at least,
and as many as the size rounds up to. -/
def blocksOwed (size : Nat) : Nat := max 1 (blocksFor size)

/-- A pointer given for `size` bytes stands for the run from block `b` on:
blocks of the table that were free and are now taken, among which the
`memset` of `kzalloc` stays. -/
structure GivenRun (heap : Heap) (size b : Nat) : Prop where
  address : (heapMalloc heap size).1 = heapBlockToAddress heap b
  inside : b + blocksOwed size ≤ heap.table.total
  marked : ∀ i, b ≤ i → i < b + blocksOwed size →
    IsFree heap.table i ∧ ¬ IsFree (heapMalloc heap size).2.table i
  cleared : ∀ r : Ram, r.heap = heap → ∀ x,
    (kzalloc size r).2.mem x ≠ r.mem x →
    InSpan (heapBlockToAddress heap b)
      (blocksOwed size * benosHeapBlockSize) x

/-- The size arithmetic of a request is safe: a pointer stands for a run
as long as the size needs, and no later request is given the same
address. -/
structure SizeSafe (heap : Heap) (size : Nat) : Prop where
  granted : (heapMalloc heap size).1 ≠ 0#32 → ∃ b, GivenRun heap size b
  apart : (heapMalloc heap size).1 ≠ 0#32 → ∀ sizes again,
    (heapMalloc (heapMallocs (heapMalloc heap size).2 sizes) again).1
      ≠ (heapMalloc heap size).1

/-- The size is one that rounds up to blocks and a free run is long
enough for it, or the table does not end in a free block. -/
def SizeGuard (heap : Heap) (size : Nat) : Prop :=
  (1 ≤ size ∧ size ≤ 0xFFFFF000
      ∧ HasFreeRun (IsFree heap.table) heap.table.total (blocksFor size))
    ∨ heap.table.total = 0 ∨ ¬ IsFree heap.table (heap.table.total - 1)

instance (heap : Heap) (size : Nat) : Decidable (SizeGuard heap size) :=
  inferInstanceAs (Decidable (_ ∨ _))

/-- The bytes `kzalloc` changes are as many as it was asked for, from the
address of the request on. -/
theorem kzalloc_changes {size : Nat} {r : Ram} {x : Addr}
    (h : (kzalloc size r).2.mem x ≠ r.mem x) :
    InSpan (heapMalloc r.heap size).1 size x := by
  unfold kzalloc kmalloc at h
  simp only at h
  split at h
  case isTrue => exact absurd rfl h
  case isFalse =>
      by_contra hout
      apply h
      show memset r.mem (heapMalloc r.heap size).1 0x00 size x = r.mem x
      exact writeBytes_of_not_inSpan _ _ hout

theorem size_le_blocksOwed (size : Nat) :
    size ≤ blocksOwed size * benosHeapBlockSize := by
  unfold blocksOwed blocksFor
  simp only [benosHeapBlockSize]
  omega

/-- A size in range with a run long enough is granted the lowest such
run. -/
theorem givenRun_of_hasFreeRun {size : Nat} (hlo : 1 ≤ size)
    (hhi : size ≤ 0xFFFFF000)
    (hrun : HasFreeRun (IsFree heap.table) heap.table.total
      (blocksFor size)) : ∃ b, GivenRun heap size b := by
  have hpos := blocksFor_pos hlo
  obtain ⟨b, hfit, hstart⟩ := heapGetStartBlock_of_hasFreeRun hpos hrun
  have hmalloc :=
    heapMalloc_of_start hstart (heapAlignValueToUpper_blocks hhi)
  have howed : blocksOwed size = blocksFor size := Nat.max_eq_right hpos
  refine ⟨b, by rw [hmalloc], by rw [howed]; exact hfit.inside, ?_, ?_⟩
  · intro i hi hi'
    rw [howed] at hi'
    refine ⟨hfit.run i hi hi', ?_⟩
    rw [hmalloc]
    intro hfree
    exact ((isFree_heapMarkBlocksTaken heap b _ i).mp hfree).2 ⟨hi, hi'⟩
  · intro r hr x hx
    have hspan := kzalloc_changes hx
    rw [hr, hmalloc] at hspan
    have hsize := size_le_blocksOwed size
    unfold InSpan at hspan ⊢
    simp only at hspan
    omega

/-- A granted address is not given again while no block is released. -/
theorem GivenRun.apart (hpool : InMemory heap) {size b : Nat}
    (h : GivenRun heap size b) (sizes : List Nat) (again : Nat)
    (hne : (heapMalloc heap size).1 ≠ 0#32) :
    (heapMalloc (heapMallocs (heapMalloc heap size).2 sizes) again).1
      ≠ (heapMalloc heap size).1 := by
  intro heq
  obtain ⟨hsaddr, htotal, -⟩ := heapMalloc_keeps heap size
  obtain ⟨hsaddr', htotal', htaken⟩ :=
    heapMallocs_keeps sizes (heapMalloc heap size).2
  have hin := h.inside
  have howed : 1 ≤ blocksOwed size := Nat.le_max_left _ _
  have htakenb := (h.marked b (Nat.le_refl b) (by omega)).2
  obtain ⟨c, hc, hfree, haddr⟩ := heapMalloc_free
    (heapMallocs (heapMalloc heap size).2 sizes) again (by rw [heq]; exact hne)
  -- the later answer is a block that is free then, and `b` is taken
  have hsame : heapBlockToAddress
      (heapMallocs (heapMalloc heap size).2 sizes) c
      = heapBlockToAddress heap c := by
    unfold heapBlockToAddress
    rw [hsaddr', hsaddr]
  rw [htotal', htotal] at hc
  rw [heq, h.address, hsame] at haddr
  have hbc : b = c := hpool.block_inj (by omega) hc haddr
  rw [← hbc] at hfree
  exact htaken b htakenb hfree

/-- A request for no block at all marks nothing, and its answer is null
only where the table does not end in a free block. -/
theorem heapMalloc_no_blocks (hpool : InMemory heap) {size : Nat}
    (hzero : heapAlignValueToUpper size / benosHeapBlockSize = 0) :
    (heapMalloc heap size).2 = heap
      ∧ ((heapMalloc heap size).1 = 0#32 ↔
          (heap.table.total = 0
            ∨ ¬ IsFree heap.table (heap.table.total - 1))) := by
  unfold heapMalloc heapMallocBlocks
  rw [hzero]
  obtain ⟨bc, hat⟩ := @heapGetStartBlockLoop_zero heap.table
    heap.table.total 0 0 (-1) (by omega) (ScanAt.behindTaken (Or.inl rfl))
  unfold heapGetStartBlock
  generalize heapGetStartBlockLoop heap.table 0 heap.table.total 0 0 (-1)
    = bs at hat
  cases hat with
  | behindTaken hlast => exact ⟨rfl, fun _ => hlast, fun _ => rfl⟩
  | @inFreeRun b hb hrun hfirst =>
      simp only
      rw [if_neg (by omega), if_neg (by omega)]
      have hsame : heapMarkBlocksTaken heap b 0 = heap := by
        unfold heapMarkBlocksTaken
        simp only
        rw [show (((b : Int) + 0 - 1) + 1 - b).toNat = 0 by omega]
        rfl
      refine ⟨hsame, fun hnull => ?_, fun hlast => ?_⟩
      · exact absurd hnull (hpool.block_ne_null hb)
      · rcases hlast with hzero | htaken
        · omega
        · exact absurd (hrun _ (by omega) (by omega)) htaken

/-- A size that is 0 or wraps asks for no block. -/
theorem heapAlignValueToUpper_no_blocks {size : Nat} (hsize : size < 2 ^ 32)
    (hrange : ¬ (1 ≤ size ∧ size ≤ 0xFFFFF000)) :
    heapAlignValueToUpper size / benosHeapBlockSize = 0 := by
  unfold heapAlignValueToUpper
  simp only [benosHeapBlockSize]
  split <;> omega

/-- A null answer is safe. -/
theorem sizeSafe_of_null {size : Nat}
    (hnull : (heapMalloc heap size).1 = 0#32) : SizeSafe heap size :=
  ⟨fun h => absurd hnull h, fun h => absurd hnull h⟩

/-- The size arithmetic of the allocator is safe exactly under the guard:
for every 32-bit size and every table of a pool that lies in memory. -/
theorem heap_malloc_size_exact (hpool : InMemory heap) {size : Nat}
    (hsize : size < 2 ^ 32) : SizeSafe heap size ↔ SizeGuard heap size := by
  by_cases hrange : 1 ≤ size ∧ size ≤ 0xFFFFF000
  · obtain ⟨hlo, hhi⟩ := hrange
    by_cases hrun : HasFreeRun (IsFree heap.table) heap.table.total
        (blocksFor size)
    · -- a run is long enough
      obtain ⟨b, hb⟩ := givenRun_of_hasFreeRun hlo hhi hrun
      exact ⟨fun _ => Or.inl ⟨hlo, hhi, hrun⟩, fun _ =>
        ⟨fun _ => ⟨b, hb⟩, fun hne sizes again =>
          hb.apart hpool sizes again hne⟩⟩
    · have hcase := heapMalloc_cases heap hlo hhi
      generalize hr : heapMalloc heap size = r at hcase
      cases hcase with
      | found hfit => exact absurd hfit.hasFreeRun hrun
      | full _ hlast =>
          exact ⟨fun _ => Or.inr hlast, fun _ =>
            sizeSafe_of_null (by rw [hr])⟩
      | @cut b _ htrail =>
          -- the run the table ends in is handed out, too short
          have hb := htrail.below
          have hlast : IsFree heap.table (heap.table.total - 1) :=
            htrail.run _ (by omega) (by omega)
          refine ⟨fun hsafe => ?_, fun hguard => ?_⟩
          · obtain ⟨c, hc⟩ := hsafe.granted (by
              rw [hr]
              exact hpool.block_ne_null hb)
            have hin := hc.inside
            have howed : blocksFor size ≤ blocksOwed size :=
              Nat.le_max_right _ _
            refine absurd ⟨c, by omega, fun i hi hi' => ?_⟩ hrun
            exact (hc.marked i hi (by omega)).1
          · rcases hguard with ⟨-, -, h⟩ | hzero | htaken
            · exact absurd h hrun
            · omega
            · exact absurd hlast htaken
  · -- no block is asked for
    obtain ⟨hheap, hnull⟩ := heapMalloc_no_blocks hpool
      (heapAlignValueToUpper_no_blocks hsize hrange)
    refine ⟨fun hsafe => ?_, fun hguard => ?_⟩
    · right
      apply hnull.mp
      by_contra hne
      obtain ⟨b, hb⟩ := hsafe.granted hne
      have howed : 1 ≤ blocksOwed size := Nat.le_max_left _ _
      obtain ⟨hfree, htaken⟩ := hb.marked b (Nat.le_refl b) (by omega)
      rw [hheap] at htaken
      exact htaken hfree
    · rcases hguard with ⟨hlo, hhi, -⟩ | hlast
      · exact absurd ⟨hlo, hhi⟩ hrange
      · exact sizeSafe_of_null (hnull.mpr hlast)

/-- Under the guard a request finds a run long enough, or is refused. -/
theorem heapMalloc_of_guard (hpool : InMemory heap) {size : Nat}
    (hlo : 1 ≤ size) (hsize : size < 2 ^ 32) (hguard : SizeGuard heap size) :
    Serves heap size ∨ heapMalloc heap size = (0#32, heap) := by
  rcases hguard with ⟨-, -, hrun⟩ | hlast
  · exact Or.inl hrun
  · by_cases hhi : size ≤ 0xFFFFF000
    · have hcase := heapMalloc_cases heap hlo hhi
      generalize heapMalloc heap size = r at hcase
      cases hcase with
      | found hfit => exact Or.inl hfit.hasFreeRun
      | full _ _ => exact Or.inr rfl
      | @cut b _ htrail =>
          -- a run at the table's end has the last block
          have hb := htrail.below
          rcases hlast with hzero | htaken
          · omega
          · exact absurd (htrail.run _ (by omega) (by omega)) htaken
    · obtain ⟨hheap, hnull⟩ := heapMalloc_no_blocks hpool
        (heapAlignValueToUpper_no_blocks hsize fun hrange => hhi hrange.2)
      exact Or.inr (Prod.ext (hnull.mpr hlast) hheap)

/-- Allocations lie below a run of free blocks that ends the table. -/
theorem RamOk.below_trailing {r : Ram} {live : List (Addr × Nat)}
    (h : RamOk r live) {b : Nat}
    (htrail : TrailingRun (IsFree r.heap.table) r.heap.table.total b)
    {c : Addr × Nat} (hc : c ∈ live) :
    c.1.toNat + blockBytes c.2
      ≤ benosHeadAddress.toNat + b * benosHeapBlockSize := by
  obtain ⟨-, -, hpos, -⟩ := h.place hc
  obtain ⟨d, haddr, hin, hchain⟩ := h.ownsRun hc
  have hd : (heapBlockToAddress r.heap d).toNat
      = r.heap.saddr.toNat + d * benosHeapBlockSize :=
    h.inMemory.block_toNat (by omega)
  rw [← haddr, h.saddr] at hd
  have hle : d + c.2 ≤ b := by
    by_contra hover
    -- the last block of the allocation would be free
    have hfree := htrail.run (d + c.2 - 1) (by omega) (by omega)
    unfold IsFree at hfree
    rw [hchain _ (by omega) (by omega)] at hfree
    exact entryType_chainEntry _ _ hfree
  rw [hd]
  simp only [blockBytes, benosHeapBlockSize]
  omega

/-- What is cleared from the start of such a run on lies behind every
allocation. -/
theorem RamOk.sameOn_trailing {r : Ram} {live : List (Addr × Nat)}
    (h : RamOk r live) {b size : Nat}
    (htrail : TrailingRun (IsFree r.heap.table) r.heap.table.total b)
    (hsize : size ≤ 2 ^ 30) {c : Addr × Nat} (hc : c ∈ live) :
    SameOn c.1 (blockBytes c.2) r.mem
      (memset r.mem (blockAddress b) 0x00 size) := by
  have hb := htrail.below
  have htotal := h.total
  simp only [kernelHeapBlocks] at htotal
  have haddr := toNat_blockAddress (b := b) (by omega)
  have hhead : benosHeadAddress.toNat = 0x01000000 := rfl
  have hbelow := h.below_trailing htrail hc
  intro x hx
  refine writeBytes_of_not_inSpan _ _ fun hin => ?_
  unfold InSpan at hx hin
  rw [BitVec.toNat_sub] at hx hin
  have hxlt := x.isLt
  have hclt := c.1.isLt
  simp only [benosHeapBlockSize] at *
  omega

/-- A free pool of two blocks at 16 MiB. -/
def twoFreeBlocks : Heap := ⟨⟨fun _ => 0, 2⟩, 0x01000000#32⟩

/-- Two blocks' worth of bytes, there. -/
theorem heap_malloc_size_exact_two_blocks : SizeSafe twoFreeBlocks 8192 :=
  (heap_malloc_size_exact ⟨by decide, by decide⟩ (by decide)).mpr (by decide)

/-- It is not so for every size: asked for 0 bytes, `heap_malloc` hands
out the first block of a free pool and marks nothing. -/
theorem heap_malloc_no_bytes :
    ¬ ∀ heap : Heap, InMemory heap → ∀ size < 2 ^ 32, SizeSafe heap size := by
  intro hall
  have hsafe := hall twoFreeBlocks ⟨by decide, by decide⟩ 0 (by decide)
  have hnull : (heapMalloc twoFreeBlocks 0).1 ≠ 0#32 := by decide
  have hagain := hsafe.apart hnull [] 0
  exact absurd (by decide) hagain

end BenOS.Memory
