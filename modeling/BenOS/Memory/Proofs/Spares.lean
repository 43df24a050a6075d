/-
What a call leaves to those who have blocks.

`Spares r r'`: whatever is taken in `r` is taken in `r'` and has the bytes
it had, and whatever is held (`Held`) is held. Requests spare it
(`spares_kzalloc`), and so do writes into what a request was given since
(`Spares.write`): that lies outside of whatever was taken when it was
requested (`Outside`). So what a function does to the objects that were
there before it is called follows step by step, however many blocks it
takes for itself.
-/
import BenOS.Memory.Proofs.Held

namespace BenOS.Memory

open Lib

variable {r r' r'' : Ram}

-- ============================================================ taken and spared

/-- Only the heap of a memory decides what is taken. -/
theorem Taken.of_heap {b n : Nat} (h : Taken b n r) (heq : r'.heap = r.heap) :
    Taken b n r' := by
  obtain ⟨hsaddr, htotal, hlt, hpos, htaken⟩ := h
  rw [← heq] at hsaddr htotal hlt htaken
  exact ⟨hsaddr, htotal, hlt, hpos, htaken⟩

/-- Only the heap of a memory decides what is held. -/
theorem Held.of_heap {b n : Nat} (h : Held b n r) (heq : r'.heap = r.heap) :
    Held b n r' := by
  obtain ⟨hsaddr, htotal, hlt, hpos, htaken, hbefore, hbelow⟩ := h
  rw [← heq] at hsaddr htotal hlt htaken hbefore hbelow
  exact ⟨hsaddr, htotal, hlt, hpos, htaken, hbefore, hbelow⟩

theorem KernelHeap.of_heap (h : KernelHeap r) (heq : r'.heap = r.heap) :
    KernelHeap r' := ⟨heq ▸ h.saddr, heq ▸ h.total⟩

/-- Whatever is taken in `r` is taken in `r'`, and has its bytes; whatever
is held stays held. -/
structure Spares (r r' : Ram) : Prop where
  taken : ∀ b n, n ≤ kernelHeapBlocks → Taken b n r →
    Taken b n r' ∧ SameOn (blockAddress b) (blockBytes n) r.mem r'.mem
  held : ∀ b n, Held b n r → Held b n r'

/-- A span that shares no byte with what is taken. -/
def Outside (r : Ram) (a : Addr) (size : Nat) : Prop :=
  ∀ b n, n ≤ kernelHeapBlocks → Taken b n r →
    SpansApart a size (blockAddress b) (blockBytes n)

theorem Spares.trans (h : Spares r r') (h' : Spares r' r'') : Spares r r'' := by
  refine ⟨fun b n hn htaken => ?_,
    fun b n hheld => h'.held b n (h.held b n hheld)⟩
  obtain ⟨htaken', hsame⟩ := h.taken b n hn htaken
  obtain ⟨htaken'', hsame'⟩ := h'.taken b n hn htaken'
  exact ⟨htaken'', hsame.trans hsame'⟩

/-- What lies outside later lies outside of what was taken before. -/
theorem Spares.outside {a : Addr} {size : Nat} (h : Spares r r')
    (hout : Outside r' a size) : Outside r a size :=
  fun b n hn htaken => hout b n hn (h.taken b n hn htaken).1

/-- A memory is rewritten outside of what is taken. -/
theorem Spares.mem (h : Spares r r') {m : Bytes}
    (hm : ∀ b n, n ≤ kernelHeapBlocks → Taken b n r →
      SameOn (blockAddress b) (blockBytes n) r'.mem m) :
    Spares r { r' with mem := m } := by
  refine ⟨fun b n hn htaken => ?_,
    fun b n hheld => (h.held b n hheld).of_heap rfl⟩
  obtain ⟨htaken', hsame⟩ := h.taken b n hn htaken
  exact ⟨htaken'.of_heap rfl, hsame.trans (hm b n hn htaken)⟩

/-- A write outside of what is taken. -/
theorem Spares.write {a : Addr} {size : Nat} (h : Spares r r')
    (hout : Outside r a size) (f : Nat → UInt8) :
    Spares r { r' with mem := writeBytes r'.mem a size f } :=
  h.mem fun b n hn htaken => writeBytes_sameOn r'.mem f (hout b n hn htaken)

-- ==================================================================== requests

/-- A request writes where it is given bytes, and nowhere else. -/
theorem kzalloc_sameOn {a : Addr} {n size : Nat}
    (h : SpansApart (kzalloc size r).1 size a n) :
    SameOn a n r.mem (kzalloc size r).2.mem := by
  unfold kzalloc at h ⊢
  simp only at h ⊢
  split
  case isTrue => exact SameOn.refl _ _ _
  case isFalse hne =>
    rw [if_neg hne] at h
    exact writeBytes_sameOn r.mem (fun _ => 0x00) h

/-- A request spares what is taken. -/
theorem spares_kzalloc (r : Ram) {size : Nat} (hsize : size ≤ 0x80000000) :
    Spares r (kzalloc size r).2 where
  taken := fun _ _ hn htaken =>
    ⟨(taken_kzalloc htaken size).1, htaken.sameOn hn hsize⟩
  held := fun _ _ hheld => (held_kzalloc hheld size).1

/-- What it is given lies outside. -/
theorem outside_kzalloc {size : Nat} (hsize : size ≤ 0x80000000)
    (hne : (kzalloc size r).1 ≠ 0#32) : Outside r (kzalloc size r).1 size :=
  fun _ _ hn htaken => htaken.spansApart hn hsize hne

/-- What it is given are whole blocks. -/
theorem outside_kzalloc_blocks {size : Nat} (hsize : size ≤ 0x7FFFF000)
    (hne : (kzalloc size r).1 ≠ 0#32) :
    Outside r (kzalloc size r).1 (blockBytes (blocksFor size)) := by
  have hbytes := size_le_blockBytes size
  have hwhole : blockBytes (blocksFor size) ≤ 0x80000000 := by
    simp only [blocksFor, blockBytes, benosHeapBlockSize] at *
    omega
  have hmalloc : (heapMalloc r.heap (blockBytes (blocksFor size))).1
      = (heapMalloc r.heap size).1 := by
    unfold heapMalloc
    rw [heapAlignValueToUpper_blocks (by omega),
      heapAlignValueToUpper_blocks (by omega)]
    have hblocks : blocksFor (blockBytes (blocksFor size))
        = blocksFor size := by
      simp only [blocksFor, blockBytes, benosHeapBlockSize]
      omega
    rw [hblocks]
  have heq : (kzalloc (blockBytes (blocksFor size)) r).1
      = (kzalloc size r).1 := by
    rw [kzalloc_address, kzalloc_address, hmalloc]
  intro b n hn htaken
  have hapart : SpansApart (kzalloc (blockBytes (blocksFor size)) r).1
      (blockBytes (blocksFor size)) (blockAddress b) (blockBytes n) :=
    htaken.spansApart hn hwhole (by rw [heq]; exact hne)
  rwa [heq] at hapart

/-- A request for up to a block gives all of the block. -/
theorem outside_kzalloc_block {size : Nat} (hlo : 1 ≤ size)
    (hsize : size ≤ benosHeapBlockSize) (hne : (kzalloc size r).1 ≠ 0#32) :
    Outside r (kzalloc size r).1 (blockBytes 1) := by
  have hone : blocksFor size = 1 := by
    simp only [blocksFor, benosHeapBlockSize] at *
    omega
  have hout := outside_kzalloc_blocks (r := r) (by
    simp only [benosHeapBlockSize] at hsize
    omega) hne
  rwa [hone] at hout

/-- A block it was given is taken from then on. -/
theorem taken_kzalloc_block (h : KernelHeap r) {size : Nat} (hlo : 1 ≤ size)
    (hsize : size ≤ benosHeapBlockSize) (hne : (kzalloc size r).1 ≠ 0#32) :
    ∃ b, (kzalloc size r).1 = blockAddress b
      ∧ Taken b 1 (kzalloc size r).2 := by
  obtain ⟨b, haddr, htaken⟩ := taken_of_kzalloc h hlo (by
    simp only [benosHeapBlockSize] at hsize; omega) hne
  have hone : blocksFor size = 1 := by
    simp only [blocksFor, benosHeapBlockSize] at *
    omega
  rw [hone] at htaken
  exact ⟨b, haddr, htaken⟩

-- ====================================================================== room

/-- The kernel heap, with the blocks from `k` on free. -/
structure Room (r : Ram) (k : Nat) : Prop where
  saddr : r.heap.saddr = benosHeadAddress
  total : r.heap.table.total ≤ kernelHeapBlocks
  free : ∀ i, k ≤ i → i < r.heap.table.total → IsFree r.heap.table i

theorem Room.of_heap {k : Nat} (h : Room r k) (heq : r'.heap = r.heap) :
    Room r' k := by
  obtain ⟨hsaddr, htotal, hfree⟩ := h
  rw [← heq] at hsaddr htotal hfree
  exact ⟨hsaddr, htotal, hfree⟩

theorem room_empty (m : Bytes) (served : Bool) :
    Room ⟨emptyHeap, m, served⟩ 0 := by
  refine ⟨rfl, Nat.le_refl _, fun i _ _ => ?_⟩
  show heapGetEntryType 0x00 = heapBlockTableEntryFree
  rfl

/-- A request that fits into the free end of the table is granted, and
takes no more of the end than it needs. -/
theorem Room.kzalloc {k size : Nat} (h : Room r k) (hlo : 1 ≤ size)
    (hroom : k + blocksFor size ≤ r.heap.table.total) :
    (Memory.kzalloc size r).1 ≠ 0#32
      ∧ Room (Memory.kzalloc size r).2 (k + blocksFor size)
      ∧ (Memory.kzalloc size r).2.heap.table.total = r.heap.table.total
      ∧ (Memory.kzalloc size r).2.served = r.served := by
  have hn := blocksFor_pos hlo
  have htotal := h.total
  have hrun : FreeRun (IsFree r.heap.table) k (blocksFor size) :=
    fun i hi hi' => h.free i hi (by omega)
  have hserves : Serves r.heap size := ⟨k, hroom, hrun⟩
  obtain ⟨-, b, hfit, heq⟩ := heapMalloc_of_serves hlo htotal hserves
  have hb : b ≤ k := by
    by_contra hlt
    exact hfit.first k (by omega) hrun
  have hin := hfit.inside
  simp only [kernelHeapBlocks] at htotal
  have hne : (heapMalloc r.heap size).1 ≠ 0#32 := by
    rw [heq, heapBlockToAddress_eq r.heap h.saddr]
    exact blockAddress_ne_null (by omega)
  have hkz := kzalloc_of_ne_null hne
  have hheap : (Memory.kzalloc size r).2.heap
      = heapMarkBlocksTaken r.heap b (blocksFor size) := by
    rw [hkz, heq]
  refine ⟨by rw [hkz]; exact hne, ?_, by rw [hheap]; rfl, ?_⟩
  · refine ⟨by rw [hheap]; exact h.saddr, by rw [hheap]; exact h.total, ?_⟩
    rw [hheap]
    intro i hi hit
    unfold IsFree
    rw [heapMarkBlocksTaken_entries r.heap hn, if_neg (by omega)]
    exact h.free i (by omega) hit
  · rw [hkz]
    simp only
    rw [decide_eq_true hserves, Bool.and_true]

end BenOS.Memory
