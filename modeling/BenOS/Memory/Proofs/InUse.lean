/-
Bytes that the kernel heap gives to nobody.

A byte is in use where no free block of the heap has it (`InUse`): it
lies in a block that is taken, or in none. Whatever run a request is
given, it shares no byte in use below the end of the pool; and one block
shares no byte in use at all (`Allots`). So what is in use stays so, and
what is given is in use from then on.
-/
import BenOS.Memory.Proofs.Requests

namespace BenOS.Memory

open Lib

/-- The byte lies in no free block of the heap. -/
def InUse (heap : Heap) (x : Addr) : Prop :=
  ∀ d < heap.table.total, IsFree heap.table d →
    ¬ InSpan (blockAddress d) benosHeapBlockSize x

/-- Where the blocks of the heap end. -/
def poolEnd (heap : Heap) : Nat :=
  benosHeadAddress.toNat + heap.table.total * benosHeapBlockSize

/-- A heap gives `n` blocks from `ptr` on. Only the last of them can lie
behind the table. -/
structure Allots (heap : Heap) (n : Nat) (ptr : Addr) (heap' : Heap) :
    Prop where
  aligned : ptr.toNat % benosHeapBlockSize = 0
  ne_null : ptr ≠ 0#32
  below : ptr.toNat + blockBytes n ≤ 2 ^ 31
  saddr : heap'.saddr = heap.saddr
  total : heap'.table.total = heap.table.total
  taken : ∀ i : Nat, i < heap.table.total → ¬ IsFree heap.table i →
    heap'.table.entries i = heap.table.entries i
  used : ∀ x, InSpan ptr (blockBytes n) x → InUse heap' x
  fresh : ∀ x, InUse heap x → x.toNat < poolEnd heap →
    ¬ InSpan ptr (blockBytes n) x
  single : n = 1 → ∀ x, InUse heap x → ¬ InSpan ptr (blockBytes n) x

variable {heap heap' : Heap} {x : Addr}

/-- A span that does not go round has the addresses from its start up to
its end. -/
theorem inSpan_iff {a : Addr} {n : Nat} (hend : a.toNat + n ≤ 2 ^ 32) :
    InSpan a n x ↔ a.toNat ≤ x.toNat ∧ x.toNat < a.toNat + n := by
  unfold InSpan
  rw [BitVec.toNat_sub]
  have ha := a.isLt
  have hx := x.isLt
  constructor
  · intro h
    omega
  · intro h
    omega

/-- The addresses of the blocks from block `b` on. -/
theorem inSpan_blocks_iff {b n : Nat} (hb : b < 2 ^ 16) (hn : n ≤ 2 ^ 18) :
    InSpan (blockAddress b) (blockBytes n) x
      ↔ benosHeadAddress.toNat + b * benosHeapBlockSize ≤ x.toNat
        ∧ x.toNat < benosHeadAddress.toNat + (b + n) * benosHeapBlockSize := by
  have haddr := toNat_blockAddress hb
  have hhead : benosHeadAddress.toNat = 0x01000000 := rfl
  simp only [blockBytes, benosHeapBlockSize] at *
  rw [inSpan_iff (by omega), haddr, Nat.add_mul, Nat.add_assoc]

/-- A byte of the blocks from block `b` on that lies in block `d`: that
is one of them. -/
theorem block_of_inSpan {b n d : Nat} (hb : b < 2 ^ 16) (hn : n ≤ 2 ^ 18)
    (hd : d < 2 ^ 16) (hx : InSpan (blockAddress b) (blockBytes n) x)
    (hin : InSpan (blockAddress d) benosHeapBlockSize x) :
    b ≤ d ∧ d < b + n := by
  have hone : InSpan (blockAddress d) (blockBytes 1) x := hin
  rw [inSpan_blocks_iff hb hn] at hx
  rw [inSpan_blocks_iff hd (by decide)] at hone
  simp only [benosHeapBlockSize] at hx hone
  omega

/-- What is allocated is in use, and lies below the end of the pool. -/
theorem RamOk.inUse {r : Ram} {live : List (Addr × Nat)} (h : RamOk r live)
    {c : Addr × Nat} (hc : c ∈ live) (hx : InSpan c.1 (blockBytes c.2) x) :
    InUse r.heap x ∧ x.toNat < poolEnd r.heap := by
  obtain ⟨b, haddr, hin, hchain⟩ := h.ownsRun hc
  have htotal := h.total
  simp only [kernelHeapBlocks] at htotal
  rw [heapBlockToAddress_eq r.heap h.saddr] at haddr
  obtain ⟨-, -, hpos, -⟩ := h.place hc
  rw [haddr] at hx
  constructor
  · intro d hd hfree hxd
    obtain ⟨hlo, hhi⟩ :=
      block_of_inSpan (by omega) (by omega) (by omega) hx hxd
    unfold IsFree at hfree
    rw [hchain d (by omega) (by omega)] at hfree
    exact entryType_chainEntry _ _ hfree
  · rw [inSpan_blocks_iff (by omega) (by omega)] at hx
    unfold poolEnd
    simp only [benosHeapBlockSize] at hx ⊢
    omega

/-- No byte of an allocation lies below the heap. -/
theorem RamOk.le_of_inSpan {r : Ram} {live : List (Addr × Nat)}
    (h : RamOk r live) {c : Addr × Nat} (hc : c ∈ live) (hx : InSpan c.1 (blockBytes c.2) x) :
    benosHeadAddress.toNat ≤ x.toNat := by
  obtain ⟨b, hb, -⟩ := h.place hc
  have hbelow := h.below hc
  rw [inSpan_iff (by simp only [blockBytes]; omega)] at hx
  omega

/-- What is in use stays in use where the blocks that are taken stay as
they are. -/
theorem InUse.keep (hx : InUse heap x)
    (htotal : heap'.table.total = heap.table.total)
    (htaken : ∀ i : Nat, i < heap.table.total → ¬ IsFree heap.table i →
      heap'.table.entries i = heap.table.entries i) : InUse heap' x := by
  intro d hd hfree
  rw [htotal] at hd
  refine hx d hd ?_
  by_contra hd'
  unfold IsFree at hfree
  rw [htaken d hd hd'] at hfree
  exact hd' hfree

/-- Whatever run of blocks a request is given, it is given so. -/
theorem heapMalloc_allots (hsaddr : heap.saddr = benosHeadAddress)
    (htotal : heap.table.total ≤ kernelHeapBlocks) {size : Nat}
    (hsize : size ≤ 2 ^ 30) (hne : (heapMalloc heap size).1 ≠ 0#32) :
    Allots heap (blocksFor size) (heapMalloc heap size).1
      (heapMalloc heap size).2 := by
  have hhanded := heapMalloc_handed heap size
  rw [heapAlignValueToUpper_blocks (by omega)] at hhanded
  have hn : blocksFor size ≤ 2 ^ 18 := by
    simp only [blocksFor, benosHeapBlockSize]
    omega
  generalize heapMalloc heap size = q at hhanded hne
  generalize blocksFor size = n at hhanded hn
  cases hhanded with
  | refused => exact absurd rfl hne
  | @marked b hlt hfree hrun =>
      simp only [kernelHeapBlocks] at htotal
      have hb : b < 2 ^ 16 := by omega
      have haddr := toNat_blockAddress hb
      have hhead : benosHeadAddress.toNat = 0x01000000 := rfl
      have hentries := heapMarkBlocksTaken_apply heap b n
      rw [heapBlockToAddress_eq heap hsaddr]
      simp only
      -- a byte of the run that is in use lies behind the table
      have hbehind : ∀ x, InUse heap x →
          InSpan (blockAddress b) (blockBytes n) x → poolEnd heap ≤ x.toNat := by
        intro x hx hin
        by_contra hlow
        have hplace := (inSpan_blocks_iff hb hn).mp hin
        unfold poolEnd at hlow
        simp only [benosHeapBlockSize] at hplace hlow
        obtain ⟨d, hd⟩ : ∃ d, d = (x.toNat - 0x01000000) / 4096 := ⟨_, rfl⟩
        have hin : d < heap.table.total := by omega
        have hone : InSpan (blockAddress d) (blockBytes 1) x := by
          rw [inSpan_blocks_iff (by omega) (by decide), hhead]
          simp only [benosHeapBlockSize]
          omega
        exact hx d hin (hrun d (by omega) (by omega) hin) hone
      refine ⟨?_, blockAddress_ne_null hb, ?_, rfl, rfl, ?_, ?_, ?_, ?_⟩
      · rw [haddr]
        simp only [benosHeapBlockSize]
        omega
      · rw [haddr]
        simp only [blockBytes, benosHeapBlockSize]
        omega
      · intro i hi htaken
        rw [hentries, if_neg fun hin =>
          htaken (hrun i (by omega) (by omega) hi)]
      · intro x hx d hd hfree' hxd
        obtain ⟨hlo, hhi⟩ := block_of_inSpan hb hn
          (show d < 2 ^ 16 by
            have hd' : d < heap.table.total := hd
            omega) hx hxd
        exact ((isFree_heapMarkBlocksTaken heap b n d).mp hfree').2 ⟨hlo, hhi⟩
      · intro x hx hlow hin
        have hend := hbehind x hx hin
        omega
      · intro hone x hx hin
        have hend := hbehind x hx hin
        rw [inSpan_blocks_iff hb hn] at hin
        unfold poolEnd at hend
        simp only [benosHeapBlockSize] at hin hend
        omega

end BenOS.Memory
