/-
Blocks of the kernel heap as spans of memory.

`RamOk r live` says that `live` are the allocations handed out and not
given back: pointers, with the number of blocks each stands for. They
are whole pages between 16 MiB and the end of the pool, and no two of
them share a byte (`RamOk.spansApart`), so whatever is written into one
of them leaves the others alone. `kzalloc_spec` and `RamOk.kfree` say
what the two calls do to that.
-/
import BenOS.Memory.Kheap

namespace BenOS.Memory

open Lib

-- ============================================================ the invariant

/-- `BENOS_HEAP_SIZE_BYTES / BENOS_HEAP_BLOCK_SIZE` -/
abbrev kernelHeapBlocks : Nat := 25600

/-- `live` are the allocations of the kernel heap. -/
structure RamOk (r : Ram) (live : List (Addr × Nat)) : Prop where
  heapOk : HeapOk ⟨r.heap, live⟩
  saddr : r.heap.saddr = benosHeadAddress
  total : r.heap.table.total ≤ kernelHeapBlocks

variable {r : Ram} {live : List (Addr × Nat)}

/-- The order the allocations are listed in plays no part. -/
theorem RamOk.perm (h : RamOk r live) {live' : List (Addr × Nat)}
    (hperm : live.Perm live') : RamOk r live' := by
  obtain ⟨⟨pool, hinv⟩, hsaddr, htotal⟩ := h
  refine ⟨⟨pool, hinv.small, hinv.rep, ?_, ?_, ?_⟩, hsaddr, htotal⟩
  · exact fun a ha => hinv.run a (hperm.mem_iff.mpr ha)
  · exact fun a ha => hinv.block a (hperm.mem_iff.mpr ha)
  · exact (hperm.map _).pairwise hinv.apart fun h => h.symm

/-- Only the heap of a memory decides what is allocated. -/
theorem RamOk.of_heap (h : RamOk r live) {r' : Ram} (heq : r'.heap = r.heap) :
    RamOk r' live := by
  obtain ⟨hok, hsaddr, htotal⟩ := h
  exact ⟨heq ▸ hok, heq ▸ hsaddr, heq ▸ htotal⟩

/-- Where an allocation lies: its block's number, and its blocks within
the pool. -/
theorem RamOk.place (h : RamOk r live) {a : Addr × Nat} (ha : a ∈ live) :
    ∃ b, a.1.toNat = benosHeadAddress.toNat + b * benosHeapBlockSize
      ∧ 1 ≤ a.2 ∧ b + a.2 ≤ kernelHeapBlocks
      ∧ runOf r.heap.saddr a = ⟨b, a.2⟩ := by
  obtain ⟨⟨pool, hinv⟩, hsaddr, htotal⟩ := h
  obtain ⟨b, -, hblock⟩ := hinv.block a ha
  have hrun : runOf r.heap.saddr a = ⟨b, a.2⟩ := by
    unfold runOf
    rw [hblock, Nat.mul_div_cancel b (by decide)]
  have hmem := hinv.run a ha
  simp only at hrun hmem hblock
  have hpos := pool.pos _ hmem
  have hin := pool.inside _ hmem
  rw [hrun] at hpos hin
  simp only at hpos hin
  refine ⟨b, ?_, hpos, by omega, hrun⟩
  rw [hsaddr, BitVec.toNat_sub] at hblock
  have hlt := a.1.isLt
  simp only [benosHeapBlockSize, kernelHeapBlocks] at *
  have hhead : benosHeadAddress.toNat = 0x01000000 := rfl
  omega

/-- An allocation starts on a page boundary. -/
theorem RamOk.aligned (h : RamOk r live) {a : Addr × Nat} (ha : a ∈ live) :
    a.1.toNat % benosHeapBlockSize = 0 := by
  obtain ⟨b, hb, -⟩ := h.place ha
  have hhead : benosHeadAddress.toNat = 0x01000000 := rfl
  simp only [benosHeapBlockSize] at *
  omega

/-- It lies below 2 GiB with all its blocks. -/
theorem RamOk.below (h : RamOk r live) {a : Addr × Nat} (ha : a ∈ live) :
    a.1.toNat + a.2 * benosHeapBlockSize ≤ 0x07400000 := by
  obtain ⟨b, hb, -, hin, -⟩ := h.place ha
  have hhead : benosHeadAddress.toNat = 0x01000000 := rfl
  simp only [benosHeapBlockSize, kernelHeapBlocks] at *
  omega

/-- An allocation is a run of the heap: the address of a block, the
first of a chain of as many blocks. -/
def OwnsRun (heap : Heap) (a : Addr × Nat) : Prop :=
  ∃ b : Nat, a.1 = heapBlockToAddress heap b ∧ b + a.2 ≤ heap.table.total
    ∧ ∀ i, b ≤ i → i < b + a.2 →
      heap.table.entries i = chainEntry ⟨b, a.2⟩ i

theorem RamOk.ownsRun (h : RamOk r live) {a : Addr × Nat} (ha : a ∈ live) :
    OwnsRun r.heap a := by
  obtain ⟨b, hb, -, -, hrun⟩ := h.place ha
  obtain ⟨⟨pool, hinv⟩, hsaddr, -⟩ := h
  have hmem := hinv.run a ha
  simp only at hmem
  rw [hrun] at hmem
  refine ⟨b, ?_, pool.inside _ hmem, fun i hi hi' =>
    hinv.rep.chain _ hmem i ⟨hi, hi'⟩⟩
  have hin := pool.inside _ hmem
  have hsmall := hinv.small
  have hhead : benosHeadAddress.toNat = 0x01000000 := rfl
  simp only at hin hsmall
  have hsub := heapBlockToAddress_sub r.heap (b := b) (by omega)
  rw [BitVec.toNat_sub, hsaddr] at hsub
  apply BitVec.eq_of_toNat_eq
  have hlt := (heapBlockToAddress r.heap b).isLt
  have hlt' := a.1.isLt
  simp only [benosHeapBlockSize] at *
  omega

/-- The blocks of an allocation, as `heap_free` finds them. -/
def InRun (heap : Heap) (a : Addr × Nat) (i : Int) : Prop :=
  heapAddressToBlock heap a.1 ≤ i ∧ i < heapAddressToBlock heap a.1 + a.2

/-- Giving an allocation back frees its blocks and no others. -/
theorem RamOk.heapFree_entries (h : RamOk r live) {a : Addr × Nat}
    (ha : a ∈ live) (j : Int) :
    (InRun r.heap a j →
        (heapFree r.heap a.1).table.entries j = heapBlockTableEntryFree)
      ∧ (¬ InRun r.heap a j →
        (heapFree r.heap a.1).table.entries j = r.heap.table.entries j) := by
  obtain ⟨b, hb, -, hin, -⟩ := h.place ha
  obtain ⟨⟨pool, hinv⟩, hsaddr, -⟩ := h
  have hhead : benosHeadAddress.toNat = 0x01000000 := rfl
  have hlow : (a.1 - r.heap.saddr).toNat < 2 ^ 31 := by
    rw [hsaddr, BitVec.toNat_sub]
    simp only [benosHeapBlockSize, kernelHeapBlocks] at *
    omega
  have hstart := hinv.addressToBlock ha hlow
  simp only at hstart
  unfold InRun heapFree
  rw [hstart, heapMarkBlocksFree_entries hinv.rep (hinv.run a ha)]
  exact ⟨fun hin => if_pos hin, fun hout => if_neg hout⟩

/-- The heap has the blocks of an allocation as they were. -/
def SameRun (heap heap' : Heap) (a : Addr × Nat) : Prop :=
  ∃ b : Nat, a.1 = heapBlockToAddress heap b
    ∧ ∀ i, b ≤ i → i < b + a.2 →
      heap'.table.entries i = heap.table.entries i

/-- An allocation that lives on has its blocks as they were. -/
theorem RamOk.sameRun (h : RamOk r live) {r' : Ram} {live' : List (Addr × Nat)}
    {a : Addr × Nat} (ha : a ∈ live) (h' : RamOk r' live') (ha' : a ∈ live') :
    SameRun r.heap r'.heap a := by
  obtain ⟨b, hb, hin, hchain⟩ := h.ownsRun ha
  obtain ⟨b', hb', hin', hchain'⟩ := h'.ownsRun ha'
  have htotal := h.total
  have htotal' := h'.total
  have hsub := heapBlockToAddress_sub r.heap (b := b) (by
    simp only [kernelHeapBlocks] at htotal
    omega)
  have hsub' := heapBlockToAddress_sub r'.heap (b := b') (by
    simp only [kernelHeapBlocks] at htotal'
    omega)
  rw [← hb, h.saddr] at hsub
  rw [← hb', h'.saddr, hsub] at hsub'
  have heq : b = b' := by
    simp only [benosHeapBlockSize] at hsub'
    omega
  subst heq
  exact ⟨b, hb, fun i hi hi' =>
    (hchain' i hi hi').trans (hchain i hi hi').symm⟩

/-- No allocation is null. -/
theorem RamOk.ne_null (h : RamOk r live) {a : Addr × Nat} (ha : a ∈ live) :
    a.1 ≠ 0#32 := by
  obtain ⟨b, hb, -⟩ := h.place ha
  intro hnull
  have hhead : benosHeadAddress.toNat = 0x01000000 := rfl
  rw [hnull, hhead, BitVec.toNat_zero] at hb
  omega

/-- The bytes of an allocation. -/
abbrev blockBytes (n : Nat) : Nat := n * benosHeapBlockSize

/-- Allocations with runs apart are spans apart. -/
theorem RamOk.spansApart_of_runs (h : RamOk r live) {a c : Addr × Nat}
    (ha : a ∈ live) (hc : c ∈ live)
    (hapart : (runOf r.heap.saddr a).Apart (runOf r.heap.saddr c)) :
    SpansApart a.1 (blockBytes a.2) c.1 (blockBytes c.2) := by
  obtain ⟨b, hb, hpos, hin, hrun⟩ := h.place ha
  obtain ⟨d, hd, hpos', hin', hrun'⟩ := h.place hc
  rw [hrun, hrun'] at hapart
  have hhead : benosHeadAddress.toNat = 0x01000000 := rfl
  -- runs that share no block lie one behind the other
  have hsep : b + a.2 ≤ d ∨ d + c.2 ≤ b := by
    by_contra hno
    have hmax : max b d < b + a.2 ∧ max b d < d + c.2 := by omega
    exact hapart (max b d) ⟨Nat.le_max_left _ _, hmax.1⟩
      ⟨Nat.le_max_right _ _, hmax.2⟩
  refine spansApart_of_dist ?_ ?_
  · rw [BitVec.toNat_sub]
    simp only [blockBytes, benosHeapBlockSize, kernelHeapBlocks] at *
    omega
  · rw [BitVec.toNat_sub]
    simp only [blockBytes, benosHeapBlockSize, kernelHeapBlocks] at *
    omega

/-- No two allocations share a byte. -/
theorem RamOk.spansApart (h : RamOk r live) :
    live.Pairwise fun a c =>
      SpansApart a.1 (blockBytes a.2) c.1 (blockBytes c.2) := by
  obtain ⟨pool, hinv⟩ := h.heapOk
  have hapart := List.pairwise_map.mp hinv.apart
  exact hapart.imp_of_mem fun ha hc hac => h.spansApart_of_runs ha hc hac

/-- Different allocations share no byte. -/
theorem RamOk.spansApart_of_ne (h : RamOk r live) {a c : Addr × Nat}
    (ha : a ∈ live) (hc : c ∈ live) (hne : a ≠ c) :
    SpansApart a.1 (blockBytes a.2) c.1 (blockBytes c.2) := by
  have hsymm : Std.Symm fun a c : Addr × Nat =>
      SpansApart a.1 (blockBytes a.2) c.1 (blockBytes c.2) :=
    ⟨fun _ _ hac => hac.symm⟩
  exact h.spansApart.forall ha hc hne

/-- The first of the allocations shares no byte with the others. -/
theorem RamOk.spansApart_cons {a : Addr × Nat} (h : RamOk r (a :: live)) :
    ∀ c ∈ live, SpansApart a.1 (blockBytes a.2) c.1 (blockBytes c.2) :=
  (List.pairwise_cons.mp h.spansApart).1

/-- Runs that share no byte start at different addresses. -/
theorem RamOk.nodup_fst {rest : List (Addr × Nat)}
    (h : RamOk r (live ++ rest)) : (live.map Prod.fst).Nodup := by
  have hpos : ∀ a ∈ live, 1 ≤ a.2 := by
    intro a ha
    obtain ⟨-, -, hpos, -⟩ := h.place (List.mem_append_left _ ha)
    exact hpos
  refine List.pairwise_map.mpr ?_
  refine (List.pairwise_append.mp h.spansApart).1.imp_of_mem ?_
  intro a c ha hc hapart heq
  have ha' := hpos a ha
  have hc' := hpos c hc
  refine hapart a.1 ?_ ?_
  · unfold InSpan
    rw [BitVec.sub_self]
    simp only [blockBytes, benosHeapBlockSize, BitVec.toNat_ofNat]
    omega
  · unfold InSpan
    rw [heq, BitVec.sub_self]
    simp only [blockBytes, benosHeapBlockSize, BitVec.toNat_ofNat]
    omega

-- ============================================================ kzalloc, kfree

theorem size_le_blockBytes (size : Nat) :
    size ≤ blockBytes (blocksFor size) := by
  simp only [blockBytes, blocksFor, benosHeapBlockSize]
  omega

/-- A request has been granted: its blocks are allocated on top of what
was, and its bytes, and no others, are zero. -/
structure Granted (r : Ram) (live : List (Addr × Nat)) (size : Nat)
    (a : Addr) (r' : Ram) : Prop where
  ok : RamOk r' ((a, blocksFor size) :: live)
  zero : ∀ x, InSpan a size x → r'.mem x = 0
  others : ∀ x, ¬ InSpan a size x → r'.mem x = r.mem x
  undone : heapFree r'.heap a = r.heap

/-- A served request is given the first run of free blocks that is long
enough. -/
theorem heapMalloc_of_serves {heap : Heap} {size : Nat} (hlo : 1 ≤ size)
    (htotal : heap.table.total ≤ kernelHeapBlocks)
    (hserves : Serves heap size) :
    size ≤ 0xFFFFF000 ∧ ∃ b,
      FirstFit (IsFree heap.table) heap.table.total (blocksFor size) b
      ∧ heapMalloc heap size = (heapBlockToAddress heap b,
        heapMarkBlocksTaken heap b (blocksFor size)) := by
  have hhi : size ≤ 0xFFFFF000 := by
    obtain ⟨b, hb, -⟩ := hserves
    have := size_le_blockBytes size
    simp only [blockBytes, benosHeapBlockSize, kernelHeapBlocks] at *
    omega
  refine ⟨hhi, ?_⟩
  have hcase := heapMalloc_cases heap hlo hhi
  generalize heapMalloc heap size = q at hcase
  cases hcase with
  | full hnone _ => exact absurd hserves hnone
  | cut hnone _ => exact absurd hserves hnone
  | @found b hfit => exact ⟨b, hfit, rfl⟩

/-- A served request is granted, and giving it back undoes it. -/
theorem heapMalloc_served (h : RamOk r live) {size : Nat} (hlo : 1 ≤ size)
    (hserves : Serves r.heap size) :
    size ≤ 0xFFFFF000 ∧ (heapMalloc r.heap size).1 ≠ 0#32
      ∧ heapFree (heapMalloc r.heap size).2 (heapMalloc r.heap size).1
        = r.heap := by
  obtain ⟨⟨pool, hinv⟩, hsaddr, htotal⟩ := h
  obtain ⟨hhi, b, hfit, heq⟩ := heapMalloc_of_serves hlo htotal hserves
  have hn := blocksFor_pos hlo
  have hb : b < 2 ^ 18 := by
    have := hfit.inside
    simp only [kernelHeapBlocks] at htotal
    omega
  have haddr := heapBlockToAddress_sub r.heap (show b < 2 ^ 20 by omega)
  have hhead : benosHeadAddress.toNat = 0x01000000 := rfl
  rw [heq]
  refine ⟨hhi, ?_, ?_⟩
  · intro hnull
    have hnull' : heapBlockToAddress r.heap b = 0#32 := hnull
    rw [hnull', hsaddr, BitVec.toNat_sub] at haddr
    simp only [BitVec.toNat_ofNat, benosHeapBlockSize] at haddr
    omega
  · have hblock : heapAddressToBlock
        (heapMarkBlocksTaken r.heap b (blocksFor size))
        (heapBlockToAddress r.heap b) = b := by
      refine heapAddressToBlock_eq _ haddr ?_
      rw [heapMarkBlocksTaken_saddr, haddr]
      simp only [benosHeapBlockSize]
      omega
    simp only
    unfold heapFree
    rw [hblock]
    exact heapMarkBlocks_undo hinv.rep hn hfit.inside hfit.run

/-- `kzalloc` answers what the heap does. -/
theorem kzalloc_address (size : Nat) (r : Ram) :
    (kzalloc size r).1 = (heapMalloc r.heap size).1 := by
  unfold kzalloc kmalloc
  simp only
  split
  case isTrue hnull => exact hnull.symm
  case isFalse => rfl

theorem kzalloc_heap (size : Nat) (r : Ram) :
    (kzalloc size r).2.heap = (heapMalloc r.heap size).2 := by
  unfold kzalloc kmalloc
  simp only
  split <;> rfl

/-- What `kzalloc` comes to where the heap has answered with a block. -/
theorem kzalloc_of_ne_null {size : Nat} {r : Ram}
    (hne : (heapMalloc r.heap size).1 ≠ 0#32) :
    kzalloc size r = ((heapMalloc r.heap size).1,
      { heap := (heapMalloc r.heap size).2
        mem := memset r.mem (heapMalloc r.heap size).1 0x00 size
        served := r.served && decide (Serves r.heap size) }) := by
  unfold kzalloc kmalloc
  simp only
  rw [if_neg hne]

theorem heapMalloc_saddr (heap : Heap) (size : Nat) :
    (heapMalloc heap size).2.saddr = heap.saddr
      ∧ (heapMalloc heap size).2.table.total = heap.table.total := by
  unfold heapMalloc heapMallocBlocks
  simp only
  split <;> exact ⟨rfl, rfl⟩

/-- A request of at least a byte that is served is granted. -/
theorem kzalloc_spec (h : RamOk r live) {size : Nat} (hlo : 1 ≤ size)
    (hserves : Serves r.heap size) :
    (kzalloc size r).1 ≠ 0#32
      ∧ Granted r live size (kzalloc size r).1 (kzalloc size r).2 := by
  obtain ⟨hhi, hne, hundo⟩ := heapMalloc_served h hlo hserves
  obtain ⟨hsaddr, htotal⟩ := heapMalloc_saddr r.heap size
  have hok := heapOk_malloc h.heapOk hlo hhi (Or.inl hserves)
  rw [kzalloc_of_ne_null hne]
  simp only at hok
  rw [if_neg hne] at hok
  refine ⟨hne, ⟨hok, hsaddr.trans h.saddr, ?_⟩, ?_, ?_, hundo⟩
  · simp only
    rw [htotal]
    exact h.total
  · intro x hx
    exact if_pos hx
  · intro x hx
    exact writeBytes_of_not_inSpan r.mem (fun _ => 0x00) hx

variable {size : Nat} {a : Addr} {r' : Ram}

/-- What was allocated before keeps its bytes. -/
theorem Granted.sameOn (h : Granted r live size a r') {c : Addr × Nat}
    (hc : c ∈ live) : SameOn c.1 (blockBytes c.2) r.mem r'.mem := by
  intro x hx
  refine h.others x fun hin => ?_
  have hsize := size_le_blockBytes size
  exact h.ok.spansApart_cons c hc x (Nat.lt_of_lt_of_le hin hsize) hx

/-- A block on top of the allocations is given back. -/
theorem RamOk.kfree {n : Nat} (h : RamOk r ((a, n) :: live)) :
    RamOk (kfree a r) live := by
  obtain ⟨hok, hsaddr, htotal⟩ := h
  have hlow := RamOk.below ⟨hok, hsaddr, htotal⟩
    (List.mem_cons_self : (a, n) ∈ (a, n) :: live)
  obtain ⟨b, hb, -⟩ := RamOk.place ⟨hok, hsaddr, htotal⟩
    (List.mem_cons_self : (a, n) ∈ (a, n) :: live)
  have hfree := heapOk_free hok (List.mem_cons_self : (a, n) ∈ (a, n) :: live)
    (by
      simp only at hb hlow ⊢
      rw [hsaddr, BitVec.toNat_sub]
      have hhead : benosHeadAddress.toNat = 0x01000000 := rfl
      simp only [benosHeapBlockSize] at *
      omega)
  rw [List.erase_cons_head] at hfree
  exact ⟨hfree, hsaddr, htotal⟩

-- ==================================================== blocks in their order

/-- The kernel heap with nothing handed out. -/
def emptyHeap : Heap :=
  { table := { entries := fun _ => 0x00, total := kernelHeapBlocks }
    saddr := benosHeadAddress }

theorem ramOk_empty (m : Bytes) (served : Bool) :
    RamOk ⟨emptyHeap, m, served⟩ [] := by
  have hsmall : kernelHeapBlocks < 2 ^ 20 := by decide
  refine ⟨⟨BlockPool.empty _, hsmall, ⟨?_, fun _ _ _ => rfl⟩, ?_, ?_,
    List.Pairwise.nil⟩, rfl, Nat.le_refl _⟩
  · intro r hr
    exact absurd hr List.not_mem_nil
  · intro a ha
    exact absurd ha List.not_mem_nil
  · intro a ha
    exact absurd ha List.not_mem_nil

/-- Where block `b` of the kernel heap lies. -/
def blockAddress (b : Nat) : Addr :=
  benosHeadAddress + BitVec.ofNat 32 (b * benosHeapBlockSize)

theorem toNat_blockAddress {b : Nat} (hb : b < 2 ^ 16) :
    (blockAddress b).toNat
      = benosHeadAddress.toNat + b * benosHeapBlockSize := by
  unfold blockAddress
  have hhead : benosHeadAddress.toNat = 0x01000000 := rfl
  rw [BitVec.toNat_add, BitVec.toNat_ofNat, hhead]
  simp only [benosHeapBlockSize]
  omega

/-- No block of the pool is at null. -/
theorem blockAddress_ne_null {b : Nat} (hb : b < 2 ^ 16) :
    blockAddress b ≠ 0#32 := by
  intro hz
  have haddr := toNat_blockAddress hb
  have hhead : benosHeadAddress.toNat = 0x01000000 := rfl
  rw [hz, hhead] at haddr
  simp only [BitVec.toNat_ofNat, benosHeapBlockSize] at haddr
  omega

theorem heapBlockToAddress_eq (heap : Heap) (h : heap.saddr = benosHeadAddress)
    (b : Nat) : heapBlockToAddress heap b = blockAddress b := by
  unfold heapBlockToAddress blockAddress
  rw [h, ← Nat.cast_mul, BitVec.ofInt_natCast]

/-- Allocations of the given lengths, one behind the other from block
`b` on. -/
def placed (b : Nat) : List Nat → List (Addr × Nat)
  | [] => []
  | n :: ns => (blockAddress b, n) :: placed (b + n) ns

/-- The heap that has handed them out. -/
def takenFrom (b : Nat) : List Nat → Heap → Heap
  | [], heap => heap
  | n :: ns, heap => takenFrom (b + n) ns (heapMarkBlocksTaken heap b n)

theorem placed_append (ms ns : List Nat) (b : Nat) :
    placed b (ms ++ ns) = placed b ms ++ placed (b + ms.sum) ns := by
  induction ms generalizing b with
  | nil => rfl
  | cons m ms ih =>
      rw [List.cons_append, placed, placed, ih, List.sum_cons, Nat.add_assoc]
      rfl

/-- Single blocks lie where they are numbered. -/
theorem placed_replicate (n b : Nat) :
    placed b (List.replicate n 1)
      = (List.range n).map fun i => (blockAddress (b + i), 1) := by
  induction n generalizing b with
  | zero => rfl
  | succ n ih =>
      rw [List.replicate_succ, placed, ih, List.range_succ_eq_map,
        List.map_cons, List.map_map]
      refine congrArg₂ List.cons rfl (List.map_congr_left fun i _ => ?_)
      show (blockAddress (b + 1 + i), 1) = (blockAddress (b + (i + 1)), 1)
      rw [show b + 1 + i = b + (i + 1) by omega]

/-- Where all blocks from `b` on are free, the heap hands out allocations
one behind the other, and the blocks behind them stay free. -/
theorem RamOk.takenFrom {ns : List Nat} (hpos : ∀ n ∈ ns, 1 ≤ n) {b : Nat}
    (h : RamOk r live) (hin : b + ns.sum ≤ r.heap.table.total)
    (hfree : ∀ i, b ≤ i → IsFree r.heap.table i) :
    RamOk { r with heap := takenFrom b ns r.heap } (placed b ns ++ live)
      ∧ (takenFrom b ns r.heap).table.total = r.heap.table.total
      ∧ ∀ i, b + ns.sum ≤ i → IsFree (takenFrom b ns r.heap).table i := by
  induction ns generalizing b r live with
  | nil => exact ⟨h, rfl, fun i hi => hfree i (by simpa using hi)⟩
  | cons n ns ih =>
      rw [List.sum_cons] at hin
      have hn := hpos n List.mem_cons_self
      have htaken : RamOk { r with heap := heapMarkBlocksTaken r.heap b n }
          ((blockAddress b, n) :: live) := by
        have hok := heapOk_taken h.heapOk hn (b := b) (by simp only; omega)
          (fun i hi _ => hfree i hi)
        simp only at hok
        rw [heapBlockToAddress_eq r.heap h.saddr] at hok
        exact ⟨hok, h.saddr, h.total⟩
      obtain ⟨hok, htotal, hrest⟩ := ih
        (fun m hm => hpos m (List.mem_cons_of_mem _ hm)) htaken (b := b + n)
        (by show b + n + ns.sum ≤ r.heap.table.total; omega) (by
          intro i hi
          unfold IsFree
          simp only
          rw [heapMarkBlocksTaken_entries r.heap hn, if_neg (by omega)]
          exact hfree i (by omega))
      refine ⟨?_, htotal, fun i hi => hrest i (by
        rw [List.sum_cons] at hi
        omega)⟩
      refine hok.perm ?_
      exact List.perm_middle

/-- The kernel heap with allocations one behind the other and nothing
else. -/
theorem ramOk_takenFrom {ns : List Nat} (hpos : ∀ n ∈ ns, 1 ≤ n)
    (hsum : ns.sum ≤ kernelHeapBlocks) (m : Bytes) (served : Bool) :
    RamOk ⟨Memory.takenFrom 0 ns emptyHeap, m, served⟩ (placed 0 ns)
      ∧ (Memory.takenFrom 0 ns emptyHeap).table.total = kernelHeapBlocks
      ∧ ∀ i, ns.sum ≤ i → IsFree (Memory.takenFrom 0 ns emptyHeap).table i := by
  have hempty := ramOk_empty m served
  obtain ⟨hok, htotal, hfree⟩ := hempty.takenFrom hpos (b := 0)
    (by
      rw [Nat.zero_add]
      exact hsum)
    (by
      intro i _
      show heapGetEntryType 0x00 = heapBlockTableEntryFree
      rfl)
  rw [List.append_nil] at hok
  rw [Nat.zero_add] at hfree
  exact ⟨hok, htotal, hfree⟩

end BenOS.Memory
