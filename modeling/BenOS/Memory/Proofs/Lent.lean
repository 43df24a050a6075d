/-
Blocks that are taken and given back.

`Lent heap₀ heap own`: the table of `heap` is the one of `heap₀`, with the
chains of the allocations `own` in it. What was taken since `heap₀` is
listed, in any order, and what is given back leaves the list; once the
list is empty the heap is `heap₀` again (`Lent.settled`). Nothing has to
be given back in the order it was taken in.

All this needs of `heap₀` is that its free blocks have the entry 0
(`Clean`), which every call keeps: also a request that is handed a run
too short, and the release of any pointer whatever.
-/
import BenOS.Memory.Proofs.Spares

namespace BenOS.Memory

open Lib

-- =================================================================== clean

/-- The kernel heap, its free blocks blank. -/
structure Clean (heap : Heap) : Prop where
  saddr : heap.saddr = benosHeadAddress
  total : heap.table.total ≤ kernelHeapBlocks
  blank : ∀ i, i < heap.table.total → IsFree heap.table i →
    heap.table.entries i = heapBlockTableEntryFree

/-- The heap `kheap_init` creates. -/
theorem clean_create {heap₀ : Heap} {end_ : Addr} {table : HeapTable}
    (htotal : table.total ≤ kernelHeapBlocks)
    (h : (heapCreate heap₀ benosHeadAddress end_ table).1 = benosAllOk) :
    Clean (heapCreate heap₀ benosHeadAddress end_ table).2 := by
  obtain ⟨heq, -⟩ := heapCreate_eq h
  rw [heq]
  refine ⟨rfl, htotal, fun i hi _ => ?_⟩
  have hi' : i < table.total := hi
  show (if 0 ≤ (i : Int) ∧ (i : Int) < table.total then _ else _) = _
  rw [if_pos (by omega)]

theorem RamOk.clean {r : Ram} {live : List (Addr × Nat)} (h : RamOk r live) :
    Clean r.heap := by
  obtain ⟨⟨pool, hinv⟩, hsaddr, htotal⟩ := h
  exact ⟨hsaddr, htotal, fun i hi hfree =>
    hinv.rep.free i hi ((hinv.rep.isFree_iff hi).mp hfree)⟩

/-- A request keeps the free blocks blank. -/
theorem clean_heapMalloc {heap : Heap} (h : Clean heap) (size : Nat) :
    Clean (heapMalloc heap size).2 := by
  have hout := heapMalloc_handed heap size
  generalize heapAlignValueToUpper size / benosHeapBlockSize = n at hout
  generalize heapMalloc heap size = q at hout
  cases hout with
  | refused => exact h
  | @marked b hlt hfree hrun =>
      have hentries := heapMarkBlocksTaken_apply heap b n
      refine ⟨h.saddr, h.total, fun i hi hif => ?_⟩
      obtain ⟨hif, hout⟩ := (isFree_heapMarkBlocksTaken heap b n i).mp hif
      simp only
      rw [hentries, if_neg (by omega)]
      exact h.blank i hi hif

/-- So does a release, of whatever pointer. -/
theorem clean_heapFree {heap : Heap} (h : Clean heap) (ptr : Addr) :
    Clean (heapFree heap ptr) := by
  refine ⟨h.saddr, h.total, fun i hi hif => ?_⟩
  have hcases := heapMarkBlocksFreeLoop_cases i
    (heap.table.total - heapAddressToBlock heap ptr).toNat
    (heapAddressToBlock heap ptr) heap.table.entries
  unfold IsFree heapFree heapMarkBlocksFree at hif
  simp only at hif
  show heapMarkBlocksFreeLoop _ _ _ _ = _
  rcases hcases with hsame | ⟨hfree, -⟩
  · rw [hsame] at hif ⊢
    exact h.blank i hi hif
  · exact hfree

/-- One call on the heap, whatever its argument. -/
def heapCall (heap : Heap) : HeapOp → Heap
  | .malloc size => (heapMalloc heap size).2
  | .free ptr => heapFree heap ptr

/-- Every heap the kernel comes to from `kheap_init` on is clean. -/
theorem clean_runs {heap₀ : Heap} {end_ : Addr} {table : HeapTable}
    (htotal : table.total ≤ kernelHeapBlocks)
    (h : (heapCreate heap₀ benosHeadAddress end_ table).1 = benosAllOk)
    (ops : List HeapOp) :
    Clean (ops.foldl heapCall
      (heapCreate heap₀ benosHeadAddress end_ table).2) := by
  have hclean := clean_create htotal h
  generalize (heapCreate heap₀ benosHeadAddress end_ table).2 = heap at hclean
  induction ops generalizing heap with
  | nil => exact hclean
  | cons op ops ih =>
      refine ih _ ?_
      cases op with
      | malloc size => exact clean_heapMalloc hclean size
      | free ptr => exact clean_heapFree hclean ptr

-- ==================================================================== lent

/-- The blocks an allocation of the kernel heap stands for. -/
abbrev lentRun (a : Addr × Nat) : BlockRun := runOf benosHeadAddress a

/-- The heap `heap₀`, but for the allocations `own`. -/
structure Lent (heap₀ heap : Heap) (own : List (Addr × Nat)) : Prop where
  saddr : heap.saddr = heap₀.saddr
  total : heap.table.total = heap₀.table.total
  apart : (own.map lentRun).Pairwise BlockRun.Apart
  inside : ∀ a ∈ own, a.1 = blockAddress (lentRun a).start ∧ 1 ≤ a.2
    ∧ (lentRun a).start + a.2 ≤ heap₀.table.total
  chain : ∀ a ∈ own, ∀ i, (lentRun a).Covers i →
    heap.table.entries i = chainEntry (lentRun a) i
      ∧ heap₀.table.entries i = heapBlockTableEntryFree
  rest : ∀ j : Int, (∀ a ∈ own, ∀ i : Nat, j = i → ¬ (lentRun a).Covers i) →
    heap.table.entries j = heap₀.table.entries j

variable {heap₀ heap : Heap} {own : List (Addr × Nat)} {r : Ram}

theorem Lent.refl (heap : Heap) : Lent heap heap [] :=
  ⟨rfl, rfl, List.Pairwise.nil, fun _ h => absurd h List.not_mem_nil,
    fun _ h => absurd h List.not_mem_nil, fun _ _ => rfl⟩

/-- The order of the list plays no part. -/
theorem Lent.perm (h : Lent heap₀ heap own) {own' : List (Addr × Nat)}
    (hperm : own.Perm own') : Lent heap₀ heap own' := by
  refine ⟨h.saddr, h.total, ?_, ?_, ?_, fun j hj => h.rest j ?_⟩
  · exact (hperm.map _).pairwise h.apart fun h => h.symm
  · exact fun a ha => h.inside a (hperm.mem_iff.mpr ha)
  · exact fun a ha => h.chain a (hperm.mem_iff.mpr ha)
  · exact fun a ha => hj a (hperm.mem_iff.mp ha)

/-- With everything given back the heap is what it was. -/
theorem Lent.settled (h : Lent heap₀ heap []) : heap = heap₀ := by
  have hentries : heap.table.entries = heap₀.table.entries :=
    funext fun j => h.rest j fun _ ha => absurd ha List.not_mem_nil
  calc heap
      = ⟨⟨heap.table.entries, heap.table.total⟩, heap.saddr⟩ := rfl
    _ = ⟨⟨heap₀.table.entries, heap₀.table.total⟩, heap₀.saddr⟩ := by
        rw [hentries, h.total, h.saddr]

/-- A block that is free now is not lent, and was free before. -/
theorem Lent.free (h : Lent heap₀ heap own) {i : Nat}
    (hfree : IsFree heap.table i) :
    (∀ a ∈ own, ¬ (lentRun a).Covers i)
      ∧ heap.table.entries i = heap₀.table.entries i := by
  have hout : ∀ a ∈ own, ¬ (lentRun a).Covers i := by
    intro a ha hcov
    unfold IsFree at hfree
    rw [(h.chain a ha i hcov).1] at hfree
    exact entryType_chainEntry _ _ hfree
  refine ⟨hout, h.rest i fun a ha k hk => ?_⟩
  rw [← Int.ofNat.inj hk]
  exact hout a ha

/-- The free blocks stay blank. -/
theorem Lent.clean (h : Lent heap₀ heap own) (h₀ : Clean heap₀) :
    Clean heap := by
  refine ⟨h.saddr.trans h₀.saddr, h.total ▸ h₀.total, fun i hi hfree => ?_⟩
  obtain ⟨-, hsame⟩ := h.free hfree
  unfold IsFree at hfree
  rw [hsame] at hfree ⊢
  exact h₀.blank i (h.total ▸ hi) hfree

theorem lentRun_block {b : Nat} (hb : b < 2 ^ 16) (n : Nat) :
    lentRun (blockAddress b, n) = ⟨b, n⟩ := by
  have hsub : (blockAddress b - benosHeadAddress).toNat
      = b * benosHeapBlockSize := by
    rw [BitVec.toNat_sub, toNat_blockAddress hb]
    have hhead : benosHeadAddress.toNat = 0x01000000 := rfl
    simp only [benosHeapBlockSize]
    omega
  show (⟨_ / _, n⟩ : BlockRun) = _
  rw [hsub, Nat.mul_div_cancel b (by decide)]

/-- A run of free blocks is taken. -/
theorem Lent.taken (h : Lent heap₀ heap own) (h₀ : Clean heap₀) {b n : Nat}
    (hn : 1 ≤ n) (hin : b + n ≤ heap.table.total)
    (hrun : FreeRun (IsFree heap.table) b n) :
    Lent heap₀ (heapMarkBlocksTaken heap b n) ((blockAddress b, n) :: own) := by
  have htotal := h₀.total
  have heq := h.total
  simp only [kernelHeapBlocks] at htotal
  have hplace := lentRun_block (show b < 2 ^ 16 by omega) n
  have hentries := heapMarkBlocksTaken_entries heap (b := b) hn
  -- the run lies apart from what is lent already
  have hout : ∀ a ∈ own, ∀ i, b ≤ i → i < b + n → ¬ (lentRun a).Covers i :=
    fun a ha i hi hi' => (h.free (hrun i hi hi')).1 a ha
  refine ⟨h.saddr, h.total, ?_, ?_, ?_, ?_⟩
  · rw [List.map_cons, List.pairwise_cons, hplace]
    refine ⟨fun q hq i hc => ?_, h.apart⟩
    obtain ⟨a, ha, rfl⟩ := List.mem_map.mp hq
    exact hout a ha i hc.1 hc.2
  · intro a ha
    rcases List.mem_cons.mp ha with rfl | ha
    · rw [hplace]
      exact ⟨rfl, hn, by show b + n ≤ _; omega⟩
    · exact h.inside a ha
  · intro a ha i hc
    rw [hentries]
    rcases List.mem_cons.mp ha with rfl | ha
    · rw [hplace] at hc ⊢
      obtain ⟨hlo, hhi⟩ := hc
      simp only at hlo hhi
      rw [if_pos (by omega), Int.toNat_natCast]
      have hfree := hrun i hlo hhi
      refine ⟨rfl, ?_⟩
      rw [← (h.free hfree).2]
      exact (h.clean h₀).blank i (by omega) hfree
    · rw [if_neg fun hj => hout a ha i (by omega) (by omega) hc]
      exact h.chain a ha i hc
  · intro j hj
    have hout' : ¬ ((b : Int) ≤ j ∧ j < b + n) := by
      intro hin'
      refine hj _ List.mem_cons_self j.toNat (by omega) ?_
      rw [hplace]
      exact ⟨by simp only; omega, by simp only; omega⟩
    rw [hentries, if_neg hout']
    exact h.rest j fun a ha => hj a (List.mem_cons_of_mem _ ha)

/-- The release of a block's address starts at the block. -/
theorem heapFree_block {heap : Heap} (h : heap.saddr = benosHeadAddress)
    {b : Nat} (hb : b < 2 ^ 16) :
    heapFree heap (blockAddress b) = heapMarkBlocksFree heap b := by
  have hsub : (blockAddress b - heap.saddr).toNat = b * benosHeapBlockSize := by
    rw [h, BitVec.toNat_sub, toNat_blockAddress hb]
    have hhead : benosHeadAddress.toNat = 0x01000000 := rfl
    simp only [benosHeapBlockSize]
    omega
  unfold heapFree
  rw [heapAddressToBlock_eq heap hsub (by
    rw [hsub]
    simp only [benosHeapBlockSize]
    omega)]

/-- What is lent is given back. -/
theorem Lent.heapFree {a : Addr × Nat} (h : Lent heap₀ heap (a :: own))
    (h₀ : Clean heap₀) : Lent heap₀ (Memory.heapFree heap a.1) own := by
  obtain ⟨haddr, hpos, hin⟩ := h.inside a List.mem_cons_self
  have htotal := h₀.total
  have heq := h.total
  simp only [kernelHeapBlocks] at htotal
  have hlen : (lentRun a).len = a.2 := rfl
  have hself := h.chain a List.mem_cons_self
  have hsaddr : heap.saddr = benosHeadAddress := h.saddr.trans h₀.saddr
  have hapart := h.apart
  rw [List.map_cons, List.pairwise_cons] at hapart
  obtain ⟨haparts, hapart⟩ := hapart
  -- the loop clears the blocks of `a`, and stops behind them
  have hcleared : ∀ j : Int, (Memory.heapFree heap a.1).table.entries j
      = if ((lentRun a).start : Int) ≤ j
          ∧ j < (((lentRun a).start + a.2 : Nat) : Int)
        then heapBlockTableEntryFree else heap.table.entries j := by
    intro j
    rw [haddr, heapFree_block hsaddr (show (lentRun a).start < 2 ^ 16 by omega)]
    refine heapMarkBlocksFreeLoop_apply (by omega) (by omega) ?_ j
    intro m hm hme
    rw [(hself m ⟨hm, by omega⟩).1]
    exact chainEntry_hasNext _ _
  refine ⟨h.saddr, h.total, hapart, fun c hc =>
    h.inside c (List.mem_cons_of_mem _ hc), fun c hc i hcov => ?_,
    fun j hj => ?_⟩
  · have hout := haparts _ (List.mem_map_of_mem hc)
    have hnot : ¬ (((lentRun a).start : Int) ≤ i
        ∧ (i : Int) < (((lentRun a).start + a.2 : Nat) : Int)) := fun hi =>
      hout i ⟨by omega, by omega⟩ hcov
    rw [hcleared, if_neg hnot]
    exact h.chain c (List.mem_cons_of_mem _ hc) i hcov
  · rw [hcleared]
    split
    case isTrue hj' =>
      have hblank := (hself j.toNat ⟨by omega, by omega⟩).2
      rw [show ((j.toNat : Nat) : Int) = j by omega] at hblank
      exact hblank.symm
    case isFalse hj' =>
      refine h.rest j fun c hc i hji hcov => ?_
      rcases List.mem_cons.mp hc with rfl | hc
      · obtain ⟨hlo, hhi⟩ := hcov
        omega
      · exact hj c hc i hji hcov

-- =========================================================== kzalloc, kfree

/-- A request that finds a run of free blocks long enough is lent it. -/
theorem Lent.kzalloc (h : Lent heap₀ r.heap own) (h₀ : Clean heap₀)
    {size : Nat} (hlo : 1 ≤ size) (hserves : Serves r.heap size) :
    (Memory.kzalloc size r).1 ≠ 0#32
      ∧ Lent heap₀ (Memory.kzalloc size r).2.heap
          (((Memory.kzalloc size r).1, blocksFor size) :: own) := by
  have hclean := h.clean h₀
  have htotal := hclean.total
  obtain ⟨-, b, hfit, heq⟩ := heapMalloc_of_serves hlo htotal hserves
  have hn := blocksFor_pos hlo
  have hin := hfit.inside
  simp only [kernelHeapBlocks] at htotal
  unfold Memory.kzalloc kmalloc
  rw [heq, heapBlockToAddress_eq r.heap hclean.saddr]
  simp only
  rw [if_neg (blockAddress_ne_null (by omega))]
  exact ⟨blockAddress_ne_null (by omega), h.taken h₀ hn hfit.inside hfit.run⟩

/-- A block that is asked for and not refused was free: one block is
never too short a run. -/
theorem serves_of_kzalloc {size : Nat} (hlo : 1 ≤ size)
    (hsize : size ≤ benosHeapBlockSize) (hne : (kzalloc size r).1 ≠ 0#32) :
    Serves r.heap size := by
  have hone : blocksFor size = 1 := by
    simp only [blocksFor, benosHeapBlockSize] at *
    omega
  have hcase := heapMalloc_cases r.heap hlo (by
    simp only [benosHeapBlockSize] at hsize
    omega)
  unfold kzalloc kmalloc at hne
  simp only at hne
  unfold Serves
  generalize heapMalloc r.heap size = q at hcase hne
  cases hcase with
  | found hfit => exact hfit.hasFreeRun
  | full _ _ => exact absurd rfl hne
  | @cut b hnone htrail =>
      have hlt := htrail.below
      rw [hone] at hnone ⊢
      exact absurd ⟨b, hlt, fun i hi hi' => htrail.run i hi (by omega)⟩ hnone

/-- A block is lent. -/
theorem Lent.kzalloc_block (h : Lent heap₀ r.heap own) (h₀ : Clean heap₀)
    {size : Nat} (hlo : 1 ≤ size) (hsize : size ≤ benosHeapBlockSize)
    (hne : (Memory.kzalloc size r).1 ≠ 0#32) :
    Lent heap₀ (Memory.kzalloc size r).2.heap
      (((Memory.kzalloc size r).1, 1) :: own) := by
  have hone : blocksFor size = 1 := by
    simp only [blocksFor, benosHeapBlockSize] at *
    omega
  have hlent := (h.kzalloc h₀ hlo (serves_of_kzalloc hlo hsize hne)).2
  rwa [hone] at hlent

-- ======================================================= there and back again

theorem SameTable.refl (heap : Heap) : SameTable heap heap :=
  ⟨rfl, fun _ _ => rfl⟩

/-- A release looks at the table only. -/
theorem SameTable.heapFree {heap heap' : Heap} (h : SameTable heap heap')
    (hsaddr : heap.saddr = benosHeadAddress)
    (hsaddr' : heap'.saddr = benosHeadAddress) {b : Nat} (hb : b < 2 ^ 16) :
    SameTable (Memory.heapFree heap (blockAddress b))
      (Memory.heapFree heap' (blockAddress b)) := by
  rw [heapFree_block hsaddr hb, heapFree_block hsaddr' hb]
  refine ⟨h.1, fun j hj => ?_⟩
  have hj' : j < heap.table.total := hj
  have hreaches : ∀ {h₁ h₂ : Heap}, SameTable h₁ h₂ → j < h₁.table.total →
      Reaches h₁.table.entries (h₁.table.total - (b : Int)).toNat b j →
      Reaches h₂.table.entries (h₂.table.total - (b : Int)).toNat b j := by
    intro h₁ h₂ hsame hlt hreach
    refine ⟨hreach.behind, by rw [hsame.1]; exact hreach.inside,
      fun m hm hmj => ?_⟩
    obtain ⟨k, rfl⟩ := Int.eq_ofNat_of_zero_le (show 0 ≤ m by omega)
    rw [hsame.2 k (by omega)]
    exact hreach.chained k hm hmj
  have hback : SameTable heap' heap :=
    ⟨h.1.symm, fun i hi => (h.2 i (h.1 ▸ hi)).symm⟩
  obtain ⟨hgot, hleft⟩ := heapMarkBlocksFreeLoop_reaches j
    (heap.table.total - (b : Int)).toNat b heap.table.entries
  obtain ⟨hgot', hleft'⟩ := heapMarkBlocksFreeLoop_reaches j
    (heap'.table.total - (b : Int)).toNat b heap'.table.entries
  unfold heapMarkBlocksFree
  simp only
  by_cases hreach : Reaches heap.table.entries
      (heap.table.total - (b : Int)).toNat b j
  · rw [hgot hreach, hgot' (hreaches h hj' hreach)]
  · rw [hleft hreach, hleft' fun hr => hreach (hreaches hback (h.1 ▸ hj') hr)]
    exact h.2 j hj'

/-- What was handed out and is given back at once leaves the table as it
was, also where the run was too short or of no blocks. -/
theorem sameTable_free_malloc {heap : Heap} (h : Clean heap) (size : Nat)
    (hne : (heapMalloc heap size).1 ≠ 0#32) :
    ∃ b < 2 ^ 16, (heapMalloc heap size).1 = blockAddress b
      ∧ (heapMalloc heap size).2.saddr = benosHeadAddress
      ∧ SameTable heap
          (heapFree (heapMalloc heap size).2 (heapMalloc heap size).1) := by
  have hout := heapMalloc_handed heap size
  have htotal := h.total
  simp only [kernelHeapBlocks] at htotal
  generalize heapAlignValueToUpper size / benosHeapBlockSize = n at hout
  generalize heapMalloc heap size = q at hout hne
  cases hout with
  | refused => exact absurd rfl hne
  | @marked b hlt hfree hrun =>
      have haddr := heapBlockToAddress_eq heap h.saddr b
      have hsaddr : (heapMarkBlocksTaken heap b n).saddr = benosHeadAddress :=
        h.saddr
      have hmarked := heapMarkBlocksTaken_apply heap b n
      refine ⟨b, by omega, haddr, hsaddr, rfl, fun j hj => ?_⟩
      simp only [haddr]
      rw [heapFree_block hsaddr (show b < 2 ^ 16 by omega)]
      obtain ⟨hgot, hleft⟩ := heapMarkBlocksFreeLoop_reaches j
        ((heapMarkBlocksTaken heap b n).table.total - (b : Int)).toNat b
        (heapMarkBlocksTaken heap b n).table.entries
      have hsize : (heapMarkBlocksTaken heap b n).table.total
          = heap.table.total := rfl
      unfold heapMarkBlocksFree
      simp only
      by_cases hin : b ≤ j ∧ j < b + n
      · -- a block of the run: the chain goes on up to it
        rw [hgot ⟨by omega, by rw [hsize]; omega, fun m hm hmj => ?_⟩]
        · exact (h.blank j hj (hrun j hin.1 hin.2 hj)).symm
        · obtain ⟨k, rfl⟩ := Int.eq_ofNat_of_zero_le (show 0 ≤ m by omega)
          rw [hmarked, if_pos (by omega), Ne, Int.toNat_natCast,
            chainEntry_hasNext]
          simp only
          omega
      · have hentry : (heapMarkBlocksTaken heap b n).table.entries j
            = heap.table.entries j := by
          rw [hmarked, if_neg (by omega)]
        by_cases hreach : Reaches (heapMarkBlocksTaken heap b n).table.entries
            ((heapMarkBlocksTaken heap b n).table.total - (b : Int)).toNat b j
        · rw [hgot hreach]
          -- only the first block of no run at all is got to
          rcases Nat.eq_or_lt_of_le (show b ≤ j by
              have := hreach.behind
              omega) with rfl | hjb
          · exact (h.blank b hj hfree).symm
          · rcases Nat.eq_zero_or_pos n with rfl | hn
            · have hnext := hreach.chained b (by omega) (by omega)
              rw [hmarked, if_neg (by omega), h.blank b hlt hfree] at hnext
              exact absurd rfl hnext
            · have hnext := hreach.chained ((b + n - 1 : Nat) : Int) (by omega)
                (by omega)
              rw [hmarked, if_pos (by omega), Ne, Int.toNat_natCast,
                chainEntry_hasNext] at hnext
              simp only at hnext
              omega
        · rw [hleft hreach, hentry]

/-- While something is lent the table is another. -/
theorem Lent.not_sameTable {a : Addr × Nat} (h : Lent heap₀ heap (a :: own)) :
    ¬ SameTable heap₀ heap := by
  intro hsame
  obtain ⟨-, hpos, hin⟩ := h.inside a List.mem_cons_self
  obtain ⟨hchain, hblank⟩ := h.chain a List.mem_cons_self (lentRun a).start
    ⟨Nat.le_refl _, Nat.lt_add_of_pos_right hpos⟩
  have hentry := hsame.2 (lentRun a).start (by omega)
  rw [hchain, hblank] at hentry
  refine entryType_chainEntry (lentRun a) (lentRun a).start ?_
  rw [hentry]
  rfl

/-- A request that is refused leaves everything as it was. -/
theorem kzalloc_refused (h : Clean r.heap) {size : Nat}
    (hnull : (kzalloc size r).1 = 0#32) :
    (kzalloc size r).2.heap = r.heap ∧ (kzalloc size r).2.mem = r.mem := by
  have hout := heapMalloc_handed r.heap size
  have htotal := h.total
  simp only [kernelHeapBlocks] at htotal
  rw [kzalloc_address] at hnull
  constructor
  · rw [kzalloc_heap]
    generalize heapMalloc r.heap size = q at hout hnull ⊢
    cases hout with
    | refused => rfl
    | @marked b hlt _ _ =>
        rw [heapBlockToAddress_eq r.heap h.saddr] at hnull
        exact absurd hnull (blockAddress_ne_null (by omega))
  · unfold Memory.kzalloc kmalloc
    simp only
    rw [if_pos hnull]

/-- A request that is not refused, given back. -/
theorem sameTable_kfree_kzalloc (h : Clean r.heap) {size : Nat}
    (hne : (kzalloc size r).1 ≠ 0#32) :
    SameTable r.heap (kfree (kzalloc size r).1 (kzalloc size r).2).heap := by
  rw [kfree_heap, kzalloc_heap, kzalloc_address]
  rw [kzalloc_address] at hne
  obtain ⟨b, -, -, -, hsame⟩ := sameTable_free_malloc h size hne
  exact hsame

/-- A block, given back to a table that was the one it left. -/
theorem sameTable_kfree_block (h : Clean r.heap) {size : Nat} (hlo : 1 ≤ size)
    (hsize : size ≤ benosHeapBlockSize) (hne : (kzalloc size r).1 ≠ 0#32)
    {r' : Ram} (hr' : SameTable (kzalloc size r).2.heap r'.heap)
    (hsaddr : r'.heap.saddr = benosHeadAddress) :
    SameTable r.heap (kfree (kzalloc size r).1 r').heap := by
  have hlent := (Lent.refl r.heap).kzalloc_block h hlo hsize hne
  have hsettled := (hlent.heapFree h).settled
  obtain ⟨haddr, -, hin⟩ := hlent.inside _ List.mem_cons_self
  simp only at haddr hin
  have htotal := h.total
  simp only [kernelHeapBlocks] at htotal
  have hfree := hr'.heapFree (hlent.clean h).saddr hsaddr
    (b := (lentRun ((kzalloc size r).1, 1)).start) (by omega)
  rw [← haddr, hsettled] at hfree
  exact hfree

end BenOS.Memory
