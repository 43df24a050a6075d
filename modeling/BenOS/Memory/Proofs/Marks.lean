/-
How the block table represents a pool of runs, and what marking does to
it.

A run is written into the table as a chain: its first block carries
`IS_FIRST`, every block but its last carries `HAS_NEXT` (`chainEntry`).
`Represents table pool` says that the table is exactly that for every
run of an abstract pool, and zero elsewhere. The two marking loops are
then one operation of the pool each: `represents_taken` (a run of free
blocks is handed out) and `represents_freed` (a run is taken back, found
again from its first block by following `HAS_NEXT`).
-/
import BenOS.Memory.Proofs.FirstFit

namespace BenOS.Memory

open Lib

-- ========================================================== representation

/-- The byte that stands for block `i` of the run `r`. -/
def chainEntry (r : BlockRun) (i : Nat) : UInt8 :=
  (if i = r.start then heapBlockTableEntryTaken ||| heapBlockIsFirst
    else heapBlockTableEntryTaken)
  ||| (if i + 1 < r.start + r.len then heapBlockHasNext else 0)

/-- The table holds the chains of the pool's runs and is free
elsewhere. -/
structure Represents (table : HeapTable) (pool : BlockPool table.total) :
    Prop where
  chain : ∀ r ∈ pool.runs, ∀ i, r.Covers i →
    table.entries i = chainEntry r i
  free : ∀ i < table.total, pool.Free i →
    table.entries i = heapBlockTableEntryFree

/-- A chain entry reads as taken. -/
theorem entryType_chainEntry (r : BlockRun) (i : Nat) :
    heapGetEntryType (chainEntry r i) ≠ heapBlockTableEntryFree := by
  unfold chainEntry
  split <;> split <;> decide

/-- A chain entry carries `HAS_NEXT` exactly where the run goes on. -/
theorem chainEntry_hasNext (r : BlockRun) (i : Nat) :
    chainEntry r i &&& heapBlockHasNext = 0
      ↔ ¬ i + 1 < r.start + r.len := by
  unfold chainEntry
  by_cases hnext : i + 1 < r.start + r.len
  · rw [if_pos hnext]
    split <;> simp [hnext] <;> decide
  · rw [if_neg hnext]
    split <;> simp [hnext] <;> decide

/-- Inside the table, the free entries are the free blocks of the
pool. -/
theorem Represents.isFree_iff {table : HeapTable}
    {pool : BlockPool table.total} (h : Represents table pool) {i : Nat}
    (hi : i < table.total) : IsFree table i ↔ pool.Free i := by
  constructor
  · intro hfree r hr hc
    have hentry := h.chain r hr i hc
    unfold IsFree at hfree
    rw [hentry] at hfree
    exact entryType_chainEntry r i hfree
  · intro hfree
    unfold IsFree
    rw [h.free i hi hfree]
    rfl

/-- A free run of the table is a run of free blocks of the pool. -/
theorem Represents.freeRun {table : HeapTable}
    {pool : BlockPool table.total} (h : Represents table pool) {b n : Nat}
    (hin : b + n ≤ table.total) (hrun : FreeRun (IsFree table) b n) :
    ∀ i, (BlockRun.mk b n).Covers i → pool.Free i := by
  intro i h
  obtain ⟨hbi, hin'⟩ := h
  have hlt : i < b + n := hin'
  exact (h.isFree_iff (by omega)).mp (hrun i hbi hlt)

-- ========================================================== marking taken

/-- What the marking loop writes: `entry` at its first block, a plain
taken byte at the last, `HAS_NEXT` between, nothing elsewhere. -/
theorem heapMarkBlocksTakenLoop_apply (endBlock j : Int) :
    ∀ (k : Nat) (i : Int) (entry : UInt8) (entries : Int → UInt8),
      endBlock + 1 = i + k →
      heapMarkBlocksTakenLoop endBlock k i entry entries j
        = if i ≤ j ∧ j ≤ endBlock then
            if j = i then entry
            else if j = endBlock then heapBlockTableEntryTaken
            else heapBlockTableEntryTaken ||| heapBlockHasNext
          else entries j := by
  intro k
  induction k with
  | zero =>
      intro i entry entries hk
      rw [heapMarkBlocksTakenLoop, if_neg (by omega)]
  | succ k ih =>
      intro i entry entries hk
      rw [heapMarkBlocksTakenLoop, ih _ _ _ (by omega)]
      by_cases hji : j = i
      · rw [if_neg (by omega), if_pos (by omega), if_pos hji, hji,
          Function.update_self]
      · rw [Function.update_of_ne hji]
        by_cases hrange : i + 1 ≤ j ∧ j ≤ endBlock
        · rw [if_pos hrange,
            if_pos (show i ≤ j ∧ j ≤ endBlock by omega), if_neg hji]
          by_cases hnext : j = i + 1
          · rw [if_pos hnext]
            by_cases hlast : j = endBlock
            · rw [if_pos hlast, if_neg (by omega)]
            · rw [if_neg hlast, if_pos (by omega)]
          · rw [if_neg hnext]
        · rw [if_neg hrange, if_neg (by omega)]

/-- `heap_mark_blocks_taken` writes the chain of its run. -/
theorem heapMarkBlocksTaken_entries (heap : Heap) {b n : Nat} (hn : 1 ≤ n)
    (j : Int) :
    (heapMarkBlocksTaken heap b n).table.entries j
      = if (b : Int) ≤ j ∧ j < b + n then chainEntry ⟨b, n⟩ j.toNat
        else heap.table.entries j := by
  simp only [heapMarkBlocksTaken]
  rw [heapMarkBlocksTakenLoop_apply _ _ _ _ _ _ (by omega)]
  by_cases hrange : (b : Int) ≤ j ∧ j < b + n
  · rw [if_pos (by omega), if_pos hrange]
    unfold chainEntry
    by_cases hfirst : j = b
    · rw [if_pos hfirst, if_pos (show j.toNat = b by omega)]
      by_cases hone : (n : Int) > 1
      · rw [if_pos hone, if_pos (show j.toNat + 1 < b + n by omega)]
      · rw [if_neg hone, if_neg (show ¬ j.toNat + 1 < b + n by omega)]
        rfl
    · rw [if_neg hfirst, if_neg (show ¬ j.toNat = b by omega)]
      by_cases hlast : j = (b : Int) + n - 1
      · rw [if_pos hlast, if_neg (show ¬ j.toNat + 1 < b + n by omega)]
        rfl
      · rw [if_neg hlast, if_pos (show j.toNat + 1 < b + n by omega)]
  · rw [if_neg (by omega), if_neg hrange]

theorem heapMarkBlocksTaken_saddr (heap : Heap) (b n : Int) :
    (heapMarkBlocksTaken heap b n).saddr = heap.saddr := rfl

/-- Marking a run of free blocks taken hands it out of the pool. -/
theorem represents_taken {heap : Heap} {pool : BlockPool heap.table.total}
    (h : Represents heap.table pool) {b n : Nat} (hn : 1 ≤ n)
    (hin : b + n ≤ heap.table.total)
    (hrun : FreeRun (IsFree heap.table) b n) :
    Represents (heapMarkBlocksTaken heap b n).table
      (pool.alloc ⟨b, n⟩ hn hin (h.freeRun hin hrun)) := by
  have hfree := h.freeRun hin hrun
  constructor
  · intro r hr i hc
    rw [heapMarkBlocksTaken_entries heap hn]
    rcases List.mem_cons.mp hr with rfl | hr
    · obtain ⟨hlo, hhi⟩ := hc
      have hlo' : b ≤ i := hlo
      have hhi' : i < b + n := hhi
      rw [if_pos (by omega), Int.toNat_natCast]
    · have hout : ¬ ((b : Int) ≤ i ∧ (i : Int) < b + n) := by
        intro hin'
        exact hfree i ⟨by simp only; omega, by simp only; omega⟩ r hr hc
      rw [if_neg hout]
      exact h.chain r hr i hc
  · intro i hi hfree'
    obtain ⟨hpool, hout⟩ := (pool.alloc_free_iff _ _ _ hfree i).mp hfree'
    have hout' : ¬ ((b : Int) ≤ i ∧ (i : Int) < b + n) := by
      intro hin'
      exact hout ⟨by simp only; omega, by simp only; omega⟩
    rw [heapMarkBlocksTaken_entries heap hn, if_neg hout']
    exact h.free i hi hpool

-- =========================================================== marking free

/-- The freeing loop of `k` rounds from block `i` on gets to block `j`:
every block before it carries `HAS_NEXT`. -/
structure Reaches (entries : Int → UInt8) (k : Nat) (i j : Int) : Prop where
  behind : i ≤ j
  inside : j < i + k
  chained : ∀ m, i ≤ m → m < j → entries m &&& heapBlockHasNext ≠ 0

/-- One round on: a block other than the first is reached from there
exactly when the first goes on and it is reached from the next. -/
theorem reaches_succ {entries : Int → UInt8} {k : Nat} {i j : Int}
    (hji : j ≠ i) :
    Reaches entries (k + 1) i j
      ↔ entries i &&& heapBlockHasNext ≠ 0
        ∧ Reaches (Function.update entries i heapBlockTableEntryFree) k
            (i + 1) j := by
  constructor
  · intro h
    have hlo := h.behind
    have hhi := h.inside
    refine ⟨h.chained i (Int.le_refl i) (by omega), by omega, by omega, ?_⟩
    intro m hm hmj
    rw [Function.update_of_ne (by omega)]
    exact h.chained m (by omega) hmj
  · intro h
    obtain ⟨hnext, hrest⟩ := h
    have hlo := hrest.behind
    have hhi := hrest.inside
    refine ⟨by omega, by omega, fun m hm hmj => ?_⟩
    by_cases hmi : m = i
    · rw [hmi]
      exact hnext
    · have := hrest.chained m (by omega) hmj
      rwa [Function.update_of_ne hmi] at this

/-- The freeing loop clears the entries it gets to and no others. -/
theorem heapMarkBlocksFreeLoop_reaches (j : Int) :
    ∀ (k : Nat) (i : Int) (entries : Int → UInt8),
      (Reaches entries k i j →
        heapMarkBlocksFreeLoop k i entries j = heapBlockTableEntryFree)
      ∧ (¬ Reaches entries k i j →
        heapMarkBlocksFreeLoop k i entries j = entries j) := by
  intro k
  induction k with
  | zero =>
      intro i entries
      refine ⟨fun h => ?_, fun _ => rfl⟩
      have := h.behind
      have := h.inside
      omega
  | succ k ih =>
      intro i entries
      obtain ⟨hgot, hleft⟩ :=
        ih (i + 1) (Function.update entries i heapBlockTableEntryFree)
      rw [heapMarkBlocksFreeLoop]
      by_cases hji : j = i
      · -- the entry the loop stands at is cleared, and stays so
        have hself : Function.update entries i heapBlockTableEntryFree j
            = heapBlockTableEntryFree := by
          rw [hji, Function.update_self]
        refine ⟨fun _ => ?_, fun hno => ?_⟩
        · split
          · exact hself
          · exact (hleft (fun h => absurd h.behind (by omega))).trans hself
        · exact absurd
            ⟨by omega, by omega, fun m hm hmj => absurd hmj (by omega)⟩ hno
      · have hother : Function.update entries i heapBlockTableEntryFree j
            = entries j := Function.update_of_ne hji _ _
        rw [reaches_succ hji]
        split
        case isTrue hstop =>
          exact ⟨fun h => absurd hstop h.1, fun _ => hother⟩
        case isFalse hnext =>
          refine ⟨fun h => hgot h.2, fun hno => ?_⟩
          exact (hleft fun h => hno ⟨hnext, h⟩).trans hother

/-- What a release does to an entry: nothing, or it is cleared, and every
entry from the start up to it carried `HAS_NEXT`. -/
theorem heapMarkBlocksFreeLoop_cases (j : Int) (k : Nat) (i : Int)
    (entries : Int → UInt8) :
    heapMarkBlocksFreeLoop k i entries j = entries j
      ∨ (heapMarkBlocksFreeLoop k i entries j = heapBlockTableEntryFree
        ∧ Reaches entries k i j) := by
  obtain ⟨hgot, hleft⟩ := heapMarkBlocksFreeLoop_reaches j k i entries
  by_cases hreach : Reaches entries k i j
  · exact Or.inr ⟨hgot hreach, hreach⟩
  · exact Or.inl (hleft hreach)

/-- The freeing loop, started at block `i` of a chain that ends before
block `e`, zeroes the rest of the chain and stops there. -/
theorem heapMarkBlocksFreeLoop_apply {e k i : Nat} {entries : Int → UInt8}
    (hi : i < e) (hk : e ≤ i + k)
    (hchain : ∀ m : Nat, i ≤ m → m < e →
      (entries m &&& heapBlockHasNext = 0 ↔ ¬ m + 1 < e)) (j : Int) :
    heapMarkBlocksFreeLoop k i entries j
      = if (i : Int) ≤ j ∧ j < e then heapBlockTableEntryFree
        else entries j := by
  obtain ⟨hgot, hleft⟩ := heapMarkBlocksFreeLoop_reaches j k i entries
  by_cases hj : (i : Int) ≤ j ∧ j < e
  · rw [if_pos hj]
    refine hgot ⟨hj.1, by omega, fun m hm hmj hstop => ?_⟩
    have hm' : ((m.toNat : Nat) : Int) = m := by omega
    rw [← hm'] at hstop
    exact (hchain m.toNat (by omega) (by omega)).mp hstop (by omega)
  · rw [if_neg hj]
    refine hleft fun h => ?_
    -- the last block of the chain stops the loop
    have hlo := h.behind
    have hlast := h.chained ((e - 1 : Nat) : Int) (by omega) (by omega)
    exact hlast ((hchain (e - 1) (by omega) (by omega)).mpr (by omega))

/-- `heap_mark_blocks_free` from the first block of a run of the pool
zeroes exactly that run. -/
theorem heapMarkBlocksFree_entries {heap : Heap}
    {pool : BlockPool heap.table.total} (h : Represents heap.table pool)
    {r : BlockRun} (hr : r ∈ pool.runs) (j : Int) :
    (heapMarkBlocksFree heap r.start).table.entries j
      = if (r.start : Int) ≤ j ∧ j < r.start + r.len then
          heapBlockTableEntryFree
        else heap.table.entries j := by
  have hpos := pool.pos r hr
  have hin := pool.inside r hr
  have hchain : ∀ m : Nat, r.start ≤ m → m < r.start + r.len →
      (heap.table.entries m &&& heapBlockHasNext = 0
        ↔ ¬ m + 1 < r.start + r.len) := by
    intro m hm hme
    rw [h.chain r hr m ⟨hm, hme⟩]
    exact chainEntry_hasNext r m
  simp only [heapMarkBlocksFree]
  rw [heapMarkBlocksFreeLoop_apply (by omega) (by omega) hchain]
  push_cast
  rfl

/-- Freeing a run of the pool takes it back. -/
theorem represents_freed {heap : Heap} {pool : BlockPool heap.table.total}
    (h : Represents heap.table pool) {r : BlockRun} (hr : r ∈ pool.runs) :
    Represents (heapMarkBlocksFree heap r.start).table (pool.release r) := by
  constructor
  · intro q hq i hc
    have hqp : q ∈ pool.runs := List.mem_of_mem_erase hq
    have hne : r ≠ q := by
      rintro rfl
      exact pool.nodup.not_mem_erase hq
    have hout : ¬ ((r.start : Int) ≤ i ∧ (i : Int) < r.start + r.len) := by
      intro hin
      exact pool.apart_of_ne hr hqp hne i ⟨by omega, by omega⟩ hc
    rw [heapMarkBlocksFree_entries h hr, if_neg hout]
    exact h.chain q hqp i hc
  · intro i hi hfree
    rw [heapMarkBlocksFree_entries h hr]
    rcases (pool.release_free_iff hr i).mp hfree with hpool | hc
    · split
      · rfl
      · exact h.free i hi hpool
    · obtain ⟨hlo, hhi⟩ := hc
      rw [if_pos (by omega)]

/-- Marking a run of free blocks taken and free again changes nothing. -/
theorem heapMarkBlocks_undo {heap : Heap} {pool : BlockPool heap.table.total}
    (h : Represents heap.table pool) {b n : Nat} (hn : 1 ≤ n)
    (hin : b + n ≤ heap.table.total)
    (hrun : FreeRun (IsFree heap.table) b n) :
    heapMarkBlocksFree (heapMarkBlocksTaken heap b n) b = heap := by
  have hfree := h.freeRun hin hrun
  have hentries := heapMarkBlocksFree_entries (represents_taken h hn hin hrun)
    (r := ⟨b, n⟩) List.mem_cons_self
  have hsame : (heapMarkBlocksFree (heapMarkBlocksTaken heap b n)
      b).table.entries = heap.table.entries := by
    funext j
    rw [hentries j, heapMarkBlocksTaken_entries heap hn]
    simp only
    by_cases hj : (b : Int) ≤ j ∧ j < b + n
    · have hj' : ((j.toNat : Nat) : Int) = j := by omega
      rw [if_pos hj, ← hj']
      exact (h.free j.toNat (by omega)
        (hfree j.toNat ⟨by simp only; omega, by simp only; omega⟩)).symm
    · rw [if_neg hj, if_neg hj]
  show (⟨⟨(heapMarkBlocksFree (heapMarkBlocksTaken heap b n)
    b).table.entries, heap.table.total⟩, heap.saddr⟩ : Heap) = heap
  rw [hsame]

end BenOS.Memory
