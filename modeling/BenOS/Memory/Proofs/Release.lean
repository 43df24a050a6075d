/-
Which entries of the table a release reads and writes.

`heapFreeTouched` is the loop of `heap_mark_blocks_free` once more, with
the entries it looks at in place of what it leaves of them. They are the
only ones: two memories that agree on them have them touched alike
(`heapMarkBlocksFreeTouched_congr`), and every other entry stays
(`heapFree_untouched`).

The loop stops before `table->total` and has no lower bound. So a release
stays inside the table exactly where it starts at no block below 0, which
is where the pointer lies less than one block below the pool, its
distance taken as an `int` (`heap_free_exact`). Null lies 4096 blocks
below the kernel's pool.
-/
import BenOS.Memory.Proofs.Marks

namespace BenOS.Memory

-- ========================================================== what is touched

/-- The loop of `heap_mark_blocks_free` by the entries it reads and
writes. -/
def heapMarkBlocksFreeTouched : Nat → Int → (Int → UInt8) → List Int
  | 0, _, _ => []
  | k + 1, i, entries =>
      let entry := entries i
      let entries := Function.update entries i heapBlockTableEntryFree
      if entry &&& heapBlockHasNext = 0 then [i]
      else i :: heapMarkBlocksFreeTouched k (i + 1) entries

/-- The entries `heap_free` reads and writes. -/
def heapFreeTouched (heap : Heap) (ptr : Addr) : List Int :=
  let startingBlock := heapAddressToBlock heap ptr
  heapMarkBlocksFreeTouched (heap.table.total - startingBlock).toNat
    startingBlock heap.table.entries

/-- An entry is touched exactly where the loop reaches it. -/
theorem mem_heapMarkBlocksFreeTouched (j : Int) :
    ∀ (k : Nat) (i : Int) (entries : Int → UInt8),
      j ∈ heapMarkBlocksFreeTouched k i entries ↔ Reaches entries k i j := by
  intro k
  induction k with
  | zero =>
      intro i entries
      refine ⟨fun h => absurd h List.not_mem_nil, fun h => ?_⟩
      have hlo := h.behind
      have hhi := h.inside
      omega
  | succ k ih =>
      intro i entries
      have hstep := ih (i + 1)
        (Function.update entries i heapBlockTableEntryFree)
      rw [heapMarkBlocksFreeTouched]
      by_cases hji : j = i
      · subst hji
        have hreach : Reaches entries (k + 1) j j :=
          ⟨by omega, by omega, fun m hm hmj => absurd hmj (by omega)⟩
        refine ⟨fun _ => hreach, fun _ => ?_⟩
        split <;> exact List.mem_cons_self
      · rw [reaches_succ hji, ← hstep]
        split
        case isTrue hstop =>
          rw [List.mem_singleton]
          exact ⟨fun h => absurd h hji, fun h => absurd hstop h.1⟩
        case isFalse hnext =>
          rw [List.mem_cons]
          exact ⟨fun h => ⟨hnext, h.resolve_left hji⟩, fun h => Or.inr h.2⟩

/-- The loop touches at most one entry a round. -/
theorem length_heapMarkBlocksFreeTouched :
    ∀ (k : Nat) (i : Int) (entries : Int → UInt8),
      (heapMarkBlocksFreeTouched k i entries).length ≤ k := by
  intro k
  induction k with
  | zero => exact fun _ _ => Nat.le_refl 0
  | succ k ih =>
      intro i entries
      rw [heapMarkBlocksFreeTouched]
      split
      · simp only [List.length_singleton]
        omega
      · rw [List.length_cons]
        exact Nat.succ_le_succ (ih _ _)

/-- What is touched is all that is looked at: entries that agree there
are touched alike. -/
theorem heapMarkBlocksFreeTouched_congr :
    ∀ (k : Nat) (i : Int) (entries entries₁ : Int → UInt8),
      (∀ j ∈ heapMarkBlocksFreeTouched k i entries,
        entries₁ j = entries j) →
      heapMarkBlocksFreeTouched k i entries₁
        = heapMarkBlocksFreeTouched k i entries := by
  intro k
  induction k with
  | zero => exact fun _ _ _ _ => rfl
  | succ k ih =>
      intro i entries entries₁ hagree
      have hself : entries₁ i = entries i := by
        refine hagree i ((mem_heapMarkBlocksFreeTouched i _ _ _).mpr ?_)
        exact ⟨by omega, by omega, fun m hm hmj => absurd hmj (by omega)⟩
      rw [heapMarkBlocksFreeTouched] at hagree ⊢
      rw [heapMarkBlocksFreeTouched, hself]
      split
      case isTrue => rfl
      case isFalse hnext =>
          rw [if_neg hnext] at hagree
          refine congrArg (i :: ·) (ih (i + 1) _ _ fun j hj => ?_)
          by_cases hji : j = i
          · rw [hji, Function.update_self, Function.update_self]
          · rw [Function.update_of_ne hji, Function.update_of_ne hji]
            exact hagree j (List.mem_cons_of_mem i hj)

/-- `heap_free` leaves every entry it does not touch. -/
theorem heapFree_untouched {heap : Heap} {ptr : Addr} {j : Int}
    (h : j ∉ heapFreeTouched heap ptr) :
    (heapFree heap ptr).table.entries j = heap.table.entries j := by
  unfold heapFreeTouched at h
  simp only at h
  rw [mem_heapMarkBlocksFreeTouched] at h
  exact (heapMarkBlocksFreeLoop_reaches j _ _ _).2 h

/-- What `heap_free` touches is free afterwards. -/
theorem heapFree_touched {heap : Heap} {ptr : Addr} {j : Int}
    (h : j ∈ heapFreeTouched heap ptr) :
    (heapFree heap ptr).table.entries j = heapBlockTableEntryFree := by
  unfold heapFreeTouched at h
  simp only at h
  rw [mem_heapMarkBlocksFreeTouched] at h
  exact (heapMarkBlocksFreeLoop_reaches j _ _ _).1 h

/-- A release touches the block it starts at, where that comes before the
table's end. -/
theorem start_mem_heapFreeTouched {heap : Heap} {ptr : Addr}
    (h : heapAddressToBlock heap ptr < heap.table.total) :
    heapAddressToBlock heap ptr ∈ heapFreeTouched heap ptr := by
  unfold heapFreeTouched
  simp only
  rw [mem_heapMarkBlocksFreeTouched]
  exact ⟨Int.le_refl _, by omega, fun m hm hmj => absurd hmj (by omega)⟩

/-- What a release touches lies between the block it starts at and the
table's end, and the release ends within as many rounds. -/
theorem heapFreeTouched_range {heap : Heap} {ptr : Addr} :
    (∀ j ∈ heapFreeTouched heap ptr,
      heapAddressToBlock heap ptr ≤ j ∧ j < heap.table.total)
    ∧ (heapFreeTouched heap ptr).length
      ≤ (heap.table.total - heapAddressToBlock heap ptr).toNat := by
  unfold heapFreeTouched
  refine ⟨fun j hj => ?_, length_heapMarkBlocksFreeTouched _ _ _⟩
  simp only at hj
  rw [mem_heapMarkBlocksFreeTouched] at hj
  have hlo := hj.behind
  have hhi := hj.inside
  omega

-- ============================================================ the requirement

/-- A release is confined to the table: it touches entries of the table
only, one a round and in no more rounds than there are, and with a null
pointer it changes nothing. -/
structure FreeConfined (heap : Heap) (ptr : Addr) : Prop where
  inside : ∀ j ∈ heapFreeTouched heap ptr, 0 ≤ j ∧ j < heap.table.total
  ends : (heapFreeTouched heap ptr).length ≤ heap.table.total
  null : ptr = 0#32 → heapFree heap ptr = heap

/-- The pointer lies less than a block below the pool, as an `int` has
it; and where it is null, the block it stands for is free or none of the
table. -/
structure ReleaseGuard (heap : Heap) (ptr : Addr) : Prop where
  above : -(benosHeapBlockSize : Int) < (ptr - heap.saddr).toInt
  null : ptr = 0#32 →
    heap.table.total ≤ heapAddressToBlock heap ptr
      ∨ heap.table.entries (heapAddressToBlock heap ptr)
          = heapBlockTableEntryFree

/-- `heap_address_to_block` rounds towards 0, so the block is negative
only a whole block below the pool. -/
theorem heapAddressToBlock_nonneg_iff (heap : Heap) (ptr : Addr) :
    0 ≤ heapAddressToBlock heap ptr
      ↔ -(benosHeapBlockSize : Int) < (ptr - heap.saddr).toInt := by
  unfold heapAddressToBlock
  simp only [benosHeapBlockSize]
  generalize (ptr - heap.saddr).toInt = d
  rcases Int.le_total 0 d with hd | hd
  · rw [Int.tdiv_eq_ediv_of_nonneg hd]
    omega
  · obtain ⟨e, rfl⟩ : ∃ e, d = -e := ⟨-d, by omega⟩
    rw [Int.neg_tdiv, Int.tdiv_eq_ediv_of_nonneg (by omega)]
    omega

/-- A release changes nothing exactly where it starts behind the table or
at an entry that is free. -/
theorem heapFree_eq_self_iff (heap : Heap) (ptr : Addr) :
    heapFree heap ptr = heap
      ↔ heap.table.total ≤ heapAddressToBlock heap ptr
        ∨ heap.table.entries (heapAddressToBlock heap ptr)
            = heapBlockTableEntryFree := by
  constructor
  · intro hsame
    by_cases hlt : heapAddressToBlock heap ptr < heap.table.total
    · right
      have hfree := heapFree_touched (start_mem_heapFreeTouched hlt)
      rwa [hsame] at hfree
    · exact Or.inl (not_lt.mp hlt)
  · intro hstart
    have hentries : (heapFree heap ptr).table.entries
        = heap.table.entries := by
      funext j
      by_cases hj : j ∈ heapFreeTouched heap ptr
      · obtain ⟨hlo, hhi⟩ := heapFreeTouched_range.1 j hj
        have hfree := hstart.resolve_left (by omega)
        -- a free entry carries no `HAS_NEXT`, so the loop ends there
        have hself : j = heapAddressToBlock heap ptr := by
          by_contra hne
          unfold heapFreeTouched at hj
          simp only at hj
          rw [mem_heapMarkBlocksFreeTouched] at hj
          refine hj.chained (heapAddressToBlock heap ptr) (Int.le_refl _)
            (by omega) ?_
          rw [hfree]
          rfl
        rw [heapFree_touched hj, hself, hfree]
      · exact heapFree_untouched hj
    show (⟨⟨(heapFree heap ptr).table.entries, heap.table.total⟩,
      heap.saddr⟩ : Heap) = heap
    rw [hentries]

/-- `heap_free` is confined to its table exactly under the guard: for
every heap, and every pointer. -/
theorem heap_free_exact (heap : Heap) (ptr : Addr) :
    FreeConfined heap ptr ↔ ReleaseGuard heap ptr := by
  have hnonneg := heapAddressToBlock_nonneg_iff heap ptr
  have hnull := heapFree_eq_self_iff heap ptr
  obtain ⟨hrange, hrounds⟩ := @heapFreeTouched_range heap ptr
  constructor
  · intro h
    refine ⟨?_, fun hptr => hnull.mp (h.null hptr)⟩
    apply hnonneg.mp
    by_contra hneg
    have hstart := h.inside _ (start_mem_heapFreeTouched (by omega))
    omega
  · intro h
    have hstart := hnonneg.mpr h.above
    refine ⟨fun j hj => ?_, by omega, fun hptr => hnull.mpr (h.null hptr)⟩
    obtain ⟨hlo, hhi⟩ := hrange j hj
    omega

/-- The kernel's heap, all of its blocks free. -/
def freeKernelHeap : Heap := ⟨⟨fun _ => 0, 25600⟩, benosHeadAddress⟩

/-- It is not so for every pointer: null, given to the kernel's heap,
stands for block -4096. -/
theorem heap_free_null_below_table :
    ¬ ∀ (heap : Heap) (ptr : Addr), FreeConfined heap ptr := by
  intro hall
  have hin := (hall freeKernelHeap 0#32).inside (-4096) (by decide)
  omega

end BenOS.Memory
