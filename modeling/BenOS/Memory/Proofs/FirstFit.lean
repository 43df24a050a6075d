/-
What the scan of `heap_get_start_block` finds.

The scan carries two counters across free and taken runs. `ScanAt` reads
them: either the scan stands right behind a taken block (or at block 0)
and both are reset, or it stands inside a free run and they hold where
that run starts and how much of it has been seen. With the fact that no
long enough run ended before, this is the loop invariant, and it leaves
three ways out (`ScanOutcome`):

- `found`: the lowest free run of the requested length;
- `full`: no such run, and the table does not end in a free block;
- `cut`: no such run, but the table ends in a shorter free run, which is
  handed out as if it were long enough.

`heapGetStartBlock_outcome` is the one lemma about the scan that the
rest of the development reads; nothing else unfolds the loop.
-/
import BenOS.Lib.Blocks
import BenOS.Memory.Heap

namespace BenOS.Memory

open Lib

-- ========================================================= free entries

/-- Entry `i` of the table is free, as the scan tests it. -/
def IsFree (table : HeapTable) (i : Nat) : Prop :=
  heapGetEntryType (table.entries i) = heapBlockTableEntryFree

instance (table : HeapTable) (i : Nat) : Decidable (IsFree table i) :=
  inferInstanceAs (Decidable (_ = _))

-- ====================================================== the loop invariant

/-- What the counters `bc` and `bs` say when the scan stands at block
`i`. -/
inductive ScanAt (free : Nat → Prop) (i : Nat) : Int → Int → Prop
  | behindTaken : (i = 0 ∨ ¬ free (i - 1)) → ScanAt free i 0 (-1)
  | inFreeRun {b : Nat} : b < i → FreeRun free b (i - b) →
      (b = 0 ∨ ¬ free (b - 1)) → ScanAt free i ((i - b : Nat) : Int) b

/-- The three ways a scan for `n` blocks over `total` blocks ends. -/
inductive ScanOutcome (free : Nat → Prop) (total n : Nat) : Int → Prop
  | found {b : Nat} : FirstFit free total n b → ScanOutcome free total n b
  | full : ¬ HasFreeRun free total n → (total = 0 ∨ ¬ free (total - 1)) →
      ScanOutcome free total n (-1)
  | cut {b : Nat} : ¬ HasFreeRun free total n → TrailingRun free total b →
      total < b + n → ScanOutcome free total n b

/-- A free block carries the invariant on: the run starts with it or goes
on through it. -/
theorem ScanAt.free_block {free : Nat → Prop} {i : Nat} {bc bs : Int}
    (hat : ScanAt free i bc bs) (hfree : free i) :
    ∃ b : Nat, (if bs = -1 then (i : Int) else bs) = b
      ∧ bc + 1 = ((i + 1 - b : Nat) : Int) ∧ b < i + 1
      ∧ FreeRun free b (i + 1 - b) ∧ (b = 0 ∨ ¬ free (b - 1))
      ∧ (b = i ∨ bs = b) := by
  cases hat with
  | behindTaken hlast =>
      refine ⟨i, by simp, by omega, by omega, ?_, hlast, Or.inl rfl⟩
      intro j hj hj'
      have hji : j = i := by omega
      rw [hji]
      exact hfree
  | @inFreeRun b hb hrun hfirst =>
      have hne : ¬ ((b : Int) = -1) := by omega
      refine ⟨b, by rw [if_neg hne], by omega, by omega, ?_, hfirst,
        Or.inr rfl⟩
      have hlen : i + 1 - b = (i - b) + 1 := by omega
      have hend : b + (i - b) = i := by omega
      rw [hlen]
      exact hrun.snoc (by rw [hend]; exact hfree)

/-- A run that reaches over a block that is not free is none. -/
theorem not_freeRun_of_not_free {free : Nat → Prop} {b n i : Nat}
    (h : ¬ free i) (hb : b ≤ i) (hi : i < b + n) : ¬ FreeRun free b n :=
  fun hrun => h (hrun i hb hi)

variable {table : HeapTable} {n : Nat}

/-- The loop invariant leads to one of the three outcomes. The induction
is on the blocks left; the first hypothesis keeps the count and the
position in step, the third is the part of the invariant that speaks
about the runs already passed. -/
theorem heapGetStartBlockLoop_outcome (hn : 1 ≤ n) :
    ∀ (k i : Nat) (bc bs : Int), i + k = table.total →
      ScanAt (IsFree table) i bc bs →
      (∀ b, b + n ≤ i → ¬ FreeRun (IsFree table) b n) →
      (∀ b : Nat, bs = b → i < b + n) →
      ScanOutcome (IsFree table) table.total n
        (heapGetStartBlockLoop table n k i bc bs) := by
  intro k
  induction k with
  | zero =>
      intro i bc bs hi hat hno hshort
      have hnone : ¬ HasFreeRun (IsFree table) table.total n := by
        intro h
        obtain ⟨b, hb, hrun⟩ := h
        exact hno b (by omega) hrun
      have hit : i = table.total := by omega
      cases hat with
      | behindTaken hlast =>
          rw [hit] at hlast
          exact ScanOutcome.full hnone hlast
      | inFreeRun hb hrun hfirst =>
          have hs := hshort _ rfl
          rw [hit] at hb hrun hs
          exact ScanOutcome.cut hnone ⟨hb, hrun⟩ hs
  | succ k ih =>
      intro i bc bs hi hat hno hshort
      by_cases hfree : IsFree table i
      · -- a free block: the run starts here or goes on
        obtain ⟨b, hbs, hbc, hbi, hrun, hfirst, hstart⟩ := hat.free_block hfree
        have hbn : i < b + n := by
          rcases hstart with rfl | hb
          · omega
          · exact hshort b hb
        have hunfold : heapGetStartBlockLoop table n (k + 1) i bc bs
            = if bc + 1 = (n : Int) then (b : Int)
              else heapGetStartBlockLoop table n k (i + 1) (bc + 1) b := by
          have hf : ¬ (heapGetEntryType (table.entries i)
              ≠ heapBlockTableEntryFree) := fun h => h hfree
          rw [heapGetStartBlockLoop, if_neg hf, hbs]
        rw [hunfold]
        by_cases hdone : bc + 1 = (n : Int)
        · rw [if_pos hdone]
          refine ScanOutcome.found ⟨by omega, hrun.mono (by omega) (by omega), ?_⟩
          intro b' hb'
          by_cases hpast : b' + n ≤ i
          · exact hno b' hpast
          · rcases hfirst with hzero | hstop
            · omega
            · exact not_freeRun_of_not_free hstop (by omega) (by omega)
        · rw [if_neg hdone, hbc]
          refine ih (i + 1) _ _ (by omega)
            (ScanAt.inFreeRun hbi hrun hfirst) ?_ ?_
          · intro b' hb'
            by_cases hpast : b' + n ≤ i
            · exact hno b' hpast
            · -- a run of `n` ending here would start before `b`
              rcases hfirst with hzero | hstop
              · omega
              · exact not_freeRun_of_not_free hstop (by omega) (by omega)
          · intro b'' hb''
            omega
      · -- a taken block: both counters are reset
        have hunfold : heapGetStartBlockLoop table n (k + 1) i bc bs
            = heapGetStartBlockLoop table n k (i + 1) 0 (-1) := by
          have hf : heapGetEntryType (table.entries i)
              ≠ heapBlockTableEntryFree := hfree
          rw [heapGetStartBlockLoop, if_pos hf]
        rw [hunfold]
        refine ih (i + 1) 0 (-1) (by omega)
          (ScanAt.behindTaken (Or.inr hfree)) ?_ ?_
        · intro b hb
          by_cases hpast : b + n ≤ i
          · exact hno b hpast
          · exact not_freeRun_of_not_free hfree (by omega) (by omega)
        · intro b hb
          omega

-- ==================================================== a scan for no blocks

/-- A scan for no blocks at all is never satisfied: it runs to the end of
the table. -/
theorem heapGetStartBlockLoop_zero :
    ∀ (k i : Nat) (bc bs : Int), i + k = table.total →
      ScanAt (IsFree table) i bc bs →
      ∃ bc', ScanAt (IsFree table) table.total bc'
        (heapGetStartBlockLoop table 0 k i bc bs) := by
  intro k
  induction k with
  | zero =>
      intro i bc bs hi hat
      have hit : i = table.total := by omega
      rw [← hit]
      exact ⟨bc, hat⟩
  | succ k ih =>
      intro i bc bs hi hat
      rw [heapGetStartBlockLoop]
      split
      case isTrue htaken =>
          exact ih (i + 1) 0 (-1) (by omega)
            (ScanAt.behindTaken (Or.inr htaken))
      case isFalse htype =>
          obtain ⟨b, hbs, hbc, hbi, hrun, hfirst, -⟩ :=
            hat.free_block (not_not.mp htype)
          simp only
          rw [hbs, if_neg (by omega), hbc]
          exact ih (i + 1) _ _ (by omega) (ScanAt.inFreeRun hbi hrun hfirst)

-- ====================================================== heap_get_start_block

/-- The three ways `heap_get_start_block` answers. -/
inductive StartBlock (heap : Heap) (n : Nat) : Int → Prop
  | found {b : Nat} :
      FirstFit (IsFree heap.table) heap.table.total n b → StartBlock heap n b
  | full : ¬ HasFreeRun (IsFree heap.table) heap.table.total n →
      (heap.table.total = 0 ∨ ¬ IsFree heap.table (heap.table.total - 1)) →
      StartBlock heap n (-enomem)
  | cut {b : Nat} : ¬ HasFreeRun (IsFree heap.table) heap.table.total n →
      TrailingRun (IsFree heap.table) heap.table.total b →
      heap.table.total < b + n → StartBlock heap n b

/-- A request for at least one block is answered in one of the three
ways. -/
theorem heapGetStartBlock_outcome (heap : Heap) (hn : 1 ≤ n) :
    StartBlock heap n (heapGetStartBlock heap n) := by
  have hout := @heapGetStartBlockLoop_outcome heap.table n hn
    heap.table.total 0 0 (-1) (by omega) (ScanAt.behindTaken (Or.inl rfl))
    (fun b hb => absurd hb (by omega)) (fun b hb => absurd hb (by omega))
  unfold heapGetStartBlock
  generalize heapGetStartBlockLoop heap.table n heap.table.total 0 0 (-1)
    = bs at hout
  cases hout with
  | found hfit =>
      rw [if_neg (by omega)]
      exact StartBlock.found hfit
  | full hnone hlast =>
      rw [if_pos rfl]
      exact StartBlock.full hnone hlast
  | cut hnone htrail hlen =>
      rw [if_neg (by omega)]
      exact StartBlock.cut hnone htrail hlen

end BenOS.Memory
