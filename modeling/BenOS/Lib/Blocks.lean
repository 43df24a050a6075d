/-
Runs of consecutive blocks: free runs of a predicate on block numbers,
the first fitting one, and pools of pairwise disjoint allocated runs.

Nothing here knows how a table records who owns a block. `FreeRun` and
its companions speak about any predicate `free` on block numbers;
`BlockPool total` is the abstract state of a block allocator over
`total` blocks, an invalid instance of which (an empty run, a run past
the end, two runs sharing a block) cannot be built. Its two operations,
`alloc` and `release`, change the free blocks by exactly the blocks of
one run (`alloc_free_iff`, `release_free_iff`).
-/
import Mathlib.Data.List.Pairwise
import Mathlib.Data.List.Perm.Basic

namespace BenOS.Lib

-- ============================================================= free runs

section FreeRuns

variable (free : Nat → Prop)

/-- The `n` blocks from `b` on are free. -/
def FreeRun (b n : Nat) : Prop := ∀ i, b ≤ i → i < b + n → free i

/-- Some `n` consecutive blocks below `total` are free. -/
def HasFreeRun (total n : Nat) : Prop :=
  ∃ b, b + n ≤ total ∧ FreeRun free b n

/-- `b` starts the lowest free run of `n` blocks below `total`. -/
structure FirstFit (total n b : Nat) : Prop where
  inside : b + n ≤ total
  run : FreeRun free b n
  first : ∀ b' < b, ¬ FreeRun free b' n

/-- The blocks end in a free run that starts at `b`. -/
structure TrailingRun (total b : Nat) : Prop where
  below : b < total
  run : FreeRun free b (total - b)

instance [DecidablePred free] (b n : Nat) : Decidable (FreeRun free b n) :=
  decidable_of_iff (∀ k < n, free (b + k))
    ⟨fun h i hi hi' => by
        have hk := h (i - b) (by omega)
        rwa [show b + (i - b) = i by omega] at hk,
      fun h k hk => h (b + k) (by omega) (by omega)⟩

instance [DecidablePred free] (total n : Nat) :
    Decidable (HasFreeRun free total n) :=
  decidable_of_iff (∃ b < total + 1, b + n ≤ total ∧ FreeRun free b n)
    ⟨fun ⟨b, _, h⟩ => ⟨b, h⟩, fun ⟨b, h⟩ => ⟨b, by omega, h⟩⟩

end FreeRuns

variable {free : Nat → Prop} {total n b : Nat}

theorem FirstFit.hasFreeRun (h : FirstFit free total n b) :
    HasFreeRun free total n := ⟨b, h.inside, h.run⟩

/-- A run shrinks to any of its parts. -/
theorem FreeRun.mono (h : FreeRun free b n) {b' n' : Nat} (hb : b ≤ b')
    (hn : b' + n' ≤ b + n) : FreeRun free b' n' :=
  fun i hi hi' => h i (by omega) (by omega)

/-- A run extends by one free block at its end. -/
theorem FreeRun.snoc (h : FreeRun free b n) (hf : free (b + n)) :
    FreeRun free b (n + 1) := by
  intro i hi hi'
  by_cases heq : i = b + n
  · rw [heq]
    exact hf
  · exact h i hi (by omega)

-- ======================================================= allocated runs

/-- A run of consecutive blocks. -/
structure BlockRun where
  start : Nat
  len : Nat
deriving DecidableEq, Repr

namespace BlockRun

/-- Block `i` lies in the run. -/
def Covers (r : BlockRun) (i : Nat) : Prop :=
  r.start ≤ i ∧ i < r.start + r.len

instance (r : BlockRun) (i : Nat) : Decidable (r.Covers i) :=
  inferInstanceAs (Decidable (_ ∧ _))

/-- Two runs share no block. -/
def Apart (r q : BlockRun) : Prop := ∀ i, r.Covers i → ¬ q.Covers i

theorem Apart.symm {r q : BlockRun} (h : r.Apart q) : q.Apart r :=
  fun i hq hr => h i hr hq

/-- A run with a block is not apart from itself. -/
theorem not_apart_self {r : BlockRun} (hr : 0 < r.len) : ¬ r.Apart r := by
  intro h
  have hc : r.Covers r.start := ⟨Nat.le_refl _, by omega⟩
  exact h r.start hc hc

end BlockRun

/-- The abstract state of a block allocator over `total` blocks: the
runs handed out, each with a block, inside, and sharing none. -/
structure BlockPool (total : Nat) where
  runs : List BlockRun
  pos : ∀ r ∈ runs, 0 < r.len
  inside : ∀ r ∈ runs, r.start + r.len ≤ total
  apart : runs.Pairwise BlockRun.Apart

namespace BlockPool

/-- Block `i` belongs to no run. -/
def Free (p : BlockPool total) (i : Nat) : Prop :=
  ∀ r ∈ p.runs, ¬ r.Covers i

/-- The pool with nothing handed out. -/
def empty (total : Nat) : BlockPool total where
  runs := []
  pos := fun _ h => absurd h (List.not_mem_nil)
  inside := fun _ h => absurd h (List.not_mem_nil)
  apart := List.Pairwise.nil

/-- Hand out a run of free blocks. -/
def alloc (p : BlockPool total) (r : BlockRun) (hpos : 0 < r.len)
    (hin : r.start + r.len ≤ total) (hfree : ∀ i, r.Covers i → p.Free i) :
    BlockPool total where
  runs := r :: p.runs
  pos := List.forall_mem_cons.mpr ⟨hpos, p.pos⟩
  inside := List.forall_mem_cons.mpr ⟨hin, p.inside⟩
  apart := List.pairwise_cons.mpr
    ⟨fun q hq i hr => hfree i hr q hq, p.apart⟩

/-- Take one run back. -/
def release (p : BlockPool total) (r : BlockRun) : BlockPool total where
  runs := p.runs.erase r
  pos := fun q hq => p.pos q (List.mem_of_mem_erase hq)
  inside := fun q hq => p.inside q (List.mem_of_mem_erase hq)
  apart := p.apart.sublist (List.erase_sublist)

@[simp] theorem alloc_runs (p : BlockPool total) (r : BlockRun)
    (hpos : 0 < r.len) (hin : r.start + r.len ≤ total)
    (hfree : ∀ i, r.Covers i → p.Free i) :
    (p.alloc r hpos hin hfree).runs = r :: p.runs := rfl

/-- No run is listed twice. -/
theorem nodup (p : BlockPool total) : p.runs.Nodup := by
  refine p.apart.imp_of_mem ?_
  intro r q hr _ hapart heq
  subst heq
  exact BlockRun.not_apart_self (p.pos r hr) hapart

/-- Distinct runs of a pool share no block. -/
theorem apart_of_ne (p : BlockPool total) {r q : BlockRun}
    (hr : r ∈ p.runs) (hq : q ∈ p.runs) (hne : r ≠ q) : r.Apart q := by
  have hsymm : Std.Symm BlockRun.Apart := ⟨fun _ _ h => h.symm⟩
  exact p.apart.forall hr hq hne

/-- Handing out `r` takes exactly the blocks of `r`. -/
theorem alloc_free_iff (p : BlockPool total) (r : BlockRun)
    (hpos : 0 < r.len) (hin : r.start + r.len ≤ total)
    (hfree : ∀ i, r.Covers i → p.Free i) (i : Nat) :
    (p.alloc r hpos hin hfree).Free i ↔ p.Free i ∧ ¬ r.Covers i := by
  constructor
  · intro h
    exact ⟨fun q hq => h q (List.mem_cons_of_mem _ hq),
      h r (List.mem_cons_self)⟩
  · intro h q hq
    obtain ⟨hp, hr⟩ := h
    rcases List.mem_cons.mp hq with rfl | hq
    · exact hr
    · exact hp q hq

/-- Taking `r` back frees exactly the blocks of `r`. -/
theorem release_free_iff (p : BlockPool total) {r : BlockRun}
    (hr : r ∈ p.runs) (i : Nat) :
    (p.release r).Free i ↔ p.Free i ∨ r.Covers i := by
  constructor
  · intro h
    by_cases hc : r.Covers i
    · exact Or.inr hc
    · refine Or.inl fun q hq => ?_
      by_cases heq : q = r
      · rw [heq]
        exact hc
      · exact h q ((List.mem_erase_of_ne heq).mpr hq)
  · rintro (hfree | hc) q hq
    · exact hfree q (List.mem_of_mem_erase hq)
    · have hne : r ≠ q := by
        rintro rfl
        exact p.nodup.not_mem_erase hq
      exact p.apart_of_ne hr (List.mem_of_mem_erase hq) hne i hc

end BlockPool

end BenOS.Lib
