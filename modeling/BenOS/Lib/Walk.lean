/-
Walks along a partial successor function, and one walk followed by
another.

`walk next k a` is where `k` steps from `a` lead, if every one of them
exists. A second successor function `code` is meant to follow a first one
`data`: to take the same steps as long as `data` has one, and to stop
wherever the walk meets a point of `stop`. `Follows` says that of every
walk up to a length, from one start; `follows_iff` reduces it to the
single steps from the points met on the way.

Among finitely many points a walk that never stops comes back to one it
has met, and one that comes back never stops (`walk_stops_iff`).
-/
import Mathlib.Data.Fintype.Pigeonhole
import Mathlib.Logic.Basic

namespace BenOS.Lib

variable {α : Type}

/-- Where `k` steps lead. -/
def walk (next : α → Option α) : Nat → α → Option α
  | 0, a => some a
  | k + 1, a =>
      match next a with
      | some b => walk next k b
      | none => none

@[simp] theorem walk_zero (next : α → Option α) (a : α) :
    walk next 0 a = some a := rfl

/-- The last step of a walk. -/
theorem walk_succ (next : α → Option α) (k : Nat) (a : α) :
    walk next (k + 1) a = (walk next k a).bind next := by
  induction k generalizing a with
  | zero =>
      cases hnext : next a with
      | none => simp [walk, hnext]
      | some b => simp [walk, hnext]
  | succ k ih =>
      cases hnext : next a with
      | none => simp [walk, hnext]
      | some b =>
          have hstep : ∀ n, walk next (n + 1) a = walk next n b := by
            intro n
            simp only [walk, hnext]
          rw [hstep, hstep, ih b]

/-- A walk that fails keeps failing. -/
theorem walk_none_of_le {next : α → Option α} {a : α} {i k : Nat}
    (hik : i ≤ k) (h : walk next i a = none) : walk next k a = none := by
  induction k with
  | zero => rwa [Nat.le_zero.mp hik] at h
  | succ k ih =>
      rcases Nat.lt_or_ge k i with hlt | hge
      · rwa [show k + 1 = i by omega]
      · rw [walk_succ, ih hge]
        rfl

/-- A walk in two parts. -/
theorem walk_add (next : α → Option α) (i j : Nat) (a : α) :
    walk next (i + j) a = (walk next i a).bind (walk next j) := by
  induction j with
  | zero =>
      rw [Nat.add_zero]
      cases walk next i a with
      | none => rfl
      | some b => rfl
  | succ j ih =>
      rw [← Nat.add_assoc, walk_succ, ih, Option.bind_assoc]
      refine congrArg _ (funext fun b => ?_)
      rw [walk_succ]

/-- The walk meets a point a second time. -/
def ComesBack (next : α → Option α) (a : α) : Prop :=
  ∃ i j, i < j ∧ ∃ b, walk next i a = some b ∧ walk next j a = some b

/-- A walk that comes back goes round from there. -/
theorem walk_round {next : α → Option α} {b : α} {p : Nat}
    (h : walk next p b = some b) (n : Nat) : walk next (n * p) b = some b := by
  induction n with
  | zero => rw [Nat.zero_mul, walk_zero]
  | succ n ih => rw [Nat.succ_mul, walk_add, ih, Option.bind_some, h]

/-- A walk among finitely many points stops exactly where it meets none of
them a second time. -/
theorem walk_stops_iff [Finite α] (next : α → Option α) (a : α) :
    (∃ k, walk next k a = none) ↔ ¬ ComesBack next a := by
  constructor
  · intro hstop hback
    obtain ⟨k, hk⟩ := hstop
    obtain ⟨i, j, hij, b, hi, hj⟩ := hback
    have hround : walk next (j - i) b = some b := by
      rw [show j = i + (j - i) by omega, walk_add, hi] at hj
      exact hj
    have hlater : walk next (i + k * (j - i)) a = some b := by
      rw [walk_add, hi]
      exact walk_round hround k
    have hle : k ≤ i + k * (j - i) :=
      Nat.le_trans (Nat.le_mul_of_pos_right k (by omega))
        (Nat.le_add_left _ _)
    rw [walk_none_of_le hle hk] at hlater
    cases hlater
  · intro hback
    by_contra hnever
    -- a point for every number of steps, so two of them are the same
    have hsome : ∀ k, ∃ b, walk next k a = some b := fun k =>
      Option.ne_none_iff_exists'.mp fun hk => hnever ⟨k, hk⟩
    choose f hf using hsome
    obtain ⟨i, j, hne, heq⟩ := Finite.exists_ne_map_eq_of_infinite f
    rcases Nat.lt_or_gt_of_ne hne with hlt | hgt
    · exact hback ⟨i, j, hlt, f i, hf i, heq ▸ hf j⟩
    · exact hback ⟨j, i, hgt, f j, hf j, heq ▸ hf i⟩

/-- From `a`, and for up to `n` steps, `code` takes the steps of `data`
and has stopped wherever the walk along `data` has met `stop` before. -/
def Follows (data code : α → Option α) (stop : α → Prop) (n : Nat) (a : α) :
    Prop :=
  ∀ k ≤ n,
    (∀ x, walk data k a = some x → walk code k a = some x)
      ∧ (∀ i < k, ∀ x, walk data i a = some x → stop x →
        walk code k a = none)

/-- Following is following at every point met on the way. -/
theorem follows_iff (data code : α → Option α) (stop : α → Prop) (n : Nat)
    (a : α) :
    Follows data code stop n a ↔
      ∀ i < n, ∀ x, walk data i a = some x →
        (∀ y, data x = some y → code x = some y)
          ∧ (stop x → code x = none) := by
  constructor
  · intro h i hi x hx
    have hcode : walk code i a = some x := (h i (Nat.le_of_lt hi)).1 x hx
    constructor
    · intro y hy
      have hlast := (h (i + 1) hi).1 y (by rw [walk_succ, hx]; exact hy)
      rw [walk_succ, hcode] at hlast
      exact hlast
    · intro hstop
      have hlast := (h (i + 1) hi).2 i (Nat.lt_succ_self i) x hx hstop
      rw [walk_succ, hcode] at hlast
      exact hlast
  · intro h
    -- the steps agree as far as `data` goes
    have hfollow : ∀ k ≤ n, ∀ x, walk data k a = some x →
        walk code k a = some x := by
      intro k
      induction k with
      | zero => intro _ x hx; exact hx
      | succ k ih =>
          intro hk y hy
          rw [walk_succ] at hy
          obtain ⟨x, hx, hxy⟩ := Option.bind_eq_some_iff.mp hy
          rw [walk_succ, ih (by omega) x hx]
          exact (h k (by omega) x hx).1 y hxy
    intro k hk
    refine ⟨hfollow k hk, fun i hi x hx hstop => ?_⟩
    refine walk_none_of_le hi ?_
    rw [walk_succ, hfollow i (by omega) x hx]
    exact (h i (by omega) x hx).2 hstop

end BenOS.Lib
