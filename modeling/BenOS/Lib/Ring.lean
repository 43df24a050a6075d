/-
Queues kept in a ring of `n` cells, where an empty cell holds a value of
its own.

`Ring cell empty h q` says that from place `h` on, counted round the
ring, the cells hold the queue `q` and the others are empty. Nothing
keeps a count: where the queue ends is where the next empty cell is, and
a full ring has none. The four rules are those of a queue: a value put
behind the last one (`Ring.push`), the first one taken out (`Ring.pop`),
and what is found at the head (`Ring.first`, `Ring.none`). `Ring.unpush`
takes the last one back. What a value put into a full ring does is
`Ring.overflow`: it replaces the first.
-/
import Mathlib.Data.Fin.Basic
import Mathlib.Data.Nat.ModEq
import Mathlib.Logic.Function.Basic

namespace BenOS.Lib

variable {α : Type} {n : Nat} [NeZero n]

/-- The cell at a place, counted round the ring. -/
def ringAt (n : Nat) [NeZero n] (k : Nat) : Fin n := Fin.ofNat n k

theorem ringAt_eq_iff {i j : Nat} : ringAt n i = ringAt n j ↔ i % n = j % n :=
  Fin.ext_iff

/-- Less than a round apart, places are different cells. -/
theorem ringAt_ne {h i j : Nat} (hi : i < n) (hj : j < n) (hij : i ≠ j) :
    ringAt n (h + i) ≠ ringAt n (h + j) := by
  intro heq
  have hmod := Nat.ModEq.add_left_cancel' h (ringAt_eq_iff.mp heq)
  rw [Nat.ModEq, Nat.mod_eq_of_lt hi, Nat.mod_eq_of_lt hj] at hmod
  exact hij hmod

/-- From place `h` on the ring holds `q`, and nothing else. -/
structure Ring (cell : Fin n → α) (empty : α) (h : Nat) (q : List α) :
    Prop where
  fits : q.length ≤ n
  holds : ∀ i (hi : i < q.length), cell (ringAt n (h + i)) = q[i]
  clear : ∀ i, q.length ≤ i → i < n → cell (ringAt n (h + i)) = empty

variable {cell : Fin n → α} {empty c b : α} {h : Nat} {q : List α}

/-- Only the place in the round counts. -/
theorem Ring.round (hr : Ring cell empty h q) {h' : Nat}
    (heq : h' % n = h % n) : Ring cell empty h' q := by
  have hplace : ∀ i, ringAt n (h' + i) = ringAt n (h + i) := by
    intro i
    rw [ringAt_eq_iff, Nat.add_mod, heq, ← Nat.add_mod]
  refine ⟨hr.fits, fun i hi => ?_, fun i hi hin => ?_⟩
  · rw [hplace]
    exact hr.holds i hi
  · rw [hplace]
    exact hr.clear i hi hin

/-- The head holds the first value. -/
theorem Ring.first (hr : Ring cell empty h (c :: q)) :
    cell (ringAt n h) = c := hr.holds 0 (Nat.succ_pos _)

/-- The head of an empty queue is empty. -/
theorem Ring.none (hr : Ring cell empty h []) : cell (ringAt n h) = empty :=
  hr.clear 0 (Nat.le_refl 0) (Nat.pos_of_neZero n)

/-- A value put behind the last one. -/
theorem Ring.push (hr : Ring cell empty h q) (hlt : q.length < n) (c : α) :
    Ring (Function.update cell (ringAt n (h + q.length)) c) empty h
      (q ++ [c]) := by
  have hlen : (q ++ [c]).length = q.length + 1 := by simp
  refine ⟨by omega, fun i hi => ?_, fun i hi hin => ?_⟩
  · by_cases hlast : i = q.length
    · subst hlast
      rw [Function.update_self, List.getElem_concat_length rfl]
    · rw [Function.update_of_ne (ringAt_ne (by omega) hlt hlast),
        List.getElem_append_left (by omega)]
      exact hr.holds i (by omega)
  · rw [Function.update_of_ne (ringAt_ne hin hlt (by omega))]
    exact hr.clear i (by omega) hin

/-- The last value taken back. -/
theorem Ring.unpush (hr : Ring cell empty h (q ++ [c])) :
    Ring (Function.update cell (ringAt n (h + q.length)) empty) empty h q := by
  have hlen : (q ++ [c]).length = q.length + 1 := by simp
  have hfits := hr.fits
  refine ⟨by omega, fun i hi => ?_, fun i hi hin => ?_⟩
  · rw [Function.update_of_ne (ringAt_ne (by omega) (by omega) (by omega)),
      hr.holds i (by omega), List.getElem_append_left hi]
  · by_cases hlast : i = q.length
    · subst hlast
      exact Function.update_self _ _ _
    · rw [Function.update_of_ne (ringAt_ne hin (by omega) hlast)]
      exact hr.clear i (by omega) hin

/-- The first value taken out. -/
theorem Ring.pop (hr : Ring cell empty h (c :: q)) :
    Ring (Function.update cell (ringAt n h) empty) empty (h + 1) q := by
  have hfits := hr.fits
  rw [List.length_cons] at hfits
  have hplace : ∀ i, h + 1 + i = h + (i + 1) := fun i => by omega
  refine ⟨by omega, fun i hi => ?_, fun i hi hin => ?_⟩
  · rw [hplace, Function.update_of_ne]
    · exact hr.holds (i + 1) (by simpa using hi)
    · exact ringAt_ne (h := h) (j := 0) (by omega) (by omega) (by omega)
  · rw [hplace]
    by_cases hlast : i + 1 = n
    · have hround : ringAt n (h + (i + 1)) = ringAt n h := by
        rw [ringAt_eq_iff, hlast, Nat.add_mod_right]
      rw [hround, Function.update_self]
    · rw [Function.update_of_ne]
      · exact hr.clear (i + 1) (by simpa using hi) (by omega)
      · exact ringAt_ne (h := h) (j := 0) (by omega) (by omega) (by omega)

/-- A value put into a full ring replaces the first one. -/
theorem Ring.overflow (hr : Ring cell empty h (c :: q))
    (hfull : (c :: q).length = n) (b : α) :
    Ring (Function.update cell (ringAt n (h + (c :: q).length)) b) empty h
      (b :: q) := by
  have hround : ringAt n (h + (c :: q).length) = ringAt n h := by
    rw [ringAt_eq_iff, hfull, Nat.add_mod_right]
  rw [hround]
  refine ⟨hr.fits, fun i hi => ?_, fun i hi hin => ?_⟩
  · cases i with
    | zero => exact Function.update_self _ _ _
    | succ i =>
        have hi' : i + 1 < n := by
          rw [← hfull]
          exact hi
        rw [Function.update_of_ne]
        · exact hr.holds (i + 1) hi
        · exact ringAt_ne (h := h) (j := 0) hi' (by omega) (by omega)
  · rw [List.length_cons] at hi hfull
    omega

end BenOS.Lib
