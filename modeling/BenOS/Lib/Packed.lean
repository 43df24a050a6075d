/-
Predicates that hold on an initial stretch of the indices.

A table is packed when nothing that counts lies behind something that
does not. Then, and only then, reading as many slots as there are things
that count reads those and no others (`packed_iff`).
-/
import Mathlib.Data.Nat.Count

namespace BenOS.Lib

/-- Where the predicate holds, it holds at all indices before. -/
def Packed (p : Nat → Prop) : Prop := ∀ i j, i < j → p j → p i

variable {p : Nat → Prop} [DecidablePred p]

/-- A packed predicate holds below its count. -/
theorem Packed.of_lt_count (h : Packed p) {i n : Nat}
    (hi : i < Nat.count p n) : p i := by
  by_contra hnot
  have hafter : ∀ k, ¬ p (i + k) := by
    intro k hk
    rcases Nat.eq_zero_or_pos k with rfl | hpos
    · exact hnot hk
    · exact hnot (h i (i + k) (by omega) hk)
  have hle : Nat.count p n ≤ Nat.count p (i + n) :=
    Nat.count_monotone p (Nat.le_add_left n i)
  rw [Nat.count_add, (Nat.count_iff_forall_not).mpr fun k _ => hafter k]
    at hle
  have := Nat.count_le (p := p) (n := i)
  omega

/-- Below its count, and nowhere else. -/
theorem Packed.lt_count (h : Packed p) {i n : Nat} (hi : p i) (hin : i < n) :
    i < Nat.count p n := by
  have hall : ∀ j < i + 1, p j := by
    intro j hj
    rcases Nat.lt_succ_iff_lt_or_eq.mp hj with hlt | rfl
    · exact h j i hlt hi
    · exact hi
  calc i < i + 1 := Nat.lt_succ_self i
    _ = Nat.count p (i + 1) := (Nat.count_iff_forall.mpr hall).symm
    _ ≤ Nat.count p n := Nat.count_monotone p hin

/-- A predicate that holds below `n` only holds exactly of the first `m`
indices if and only if it is packed and `m` is its count. -/
theorem packed_iff {m n : Nat} (hbound : ∀ i, p i → i < n) :
    (∀ i, p i ↔ i < m) ↔ Packed p ∧ m = Nat.count p n := by
  constructor
  · intro h
    have hle : m ≤ n := by
      by_contra hlt
      exact lt_irrefl n (hbound n ((h n).mpr (by omega)))
    refine ⟨fun i j hij hj => (h i).mpr (hij.trans ((h j).mp hj)), ?_⟩
    obtain ⟨k, rfl⟩ := Nat.exists_eq_add_of_le hle
    have hnone : Nat.count (fun i => p (m + i)) k = 0 :=
      Nat.count_iff_forall_not.mpr fun i _ hi => by
        have := (h (m + i)).mp hi
        omega
    rw [Nat.count_add, hnone, Nat.add_zero]
    exact (Nat.count_iff_forall.mpr fun i hi => (h i).mpr hi).symm
  · intro h i
    obtain ⟨hpacked, rfl⟩ := h
    exact ⟨fun hi => hpacked.lt_count hi (hbound i hi), hpacked.of_lt_count⟩

end BenOS.Lib
