/-
The segments of a text between its separators, read from the left.

A reader that takes the segments one after the other and stops at the
first empty one has read the `leading` ones. Those are all the segments
that are not empty exactly when no empty one has one that is not empty
behind it (`takeWhile_eq_filter_iff`). A reader that passes over the
empty ones reads the `runs`.
-/
import Mathlib.Data.List.Basic

namespace BenOS.Lib

variable {α : Type} [BEq α] [LawfulBEq α] (sep : α)

omit [BEq α] [LawfulBEq α] in
/-- A text is its first segment, and the segments of what lies behind the
separator. -/
theorem splitOnP_eq_cons (p : α → Bool) (l : List α) :
    l.splitOnP p = l.takeWhile (fun x => !p x) ::
      match l.dropWhile fun x => !p x with
      | [] => []
      | _ :: rest => rest.splitOnP p := by
  induction l with
  | nil => exact List.splitOnP_nil
  | cons x l ih =>
      rw [List.splitOnP_cons_eq_if_modifyHead, List.takeWhile_cons,
        List.dropWhile_cons]
      cases hx : p x with
      | true => rfl
      | false =>
          rw [ih]
          rfl

omit [LawfulBEq α] in
theorem splitOn_eq_cons (l : List α) :
    l.splitOn sep = l.takeWhile (fun x => x != sep) ::
      match l.dropWhile fun x => x != sep with
      | [] => []
      | _ :: rest => rest.splitOn sep :=
  splitOnP_eq_cons (· == sep) l

/-- The segments before the first empty one. -/
def leading (l : List α) : List (List α) :=
  (l.splitOn sep).takeWhile fun c => !c.isEmpty

omit [LawfulBEq α] in
theorem leading_nil : leading sep ([] : List α) = [] := by
  unfold leading
  rw [List.splitOn_nil]
  rfl

omit [LawfulBEq α] in
/-- They are read off one by one. -/
theorem leading_eq (l : List α) :
    leading sep l = if l.takeWhile (fun x => x != sep) = [] then []
      else l.takeWhile (fun x => x != sep) ::
        leading sep (l.dropWhile fun x => x != sep).tail := by
  have hrest : (match l.dropWhile fun x => x != sep with
      | [] => []
      | _ :: rest => rest.splitOn sep).takeWhile (fun c => !c.isEmpty)
      = leading sep (l.dropWhile fun x => x != sep).tail := by
    cases l.dropWhile fun x => x != sep with
    | nil => exact (leading_nil sep).symm
    | cons x rest => rfl
  rw [← hrest]
  unfold leading
  rw [splitOn_eq_cons, List.takeWhile_cons]
  cases l.takeWhile fun x => x != sep with
  | nil => rfl
  | cons x xs => rfl

/-- The segments that are not empty: the maximal runs of elements that are
no separators. -/
def runs (l : List α) : List (List α) :=
  (l.splitOn sep).filter fun c => !c.isEmpty

omit [BEq α] [LawfulBEq α]

/-- The maximal runs of elements without a property. -/
def runsBy (p : α → Bool) (l : List α) : List (List α) :=
  (l.splitOnP p).filter fun c => !c.isEmpty

theorem runs_eq_runsBy [BEq α] (l : List α) :
    runs sep l = runsBy (· == sep) l := rfl

variable (p : α → Bool)

theorem runsBy_nil : runsBy p [] = [] := by
  unfold runsBy
  rw [List.splitOnP_nil]
  rfl

/-- Separators at the start are passed over. -/
theorem runsBy_dropWhile (l : List α) :
    runsBy p (l.dropWhile p) = runsBy p l := by
  induction l with
  | nil => rfl
  | cons x l ih =>
      rw [List.dropWhile_cons]
      split
      case isTrue hx =>
        rw [ih]
        unfold runsBy
        rw [List.splitOnP_cons_eq_if_modifyHead, if_pos hx]
        rfl
      case isFalse => rfl

/-- What else stands at the start is the start of the first run. -/
theorem runsBy_cons {x : α} (hx : p x = false) (l : List α) :
    runsBy p (x :: l) = (x :: l).takeWhile (fun x => !p x) ::
      runsBy p ((x :: l).dropWhile fun x => !p x).tail := by
  have hrest : (match (x :: l).dropWhile fun x => !p x with
      | [] => []
      | _ :: rest => rest.splitOnP p).filter (fun c => !c.isEmpty)
      = runsBy p ((x :: l).dropWhile fun x => !p x).tail := by
    cases (x :: l).dropWhile fun x => !p x with
    | nil => exact (runsBy_nil p).symm
    | cons y rest => rfl
  rw [← hrest, runsBy, splitOnP_eq_cons, List.filter_cons_of_pos]
  rw [List.takeWhile_cons, hx]
  rfl

/-- The first elements with a property are all that have it when none
comes behind one that has it not. -/
theorem takeWhile_eq_filter_iff (p : α → Bool) (l : List α) :
    l.takeWhile p = l.filter p
      ↔ l.Pairwise fun a b => p a = false → p b = false := by
  induction l with
  | nil => exact ⟨fun _ => List.Pairwise.nil, fun _ => rfl⟩
  | cons a l ih =>
      rw [List.pairwise_cons]
      cases ha : p a with
      | true =>
          rw [List.takeWhile_cons_of_pos ha, List.filter_cons_of_pos ha,
            List.cons_inj_right, ih]
          exact ⟨fun h => ⟨fun b _ hf => absurd hf (by decide), h⟩,
            fun h => h.2⟩
      | false =>
          have hna : ¬ p a = true := by rw [ha]; decide
          rw [List.takeWhile_cons_of_neg hna, List.filter_cons_of_neg hna,
            eq_comm, List.filter_eq_nil_iff]
          constructor
          · intro h
            have hall : ∀ b ∈ l, p b = false := fun b hb =>
              Bool.not_eq_true _ ▸ h b hb
            exact ⟨fun b hb _ => hall b hb,
              List.Pairwise.imp_of_mem (fun _ hb _ _ => hall _ hb)
                (List.pairwise_of_forall (R := fun _ _ => True)
                  fun _ _ => trivial)⟩
          · rintro ⟨h, -⟩ b hb
            rw [h b hb rfl]
            decide

/-- What stands in a joined text stands in a segment, or separates two. -/
theorem mem_of_mem_intercalate {cs : List (List α)} {x : α}
    (h : x ∈ [sep].intercalate cs) : x = sep ∨ ∃ c ∈ cs, x ∈ c := by
  induction cs with
  | nil => exact absurd h List.not_mem_nil
  | cons c cs ih =>
      cases cs with
      | nil =>
          refine Or.inr ⟨c, List.mem_cons_self, ?_⟩
          simpa [List.intercalate] using h
      | cons c' cs =>
          rw [List.intercalate_cons_cons, List.append_assoc] at h
          rcases List.mem_append.mp h with h | h
          · exact Or.inr ⟨c, List.mem_cons_self, h⟩
          · rcases List.mem_cons.mp h with h | h
            · exact Or.inl h
            · rcases ih h with h | ⟨y, hy, hx⟩
              · exact Or.inl h
              · exact Or.inr ⟨y, List.mem_cons_of_mem _ hy, hx⟩

theorem length_le_intercalate {cs : List (List α)} {c : List α} (h : c ∈ cs) :
    c.length ≤ ([sep].intercalate cs).length := by
  induction cs with
  | nil => exact absurd h List.not_mem_nil
  | cons c' cs ih =>
      cases cs with
      | nil =>
          rw [List.mem_singleton.mp h]
          simp [List.intercalate]
      | cons c'' cs =>
          rw [List.intercalate_cons_cons, List.length_append, List.length_append]
          rcases List.mem_cons.mp h with rfl | h
          · omega
          · have hle := ih h
            omega

end BenOS.Lib
