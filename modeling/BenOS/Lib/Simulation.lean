/-
Two partial step functions that go together.

`Option.Rel R` relates two answers when both are there and related, or
neither is: a step function whose answers are so related to those of
another is simulated by it, and simulates it. Such answers go on together
(`rel_bind`), and so does a whole run, with what is read off its states
for the steps of the other one (`exec_rel`).
-/
import Mathlib.Data.List.Forall2
import BenOS.Lib.Run

namespace BenOS.Lib

variable {α β γ δ σ τ : Type} {R : α → β → Prop} {Q : γ → δ → Prop}

-- ================================================================== answers

/-- An answer on one side is met by one on the other. -/
theorem rel_some {a : α} {y : Option β} (h : Option.Rel R (some a) y) :
    ∃ b, y = some b ∧ R a b := by
  cases h with
  | some h => exact ⟨_, rfl, h⟩

theorem rel_some_right {x : Option α} {b : β} (h : Option.Rel R x (some b)) :
    ∃ a, x = some a ∧ R a b := by
  cases h with
  | some h => exact ⟨_, rfl, h⟩

theorem rel_none {y : Option β} (h : Option.Rel R none y) : y = none := by
  cases h with
  | none => rfl

/-- What is known of one answer besides. -/
theorem rel_and_right {P : β → Prop} {x : Option α} {y : Option β}
    (h : Option.Rel R x y) (hP : ∀ b, y = some b → P b) :
    Option.Rel (fun a b => R a b ∧ P b) x y := by
  cases h with
  | none => exact .none
  | some h => exact .some ⟨h, hP _ rfl⟩

/-- What comes behind related answers. -/
theorem rel_bind {x : Option α} {y : Option β} {f : α → Option γ}
    {g : β → Option δ} (h : Option.Rel R x y)
    (hfg : ∀ a b, R a b → Option.Rel Q (f a) (g b)) :
    Option.Rel Q (x.bind f) (y.bind g) := by
  cases h with
  | none => exact .none
  | some h => exact hfg _ _ h

theorem rel_map {x : Option α} {y : Option β} {f : α → γ} {g : β → δ}
    (h : Option.Rel R x y) (hfg : ∀ a b, R a b → Q (f a) (g b)) :
    Option.Rel Q (x.map f) (y.map g) := by
  cases h with
  | none => exact .none
  | some h => exact .some (hfg _ _ h)

theorem rel_map_left {x : Option α} {y : Option β} {f : α → γ}
    {T : γ → β → Prop} (h : Option.Rel R x y) (hf : ∀ a b, R a b → T (f a) b) :
    Option.Rel T (x.map f) y := by
  rw [← Option.map_id' (x := y)]
  exact rel_map h hf

-- ===================================================================== runs

/-- What is read off the state before each step of a run. -/
def readings (step : σ → α → Option σ) (read : σ → α → β) :
    σ → List α → List β
  | _, [] => []
  | s, a :: as =>
      read s a :: match step s a with
        | some s' => readings step read s' as
        | none => []

variable {step : σ → α → Option σ} {step' : τ → β → Option τ}
  {read : σ → α → β} {S : σ → τ → Prop} {P : α → Prop}

theorem length_readings {s s' : σ} {as : List α} :
    exec step s as = some s' →
      (readings step read s as).length = as.length := by
  induction as generalizing s with
  | nil => exact fun _ => rfl
  | cons a as ih =>
      intro hexec
      cases hstep : step s a with
      | none =>
          simp only [exec, hstep] at hexec
          cases hexec
      | some s₁ =>
          rw [exec_cons_of_step hstep] at hexec
          simp only [readings, hstep, List.length_cons, ih hexec]

/-- Where single steps go together, so do runs, and every state they go
through. -/
theorem exec_rel
    (hstep : ∀ s t a, S s t → P a →
      Option.Rel S (step s a) (step' t (read s a))) (as : List α) :
    (∀ a ∈ as, P a) → ∀ {s : σ} {t : τ}, S s t →
      Option.Rel S (exec step s as)
          (exec step' t (readings step read s as))
        ∧ List.Forall₂ S (states step s as)
          (states step' t (readings step read s as)) := by
  induction as with
  | nil => exact fun _ _ _ h => ⟨.some h, .nil⟩
  | cons a as ih =>
      intro hP s t h
      have hrel := hstep s t a h (hP a List.mem_cons_self)
      cases hs : step s a with
      | none =>
          rw [hs] at hrel
          simp only [exec, states, readings, hs, rel_none hrel]
          exact ⟨.none, .nil⟩
      | some s' =>
          rw [hs] at hrel
          obtain ⟨t', ht, h'⟩ := rel_some hrel
          obtain ⟨hexec, hstates⟩ :=
            ih (fun b hb => hP b (List.mem_cons_of_mem _ hb)) h'
          simp only [exec, states, readings, hs, ht]
          exact ⟨hexec, .cons h' hstates⟩

end BenOS.Lib
