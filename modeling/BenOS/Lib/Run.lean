/-
Runs of a partial deterministic transition function, and properties of
the steps a run takes.

A step function `step : σ → α → Option σ` answers `none` where the
action is not enabled, so a list of actions names at most one run from
a state. `Along step Q s as` says that every step of that run satisfies
`Q before action after`; a property `P` of the states reached is the
step property `fun _ _ s' => P s'`.

# The two rules

- `along_of_inv`: an invariant that a condition on the steps preserves,
  and from which the conclusion follows step by step, carries the
  condition along a whole run to the conclusion along that run.
- `along_iff_of_inv`: where the conclusion also gives the condition back
  at each single step, the two hold along exactly the same runs. This is
  the rule by which an exact condition for a property of whole runs is
  obtained from facts about one step.
-/
import Mathlib.Logic.Basic

namespace BenOS.Lib

variable {σ α : Type} {step : σ → α → Option σ}

-- ================================================================= runs

/-- The state a list of actions leads to, when all of them are enabled. -/
def exec (step : σ → α → Option σ) : σ → List α → Option σ
  | s, [] => some s
  | s, a :: as =>
      match step s a with
      | some s' => exec step s' as
      | none => none

/-- Every step of the run that `as` names from `s` satisfies `Q`, up to
the first action that is not enabled. -/
def Along (step : σ → α → Option σ) (Q : σ → α → σ → Prop) :
    σ → List α → Prop
  | _, [] => True
  | s, a :: as =>
      match step s a with
      | some s' => Q s a s' ∧ Along step Q s' as
      | none => True

/-- The states the run goes through, behind each of its steps. -/
def states (step : σ → α → Option σ) : σ → List α → List σ
  | _, [] => []
  | s, a :: as =>
      match step s a with
      | some s' => s' :: states step s' as
      | none => []

theorem states_cons_of_step {s s' : σ} {a : α} {as : List α}
    (h : step s a = some s') :
    states step s (a :: as) = s' :: states step s' as := by
  simp only [states, h]

theorem exec_cons_of_step {s s' : σ} {a : α} {as : List α}
    (h : step s a = some s') : exec step s (a :: as) = exec step s' as := by
  simp only [exec, h]

theorem along_cons_of_step {Q : σ → α → σ → Prop} {s s' : σ} {a : α}
    {as : List α} (h : step s a = some s') :
    Along step Q s (a :: as) ↔ Q s a s' ∧ Along step Q s' as := by
  simp only [Along, h]

theorem along_cons_of_none {Q : σ → α → σ → Prop} {s : σ} {a : α}
    {as : List α} (h : step s a = none) : Along step Q s (a :: as) := by
  simp only [Along, h]

/-- The steps of a run are those of its first part and those of the rest. -/
theorem along_append {Q : σ → α → σ → Prop} {as bs : List α} :
    ∀ {s s' : σ}, exec step s as = some s' → Along step Q s (as ++ bs) →
      Along step Q s' bs := by
  induction as with
  | nil =>
      intro s s' hexec h
      obtain rfl := Option.some.inj hexec
      exact h
  | cons a as ih =>
      intro s s' hexec h
      cases hstep : step s a with
      | none =>
          simp only [exec, hstep] at hexec
          cases hexec
      | some s₁ =>
          rw [exec_cons_of_step hstep] at hexec
          exact ih hexec ((along_cons_of_step hstep).mp h).2

/-- Every run is a run of unconstrained steps. -/
theorem along_true (s : σ) (as : List α) :
    Along step (fun _ _ _ => True) s as := by
  induction as generalizing s with
  | nil => trivial
  | cons a as ih =>
      cases hstep : step s a with
      | none => exact along_cons_of_none hstep
      | some s' => exact (along_cons_of_step hstep).mpr ⟨trivial, ih s'⟩

/-- A decidable step property is decidable along a run. -/
def decidableAlong {Q : σ → α → σ → Prop}
    [hQ : ∀ s a s', Decidable (Q s a s')] :
    ∀ (s : σ) (as : List α), Decidable (Along step Q s as)
  | _, [] => isTrue trivial
  | s, a :: as =>
      match h : step s a with
      | none => isTrue (along_cons_of_none h)
      | some s' =>
          match hQ s a s', decidableAlong s' as with
          | isTrue hq, isTrue hrest =>
              isTrue ((along_cons_of_step h).mpr ⟨hq, hrest⟩)
          | isFalse hq, _ =>
              isFalse fun hall => hq ((along_cons_of_step h).mp hall).1
          | _, isFalse hrest =>
              isFalse fun hall => hrest ((along_cons_of_step h).mp hall).2

instance {Q : σ → α → σ → Prop} [∀ s a s', Decidable (Q s a s')]
    (s : σ) (as : List α) : Decidable (Along step Q s as) :=
  decidableAlong s as

/-- `P` holds wherever a step is tried: at every state the run comes to,
for the action that is next, whether it is enabled there or not. -/
def Tried (step : σ → α → Option σ) (P : σ → α → Prop) : σ → List α → Prop
  | _, [] => True
  | s, a :: as =>
      P s a ∧ match step s a with
        | some s' => Tried step P s' as
        | none => True

theorem tried_cons_of_step {P : σ → α → Prop} {s s' : σ} {a : α}
    {as : List α} (h : step s a = some s') :
    Tried step P s (a :: as) ↔ P s a ∧ Tried step P s' as := by
  simp only [Tried, h]

theorem tried_cons_of_none {P : σ → α → Prop} {s : σ} {a : α} {as : List α}
    (h : step s a = none) : Tried step P s (a :: as) ↔ P s a := by
  simp only [Tried, h, and_true]

/-- What implies another thing at each state implies it along a run. -/
theorem Tried.mono {P Q : σ → α → Prop} (h : ∀ s a, P s a → Q s a)
    (as : List α) : ∀ {s : σ}, Tried step P s as → Tried step Q s as := by
  induction as with
  | nil => exact fun _ => trivial
  | cons a as ih =>
      intro s hP
      cases hstep : step s a with
      | none =>
          rw [tried_cons_of_none hstep] at hP ⊢
          exact h s a hP
      | some s' =>
          rw [tried_cons_of_step hstep] at hP ⊢
          exact ⟨h s a hP.1, ih hP.2⟩

/-- Under an invariant that every step keeps, what holds at each state
holds wherever a step is tried. -/
theorem tried_of_inv {I : σ → Prop} {P : σ → α → Prop}
    (hinv : ∀ s a s', I s → step s a = some s' → I s')
    (hP : ∀ s a, I s → P s a) (as : List α) :
    ∀ {s : σ}, I s → Tried step P s as := by
  induction as with
  | nil => exact fun _ => trivial
  | cons a as ih =>
      intro s hI
      cases hstep : step s a with
      | none => exact (tried_cons_of_none hstep).mpr (hP s a hI)
      | some s' =>
          exact (tried_cons_of_step hstep).mpr
            ⟨hP s a hI, ih (hinv s a s' hI hstep)⟩

-- ======================================================= the step rules

/-- The invariant rule: under an invariant that `C`-steps preserve, a
run of `C`-steps is a run of `Q`-steps as soon as each single one is. -/
theorem along_of_inv {I : σ → Prop} {C Q : σ → α → σ → Prop}
    (hinv : ∀ s a s', I s → step s a = some s' → C s a s' → I s')
    (hQ : ∀ s a s', I s → step s a = some s' → C s a s' → Q s a s') :
    ∀ {s : σ} {as : List α}, I s → Along step C s as → Along step Q s as := by
  intro s as
  induction as generalizing s with
  | nil => intro _ _; trivial
  | cons a as ih =>
      intro hI hC
      cases hstep : step s a with
      | none => exact along_cons_of_none hstep
      | some s' =>
          obtain ⟨hc, hrest⟩ := (along_cons_of_step hstep).mp hC
          exact (along_cons_of_step hstep).mpr
            ⟨hQ s a s' hI hstep hc, ih (hinv s a s' hI hstep hc) hrest⟩

/-- The exact rule: where, at every single step from an invariant state
that meets `A`, the conclusion `Q` holds exactly when `C` does, the two
hold along the same runs of `A`-steps. -/
theorem along_iff_of_inv {I : σ → Prop} {A C Q : σ → α → σ → Prop}
    (hinv : ∀ s a s', I s → step s a = some s' → A s a s' → C s a s' → I s')
    (hQ : ∀ s a s', I s → step s a = some s' → A s a s' →
      (Q s a s' ↔ C s a s')) :
    ∀ {s : σ} {as : List α}, I s → Along step A s as →
      (Along step Q s as ↔ Along step C s as) := by
  intro s as
  induction as generalizing s with
  | nil => intro _ _; exact Iff.rfl
  | cons a as ih =>
      intro hI hA
      cases hstep : step s a with
      | none =>
          exact iff_of_true (along_cons_of_none hstep)
            (along_cons_of_none hstep)
      | some s' =>
          obtain ⟨ha, hrestA⟩ := (along_cons_of_step hstep).mp hA
          rw [along_cons_of_step hstep, along_cons_of_step hstep,
            hQ s a s' hI hstep ha]
          exact and_congr_right fun hc =>
            ih (hinv s a s' hI hstep ha hc) hrestA

end BenOS.Lib
