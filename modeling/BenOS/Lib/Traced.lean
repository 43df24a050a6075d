/-
Values computed together with a log of what was looked at on the way.

A function that reads a memory returns `Traced β α`: its result, and one
entry of type `β` for each read it makes, in order. The log is only ever
extended (`log_bind`), so what a whole computation looks at is what its
parts look at, one after the other.
-/
import Mathlib.Control.Monad.Basic
import BenOS.Lib.Run

namespace BenOS.Lib

/-- A result with the log of the reads it took. -/
structure Traced (β α : Type) where
  val : α
  log : List β

namespace Traced

variable {α β γ : Type}

/-- A computation that reads once. -/
def look (b : β) (a : α) : Traced β α := ⟨a, [b]⟩

instance : Monad (Traced β) where
  pure a := ⟨a, []⟩
  bind x f := ⟨(f x.val).val, x.log ++ (f x.val).log⟩

@[simp] theorem val_pure (a : α) : (pure a : Traced β α).val = a := rfl

@[simp] theorem log_pure (a : α) : (pure a : Traced β α).log = [] := rfl

@[simp] theorem val_bind (x : Traced β α) (f : α → Traced β γ) :
    (x >>= f).val = (f x.val).val := rfl

@[simp] theorem log_bind (x : Traced β α) (f : α → Traced β γ) :
    (x >>= f).log = x.log ++ (f x.val).log := rfl

@[simp] theorem val_look (b : β) (a : α) : (look b a).val = a := rfl

@[simp] theorem log_look (b : β) (a : α) : (look b a).log = [b] := rfl

/-- The laws of a monad; no instance, so that `simp` keeps sequences as
they are written. -/
theorem lawfulMonad : LawfulMonad (Traced β) := LawfulMonad.mk' _
  (fun _ => by simp [Functor.map])
  (fun _ _ => by simp [bind, pure])
  (fun _ _ _ => by simp [bind])

@[simp] theorem val_ite (p : Prop) [Decidable p] (x y : Traced β α) :
    (if p then x else y).val = if p then x.val else y.val := by
  split <;> rfl

/-- Every entry of the log satisfies `P`. -/
def Logs (P : β → Prop) (x : Traced β α) : Prop := ∀ b ∈ x.log, P b

section Logs

variable {P : β → Prop}

theorem logs_pure (a : α) : Logs P (pure a : Traced β α) :=
  fun _ hb => absurd hb (List.not_mem_nil)

theorem logs_look {b : β} (hb : P b) (a : α) : Logs P (look b a) :=
  fun _ hmem => List.mem_singleton.mp hmem ▸ hb

theorem logs_look_iff {b : β} {a : α} : Logs P (look b a) ↔ P b :=
  ⟨fun h => h b (List.mem_singleton.mpr rfl), fun hb => logs_look hb a⟩

/-- The reads of a sequence are those of its first part and those of the
part that its result leads to. -/
theorem logs_bind_iff {x : Traced β α} {f : α → Traced β γ} :
    Logs P (x >>= f) ↔ Logs P x ∧ Logs P (f x.val) := by
  constructor
  · intro h
    exact ⟨fun b hb => h b (List.mem_append_left _ hb),
      fun b hb => h b (List.mem_append_right _ hb)⟩
  · intro h b hb
    obtain ⟨hx, hf⟩ := h
    rcases List.mem_append.mp hb with hb | hb
    · exact hx b hb
    · exact hf b hb

theorem logs_bind {x : Traced β α} {f : α → Traced β γ} (hx : Logs P x)
    (hf : Logs P (f x.val)) : Logs P (x >>= f) :=
  logs_bind_iff.mpr ⟨hx, hf⟩

/-- What a loop over a list looks at is what its rounds look at, each from
the state the rounds before it lead to. -/
theorem logs_foldlM_iff {σ : Type} {f : σ → γ → Traced β σ} (l : List γ) :
    ∀ s : σ, Logs P (l.foldlM f s)
      ↔ Along (fun s a => some (f s a).val) (fun s a _ => Logs P (f s a))
          s l := by
  induction l with
  | nil => exact fun s => iff_of_true (logs_pure s) trivial
  | cons a l ih =>
      intro s
      rw [List.foldlM_cons, logs_bind_iff, ih (f s a).val,
        along_cons_of_step rfl]

/-- A loop looks at nothing but what its rounds may look at. -/
theorem logs_foldlM {σ : Type} {f : σ → γ → Traced β σ} (l : List γ)
    (h : ∀ a ∈ l, ∀ s, Logs P (f s a)) : ∀ s, Logs P (l.foldlM f s) := by
  induction l with
  | nil => exact fun s => logs_pure s
  | cons a l ih =>
      intro s
      rw [List.foldlM_cons]
      exact logs_bind (h a List.mem_cons_self s)
        (ih (fun b hb => h b (List.mem_cons_of_mem a hb)) _)

/-- What every round of a loop keeps, the loop keeps. -/
theorem val_foldlM_inv {σ : Type} {I : σ → Prop} {f : σ → γ → Traced β σ}
    (l : List γ) (hinv : ∀ a ∈ l, ∀ s, I s → I (f s a).val) :
    ∀ s : σ, I s → I (l.foldlM f s).val := by
  induction l with
  | nil => exact fun _ h => h
  | cons a l ih =>
      intro s h
      rw [List.foldlM_cons, val_bind]
      exact ih (fun b hb => hinv b (List.mem_cons_of_mem a hb)) _
        (hinv a List.mem_cons_self s h)

end Logs

-- =================================================== two computations alike

/-- Two computations look at the same places, one after the other, and
have related results, where the second looks at nothing but what
satisfies `P`. -/
def Sim {δ : Type} (P : β → Prop) (R : α → δ → Prop) (x : Traced β α)
    (y : Traced β δ) : Prop :=
  Logs P y → x.log = y.log ∧ R x.val y.val

section Sim

variable {δ ε : Type} {P : β → Prop} {R : α → δ → Prop} {S : γ → ε → Prop}

theorem sim_pure {a : α} {d : δ} (h : R a d) :
    Sim P R (pure a : Traced β α) (pure d) :=
  fun _ => ⟨rfl, h⟩

theorem sim_look {b : β} {a : α} {d : δ} (h : P b → R a d) :
    Sim P R (look b a) (look b d) :=
  fun hP => ⟨rfl, h (logs_look_iff.mp hP)⟩

/-- Alike parts make alike sequences. -/
theorem sim_bind {x : Traced β α} {y : Traced β δ} {f : α → Traced β γ}
    {g : δ → Traced β ε} (hx : Sim P R x y)
    (hf : ∀ a d, R a d → Sim P S (f a) (g d)) :
    Sim P S (x >>= f) (y >>= g) := by
  intro hP
  obtain ⟨hy, hg⟩ := logs_bind_iff.mp hP
  obtain ⟨hlog, hval⟩ := hx hy
  obtain ⟨hlog', hval'⟩ := hf _ _ hval hg
  refine ⟨?_, hval'⟩
  rw [log_bind, log_bind, hlog, hlog']

end Sim

end Traced

end BenOS.Lib
