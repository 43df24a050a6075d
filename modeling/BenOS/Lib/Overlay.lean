/-
Writing one request after the other over a function.

A request of type `ρ` covers some keys and gives each of them a value.
Where several requests cover a key the last one counts
(`overlay_apply`): the value is what `lastCover` finds, and the old one
where it finds nothing.
-/
import Mathlib.Data.List.Induction

namespace BenOS.Lib

variable {ρ κ α : Type} (covers : ρ → κ → Bool) (value : ρ → κ → α)

/-- One request written over a function. -/
def patch (r : ρ) (f : κ → α) : κ → α :=
  fun k => if covers r k then value r k else f k

/-- The requests, written over a function in their order. -/
def overlay (rs : List ρ) (f : κ → α) : κ → α :=
  rs.foldl (fun g r => patch covers value r g) f

/-- The last request that covers a key. -/
def lastCover (rs : List ρ) (k : κ) : Option ρ :=
  rs.reverse.find? fun r => covers r k

theorem overlay_snoc (rs : List ρ) (r : ρ) (f : κ → α) :
    overlay covers value (rs ++ [r]) f
      = patch covers value r (overlay covers value rs f) := by
  unfold overlay
  rw [List.foldl_append]
  rfl

theorem lastCover_snoc (rs : List ρ) (r : ρ) (k : κ) :
    lastCover covers (rs ++ [r]) k
      = if covers r k then some r else lastCover covers rs k := by
  unfold lastCover
  rw [List.reverse_append, List.reverse_singleton, List.singleton_append,
    List.find?_cons]
  cases covers r k <;> rfl

/-- The value of a key is what its last covering request gives it. -/
theorem overlay_apply (rs : List ρ) (f : κ → α) (k : κ) :
    overlay covers value rs f k
      = (lastCover covers rs k).elim (f k) fun r => value r k := by
  induction rs using List.reverseRecOn with
  | nil => rfl
  | append_singleton rs r ih =>
      rw [overlay_snoc, lastCover_snoc]
      unfold patch
      cases covers r k with
      | true => rfl
      | false => exact ih

theorem lastCover_mem {rs : List ρ} {k : κ} {r : ρ}
    (h : lastCover covers rs k = some r) : r ∈ rs ∧ covers r k = true := by
  unfold lastCover at h
  have hcov := List.find?_some h
  exact ⟨List.mem_reverse.mp (List.mem_of_find?_eq_some h), hcov⟩

end BenOS.Lib
