/-
What the FAT code keeps of the heap.

The code frees pointers it was given by the allocator and no others, in
whatever order and however often. So a property of the heap that every
request keeps, and every release of a pointer with a property all answers
have, is kept by all of it (`Keeps`).
-/
import BenOS.Fat.Dir

namespace BenOS.Fat

open Lib Disk

variable {σ : Type}

/-- The calls of an allocator keep `I`: requests always, and their answers
have `C`; releases of null and of a pointer with `C`. -/
structure Keeps (al : Allocator σ) (I : σ → Prop) (C : Addr → Prop) :
    Prop where
  kzalloc : ∀ n s, I s →
    I (al.kzalloc n s).2 ∧ ∀ a, (al.kzalloc n s).1 = some a → C a
  kfree : ∀ p s, I s → (∀ a, p = some a → C a) → I (al.kfree p s)

/-- The blocks a pointer to a directory stands on have a property. -/
def DirPtr.All (C : Addr → Prop) : DirPtr → Prop
  | .null => True
  | .freed _ => True
  | .live addr items _ => C addr ∧ C items

/-- The blocks of an item have a property. -/
def FatItem.All (C : Addr → Prop) : FatItem → Prop
  | .dir addr ptr => C addr ∧ ptr.All C
  | .file addr item => C addr ∧ ∀ a, item = some a → C a.1

variable {al : Allocator σ} {I : σ → Prop} {C : Addr → Prop} {vol : Volume}
  {s s' : σ}

section

variable (h : Keeps al I C)

include h

theorem Keeps.kfree_some {a : Addr} (hI : I s) (hC : C a) :
    I (al.kfree (some a) s) :=
  h.kfree (some a) s hI fun _ hb => Option.some.inj hb ▸ hC

theorem Keeps.itemFree {item : FatItem} (hI : I s) (hC : item.All C)
    (hres : fat16FatItemFree al item s = some s') : I s' := by
  cases item with
  | dir addr dir =>
      obtain ⟨haddr, hdir⟩ := hC
      unfold fat16FatItemFree at hres
      obtain ⟨s₁, hfree, heq⟩ := Option.bind_eq_some_iff.mp hres
      rw [← Option.some.inj heq]
      refine h.kfree_some ?_ haddr
      cases dir with
      | null => rw [← Option.some.inj hfree]; exact hI
      | freed a => cases hfree
      | live a items d =>
          rw [← Option.some.inj hfree]
          exact h.kfree_some (h.kfree_some hI hdir.2) hdir.1
  | file addr item =>
      obtain ⟨haddr, hitem⟩ := hC
      unfold fat16FatItemFree at hres
      rw [← Option.some.inj hres]
      refine h.kfree_some (h.kfree _ s hI fun a ha => ?_) haddr
      obtain ⟨x, hx, hxa⟩ := Option.map_eq_some_iff.mp ha
      rw [← hxa]
      exact hitem x hx

theorem Keeps.loadDir {item : FatDirItem} {dir : DirPtr} (hI : I s)
    (hres : fat16LoadFatDir al vol item s = some (dir, s')) :
    I s' ∧ dir.All C := by
  unfold fat16LoadFatDir at hres
  split at hres
  case isTrue =>
    obtain ⟨rfl, rfl⟩ := Prod.mk.inj (Option.some.inj hres)
    exact ⟨hI, trivial⟩
  case isFalse =>
    obtain ⟨hI₁, hC₁⟩ := h.kzalloc sizeofFatDir s hI
    generalize al.kzalloc sizeofFatDir s = q at hres hI₁ hC₁
    obtain ⟨ptr, s₁⟩ := q
    cases ptr with
    | none =>
        obtain ⟨rfl, rfl⟩ := Prod.mk.inj (Option.some.inj hres)
        exact ⟨hI₁, trivial⟩
    | some addr =>
        simp only at hres hI₁ hC₁
        obtain ⟨total, -, hres⟩ := Option.bind_eq_some_iff.mp hres
        obtain ⟨hI₂, hC₂⟩ := h.kzalloc
          (toUint32 (toInt32 (total * sizeofFatDirItem))).toNat s₁ hI₁
        generalize al.kzalloc
          (toUint32 (toInt32 (total * sizeofFatDirItem))).toNat s₁ = q
          at hres hI₂ hC₂
        obtain ⟨ptr, s₂⟩ := q
        have haddr := hC₁ addr rfl
        cases ptr with
        | none =>
            obtain ⟨rfl, rfl⟩ := Prod.mk.inj (Option.some.inj hres)
            exact ⟨h.kfree_some hI₂ haddr, trivial⟩
        | some items =>
            simp only at hres hI₂ hC₂
            have hitems := hC₂ items rfl
            obtain ⟨read, -, hres⟩ := Option.bind_eq_some_iff.mp hres
            split at hres
            case isTrue =>
              obtain ⟨rfl, rfl⟩ := Prod.mk.inj (Option.some.inj hres)
              exact ⟨h.kfree_some (h.kfree_some hI₂ hitems) haddr, trivial⟩
            case isFalse =>
              obtain ⟨rfl, rfl⟩ := Prod.mk.inj (Option.some.inj hres)
              exact ⟨hI₂, haddr, hitems⟩

theorem Keeps.newItem {item : FatDirItem} {found : Option FatItem} (hI : I s)
    (hres : fat16NewFatItemForDirItem al vol item s = some (found, s')) :
    I s' ∧ ∀ f, found = some f → f.All C := by
  unfold fat16NewFatItemForDirItem at hres
  obtain ⟨hI₁, hC₁⟩ := h.kzalloc sizeofFatItem s hI
  generalize al.kzalloc sizeofFatItem s = q at hres hI₁ hC₁
  obtain ⟨ptr, s₁⟩ := q
  cases ptr with
  | none =>
      obtain ⟨rfl, rfl⟩ := Prod.mk.inj (Option.some.inj hres)
      exact ⟨hI₁, fun f hf => by cases hf⟩
  | some addr =>
      simp only at hres hI₁ hC₁
      have haddr := hC₁ addr rfl
      split at hres
      case isTrue =>
        obtain ⟨r, hload, hres⟩ := Option.bind_eq_some_iff.mp hres
        obtain ⟨dir, s₂⟩ := r
        obtain ⟨hI₂, hdir⟩ := h.loadDir hI₁ hload
        obtain ⟨rfl, rfl⟩ := Prod.mk.inj (Option.some.inj hres)
        refine ⟨hI₂, fun f hf => ?_⟩
        rw [← Option.some.inj hf]
        exact ⟨haddr, hdir⟩
      case isFalse =>
        obtain ⟨hI₂, hC₂⟩ := h.kzalloc sizeofFatDirItem s₁ hI₁
        unfold fat16CloneDirItem at hres
        generalize al.kzalloc sizeofFatDirItem s₁ = q at hres hI₂ hC₂
        obtain ⟨ptr, s₂⟩ := q
        cases ptr with
        | none =>
            obtain ⟨rfl, rfl⟩ := Prod.mk.inj (Option.some.inj hres)
            refine ⟨hI₂, fun f hf => ?_⟩
            rw [← Option.some.inj hf]
            exact ⟨haddr, fun a ha => by cases ha⟩
        | some clone =>
            obtain ⟨rfl, rfl⟩ := Prod.mk.inj (Option.some.inj hres)
            refine ⟨hI₂, fun f hf => ?_⟩
            rw [← Option.some.inj hf]
            refine ⟨haddr, fun a ha => ?_⟩
            rw [← Option.some.inj ha]
            exact hC₂ clone rfl

theorem Keeps.findLoop {items : List FatDirItem} {name : List UInt8} (k : Nat) :
    ∀ {i : Nat} {found found' : Option FatItem} {s s' : σ}, I s →
      (∀ f, found = some f → f.All C) →
      fat16FindLoop al vol items name k i found s = some (found', s') →
      I s' ∧ ∀ f, found' = some f → f.All C := by
  induction k with
  | zero =>
      intro i found found' s s' hI hC hres
      obtain ⟨rfl, rfl⟩ := Prod.mk.inj (Option.some.inj hres)
      exact ⟨hI, hC⟩
  | succ k ih =>
      intro i found found' s s' hI hC hres
      rw [fat16FindLoop] at hres
      obtain ⟨item, -, hres⟩ := Option.bind_eq_some_iff.mp hres
      split at hres
      case isTrue =>
        obtain ⟨r, hnew, hres⟩ := Option.bind_eq_some_iff.mp hres
        obtain ⟨f, s₁⟩ := r
        obtain ⟨hI₁, hC₁⟩ := h.newItem hI hnew
        exact ih hI₁ hC₁ hres
      case isFalse => exact ih hI hC hres

theorem Keeps.findItem {dir : DirPtr} {name : List UInt8}
    {found : Option FatItem} (hI : I s)
    (hres : fat16FindItemInDirPtr al vol dir name s = some (found, s')) :
    I s' ∧ ∀ f, found = some f → f.All C := by
  cases dir with
  | null => cases hres
  | freed a => cases hres
  | live a items d =>
      exact h.findLoop _ hI (fun f hf => by cases hf) hres

theorem Keeps.walkLoop {parts : List (List UInt8)} :
    ∀ {curr found : Option FatItem} {s s' : σ}, I s →
      (∀ f, curr = some f → f.All C) →
      fat16WalkLoop al vol parts curr s = some (found, s') →
      I s' ∧ ∀ f, found = some f → f.All C := by
  induction parts with
  | nil =>
      intro curr found s s' hI hC hres
      obtain ⟨rfl, rfl⟩ := Prod.mk.inj (Option.some.inj hres)
      exact ⟨hI, hC⟩
  | cons part parts ih =>
      intro curr found s s' hI hC hres
      cases curr with
      | none => cases hres
      | some curr =>
          cases curr with
          | file addr item =>
              obtain ⟨rfl, rfl⟩ := Prod.mk.inj (Option.some.inj hres)
              exact ⟨hI, fun f hf => by cases hf⟩
          | dir addr dir =>
              rw [fat16WalkLoop] at hres
              obtain ⟨r, hfind, hres⟩ := Option.bind_eq_some_iff.mp hres
              obtain ⟨tmp, s₁⟩ := r
              obtain ⟨s₂, hfree, hres⟩ := Option.bind_eq_some_iff.mp hres
              obtain ⟨hI₁, hC₁⟩ := h.findItem hI hfind
              exact ih (h.itemFree hI₁ (hC _ rfl) hfree) hC₁ hres

/-- `fat16_get_dir_entry` keeps what the allocator keeps. -/
theorem Keeps.getDirEntry {part : List UInt8} {next : List (List UInt8)}
    {found : Option FatItem} (hI : I s)
    (hres : fat16GetDirEntry al vol part next s = some (found, s')) :
    I s' ∧ ∀ f, found = some f → f.All C := by
  unfold fat16GetDirEntry at hres
  obtain ⟨r, hfind, hres⟩ := Option.bind_eq_some_iff.mp hres
  obtain ⟨root, s₁⟩ := r
  obtain ⟨hI₁, hC₁⟩ := h.findLoop _ hI (fun f hf => by cases hf) hfind
  cases root with
  | none =>
      obtain ⟨rfl, rfl⟩ := Prod.mk.inj (Option.some.inj hres)
      exact ⟨hI₁, hC₁⟩
  | some root => exact h.walkLoop hI₁ hC₁ hres

end

end BenOS.Fat
