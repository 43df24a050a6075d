/-
What `strncpy` copies.

`strncpy` is looked at in any address space in which the bytes it writes
are where they should be, whatever those bytes are (`Lands`). Then it
writes no more than the `count` bytes of its buffer (`strncpy_frame`), and
what it writes is the string it is shown (`Shows`), as far as there is
room, with a 0 behind it (`strncpy_shows`).
-/
import Mathlib.Data.List.GetD
import BenOS.Kernel.CopyString

namespace BenOS.Kernel

open Lib Memory

-- ==================================================================== strncpy

section Strncpy

variable {space : Space} {dest src d : Addr} {n : Nat} {m₀ m m' : Bytes}

/-- Two memories differ in the `n` bytes from `d` on at most. -/
def SameOutside (d : Addr) (n : Nat) (m m' : Bytes) : Prop :=
  ∀ x, ¬ InSpan d n x → m' x = m x

/-- The `n` bytes from `dest` on are those from `d` on, whatever they
are. -/
def Lands (space : Space) (m₀ : Bytes) (dest d : Addr) (n : Nat) : Prop :=
  ∀ m, SameOutside d n m₀ m → ∀ i < n,
    space m (dest + BitVec.ofNat 32 i) = some (d + BitVec.ofNat 32 i)

/-- In the kernel's own space every byte is where it should be. -/
theorem lands_kernel (m₀ : Bytes) (phys : Addr) (n : Nat) :
    Lands kernelSpace m₀ phys phys n := fun _ _ _ _ => rfl

theorem inSpan_add {i : Nat} (hi : i < n) (hn : n ≤ 2 ^ 32) :
    InSpan d n (d + BitVec.ofNat 32 i) := by
  unfold InSpan
  rw [add_ofNat_sub d (by omega)]
  exact hi

theorem SameOutside.update (h : SameOutside d n m₀ m) {a : Addr}
    (ha : InSpan d n a) (c : UInt8) :
    SameOutside d n m₀ (Function.update m a c) := by
  intro x hx
  have hne : x ≠ a := fun heq => hx (heq ▸ ha)
  rw [Function.update_of_ne hne]
  exact h x hx

theorem SameOutside.sameOn {a : Addr} {k : Nat} (h : SameOutside d n m m')
    (hapart : SpansApart d n a k) : SameOn a k m m' :=
  fun x hx => h x fun hin => hapart x hin hx

theorem SameOutside.mono {k : Nat} (h : SameOutside d n m m')
    (hle : n ≤ k) : SameOutside d k m m' :=
  fun x hx => h x fun hin => hx (Nat.lt_of_lt_of_le hin hle)

/-- The loop writes where the bytes of `dest` are, and nowhere else. -/
theorem strncpyLoop_frame (hn : n ≤ 2 ^ 32) (hlands : Lands space m₀ dest d n)
    (k : Nat) :
    ∀ {i i' : Nat} {m m' : Bytes}, i + k < n → SameOutside d n m₀ m →
      space.strncpyLoop dest src k i m = some (i', m') →
      i' ≤ i + k ∧ SameOutside d n m₀ m' := by
  induction k with
  | zero =>
      intro i i' m m' _ h hres
      obtain ⟨rfl, rfl⟩ := Prod.mk.inj (Option.some.inj hres)
      exact ⟨Nat.le_refl _, h⟩
  | succ k ih =>
      intro i i' m m' hlt h hres
      obtain ⟨s, -, hres⟩ := Option.bind_eq_some_iff.mp hres
      split at hres
      case isTrue =>
        obtain ⟨rfl, rfl⟩ := Prod.mk.inj (Option.some.inj hres)
        exact ⟨Nat.le_add_right _ _, h⟩
      case isFalse =>
        rw [hlands m h i (by omega)] at hres
        obtain ⟨hle, hsame⟩ := ih (by omega)
          (h.update (inSpan_add (by omega) hn) _) hres
        exact ⟨by omega, hsame⟩

/-- So does `strncpy`. -/
theorem strncpy_frame (hn : n ≤ 2 ^ 32) (hpos : 1 ≤ n)
    (hlands : Lands space m₀ dest d n) (h : SameOutside d n m₀ m)
    (hres : space.strncpy dest src n m = some m') :
    SameOutside d n m₀ m' := by
  obtain ⟨⟨i, m₁⟩, hloop, hres⟩ := Option.bind_eq_some_iff.mp hres
  obtain ⟨hle, hsame⟩ := strncpyLoop_frame hn hlands _ (by omega) h hloop
  simp only at hres
  rw [hlands m₁ hsame i (by omega)] at hres
  rw [← Option.some.inj hres]
  exact hsame.update (inSpan_add (by omega) hn) _

/-- The bytes `cs`, none of them 0, and behind them a 0 unless there are
`k` of them, are at `src`, and stay there whatever is in the `n` bytes
from `d` on. -/
structure Shows (space : Space) (m₀ : Bytes) (src d : Addr) (n k : Nat)
    (cs : List UInt8) : Prop where
  le : cs.length ≤ k
  nonzero : ∀ c ∈ cs, c ≠ 0x00
  byte : ∀ i, i ≤ cs.length → i < k → ∀ m, SameOutside d n m₀ m →
    ∃ a, space m (src + BitVec.ofNat 32 i) = some a ∧ m a = cs.getD i 0x00

/-- One more byte of a list is written. -/
theorem writeList_snoc (m : Bytes) (a : Addr) (cs : List UInt8) (c : UInt8)
    (hlen : cs.length < 2 ^ 32) :
    Function.update (writeList m a cs) (a + BitVec.ofNat 32 cs.length) c
      = writeList m a (cs ++ [c]) := by
  funext x
  have hdist : ∀ k : Nat, k < 2 ^ 32 → ((x - a).toNat = k ↔
      x = a + BitVec.ofNat 32 k) := by
    intro k hk
    constructor
    · intro h
      rw [← h, BitVec.ofNat_toNat, BitVec.setWidth_eq, BitVec.add_comm,
        BitVec.sub_add_cancel]
    · rintro rfl
      exact add_ofNat_sub a hk
  unfold writeList writeBytes
  rw [List.length_append, List.length_singleton]
  by_cases hx : x = a + BitVec.ofNat 32 cs.length
  · have hk := (hdist _ hlen).mpr hx
    rw [hx, Function.update_self, ← hx, if_pos (by omega), hk]
    show c = (cs ++ [c]).getD cs.length 0
    rw [List.getD_append_right _ _ _ _ (Nat.le_refl _), Nat.sub_self]
    rfl
  · have hk : (x - a).toNat ≠ cs.length := fun h => hx ((hdist _ hlen).mp h)
    rw [Function.update_of_ne hx]
    by_cases hlt : (x - a).toNat < cs.length
    · rw [if_pos hlt, if_pos (by omega)]
      exact (List.getD_append _ _ _ _ hlt).symm
    · rw [if_neg hlt, if_neg (by omega)]

theorem writeList_sameOutside (m : Bytes) (d : Addr) {cs : List UInt8}
    (hlen : cs.length ≤ n) : SameOutside d n m (writeList m d cs) :=
  fun _ hx => writeBytes_of_not_inSpan m _ fun hin =>
    hx (Nat.lt_of_lt_of_le hin hlen)

/-- The loop copies what is shown: `todo` is what is left of it. -/
theorem strncpyLoop_shows (hn : n ≤ 2 ^ 32) (hlands : Lands space m₀ dest d n)
    {k : Nat} (hk : k < n) (todo : List UInt8) :
    ∀ {done : List UInt8} {j : Nat}, Shows space m₀ src d n k (done ++ todo) →
      done.length + j = k →
      space.strncpyLoop dest src j done.length (writeList m₀ d done)
        = some ((done ++ todo).length, writeList m₀ d (done ++ todo)) := by
  induction todo with
  | nil =>
      intro done j h hj
      rw [List.append_nil] at h ⊢
      cases j with
      | zero => rfl
      | succ j =>
          -- the loop meets the terminator
          have hle := h.le
          have hsame := writeList_sameOutside m₀ d
            (show done.length ≤ n by omega)
          obtain ⟨a, ha, hbyte⟩ := h.byte done.length (Nat.le_refl _) (by omega)
            _ hsame
          rw [List.getD_eq_default _ _ (Nat.le_refl _)] at hbyte
          rw [Space.strncpyLoop, ha]
          simp only [Option.bind_eq_bind, Option.bind_some]
          rw [if_pos hbyte]
  | cons c todo ih =>
      intro done j h hj
      have hle := h.le
      rw [List.length_append, List.length_cons] at hle
      cases j with
      | zero => omega
      | succ j =>
          have hsame := writeList_sameOutside m₀ d
            (show done.length ≤ n by omega)
          obtain ⟨a, ha, hbyte⟩ := h.byte done.length (by
            rw [List.length_append]
            omega) (by omega) _ hsame
          rw [List.getD_append_right _ _ _ _ (Nat.le_refl _), Nat.sub_self,
            List.getD_cons_zero] at hbyte
          have hc : c ≠ 0x00 := h.nonzero c (List.mem_append_right _
            List.mem_cons_self)
          rw [Space.strncpyLoop, ha]
          simp only [Option.bind_eq_bind, Option.bind_some]
          rw [hbyte, if_neg hc, hlands _ hsame _ (by omega), Option.bind_some,
            writeList_snoc _ _ _ _ (by omega)]
          have hshown : Shows space m₀ src d n k (done ++ [c] ++ todo) := by
            rwa [List.append_assoc]
          have hstep := ih hshown (show (done ++ [c]).length + j = k by
            rw [List.length_append, List.length_singleton]
            omega)
          rw [List.length_append, List.length_singleton, List.append_assoc]
            at hstep
          exact hstep

/-- `strncpy` copies what is shown, and ends it with a 0. -/
theorem strncpy_shows (hn : n ≤ 2 ^ 32) (hpos : 1 ≤ n)
    (hlands : Lands space m₀ dest d n) {cs : List UInt8}
    (h : Shows space m₀ src d n (n - 1) cs) :
    space.strncpy dest src n m₀ = some (writeList m₀ d (cs ++ [0x00])) := by
  have hle := h.le
  have hloop := strncpyLoop_shows hn hlands (by omega) cs
    (show Shows space m₀ src d n (n - 1) ([] ++ cs) from h) (Nat.zero_add _)
  rw [List.nil_append, writeList_nil, List.length_nil] at hloop
  unfold Space.strncpy
  rw [show ((n : Int) - 1).toNat = n - 1 by omega, hloop]
  simp only [Option.bind_eq_bind, Option.bind_some]
  rw [hlands _ (writeList_sameOutside m₀ d (by omega)) _ (by omega),
    Option.bind_some, writeList_snoc _ _ _ _ (by omega)]

end Strncpy

end BenOS.Kernel
