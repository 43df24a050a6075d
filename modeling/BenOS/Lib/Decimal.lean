/-
Decimal numerals of integers, as strings of bytes.

`numeralValue` reads a numeral from the left: an optional minus sign and
decimal digits. `decimal` writes a number by the digits of its magnitude,
the last of which come off by division. What it gives is a canonical
numeral (`decimal_canonical`), and numbers with one are equal
(`Canonical.inj`).
-/
import Mathlib.Data.Nat.Digits.Defs
import Mathlib.Tactic.IntervalCases

namespace BenOS.Lib

-- ============================================================== reading one

/-- The byte of a decimal digit. -/
def digitByte (d : Nat) : UInt8 := UInt8.ofNat (48 + d)

/-- The value of a string of digits; there is none where another byte
stands among them. -/
def digitsValue (cs : List UInt8) : Option Nat :=
  cs.foldl (fun acc c => acc.bind fun v =>
    if 0x30 ≤ c ∧ c ≤ 0x39 then some (10 * v + (c.toNat - 48)) else none)
    (some 0)

/-- The digits of a numeral, without the sign. -/
def magnitude : List UInt8 → List UInt8
  | [] => []
  | c :: cs => if c = 0x2D then cs else c :: cs

/-- The value of a numeral. -/
def numeralValue (cs : List UInt8) : Option Int :=
  (digitsValue (magnitude cs)).map fun n : Nat =>
    if cs.head? = some 0x2D then -(n : Int) else n

/-- A canonical numeral of a number: it has its value, a sign exactly where
that is negative, at least one digit, and no leading zero. -/
structure Canonical (cs : List UInt8) (i : Int) : Prop where
  value : numeralValue cs = some i
  sign : cs.head? = some 0x2D ↔ i < 0
  digit : magnitude cs ≠ []
  leading : (magnitude cs).head? = some 0x30 → magnitude cs = [0x30]

-- ============================================================== writing one

/-- The numeral of a natural number. -/
def decimalNat (n : Nat) : List UInt8 :=
  if n = 0 then [0x30] else ((Nat.digits 10 n).map digitByte).reverse

/-- The numeral of an integer. -/
def decimal (i : Int) : List UInt8 :=
  if i < 0 then 0x2D :: decimalNat i.natAbs else decimalNat i.natAbs

theorem digitByte_facts {d : Nat} (hd : d < 10) :
    0x30 ≤ digitByte d ∧ digitByte d ≤ 0x39 ∧ (digitByte d).toNat = 48 + d
      ∧ digitByte d ≠ 0x2D := by
  interval_cases d
  all_goals decide

/-- A numeral is that of the number without its last digit, and the last
digit. -/
theorem decimalNat_eq (n : Nat) :
    decimalNat n
      = (if n < 10 then [] else decimalNat (n / 10)) ++ [digitByte (n % 10)] := by
  unfold decimalNat
  by_cases hzero : n = 0
  · subst hzero
    rfl
  · rw [if_neg hzero, Nat.digits_eq_cons_digits_div (by decide) hzero,
      List.map_cons, List.reverse_cons]
    by_cases hlt : n < 10
    · rw [if_pos hlt, Nat.div_eq_of_lt hlt, Nat.digits_zero]
      rfl
    · rw [if_neg hlt, if_neg (by omega)]

theorem digitsValue_concat (cs : List UInt8) (c : UInt8) :
    digitsValue (cs ++ [c]) = (digitsValue cs).bind fun v =>
      if 0x30 ≤ c ∧ c ≤ 0x39 then some (10 * v + (c.toNat - 48)) else none := by
  unfold digitsValue
  rw [List.foldl_append]
  rfl

/-- A numeral has the value of its number. -/
theorem digitsValue_decimalNat (n : Nat) :
    digitsValue (decimalNat n) = some n := by
  induction n using Nat.strong_induction_on with
  | _ n ih =>
      obtain ⟨hge, hle, hnat, -⟩ := digitByte_facts (Nat.mod_lt n (by decide))
      rw [decimalNat_eq, digitsValue_concat]
      by_cases hlt : n < 10
      · rw [if_pos hlt]
        show (if _ then _ else _) = _
        rw [if_pos ⟨hge, hle⟩, hnat, Nat.mod_eq_of_lt hlt]
        congr 1
        omega
      · rw [if_neg hlt, ih (n / 10) (by omega), Option.bind_some,
          if_pos ⟨hge, hle⟩, hnat]
        congr 1
        omega

theorem decimalNat_ne_nil (n : Nat) : decimalNat n ≠ [] := by
  rw [decimalNat_eq]
  exact List.append_ne_nil_of_right_ne_nil _ (List.cons_ne_nil _ _)

/-- A numeral begins with the digits of the number without its last
digit. -/
theorem head?_decimalNat {n : Nat} (h : ¬ n < 10) :
    (decimalNat n).head? = (decimalNat (n / 10)).head? := by
  rw [decimalNat_eq n, if_neg h]
  cases hcs : decimalNat (n / 10) with
  | nil => exact absurd hcs (decimalNat_ne_nil _)
  | cons c cs => rfl

/-- It begins with a digit, and with a zero for zero only. -/
theorem decimalNat_head (n : Nat) :
    (decimalNat n).head? ≠ some 0x2D
      ∧ ((decimalNat n).head? = some 0x30 → n = 0) := by
  induction n using Nat.strong_induction_on with
  | _ n ih =>
      by_cases hlt : n < 10
      · have hone : decimalNat n = [digitByte n] := by
          rw [decimalNat_eq, if_pos hlt, Nat.mod_eq_of_lt hlt, List.nil_append]
        obtain ⟨-, -, hnat, hminus⟩ := digitByte_facts hlt
        rw [hone]
        refine ⟨fun h => hminus (Option.some.inj h), fun h => ?_⟩
        rw [Option.some.inj h] at hnat
        have hzero : (0x30 : UInt8).toNat = 48 := by decide
        omega
      · obtain ⟨hminus, hzero⟩ := ih (n / 10) (by omega)
        rw [head?_decimalNat hlt]
        refine ⟨hminus, fun h => ?_⟩
        have := hzero h
        omega

-- ================================================================ the numeral

theorem magnitude_decimal (i : Int) :
    magnitude (decimal i) = decimalNat i.natAbs := by
  unfold decimal
  by_cases hneg : i < 0
  · rw [if_pos hneg]
    rfl
  · rw [if_neg hneg]
    have hhead := (decimalNat_head i.natAbs).1
    cases hcs : decimalNat i.natAbs with
    | nil => rfl
    | cons c cs =>
        rw [hcs] at hhead
        exact if_neg fun h => hhead (congrArg some h)

theorem head?_decimal (i : Int) :
    (decimal i).head? = some 0x2D ↔ i < 0 := by
  unfold decimal
  by_cases hneg : i < 0
  · rw [if_pos hneg]
    exact iff_of_true rfl hneg
  · rw [if_neg hneg]
    exact iff_of_false (decimalNat_head i.natAbs).1 hneg

/-- What a number is written as is a canonical numeral of it. -/
theorem decimal_canonical (i : Int) : Canonical (decimal i) i := by
  refine ⟨?_, head?_decimal i, ?_, fun h => ?_⟩
  · unfold numeralValue
    rw [magnitude_decimal, digitsValue_decimalNat, Option.map_some]
    congr 1
    by_cases hneg : i < 0
    · rw [if_pos ((head?_decimal i).mpr hneg)]
      omega
    · rw [if_neg fun h => hneg ((head?_decimal i).mp h)]
      omega
  · rw [magnitude_decimal]
    exact decimalNat_ne_nil _
  · rw [magnitude_decimal] at h ⊢
    rw [(decimalNat_head _).2 h]
    rfl

/-- Numbers with one canonical numeral are one. -/
theorem Canonical.inj {cs : List UInt8} {i j : Int} (hi : Canonical cs i)
    (hj : Canonical cs j) : i = j :=
  Option.some.inj (hi.value.symm.trans hj.value)

end BenOS.Lib
