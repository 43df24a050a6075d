/-
What `itoa` writes.

The loop works on the negated number, whose remainders are the negated
digits, so that the least `int` needs no negation. It puts the digits in
front of what is there (`itoaLoop_spec`, by induction on the place); ten
of them and a sign leave the buffer just filled.
-/
import Mathlib.Data.Nat.Digits.Lemmas
import BenOS.Lib.Decimal
import BenOS.Stdlib.Itoa
import BenOS.Stdlib.Proofs.Strtok

namespace BenOS.Stdlib

open Lib

-- ================================================================== the stores

theorem checkedInt_of_range {x : Int} (hge : -2147483648 ≤ x)
    (hlt : x < 2147483648) : checkedInt x = some x := if_pos ⟨hge, hlt⟩

/-- A character in front of a string. -/
theorem IsStr.store {text : Nat → UInt8} {loc : Nat} {cs : List UInt8}
    (h : IsStr text (loc + 1) cs) {c : UInt8} (hc : c ≠ 0x00) :
    IsStr (Function.update text loc c) loc (c :: cs) := by
  refine ⟨hc, Function.update_self _ _ _, ?_⟩
  apply IsStr.congr cs _ h
  intro i hi
  exact Function.update_of_ne (Nat.ne_of_gt hi) _ _

/-- The loop puts the digits of the number in front of what is there. -/
theorem itoaLoop_spec (loc : Nat) :
    ∀ {n : Nat} {text : Nat → UInt8} {cs : List UInt8}, n ≤ 2147483648 →
      IsStr text loc cs → (Nat.digits 10 n).length ≤ loc →
      ∃ loc' text', itoaLoop loc (-(n : Int)) text = some (loc', text')
        ∧ loc' + (Nat.digits 10 n).length = loc
        ∧ IsStr text' loc' (((Nat.digits 10 n).map digitByte).reverse ++ cs)
        ∧ ∀ j, loc ≤ j → text' j = text j := by
  induction loc with
  | zero =>
      intro n text cs _ hcs hlen
      have hzero : n = 0 :=
        Nat.digits_eq_nil_iff_eq_zero.mp (List.eq_nil_of_length_eq_zero
          (Nat.le_zero.mp hlen))
      subst hzero
      exact ⟨0, text, rfl, by rw [Nat.digits_zero]; rfl,
        by rw [Nat.digits_zero]; exact hcs, fun _ _ => rfl⟩
  | succ loc ih =>
      intro n text cs hn hcs hlen
      rw [itoaLoop]
      by_cases hzero : n = 0
      · subst hzero
        exact ⟨loc + 1, text, rfl, by rw [Nat.digits_zero]; rfl,
          by rw [Nat.digits_zero]; exact hcs, fun _ _ => rfl⟩
      · have hdigit : 0x30 - (-(n : Int)).tmod 10
            = ((48 + n % 10 : Nat) : Int) := by
          rw [Int.neg_tmod, Int.tmod_eq_emod_of_nonneg (Int.natCast_nonneg n)]
          omega
        have hrest : (-(n : Int)).tdiv 10 = -((n / 10 : Nat) : Int) := by
          rw [Int.neg_tdiv, Int.tdiv_eq_ediv_of_nonneg (Int.natCast_nonneg n)]
          rfl
        have hbyte : UInt8.ofInt ((48 + n % 10 : Nat) : Int)
            = digitByte (n % 10) := by
          unfold UInt8.ofInt digitByte
          congr 1
          omega
        rw [if_neg (by omega), hdigit, hrest,
          checkedInt_of_range (by omega) (by omega),
          checkedInt_of_range (by omega) (by omega)]
        simp only [Option.bind_eq_bind, Option.bind_some, hbyte]
        rw [Nat.digits_eq_cons_digits_div (by decide) hzero,
          List.length_cons] at hlen ⊢
        have hne : digitByte (n % 10) ≠ 0x00 := by
          intro heq
          have hge := (digitByte_facts (Nat.mod_lt n (by decide))).1
          rw [heq] at hge
          exact absurd hge (by decide)
        obtain ⟨loc', text', hloop, hplace, hstr, hsame⟩ :=
          ih (n := n / 10) (by omega) (hcs.store hne) (by omega)
        refine ⟨loc', text', hloop, by omega, ?_, fun j hj => ?_⟩
        · rw [List.map_cons, List.reverse_cons, List.append_assoc]
          exact hstr
        · rw [hsame j (Nat.le_of_succ_le hj)]
          exact Function.update_of_ne (Nat.ne_of_gt hj) _ _

-- =================================================================== the call

/-- What the call leaves: the numeral of the number, with its NUL, in the
buffer from `loc` on, and nothing written behind the buffer. -/
structure Spells (cs : List UInt8) (text : Nat → UInt8) (loc : Nat)
    (text' : Nat → UInt8) : Prop where
  inside : loc + cs.length < textSize
  string : IsStr text' loc cs
  outside : ∀ j, textSize ≤ j → text' j = text j

theorem length_decimalNat {n : Nat} (h : n ≤ 2147483648) :
    (decimalNat n).length ≤ 10 := by
  unfold decimalNat
  by_cases hzero : n = 0
  · rw [if_pos hzero]
    decide
  · rw [if_neg hzero, List.length_reverse, List.length_map,
      Nat.digits_length_le_iff (by decide)]
    omega

/-- From the loop on: the digits of the number, or a zero. -/
theorem itoaDigits_spec {n : Nat} (hn : n ≤ 2147483648)
    {text : Nat → UInt8} (hend : text 11 = 0x00) :
    ∃ loc text', (itoaLoop 11 (-(n : Int)) text).bind (fun r =>
          if r.1 = 11 then storeBefore r.1 0x30 r.2 else some (r.1, r.2))
        = some (loc, text')
      ∧ loc + (decimalNat n).length = 11 ∧ IsStr text' loc (decimalNat n)
      ∧ ∀ j, 11 ≤ j → text' j = text j := by
  have hlen := length_decimalNat hn
  by_cases hzero : n = 0
  · subst hzero
    refine ⟨10, Function.update text 10 0x30, rfl, rfl, ?_, fun j hj => ?_⟩
    · exact @IsStr.store text 10 [] hend 0x30 (by decide)
    · exact Function.update_of_ne (Nat.ne_of_gt hj) _ _
  · have hdecimal : decimalNat n
        = ((Nat.digits 10 n).map digitByte).reverse ++ [] := by
      rw [List.append_nil]
      exact if_neg hzero
    have hcount : (decimalNat n).length = (Nat.digits 10 n).length := by
      rw [hdecimal, List.append_nil, List.length_reverse, List.length_map]
    have hsome : (Nat.digits 10 n).length ≠ 0 := fun h =>
      hzero (Nat.digits_eq_nil_iff_eq_zero.mp (List.eq_nil_of_length_eq_zero h))
    obtain ⟨loc, text', hloop, hplace, hstr, hsame⟩ :=
      @itoaLoop_spec 11 n text [] hn hend (by omega)
    refine ⟨loc, text', ?_, by omega, ?_, hsame⟩
    · rw [hloop, Option.bind_some, if_neg (by omega)]
    · rw [hdecimal]
      exact hstr

/-- The call spells the number out. -/
theorem itoa_decimal {i : Int} (hge : -2147483648 ≤ i) (hlt : i < 2147483648)
    (text : Nat → UInt8) :
    ∃ loc text', itoa i text = some (loc, text')
      ∧ Spells (decimal i) text loc text' := by
  have hnegated : (if i ≥ 0 then checkedInt (-i) else some i)
      = some (-(i.natAbs : Int)) := by
    by_cases hpos : i ≥ 0
    · rw [if_pos hpos, checkedInt_of_range (by omega) (by omega)]
      congr 1
      omega
    · rw [if_neg hpos]
      congr 1
      omega
  obtain ⟨loc, text', hdigits, hplace, hstr, hsame⟩ :=
    itoaDigits_spec (n := i.natAbs) (by omega)
      (Function.update_self 11 (0x00 : UInt8) text)
  have hlen := length_decimalNat (n := i.natAbs) (by omega)
  have hkeep : ∀ j, textSize ≤ j → text' j = text j := by
    intro j hj
    unfold textSize at hj
    rw [hsame j (by omega)]
    exact Function.update_of_ne (by omega) _ _
  have hcall : itoa i text
      = if !decide (i ≥ 0) then storeBefore loc 0x2D text'
        else some (loc, text') := by
    obtain ⟨r, hloop, hr⟩ := Option.bind_eq_some_iff.mp hdigits
    unfold itoa
    simp only [Option.bind_eq_bind]
    -- what comes behind the digits, whichever way they were come to
    have hrest : ∀ k : Nat × (Nat → UInt8) → Option (Nat × (Nat → UInt8)),
        (if r.1 = 11 then (storeBefore r.1 0x30 r.2).bind k else k (r.1, r.2))
          = k (loc, text') := by
      intro k
      by_cases h11 : r.1 = 11
      · rw [if_pos h11] at hr ⊢
        rw [hr, Option.bind_some]
      · rw [if_neg h11] at hr ⊢
        rw [Option.some.inj hr]
    by_cases hpos : i ≥ 0
    · rw [if_pos hpos] at hnegated ⊢
      rw [hnegated, Option.bind_some, hloop, Option.bind_some]
      exact hrest _
    · rw [if_neg hpos] at hnegated ⊢
      rw [hnegated, Option.bind_some, hloop, Option.bind_some]
      exact hrest _
  by_cases hneg : i < 0
  · have hdec : decimal i = 0x2D :: decimalNat i.natAbs := if_pos hneg
    obtain ⟨loc, rfl⟩ : ∃ k, loc = k + 1 := ⟨loc - 1, by omega⟩
    refine ⟨loc, Function.update text' loc 0x2D, ?_, ?_⟩
    · rw [hcall, if_pos (by simpa using hneg)]
      rfl
    · rw [hdec]
      refine ⟨?_, hstr.store (by decide), fun j hj => ?_⟩
      · rw [List.length_cons]
        unfold textSize
        omega
      · unfold textSize at hj
        rw [Function.update_of_ne (by omega)]
        exact hkeep j hj
  · have hdec : decimal i = decimalNat i.natAbs := if_neg hneg
    refine ⟨loc, text', ?_, ?_⟩
    · rw [hcall, if_neg (by simpa using hneg)]
    · rw [hdec]
      refine ⟨?_, hstr, hkeep⟩
      unfold textSize
      omega

/-- For every `int` the call succeeds, no operation on it overflows, and
the buffer holds a canonical numeral of it, another for each number. -/
theorem itoa_exact {i : Int} (hge : -2147483648 ≤ i) (hlt : i < 2147483648)
    (text : Nat → UInt8) :
    ∃ loc text' cs, itoa i text = some (loc, text')
      ∧ Spells cs text loc text' ∧ Canonical cs i
      ∧ ∀ j textj locj textj', -2147483648 ≤ j → j < 2147483648 →
          itoa j textj = some (locj, textj') → IsStr textj' locj cs →
          j = i := by
  obtain ⟨loc, text', hcall, hspells⟩ := itoa_decimal hge hlt text
  refine ⟨loc, text', decimal i, hcall, hspells, decimal_canonical i, ?_⟩
  intro j textj locj textj' hgej hltj hcallj hstr
  obtain ⟨loc₂, text₂, hcall₂, hspells₂⟩ := itoa_decimal hgej hltj textj
  rw [hcallj] at hcall₂
  obtain ⟨rfl, rfl⟩ := Prod.mk.inj (Option.some.inj hcall₂)
  have hcs := IsStr.unique _ hspells₂.string hstr
  exact (hcs ▸ decimal_canonical j).inj (decimal_canonical i)

/-- The least `int`: eleven characters and the NUL fill the buffer. -/
theorem itoa_exact_least :
    ∃ loc text' cs, itoa (-2147483648) (fun _ => 0xFF) = some (loc, text')
      ∧ Spells cs (fun _ => 0xFF) loc text' ∧ Canonical cs (-2147483648)
      ∧ ∀ j textj locj textj', -2147483648 ≤ j → j < 2147483648 →
          itoa j textj = some (locj, textj') → IsStr textj' locj cs →
          j = -2147483648 :=
  itoa_exact (by decide) (by decide) (fun _ => 0xFF)

end BenOS.Stdlib
