/-
`itoa` of `programs/stdlib/src/stdlib.c`.

The text is a static buffer that is filled from its end. A write in front
of its start has no result, and neither has an operation on `int`s whose
value is none of an `int` (`checkedInt`).
-/
import Mathlib.Logic.Function.Basic

namespace BenOS.Stdlib

/-- The value of an operation on `int`s, where it does not overflow. -/
def checkedInt (x : Int) : Option Int :=
  if -2147483648 ≤ x ∧ x < 2147483648 then some x else none

/-- `text[--loc] = c` -/
def storeBefore (loc : Nat) (c : UInt8) (text : Nat → UInt8) :
    Option (Nat × (Nat → UInt8)) :=
  match loc with
  | 0 => none
  | loc + 1 => some (loc, Function.update text loc c)

/-- The loop of `itoa`: the last digit of the negated number goes in front
of the others, for as long as there is one. -/
def itoaLoop : Nat → Int → (Nat → UInt8) → Option (Nat × (Nat → UInt8))
  | 0, i, text => if i = 0 then some (0, text) else none
  | loc + 1, i, text =>
      if i = 0 then some (loc + 1, text)
      else do
        let digit ← checkedInt (0x30 - i.tmod 10)
        let i ← checkedInt (i.tdiv 10)
        itoaLoop loc i (Function.update text loc (UInt8.ofInt digit))

/-- `sizeof(text)` -/
abbrev textSize : Nat := 12

/-- `itoa` on what the buffer held before: where the numeral starts, and
the buffer. -/
def itoa (i : Int) (text : Nat → UInt8) : Option (Nat × (Nat → UInt8)) := do
  let text := Function.update text 11 0x00
  let neg : Bool := !decide (i ≥ 0)
  let i ← if i ≥ 0 then checkedInt (-i) else some i
  let (loc, text) ← itoaLoop 11 i text
  let (loc, text) ←
    if loc = 11 then storeBefore loc 0x30 text else some (loc, text)
  if neg then storeBefore loc 0x2D text else some (loc, text)

end BenOS.Stdlib
