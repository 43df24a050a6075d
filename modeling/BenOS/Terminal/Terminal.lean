/-
The screen of `kernel.c`: characters are put into the cells of the video
memory at a cursor that newlines, backspaces and line ends move.

The cursor is two 16-bit variables, which wrap. `TerSys.video` is the
memory from `video_memory` on by cells of 16 bits, at every index and not
only at those of the screen. Every function logs the cells it writes, by
column and row (`Traced`).
-/
import Mathlib.Logic.Function.Basic
import BenOS.Config
import BenOS.Lib.Traced

namespace BenOS.Terminal

open Lib Traced

/-- `VGA_WIDTH` -/
abbrev vgaWidth : Nat := 80

/-- `VGA_HEIGHT` -/
abbrev vgaHeight : Nat := 20

/-- The globals of the terminal. -/
structure TerSys where
  video : Nat → BitVec 16
  terRow : BitVec 16
  terColumn : BitVec 16

/-- A cell by its column and its row. -/
abbrev Cell := Nat × Nat

/-- `ter_make_character`; a `char` is signed. -/
def terMakeCharacter (character color : UInt8) : BitVec 16 :=
  (color.toBitVec.signExtend 16 <<< 8) ||| character.toBitVec.signExtend 16

/-- `ter_putchar` -/
def terPutchar (x y : Nat) (character color : UInt8) (t : TerSys) :
    Traced Cell TerSys :=
  look (x, y)
    { t with
      video := Function.update t.video (y * vgaWidth + x)
        (terMakeCharacter character color) }

mutual

/-- `terminal_backspace` -/
def terminalBackspace (t : TerSys) : Traced Cell TerSys :=
  if t.terRow = 0#16 ∧ t.terColumn = 0#16 then pure t
  else do
    let t :=
      if t.terColumn = 0#16 then
        { t with
          terColumn := BitVec.ofNat 16 vgaWidth
          terRow := t.terRow - 1#16 }
      else t
    let t := { t with terColumn := t.terColumn - 1#16 }
    let t ← terWritechar 0x20 15 t
    pure { t with terColumn := t.terColumn - 1#16 }
termination_by 1

/-- `ter_writechar` -/
def terWritechar (character color : UInt8) (t : TerSys) :
    Traced Cell TerSys :=
  if character = 0x0A then
    pure { t with terColumn := 0#16, terRow := t.terRow + 1#16 }
  else if _h : character = 0x08 then terminalBackspace t
  else do
    let t ← terPutchar t.terColumn.toNat t.terRow.toNat character color t
    let t := { t with terColumn := t.terColumn + 1#16 }
    pure (if t.terColumn.toNat ≥ vgaWidth then
        { t with terColumn := 0#16, terRow := t.terRow + 1#16 }
      else t)
termination_by if character = 0x08 then 2 else 0
decreasing_by rw [if_pos _h]; exact Nat.lt_succ_self 1

end

/-- `ter_init` -/
def terInit (t : TerSys) : Traced Cell TerSys :=
  let t := { t with terColumn := 0#16, terRow := 0#16 }
  (List.range vgaHeight).foldlM
    (fun t y => (List.range vgaWidth).foldlM
      (fun t x => terPutchar x y 0x20 0 t) t) t

/-- `print` on the bytes of a string before its terminator. -/
def print (str : List UInt8) (t : TerSys) : Traced Cell TerSys :=
  str.foldlM (fun t character => terWritechar character 0x0F t) t

/-- A call that writes characters. -/
inductive TerOp
  | writechar (character color : UInt8)
  | print (str : List UInt8)

/-- The call. -/
def terOp (t : TerSys) : TerOp → Traced Cell TerSys
  | .writechar character color => terWritechar character color t
  | .print str => print str t

/-- `ter_init`, and calls one after the other. -/
def terSession (ops : List TerOp) (t : TerSys) : Traced Cell TerSys := do
  let t ← terInit t
  ops.foldlM terOp t

end BenOS.Terminal
