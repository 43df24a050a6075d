/-
The name of a directory entry, byte by byte:
`fat16_get_full_relative_filename` of `fs/fat/fat16.c`, as
`fat16_find_item_in_dir` calls it on a buffer of its stack.

These are the functions `Fat/Dir` has on lists of bytes, with the buffer
they write and a log: of each byte of a field they read, and of what they
write to the buffer. A pointer into the buffer or into a field is the
offset from its start. Reading past a field has no result (`none`).
-/
import Mathlib.Logic.Function.Basic
import BenOS.Lib.Traced
import BenOS.Fat.Dir

namespace BenOS.Fat

open Lib Traced

-- ==================================================================== accesses

/-- What is accessed. -/
inductive NameAccess
  /-- A byte of `item->fname` is read. -/
  | fname (i : Nat)
  /-- A byte of `item->ext` is read. -/
  | ext (i : Nat)
  /-- `memset` clears the first bytes of `out`. -/
  | clear (size : Nat)
  /-- A byte of `out` is written. -/
  | out (i : Nat)
deriving DecidableEq

/-- The bytes of `out` that an access writes. -/
def NameAccess.writes : NameAccess → List Nat
  | .fname _ => []
  | .ext _ => []
  | .clear size => List.range size
  | .out i => [i]

/-- The bytes of `out` that are written, each of them once. -/
def bytesWritten (log : List NameAccess) : List Nat :=
  (log.flatMap NameAccess.writes).dedup

-- =================================================================== the buffer

/-- The characters of a buffer, by their offsets. -/
abbrev NameBuffer := Nat → UInt8

/-- `memset` -/
def NameBuffer.memset (buf : NameBuffer) (c : UInt8) (size : Nat) :
    Traced NameAccess NameBuffer :=
  look (.clear size) fun i => if i < size then c else buf i

/-- One character is written. -/
def NameBuffer.put (buf : NameBuffer) (i : Nat) (c : UInt8) :
    Traced NameAccess NameBuffer :=
  look (.out i) (Function.update buf i c)

-- ================================================================= the functions

/-- The loop of `fat16_to_proper_string` on what is left of its field, at
index `i`, with `*out` as an offset; it leaves the offset it has come to.
`read` says which field it is. -/
def fat16ToProperStringLoop (read : Nat → NameAccess) (size : Nat) :
    List UInt8 → Nat → Nat → NameBuffer →
      Traced NameAccess (Option (Nat × NameBuffer))
  | [], _, _, _ => pure none
  | c :: cs, i, out, buf => do
      let c ← look (read i) c
      if c ≠ 0x00 ∧ c ≠ 0x20 then do
        let buf ← buf.put out c
        -- `size` is unsigned, and so is the comparison
        if (i : Int) ≥ toUint32 (size - 1) then pure (some (out + 1, buf))
        else fat16ToProperStringLoop read size cs (i + 1) (out + 1) buf
      else pure (some (out, buf))

/-- `fat16_to_proper_string` -/
def fat16ToProperStringLogged (read : Nat → NameAccess) (field : List UInt8)
    (size : Nat) (out : Nat) (buf : NameBuffer) :
    Traced NameAccess (Option (Nat × NameBuffer)) := do
  match ← fat16ToProperStringLoop read size field 0 out buf with
  | none => pure none
  | some (out, buf) => do
      let buf ← buf.put out 0x00
      pure (some (out, buf))

/-- `item->ext[0]` -/
def FatDirItem.ext0 (item : FatDirItem) : UInt8 := item.ext.get 0

/-- `fat16_get_full_relative_filename` -/
def fat16GetFullRelativeFilenameLogged (item : FatDirItem) (maxLen : Nat)
    (buf : NameBuffer) : Traced NameAccess (Option NameBuffer) := do
  let buf ← buf.memset 0x00 maxLen
  match ← fat16ToProperStringLogged .fname item.fname.toList 8 0 buf with
  | none => pure none
  | some (outTmp, buf) => do
      let ext0 ← look (.ext 0) item.ext0
      if ext0 ≠ 0x00 ∧ ext0 ≠ 0x20 then do
        let buf ← buf.put outTmp 0x2E
        match ← fat16ToProperStringLogged .ext item.ext.toList 3 (outTmp + 1)
            buf with
        | none => pure none
        | some (_, buf) => pure (some buf)
      else pure (some buf)

/-- The test of `fat16_find_item_in_dir` on one item, in its buffer
`tmp_filename`. -/
def nameMatchesLogged (item : FatDirItem) (name : List UInt8)
    (tmpFilename : NameBuffer) : Traced NameAccess (Option Bool) := do
  match ← fat16GetFullRelativeFilenameLogged item benosMaxPath tmpFilename with
  | none => pure none
  | some tmpFilename =>
      let str := (List.range benosMaxPath).map tmpFilename
      pure (some (istrncmp str name benosMaxPath == 0))

end BenOS.Fat
