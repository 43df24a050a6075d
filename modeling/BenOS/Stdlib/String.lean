/-
Strings in a user program: `strncpy` and `strtok` of
`programs/stdlib/src/string.c`.

A pointer into a buffer is the offset from its start. Reading on past the
end of the buffer has no result (`none`).
-/
import Mathlib.Logic.Function.Basic
import BenOS.Config

namespace BenOS.Stdlib

/-- The bytes a pointer can point to. -/
abbrev memorySize : Nat := 2 ^ 32

-- ==================================================================== strncpy

/-- The loop of `strncpy` with `k` of its turns left: the index it ends
with, and `dest`. -/
def strncpyLoop (src : Nat → UInt8) :
    Nat → Nat → (Nat → UInt8) → Nat × (Nat → UInt8)
  | 0, i, dest => (i, dest)
  | k + 1, i, dest =>
      if src i = 0x00 then (i, dest)
      else strncpyLoop src k (i + 1) (Function.update dest i (src i))

/-- `strncpy` -/
def strncpy (dest src : Nat → UInt8) (count : Nat) : Nat → UInt8 :=
  let (i, dest) := strncpyLoop src (count - 1) 0 dest
  Function.update dest i 0x00

-- ===================================================================== strtok

/-- What `strtok` works on: the buffer, and the static `sp`, which is null
while no tokenization is in progress. -/
structure Tok where
  mem : Nat → UInt8
  sp : Option Nat

/-- The first loop of `strtok`: past the delimiters. `k` bytes of the
buffer are left. -/
def strtokSkip (mem : Nat → UInt8) (delimiters : List UInt8) :
    Nat → Nat → Option Nat
  | 0, _ => none
  | k + 1, pStart =>
      if mem pStart ∈ delimiters then
        strtokSkip mem delimiters k (pStart + 1)
      else some pStart

/-- The second loop: to the end of the token, where the delimiter gives
way to a NUL and `sp` stands behind it. -/
def strtokEnd (delimiters : List UInt8) :
    Nat → Nat → (Nat → UInt8) → Option ((Nat → UInt8) × Nat)
  | 0, _, _ => none
  | k + 1, sp, mem =>
      if mem sp = 0x00 then some (mem, sp)
      else if mem sp ∈ delimiters then
        some (Function.update mem sp 0x00, sp + 1)
      else strtokEnd delimiters k (sp + 1) mem

/-- `strtok` on a buffer of `size` bytes: the token, null being `none`. -/
def strtok (size : Nat) (str : Option Nat) (delimiters : List UInt8)
    (s : Tok) : Option (Option Nat × Tok) :=
  -- a tokenization in progress goes on, whatever `str` is
  match s.sp.or str with
  | none => some (none, s)
  | some sp => do
      let pStart ← strtokSkip s.mem delimiters (size - sp) sp
      if s.mem pStart = 0x00 then
        some (none, { s with sp := none })
      else
        let (mem, sp) ← strtokEnd delimiters (size - pStart) pStart s.mem
        some (some pStart, ⟨mem, some sp⟩)

end BenOS.Stdlib
