/-
`printf` of `programs/stdlib/src/stdio.c`.

It works in the memory of the program: the format, the strings among the
arguments, and the static buffer of `itoa` at `text`, which every `%i`
overwrites. What it hands to `putchar` and to `print` is kept in order,
and so are the bytes of the format it looks at (`Traced`). An argument
that is missing or of the wrong kind, and a string without an end, have no
result.
-/
import BenOS.Lib.Traced
import BenOS.Stdlib.Itoa
import BenOS.Stdlib.String

namespace BenOS.Stdlib

open Lib Traced

/-- An argument behind the format. -/
inductive PrintfArg
  | int (i : Int)
  | str (s : Nat)

/-- A call of `putchar` or of `print`, with the string it is given. -/
inductive Emitted
  | putchar (c : UInt8)
  | print (cs : List UInt8)
  deriving DecidableEq

/-- The string at `s`, with `k` bytes of the memory left. -/
def stringAt (mem : Nat → UInt8) : Nat → Nat → Option (List UInt8)
  | 0, _ => none
  | k + 1, s =>
      if mem s = 0x00 then some []
      else (stringAt mem k (s + 1)).map (mem s :: ·)

/-- `print` -/
def print (mem : Nat → UInt8) (s : Nat) : Option Emitted :=
  (stringAt mem (memorySize - s) s).map .print

/-- `itoa` with its buffer at `text`: the numeral and the memory. -/
def itoaIn (text : Nat) (i : Int) (mem : Nat → UInt8) :
    Option (Nat × (Nat → UInt8)) :=
  (itoa i fun j => mem (text + j)).map fun r =>
    (text + r.1, fun a => if a < text then mem a else r.2 (a - text))

/-- The switch of `printf` on the character behind a `%`: the call it makes,
the arguments that are left, and the memory. -/
def printfSwitch (text : Nat) (d : UInt8) (args : List PrintfArg)
    (mem : Nat → UInt8) :
    Option (Emitted × List PrintfArg × (Nat → UInt8)) :=
  if d = 0x69 then
    match args with
    | .int i :: args => do
        let (s, mem) ← itoaIn text i mem
        let e ← print mem s
        some (e, args, mem)
    | _ => none
  else if d = 0x73 then
    match args with
    | .str s :: args => do
        let e ← print mem s
        some (e, args, mem)
    | _ => none
  else some (.putchar d, args, mem)

/-- A call in front of what the rest emits. -/
def emitThen (e : Emitted) (rest : Traced Nat (Option (List Emitted))) :
    Traced Nat (Option (List Emitted)) := do
  let es ← rest
  pure (es.map (e :: ·))

/-- The loop of `printf`, with `p` in front of the rest of the format; as
many turns as bytes of it are enough. -/
def printfLoop (text : Nat) :
    Nat → Nat → List PrintfArg → (Nat → UInt8) →
      Traced Nat (Option (List Emitted))
  | 0, _, _, _ => pure none
  | turns + 1, p, args, mem => do
      let c ← look p (mem p)
      if c = 0x00 then pure (some [])
      else if c ≠ 0x25 then
        emitThen (.putchar c) (printfLoop text turns (p + 1) args mem)
      else
        -- `*++p`
        let d ← look (p + 1) (mem (p + 1))
        match printfSwitch text d args mem with
        | none => pure none
        | some (e, args, mem) =>
            emitThen e (printfLoop text turns (p + 2) args mem)

/-- `printf` -/
def printf (text turns fmt : Nat) (args : List PrintfArg)
    (mem : Nat → UInt8) : Traced Nat (Option (List Emitted)) :=
  printfLoop text turns fmt args mem

end BenOS.Stdlib
