/-
`strtok` and `benos_parse_command` in the memory of the program, call
after call.

Here the buffer that `Tok.mem` stands for is the whole memory, a pointer
is its address, and the static `sp` stays what the call before has left:
it may point into a buffer that is long dead. `strtokLogged` keeps the
bytes that `strtok` touches. A history is any sequence of calls, with
anything written to the memory between them (`TokOp`).
-/
import BenOS.Lib.Traced
import BenOS.Stdlib.ParseCommand

namespace BenOS.Stdlib

open Lib Traced

-- ==================================================================== strncpy

/-- The loop of `strncpy` from one place of the memory to another. -/
def strncpyInLoop (dest src : Nat) :
    Nat → Nat → (Nat → UInt8) → Nat × (Nat → UInt8)
  | 0, i, mem => (i, mem)
  | k + 1, i, mem =>
      if mem (src + i) = 0x00 then (i, mem)
      else strncpyInLoop dest src k (i + 1)
        (Function.update mem (dest + i) (mem (src + i)))

/-- `strncpy` from one place of the memory to another. -/
def strncpyIn (mem : Nat → UInt8) (dest src count : Nat) : Nat → UInt8 :=
  let (i, mem) := strncpyInLoop dest src (count - 1) 0 mem
  Function.update mem (dest + i) 0x00

-- ===================================================================== strtok

/-- A byte that is looked at, or written. -/
inductive Touch
  | read (i : Nat)
  | write (i : Nat)
  deriving DecidableEq

/-- Where it is. -/
def Touch.place : Touch → Nat
  | .read i => i
  | .write i => i

/-- The first loop of `strtok`, with what it touches. -/
def strtokSkipLogged (mem : Nat → UInt8) (delimiters : List UInt8) :
    Nat → Nat → Traced Touch (Option Nat)
  | 0, _ => pure none
  | k + 1, pStart => do
      let c ← look (.read pStart) (mem pStart)
      if c ∈ delimiters then
        strtokSkipLogged mem delimiters k (pStart + 1)
      else pure (some pStart)

/-- The second loop of `strtok`, with what it touches. -/
def strtokEndLogged (delimiters : List UInt8) :
    Nat → Nat → (Nat → UInt8) →
      Traced Touch (Option ((Nat → UInt8) × Nat))
  | 0, _, _ => pure none
  | k + 1, sp, mem => do
      let c ← look (.read sp) (mem sp)
      if c = 0x00 then pure (some (mem, sp))
      else if c ∈ delimiters then
        look (.write sp) (some (Function.update mem sp 0x00, sp + 1))
      else strtokEndLogged delimiters k (sp + 1) mem

/-- `strtok`, with what it touches. -/
def strtokLogged (size : Nat) (str : Option Nat) (delimiters : List UInt8)
    (s : Tok) : Traced Touch (Option (Option Nat × Tok)) :=
  match s.sp.or str with
  | none => pure (some (none, s))
  | some sp => do
      match ← strtokSkipLogged s.mem delimiters (size - sp) sp with
      | none => pure none
      | some pStart =>
          let c ← look (.read pStart) (s.mem pStart)
          if c = 0x00 then pure (some (none, { s with sp := none }))
          else
            match ← strtokEndLogged delimiters (size - pStart) pStart
                s.mem with
            | none => pure none
            | some (mem, sp) => pure (some (some pStart, ⟨mem, some sp⟩))

/-- `k` calls of `strtok`, the first with `str` and the others with null:
what they return. -/
def strtokCalls (size : Nat) (delimiters : List UInt8) :
    Nat → Option Nat → Tok →
      Traced Touch (Option (List (Option Nat) × Tok))
  | 0, _, s => pure (some ([], s))
  | k + 1, str, s => do
      match ← strtokLogged size str delimiters s with
      | none => pure none
      | some (token, s) =>
          match ← strtokCalls size delimiters k none s with
          | none => pure none
          | some (tokens, s) => pure (some (token :: tokens, s))

-- =============================================================== the commands

/-- The loop of `benos_parse_command` in a memory of `size` bytes, before
the `k`-th call of `benos_malloc`. -/
def parseLoopIn (size : Nat) (malloc : Nat → Option UInt32) :
    Nat → Nat → Option Nat → UInt32 → Nodes → Tok → Option (Nodes × Tok)
  | 0, _, _, _, _, _ => none
  | _ + 1, _, none, _, nodes, s => some (nodes, s)
  | turns + 1, k, some token, current, nodes, s =>
      match malloc k with
      | none => some (nodes, s)
      | some newCommand => do
          let nodes := fillNode nodes newCommand s token
          let nodes := linkNode nodes current newCommand
          let (token, s) ← strtok size none [0x20] s
          parseLoopIn size malloc turns (k + 1) token newCommand nodes s

/-- `benos_parse_command` from its first token on. -/
def parseTokens (size turns : Nat) (malloc : Nat → Option UInt32)
    (token : Option Nat) (nodes : Nodes) (s : Tok) :
    Option (Option UInt32 × Nodes × Tok) :=
  match token with
  | none => some (none, nodes, s)
  | some token =>
      match malloc 0 with
      | none => some (none, nodes, s)
      | some root => do
          let nodes := fillNode nodes root s token
          let (token, s) ← strtok size none [0x20] s
          let (nodes, s) ← parseLoopIn size malloc turns 1 token root nodes s
          some (some root, nodes, s)

/-- `benos_parse_command` with its buffer `scommand` and its argument
somewhere in the memory. -/
def benosParseCommandIn (malloc : Nat → Option UInt32)
    (scommand command : Nat) (max : Int) (nodes : Nodes) (s : Tok) :
    Option (Option UInt32 × Nodes × Tok) :=
  if max ≥ scommandSize then some (none, nodes, s)
  else do
    let s := { s with mem := strncpyIn s.mem scommand command scommandSize }
    let (token, s) ← strtok memorySize (some scommand) [0x20] s
    parseTokens memorySize memorySize malloc token nodes s

-- ================================================================== a history

/-- The memory with `sp`, and the nodes. -/
structure TokRun where
  tok : Tok
  nodes : Nodes
  /-- What the last call of `benos_parse_command` returned. -/
  root : Option UInt32

/-- A call of `strtok` or of `benos_parse_command`, or whatever else the
program writes to its memory. -/
inductive TokOp
  | strtok (str : Option Nat) (delimiters : List UInt8)
  | parse (malloc : Nat → Option UInt32) (scommand command : Nat) (max : Int)
  | write (mem : Nat → UInt8) (nodes : Nodes)

/-- The call; there is no step where it reads past the memory. -/
def tokStep (s : TokRun) : TokOp → Option TokRun
  | .strtok str delimiters =>
      (strtok memorySize str delimiters s.tok).map fun r =>
        { s with tok := r.2 }
  | .parse malloc scommand command max =>
      (benosParseCommandIn malloc scommand command max s.nodes s.tok).map
        fun r => ⟨r.2.2, r.2.1, r.1⟩
  | .write mem nodes =>
      some { s with tok := { s.tok with mem := mem }, nodes := nodes }

end BenOS.Stdlib
