/-
`benos_parse_command` of `programs/stdlib/src/benos.c`: the words of a
command line as a linked list.

What `benos_malloc` answers is a parameter: call after call an address, or
`none` for null. The nodes of the list are in a memory of their own; what
a node holds before it is written is whatever that memory holds.
-/
import BenOS.Stdlib.String

namespace BenOS.Stdlib

/-- `struct command_arg` -/
structure CommandArg where
  arg : Nat → UInt8
  next : Option UInt32

/-- The memory of the nodes. -/
abbrev Nodes := UInt32 → CommandArg

/-- `sizeof(scommand)` -/
def scommandSize : Nat := 1025

/-- `sizeof` the member `arg` -/
def argSize : Nat := 512

/-- A node is filled with a token: `strncpy` into `arg`, and `next = 0`. -/
def fillNode (nodes : Nodes) (node : UInt32) (s : Tok) (token : Nat) : Nodes :=
  Function.update nodes node
    ⟨strncpy (nodes node).arg (fun i => s.mem (token + i)) argSize, none⟩

/-- `current->next = new_command` -/
def linkNode (nodes : Nodes) (current newCommand : UInt32) : Nodes :=
  Function.update nodes current
    { nodes current with next := some newCommand }

/-- The loop of `benos_parse_command`, before the `k`-th call of
`benos_malloc`. Each token takes one byte of the buffer at least, so that
the turns are bounded by its size. -/
def parseLoop (malloc : Nat → Option UInt32) :
    Nat → Nat → Option Nat → UInt32 → Nodes → Tok → Option (Nodes × Tok)
  | 0, _, _, _, _, _ => none
  | _ + 1, _, none, _, nodes, s => some (nodes, s)
  | turns + 1, k, some token, current, nodes, s =>
      match malloc k with
      | none => some (nodes, s)
      | some newCommand => do
          let nodes := fillNode nodes newCommand s token
          let nodes := linkNode nodes current newCommand
          let (token, s) ← strtok scommandSize none [0x20] s
          parseLoop malloc turns (k + 1) token newCommand nodes s

/-- `benos_parse_command`, with `scommand` and `sp` as they are before the
call: the root of the list, the nodes, and `sp` afterwards. -/
def benosParseCommand (malloc : Nat → Option UInt32)
    (scommand command : Nat → UInt8) (max : Int) (nodes : Nodes)
    (sp : Option Nat) : Option (Option UInt32 × Nodes × Option Nat) :=
  if max ≥ scommandSize then some (none, nodes, sp)
  else do
    let scommand := strncpy scommand command scommandSize
    let (token, s) ← strtok scommandSize (some 0) [0x20] ⟨scommand, sp⟩
    match token with
    | none => some (none, nodes, s.sp)
    | some token =>
        match malloc 0 with
        | none => some (none, nodes, s.sp)
        | some root => do
            let nodes := fillNode nodes root s token
            let (token, s) ← strtok scommandSize none [0x20] s
            let (nodes, s) ←
              parseLoop malloc scommandSize 1 token root nodes s
            some (some root, nodes, s.sp)

end BenOS.Stdlib
