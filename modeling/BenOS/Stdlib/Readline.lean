/-
Reading a line in a user program: `benos_getkeyblock` and
`benos_terminal_readline` of `programs/stdlib/src/benos.c`.

What `benos_getkey` answers, poll after poll, is a list: a byte, 0 where
no key is in the keyboard buffer. A call that is still waiting when the
list ends has no result (`none`); what it has done so far is in its log
all the same.
-/
import Mathlib.Logic.Function.Basic
import BenOS.Config
import BenOS.Lib.Traced

namespace BenOS.Stdlib

open Lib Traced

/-- `benos_getkeyblock`: the first key that is not 0, and the polls that
follow. -/
def benosGetkeyblock : List UInt8 → Option (UInt8 × List UInt8)
  | [] => none
  | val :: polls => if val = 0 then benosGetkeyblock polls else some (val, polls)

/-- A key is among the polls. -/
theorem benosGetkeyblock_length {polls rest : List UInt8} {key : UInt8}
    (h : benosGetkeyblock polls = some (key, rest)) :
    rest.length < polls.length := by
  induction polls with
  | nil => cases h
  | cons val polls ih =>
      rw [benosGetkeyblock] at h
      split at h
      · have hlt := ih h
        rw [List.length_cons]
        omega
      · cases h
        exact Nat.lt_succ_self _

/-- What reading a line does besides waiting. -/
inductive LineEffect
  /-- `out[i]` is written. -/
  | write (i : Int)
  /-- `benos_putchar` -/
  | putchar (key : UInt8)

/-- A store to `out[i]`. -/
def storeOut (out : Int → UInt8) (i : Int) (c : UInt8) :
    Traced LineEffect (Int → UInt8) :=
  look (.write i) (Function.update out i c)

/-- A key shows on the screen where `out_while_typing` says so. -/
def echo (outWhileTyping : Bool) (key : UInt8) : Traced LineEffect Unit :=
  if outWhileTyping then look (.putchar key) () else pure ()

/-- The loop of `benos_terminal_readline` from index `i` on: the index it
ends with, and `out`. -/
def readlineLoop (max : Int) (outWhileTyping : Bool) (polls : List UInt8)
    (i : Int) (out : Int → UInt8) :
    Traced LineEffect (Option (Int × (Int → UInt8))) :=
  if i < max - 1 then
    match _h : benosGetkeyblock polls with
    | none => pure none
    | some (key, polls) =>
        if key = 13 then pure (some (i, out))
        else do
          echo outWhileTyping key
          if key = 0x08 ∧ i ≥ 1 then
            let out ← storeOut out (i - 1) 0x00
            -- `i -= 2`, and the increment of the loop
            readlineLoop max outWhileTyping polls (i - 2 + 1) out
          else
            let out ← storeOut out i key
            readlineLoop max outWhileTyping polls (i + 1) out
  else pure (some (i, out))
termination_by polls.length
decreasing_by all_goals exact benosGetkeyblock_length _h

/-- `benos_terminal_readline` -/
def benosTerminalReadline (polls : List UInt8) (out : Int → UInt8)
    (max : Int) (outWhileTyping : Bool) :
    Traced LineEffect (Option (Int → UInt8)) := do
  match ← readlineLoop max outWhileTyping polls 0 out with
  | none => pure none
  | some (i, out) =>
      let out ← storeOut out i 0x00
      pure (some out)

end BenOS.Stdlib
