/-
The arguments of a new program: `process_count_command_args` and
`process_inject_args` of `task/process.c` on a list of `struct
command_arg`s in memory, and `isr80h_command7_invoke_system_command` of
`isr80h/process.c`, which hands on the list of its caller.

Both loops follow `next` wherever it leads, and null is all that ends
them. They are given a number of rounds, and a result `none` is a loop
that has not ended by then. The log is of the nodes they come to and of
what `process_malloc` answers.
-/
import BenOS.Kernel.Exit
import BenOS.Kernel.StartPath

namespace BenOS.Kernel

open Lib Memory Traced Fat

-- ================================================================= the list

/-- The bytes of `arg` in a `struct command_arg`. -/
abbrev sizeofArg : Nat := 512

/-- `sizeof(struct command_arg)` -/
abbrev sizeofCommandArg : Nat := 516

/-- `next` in a `struct command_arg`. -/
abbrev offArgNext : Addr := 512#32

/-- `current->next` -/
def commandArgNext (m : Bytes) (current : Addr) : Addr :=
  load32 m (current + offArgNext)

/-- What the loops come to: a node, or an answer of `process_malloc`. -/
inductive ArgEvent
  | node (current : Addr)
  | malloc (ptr : Addr)

/-- The loop of `process_count_command_args` with the rounds left. -/
def countCommandArgsLoop (m : Bytes) :
    Nat → Int → Addr → Traced ArgEvent (Option Int)
  | 0, _, _ => pure none
  | fuel + 1, res, current =>
      if current = 0#32 then pure (some res)
      else do
        let next ← look (.node current) (commandArgNext m current)
        countCommandArgsLoop m fuel (toInt32 (res + 1)) next

/-- `process_count_command_args` -/
def processCountCommandArgs (fuel : Nat) (m : Bytes) (rootArg : Addr) :
    Traced ArgEvent (Option Int) :=
  countCommandArgsLoop m fuel 0 rootArg

/-- The loop of `process_inject_args` with the rounds left: `i` is the
index of the argument in `current`. -/
def injectCommandArgsLoop (process argv : Addr) :
    Nat → Int → Addr → Ram → Traced ArgEvent (Option (Int × Ram))
  | 0, _, _, _ => pure none
  | fuel + 1, i, current, r =>
      if current = 0#32 then pure (some (0, r))
      else do
        let argStr ← look (.node current) (processMalloc process sizeofArg r)
        let ptr ← look (.malloc argStr.1) argStr.1
        if ptr = 0#32 then pure (some (-enomem, argStr.2))
        else do
          let m := (strncpyFrom argStr.2.mem ptr current sizeofArg).val
          let m := store32 m (argv + BitVec.ofInt 32 (4 * i)) ptr
          injectCommandArgsLoop process argv fuel (toInt32 (i + 1))
            (commandArgNext m current) { argStr.2 with mem := m }

/-- `process_inject_args` behind its loop, by what came of that. -/
def finishCommandArgs (process argv : Addr) (argc : Int) :
    Option (Int × Ram) → Option (Int × Ram)
  | none => none
  | some (res, r) =>
      if res < 0 then some (res, r)
      else
        some (res,
          (r.store (process + offArgc) (BitVec.ofInt 32 argc)).store
            (process + offArgv) argv)

/-- `process_inject_args` behind the count, which is not 0. -/
def injectCommandArgs (fuel : Nat) (process rootArg : Addr) (argc : Int)
    (r : Ram) : Traced ArgEvent (Option (Int × Ram)) := do
  let a := processMalloc process (toUint32 (4 * argc)).toNat r
  let argv ← look (.malloc a.1) a.1
  if argv = 0#32 then pure (some (-enomem, a.2))
  else do
    let loop ← injectCommandArgsLoop process argv fuel 0 rootArg a.2
    pure (finishCommandArgs process argv argc loop)

/-- `process_inject_args`, of the list at `rootArg`. -/
def processInjectArgsFrom (fuel : Nat) (process rootArg : Addr) (r : Ram) :
    Traced ArgEvent (Option (Int × Ram)) := do
  match ← processCountCommandArgs fuel r.mem rootArg with
  | none => pure none
  | some argc =>
      if argc = 0 then pure (some (-eio, r))
      else injectCommandArgs fuel process rootArg argc r

-- ========================================================== the system call

/-- `process_load_switch` -/
def processLoadSwitch (vol : Option Volume) (fname : List UInt8)
    (out : Nat → Addr) (k : KernelState) : Option Loaded := do
  let l ← processLoad vol fname out k
  if l.res = 0 then
    some { l with kernel := { l.kernel with currProcess := l.out 0 } }
  else some l

/-- What becomes of the system call: its caller gets an answer, or a task
is returned to. -/
inductive Invoked
  | answered (value : BitVec 32) (k : KernelState)
  | started (task : Addr) (k : KernelState)

/-- `isr80h_command7_invoke_system_command` behind `process_load_switch`,
of which `res` is the result: that of `process_inject_args` is dropped. -/
def invokeLoaded (fuel : Nat) (res : Int) (process rootArg : Addr)
    (k : KernelState) : Traced ArgEvent (Option Invoked) :=
  if res < 0 then pure (some (.answered (BitVec.ofInt 32 res) k))
  else do
    match ← processInjectArgsFrom fuel process rootArg k.ram with
    | none => pure none
    | some (_, r) =>
        if res < 0 then
          pure (some (.answered (BitVec.ofInt 32 res) { k with ram := r }))
        else
          -- `task_switch` and `task_return`
          let task := load32 r.mem (process + offTask)
          pure (some (.started task { k with ram := r, currentTask := task }))

/-- The string at an address, without its NUL. -/
def stringAt (m : Bytes) (ptr : Addr) : Option (List UInt8) := do
  let len ← strlen m ptr
  some ((List.range len).map fun i => m (ptr + BitVec.ofNat 32 i))

/-- `isr80h_command7_invoke_system_command`, with its buffer `path`; its
pointer `process` lies first in `stack`. -/
def isr80hCommand7InvokeSystemCommand (fuel : Nat) (vol : Option Volume)
    (path : Addr) (stack : Nat → Addr) (k : KernelState) :
    Traced ArgEvent (Option Invoked) :=
  match taskGetStackItem k.ram.mem k.currentTask 0,
    invokeSystemCommandPath k.currentTask path k.ram.mem with
  | some ptr, some (some built) =>
      let args := taskVirtAddrToPhys k.ram.mem k.currentTask ptr
      let loaded := do
        let fname ← stringAt built.val path
        processLoadSwitch vol fname (Function.update stack 0 0#32)
          (k.setMem built.val)
      match loaded with
      | none => pure none
      | some l => invokeLoaded fuel l.res (l.out 0) args l.kernel
  | some _, some none =>
      pure (some (.answered (BitVec.ofInt 32 (-einvarg)) k))
  | _, _ => pure none

end BenOS.Kernel
