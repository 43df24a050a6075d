/-
The commands of `int 0x80`: `isr80h_register_command` and
`isr80h_handler` of `idt/idt.c`, and the functions of `isr80h/`.

A command goes back to its caller with an answer, or leaves for another
task (`Handled`). A result `none` is a page fault, an access through null,
a loop that does not end, or a `panic`.

The kernel has its memory, where the tasks and the processes lie; the
keyboard and the screen are beside it, and the ports: what the keyboard
will send, and how many interrupts were acknowledged.
`Locals` is where the compiler puts the arrays of the functions on the
kernel stack.
-/
import BenOS.Kernel.CommandArgs
import BenOS.Keyboard.Classic
import BenOS.Lib.X86
import BenOS.Terminal.Terminal

namespace BenOS.Isr80h

open Lib Memory Fat Kernel Keyboard Terminal

-- ================================================================= the table

/-- The commands. -/
inductive Isr80hCommand
  | command0Sum
  | command1Print
  | command2Getkey
  | command3Putchar
  | command4Malloc
  | command5Free
  | command6ProcessLoadStart
  | command7InvokeSystemCommand
  | command8GetProgramArguments
  | command9Exit
deriving DecidableEq

/-- `isr80h_commands` -/
abbrev Isr80hCommands := Fin benosMaxIsr80hCommands → Option Isr80hCommand

theorem toNat_commandId_lt {commandId : Int}
    (h : ¬ (commandId < 0 ∨ commandId ≥ benosMaxIsr80hCommands)) :
    commandId.toNat < benosMaxIsr80hCommands := by
  simp only [benosMaxIsr80hCommands] at h ⊢
  omega

/-- `isr80h_register_command`; `none` is a panic. -/
def isr80hRegisterCommand (commandId : Int) (command : Isr80hCommand)
    (isr80hCommands : Isr80hCommands) : Option Isr80hCommands :=
  if h : commandId < 0 ∨ commandId ≥ benosMaxIsr80hCommands then none
  else
    let id : Fin benosMaxIsr80hCommands :=
      ⟨commandId.toNat, toNat_commandId_lt h⟩
    match isr80hCommands id with
    | some _ => none
    | none => some (Function.update isr80hCommands id (some command))

/-- What `isr80h_register_commands` registers, in its order. -/
def systemCommands : List (Int × Isr80hCommand) :=
  [ (0, .command0Sum)
  , (1, .command1Print)
  , (2, .command2Getkey)
  , (3, .command3Putchar)
  , (4, .command4Malloc)
  , (5, .command5Free)
  , (6, .command6ProcessLoadStart)
  , (7, .command7InvokeSystemCommand)
  , (8, .command8GetProgramArguments)
  , (9, .command9Exit) ]

/-- Commands are registered one after the other. -/
def registerAll (cs : List (Int × Isr80hCommand))
    (isr80hCommands : Isr80hCommands) : Option Isr80hCommands :=
  cs.foldlM (fun t c => isr80hRegisterCommand c.1 c.2 t) isr80hCommands

/-- `isr80h_register_commands` -/
def isr80hRegisterCommands : Isr80hCommands → Option Isr80hCommands :=
  registerAll systemCommands

/-- The function `isr80h_handle_command` looks up, if there is one. -/
def commandFunc (isr80hCommands : Isr80hCommands) (command : Int) :
    Option Isr80hCommand :=
  if h : command < 0 ∨ command ≥ benosMaxIsr80hCommands then none
  else isr80hCommands ⟨command.toNat, toNat_commandId_lt h⟩

-- ================================================================ the kernel

/-- The kernel, with the page directory that is loaded, the keyboard
buffer of the process at each address, `classic_keyboard`, the screen, the
bytes port 0x60 will give one after the other, and the number of writes of
0x20 to port 0x20. -/
structure SysState where
  kernel : KernelState
  directory : Addr
  keyboard : Addr → KeyboardBuffer
  capsLockState : KeyboardCapsLockState
  terminal : TerSys
  port60 : Nat → BitVec 8
  acknowledged : Nat

/-- The memory. -/
abbrev SysState.mem (s : SysState) : Bytes := s.kernel.ram.mem

/-- The kernel with other bytes in its memory. -/
def SysState.setMem (s : SysState) (m : Bytes) : SysState :=
  { s with kernel := s.kernel.setMem m }

/-- `kernel_chunk`, the byte behind `keyboard_scan_set_one`, the arrays of
the functions, the disk, and how many nodes of a list they look at before
they are taken not to end. -/
structure Locals where
  kernelChunk : Addr
  beyond : UInt8
  buf : Addr
  fname : Addr
  path : Addr
  stack : Nat → Addr
  vol : Option Volume
  fuel : Nat

/-- What becomes of a command: its caller gets an answer, or a task is
returned to. -/
inductive Handled
  | answered (value : BitVec 32) (s : SysState)
  | started (task : Addr) (s : SysState)

-- ================================================================= the pages

/-- `paging_switch` -/
def pagingSwitch (directory : Addr) (s : SysState) : SysState :=
  { s with directory := load32 s.mem directory }

/-- `kernel_page`, less the data segments of the kernel. -/
def kernelPage (env : Locals) (s : SysState) : SysState :=
  pagingSwitch env.kernelChunk s

/-- `task_switch` -/
def taskSwitch (task : Addr) (s : SysState) : SysState :=
  let s := { s with kernel := { s.kernel with currentTask := task } }
  pagingSwitch (taskPageDirectory s.mem task) s

/-- `task_page`, less the data segments of a program. -/
def taskPage (s : SysState) : Option SysState :=
  if s.kernel.currentTask = 0#32 then none
  else some (taskSwitch s.kernel.currentTask s)

/-- `task_next` as far as `task_return`: the task it returns to. Without
one it panics. -/
def taskNext (s : SysState) : Option (Addr × SysState) :=
  if s.kernel.currentTask = 0#32 then none
  else
    let nextTask := taskGetNext s.kernel
    if nextTask = 0#32 then none
    else some (nextTask, taskSwitch nextTask s)

-- ================================================================== the state

/-- Where `task->registers` starts. -/
abbrev offRegisters : Addr := 4#32

/-- The fields `task_save_state` copies, in its order: the offset in
`struct registers`, and in `struct interrupt_frame`. -/
def savedFields : List (Nat × Nat) :=
  [ (28, 32)  -- ip
  , (32, 36)  -- cs
  , (36, 40)  -- flags
  , (40, 44)  -- esp
  , (44, 48)  -- ss
  , (24, 28)  -- eax
  , (8, 8)    -- ebp
  , (12, 16)  -- ebx
  , (20, 24)  -- ecx
  , (0, 0)    -- edi
  , (16, 20)  -- edx
  , (4, 4)    -- esi
  ]

/-- One of them. -/
def saveField (task frame : Addr) (m : Bytes) (f : Nat × Nat) : Bytes :=
  store32 m (task + offRegisters + BitVec.ofNat 32 f.1)
    (load32 m (frame + BitVec.ofNat 32 f.2))

/-- `task_save_state` -/
def taskSaveState (task frame : Addr) (m : Bytes) : Bytes :=
  savedFields.foldl (saveField task frame) m

/-- `task_current_save_state` -/
def taskCurrentSaveState (frame : Addr) (s : SysState) : Option SysState :=
  if s.kernel.currentTask = 0#32 then none
  else some (s.setMem (taskSaveState s.kernel.currentTask frame s.mem))

-- =============================================================== the commands

section Commands

variable (env : Locals) (s : SysState)

/-- `task_get_stack_item(task_current(), index)` -/
def stackItem (index : Nat) : Option (BitVec 32) :=
  taskGetStackItem s.mem s.kernel.currentTask index

/-- `task_current()->process` -/
def currentProcess : Addr :=
  load32 s.mem (s.kernel.currentTask + offProcess)

/-- `isr80h_command0_sum` -/
def isr80hCommand0Sum : Option Handled := do
  let v2 ← stackItem s 1
  let v1 ← stackItem s 0
  some (.answered (v1 + v2) s)

/-- `isr80h_command1_print`: what the copy answers is not looked at. -/
def isr80hCommand1Print : Option Handled := do
  let userSpaceMsgBuffer ← stackItem s 0
  let (_, r) ← copyStringFromTask s.kernel.currentTask userSpaceMsgBuffer
    env.buf 1024 s.kernel.ram
  let str ← stringAt r.mem env.buf
  some (.answered 0#32 { s with
    kernel := { s.kernel with ram := r }
    terminal := (print str s.terminal).val })

/-- What `keyboard_pop` looks at. -/
def keyboardSys : KeyboardSys where
  currProcess :=
    if s.kernel.currProcess = 0#32 then none else some s.kernel.currProcess
  taskProcess :=
    if s.kernel.currentTask = 0#32 then none else some (currentProcess s)
  keyboard := s.keyboard

/-- `isr80h_command2_getkey`; a `char` is signed. -/
def isr80hCommand2Getkey : Option Handled :=
  let r := keyboardPop (keyboardSys s)
  some (.answered (r.1.toBitVec.signExtend 32)
    { s with keyboard := r.2.keyboard })

/-- `isr80h_command3_putchar` -/
def isr80hCommand3Putchar : Option Handled := do
  let c ← stackItem s 0
  some (.answered 0#32 { s with
    terminal := (terWritechar ⟨c.setWidth 8⟩ 15 s.terminal).val })

/-- `isr80h_command4_malloc` -/
def isr80hCommand4Malloc : Option Handled := do
  let size ← stackItem s 0
  let a := processMalloc (currentProcess s) size.toNat s.kernel.ram
  some (.answered a.1 { s with kernel := { s.kernel with ram := a.2 } })

/-- `isr80h_command5_free` -/
def isr80hCommand5Free : Option Handled := do
  let ptrToFree ← stackItem s 0
  let r := processFree (currentProcess s) ptrToFree s.kernel.ram
  some (.answered 0#32 { s with kernel := { s.kernel with ram := r } })

/-- `isr80h_command6_process_load_start` -/
def isr80hCommand6ProcessLoadStart : Option Handled := do
  let fnameUserPtr ← stackItem s 0
  let (res, r) ← copyStringFromTask s.kernel.currentTask fnameUserPtr
    env.fname benosMaxPath s.kernel.ram
  let k := { s.kernel with ram := r }
  if res < 0 then some (.answered 0#32 { s with kernel := k })
  else do
    let m ← (startPath env.path env.fname k.ram.mem).val
    let path ← stringAt m env.path
    let l ← processLoadSwitch env.vol path (Function.update env.stack 0 0#32)
      (k.setMem m)
    if l.res < 0 then some (.answered 0#32 { s with kernel := l.kernel })
    else
      let task := load32 l.kernel.ram.mem (l.out 0 + offTask)
      some (.started task (taskSwitch task { s with kernel := l.kernel }))

/-- `isr80h_command7_invoke_system_command` -/
def isr80hCommand7 : Option Handled :=
  match (isr80hCommand7InvokeSystemCommand env.fuel env.vol env.path env.stack
    s.kernel).val with
  | none => none
  | some (.answered value k) => some (.answered value { s with kernel := k })
  | some (.started task k) =>
      some (.started task (taskSwitch task { s with kernel := k }))

/-- `isr80h_command8_get_program_arguments` -/
def isr80hCommand8 : Option Handled := do
  let (value, m) ←
    (isr80hCommand8GetProgramArguments s.kernel.currentTask s.mem).val
  some (.answered value (s.setMem m))

/-- `"Process was terminated"` -/
def terminatedMessage : List UInt8 :=
  [ 0x50, 0x72, 0x6F, 0x63, 0x65, 0x73, 0x73, 0x20, 0x77, 0x61, 0x73, 0x20
  , 0x74, 0x65, 0x72, 0x6D, 0x69, 0x6E, 0x61, 0x74, 0x65, 0x64 ]

/-- `isr80h_command9_exit` -/
def isr80hCommand9Exit : Option Handled := do
  let (res, k) ← processTerminate (currentProcess s) s.kernel
  let s :=
    if res < 0 then { s with kernel := k }
    else
      { s with
        kernel := k
        terminal := (print terminatedMessage s.terminal).val }
  let (nextTask, s) ← taskNext s
  some (.started nextTask s)

/-- The function of a command. -/
def runCommand : Isr80hCommand → Option Handled
  | .command0Sum => isr80hCommand0Sum s
  | .command1Print => isr80hCommand1Print env s
  | .command2Getkey => isr80hCommand2Getkey s
  | .command3Putchar => isr80hCommand3Putchar s
  | .command4Malloc => isr80hCommand4Malloc s
  | .command5Free => isr80hCommand5Free s
  | .command6ProcessLoadStart => isr80hCommand6ProcessLoadStart env s
  | .command7InvokeSystemCommand => isr80hCommand7 env s
  | .command8GetProgramArguments => isr80hCommand8 s
  | .command9Exit => isr80hCommand9Exit s

/-- `isr80h_handle_command` -/
def isr80hHandleCommand (isr80hCommands : Isr80hCommands) (command : Int) :
    Option Handled :=
  match commandFunc isr80hCommands command with
  | none => some (.answered 0#32 s)
  | some func => runCommand env s func

end Commands

/-- `isr80h_handler`, where the frame is at its address. -/
def isr80hHandler (env : Locals) (isr80hCommands : Isr80hCommands)
    (command frame : BitVec 32) (s : SysState) : Option Handled := do
  let s := kernelPage env s
  let s ← taskCurrentSaveState frame s
  match ← isr80hHandleCommand env s isr80hCommands command.toInt with
  | .answered res s =>
      let s ← taskPage s
      some (.answered res s)
  | .started task s => some (.started task s)

/-- How it ends for the assembly, where `task_return` is at this
address. -/
def Handled.ended (taskReturn : Addr) : Handled → X86.Ended SysState
  | .answered value s => .back value s
  | .started task s => .calls taskReturn (task + offRegisters) s

/-- `isr80h_handler`, as the assembly calls it. -/
def isr80hHandlerEnded (env : Locals) (isr80hCommands : Isr80hCommands)
    (taskReturn command frame : BitVec 32) (s : SysState) :
    Option (X86.Ended SysState) :=
  (isr80hHandler env isr80hCommands command frame s).map
    (Handled.ended taskReturn)

end BenOS.Isr80h
