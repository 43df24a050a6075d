/-
Context switching: the interrupt entry of `idt/idt.asm`, the state
`task_save_state` takes from the frame, and the way back to user mode
through `task_return` in `task/task.asm`.

Three layouts meet here. The CPU and `pushad` lay thirteen words on the
kernel stack, which `struct interrupt_frame` reads by position;
`task_save_state` copies twelve of them by name into `struct registers`;
and the assembly reads that structure by byte offset
(`Registers.word`). The kernel stack is a list of words, its top first.

A `Machine` is the kernel between two entries: the task globals, the
live tasks, and what the CPU holds for the task it runs in user mode. An
`Event` is one way out of user mode and back. The flags register the
kernel happens to run with when `task_return` executes `pushf` is an
input of the events that reach it.
-/
import BenOS.Tasks.List

namespace BenOS.Tasks

-- ================================================================= the CPU

/-- The general purpose registers that `pushad` saves, less `esp`. -/
structure Gprs where
  edi : BitVec 32
  esi : BitVec 32
  ebp : BitVec 32
  ebx : BitVec 32
  edx : BitVec 32
  ecx : BitVec 32
  eax : BitVec 32

/-- What the CPU holds while a task runs: it runs in ring 3. -/
structure UserCpu extends Gprs where
  ip : BitVec 32
  cs : BitVec 16
  flags : BitVec 32
  esp : BitVec 32
  ss : BitVec 16
  ring : cs &&& 3#16 = 3#16

/-- `tss.esp0`: where the kernel stack starts on an entry from ring 3. -/
def tssEsp0 : BitVec 32 := 0x600000#32

/-- The words the CPU pushes on an interrupt in ring 3. -/
def interruptEntry (cpu : UserCpu) : List (BitVec 32) :=
  let stack := [cpu.ss.setWidth 32]
  let stack := cpu.esp :: stack
  let stack := cpu.flags :: stack
  let stack := cpu.cs.setWidth 32 :: stack
  cpu.ip :: stack

/-- `pushad`, with `esp` as it was before the instruction. -/
def pushad (gprs : Gprs) (esp : BitVec 32) (stack : List (BitVec 32)) :
    List (BitVec 32) :=
  let stack := gprs.eax :: stack
  let stack := gprs.ecx :: stack
  let stack := gprs.edx :: stack
  let stack := gprs.ebx :: stack
  let stack := esp :: stack
  let stack := gprs.ebp :: stack
  let stack := gprs.esi :: stack
  gprs.edi :: stack

/-- `popad`: the registers and the stack behind them. The word `pushad`
left for `esp` is skipped. -/
def popad : List (BitVec 32) → Option (Gprs × List (BitVec 32))
  | edi :: esi :: ebp :: _ :: ebx :: edx :: ecx :: eax :: stack =>
      some (⟨edi, esi, ebp, ebx, edx, ecx, eax⟩, stack)
  | _ => none

/-- `iretd` out to ring 3: `ip`, `cs` and the flags, then `esp` and `ss`
because the ring changes. A code segment of another ring is no return to
a task. -/
def iretd (gprs : Gprs) : List (BitVec 32) → Option UserCpu
  | ip :: cs :: flags :: esp :: ss :: _ =>
      if h : cs.setWidth 16 &&& 3#16 = 3#16 then
        some
          { toGprs := gprs, ip := ip, cs := cs.setWidth 16, flags := flags
            esp := esp, ss := ss.setWidth 16, ring := h }
      else none
  | _ => none

-- ================================================================== layouts

/-- `struct interrupt_frame` -/
structure InterruptFrame where
  edi : BitVec 32
  esi : BitVec 32
  ebp : BitVec 32
  reserved : BitVec 32
  ebx : BitVec 32
  edx : BitVec 32
  ecx : BitVec 32
  eax : BitVec 32
  ip : BitVec 32
  cs : BitVec 32
  flags : BitVec 32
  esp : BitVec 32
  ss : BitVec 32

/-- The frame a pointer to the top of the stack names. -/
def InterruptFrame.ofStack : List (BitVec 32) → Option InterruptFrame
  | edi :: esi :: ebp :: reserved :: ebx :: edx :: ecx :: eax :: ip :: cs ::
      flags :: esp :: ss :: _ =>
      some ⟨edi, esi, ebp, reserved, ebx, edx, ecx, eax, ip, cs, flags, esp,
        ss⟩
  | _ => none

/-- The word at a byte offset of a `struct registers`. -/
def Registers.word (r : Registers) : Nat → BitVec 32
  | 0 => r.edi
  | 4 => r.esi
  | 8 => r.ebp
  | 12 => r.ebx
  | 16 => r.edx
  | 20 => r.ecx
  | 24 => r.eax
  | 28 => r.ip
  | 32 => r.cs
  | 36 => r.flags
  | 40 => r.esp
  | 44 => r.ss
  | _ => 0#32

-- ============================================================ save and return

/-- `task_save_state` -/
def taskSaveState (task : Task) (frame : InterruptFrame) : Task :=
  { task with
    registers :=
      { ip := frame.ip
        cs := frame.cs
        flags := frame.flags
        esp := frame.esp
        ss := frame.ss
        eax := frame.eax
        ebp := frame.ebp
        ebx := frame.ebx
        ecx := frame.ecx
        edi := frame.edi
        edx := frame.edx
        esi := frame.esi } }

/-- `task_current_save_state`; without a current task it panics. -/
def taskCurrentSaveState (s : TaskSys) (frame : InterruptFrame) :
    Option TaskSys :=
  match s.currentTask with
  | none => none
  | some task =>
      some { s with
        tasks := Function.update s.tasks task
          (taskSaveState (s.tasks task) frame) }

/-- `restore_general_purpose_registers`. `ebp` is the argument's frame
pointer only until `[ebx+8]` is loaded into it, and `ebx` comes last. -/
def restoreGeneralPurposeRegisters (regs : Registers) : Gprs where
  edi := regs.word 0
  esi := regs.word 4
  ebp := regs.word 8
  edx := regs.word 16
  ecx := regs.word 20
  eax := regs.word 24
  ebx := regs.word 12

/-- `task_return`, where the kernel runs with the flags `kflags`. -/
def taskReturn (regs : Registers) (kflags : BitVec 32) : Option UserCpu :=
  let stack := [regs.word 44]
  let stack := regs.word 40 :: stack
  -- pushf; pop eax; or eax, 0x200; push eax
  let eax := kflags
  let eax := eax ||| 0x200#32
  let stack := eax :: stack
  let stack := regs.word 32 :: stack
  let stack := regs.word 28 :: stack
  iretd (restoreGeneralPurposeRegisters regs) stack

/-- `task_next`: `none` is the panic for want of a task, a null
`current_task`, or a return to no task. -/
def taskNext (s : TaskSys) (kflags : BitVec 32) : Option (TaskSys × UserCpu) :=
  match taskGetNext s with
  | some (some next) =>
      let s := taskSwitch s next
      match taskReturn (s.tasks next).registers kflags with
      | some cpu => some (s, cpu)
      | none => none
  | _ => none

/-- `task_next` as far as `task_return`, which changes no task. -/
def taskNextSwitch (s : TaskSys) : Option TaskSys :=
  match taskGetNext s with
  | some (some next) => some (taskSwitch s next)
  | _ => none

/-- A clock interrupt with the frame it saves, from `interrupt_handler`
through `idt_clock` as far as `task_return`. -/
def idtClock (s : TaskSys) (frame : InterruptFrame) : Option TaskSys :=
  match taskCurrentSaveState s frame with
  | some s => taskNextSwitch s
  | none => none

/-- `task_page` -/
def taskPage (s : TaskSys) : Option TaskSys :=
  match s.currentTask with
  | none => none
  | some task => some (taskSwitch s task)

-- ================================================================ the machine

/-- The kernel between two entries, the task it runs in user mode, and
the tasks that are live. -/
structure Machine where
  sys : TaskSys
  live : List Addr
  cpu : UserCpu

/-- One way out of user mode and back, or none. -/
inductive Event
  /-- The running task executes instructions of its own. -/
  | user (cpu : UserCpu)
  /-- `idt_clock` -/
  | clock (kflags : BitVec 32)
  /-- Any other interrupt that returns to where it came from, with or
  without a callback of its own. -/
  | irq (callback : Bool)
  /-- A command of `int 0x80` that returns `result` to its caller. -/
  | syscall (result : BitVec 32)
  /-- Commands 6 and 7: a new process is loaded and switched to. -/
  | load (mem chunk process : Addr) (entry : TaskEntry) (kflags : BitVec 32)
  /-- Command 9 and `idt_handle_exception`: the current task is freed
  with its process, and the next one runs. -/
  | exit (kflags : BitVec 32)

/-- The kernel stack when an entry has saved all registers. -/
def entryStack (cpu : UserCpu) : List (BitVec 32) :=
  let stack := interruptEntry cpu
  pushad cpu.toGprs (tssEsp0 - 20#32) stack

/-- The entry of an interrupt or a command as far as
`task_current_save_state`. -/
def saveOnEntry (m : Machine) : Option TaskSys :=
  match InterruptFrame.ofStack (entryStack m.cpu) with
  | some frame => taskCurrentSaveState m.sys frame
  | none => none

/-- The exit of an interrupt or a command that goes back to the frame it
came with. -/
def leaveByFrame (m : Machine) : Option UserCpu :=
  match popad (entryStack m.cpu) with
  | some (gprs, stack) => iretd gprs stack
  | none => none

/-- What the kernel and the CPU make of one event. -/
def machineStep (m : Machine) : Event → Option Machine
  | .user cpu => some { m with cpu := cpu }
  | .clock kflags =>
      match saveOnEntry m with
      | none => none
      | some sys =>
          match taskNext sys kflags with
          | some (sys, cpu) => some { m with sys := sys, cpu := cpu }
          | none => none
  | .irq callback =>
      match if callback then saveOnEntry m else some m.sys with
      | none => none
      | some sys =>
          match taskPage sys, leaveByFrame m with
          | some sys, some cpu => some { m with sys := sys, cpu := cpu }
          | _, _ => none
  | .syscall result =>
      match saveOnEntry m with
      | none => none
      | some sys =>
          match taskPage sys, leaveByFrame m with
          | some sys, some cpu =>
              some { m with
                sys := sys
                cpu := { cpu with eax := result } }
          | _, _ => none
  | .load mem chunk process entry kflags =>
      if mem ∈ m.live then none
      else
        match saveOnEntry m with
        | none => none
        | some sys =>
            match taskNew sys (some mem) (some chunk) process entry with
            | none => none
            | some sys =>
                let sys := taskSwitch sys mem
                match taskReturn (sys.tasks mem).registers kflags with
                | some cpu =>
                    some { sys := sys, live := m.live ++ [mem], cpu := cpu }
                | none => none
  | .exit kflags =>
      match saveOnEntry m, m.sys.currentTask with
      | some sys, some task =>
          match taskFree sys (some task) with
          | none => none
          | some sys =>
              match taskNext sys kflags with
              | some (sys, cpu) =>
                  some { sys := sys, live := m.live.erase task, cpu := cpu }
              | none => none
      | _, _ => none

/-- The flags the kernel runs with when an event reaches `task_return`. -/
def Event.kernelFlags : Event → Option (BitVec 32)
  | .clock kflags => some kflags
  | .load _ _ _ _ kflags => some kflags
  | .exit kflags => some kflags
  | _ => none

end BenOS.Tasks
