/-
The end of the current task: `isr80h_command9_exit` of
`isr80h/process.c` and `idt_handle_exception` of `idt/idt.c`.

Both terminate the process of the current task and go on to the next
task. On the way the kernel can panic in two places, for want of a
process and for want of a task, and it can follow a null `current_task`;
the outcome tells them apart.
-/
import BenOS.Tasks.Process

namespace BenOS.Tasks

/-- How a call that ends the current task ends itself. -/
inductive ExitOutcome
  /-- `task_return` to the task that is current then. -/
  | resumed (s : ProcessSys)
  /-- The panic of `task_next`. -/
  | noMoreTasks
  /-- The panic of `process_switch_to_any`. -/
  | noProcess
  /-- An access through null, or beside the process table. -/
  | badAccess

/-- `task_next`, behind a termination. -/
def exitTaskNext (s : ProcessSys) : ExitOutcome :=
  match taskGetNext s.tasks with
  | none => .badAccess
  | some none => .noMoreTasks
  | some (some nextTask) =>
      .resumed { s with tasks := taskSwitch s.tasks nextTask }

/-- The process of the current task is terminated, whatever that
answers, and the next task runs. -/
def terminateCurrent (s : ProcessSys) : ExitOutcome :=
  match s.tasks.currentTask with
  | none => .badAccess
  | some task =>
      match processTerminate s (s.tasks.tasks task).process with
      | none => .badAccess
      | some (_, s) =>
          if s.panicked then .noProcess else exitTaskNext s

/-- `isr80h_command9_exit` -/
def isr80hCommand9Exit (s : ProcessSys) : ExitOutcome := terminateCurrent s

/-- `idt_handle_exception` -/
def idtHandleException (s : ProcessSys) : ExitOutcome := terminateCurrent s

end BenOS.Tasks
