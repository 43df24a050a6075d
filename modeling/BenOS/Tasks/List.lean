/-
The tasks of `task/task.c` and the list the scheduler walks.

A task is a `struct task` at an address of the kernel heap. The model
keeps the memory those addresses point to (`TaskSys.tasks`) as it is in
the source: a freed task's memory stays readable and writable, and a
pointer to it stays the same pointer. The null pointer is `none`.

A result `none` of an operation that the source does not give one stands
for a null dereference: the operation has no defined outcome. The list
itself is never consulted as a list; each function follows the links and
the three global pointers, as the source does.
-/
import Mathlib.Logic.Function.Basic
import BenOS.Config

namespace BenOS.Tasks

-- ================================================================= objects

/-- `struct registers` -/
structure Registers where
  edi : BitVec 32
  esi : BitVec 32
  ebp : BitVec 32
  ebx : BitVec 32
  edx : BitVec 32
  ecx : BitVec 32
  eax : BitVec 32
  ip : BitVec 32
  cs : BitVec 32
  flags : BitVec 32
  esp : BitVec 32
  ss : BitVec 32
deriving DecidableEq

/-- A `struct registers` fresh from `kzalloc`. -/
def Registers.zero : Registers :=
  ⟨0, 0, 0, 0, 0, 0, 0, 0, 0, 0, 0, 0⟩

/-- `struct task` -/
structure Task where
  pageDirectory : Option Addr
  registers : Registers
  process : Addr
  next : Option Addr
  prev : Option Addr
deriving DecidableEq

/-- The globals of `task.c`, the memory the tasks live in, and the page
directory `paging_switch` loaded last. -/
structure TaskSys where
  tasks : Addr → Task
  currentTask : Option Addr
  taskTail : Option Addr
  taskHead : Option Addr
  currDir : Option Addr

/-- `process->filetype`, with the entry point an ELF image names. -/
inductive TaskEntry
  | elf (eEntry : BitVec 32)
  | binary

-- ================================================================ creation

/-- `task_init` on the memory of a new task: the result code and what the
memory holds. `chunk` is what `paging_new_4gb` answers. -/
def taskInit (chunk : Option Addr) (process : Addr) (entry : TaskEntry) :
    Int × Task :=
  let task : Task :=
    { pageDirectory := chunk, registers := Registers.zero, process := 0#32
      next := none, prev := none }
  match chunk with
  | none => (-eio, task)
  | some _ =>
      let ip := match entry with
        | .elf eEntry => eEntry
        | .binary => benosProgramVirtualAddress
      (0,
        { task with
          registers :=
            { Registers.zero with
              ip := ip
              ss := userDataSegment
              cs := userCodeSegment
              esp := benosProgramVirtualStackAddressStart }
          process := process })

/-- `task_get_next`: the inner `none` is a null result, the outer one the
dereference of a null `current_task`. -/
def taskGetNext (s : TaskSys) : Option (Option Addr) :=
  match s.currentTask with
  | none => none
  | some current =>
      match (s.tasks current).next with
      | none => some s.taskHead
      | some next => some (some next)

/-- `task_list_remove`, the predecessor: its `next` skips the task. -/
def taskListSkip (s : TaskSys) (task : Addr) : TaskSys :=
  match (s.tasks task).prev with
  | some prev =>
      { s with
        tasks := Function.update s.tasks prev
          { s.tasks prev with next := (s.tasks task).next } }
  | none => s

/-- `task_list_remove`, the head: it moves on from the task. -/
def taskListMoveHead (s : TaskSys) (task : Addr) : TaskSys :=
  if s.taskHead = some task then { s with taskHead := (s.tasks task).next }
  else s

/-- `task_list_remove`, the tail: it moves back from the task. -/
def taskListMoveTail (s : TaskSys) (task : Addr) : TaskSys :=
  if s.taskTail = some task then { s with taskTail := (s.tasks task).prev }
  else s

/-- `task_list_remove` -/
def taskListRemove (s : TaskSys) (task : Addr) : Option TaskSys :=
  let s := taskListSkip s task
  let s := taskListMoveHead s task
  let s := taskListMoveTail s task
  if s.currentTask = some task then
    match taskGetNext s with
    | some next => some { s with currentTask := next }
    | none => none
  else some s

/-- `task_free`. A null task, and a task without a page directory, are
dereferenced before anything else happens. -/
def taskFree (s : TaskSys) (task : Option Addr) : Option TaskSys :=
  match task with
  | none => none
  | some task =>
      match (s.tasks task).pageDirectory with
      | none => none
      | some _ => taskListRemove s task

/-- `task_new`, from what `kzalloc` answers (`mem`) and what
`paging_new_4gb` answers (`chunk`). Where either fails the source calls
`task_free` on the unfinished task. -/
def taskNew (s : TaskSys) (mem chunk : Option Addr) (process : Addr)
    (entry : TaskEntry) : Option TaskSys :=
  match mem with
  | none => taskFree s none
  | some task =>
      let r := taskInit chunk process entry
      let s := { s with tasks := Function.update s.tasks task r.2 }
      if r.1 ≠ benosAllOk then taskFree s (some task)
      else if s.taskHead = none then
        some { s with
          taskHead := some task
          taskTail := some task
          currentTask := some task }
      else
        match s.taskTail with
        | none => none
        | some tail =>
            let s := { s with
              tasks := Function.update s.tasks tail
                { s.tasks tail with next := some task } }
            let s := { s with
              tasks := Function.update s.tasks task
                { s.tasks task with prev := s.taskTail } }
            some { s with taskTail := some task }

/-- `task_switch` -/
def taskSwitch (s : TaskSys) (task : Addr) : TaskSys :=
  { s with
    currentTask := some task
    currDir := (s.tasks task).pageDirectory }

end BenOS.Tasks
