/-
Processes: the table, the loader's path through it, and termination, from
`task/process.c`.

A process is a `struct process` at an address of the kernel heap; the
table holds such addresses, null being `none`. What the allocator and the
file layer answer during one load is gathered in `LoadEnv`, so a load is
a function of the state, the answers and the caller's out-parameter. The
out-parameter is a pointer to a pointer: `out i` is what lies `i`
pointers behind it.

A result `none` of an operation that the source does not give one stands
for a dereference of null or of an unset pointer. `panic` loops for ever;
a state that reached it has `panicked` set.

The page directory of the task and the allocations made for the program
are not part of this state: neither the table nor the foreground process
depends on them.
-/
import BenOS.Tasks.List

namespace BenOS.Tasks

-- ================================================================= objects

/-- `PROCESS_FILETYPE_ELF` -/
def processFiletypeElf : UInt8 := 0

/-- `PROCESS_FILETYPE_BINARY` -/
def processFiletypeBinary : UInt8 := 1

/-- `struct process`; `image` is the union of `ptr` and `elf`. -/
structure Process where
  id : UInt16
  filetype : UInt8
  image : Option Addr
  size : BitVec 32
  stack : Option Addr
  task : Option Addr

/-- `process_init`: a process of zeros. -/
def processInit : Process :=
  { id := 0, filetype := 0, image := none, size := 0#32, stack := none
    task := none }

/-- The globals of `process.c` over the tasks, and the memory the
processes live in. -/
structure ProcessSys where
  tasks : TaskSys
  processes : Fin benosMaxProcesses → Option Addr
  currProcess : Option Addr
  memory : Addr → Process
  panicked : Bool

/-- What one load is answered by the allocator and the files. -/
structure LoadEnv where
  /-- `kzalloc` for the process -/
  process : Option Addr
  /-- the image `elf_load` sets its out-parameter to, if it gets there -/
  elf : Option Addr
  /-- what lies at `e_entry` behind `elf_header(process->elf)`: the entry
  point of that image, or the word there once more behind null, a mapped
  address -/
  eEntry : BitVec 32
  /-- result, image and size of `process_load_binary` -/
  binary : Int × Option Addr × BitVec 32
  /-- `kzalloc` for the program stack -/
  stack : Option Addr
  /-- `kzalloc` for the task -/
  task : Option Addr
  /-- `paging_new_4gb` for the task -/
  chunk : Option Addr

/-- What a call of a load leaves behind: the result code and what lies at
the out-parameter. -/
structure LoadResult where
  sys : ProcessSys
  res : Int
  out : Nat → Option Addr

-- =============================================================== the table

/-- `process_get` -/
def processGet (s : ProcessSys) (processId : Int) : Option Addr :=
  if h : processId < 0 ∨ processId ≥ benosMaxProcesses then none
  else
    s.processes ⟨processId.toNat, by
      simp only [benosMaxProcesses] at h ⊢
      omega⟩

/-- `process_switch` -/
def processSwitch (s : ProcessSys) (proc : Option Addr) : ProcessSys :=
  { s with currProcess := proc }

/-- The loop that looks for the first slot with a given property. -/
def firstSlot (p : Option Addr → Bool)
    (processes : Fin benosMaxProcesses → Option Addr) :
    Option (Fin benosMaxProcesses) :=
  (List.finRange benosMaxProcesses).find? fun i => p (processes i)

/-- `process_get_free_slot` -/
def processGetFreeSlot (s : ProcessSys) : Int :=
  match firstSlot (fun p => p.isNone) s.processes with
  | some i => i.val
  | none => -eistkn

/-- `process_switch_to_any` -/
def processSwitchToAny (s : ProcessSys) : ProcessSys :=
  match firstSlot (fun p => p.isSome) s.processes with
  | some i => processSwitch s (s.processes i)
  | none => { s with panicked := true }

/-- `process_unlink` -/
def processUnlink (s : ProcessSys) (process : Addr) : Option ProcessSys :=
  let id := (s.memory process).id.toNat
  if h : id < benosMaxProcesses then
    let s := { s with processes := Function.update s.processes ⟨id, h⟩ none }
    if s.currProcess = some process then some (processSwitchToAny s)
    else some s
  else none

-- ================================================================== loading

/-- `elf_load`: it answers 0 also where it gave up before setting its
out-parameter. -/
def elfLoad (elf : Option Addr) : Int × Option Addr := (0, elf)

/-- `process_load_elf` -/
def processLoadElf (env : LoadEnv) (process : Process) : Int × Process :=
  let r := elfLoad env.elf
  if r.1 < 0 then (r.1, process)
  else
    (r.1, { process with filetype := processFiletypeElf, image := r.2 })

/-- `process_load_binary`, as far as the process goes. -/
def processLoadBinary (env : LoadEnv) (process : Process) : Int × Process :=
  let r := env.binary
  if r.1 < 0 then (r.1, process)
  else
    (r.1,
      { process with
        filetype := processFiletypeBinary, image := r.2.1, size := r.2.2 })

/-- `process_load_data` -/
def processLoadData (env : LoadEnv) (process : Process) : Int × Process :=
  let r := processLoadElf env process
  if r.1 = -einformat then processLoadBinary env r.2 else r

/-- What `task_init` reads from the process for the entry point. An ELF
process whose `elf_file` is null is read all the same: the reads go
through low memory, which is mapped. -/
def processEntry (env : LoadEnv) (process : Process) : TaskEntry :=
  if process.filetype = processFiletypeElf then .elf env.eEntry else .binary

/-- `process_map_memory`, as far as its result goes: `none` is the panic
on an unknown file type. What `process_map_elf` answers is overwritten by
what `process_map_binary` answers, which is always 0. -/
def processMapMemory (process : Process) : Option Int :=
  if process.filetype = processFiletypeElf
      ∨ process.filetype = processFiletypeBinary then some 0
  else none

/-- `process_load_for_slot` from `process_map_memory` on. -/
def processMap (s : ProcessSys) (process : Addr) (processSlot : Nat)
    (out : Nat → Option Addr) : Option LoadResult :=
  match processMapMemory (s.memory process) with
  | none => some { sys := { s with panicked := true }, res := 0, out := out }
  | some res =>
      if res < 0 then
        match taskFree s.tasks (s.memory process).task with
        | none => none
        | some tasks =>
            some { sys := { s with tasks := tasks }, res := res, out := out }
      else
        -- *process = _process
        let out := Function.update out 0 (some process)
        -- process[process_slot] = _process
        let out := Function.update out processSlot (some process)
        some { sys := s, res := res, out := out }

/-- `process_load_for_slot`. A taken slot leaves `_process` unset and the
exit reads it. Where the source gives a process back to the heap, or null
to it, nothing of this state changes. -/
def processLoadForSlot (s : ProcessSys) (env : LoadEnv)
    (out : Nat → Option Addr) (processSlot : Nat) : Option LoadResult :=
  if processGet s processSlot ≠ none then none
  else
    match env.process with
    | none => some { sys := s, res := -enomem, out := out }
    | some process =>
        let r := processLoadData env processInit
        let s := { s with memory := Function.update s.memory process r.2 }
        if r.1 < 0 then some { sys := s, res := r.1, out := out }
        else
          match env.stack with
          | none => some { sys := s, res := -enomem, out := out }
          | some stack =>
              let loaded := { r.2 with
                stack := some stack, id := UInt16.ofNat processSlot }
              let entry := processEntry env loaded
              match taskNew s.tasks env.task env.chunk process entry with
              | none => none
              | some tasks =>
                  let loaded := { loaded with task := env.task }
                  let s := { s with
                    tasks := tasks
                    memory := Function.update s.memory process loaded }
                  if env.task = none then
                    some { sys := s, res := 0, out := out }
                  else
                    processMap s process processSlot out

/-- `process_load` -/
def processLoad (s : ProcessSys) (env : LoadEnv) (out : Nat → Option Addr) :
    Option LoadResult :=
  let processSlot := processGetFreeSlot s
  if processSlot < 0 then some { sys := s, res := -eistkn, out := out }
  else processLoadForSlot s env out processSlot.toNat

/-- `process_load_switch` -/
def processLoadSwitch (s : ProcessSys) (env : LoadEnv)
    (out : Nat → Option Addr) : Option LoadResult :=
  match processLoad s env out with
  | none => none
  | some r =>
      if r.res = 0 then
        some { r with sys := processSwitch r.sys (r.out 0) }
      else some r

-- ============================================================== termination

/-- `process_free_progran_data`, as far as its result goes. -/
def processFreeProgranData (process : Process) : Int :=
  if process.filetype = processFiletypeBinary then 0
  else if process.filetype = processFiletypeElf then 0
  else -einvarg

/-- `process_terminate`: the result code and the state. The allocations
are given back with the result 0 before anything else. -/
def processTerminate (s : ProcessSys) (process : Addr) :
    Option (Int × ProcessSys) :=
  let res := processFreeProgranData (s.memory process)
  if res < 0 then some (res, s)
  else
    match taskFree s.tasks (s.memory process).task with
    | none => none
    | some tasks =>
        match processUnlink { s with tasks := tasks } process with
        | none => none
        | some s => some (res, s)

end BenOS.Tasks
