/-
The arguments of a program: `isr80h_command8_get_program_arguments` of
`isr80h/process.c`, with `task_get_stack_item` and `task_virt_addr_to_phys`
of `task/task.c` and `process_get_args` of `task/process.c`.

The call works under the directory of the kernel, where every page is
mapped to itself, so that it writes at the physical address it computes.
The log is of the bytes it writes.
-/
import BenOS.Kernel.CopyString
import BenOS.Lib.Traced

namespace BenOS.Kernel

open Lib Memory Traced

/-- The word at an address of a space. -/
def Space.word (space : Space) (m : Bytes) (a : Addr) : Option (BitVec 32) := do
  let a0 ← space m a
  let a1 ← space m (a + 1#32)
  let a2 ← space m (a + 2#32)
  let a3 ← space m (a + 3#32)
  some ((m a3).toBitVec ++ (m a2).toBitVec ++ (m a1).toBitVec
    ++ (m a0).toBitVec)

/-- `task->page_directory->directory_entry` -/
def taskDirectoryEntry (m : Bytes) (task : Addr) : Addr :=
  load32 m (taskPageDirectory m task)

/-- `task_get_stack_item`; a stack that is not there is a page fault. -/
def taskGetStackItem (m : Bytes) (task : Addr) (index : Nat) :
    Option (BitVec 32) :=
  let spPtr := load32 m (task + offRegistersEsp)
  -- `task_page_task`
  Space.word (pageWalk (taskDirectoryEntry m task)) m
    (spPtr + BitVec.ofNat 32 (4 * index))

/-- `task_virt_addr_to_phys` -/
def taskVirtAddrToPhys (m : Bytes) (task virt : Addr) : Addr :=
  pagingGetPhysAddr m (taskDirectoryEntry m task) virt

/-- A word is written. -/
def putWord (a : Addr) (v : BitVec 32) (m : Bytes) : Traced Addr Bytes :=
  ⟨store32 m a v, (List.range 4).map fun i => a + BitVec.ofNat 32 i⟩

/-- `process_get_args` -/
def processGetArgs (process argc argv : Addr) (m : Bytes) :
    Traced Addr Bytes := do
  let m ← putWord argc (load32 m (process + offArgc)) m
  putWord argv (load32 m (process + offArgv)) m

/-- `isr80h_command8_get_program_arguments`, for the current task: what it
answers, and the memory. -/
def isr80hCommand8GetProgramArguments (taskCurrent : Addr) (m : Bytes) :
    Traced Addr (Option (BitVec 32 × Bytes)) := do
  let process := load32 m (taskCurrent + offProcess)
  match taskGetStackItem m taskCurrent 0 with
  | none => pure none
  | some ptr => do
      let args := taskVirtAddrToPhys m taskCurrent ptr
      -- `&args->argc` and `&args->argv`
      let m ← processGetArgs process args (args + 4#32) m
      pure (some (0#32, m))

end BenOS.Kernel
