/-
Loading a process: `process_load_for_slot` of `task/process.c` and what it
calls, in the memory of the kernel.

The out-parameter is a pointer to a pointer: `out i` is what lies `i`
pointers behind it. A result `none` is an access through null or through
a pointer that was never set, or a `panic`.
-/
import BenOS.Kernel.Alloc
import BenOS.Kernel.Task

namespace BenOS.Kernel

open Lib Memory Fat Loader

-- ================================================================== mapping

/-- The memory with the page directory of a process's task. -/
def memoryPager (process : Addr) : Pager Bytes where
  bytes := fun m => m
  set := fun virt val m => chunkSet (processPageDirectory m process) virt val m

/-- What `process_map_memory` looks up in a `struct process`. -/
def programAt (m : Bytes) (process : Addr) : Program where
  filetype := m (process + offFiletype)
  ptr := load32 m (process + offImage)
  elfMem := elfHeader m (load32 m (process + offImage))
  size := load32 m (process + offSize)
  stack := load32 m (process + offStack)

/-- `process_map_memory` -/
def processMapMemory (process : Addr) (k : KernelState) :
    Option (Int × KernelState) := do
  let r ← Loader.processMapMemory (memoryPager process)
    (programAt k.ram.mem process) k.ram.mem
  some (r.val.1, k.setMem r.val.2)

-- ================================================================== loading

/-- What a load leaves: the result code, what lies at the out-parameter,
and the kernel. -/
structure Loaded where
  res : Int
  out : Nat → Addr
  kernel : KernelState

theorem toNat_processId_lt {processId : Int}
    (h : ¬(processId < 0 ∨ processId ≥ benosMaxProcesses)) :
    processId.toNat < benosMaxProcesses := by
  simp only [benosMaxProcesses] at h ⊢
  omega

/-- `process_get` -/
def processGet (k : KernelState) (processId : Int) : Addr :=
  if h : processId < 0 ∨ processId ≥ benosMaxProcesses then 0#32
  else k.processes ⟨processId.toNat, toNat_processId_lt h⟩

/-- `out` of `process_load_for_slot` with an error code; `process` is
`_process`. -/
def processLoadFailed (process : Addr) (res : Int) (out : Nat → Addr)
    (k : KernelState) : Option Loaded := do
  let k ←
    if process ≠ 0#32 ∧ load32 k.ram.mem (process + offTask) ≠ 0#32 then
      taskFree (load32 k.ram.mem (process + offTask)) k
    else some k
  some { res := res, out := out, kernel := k.kfree process }

/-- `process_load_for_slot` from `task_new` on. -/
def processLoadTask (process : Addr) (out : Nat → Addr) (processSlot : Nat)
    (k : KernelState) : Option Loaded := do
  let (task, k) ← taskNew process k
  if task.toInt = 0 then some { res := task.toInt, out := out, kernel := k }
  else
    let k := k.store (process + offTask) task
    let (res, k) ← processMapMemory process k
    if res < 0 then processLoadFailed process res out k
    else
      -- *process = _process
      let out := Function.update out 0 process
      -- process[process_slot] = _process
      let out := Function.update out processSlot process
      some { res := res, out := out, kernel := k }

/-- What `process_load_for_slot` puts into the process before `task_new`:
its name, its stack and its number. -/
def setStack (m : Bytes) (process : Addr) (fname : List UInt8) (stack : Addr)
    (processSlot : Nat) : Bytes :=
  let m := strncpy m (process + offFilename) fname benosMaxPath
  let m := store32 m (process + offStack) stack
  writeBytes m (process + offId) 2 (byteOf (BitVec.ofNat 32 processSlot))

/-- `process_load_for_slot` from the program stack on. -/
def processLoadStack (fname : List UInt8) (process : Addr) (out : Nat → Addr)
    (processSlot : Nat) (k : KernelState) : Option Loaded :=
  let stack := k.kzalloc benosUserProgramStackSize
  if stack.1 = 0#32 then processLoadFailed process (-enomem) out stack.2
  else
    processLoadTask process out processSlot
      (stack.2.setMem
        (setStack stack.2.ram.mem process fname stack.1 processSlot))

/-- `process_load_for_slot`. A taken slot leaves `_process` unset, and the
exit reads it. -/
def processLoadForSlot (vol : Option Volume) (fname : List UInt8)
    (out : Nat → Addr) (processSlot : Nat) (k : KernelState) : Option Loaded :=
  if processGet k processSlot ≠ 0#32 then none
  else
    let process := k.kzalloc sizeofProcess
    if process.1 = 0#32 then processLoadFailed process.1 (-enomem) out process.2
    else do
      let k := process.2.setMem
        (memset process.2.ram.mem process.1 0x00 sizeofProcess)
      let (res, k) ← processLoadData vol fname process.1 k
      if res < 0 then processLoadFailed process.1 res out k
      else processLoadStack fname process.1 out processSlot k

/-- `process_get_free_slot` -/
def processGetFreeSlot (k : KernelState) : Int :=
  match (List.finRange benosMaxProcesses).find? fun i =>
      k.processes i == 0#32 with
  | some i => i.val
  | none => -eistkn

/-- `process_load` -/
def processLoad (vol : Option Volume) (fname : List UInt8) (out : Nat → Addr)
    (k : KernelState) : Option Loaded :=
  let processSlot := processGetFreeSlot k
  if processSlot < 0 then some { res := -eistkn, out := out, kernel := k }
  else processLoadForSlot vol fname out processSlot.toNat k

end BenOS.Kernel
