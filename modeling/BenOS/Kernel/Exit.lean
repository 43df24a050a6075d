/-
The end of a process: `process_terminate` of `task/process.c`, in the
memory of the kernel.

A result `none` is an access through null, or the `panic` of
`process_switch_to_any` where no process is left.
-/
import BenOS.Kernel.Load

namespace BenOS.Kernel

open Lib Memory Loader

-- =============================================================== termination

/-- The loop of `process_terminate_allocations` over the first entries of
the table. -/
def terminateAllocations (process : Addr) : Nat → Ram → Ram
  | 0, r => r
  | i + 1, r =>
      let r := terminateAllocations process i r
      processFree process (allocPtr r.mem process i) r

/-- `process_terminate_allocations`: its result is always 0. -/
def processTerminateAllocations (process : Addr) (r : Ram) : Ram :=
  terminateAllocations process benosMaxProgramAllocations r

/-- `elf_close` -/
def elfClose (file : Addr) (r : Ram) : Ram :=
  if file = 0#32 then r
  else kfree file (kfree (load32 r.mem (file + offElfMem)) r)

/-- `process_free_progran_data` -/
def processFreeProgranData (process : Addr) (r : Ram) : Int × Ram :=
  let image := load32 r.mem (process + offImage)
  if r.mem (process + offFiletype) = Tasks.processFiletypeBinary then
    (0, kfree image r)
  else if r.mem (process + offFiletype) = Tasks.processFiletypeElf then
    (0, elfClose image r)
  else (-einvarg, r)

/-- `process_switch_to_any` -/
def processSwitchToAny (k : KernelState) : Option KernelState :=
  match (List.finRange benosMaxProcesses).find? fun i =>
      k.processes i != 0#32 with
  | some i => some { k with currProcess := k.processes i }
  | none => none

/-- `process_unlink`; the index is that of a slot. -/
def processUnlink (process : Addr) (k : KernelState) : Option KernelState :=
  let id := (load16 k.ram.mem (process + offId)).toNat
  if h : id < benosMaxProcesses then
    let k := { k with
      processes := Function.update k.processes ⟨id, h⟩ 0#32 }
    if k.currProcess = process then processSwitchToAny k else some k
  else none

/-- `process_terminate` -/
def processTerminate (process : Addr) (k : KernelState) :
    Option (Int × KernelState) :=
  let r := processTerminateAllocations process k.ram
  let a := processFreeProgranData process r
  if a.1 < 0 then some (a.1, { k with ram := a.2 })
  else do
    let r := kfree (load32 a.2.mem (process + offStack)) a.2
    let k ← taskFree (load32 r.mem (process + offTask)) { k with ram := r }
    let k ← processUnlink process k
    some (a.1, k)

end BenOS.Kernel
