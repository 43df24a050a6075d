/-
The heap of a process: `process_malloc` and `process_free` of
`task/process.c`, in the memory of the kernel.

A `struct process`, its task, its page directory and the blocks it is
given all lie in the one memory, and the functions find them there: the
allocation table is 1024 pairs of words of the process, the directory is
reached through `process->task->page_directory`.
-/
import BenOS.Kernel.Layout
import BenOS.Memory.Kheap
import BenOS.Memory.Proofs.Directory

namespace BenOS.Kernel

open Lib Memory

-- ==================================================== the allocation table

/-- Where `process->allocations[i].ptr` lies. -/
def allocPtrAddress (process : Addr) (i : Nat) : Addr :=
  process + BitVec.ofNat 32 (offAllocations + sizeofProcessAllocation * i)

/-- Where `process->allocations[i].size` lies. -/
def allocSizeAddress (process : Addr) (i : Nat) : Addr :=
  process + BitVec.ofNat 32 (offAllocations + sizeofProcessAllocation * i + 4)

/-- `process->allocations[i].ptr` -/
def allocPtr (m : Bytes) (process : Addr) (i : Nat) : Addr :=
  load32 m (allocPtrAddress process i)

/-- `process->allocations[i].size` -/
def allocSize (m : Bytes) (process : Addr) (i : Nat) : BitVec 32 :=
  load32 m (allocSizeAddress process i)

/-- The lowest index of the table with a pointer. -/
def allocIndex (m : Bytes) (process ptr : Addr) : Option Nat :=
  (List.range benosMaxProgramAllocations).find? fun i =>
    allocPtr m process i == ptr

/-- `process_find_free_alloc_index` -/
def processFindFreeAllocIndex (m : Bytes) (process : Addr) : Int :=
  match allocIndex m process 0#32 with
  | some i => i
  | none => -enomem

/-- `process_get_allocation_by_addr`, the index of the allocation. -/
def processGetAllocationByAddr (m : Bytes) (process ptr : Addr) : Option Nat :=
  allocIndex m process ptr

/-- One entry of the table is set. -/
def setAllocation (m : Bytes) (process : Addr) (i : Nat) (ptr : Addr)
    (size : BitVec 32) : Bytes :=
  store32 (store32 m (allocPtrAddress process i) ptr)
    (allocSizeAddress process i) size

/-- The loop of `process_allocation_ujoin` over the first `n` entries. -/
def ujoinLoop (process ptr : Addr) : Nat → Bytes → Bytes
  | 0, m => m
  | n + 1, m =>
      let m := ujoinLoop process ptr n m
      if allocPtr m process n = ptr then setAllocation m process n 0#32 0#32
      else m

/-- `process_allocation_ujoin` -/
def processAllocationUjoin (m : Bytes) (process ptr : Addr) : Bytes :=
  ujoinLoop process ptr benosMaxProgramAllocations m

-- ================================================================== the heap

/-- `process->task->page_directory` -/
def processPageDirectory (m : Bytes) (process : Addr) : Addr :=
  load32 m (load32 m (process + offTask) + offPageDirectory)

/-- The pages from `ptr` on that hold `size` bytes are mapped to
themselves. -/
def mapAllocation (m : Bytes) (process ptr : Addr) (size flags : BitVec 32) :
    Int × Bytes :=
  pagingMapTo (chunkSet (processPageDirectory m process)) ptr ptr
    (pagingAlignAddress (ptr + size)) flags m

/-- The flags `process_malloc` maps with. -/
abbrev allocFlags : BitVec 32 :=
  pagingIsWritable ||| pagingIsPresent ||| pagingAccessFromAll

/-- `process_malloc`: null where it fails. -/
def processMalloc (process : Addr) (size : Nat) (r : Ram) : Addr × Ram :=
  let a := kzalloc size r
  let ptr := a.1
  let r := a.2
  if ptr = 0#32 then (0#32, r)
  else
    let index := processFindFreeAllocIndex r.mem process
    if index < 0 then (0#32, kfree ptr r)
    else
      let m := mapAllocation r.mem process ptr (BitVec.ofNat 32 size) allocFlags
      if m.1 < 0 then (0#32, kfree ptr { r with mem := m.2 })
      else
        (ptr, { r with mem :=
          setAllocation m.2 process index.toNat ptr (BitVec.ofNat 32 size) })

/-- `process_free` -/
def processFree (process ptr : Addr) (r : Ram) : Ram :=
  match processGetAllocationByAddr r.mem process ptr with
  | none => r
  | some i =>
      let m := mapAllocation r.mem process (allocPtr r.mem process i)
        (allocSize r.mem process i) 0x00#32
      if m.1 < 0 then { r with mem := m.2 }
      else
        kfree ptr { r with mem := processAllocationUjoin m.2 process ptr }

end BenOS.Kernel
