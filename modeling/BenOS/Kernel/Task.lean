/-
Making and freeing a task: `task_new` and `task_free` of `task/task.c`,
with `paging_new_4gb` and `paging_free_4gb` of `memory/paging/paging.c`,
in the memory of the kernel.

A result `none` is a call on a null task or on a null page directory.
-/
import BenOS.Kernel.Image
import BenOS.Memory.Paging

namespace BenOS.Kernel

open Lib Memory Loader

-- ==================================================================== paging

/-- The inner loop of `paging_new_4gb` over the first entries of the
table at `entry`, whose pages start at `offset`. -/
def fillTable (entry offset flags : Addr) : Nat → Bytes → Bytes
  | 0, m => m
  | b + 1, m =>
      store32 (fillTable entry offset flags b m)
        (entry + BitVec.ofNat 32 (4 * b))
        ((offset + BitVec.ofNat 32 (b * pagingPageSize)) ||| flags)

/-- One round of the outer loop: the table for directory entry `i`. -/
def newTable (dir flags : Addr) (i : Nat) (r : Ram) : Option Ram :=
  let entry := kzalloc (4 * pagingTotalEntriesPerTable) r
  if entry.1 = 0#32 then none
  else
    let offset := BitVec.ofNat 32
      (i * (pagingTotalEntriesPerTable * pagingPageSize))
    let m := fillTable entry.1 offset flags pagingTotalEntriesPerTable
      entry.2.mem
    some { entry.2 with
      mem := store32 m (dir + BitVec.ofNat 32 (4 * i))
        (entry.1 ||| flags ||| pagingIsWritable) }

/-- The outer loop over the first entries of the directory. -/
def newTables (dir flags : Addr) : Nat → Ram → Option Ram
  | 0, r => some r
  | i + 1, r => do
      let r ← newTables dir flags i r
      newTable dir flags i r

/-- `paging_new_4gb` -/
def pagingNew4gb (flags : BitVec 32) (r : Ram) : Option (Addr × Ram) :=
  let dir := kzalloc (4 * pagingTotalEntriesPerTable) r
  if dir.1 = 0#32 then none
  else do
    let r ← newTables dir.1 flags pagingTotalEntriesPerTable dir.2
    let chunk := kzalloc sizeofChunk r
    if chunk.1 = 0#32 then none
    else some (chunk.1, chunk.2.store chunk.1 dir.1)

/-- The loop of `paging_free_4gb` over the first entries of the
directory. -/
def freeTables (dir : Addr) : Nat → Ram → Ram
  | 0, r => r
  | i + 1, r =>
      let r := freeTables dir i r
      kfree (tableAddress (load32 r.mem (dir + BitVec.ofNat 32 (4 * i)))) r

/-- `paging_free_4gb` -/
def pagingFree4gb (chunk : Addr) (r : Ram) : Option Ram :=
  if chunk = 0#32 then none
  else
    let dir := load32 r.mem chunk
    if dir = 0#32 then none
    else
      let r := freeTables dir pagingTotalEntriesPerTable r
      some (kfree chunk (kfree dir r))

-- =============================================================== termination

/-- `task->next` -/
def taskNext (k : KernelState) (task : Addr) : Addr :=
  load32 k.ram.mem (task + offNext)

/-- `task->prev` -/
def taskPrev (k : KernelState) (task : Addr) : Addr :=
  load32 k.ram.mem (task + offPrev)

/-- `task_get_next`, with a current task. -/
def taskGetNext (k : KernelState) : Addr :=
  if taskNext k k.currentTask = 0#32 then k.taskHead
  else taskNext k k.currentTask

/-- `task_list_remove` -/
def taskListRemove (task : Addr) (k : KernelState) : KernelState :=
  let k := if taskPrev k task = 0#32 then k
    else k.store (taskPrev k task + offNext) (taskNext k task)
  let k := if task = k.taskHead then { k with taskHead := taskNext k task }
    else k
  let k := if task = k.taskTail then { k with taskTail := taskPrev k task }
    else k
  if task = k.currentTask then { k with currentTask := taskGetNext k } else k

/-- `task_free` -/
def taskFree (task : Addr) (k : KernelState) : Option KernelState :=
  if task = 0#32 then none
  else do
    let r ← pagingFree4gb (load32 k.ram.mem (task + offPageDirectory)) k.ram
    some ((taskListRemove task { k with ram := r }).kfree task)

-- ================================================================== creation

/-- Where a task starts: the entry point of an ELF program, or the program
address. The file and the image of an ELF program are followed also where
they are null: low memory is mapped. -/
def taskEntry (m : Bytes) (process : Addr) : Addr :=
  if m (process + offFiletype) = Tasks.processFiletypeElf then
    (elfEntry m (elfHeader m (load32 m (process + offImage)))).val
  else benosProgramVirtualAddress

/-- `task_init` -/
def taskInit (task process : Addr) (k : KernelState) :
    Option (Int × KernelState) := do
  let k := k.setMem (memset k.ram.mem task 0x00 sizeofTask)
  let (chunk, r) ← pagingNew4gb userFlags k.ram
  let k := KernelState.store { k with ram := r } (task + offPageDirectory) chunk
  if chunk = 0#32 then some (-eio, k)
  else
    let k := k.store (task + offRegistersIp) benosProgramVirtualAddress
    let k := k.store (task + offRegistersIp) (taskEntry k.ram.mem process)
    let k := k.store (task + offRegistersSs) userDataSegment
    let k := k.store (task + offRegistersCs) userCodeSegment
    let k := k.store (task + offRegistersEsp)
      benosProgramVirtualStackAddressStart
    some (0, k.store (task + offProcess) process)

/-- `task_new`, the list: the task becomes its last. -/
def taskAppend (task : Addr) (k : KernelState) : Option KernelState :=
  if k.taskHead = 0#32 then
    some { k with taskHead := task, taskTail := task, currentTask := task }
  else if k.taskTail = 0#32 then none
  else
    let k := k.store (k.taskTail + offNext) task
    let k := k.store (task + offPrev) k.taskTail
    some { k with taskTail := task }

/-- `task_new`: an error code is answered as a pointer. -/
def taskNew (process : Addr) (k : KernelState) : Option (Addr × KernelState) :=
  let a := k.kzalloc sizeofTask
  if a.1 = 0#32 then do
    let k ← taskFree a.1 a.2
    some (BitVec.ofInt 32 (-enomem), k)
  else do
    let (res, k) ← taskInit a.1 process a.2
    if res ≠ benosAllOk then
      let k ← taskFree a.1 k
      some (BitVec.ofInt 32 res, k)
    else
      let k ← taskAppend a.1 k
      some (a.1, k)

end BenOS.Kernel
