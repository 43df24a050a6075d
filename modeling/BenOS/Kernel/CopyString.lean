/-
Reading a string of a task: `copy_string_from_task` of `task/task.c`,
with `strncpy` of `string/string.c`.

While the page directory of the task is loaded, the processor looks every
address up in it: `pageWalk`. Under the directory of the kernel every page
is mapped to itself. A result `none` is a page that is not there.
-/
import BenOS.Lib.Int32
import BenOS.Kernel.Layout
import BenOS.Memory.Kheap
import BenOS.Memory.Proofs.Directory

namespace BenOS.Kernel

open Lib Memory

-- ============================================================= address spaces

/-- Where the byte at an address is, if anywhere. The memory is looked at
for the tables that say so. -/
abbrev Space := Bytes → Addr → Option Addr

/-- Under the kernel's directory every page is mapped to itself. -/
def kernelSpace : Space := fun _ a => some a

/-- Where the processor finds the byte at an address, with the directory
at `dir` loaded. The kernel is let at every page that is there, and may
write to it. -/
def pageWalk (dir : Addr) : Space := fun m a =>
  let page := pagingAlignToLowerPage a
  let table := load32 m (dir + BitVec.ofNat 32 (4 * (pagingGetIndexes page).1))
  let entry := pagingGet m dir page
  if entryPresent table && entryPresent entry then
    some (pageAddress (entryFrame entry) + (a - page))
  else none

-- ==================================================================== strncpy

/-- The loop of `strncpy` from index `i` on, with the number of bytes it
may still copy; it leaves the index it has come to. -/
def Space.strncpyLoop (space : Space) (dest src : Addr) :
    Nat → Nat → Bytes → Option (Nat × Bytes)
  | 0, i, m => some (i, m)
  | k + 1, i, m => do
      let s ← space m (src + BitVec.ofNat 32 i)
      if m s = 0x00 then some (i, m)
      else
        let d ← space m (dest + BitVec.ofNat 32 i)
        space.strncpyLoop dest src k (i + 1) (Function.update m d (m s))

/-- `strncpy` -/
def Space.strncpy (space : Space) (dest src : Addr) (count : Int) (m : Bytes) :
    Option Bytes := do
  let (i, m) ← space.strncpyLoop dest src (count - 1).toNat 0 m
  let d ← space m (dest + BitVec.ofNat 32 i)
  some (Function.update m d 0x00)

-- ====================================================== copy_string_from_task

/-- `task->page_directory` -/
def taskPageDirectory (m : Bytes) (task : Addr) : Addr :=
  load32 m (task + offPageDirectory)

/-- The flags of the bounce page. -/
abbrev bounceFlags : BitVec 32 :=
  pagingIsWritable ||| pagingIsPresent ||| pagingAccessFromAll

/-- `copy_string_from_task` -/
def copyStringFromTask (task virt phys : Addr) (max : Int) (r : Ram) :
    Option (Int × Ram) :=
  if max ≥ pagingPageSize then some (-einvarg, r)
  else
    let tmp := kzalloc (toUint32 max).toNat r
    if tmp.1 = 0#32 then some (-enomem, tmp.2)
    else
      let m := tmp.2.mem
      let taskDir := load32 m (taskPageDirectory m task)
      let oldEntry := pagingGet m taskDir tmp.1
      let m := (pagingMap (chunkSet (taskPageDirectory m task)) tmp.1 tmp.1
        bounceFlags m).2
      do
        let m ← Space.strncpy
          (pageWalk (load32 m (taskPageDirectory m task))) tmp.1
          virt max m
        -- `kernel_page`
        let set := pagingSet taskDir tmp.1 oldEntry m
        if set.1 < 0 then
          some (-eio, kfree tmp.1 { tmp.2 with mem := set.2 })
        else
          let m ← kernelSpace.strncpy phys tmp.1 max set.2
          some (set.1, kfree tmp.1 { tmp.2 with mem := m })

end BenOS.Kernel
