/-
The memory as the processor uses it, through the page directory that is
loaded.

`pageWalk` is what the kernel sees there. A program sees less: both the
directory and the table have to let it at the page, and let it write where
it writes. The write protection does not hold for the kernel, which never
sets `CR0.WP`. An access looks up all its bytes before it touches one.
-/
import BenOS.Kernel.ProgramArguments
import BenOS.Lib.X86

namespace BenOS.Kernel

open Lib Memory X86

/-- An entry of the directory or of a table lets an access through. -/
def entryAllows (user write : Bool) (entry : BitVec 32) : Bool :=
  entryPresent entry
    && (!user || (entryUser entry && (!write || entryWritable entry)))

/-- Where the processor finds the byte at an address, for an access of a
program or of the kernel, that writes or not. -/
def pageAccess (dir : Addr) (user write : Bool) : Space := fun m a =>
  let page := pagingAlignToLowerPage a
  let table := load32 m (dir + BitVec.ofNat 32 (4 * (pagingGetIndexes page).1))
  let entry := pagingGet m dir page
  if entryAllows user write table && entryAllows user write entry then
    some (pageAddress (entryFrame entry) + (a - page))
  else none

/-- The words of the memory, through the directory at `dir`. -/
def pagedWords (dir : Addr) : WordMem Bytes where
  read user m a := Space.word (pageAccess dir user false) m a
  write user m a v := do
    let a0 ← pageAccess dir user true m a
    let a1 ← pageAccess dir user true m (a + 1#32)
    let a2 ← pageAccess dir user true m (a + 2#32)
    let a3 ← pageAccess dir user true m (a + 3#32)
    let m := Function.update m a0 (byteOf v 0)
    let m := Function.update m a1 (byteOf v 1)
    let m := Function.update m a2 (byteOf v 2)
    some (Function.update m a3 (byteOf v 3))

end BenOS.Kernel
