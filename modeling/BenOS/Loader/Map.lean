/-
Mapping a loaded program into its page directory: the `process_map_*`
functions of `task/process.c`.

They read the program headers from memory while they write page tables,
so they run on a state that has both (`Pager`): the memory itself, or a
page directory beside a memory that stays as it is.
-/
import BenOS.Loader.Elf
import BenOS.Memory.Paging
import BenOS.Tasks.Process

namespace BenOS.Loader

open Lib Memory

variable {σ : Type}

/-- A state with a memory and the page directory of one task. -/
structure Pager (σ : Type) where
  bytes : σ → Bytes
  set : Addr → BitVec 32 → σ → Int × σ

/-- What `process_map_memory` looks up in a `struct process`: `ptr` is
the union of the image of a binary and the `elf` of an ELF program,
`elfMem` what `elf_header` makes of the latter. -/
structure Program where
  filetype : UInt8
  ptr : Addr
  elfMem : Addr
  size : BitVec 32
  stack : Addr

/-- The flags a program's pages are mapped with. -/
abbrev userFlags : BitVec 32 := pagingIsPresent ||| pagingAccessFromAll

/-- `process_map_binary`: what `paging_map_to` answers is not looked at. -/
def processMapBinary (pg : Pager σ) (program : Program) (s : σ) : Int × σ :=
  (0, (pagingMapTo pg.set benosProgramVirtualAddress program.ptr
    (pagingAlignAddress (program.ptr + program.size))
    (userFlags ||| pagingIsWritable) s).2)

/-- One round of the loop of `process_map_elf`. -/
def processMapPhdr (pg : Pager σ) (elfMem phdr : Addr) (s : σ) :
    Traced Span (Int × σ) := do
  let m := pg.bytes s
  let phdrPhysAddress ← elfPhdrPhysAddress m elfMem phdr
  let pFlags ← read32 m (phdr + offPFlags)
  let flags :=
    if pFlags &&& pfW ≠ 0#32 then userFlags ||| pagingIsWritable
    else userFlags
  let vaddr ← read32 m (phdr + offPVaddr)
  let memsz ← read32 m (phdr + offPMemsz)
  pure (pagingMapTo pg.set (pagingAlignToLowerPage vaddr)
    (pagingAlignToLowerPage phdrPhysAddress)
    (pagingAlignAddress (phdrPhysAddress + memsz)) flags s)

/-- The loop of `process_map_elf` from index `i` on, with the result of
the header before. -/
def processMapElfLoop (pg : Pager σ) (elfMem phdrs : Addr) :
    Nat → Nat → Int → σ → Traced Span (Int × σ)
  | 0, _, res, s => pure (res, s)
  | fuel + 1, i, res, s => do
      let phnum ← read16 (pg.bytes s) (elfMem + offEPhnum)
      if i < phnum.toNat then do
        let r ← processMapPhdr pg elfMem (phdrAddress phdrs i) s
        if r.1 < 0 then pure r
        else processMapElfLoop pg elfMem phdrs fuel (i + 1) r.1 r.2
      else pure (res, s)

/-- `process_map_elf` -/
def processMapElf (pg : Pager σ) (elfMem : Addr) (s : σ) :
    Traced Span (Int × σ) := do
  let phdrs ← elfPheader (pg.bytes s) elfMem
  processMapElfLoop pg elfMem phdrs phnumLimit 0 0 s

/-- The `switch` of `process_map_memory`: `none` is the panic on an
unknown file type. -/
def processMapImage (pg : Pager σ) (program : Program) (s : σ) :
    Option (Traced Span (Int × σ)) :=
  if program.filetype = Tasks.processFiletypeElf then
    some (processMapElf pg program.elfMem s)
  else if program.filetype = Tasks.processFiletypeBinary then
    some (pure (processMapBinary pg program s))
  else none

/-- `process_map_memory`: what the `switch` left in `res` is overwritten
by a second `process_map_binary`, and what mapping the stack answers is
not looked at. -/
def processMapMemory (pg : Pager σ) (program : Program) (s : σ) :
    Option (Traced Span (Int × σ)) := do
  let image ← processMapImage pg program s
  some (do
    let r ← image
    let r := processMapBinary pg program r.2
    if r.1 < 0 then pure r
    else
      pure (r.1,
        (pagingMapTo pg.set benosProgramVirtualStackAddressEnd program.stack
          (pagingAlignAddress
            (program.stack + BitVec.ofNat 32 benosUserProgramStackSize))
          (userFlags ||| pagingIsWritable) r.2).2))

-- ==================================================== a directory by itself

/-- A page directory beside a memory its tables do not lie in. -/
def dirPager (m : Bytes) : Pager PageDir where
  bytes := fun _ => m
  set := PageDir.set

end BenOS.Loader
