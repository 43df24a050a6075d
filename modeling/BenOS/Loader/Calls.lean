/-
The `process_map_*` functions of `task/process.c` with a record of every
`paging_map_to` they call: from which statement, and what it answered.

These are the functions of `Loader/Map`, which keep of an answer only
what the source looks at.
-/
import BenOS.Loader.Map

namespace BenOS.Loader

open Lib Memory Traced

variable {σ : Type}

/-- The statements that call `paging_map_to`. -/
inductive MapSite
  /-- `process_map_elf`, for the program header at an index -/
  | phdr (i : Nat)
  /-- `process_map_binary` -/
  | binary
  /-- `process_map_memory`, for the stack -/
  | stack
deriving DecidableEq

/-- A call of `paging_map_to`, and its result. -/
structure MapCall where
  site : MapSite
  res : Int
deriving DecidableEq

/-- What a function answers, the state it leaves and the calls so far. -/
abbrev Recorded (σ : Type) := Int × σ × List MapCall

/-- `process_map_binary` -/
def processMapBinaryRecorded (pg : Pager σ) (program : Program)
    (calls : List MapCall) (s : σ) : Recorded σ :=
  let r := pagingMapTo pg.set benosProgramVirtualAddress program.ptr
    (pagingAlignAddress (program.ptr + program.size))
    (userFlags ||| pagingIsWritable) s
  (0, r.2, calls ++ [⟨.binary, r.1⟩])

/-- The loop of `process_map_elf` from index `i` on; a round answers what
its one call does. -/
def processMapElfLoopRecorded (pg : Pager σ) (elfMem phdrs : Addr) :
    Nat → Nat → Int → List MapCall → σ → Traced Span (Recorded σ)
  | 0, _, res, calls, s => pure (res, s, calls)
  | fuel + 1, i, res, calls, s => do
      let phnum ← read16 (pg.bytes s) (elfMem + offEPhnum)
      if i < phnum.toNat then do
        let r ← processMapPhdr pg elfMem (phdrAddress phdrs i) s
        let calls := calls ++ [⟨.phdr i, r.1⟩]
        if r.1 < 0 then pure (r.1, r.2, calls)
        else
          processMapElfLoopRecorded pg elfMem phdrs fuel (i + 1) r.1 calls r.2
      else pure (res, s, calls)

/-- `process_map_elf` -/
def processMapElfRecorded (pg : Pager σ) (elfMem : Addr) (s : σ) :
    Traced Span (Recorded σ) := do
  let phdrs ← elfPheader (pg.bytes s) elfMem
  processMapElfLoopRecorded pg elfMem phdrs phnumLimit 0 0 [] s

/-- The `switch` of `process_map_memory` -/
def processMapImageRecorded (pg : Pager σ) (program : Program) (s : σ) :
    Option (Traced Span (Recorded σ)) :=
  if program.filetype = Tasks.processFiletypeElf then
    some (processMapElfRecorded pg program.elfMem s)
  else if program.filetype = Tasks.processFiletypeBinary then
    some (pure (processMapBinaryRecorded pg program [] s))
  else none

/-- `process_map_memory` -/
def processMapMemoryRecorded (pg : Pager σ) (program : Program) (s : σ) :
    Option (Traced Span (Recorded σ)) := do
  let image ← processMapImageRecorded pg program s
  some (do
    let r ← image
    let r := processMapBinaryRecorded pg program r.2.2 r.2.1
    if r.1 < 0 then pure r
    else
      let stack := pagingMapTo pg.set benosProgramVirtualStackAddressEnd
        program.stack
        (pagingAlignAddress
          (program.stack + BitVec.ofNat 32 benosUserProgramStackSize))
        (userFlags ||| pagingIsWritable) r.2.1
      pure (r.1, stack.2, r.2.2 ++ [⟨.stack, stack.1⟩]))

end BenOS.Loader
