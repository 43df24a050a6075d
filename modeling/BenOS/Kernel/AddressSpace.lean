/-
The blocks of an address space: what `paging_new_4gb` asks for, and what
`paging_free_4gb` gives back, one by one.

`pagingNew4gbInt` is `paging_new_4gb` with the offset as the source keeps
it: an `int` that the outer loop adds to, and that passes 2^31 half-way.
-/
import BenOS.Kernel.Task
import BenOS.Lib.Int32

namespace BenOS.Kernel

open Lib Memory

-- ========================================================= the running offset

/-- The inner loop of `paging_new_4gb` over the first entries of the table
at `entry`, from an `int` offset. -/
def fillTableInt (entry : Addr) (offset : Int) (flags : Addr) :
    Nat → Bytes → Bytes
  | 0, m => m
  | b + 1, m =>
      store32 (fillTableInt entry offset flags b m)
        (entry + BitVec.ofNat 32 (4 * b))
        (BitVec.ofInt 32 (toInt32 (offset + b * pagingPageSize)) ||| flags)

/-- The outer loop over the first entries of the directory, with the
offset it has come to. -/
def newTablesInt (dir flags : Addr) : Nat → Ram → Option (Int × Ram)
  | 0, r => some (0, r)
  | i + 1, r => do
      let (offset, r) ← newTablesInt dir flags i r
      let entry := kzalloc (4 * pagingTotalEntriesPerTable) r
      if entry.1 = 0#32 then none
      else
        let m := fillTableInt entry.1 offset flags pagingTotalEntriesPerTable
          entry.2.mem
        some (toInt32 (offset + pagingTotalEntriesPerTable * pagingPageSize),
          { entry.2 with
            mem := store32 m (dir + BitVec.ofNat 32 (4 * i))
              (entry.1 ||| flags ||| pagingIsWritable) })

/-- `paging_new_4gb`, from its flags byte. -/
def pagingNew4gbInt (flags : UInt8) (r : Ram) : Option (Addr × Ram) :=
  let flags := flags.toBitVec.setWidth 32
  let dir := kzalloc (4 * pagingTotalEntriesPerTable) r
  if dir.1 = 0#32 then none
  else do
    let (_, r) ← newTablesInt dir.1 flags pagingTotalEntriesPerTable dir.2
    let chunk := kzalloc sizeofChunk r
    if chunk.1 = 0#32 then none
    else some (chunk.1, chunk.2.store chunk.1 dir.1)

-- ================================================================= the blocks

/-- The block the directory is given. -/
def dirBlock (r : Ram) : Addr := (kzalloc (4 * pagingTotalEntriesPerTable) r).1

/-- The block round `i` of the outer loop is given for its table. -/
def tableBlock (flags : Addr) (r : Ram) (i : Nat) : Addr :=
  (newTables (dirBlock r) flags i
    (kzalloc (4 * pagingTotalEntriesPerTable) r).2).elim 0#32 fun r =>
      (kzalloc (4 * pagingTotalEntriesPerTable) r).1

/-- The block the chunk is given. -/
def chunkBlock (flags : Addr) (r : Ram) : Addr :=
  (newTables (dirBlock r) flags pagingTotalEntriesPerTable
    (kzalloc (4 * pagingTotalEntriesPerTable) r).2).elim 0#32 fun r =>
      (kzalloc sizeofChunk r).1

/-- Every block `paging_new_4gb` is given, in the order it asks. -/
def newBlocks (flags : Addr) (r : Ram) : List Addr :=
  dirBlock r :: (List.range pagingTotalEntriesPerTable).map (tableBlock flags r)
    ++ [chunkBlock flags r]

/-- Every pointer `paging_free_4gb` hands to `kfree`, in its order. -/
def freedBlocks (m : Bytes) (chunk : Addr) : List Addr :=
  (List.range pagingTotalEntriesPerTable).map (fun i =>
    tableAddress (load32 m (load32 m chunk + BitVec.ofNat 32 (4 * i))))
    ++ [load32 m chunk, chunk]

/-- `kfree` on pointer after pointer. -/
def kfreeAll (ptrs : List Addr) (r : Ram) : Ram :=
  ptrs.foldl (fun r ptr => kfree ptr r) r

end BenOS.Kernel
