/-
The kernel heap of `memory/heap/heap.c`: a pool of 4096-byte blocks and
a table with one byte per block.

# What the model keeps

`HeapTable.entries` is the memory seen through the table's `entries`
pointer, at every integer index and not only at the `total` indices of
the table: nothing in the source confines a block number to the table,
and where it leaves the table the model goes with it. Blocks are C
`int`s, so `Int`; addresses are 32-bit and wrap, so `BitVec 32`; the
kernel is built without optimisation, so signed overflow wraps too.

The contents of the data pool itself play no part in the allocator and
are left out.
-/
import Mathlib.Logic.Function.Basic
import BenOS.Config

namespace BenOS.Memory

-- ========================================================= table entries

/-- `HEAP_BLOCK_TABLE_ENTRY_TAKEN` -/
def heapBlockTableEntryTaken : UInt8 := 0x01

/-- `HEAP_BLOCK_TABLE_ENTRY_FREE` -/
def heapBlockTableEntryFree : UInt8 := 0x00

/-- `HEAP_BLOCK_HAS_NEXT` -/
def heapBlockHasNext : UInt8 := 0b10000000

/-- `HEAP_BLOCK_IS_FIRST` -/
def heapBlockIsFirst : UInt8 := 0b01000000

/-- `struct heap_table`: the memory from `entries` on, and the number of
entries the table claims of it. -/
structure HeapTable where
  entries : Int → UInt8
  total : Nat

/-- `struct heap` -/
structure Heap where
  table : HeapTable
  saddr : Addr

/-- `heap_get_entry_type` -/
def heapGetEntryType (entry : UInt8) : UInt8 := entry &&& 0x0f

-- ============================================================== creation

/-- `heap_validate_table` -/
def heapValidateTable (ptr end_ : Addr) (table : HeapTable) : Int :=
  let tableSize := (end_ - ptr).toNat
  let totalBlocks := tableSize / benosHeapBlockSize
  if table.total ≠ totalBlocks then -einvarg else 0

/-- `heap_validate_alignment` -/
def heapValidateAlignment (ptr : Addr) : Bool :=
  ptr.toNat % benosHeapBlockSize == 0

/-- The `memset` of `heap_create`: every entry of the table becomes
free, the memory around the table stays. -/
def heapClearEntries (table : HeapTable) : HeapTable :=
  { table with
    entries := fun i =>
      if 0 ≤ i ∧ i < table.total then heapBlockTableEntryFree
      else table.entries i }

/-- `heap_create`, from the heap object it is given to the result code
and the heap object it leaves. -/
def heapCreate (heap : Heap) (ptr end_ : Addr) (table : HeapTable) :
    Int × Heap :=
  if !heapValidateAlignment ptr || !heapValidateAlignment end_ then
    (-einvarg, heap)
  else
    let heap : Heap := { table := table, saddr := ptr }
    let res := heapValidateTable ptr end_ table
    if res < 0 then (res, heap)
    else (res, { heap with table := heapClearEntries table })

-- ============================================================ allocation

/-- `heap_align_value_to_upper`, in 32-bit unsigned arithmetic. -/
def heapAlignValueToUpper (val : Nat) : Nat :=
  if val % benosHeapBlockSize = 0 then val
  else (val - val % benosHeapBlockSize + benosHeapBlockSize) % 2 ^ 32

/-- The scan of `heap_get_start_block` from block `i` on, with the
current block count `bc` and the block start `bs`; the first argument is
the number of blocks left to look at. -/
def heapGetStartBlockLoop (table : HeapTable) (totalBlocks : Nat) :
    Nat → Nat → Int → Int → Int
  | 0, _, _, bs => bs
  | k + 1, i, bc, bs =>
      if heapGetEntryType (table.entries i) ≠ heapBlockTableEntryFree then
        heapGetStartBlockLoop table totalBlocks k (i + 1) 0 (-1)
      else
        let bs := if bs = -1 then (i : Int) else bs
        let bc := bc + 1
        if bc = totalBlocks then bs
        else heapGetStartBlockLoop table totalBlocks k (i + 1) bc bs

/-- `heap_get_start_block` -/
def heapGetStartBlock (heap : Heap) (totalBlocks : Nat) : Int :=
  let bs := heapGetStartBlockLoop heap.table totalBlocks heap.table.total 0 0 (-1)
  if bs = -1 then -enomem else bs

/-- `heap_block_to_address` -/
def heapBlockToAddress (heap : Heap) (block : Int) : Addr :=
  heap.saddr + BitVec.ofInt 32 (block * benosHeapBlockSize)

/-- The loop of `heap_mark_blocks_taken` from block `i` on: `entry` is
what block `i` gets; the first argument counts the blocks left. -/
def heapMarkBlocksTakenLoop (endBlock : Int) :
    Nat → Int → UInt8 → (Int → UInt8) → Int → UInt8
  | 0, _, _, entries => entries
  | k + 1, i, entry, entries =>
      let entries := Function.update entries i entry
      let entry :=
        if i ≠ endBlock - 1 then heapBlockTableEntryTaken ||| heapBlockHasNext
        else heapBlockTableEntryTaken
      heapMarkBlocksTakenLoop endBlock k (i + 1) entry entries

/-- `heap_mark_blocks_taken` -/
def heapMarkBlocksTaken (heap : Heap) (startBlock totalBlocks : Int) : Heap :=
  let endBlock := startBlock + totalBlocks - 1
  let entry := heapBlockTableEntryTaken ||| heapBlockIsFirst
  let entry := if totalBlocks > 1 then entry ||| heapBlockHasNext else entry
  let entries := heapMarkBlocksTakenLoop endBlock
    (endBlock + 1 - startBlock).toNat startBlock entry heap.table.entries
  { heap with table := { heap.table with entries := entries } }

/-- `heap_malloc_blocks`: the address, null where there is none, and the
heap afterwards. -/
def heapMallocBlocks (heap : Heap) (totalBlocks : Nat) : Addr × Heap :=
  let startBlock := heapGetStartBlock heap totalBlocks
  if startBlock < 0 then (0#32, heap)
  else
    (heapBlockToAddress heap startBlock,
      heapMarkBlocksTaken heap startBlock totalBlocks)

/-- `heap_malloc` -/
def heapMalloc (heap : Heap) (size : Nat) : Addr × Heap :=
  heapMallocBlocks heap (heapAlignValueToUpper size / benosHeapBlockSize)

-- =============================================================== release

/-- The loop of `heap_mark_blocks_free` from block `i` on; the first
argument is the number of blocks left before `table->total`. -/
def heapMarkBlocksFreeLoop :
    Nat → Int → (Int → UInt8) → Int → UInt8
  | 0, _, entries => entries
  | k + 1, i, entries =>
      let entry := entries i
      let entries := Function.update entries i heapBlockTableEntryFree
      if entry &&& heapBlockHasNext = 0 then entries
      else heapMarkBlocksFreeLoop k (i + 1) entries

/-- `heap_mark_blocks_free` -/
def heapMarkBlocksFree (heap : Heap) (startingBlock : Int) : Heap :=
  let entries := heapMarkBlocksFreeLoop
    (heap.table.total - startingBlock).toNat startingBlock heap.table.entries
  { heap with table := { heap.table with entries := entries } }

/-- `heap_address_to_block`: the byte distance is taken as an `int`, and
the division rounds towards zero. -/
def heapAddressToBlock (heap : Heap) (addr : Addr) : Int :=
  (addr - heap.saddr).toInt.tdiv benosHeapBlockSize

/-- `heap_free` -/
def heapFree (heap : Heap) (ptr : Addr) : Heap :=
  heapMarkBlocksFree heap (heapAddressToBlock heap ptr)

end BenOS.Memory
