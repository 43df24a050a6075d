/-
The kernel's memory and its one heap: `memory/heap/kheap.c`, with the
`memset` of `memory/memory.c`.

`Ram` is the heap's block table beside the bytes of the memory. The table
has its own place in memory, which no block reaches, and is kept apart
here.

`served` is a record the model keeps for its statements and no function
looks at: every request so far came while the table had a run of free
blocks as long as it needs.
-/
import BenOS.Lib.Bytes
import BenOS.Memory.Proofs.HeapRuns

namespace BenOS.Memory

open Lib

/-- The kernel heap, the bytes of the memory, and whether every request
so far found a run of free blocks long enough. -/
structure Ram where
  heap : Heap
  mem : Bytes
  served : Bool

/-- `memset` -/
def memset (m : Bytes) (ptr : Addr) (c : UInt8) (size : Nat) : Bytes :=
  writeBytes m ptr size fun _ => c

/-- A request finds a run of free blocks long enough. -/
def Serves (heap : Heap) (size : Nat) : Prop :=
  HasFreeRun (IsFree heap.table) heap.table.total (blocksFor size)

instance (heap : Heap) (size : Nat) : Decidable (Serves heap size) :=
  inferInstanceAs (Decidable (HasFreeRun _ _ _))

/-- `kmalloc` -/
def kmalloc (size : Nat) (r : Ram) : Addr × Ram :=
  let a := heapMalloc r.heap size
  (a.1,
    { r with
      heap := a.2
      served := r.served && decide (Serves r.heap size) })

/-- `kzalloc`: null is the null address. -/
def kzalloc (size : Nat) (r : Ram) : Addr × Ram :=
  let a := kmalloc size r
  if a.1 = 0#32 then (0#32, a.2)
  else (a.1, { a.2 with mem := memset a.2.mem a.1 0x00 size })

/-- `kfree` -/
def kfree (ptr : Addr) (r : Ram) : Ram :=
  { r with heap := heapFree r.heap ptr }

@[simp] theorem kfree_mem (ptr : Addr) (r : Ram) : (kfree ptr r).mem = r.mem :=
  rfl

@[simp] theorem kfree_heap (ptr : Addr) (r : Ram) :
    (kfree ptr r).heap = heapFree r.heap ptr := rfl

@[simp] theorem kfree_served (ptr : Addr) (r : Ram) :
    (kfree ptr r).served = r.served := rfl

/-- A 32-bit store. -/
def Ram.store (r : Ram) (a v : Addr) : Ram := { r with mem := store32 r.mem a v }

@[simp] theorem Ram.store_heap (r : Ram) (a v : Addr) :
    (r.store a v).heap = r.heap := rfl

@[simp] theorem Ram.store_served (r : Ram) (a v : Addr) :
    (r.store a v).served = r.served := rfl

end BenOS.Memory
