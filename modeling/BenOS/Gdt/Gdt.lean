/-
The segment descriptors of `gdt/gdt.c`.

A structured segment is packed into the eight bytes the processor reads.
`panic` stops the machine, so there is no result where it is called.
-/
import Mathlib.Logic.Function.Basic

namespace BenOS.Gdt

/-- `struct gdt_structured` -/
@[ext] structure GdtStructured where
  base : UInt32
  limit : UInt32
  type : UInt8
  deriving DecidableEq

/-- `encoded_gdt_entry`, `target` being where the entry starts. -/
def encodedGdtEntry (target : Nat) (source : GdtStructured)
    (mem : Nat → UInt8) : Option (Nat → UInt8) :=
  if source.limit > 65536 ∧ source.limit &&& 0xFFF ≠ 0xFFF then none
  else
    let mem := Function.update mem (target + 6) 0x40
    let (limit, mem) :=
      if source.limit > 65536 then
        (source.limit >>> 12, Function.update mem (target + 6) 0xC0)
      else (source.limit, mem)
    -- the limit
    let mem := Function.update mem target (limit &&& 0xFF).toUInt8
    let mem := Function.update mem (target + 1)
      ((limit >>> 8) &&& 0xFF).toUInt8
    let mem := Function.update mem (target + 6)
      (mem (target + 6) ||| ((limit >>> 16) &&& 0xF).toUInt8)
    -- the base
    let mem := Function.update mem (target + 2) (source.base &&& 0xFF).toUInt8
    let mem := Function.update mem (target + 3)
      ((source.base >>> 8) &&& 0xFF).toUInt8
    let mem := Function.update mem (target + 4)
      ((source.base >>> 16) &&& 0xFF).toUInt8
    let mem := Function.update mem (target + 7)
      ((source.base >>> 24) &&& 0xFF).toUInt8
    -- the type
    some (Function.update mem (target + 5) source.type)

/-- `sizeof(struct gdt)` -/
abbrev sizeofGdt : Nat := 8

/-- The loop of `gdt_structured_to_gdt`, from entry `i` of the table at
`gdt` on. -/
def gdtStructuredLoop (gdt : Nat) :
    Nat → List GdtStructured → (Nat → UInt8) → Option (Nat → UInt8)
  | _, [], mem => some mem
  | i, source :: rest, mem => do
      let mem ← encodedGdtEntry (gdt + sizeofGdt * i) source mem
      gdtStructuredLoop gdt (i + 1) rest mem

/-- `gdt_structured_to_gdt` on `total_entries` segments. -/
def gdtStructuredToGdt (gdt : Nat) (gdtStructured : List GdtStructured)
    (mem : Nat → UInt8) : Option (Nat → UInt8) :=
  gdtStructuredLoop gdt 0 gdtStructured mem

end BenOS.Gdt
