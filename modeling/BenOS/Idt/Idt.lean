/-
The interrupt descriptor table of `idt/idt.c`, and the callbacks of the
interrupts.

The table is eight bytes for each vector, written by `idt_set`. What the
processor makes of them is `gateAt`: it looks a vector up through the
register that `lidt` loads, and takes it where the descriptor is a
present 32-bit interrupt gate.
-/
import BenOS.Lib.Bytes
import BenOS.Tasks.Assembly

namespace BenOS.Idt

open Lib X86 Tasks

-- ============================================================= descriptors

/-- `sizeof(struct idt_desc)` -/
abbrev sizeofIdtDesc : Nat := 8

/-- `&idt_descriptors[interrupt_num]` -/
def idtDescriptor (idtDescriptors : Addr) (interruptNum : Nat) : Addr :=
  idtDescriptors + BitVec.ofNat 32 (sizeofIdtDesc * interruptNum)

/-- `idt_set` -/
def idtSet (idtDescriptors : Addr) (interruptNum : Nat) (address : Addr)
    (m : Bytes) : Bytes :=
  let desc := idtDescriptor idtDescriptors interruptNum
  -- offset_1
  let m := store16 m desc ((address &&& 0x0000FFFF#32).setWidth 16)
  -- selector
  let m := store16 m (desc + 2#32) kernelCodeSelector
  -- zero
  let m := Function.update m (desc + 4#32) 0x00
  -- type_attr
  let m := Function.update m (desc + 5#32) 0xEE
  -- offset_2
  store16 m (desc + 6#32) ((address >>> 16).setWidth 16)

/-- `struct idtr_desc` -/
structure IdtrDesc where
  limit : BitVec 16
  base : Addr

/-- The loop of `idt_init` over the first `n` entries of
`interrupt_pointer_table`. -/
def idtSetLoop (idtDescriptors : Addr) (interruptPointerTable : Nat → Addr) :
    Nat → Bytes → Bytes
  | 0, m => m
  | n + 1, m =>
      idtSet idtDescriptors n (interruptPointerTable n)
        (idtSetLoop idtDescriptors interruptPointerTable n m)

/-- The gate the processor reads at an address: none where the descriptor
is not present, or is not a 32-bit interrupt gate. -/
def gateAt (m : Bytes) (a : Addr) : Option Gate :=
  let attr := (m (a + 5#32)).toBitVec
  if attr.getLsbD 7 && attr.extractLsb' 0 5 == 0x0E#5 then
    some
      { selector := load16 m (a + 2#32)
        offset := (m (a + 7#32)).toBitVec ++ (m (a + 6#32)).toBitVec
          ++ (m (a + 1#32)).toBitVec ++ (m a).toBitVec
        dpl := (attr.extractLsb' 5 2).toNat }
  else none

/-- The gate of a vector, looked up through the register. -/
def gateOf (m : Bytes) (idtr : IdtrDesc) (n : BitVec 8) : Option Gate :=
  if sizeofIdtDesc * n.toNat + 7 ≤ idtr.limit.toNat then
    gateAt m (idtr.base + BitVec.ofNat 32 (sizeofIdtDesc * n.toNat))
  else none

-- =============================================================== callbacks

/-- The functions an interrupt is registered with. -/
inductive InterruptCallback
  | idtHandleException
  | idtClock
  | classicKeyboardHandleInterrupt
deriving DecidableEq

/-- `interrupt_callbacks` -/
abbrev InterruptCallbacks :=
  Fin benosTotalInterrupts → Option InterruptCallback

/-- `idt_register_interrupt_callback` -/
def idtRegisterInterruptCallback (interrupt : Int)
    (interruptCallback : InterruptCallback)
    (interruptCallbacks : InterruptCallbacks) : Int × InterruptCallbacks :=
  if h : interrupt < 0 ∨ interrupt ≥ benosTotalInterrupts then
    (-einvarg, interruptCallbacks)
  else
    (0, Function.update interruptCallbacks
      ⟨interrupt.toNat, by simp only [benosTotalInterrupts] at h ⊢; omega⟩
      (some interruptCallback))

/-- The loop of `idt_init` over the first `n` exceptions. -/
def idtExceptionsLoop : Nat → InterruptCallbacks → InterruptCallbacks
  | 0, cs => cs
  | n + 1, cs =>
      (idtRegisterInterruptCallback n .idtHandleException
        (idtExceptionsLoop n cs)).2

/-- The callbacks `idt_init` registers. -/
def idtInitCallbacks (interruptCallbacks : InterruptCallbacks) :
    InterruptCallbacks :=
  let cs := idtExceptionsLoop 0x20 interruptCallbacks
  (idtRegisterInterruptCallback 0x20 .idtClock cs).2

-- =============================================================== idt_init

/-- What `idt_init` sets: the memory, with the table in it, and beside it
the variables `idtr_descriptor` and `interrupt_callbacks`. -/
structure IdtState where
  mem : Bytes
  idtrDescriptor : IdtrDesc
  interruptCallbacks : InterruptCallbacks

/-- `idt_init`; `idt_load` loads `idtr_descriptor` as it is behind it. -/
def idtInit (idtDescriptors idtZero isr80hWrapper : Addr)
    (interruptPointerTable : Nat → Addr) (s : IdtState) : IdtState :=
  let size := sizeofIdtDesc * benosTotalInterrupts
  let m := writeBytes s.mem idtDescriptors size fun _ => 0x00
  let idtr : IdtrDesc :=
    { limit := BitVec.ofNat 16 (size - 1), base := idtDescriptors }
  let m := idtSetLoop idtDescriptors interruptPointerTable
    benosTotalInterrupts m
  let m := idtSet idtDescriptors 0 idtZero m
  let m := idtSet idtDescriptors 0x80 isr80hWrapper m
  ⟨m, idtr, idtInitCallbacks s.interruptCallbacks⟩

end BenOS.Idt
