/-
`interrupt_handler` of `idt/idt.c`, and the functions interrupts are
registered with: `idt_clock`, `idt_handle_exception`, and
`classic_keyboard_handle_interrupt` of `keyboard/classic.c`.

Like a command, an interrupt goes back to where it came from, or leaves
for another task (`Handled`).
-/
import BenOS.Idt.Idt
import BenOS.Isr80h.Isr80h

namespace BenOS.Idt

open Lib Kernel Keyboard Isr80h

-- ================================================================= the ports

/-- `outb(0x20, 0x20)` -/
def endOfInterrupt (s : SysState) : SysState :=
  { s with acknowledged := s.acknowledged + 1 }

/-- `insb(KEYBOARD_INPUT_PORT)` -/
def insb (s : SysState) : BitVec 8 × SysState :=
  (s.port60 0, { s with port60 := fun i => s.port60 (i + 1) })

-- ============================================================= the callbacks

section Callbacks

variable (env : Locals) (s : SysState)

/-- `idt_clock` -/
def idtClock : Option Handled := do
  let (nextTask, s) ← Isr80h.taskNext (endOfInterrupt s)
  some (.started nextTask s)

/-- `idt_handle_exception` -/
def idtHandleException : Option Handled := do
  let (_, k) ← processTerminate (currentProcess s) s.kernel
  let (nextTask, s) ← Isr80h.taskNext { s with kernel := k }
  some (.started nextTask s)

/-- `classic_keyboard_handle_interrupt`, behind the first `insb`. -/
def classicKeyboardHandle (scancode : BitVec 8) : Option SysState :=
  if released scancode then some s
  else
    let k := classicKeyboardPress env.beyond scancode
      ⟨s.capsLockState, keyboardSys s⟩
    Isr80h.taskPage { s with
      keyboard := k.sys.keyboard, capsLockState := k.capsLockState }

/-- `classic_keyboard_handle_interrupt` -/
def classicKeyboardHandleInterrupt : Option Handled := do
  let s := kernelPage env s
  let (scancode, s) := insb s
  let (_, s) := insb s
  let s ← classicKeyboardHandle env s scancode
  some (.answered 0#32 s)

/-- The function an interrupt is registered with. -/
def runCallback : InterruptCallback → Option Handled
  | .idtHandleException => idtHandleException s
  | .idtClock => idtClock s
  | .classicKeyboardHandleInterrupt => classicKeyboardHandleInterrupt env s

end Callbacks

-- =============================================================== the handler

/-- `interrupt_handler`, as far as the function the interrupt is registered
with. -/
def interruptCallback (env : Locals) (interruptCallbacks : InterruptCallbacks)
    (interrupt frame : BitVec 32) (s : SysState) : Option Handled :=
  -- an index that is none is not one the stubs push
  if h : interrupt.toNat < benosTotalInterrupts then
    match interruptCallbacks ⟨interrupt.toNat, h⟩ with
    | none => some (.answered 0#32 s)
    | some callback => do
        let s ← Isr80h.taskCurrentSaveState frame s
        runCallback env s callback
  else none

/-- `interrupt_handler`, where the frame is at its address. -/
def interruptHandler (env : Locals) (interruptCallbacks : InterruptCallbacks)
    (interrupt frame : BitVec 32) (s : SysState) : Option Handled := do
  let s := kernelPage env s
  match ← interruptCallback env interruptCallbacks interrupt frame s with
  | .started task s => some (.started task s)
  | .answered res s =>
      let s ← Isr80h.taskPage s
      some (.answered res (endOfInterrupt s))

/-- `interrupt_handler`, as the assembly calls it. -/
def interruptHandlerEnded (env : Locals)
    (interruptCallbacks : InterruptCallbacks)
    (taskReturn interrupt frame : BitVec 32) (s : SysState) :
    Option (X86.Ended SysState) :=
  (interruptHandler env interruptCallbacks interrupt frame s).map
    (Handled.ended taskReturn)

/-- `ISR_KEYBOARD_INTERRUPT` -/
abbrev isrKeyboardInterrupt : Int := 0x21

/-- The callbacks behind `idt_init` and `keyboard_init`. -/
def kernelCallbacks : InterruptCallbacks :=
  (idtRegisterInterruptCallback isrKeyboardInterrupt
    .classicKeyboardHandleInterrupt
    (idtInitCallbacks fun _ => none)).2

end BenOS.Idt
