/-
The assembly of `idt/idt.asm` and `task/task.asm`, instruction by
instruction, and the processor it runs on.

`Tasks/Switch` has the same code as functions of lists of words. Here it
is code: the processor fetches it, and its stacks are memory. The symbols
it names, and the C functions it calls, are found by their addresses
(`Symbols`).
-/
import BenOS.Lib.X86
import BenOS.Tasks.Switch

namespace BenOS.Tasks

open Lib X86

-- ================================================================== the code

/-- `isr80h_wrapper`, where `isr80h_handler` and `tmp_res` are at these
addresses. -/
def isr80hWrapper (isr80hHandler tmpRes : Addr) : List Instr :=
  [ .cli
  , .pushad
  , .push .esp
  -- the command
  , .push .eax
  , .call isr80hHandler
  , .storeAbs tmpRes .eax
  , .addImm .esp 8#32
  , .popad
  , .loadAbs .eax tmpRes
  , .iretd ]

/-- `int%1` of the macro `interrupt`. -/
def interruptStub (interruptHandler : Addr) (i : BitVec 32) : List Instr :=
  [ .pushad
  , .push .esp
  , .pushImm i
  , .call interruptHandler
  , .addImm .esp 8#32
  , .popad
  , .iretd ]

/-- `task_return`, where `restore_general_purpose_registers` is at this
address. -/
def taskReturnAsm (restoreGprs : Addr) : List Instr :=
  [ .mov .ebp .esp
  , .load .ebx .ebp 4#32
  , .pushMem .ebx 44#32
  , .pushMem .ebx 40#32
  , .pushf
  , .pop .eax
  , .orImm .eax 0x200#32
  , .push .eax
  , .pushMem .ebx 32#32
  , .pushMem .ebx 28#32
  , .loadLow .eax .ebx 44#32
  , .movSeg .ds .eax
  , .movSeg .es .eax
  , .movSeg .fs .eax
  , .movSeg .gs .eax
  , .pushMem .ebp 4#32
  , .call restoreGprs
  , .addImm .esp 4#32
  , .iretd ]

/-- `restore_general_purpose_registers` -/
def restoreGeneralPurposeRegistersAsm : List Instr :=
  [ .push .ebp
  , .mov .ebp .esp
  , .load .ebx .ebp 8#32
  , .load .edi .ebx 0#32
  , .load .esi .ebx 4#32
  , .load .ebp .ebx 8#32
  , .load .edx .ebx 16#32
  , .load .ecx .ebx 20#32
  , .load .eax .ebx 24#32
  , .load .ebx .ebx 12#32
  , .addImm .esp 4#32
  , .ret ]

-- ============================================================= the processor

/-- What the processor holds for a program, as `Tasks/Switch` has it. -/
def userCpu (c : Cpu) (h : c.user = true) : UserCpu where
  edi := c.reg .edi
  esi := c.reg .esi
  ebp := c.reg .ebp
  ebx := c.reg .ebx
  edx := c.reg .edx
  ecx := c.reg .ecx
  eax := c.reg .eax
  ip := c.eip
  cs := c.seg .cs
  flags := c.flags
  esp := c.reg .esp
  ss := c.seg .ss
  ring := beq_iff_eq.mp h

/-- The addresses the linker gives the symbols of the assembly. -/
structure Symbols where
  isr80hWrapper : Addr
  isr80hHandler : Addr
  tmpRes : Addr
  interrupt : Nat → Addr
  interruptHandler : Addr
  taskReturn : Addr
  restoreGprs : Addr

/-- The gate `idt_set` makes for a function. -/
def idtGate (address : Addr) : Gate where
  selector := kernelCodeSelector
  offset := address
  dpl := 3

variable {μ : Type}

/-- The interrupts go to the assembly. -/
structure Gated (E : Env μ) (sym : Symbols) : Prop where
  gate80 : E.gate 0x80#8 = some (idtGate sym.isr80hWrapper)
  gate : ∀ n : BitVec 8, n ≠ 0#8 → n ≠ 0x80#8 →
    E.gate n = some (idtGate (sym.interrupt n.toNat))

/-- What `user_registers` loads into the data segments. Both handlers come
back behind it. -/
abbrev userSelector : BitVec 16 := userDataSegment.setWidth 16

/-- The processor runs the assembly: the interrupts go to it, the kernel
stack is that of the task state segment, and the C functions are called
by its convention. -/
structure Linked (E : Env μ) (sym : Symbols)
    (scratch : State μ → Scratch)
    (isr80hHandler interruptHandler :
      BitVec 32 → BitVec 32 → μ → Option (Ended μ)) : Prop
    extends Gated E sym where
  esp0 : E.esp0 = tssEsp0
  ss0 : E.ss0 = kernelDataSelector
  wrapper : ∃ stop, CodeAt E.code sym.isr80hWrapper
    (Tasks.isr80hWrapper sym.isr80hHandler sym.tmpRes) stop
  stub : ∀ i < benosTotalInterrupts, ∃ stop,
    CodeAt E.code (sym.interrupt i)
      (interruptStub sym.interruptHandler (BitVec.ofNat 32 i)) stop
  taskReturn : ∃ stop,
    CodeAt E.code sym.taskReturn (taskReturnAsm sym.restoreGprs) stop
  restoreGprs : E.foreign sym.restoreGprs = none ∧ ∃ stop,
    CodeAt E.code sym.restoreGprs restoreGeneralPurposeRegistersAsm stop
  isr80hHandler : E.foreign sym.isr80hHandler
    = some (cdecl2 E.words scratch userSelector isr80hHandler)
  interruptHandler : E.foreign sym.interruptHandler
    = some (cdecl2 E.words scratch userSelector interruptHandler)

-- ============================================================ an image of it

/-- The symbols, where each function lies in a piece of its own. -/
def imageSymbols : Symbols where
  isr80hWrapper := BitVec.ofNat 32 (32 * 512)
  isr80hHandler := 0x8000#32
  tmpRes := 0x9000#32
  interrupt n := BitVec.ofNat 32 (32 * n)
  interruptHandler := 0x8100#32
  taskReturn := BitVec.ofNat 32 (32 * 513)
  restoreGprs := BitVec.ofNat 32 (32 * 514)

/-- The pieces: the stubs, the other functions, and a program. -/
def imagePiece (program : List Instr) (n : Nat) : List Instr :=
  if n < benosTotalInterrupts then
    interruptStub imageSymbols.interruptHandler (BitVec.ofNat 32 n)
  else match n - benosTotalInterrupts with
    | 0 => Tasks.isr80hWrapper imageSymbols.isr80hHandler imageSymbols.tmpRes
    | 1 => taskReturnAsm imageSymbols.restoreGprs
    | 2 => restoreGeneralPurposeRegistersAsm
    | 3 => program
    | _ => []

/-- Where the program lies. -/
def imageProgram : Addr := BitVec.ofNat 32 (32 * 515)

/-- The compiler of the image. -/
def imageScratch (_ : State μ) : Scratch := ⟨fun _ => 0#32, 2#32, 0, 0#32⟩

/-- A processor with this code. -/
def imageEnv (W : WordMem μ)
    (isr80hHandler interruptHandler :
      BitVec 32 → BitVec 32 → μ → Option (Ended μ))
    (program : List Instr) : Env μ where
  words := W
  code := listing (imagePiece program)
  gate n :=
    some (idtGate (if n = 0x80#8 then imageSymbols.isr80hWrapper
      else imageSymbols.interrupt n.toNat))
  esp0 := tssEsp0
  ss0 := kernelDataSelector
  foreign a :=
    if a = imageSymbols.isr80hHandler then
      some (cdecl2 W imageScratch userSelector isr80hHandler)
    else if a = imageSymbols.interruptHandler then
      some (cdecl2 W imageScratch userSelector interruptHandler)
    else none

/-- It is linked as the kernel is. -/
theorem imageEnv_linked (W : WordMem μ)
    (isr80hHandler interruptHandler :
      BitVec 32 → BitVec 32 → μ → Option (Ended μ))
    (program : List Instr) :
    Linked (imageEnv W isr80hHandler interruptHandler program) imageSymbols
      imageScratch isr80hHandler interruptHandler where
  esp0 := rfl
  ss0 := rfl
  gate80 := rfl
  gate n _ hn := by
    show some (idtGate (if n = 0x80#8 then _ else _)) = _
    rw [if_neg hn]
  wrapper := ⟨_, @codeAt_listing (imagePiece program) 512 (by decide)
    (show 10 ≤ 32 by omega)⟩
  stub i hi := by
    have hpiece : imagePiece program i = interruptStub
        imageSymbols.interruptHandler (BitVec.ofNat 32 i) := if_pos hi
    have hload := @codeAt_listing (imagePiece program) i
      (lt_trans hi (by decide)) (by rw [hpiece]; exact show 7 ≤ 32 by omega)
    rw [hpiece] at hload
    exact ⟨_, hload⟩
  taskReturn := ⟨_, @codeAt_listing (imagePiece program) 513 (by decide)
    (show 19 ≤ 32 by omega)⟩
  restoreGprs := ⟨rfl, _, @codeAt_listing (imagePiece program) 514 (by decide)
    (show 12 ≤ 32 by omega)⟩
  isr80hHandler := rfl
  interruptHandler := rfl

end BenOS.Tasks
