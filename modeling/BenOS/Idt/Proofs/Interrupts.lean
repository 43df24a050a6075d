/-
The interrupts that come back: those of the keyboard, and those nothing
is registered for.

Such an interrupt is invisible to the program it arrives in, but for its
data segments (`interrupt_returns`). The stub saves the registers on the
kernel stack and restores them (`interrupt_stub_returns`), and what
`interrupt_handler` does in between leaves the stub's words alone, whether
a callback has the state of the program saved first (`keyboard_answers`)
or there is none (`unregistered_answers`). The clock does not come back
here: `idt_clock` leaves for the next task.
-/
import BenOS.Idt.Handlers
import BenOS.Idt.Proofs.Gates
import BenOS.Isr80h.Proofs.UserCalls

namespace BenOS.Idt

open Lib X86 Memory Kernel Keyboard Tasks Isr80h

variable {s₀ s : SysState} {p : DirParts} {view : PageDir}
  {A : Bool → Addr → Prop} {env : Locals} {taskReturn : Addr}

-- ============================================================ the callbacks

/-- Behind `keyboard_init` the keyboard has a callback, too. -/
theorem kernelCallbacks_eq (i : Fin benosTotalInterrupts) :
    kernelCallbacks i
      = if i.val = 0x21 then some .classicKeyboardHandleInterrupt
        else if i.val < 0x20 then some .idtHandleException
        else if i.val = 0x20 then some .idtClock else none := by
  have hkeyboard := @idtRegisterInterruptCallback_eq 0x21 (by decide)
    .classicKeyboardHandleInterrupt (idtInitCallbacks fun _ => none) i
  refine hkeyboard.trans ?_
  rw [idtInitCallbacks_eq]

/-- The callback of an interrupt the stubs push. -/
theorem interruptCallback_eq {n : Nat} (hn : n < benosTotalInterrupts)
    (frame : BitVec 32) (s : SysState) :
    interruptCallback env kernelCallbacks (BitVec.ofNat 32 n) frame s
      = match kernelCallbacks ⟨n, hn⟩ with
        | none => some (.answered 0#32 s)
        | some callback => (Isr80h.taskCurrentSaveState frame s).bind
            fun s => runCallback env s callback := by
  have htoNat : (BitVec.ofNat 32 n).toNat = n := by
    simp only [benosTotalInterrupts] at hn
    rw [BitVec.toNat_ofNat]
    omega
  unfold interruptCallback
  simp only [htoNat, dif_pos hn]
  rfl

-- ================================================================ the kernel

/-- What a scancode makes of the kernel: port 0x60 is read twice, and the
first byte goes to the keyboard. -/
def keyboardTaken (env : Locals) (s : SysState) : SysState :=
  let k := classicKeyboardScancode env.beyond (s.port60 0)
    ⟨s.capsLockState, keyboardSys s⟩
  { s with
    keyboard := k.sys.keyboard
    capsLockState := k.capsLockState
    port60 := fun i => s.port60 (i + 2) }

/-- What an interrupt that comes back makes of the kernel, but for its
memory. -/
def interrupted (env : Locals) (n : Nat) (s : SysState) : SysState :=
  endOfInterrupt (if n = 0x21 then keyboardTaken env s else s)

/-- An interrupt is answered under the directory of the task, and the
words of the assembly are left alone. -/
structure Answered (s₀ : SysState) (p : DirParts) (view : PageDir)
    (A : Bool → Addr → Prop) (env : Locals) (n : Nat) (s r : SysState) :
    Prop where
  rest : r = SysState.setMem (interrupted env n s₀) r.mem
  outside : SameBut (Touched s₀ view A) s₀.mem r.mem
  guarded : Guarded p view r.mem
  words : ∀ u a, A u a → SameOn (physOf view a) 4 s.mem r.mem

-- ============================================================== the handler

/-- On the way to the handler the task has its directory. -/
theorem directory_onTheWay (h : Running s₀ p view A)
    (hs : OnTheWay s₀ p view A s) :
    taskPageDirectory s.mem s₀.kernel.currentTask = p.chunk := by
  rw [← h.directory]
  refine load32_congr (hs.outside.sameOn fun x hx hword => ?_)
  exact h.taskWords x (hx.of_part (by decide)) hword

/-- An interrupt without a callback is acknowledged. -/
theorem unregistered_answers (h : Running s₀ p view A)
    (hs : OnTheWay s₀ p view A s) {n : Nat} (hlo : 0x21 < n) (hhi : n < 256) :
    ∃ r, interruptHandlerEnded env kernelCallbacks taskReturn
        (BitVec.ofNat 32 n) frameAddress s = some (.back 0#32 r)
      ∧ Answered s₀ p view A env n s r := by
  have hn : n < benosTotalInterrupts := Nat.lt_trans hhi (by decide)
  have hnone : kernelCallbacks ⟨n, hn⟩ = none := by
    rw [kernelCallbacks_eq]
    simp only
    rw [if_neg (by omega), if_neg (by omega), if_neg (by omega)]
  have hcur : (kernelPage env s).kernel.currentTask
      = s₀.kernel.currentTask := by
    rw [hs.rest]
    rfl
  have hchunk := directory_onTheWay h hs
  have hpage := @taskPage_under s₀ p view A h (kernelPage env s) hcur
    hs.guarded hchunk
  refine ⟨endOfInterrupt ((kernelPage env s).under p.dir), ?_, ?_,
    hs.outside.mono fun _ => Or.inl, hs.guarded, fun _ _ _ => SameOn.refl _ _ _⟩
  · unfold interruptHandlerEnded interruptHandler
    simp only [interruptCallback_eq hn, hnone, hpage, Option.bind_eq_bind,
      Option.bind_some]
    rfl
  · unfold interrupted
    rw [if_neg (Nat.ne_of_gt hlo), hs.rest, ← h.loaded]
    rfl

/-- What the handler of the keyboard makes of a kernel whose task can be
returned to. -/
theorem classicKeyboardHandle_eq {dir : Addr} {scancode : BitVec 8}
    (hpage : ∀ r : SysState, r.kernel = s.kernel →
      Isr80h.taskPage r = some (r.under dir)) :
    ∃ dir', classicKeyboardHandle env s scancode
      = some ((SysState.under { s with
          keyboard := (classicKeyboardScancode env.beyond scancode
            ⟨s.capsLockState, keyboardSys s⟩).sys.keyboard
          capsLockState := (classicKeyboardScancode env.beyond scancode
            ⟨s.capsLockState, keyboardSys s⟩).capsLockState }) dir') := by
  unfold classicKeyboardHandle classicKeyboardScancode
  by_cases hreleased : released scancode
  · simp only [if_pos hreleased]
    exact ⟨s.directory, rfl⟩
  · simp only [if_neg hreleased]
    exact ⟨dir, hpage _ rfl⟩

/-- The interrupt of the keyboard saves the state of the program, and
takes a scancode. -/
theorem keyboard_answers (h : Running s₀ p view A)
    (hcells : ∀ k < entryWords, A false (below tssEsp0 (k + 1)))
    (hs : OnTheWay s₀ p view A s) {c : Cpu} {hc : c.user = true}
    (hframe : FrameOf sysWords s c hc) :
    ∃ r, interruptHandlerEnded env kernelCallbacks taskReturn
        (BitVec.ofNat 32 0x21) frameAddress s = some (.back 0#32 r)
      ∧ Answered s₀ p view A env 0x21 s r := by
  obtain ⟨s₁, hsave, hhanded, hwords⟩ := handed_of h hcells hs hframe env
  have hcall := @kernelCallbacks_eq ⟨0x21, by decide⟩
  simp only [if_pos] at hcall
  have hkeyboard := hhanded.keyboardSys h
  have hrest := hhanded.rest
  have hpage : ∀ r : SysState, r.kernel = s₁.kernel →
      Isr80h.taskPage r = some (r.under p.dir) := by
    intro r hr
    refine taskPage_under h ?_ ?_ ?_
    · rw [hr]
      exact hhanded.current
    · show Guarded p view r.kernel.ram.mem
      rw [hr]
      exact hhanded.saved.guarded
    · show taskPageDirectory r.kernel.ram.mem _ = _
      rw [hr]
      exact hhanded.saved.directory h
  obtain ⟨t, ht⟩ : ∃ t, t = (insb (insb (kernelPage env s₁)).2).2 := ⟨_, rfl⟩
  have hkernel : t.kernel = s₁.kernel := by
    rw [ht]
    rfl
  obtain ⟨dir, hhandle⟩ := @classicKeyboardHandle_eq t env p.dir
    (insb (kernelPage env s₁)).1 fun r hr => hpage r (hr.trans hkernel)
  obtain ⟨r₁, hr₁⟩ : ∃ r₁, classicKeyboardHandle env t
    (insb (kernelPage env s₁)).1 = some r₁ := ⟨_, hhandle⟩
  have heq := Option.some.inj (hr₁.symm.trans hhandle)
  have hkernel₁ : r₁.kernel = s₁.kernel := by
    rw [heq]
    exact hkernel
  have hmem : (endOfInterrupt (r₁.under p.dir)).mem = s₁.mem := by
    show r₁.kernel.ram.mem = _
    rw [hkernel₁]
  refine ⟨endOfInterrupt (r₁.under p.dir), ?_, ?_, ?_, ?_, fun u a hA => ?_⟩
  · have hrun : runCallback env s₁ .classicKeyboardHandleInterrupt
        = some (.answered 0#32 r₁) := by
      show classicKeyboardHandleInterrupt env s₁ = _
      unfold classicKeyboardHandleInterrupt
      simp only
      rw [← ht, hr₁]
      rfl
    unfold interruptHandlerEnded interruptHandler
    simp only [interruptCallback_eq (show 0x21 < benosTotalInterrupts by decide),
      hcall, hsave, hrun, hpage r₁ hkernel₁, Option.bind_eq_bind,
      Option.bind_some]
    rfl
  · rw [hmem, heq, ht]
    unfold interrupted keyboardTaken
    rw [if_pos rfl, ← hkeyboard, hrest, ← h.loaded]
    rfl
  · rw [hmem]
    exact hhanded.saved.outside
  · rw [hmem]
    exact hhanded.saved.guarded
  · rw [hmem]
    exact hwords u a hA

/-- The words of the assembly read as they did. -/
theorem Answered.read (h : Running s₀ p view A) (hs : OnTheWay s₀ p view A s)
    {n : Nat} {r : SysState} (hr : Answered s₀ p view A env n s r) {u : Bool}
    {a : Addr} (hA : A u a) : sysWords.read u r a = sysWords.read u s a := by
  have hdir : r.directory = p.dir := by
    rw [hr.rest, ← h.loaded]
    unfold interrupted
    by_cases hn : n = 0x21
    · rw [if_pos hn]
      rfl
    · rw [if_neg hn]
      rfl
  rw [hs.read h.mapped h.loaded hA,
    sysWords_read h.mapped hdir hr.guarded hA]
  exact congrArg some (load32_congr (hr.words u a hA))

-- ========================================================== there and back

/-- An interrupt that comes back is invisible to the program, but for its
data segments: for every vector from that of the keyboard on, other than
that of the system calls, the processor goes on behind `iretd` with all it
held for the program, and the data segments of a program. The kernel has
taken the scancode, if the keyboard interrupted, and has acknowledged the
interrupt; of the memory the words of the assembly and the registers of the
task are written, and nothing else. -/
theorem interrupt_returns {E : Env SysState} {sym : Symbols}
    {scratch : State SysState → Scratch} (h : Running s₀ p view A)
    (hmach : RunsKernel E sym scratch
      (interruptHandlerEnded env kernelCallbacks sym.taskReturn) env A)
    {c : Cpu} (hu : c.user = true) {n : BitVec 8} (hn : 0x21 ≤ n.toNat)
    (hn' : n ≠ 0x80#8) :
    ∃ g s₁ s, E.gate n = some g ∧ interrupt E g ⟨c, s₀⟩ = some s₁
      ∧ Works E s₁ ⟨Cpu.returned c, s⟩
      ∧ s = SysState.setMem (interrupted env n.toNat s₀) s.mem
      ∧ SameBut (Touched s₀ view A) s₀.mem s.mem ∧ Guarded p view s.mem := by
  obtain ⟨hE, hlink, hwords⟩ := hmach
  have hcells := hwords.stack.cells
  have hown := sysWords_own h.mapped h.loaded
  rw [← hE] at hown
  obtain ⟨g, s₁, m, -, r, hgate, hint, -, -, hQ, hworks⟩ :=
    @interrupt_stub_returns SysState E sym scratch
      (isr80hHandlerEnded env kernelCommands sym.taskReturn)
      (interruptHandlerEnded env kernelCallbacks sym.taskReturn) A
      (OnTheWay s₀ p view A) hlink hown hwords.stack ⟨c, s₀⟩ n
      (fun m r => Answered s₀ p view A env n.toNat m r)
      (OnTheWay.refl h.guarded) hu (Nat.le_of_succ_le hn) hn' (by
      intro m hm _ hframe
      rw [hE] at hframe ⊢
      obtain ⟨r, hres, hr⟩ : ∃ r, interruptHandlerEnded env kernelCallbacks
          sym.taskReturn (BitVec.ofNat 32 n.toNat) frameAddress m
            = some (.back 0#32 r)
          ∧ Answered s₀ p view A env n.toNat m r := by
        rcases Nat.eq_or_lt_of_le hn with heq | hlt
        · rw [← heq]
          exact keyboard_answers h hcells hm hframe
        · exact unregistered_answers h hm hlt n.isLt
      refine ⟨0#32, r, hres, hr, fun k hk => hr.read h hm (hcells k ?_)⟩
      simp only [entryWords]
      omega)
  exact ⟨g, s₁, r, hgate, hint, hworks, hQ.rest, hQ.outside, hQ.guarded⟩

/-- The processor the task of `callerMemory` runs on, with the table of
`idt_init` at 0x7000 and both handlers of the kernel. -/
def kernelEnv : Env SysState :=
  { imageEnv sysWords
      (isr80hHandlerEnded callerLocals kernelCommands imageSymbols.taskReturn)
      (interruptHandlerEnded callerLocals kernelCallbacks
        imageSymbols.taskReturn) [] with
    gate := idtInitGate 0x7000#32 0x6000#32 imageSymbols.isr80hWrapper
      imageSymbols.interrupt ⟨callerMemory, ⟨0#16, 0#32⟩, fun _ => none⟩ }

theorem runsKernel_kernelEnv : RunsKernel kernelEnv imageSymbols imageScratch
    (interruptHandlerEnded callerLocals kernelCallbacks imageSymbols.taskReturn)
    callerLocals CallerWords := by
  have hlink := imageEnv_linked sysWords
    (isr80hHandlerEnded callerLocals kernelCommands imageSymbols.taskReturn)
    (interruptHandlerEnded callerLocals kernelCallbacks imageSymbols.taskReturn)
    []
  refine ⟨rfl, ⟨gated_idt_init 0x7000#32 0x6000#32
    ⟨callerMemory, ⟨0#16, 0#32⟩, fun _ => none⟩ rfl, rfl, rfl, hlink.wrapper,
    hlink.stub, hlink.taskReturn, hlink.restoreGprs, rfl, rfl⟩, ?_⟩
  exact (machine_caller []).kernel

theorem interrupt_returns_keyboard :
    ∃ g s₁ s, kernelEnv.gate 0x21#8 = some g
      ∧ interrupt kernelEnv g ⟨imageCpu 7#32 0x3FEFF8#32, callerState⟩
        = some s₁
      ∧ Works kernelEnv s₁ ⟨Cpu.returned (imageCpu 7#32 0x3FEFF8#32), s⟩
      ∧ s = SysState.setMem (interrupted callerLocals 0x21 callerState) s.mem
      ∧ SameBut (Touched callerState callerView CallerWords) callerMemory s.mem
      ∧ Guarded (objectsAt 0).parts callerView s.mem :=
  @interrupt_returns callerState _ callerView CallerWords _ _ _ _ running_caller
    runsKernel_kernelEnv (imageCpu 7#32 0x3FEFF8#32) rfl 0x21#8 (by decide)
    (by decide)

end BenOS.Idt
