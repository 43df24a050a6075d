/-
A system call from the program to the command and back, in the memory of
the machine: the function of the program, the processor, the pages, the
assembly of the kernel, `isr80h_handler` and the command.

A command answers where it leaves alone what the way back needs
(`Spared`), and then the program goes on with its answer
(`sparing_call_returns`): what is left to say of a call is what its command
makes of the kernel.
-/
import BenOS.Isr80h.Proofs.Dispatch
import BenOS.Isr80h.Proofs.Running
import BenOS.Stdlib.Proofs.Syscalls

namespace BenOS.Isr80h

open Lib X86 Memory Kernel Keyboard Terminal Tasks Stdlib.Asm

variable {s₀ : SysState} {p : DirParts} {view : PageDir}
  {A : Bool → Addr → Prop}

-- ================================================================ the handler

/-- What the way back to the program needs of the memory: the words of the
assembly and of the program, the task, and its directory. -/
def Spared (s₀ : SysState) (p : DirParts) (view : PageDir)
    (A : Bool → Addr → Prop) (m m' : Bytes) : Prop :=
  ∀ x, WordBytes view A x ∨ InSpan s₀.kernel.currentTask sizeofTask x
    ∨ DirBytes p x → m' x = m x

/-- A command gives an answer and spares the task that made the call. -/
structure Sparing (s₀ : SysState) (p : DirParts) (view : PageDir)
    (A : Bool → Addr → Prop) (command : BitVec 32) (env : Locals)
    (s : SysState) (value : BitVec 32) (r : SysState) : Prop where
  run : isr80hHandleCommand env s kernelCommands command.toInt
    = some (.answered value r)
  current : r.kernel.currentTask = s₀.kernel.currentTask
  spared : Spared s₀ p view A s.mem r.mem

/-- `isr80h_handler` hands the kernel to the command, and comes back under
the directory of the task. -/
theorem handler_answers (h : Running s₀ p view A)
    (hcells : ∀ k < entryWords, A false (below tssEsp0 (k + 1))) {s : SysState}
    (hs : OnTheWay s₀ p view A s) {c : Cpu} {hc : c.user = true}
    (hframe : FrameOf sysWords s c hc) {env : Locals}
    {taskReturn command : BitVec 32}
    {Q : SysState → BitVec 32 → SysState → Prop}
    (hrun : ∀ s₁, Handed s₀ p view A c hc s₁ →
      (∀ u a, A u a → SameOn (physOf view a) 4 s.mem s₁.mem) →
      ∃ value r, Sparing s₀ p view A command env s₁ value r
        ∧ Q s₁ value r) :
    ∃ s₁ value r, Handed s₀ p view A c hc s₁ ∧ Q s₁ value r
      ∧ Sparing s₀ p view A command env s₁ value r
      ∧ isr80hHandlerEnded env kernelCommands taskReturn command frameAddress s
        = some (.back value (r.under p.dir))
      ∧ Guarded p view r.mem
      ∧ ∀ u a, A u a → SameOn (physOf view a) 4 s.mem r.mem := by
  obtain ⟨s₁, hsave, hhanded, hwords⟩ := handed_of h hcells hs hframe env
  obtain ⟨value, r, hsparing, hQ⟩ := hrun s₁ hhanded hwords
  have hdirSame : ∀ x, DirBytes p x → r.mem x = s₁.mem x := fun x hx =>
    hsparing.spared x (Or.inr (Or.inr hx))
  have hguard : Guarded p view r.mem :=
    hhanded.saved.guarded.congr (fun x hx => hdirSame x (Or.inl hx))
      (fun x hx => hdirSame x (Or.inr (Or.inl hx)))
      fun i hi x hx => hdirSame x (Or.inr (Or.inr ⟨i, hi, hx⟩))
  have htask : SameOn s₀.kernel.currentTask sizeofTask s₁.mem r.mem :=
    fun x hx => hsparing.spared x (Or.inr (Or.inl hx))
  have hchunk : taskPageDirectory r.mem s₀.kernel.currentTask = p.chunk := by
    rw [← hhanded.saved.directory h]
    exact load32_congr (htask.part (by decide))
  have hpage := taskPage_under h hsparing.current hguard hchunk
  refine ⟨s₁, value, r, hhanded, hQ, hsparing, ?_, hguard, fun u a hA => ?_⟩
  · unfold isr80hHandlerEnded isr80hHandler
    simp only [hsave, hsparing.run, hpage, Option.bind_eq_bind,
      Option.bind_some]
    rfl
  · exact (hwords u a hA).trans fun x hx =>
      hsparing.spared x (Or.inl ⟨u, a, hA, hx⟩)

/-- A command that leaves the memory alone spares everything. -/
theorem Handed.sparing {c : Cpu} {hc : c.user = true} {s : SysState}
    (h : Handed s₀ p view A c hc s) {env : Locals} {command value : BitVec 32}
    {r : SysState} (hrun : isr80hHandleCommand env s kernelCommands
      command.toInt = some (.answered value r))
    (hkernel : r.kernel = s.kernel) :
    Sparing s₀ p view A command env s value r := by
  refine ⟨hrun, ?_, fun x _ => ?_⟩
  · rw [hkernel]
    exact h.current
  · show r.kernel.ram.mem x = _
    rw [hkernel]

/-- What was written since the program called, where the command left the
memory alone. -/
theorem Handed.outside {c : Cpu} {hc : c.user = true} {s r s' : SysState}
    (h : Handed s₀ p view A c hc s) (hkernel : r.kernel = s.kernel)
    (hs' : OnTheWay (r.under p.dir) p view A s') :
    SameBut (Touched s₀ view A) s₀.mem s'.mem := by
  have hmem : (r.under p.dir).mem = s.mem := by
    show r.kernel.ram.mem = _
    rw [hkernel]
  have hback := hs'.outside
  rw [hmem] at hback
  exact h.saved.outside.trans (hback.mono fun _ => Or.inl)

-- ================================================================== the calls

section Calls

variable {E : Env SysState} {sym : Symbols} {scratch : State SysState → Scratch}
  {interruptHandler :
    BitVec 32 → BitVec 32 → SysState → Option (Ended SysState)}
  {top : Addr} {cap : Nat} {env : Locals}

/-- The processor runs this kernel: its memory is behind the directory that
is loaded, and the handler of `int 0x80` is `isr80h_handler`. -/
structure RunsKernel (E : Env SysState) (sym : Symbols)
    (scratch : State SysState → Scratch)
    (interruptHandler :
      BitVec 32 → BitVec 32 → SysState → Option (Ended SysState))
    (env : Locals) (A : Bool → Addr → Prop) : Prop where
  words : E.words = sysWords
  linked : Linked E sym scratch
    (isr80hHandlerEnded env kernelCommands sym.taskReturn) interruptHandler
  kernel : KernelWords A sym

/-- A system call whose command spares its caller: the program goes on
behind its call with the answer in `eax` and its other registers as they
were, and the kernel is what the command left, under the directory of the
task, but for the words of the assembly. -/
theorem sparing_call_returns (h : Running s₀ p view A)
    (hmach : RunsKernel E sym scratch interruptHandler env A)
    (huser : UserStack A sym top cap)
    {call : List Instr} {command : BitVec 32} {args ws : List (BitVec 32)}
    (hcall : (call, command, args.length) ∈ systemCalls)
    {c : Cpu} {stop ret : BitVec 32} (hload : CodeAt E.code c.eip call stop)
    (hu : c.user = true) (hlt : args.length + ((args ++ ws).length + 2) ≤ cap)
    (hsp : c.reg .esp = below top ((args ++ ws).length + 1))
    (hws : StackAt E.words true s₀ top (ret :: (args ++ ws)))
    {Q : SysState → BitVec 32 → SysState → Prop}
    (hrun : ∀ c hc s, Handed s₀ p view A c hc s →
      (∀ i v, args[i]? = some v → stackItem s i = some v) →
      ∃ value r, Sparing s₀ p view A command env s value r ∧ Q s value r) :
    ∃ c' hc' s₁ value r s flags, Handed s₀ p view A c' hc' s₁ ∧ Q s₁ value r
      ∧ Sparing s₀ p view A command env s₁ value r
      ∧ Reaches E ⟨c, s₀⟩ ⟨⟨Function.update (Function.update c.reg .eax
          value) .esp (below top (args ++ ws).length),
          dataSegs c.seg userSelector, ret, flags⟩, s⟩
      ∧ OnTheWay (r.under p.dir) p view A s := by
  obtain ⟨hE, hlink, hwords⟩ := hmach
  have hcells := hwords.stack.cells
  have hown := sysWords_own h.mapped h.loaded
  -- behind the handler the kernel is what some command left
  have hown' : Own sysWords (fun s => s.directory = p.dir
      ∧ Guarded p view s.mem) A := by
    constructor
    intro u a m hm hA v
    obtain ⟨m', hwrite, hm', hread⟩ :=
      (sysWords_own h.mapped hm.1).write (OnTheWay.refl hm.2) hA v
    refine ⟨m', hwrite, ⟨?_, hm'.guarded⟩, hread⟩
    rw [hm'.rest]
    exact hm.1
  rw [← hE] at hown hown'
  obtain ⟨m, res, m', s, flags, -, ⟨c', hc', s₁, r, hhanded, hQ, hsparing, hr⟩,
      hI', hwrite, hreach⟩ :=
    @system_call_returns SysState E sym scratch
      (isr80hHandlerEnded env kernelCommands sym.taskReturn) interruptHandler A
      (OnTheWay s₀ p view A) (fun s => s.directory = p.dir ∧ Guarded p view s.mem)
      top cap hlink hown hown' hwords huser call command args ws hcall ⟨c, s₀⟩
      stop ret (fun _ res m' => ∃ c' hc' s₁ r, Handed s₀ p view A c' hc' s₁
        ∧ Q s₁ res r ∧ Sparing s₀ p view A command env s₁ res r
        ∧ m' = r.under p.dir) hload hu (OnTheWay.refl h.guarded) hlt hsp hws (by
        rintro m c' hc' hI hcalled hsp' hholds
        rw [hE] at hholds ⊢
        have hframe := hcalled.frame
        rw [hE] at hframe
        -- the arguments are the first items of the stack
        have hitems : ∀ s, Handed s₀ p view A c' hc' s →
            (∀ u a, A u a → SameOn (physOf view a) 4 m.mem s.mem) →
            ∀ i v, args[i]? = some v → stackItem s i = some v := by
          intro s hs hkept i v hv
          obtain ⟨hi, -⟩ := List.getElem?_eq_some_iff.mp hv
          obtain ⟨n, hn⟩ : ∃ n, n
            = args.length + ((args ++ ws).length + 2) - i - 1 := ⟨_, rfl⟩
          have hitem : c'.reg .esp + BitVec.ofNat 32 (4 * i)
              = below top (n + 1) := by
            rw [hsp', show args.length + ((args ++ ws).length + 2)
              = n + 1 + i by omega]
            exact below_add top (n + 1) i
          have hA : A true (below top (n + 1)) :=
            huser.room.cells n (by omega)
          have hread := hholds.getElem? (j := i) (v := v) (by
            rw [List.getElem?_append_left hi]
            exact hv)
          rw [List.length_append, List.length_cons, List.length_cons,
            show args.length + ((args ++ ws).length + 1 + 1) - i = n + 1 by
              omega, hI.read h.mapped h.loaded hA] at hread
          have hstack := hs.saved.stackItem h hs.current (i := i) (by
            rw [hitem]
            exact hA)
          rw [hstack, hitem, load32_congr (hkept true _ hA)]
          exact hread
        obtain ⟨s₁, value, r, hhanded, hQ, hsparing, hres, hguard, hsame⟩ :=
          @handler_answers s₀ p view A h hcells m hI c' hc' hframe env
            sym.taskReturn command Q fun s₁ hhanded hkept =>
              hrun c' hc' s₁ hhanded (hitems s₁ hhanded hkept)
        have hread : ∀ u a, A u a → sysWords.read u (r.under p.dir) a
            = sysWords.read u m a := by
          intro u a hA
          have hr := @sysWords_read p view A h.mapped (r.under p.dir) rfl hguard
            u a hA
          rw [hI.read h.mapped h.loaded hA, hr]
          exact congrArg some (load32_congr (hsame u a hA))
        refine ⟨value, r.under p.dir, hres,
          ⟨c', hc', s₁, r, hhanded, hQ, hsparing, rfl⟩, ⟨rfl, hguard⟩, ?_, ?_,
          ?_⟩
        · intro k hk
          exact hread false _ (hcells k (by
            simp only [entryWords]
            omega))
        · exact hread true _ (huser.room.cells _ (by omega))
        · exact hread true _ (huser.room.cells _ (by omega)))
  subst hr
  rw [hE] at hwrite
  obtain ⟨hs, -⟩ := (@sysWords_own (r.under p.dir) p view A h.mapped
    rfl).written (OnTheWay.refl hI'.2) hwords.tmpRes hwrite
  exact ⟨c', hc', s₁, res, r, s, flags, hhanded, hQ, hsparing, hreach, hs⟩

/-- `benos_putchar` puts its character on the screen: a program that calls
it goes on behind the call with 0 in `eax` and its other registers as they
were. Of the kernel only the screen is changed, as `ter_writechar` changes
it, and of the memory the words of the assembly and the registers of the
task. -/
theorem benos_putchar_writes (h : Running s₀ p view A)
    (hmach : RunsKernel E sym scratch interruptHandler env A)
    (huser : UserStack A sym top cap)
    {c : Cpu} {stop ret arg : BitVec 32} {ws : List (BitVec 32)}
    (hload : CodeAt E.code c.eip benosPutchar stop) (hu : c.user = true)
    (hlt : ws.length + 4 ≤ cap) (hsp : c.reg .esp = below top (ws.length + 2))
    (hws : StackAt E.words true s₀ top (ret :: arg :: ws)) :
    ∃ s flags, Reaches E ⟨c, s₀⟩ ⟨⟨Function.update (Function.update c.reg .eax
          0#32) .esp (below top (ws.length + 1)),
          dataSegs c.seg userSelector, ret, flags⟩, s⟩
      ∧ s = SysState.setMem { s₀ with terminal :=
          (terWritechar ⟨arg.setWidth 8⟩ 15 s₀.terminal).val } s.mem
      ∧ SameBut (Touched s₀ view A) s₀.mem s.mem ∧ Guarded p view s.mem := by
  obtain ⟨c', hc', s₁, value, r, s, flags, hhanded, ⟨hvalue, hr⟩, -, hreach,
      hs⟩ :=
    @sparing_call_returns s₀ p view A E sym scratch interruptHandler top cap
      env h hmach huser benosPutchar 3#32 [arg] ws (by simp [systemCalls])
      c stop ret hload hu (show 1 + (ws.length + 1 + 2) ≤ cap by omega) hsp hws
      (fun s value r => value = 0#32 ∧ r = { s with terminal :=
        (terWritechar ⟨arg.setWidth 8⟩ 15 s.terminal).val }) (by
      intro c' hc' s hhanded hitems
      refine ⟨0#32, { s with terminal :=
        (terWritechar ⟨arg.setWidth 8⟩ 15 s.terminal).val },
        hhanded.sparing ?_ rfl, rfl, rfl⟩
      rw [kernelCommands_run (show ((3#32).toInt, .command3Putchar)
        ∈ systemCommands by decide)]
      show isr80hCommand3Putchar s = _
      unfold isr80hCommand3Putchar
      rw [hitems 0 arg rfl]
      rfl)
  have hkernel : r.kernel = s₁.kernel := by
    rw [hr]
  refine ⟨s, flags, ?_, ?_, hhanded.outside hkernel hs, hs.guarded⟩
  · rw [hvalue] at hreach
    exact hreach
  · rw [hs.rest, hr, hhanded.rest, ← h.loaded]
    rfl

/-- `benos_getkey` takes the next key: a program that calls it goes on
behind the call with the character `keyboard_pop` takes from the buffer of
its process in `eax`, or 0. Of the kernel only that buffer is changed, and
of the memory the words of the assembly and the registers of the task. -/
theorem benos_getkey_pops (h : Running s₀ p view A)
    (hmach : RunsKernel E sym scratch interruptHandler env A)
    (huser : UserStack A sym top cap)
    {c : Cpu} {stop ret : BitVec 32} {ws : List (BitVec 32)}
    (hload : CodeAt E.code c.eip benosGetkey stop) (hu : c.user = true)
    (hlt : ws.length + 2 ≤ cap) (hsp : c.reg .esp = below top (ws.length + 1))
    (hws : StackAt E.words true s₀ top (ret :: ws)) :
    ∃ s flags, Reaches E ⟨c, s₀⟩ ⟨⟨Function.update (Function.update c.reg .eax
          ((keyboardPop (keyboardSys s₀)).1.toBitVec.signExtend 32)) .esp
          (below top ws.length), dataSegs c.seg userSelector, ret, flags⟩, s⟩
      ∧ s = SysState.setMem { s₀ with keyboard :=
          (keyboardPop (keyboardSys s₀)).2.keyboard } s.mem
      ∧ SameBut (Touched s₀ view A) s₀.mem s.mem ∧ Guarded p view s.mem := by
  obtain ⟨c', hc', s₁, value, r, s, flags, hhanded, ⟨hvalue, hr⟩, -, hreach,
      hs⟩ :=
    @sparing_call_returns s₀ p view A E sym scratch interruptHandler top cap
      env h hmach huser benosGetkey 2#32 [] ws (by simp [systemCalls])
      c stop ret hload hu (show 0 + (ws.length + 2) ≤ cap by omega) hsp hws
      (fun s value r =>
        value = (keyboardPop (keyboardSys s₀)).1.toBitVec.signExtend 32
          ∧ r = { s with keyboard :=
            (keyboardPop (keyboardSys s₀)).2.keyboard }) (by
      intro c' hc' s hhanded _
      have hsys := hhanded.keyboardSys h
      refine ⟨_, { s with keyboard :=
        (keyboardPop (keyboardSys s₀)).2.keyboard },
        hhanded.sparing ?_ rfl, rfl, rfl⟩
      rw [kernelCommands_run (show ((2#32).toInt, .command2Getkey)
        ∈ systemCommands by decide)]
      show isr80hCommand2Getkey s = _
      unfold isr80hCommand2Getkey
      rw [hsys])
  have hkernel : r.kernel = s₁.kernel := by
    rw [hr]
  refine ⟨s, flags, ?_, ?_, hhanded.outside hkernel hs, hs.guarded⟩
  · rw [hvalue] at hreach
    exact hreach
  · rw [hs.rest, hr, hhanded.rest, ← h.loaded]
    rfl

end Calls

-- ============================================================== a caller

section Caller

variable (program : List Instr)

/-- The kernel, where the task of `callerMemory` runs. -/
def callerState : SysState where
  kernel :=
    { ram := ⟨emptyHeap, callerMemory, true⟩
      files := fun _ => none
      taskHead := (objectsAt 0).task
      taskTail := (objectsAt 0).task
      currentTask := (objectsAt 0).task
      processes := fun _ => 0#32
      currProcess := (objectsAt 0).process }
  directory := (objectsAt 0).parts.dir
  keyboard := fun _ => ⟨fun _ => 65, 1#32, 0#32⟩
  capsLockState := .off
  terminal := ⟨fun _ => 0#16, 0#16, 0#16⟩
  port60 := fun _ => 0x1E#8
  acknowledged := 0

/-- Where its kernel has its arrays. -/
def callerLocals : Locals where
  kernelChunk := 0x00054000#32
  beyond := 0
  buf := 0x00050000#32
  fname := 0x00051000#32
  path := 0x00052000#32
  stack := fun _ => 0x00053000#32
  vol := none
  fuel := 0

/-- The processor it runs on. -/
def callerEnv : Env SysState :=
  imageEnv sysWords
    (isr80hHandlerEnded callerLocals kernelCommands imageSymbols.taskReturn)
    (fun _ _ s => some (.back 0#32 s)) program

theorem taskPageDirectory_caller :
    taskPageDirectory callerMemory (objectsAt 0).task
      = (objectsAt 0).parts.chunk := by
  have hsame : SameOn (objectsAt 0).task (blockBytes 1)
      (wordMemory callerWord) callerMemory := fun x hx =>
    store_entry_outside _ _ fun ⟨i, hi, hin⟩ =>
      apart_objectsAt.task_table i hi x hx hin
  exact (load32_congr (hsame.part (by decide))).trans
    (links_oneTask hasTask_callerWord).chunk

theorem running_caller : Running callerState (objectsAt 0).parts callerView
    CallerWords := by
  have htask : ∀ {b n : Nat}, b < kernelHeapBlocks → b ≠ 3 →
      n ≤ pagingPageSize →
      SpansApart (blockAddress 3) sizeofTask (blockAddress b) n := by
    intro b n hb hne hn
    have hhead : benosHeadAddress.toNat = 0x01000000 := rfl
    simp only [kernelHeapBlocks] at hb
    simp only [pagingPageSize] at hn
    have hsize : sizeofTask ≤ 4096 := by decide
    refine spansApart_of_dist ?_ ?_ <;>
      rw [BitVec.toNat_sub, toNat_blockAddress (by omega),
        toNat_blockAddress (by omega), hhead] <;>
      simp only [benosHeapBlockSize] <;>
      omega
  refine ⟨by decide, rfl, taskPageDirectory_caller, guarded_caller,
    mapped_caller, fun k _ => physOf_callerView _, ?_, ?_, ?_⟩
  · rintro x hx ⟨u, a, hA, hin⟩
    rw [physOf_callerView] at hin
    exact hA.apart_block (show 3 < kernelHeapBlocks by decide)
      (show sizeofTask ≤ pagingPageSize by decide) x hin hx
  · exact spansApart_of_dist (by decide) (by decide)
  · rintro x (hx | hx | ⟨i, hi, hx⟩) hin
    · exact htask (b := 4) (by decide) (by decide) (by decide) x hin hx
    · exact htask (b := 5) (by decide) (by decide) (by decide) x hin hx
    · simp only [pagingTotalEntriesPerTable] at hi
      refine htask (b := 0 + 6 + i) ?_ (by omega) (by decide) x hin hx
      simp only [kernelHeapBlocks]
      omega

theorem machine_caller : RunsKernel (callerEnv program) imageSymbols
    imageScratch (fun _ _ s => some (.back 0#32 s)) callerLocals
    CallerWords where
  words := rfl
  linked := imageEnv_linked _ _ _ program
  kernel :=
    { stack := ⟨by decide, fun k hk => Or.inr ⟨k, hk, rfl⟩⟩
      tmpRes := Or.inl rfl
      apart := by decide }

theorem stack_caller : UserStack CallerWords imageSymbols 0x3FF000#32 8 where
  room := ⟨by decide, fun k hk => ⟨k, hk, rfl⟩⟩
  kernel := by decide
  tmpRes := by decide

/-- A word of its stack. -/
theorem sysWords_caller {k : Nat} (hk : k < 8) :
    sysWords.read true callerState
        (below 0x3FF000#32 (k + 1))
      = some (callerWord (0xFFC00 - (k + 1))) := by
  have hA : CallerWords true (below 0x3FF000#32 (k + 1)) := ⟨k, hk, rfl⟩
  rw [@sysWords_read _ _ _ mapped_caller callerState rfl guarded_caller _ _ hA,
    physOf_callerView]
  obtain ⟨hlo, hhi, -⟩ := hA.bounds
  have hapart : SameOn (below 0x3FF000#32 (k + 1)) 4 (wordMemory callerWord)
      callerMemory := by
    refine fun x hx => store_entry_outside _ _ fun ⟨i, hi, hin⟩ => ?_
    simp only [pagingTotalEntriesPerTable] at hi
    exact hA.apart_block (b := 0 + 6 + i) (by
      simp only [kernelHeapBlocks]
      omega) (Nat.le_refl _) x hx hin
  refine congrArg some ((load32_congr hapart).trans (load32_wordMemory _ ?_))
  have hat : ∀ k < 8, (below 0x3FF000#32 (k + 1)).toNat
      = 4 * (0xFFC00 - (k + 1)) := by decide
  exact hat k hk

theorem benos_putchar_writes_caller :
    ∃ s flags, Reaches (callerEnv benosPutchar)
        ⟨imageCpu 7#32 0x3FEFF8#32, callerState⟩
        ⟨⟨Function.update (Function.update (imageCpu 7#32 0x3FEFF8#32).reg .eax
          0#32) .esp (below 0x3FF000#32 1), dataSegs (fun _ => 0x1B#16) 0x23#16,
          0x400123#32, flags⟩, s⟩
      ∧ s = SysState.setMem { callerState with terminal :=
          (terWritechar ⟨72#8⟩ 15 callerState.terminal).val } s.mem
      ∧ SameBut (Touched callerState callerView CallerWords) callerMemory s.mem
      ∧ Guarded (objectsAt 0).parts callerView s.mem :=
  @benos_putchar_writes callerState _ callerView CallerWords _ _ _ _
    0x3FF000#32 8 _ running_caller (machine_caller benosPutchar) stack_caller
    (imageCpu 7#32 0x3FEFF8#32) _ 0x400123#32 72#32 []
    (@codeAt_listing (imagePiece benosPutchar) 515 (by decide)
      (show 8 ≤ 32 by omega)) rfl (show 4 ≤ 8 by omega) rfl
    ⟨sysWords_caller (k := 1) (by decide), sysWords_caller (k := 0) (by decide),
      trivial⟩

theorem benos_getkey_pops_caller :
    ∃ s flags, Reaches (callerEnv benosGetkey)
        ⟨imageCpu 7#32 0x3FEFF8#32, callerState⟩
        ⟨⟨Function.update (Function.update (imageCpu 7#32 0x3FEFF8#32).reg .eax
          65#32) .esp (below 0x3FF000#32 1), dataSegs (fun _ => 0x1B#16) 0x23#16,
          0x400123#32, flags⟩, s⟩
      ∧ s = SysState.setMem { callerState with keyboard :=
          (keyboardPop (keyboardSys callerState)).2.keyboard } s.mem
      ∧ SameBut (Touched callerState callerView CallerWords) callerMemory s.mem
      ∧ Guarded (objectsAt 0).parts callerView s.mem :=
  @benos_getkey_pops callerState _ callerView CallerWords _ _ _ _
    0x3FF000#32 8 _ running_caller (machine_caller benosGetkey) stack_caller
    (imageCpu 7#32 0x3FEFF8#32) _ 0x400123#32 [72#32]
    (@codeAt_listing (imagePiece benosGetkey) 515 (by decide)
      (show 6 ≤ 32 by omega)) rfl (show 3 ≤ 8 by omega) rfl
    ⟨sysWords_caller (k := 1) (by decide), sysWords_caller (k := 0) (by decide),
      trivial⟩

end Caller

end BenOS.Isr80h
