/-
What the assembly of the interrupts does, instruction by instruction.
-/
import BenOS.Tasks.Assembly
import BenOS.Tasks.Proofs.Switch

namespace BenOS.Tasks

open Lib X86

variable {μ : Type} {E : Env μ} {sym : Symbols}
  {scratch : State μ → Scratch}
  {isr80hHandler interruptHandler :
    BitVec 32 → BitVec 32 → μ → Option (Ended μ)}
  {A : Bool → Addr → Prop} {I I' : μ → Prop}

/-- The words of the kernel stack an entry takes as far as its handler:
the frame, two arguments and the return address. -/
abbrev entryWords : Nat := 16

/-- Where `struct interrupt_frame` lies. -/
def frameAddress : Addr := below tssEsp0 13

/-- The words the assembly has to itself. -/
structure KernelWords (A : Bool → Addr → Prop) (sym : Symbols) : Prop where
  stack : Room A false tssEsp0 entryWords
  tmpRes : A false sym.tmpRes
  apart : ∀ k < entryWords, sym.tmpRes ≠ below tssEsp0 (k + 1)

/-- The frame and the return address are left by a handler; its arguments
are its own. -/
def FrameKept (W : WordMem μ) (m m' : μ) : Prop :=
  ∀ k, k < 13 ∨ k = 15 →
    W.read false m' (below tssEsp0 (k + 1))
      = W.read false m (below tssEsp0 (k + 1))

/-- The frame, as the entry lays it on the kernel stack. -/
def FrameOf (W : WordMem μ) (m : μ) (c : Cpu) (h : c.user = true) : Prop :=
  StackAt W false m tssEsp0 (entryStack (userCpu c h))

-- ================================================================== entering

/-- What the processor holds when it has taken an interrupt. -/
def enteredCpu (c : Cpu) (ss0 : BitVec 16) (address : Addr) : Cpu where
  reg := Function.update c.reg .esp (below tssEsp0 5)
  seg := Function.update (Function.update c.seg .ss ss0) .cs kernelCodeSelector
  eip := address
  flags := gateFlags c.flags

theorem user_of_kernelCode {c : Cpu} (h : c.seg .cs = kernelCodeSelector) :
    c.user = false := by
  unfold Cpu.user
  rw [h]
  rfl

theorem enteredCpu_user (c : Cpu) (ss0 : BitVec 16) (address : Addr) :
    (enteredCpu c ss0 address).user = false := by
  apply user_of_kernelCode
  simp only [enteredCpu, Function.update_self]

/-- The processor takes an interrupt of a program. -/
theorem enter_gate (hesp0 : E.esp0 = tssEsp0) (hown : Own E.words I A)
    (hroom : Room A false tssEsp0 entryWords) {s : State μ} (hI : I s.mem)
    (hu : s.cpu.user = true) (address : Addr) :
    ∃ m, interrupt E (idtGate address) s
        = some ⟨enteredCpu s.cpu E.ss0 address, m⟩
      ∧ I m ∧ Kept E.words A tssEsp0 entryWords s.mem m
      ∧ StackAt E.words false m tssEsp0
        [s.cpu.eip, (s.cpu.seg .cs).setWidth 32, s.cpu.flags,
          s.cpu.reg .esp, (s.cpu.seg .ss).setWidth 32] := by
  rw [← hesp0] at hroom
  obtain ⟨m, hint, hI', hkept, hws⟩ := @interrupt_stack μ E A I hown s
    (idtGate address) entryWords hI hroom (by decide) hu
    (show (kernelCodeSelector &&& 3#16 == 3#16) = false by decide)
  rw [hesp0] at hint hkept hws
  exact ⟨m, hint, hI', hkept, hws⟩

/-- The registers are saved behind what the processor saved, and the
handler is given the frame and a number. -/
theorem enter_block (hown : Own E.words I A)
    (hroom : Room A false tssEsp0 entryWords) {c : Cpu} (hc : c.user = true)
    {s : State μ} (hI : I s.mem) (hu : s.cpu.user = false)
    (hreg : s.cpu.reg = Function.update c.reg .esp (below tssEsp0 5))
    (hws : StackAt E.words false s.mem tssEsp0
      [c.eip, (c.seg .cs).setWidth 32, c.flags, c.reg .esp,
        (c.seg .ss).setWidth 32])
    {i : Instr} {v : BitVec 32}
    (hi : ∀ t : State μ,
      t.cpu.reg = Function.update c.reg .esp (below tssEsp0 14) →
      plain E.words t i = pushWord E.words v t) :
    ∃ m, block E.words [.pushad, .push .esp, i] s
        = some ⟨s.cpu.set .esp (below tssEsp0 15), m⟩
      ∧ I m ∧ Kept E.words A tssEsp0 entryWords s.mem m
      ∧ StackAt E.words false m tssEsp0
        (v :: frameAddress :: entryStack (userCpu c hc)) := by
  have hsp : s.cpu.reg .esp = below tssEsp0 5 := by
    rw [hreg]
    exact Function.update_self _ _ _
  obtain ⟨m₁, hpushad, hI₁, hkept₁, hws₁⟩ :=
    @pushad_stack μ E.words A I hown s false tssEsp0 entryWords
      [c.eip, (c.seg .cs).setWidth 32, c.flags, c.reg .esp,
        (c.seg .ss).setWidth 32] hI hroom (show 8 + 5 ≤ 16 by decide) hu hsp
      hws
  rw [hreg] at hws₁
  obtain ⟨m₂, hpush, hI₂, hkept₂, hws₂⟩ := @pushWord_stack μ E.words A I hown
    ⟨s.cpu.set .esp (below tssEsp0 13), m₁⟩ false tssEsp0 entryWords
    (entryStack (userCpu c hc)) hI₁ hroom (show 13 < 16 by decide) hu
    (Cpu.reg_set_self _ _ _) hws₁ frameAddress
  have hframe : plain E.words ⟨s.cpu.set .esp (below tssEsp0 13), m₁⟩
      (.push .esp) = some ⟨s.cpu.set .esp (below tssEsp0 14), m₂⟩ := by
    show pushWord E.words ((s.cpu.set .esp (below tssEsp0 13)).reg .esp) _ = _
    rw [Cpu.reg_set_self]
    refine hpush.trans ?_
    rw [Cpu.set_set]
    rfl
  obtain ⟨m₃, hpush₃, hI₃, hkept₃, hws₃⟩ := @pushWord_stack μ E.words A I hown
    ⟨s.cpu.set .esp (below tssEsp0 14), m₂⟩ false tssEsp0 entryWords
    (frameAddress :: entryStack (userCpu c hc)) hI₂ hroom
    (show 14 < 16 by decide) hu (Cpu.reg_set_self _ _ _) hws₂ v
  have hnumber : plain E.words ⟨s.cpu.set .esp (below tssEsp0 14), m₂⟩ i
      = some ⟨s.cpu.set .esp (below tssEsp0 15), m₃⟩ := by
    rw [hi]
    · refine hpush₃.trans ?_
      rw [Cpu.set_set]
      rfl
    · show Function.update s.cpu.reg .esp (below tssEsp0 14) = _
      rw [hreg, Function.update_idem]
  refine ⟨m₃, ?_, hI₃, (hkept₁.trans hkept₂).trans hkept₃, hws₃⟩
  rw [block_cons hpushad]
  refine (block_cons hframe).trans ?_
  exact block_cons hnumber

-- =================================================================== leaving

/-- The registers a frame holds are all but `esp`. -/
theorem update_gprs (r c : Reg → BitVec 32) (esp : BitVec 32) :
    Function.update (Function.update (Function.update (Function.update
      (Function.update (Function.update (Function.update (Function.update r
        .esp esp) .edi (c .edi)) .esi (c .esi)) .ebp (c .ebp)) .ebx (c .ebx))
        .edx (c .edx)) .ecx (c .ecx)) .eax (c .eax)
      = Function.update c .esp esp := by
  funext q
  cases q with
  | _ => rfl

/-- `popad` brings the registers back. -/
theorem leave_popad {W : WordMem μ} {c : Cpu} (hc : c.user = true)
    {s : State μ} (hu : s.cpu.user = false)
    (hsp : s.cpu.reg .esp = below tssEsp0 13)
    (hws : FrameOf W s.mem c hc) :
    X86.popad W s = some ⟨⟨Function.update c.reg .esp (below tssEsp0 5),
      s.cpu.seg, s.cpu.eip, s.cpu.flags⟩, s.mem⟩ := by
  have hpopad : X86.popad W s = some ((((((((s.set .esp
      (below tssEsp0 5)).set .edi (c.reg .edi)).set .esi (c.reg .esi)).set .ebp
      (c.reg .ebp)).set .ebx (c.reg .ebx)).set .edx (c.reg .edx)).set .ecx
      (c.reg .ecx)).set .eax (c.reg .eax)) :=
    @popad_stack μ W s false tssEsp0
      [c.eip, (c.seg .cs).setWidth 32, c.flags, c.reg .esp,
        (c.seg .ss).setWidth 32] _ _ _ _ _ _ _ _ hu hsp hws
  rw [hpopad]
  unfold State.set Cpu.set
  simp only [update_gprs]

/-- The arguments are dropped, and the registers come back. -/
theorem leave_block {W : WordMem μ} {c : Cpu} (hc : c.user = true)
    {s : State μ} (hu : s.cpu.user = false)
    (hsp : s.cpu.reg .esp = below tssEsp0 15) (hws : FrameOf W s.mem c hc)
    (is : List Instr) :
    ∃ flags, block W (.addImm .esp 8#32 :: .popad :: is) s
      = block W is ⟨⟨Function.update c.reg .esp (below tssEsp0 5), s.cpu.seg,
        s.cpu.eip, flags⟩, s.mem⟩ := by
  have hadd := @plain_addImm μ W s .esp _ 8#32 (below tssEsp0 13) hsp
    (by decide)
  have hpopad := @leave_popad μ W c hc ⟨⟨
    Function.update s.cpu.reg .esp (below tssEsp0 13), s.cpu.seg, s.cpu.eip,
    addFlags s.cpu.flags (below tssEsp0 15) 8#32⟩, s.mem⟩ hu
    (Cpu.reg_set_self s.cpu _ _) hws
  refine ⟨addFlags s.cpu.flags (below tssEsp0 15) 8#32, ?_⟩
  rw [block_cons hadd]
  exact block_cons hpopad

/-- `iretd` brings the rest back. -/
theorem leave_iretd {W : WordMem μ} {c : Cpu} (hc : c.user = true)
    {s : State μ} (hu : s.cpu.user = false)
    (hsp : s.cpu.reg .esp = below tssEsp0 5)
    (hseg : ∀ d, d ≠ .cs → d ≠ .ss → s.cpu.seg d = c.seg d)
    (hws : FrameOf W s.mem c hc) :
    X86.iretd W s = some ⟨⟨Function.update s.cpu.reg .esp (c.reg .esp),
      c.seg, c.eip, c.flags⟩, s.mem⟩ := by
  have hcs := selector_roundtrip (c.seg .cs)
  have hss := selector_roundtrip (c.seg .ss)
  have hring : ((c.seg .cs).setWidth 32).setWidth 16 &&& 3#16 = 3#16 := by
    rw [hcs]
    exact beq_iff_eq.mp hc
  have hlow : StackAt W false s.mem tssEsp0
      [c.eip, (c.seg .cs).setWidth 32, c.flags, c.reg .esp,
        (c.seg .ss).setWidth 32] := hws.2.2.2.2.2.2.2.2
  have hsegs : Function.update (Function.update s.cpu.seg .cs (c.seg .cs)) .ss
      (c.seg .ss) = c.seg := by
    funext d
    by_cases hds : d = .ss
    · rw [hds, Function.update_self]
    · rw [Function.update_of_ne hds]
      by_cases hdc : d = .cs
      · rw [hdc, Function.update_self]
      · rw [Function.update_of_ne hdc]
        exact hseg d hdc hds
  rw [iretd_stack hu hring hsp hlow, hcs, hss, hsegs]

-- ================================================================ the handler

/-- The processor stands before the call of a handler `f`, for a program
that held `c`: the handler is given the number `a` and the frame. -/
structure AtCall (E : Env μ) (I : μ → Prop) (A : Bool → Addr → Prop) (m₀ : μ)
    (c : Cpu) (hc : c.user = true) (a f back : BitVec 32) (s : State μ) :
    Prop where
  user : s.cpu.user = false
  reg : s.cpu.reg = Function.update c.reg .esp (below tssEsp0 15)
  seg : s.cpu.seg
    = Function.update (Function.update c.seg .ss E.ss0) .cs kernelCodeSelector
  code : E.code s.cpu.eip = some (.call f, back)
  inv : I s.mem
  kept : Kept E.words A tssEsp0 entryWords m₀ s.mem
  stack : StackAt E.words false s.mem tssEsp0
    (a :: frameAddress :: entryStack (userCpu c hc))

/-- The C handler comes back. -/
theorem call_handler (hown : Own E.words I A)
    (hroom : Room A false tssEsp0 entryWords) {m₀ : μ} {c : Cpu}
    (hc : c.user = true) {s : State μ} {a f back : BitVec 32} {ds : BitVec 16}
    {g : BitVec 32 → BitVec 32 → μ → Option (Ended μ)}
    {Q : μ → BitVec 32 → μ → Prop} (h : AtCall E I A m₀ c hc a f back s)
    (hext : E.foreign f = some (cdecl2 E.words scratch ds g))
    (hg : ∀ m, I m → Kept E.words A tssEsp0 entryWords m₀ m →
      FrameOf E.words m c hc →
      ∃ res m', g a frameAddress m = some (.back res m') ∧ Q m res m'
        ∧ FrameKept E.words m m') :
    ∃ m res m' reg flags, Kept E.words A tssEsp0 entryWords m₀ m
      ∧ g a frameAddress m = some (.back res m') ∧ Q m res m'
      ∧ FrameOf E.words m' c hc
      ∧ step E s = some ⟨⟨reg, dataSegs s.cpu.seg ds, back, flags⟩, m'⟩
      ∧ reg .esp = below tssEsp0 15 ∧ reg .eax = res := by
  have hsp : s.cpu.reg .esp = below tssEsp0 15 := by
    rw [h.reg]
    exact Function.update_self _ _ _
  obtain ⟨m, res, m', ecx, edx, flags, hkept, ⟨hQ, hframe⟩, hres, hcall⟩ :=
    @callTo_cdecl2 μ E A I hown (s.at back) false tssEsp0 f a frameAddress
      entryWords (entryStack (userCpu c hc)) scratch ds g
      (fun m res m' => Q m res m' ∧ FrameOf E.words m' c hc) h.inv hroom
      (show 3 + 13 ≤ 16 by decide) h.user hsp h.stack hext (by
        intro m hI' hkept hholds
        obtain ⟨res, m', hres, hQ, hsame⟩ :=
          hg m hI' (h.kept.trans hkept) hholds.2.2.2
        refine ⟨res, m', hres, ⟨hQ, ?_⟩, ?_⟩
        · exact hholds.2.2.2.congr fun k hk => hsame k (Or.inl hk)
        · exact (hsame 15 (Or.inr rfl)).trans hholds.1)
  have hstep := (step_call h.code).trans hcall
  exact ⟨m, res, m', _, flags, h.kept.trans hkept, hres, hQ, hframe, hstep,
    hsp, rfl⟩

-- ================================================================= the wrapper

/-- As far as the call of `isr80h_handler`. -/
theorem enter_wrapper
    (hlink : Linked E sym scratch isr80hHandler interruptHandler)
    (hown : Own E.words I A) (hroom : Room A false tssEsp0 entryWords)
    {s : State μ} (hI : I s.mem) (hu : s.cpu.user = true) :
    ∃ s₁ s₂ back stop, interrupt E (idtGate sym.isr80hWrapper) s = some s₁
      ∧ Works E s₁ s₂
      ∧ AtCall E I A s.mem s.cpu hu (s.cpu.reg .eax) sym.isr80hHandler back s₂
      ∧ CodeAt E.code back
        [ .storeAbs sym.tmpRes .eax, .addImm .esp 8#32, .popad
        , .loadAbs .eax sym.tmpRes, .iretd ] stop := by
  obtain ⟨m₁, hint, hI₁, hkept₁, hws₁⟩ :=
    @enter_gate μ E A I hlink.esp0 hown hroom s hI hu sym.isr80hWrapper
  obtain ⟨stop, hload⟩ := hlink.wrapper
  obtain ⟨b, hin, back, hcall, hout⟩ := @codeAt_append E.code
    [.cli, .pushad, .push .esp, .push .eax] _ stop _ hload
  have hu₁ := enteredCpu_user s.cpu E.ss0 sym.isr80hWrapper
  obtain ⟨c₁, hc₁⟩ : ∃ c, c
      = { enteredCpu s.cpu E.ss0 sym.isr80hWrapper with
        flags := setFlag (gateFlags s.cpu.flags) flagIf false } := ⟨_, rfl⟩
  have hreg₁ : c₁.reg = Function.update s.cpu.reg .esp (below tssEsp0 5) := by
    rw [hc₁]
    rfl
  have hseg₁ : c₁.seg = Function.update
      (Function.update s.cpu.seg .ss E.ss0) .cs kernelCodeSelector := by
    rw [hc₁]
    rfl
  have hker₁ : c₁.user = false := by
    rw [hc₁]
    exact hu₁
  have hcli : plain E.words
      ⟨enteredCpu s.cpu E.ss0 sym.isr80hWrapper, m₁⟩ .cli
      = some ⟨c₁, m₁⟩ := by
    show setIf false _ = _
    unfold setIf
    rw [hu₁, hc₁]
    rfl
  obtain ⟨m₂, hblock, hI₂, hkept₂, hws₂⟩ := @enter_block μ E A I hown hroom
    s.cpu hu ⟨c₁, m₁⟩ hI₁ hker₁ hreg₁ hws₁ (.push .eax) (s.cpu.reg .eax) (by
      intro t ht
      show pushWord E.words (t.cpu.reg .eax) t = _
      rw [ht]
      rfl)
  have hworks := works_block hin hu₁ ((block_cons hcli).trans hblock)
  refine ⟨_, _, back, stop, hint, hworks,
    ⟨hker₁, ?_, hseg₁, hcall, hI₂, hkept₁.trans hkept₂, hws₂⟩, hout⟩
  show Function.update c₁.reg .esp _ = _
  rw [hreg₁, Function.update_idem]

/-- Behind the call of `isr80h_handler`. -/
theorem leave_wrapper (hown : Own E.words I A) (hwords : KernelWords A sym)
    {c : Cpu} (hc : c.user = true) {seg : Seg → BitVec 16} {m : μ}
    {reg : Reg → BitVec 32} {back stop flags res : BitVec 32} (hI : I m)
    (hu : (Cpu.mk reg seg back flags).user = false)
    (hsp : reg .esp = below tssEsp0 15) (heax : reg .eax = res)
    (hseg : ∀ d, d ≠ .cs → d ≠ .ss → seg d = c.seg d)
    (hframe : FrameOf E.words m c hc)
    (hout : CodeAt E.code back
      [ .storeAbs sym.tmpRes .eax, .addImm .esp 8#32, .popad
      , .loadAbs .eax sym.tmpRes, .iretd ] stop) :
    ∃ m', E.words.write false m sym.tmpRes res = some m'
      ∧ Works E ⟨⟨reg, seg, back, flags⟩, m⟩ ⟨c.set .eax res, m'⟩ := by
  obtain ⟨d, hblock, stop', hiretd, -⟩ := @codeAt_append E.code
    [.storeAbs sym.tmpRes .eax, .addImm .esp 8#32, .popad,
      .loadAbs .eax sym.tmpRes] _ stop _ hout
  obtain ⟨m', hwrite, -, hread⟩ := hown.write hI hwords.tmpRes res
  have hstore : plain E.words ⟨⟨reg, seg, back, flags⟩, m⟩
      (.storeAbs sym.tmpRes .eax) = some ⟨⟨reg, seg, back, flags⟩, m'⟩ := by
    unfold plain
    simp only [hu, heax, hwrite]
    rfl
  have hframe' : FrameOf E.words m' c hc := by
    apply hframe.congr
    intro k hk
    have hlt : k < entryWords := lt_trans hk (show 13 < 16 by decide)
    rw [hread false _ (hwords.stack.cells k hlt), if_neg]
    exact fun heq => hwords.apart k hlt heq.symm
  obtain ⟨flags', hleave⟩ := @leave_block μ E.words c hc
    ⟨⟨reg, seg, back, flags⟩, m'⟩ hu hsp hframe' [.loadAbs .eax sym.tmpRes]
  have hload : E.words.read false m' sym.tmpRes = some res := by
    rw [hread false _ hwords.tmpRes, if_pos rfl]
  have hker : (Cpu.mk (Function.update c.reg .esp (below tssEsp0 5)) seg back
    flags').user = false := hu
  obtain ⟨r, hr⟩ : ∃ r, r = Function.update (Function.update c.reg .esp
    (below tssEsp0 5)) .eax res := ⟨_, rfl⟩
  have hanswer : block E.words [.loadAbs .eax sym.tmpRes] ⟨⟨Function.update
      c.reg .esp (below tssEsp0 5), seg, back, flags'⟩, m'⟩
      = some ⟨⟨r, seg, back, flags'⟩, m'⟩ := by
    unfold block plain
    simp only [hker, hload]
    rw [hr]
    rfl
  have hworks : Works E ⟨⟨reg, seg, back, flags⟩, m⟩
      ⟨⟨r, seg, d, flags'⟩, m'⟩ :=
    works_block hblock hu ((block_cons hstore).trans (hleave.trans hanswer))
  have hspr : r .esp = below tssEsp0 5 := by
    rw [hr]
    rfl
  have hiret := @leave_iretd μ E.words c hc ⟨⟨r, seg, d, flags'⟩, m'⟩ hu hspr
    hseg hframe'
  have hregs : Function.update r .esp (c.reg .esp)
      = Function.update c.reg .eax res := by
    rw [hr, Function.update_comm (by decide), Function.update_idem,
      Function.update_eq_self]
  refine ⟨m', hwrite, ?_⟩
  have hend : (⟨⟨Function.update r .esp (c.reg .esp), c.seg, c.eip, c.flags⟩,
      m'⟩ : State μ) = ⟨c.set .eax res, m'⟩ := by
    rw [hregs]
    rfl
  have hstep : step E ⟨⟨r, seg, d, flags'⟩, m'⟩ = some ⟨c.set .eax res, m'⟩ :=
    (step_iretd hiretd).trans (hiret.trans (congrArg some hend))
  exact hworks.tail hu hstep

/-- What a program holds behind its entry into the kernel: its data
segments are those of `user_registers`. -/
def Cpu.returned (c : Cpu) : Cpu := { c with seg := dataSegs c.seg userSelector }

/-- A system call is answered: `isr80h_handler` is called once, with the
number in `eax` and the frame of the program, and the program goes on
behind its `int 0x80` with the answer in `eax`, the data segments of a
program, and all else as it was. Of the memory only `tmp_res` is written
behind the handler. -/
theorem isr80h_wrapper_returns
    (hlink : Linked E sym scratch isr80hHandler interruptHandler)
    (hown : Own E.words I A) (hown' : Own E.words I' A)
    (hwords : KernelWords A sym) {s : State μ}
    {Q : μ → BitVec 32 → μ → Prop} (hI : I s.mem) (hu : s.cpu.user = true)
    (hhandler : ∀ m, I m → Kept E.words A tssEsp0 entryWords s.mem m →
      FrameOf E.words m s.cpu hu →
      ∃ res m', isr80hHandler (s.cpu.reg .eax) frameAddress m
          = some (.back res m')
        ∧ (Q m res m' ∧ I' m') ∧ FrameKept E.words m m') :
    ∃ s₁ m res m' m'', interrupt E (idtGate sym.isr80hWrapper) s = some s₁
      ∧ Kept E.words A tssEsp0 entryWords s.mem m
      ∧ isr80hHandler (s.cpu.reg .eax) frameAddress m = some (.back res m')
      ∧ Q m res m' ∧ I' m' ∧ E.words.write false m' sym.tmpRes res = some m''
      ∧ Works E s₁ ⟨(Cpu.returned s.cpu).set .eax res, m''⟩ := by
  obtain ⟨s₁, s₂, back, stop, hint, hworks, hat, hout⟩ :=
    enter_wrapper hlink hown hwords.stack hI hu
  obtain ⟨m, res, m', reg, flags, hkept, hres, ⟨hQ, hI'⟩, hframe, hstep, hsp,
    heax⟩ := @call_handler μ E scratch A I hown hwords.stack s.mem s.cpu hu s₂
      (s.cpu.reg .eax) sym.isr80hHandler back userSelector isr80hHandler
      (fun m res m' => Q m res m' ∧ I' m') hat hlink.isr80hHandler hhandler
  have hker : (Cpu.mk reg (dataSegs s₂.cpu.seg userSelector) back flags).user
      = false := hat.user
  obtain ⟨m'', hwrite, hleave⟩ := @leave_wrapper μ E sym A I' hown' hwords
    (Cpu.returned s.cpu) hu _ m' reg back stop flags res hI' hker hsp heax (by
      intro d hcs hss
      cases d with
      | cs => exact absurd rfl hcs
      | ss => exact absurd rfl hss
      | _ => rfl) hframe hout
  exact ⟨s₁, m, res, m', m'', hint, hkept, hres, hQ, hI', hwrite,
    hworks.trans (hleave.head hat.user hstep)⟩

/-- The words of the kernel in a memory without pages. -/
theorem flat_kernelWords : KernelWords (fun _ _ => True) imageSymbols where
  stack := ⟨by decide, fun _ _ => trivial⟩
  tmpRes := trivial
  apart := by decide

/-- A processor that runs the program of the image. -/
def imageCpu (eax esp : BitVec 32) : Cpu where
  reg := Function.update (Function.update (fun _ => 0#32) .eax eax) .esp esp
  seg _ := 0x1B#16
  eip := imageProgram
  flags := 0x202#32

/-- As far as the call of `interrupt_handler`. -/
theorem enter_stub
    (hlink : Linked E sym scratch isr80hHandler interruptHandler)
    (hown : Own E.words I A) (hroom : Room A false tssEsp0 entryWords)
    {s : State μ} (hI : I s.mem) (hu : s.cpu.user = true) (n : BitVec 8) :
    ∃ s₁ s₂ back stop, interrupt E (idtGate (sym.interrupt n.toNat)) s = some s₁
      ∧ Works E s₁ s₂
      ∧ AtCall E I A s.mem s.cpu hu (BitVec.ofNat 32 n.toNat)
        sym.interruptHandler back s₂
      ∧ CodeAt E.code back [.addImm .esp 8#32, .popad, .iretd] stop := by
  obtain ⟨m₁, hint, hI₁, hkept₁, hws₁⟩ := enter_gate hlink.esp0 hown hroom hI
    hu (sym.interrupt n.toNat)
  obtain ⟨stop, hload⟩ := hlink.stub n.toNat
    (lt_trans n.isLt (show 2 ^ 8 < 512 by decide))
  obtain ⟨b, hin, back, hcall, hout⟩ := @codeAt_append E.code
    [.pushad, .push .esp, .pushImm (BitVec.ofNat 32 n.toNat)] _ stop _ hload
  have hker := enteredCpu_user s.cpu E.ss0 (sym.interrupt n.toNat)
  obtain ⟨c₁, hc₁⟩ : ∃ c, c = enteredCpu s.cpu E.ss0 (sym.interrupt n.toNat) :=
    ⟨_, rfl⟩
  rw [← hc₁] at hint hker
  have hreg₁ : c₁.reg = Function.update s.cpu.reg .esp (below tssEsp0 5) := by
    rw [hc₁]
    rfl
  have hseg₁ : c₁.seg = Function.update
      (Function.update s.cpu.seg .ss E.ss0) .cs kernelCodeSelector := by
    rw [hc₁]
    rfl
  have heip₁ : c₁.eip = sym.interrupt n.toNat := by
    rw [hc₁]
    rfl
  obtain ⟨m₂, hblock, hI₂, hkept₂, hws₂⟩ := @enter_block μ E A I hown hroom
    s.cpu hu ⟨c₁, m₁⟩ hI₁ hker hreg₁ hws₁
    (.pushImm (BitVec.ofNat 32 n.toNat)) (BitVec.ofNat 32 n.toNat)
    fun _ _ => rfl
  have hworks : Works E ⟨c₁, m₁⟩
      ((State.mk (c₁.set .esp (below tssEsp0 15)) m₂).at b) :=
    works_block (by rw [heip₁]; exact hin) hker hblock
  refine ⟨_, _, back, stop, hint, hworks,
    ⟨hker, ?_, hseg₁, hcall, hI₂, hkept₁.trans hkept₂, hws₂⟩, hout⟩
  show Function.update c₁.reg .esp _ = _
  rw [hreg₁, Function.update_idem]

/-- Behind the call of `interrupt_handler`. -/
theorem leave_stub {c : Cpu} (hc : c.user = true) {seg : Seg → BitVec 16}
    {m : μ} {reg : Reg → BitVec 32} {back stop flags : BitVec 32}
    (hu : (Cpu.mk reg seg back flags).user = false)
    (hsp : reg .esp = below tssEsp0 15)
    (hseg : ∀ d, d ≠ .cs → d ≠ .ss → seg d = c.seg d)
    (hframe : FrameOf E.words m c hc)
    (hout : CodeAt E.code back [.addImm .esp 8#32, .popad, .iretd] stop) :
    Works E ⟨⟨reg, seg, back, flags⟩, m⟩ ⟨c, m⟩ := by
  obtain ⟨d, hblock, stop', hiretd, -⟩ := @codeAt_append E.code
    [.addImm .esp 8#32, .popad] _ stop _ hout
  obtain ⟨flags', hleave⟩ := @leave_block μ E.words c hc
    ⟨⟨reg, seg, back, flags⟩, m⟩ hu hsp hframe []
  have hker : (Cpu.mk (Function.update c.reg .esp (below tssEsp0 5)) seg d
    flags').user = false := hu
  have hiret := @leave_iretd μ E.words c hc
    ⟨⟨Function.update c.reg .esp (below tssEsp0 5), seg, d, flags'⟩, m⟩ hker
    (Cpu.reg_set_self c _ _) hseg hframe
  refine (works_block hblock hu hleave).tail hker ?_
  refine ((step_iretd hiretd).trans hiret).trans ?_
  rw [Function.update_idem, Function.update_eq_self]

/-- An interrupt between two instructions of a program is invisible to it:
`interrupt_handler` is called once, with the number of the interrupt and
the frame of the program, and where it comes back the processor holds for
the program what it held, with the data segments of a program. The memory
is what the handler left. -/
theorem interrupt_stub_returns
    (hlink : Linked E sym scratch isr80hHandler interruptHandler)
    (hown : Own E.words I A) (hroom : Room A false tssEsp0 entryWords)
    {s : State μ} {n : BitVec 8} {Q : μ → μ → Prop} (hI : I s.mem)
    (hu : s.cpu.user = true) (hn : 0x20 ≤ n.toNat) (hn' : n ≠ 0x80#8)
    (hhandler : ∀ m, I m → Kept E.words A tssEsp0 entryWords s.mem m →
      FrameOf E.words m s.cpu hu →
      ∃ res m', interruptHandler (BitVec.ofNat 32 n.toNat) frameAddress m
          = some (.back res m') ∧ Q m m' ∧ FrameKept E.words m m') :
    ∃ g s₁ m res m', E.gate n = some g ∧ interrupt E g s = some s₁
      ∧ Kept E.words A tssEsp0 entryWords s.mem m
      ∧ interruptHandler (BitVec.ofNat 32 n.toNat) frameAddress m
        = some (.back res m')
      ∧ Q m m' ∧ Works E s₁ ⟨Cpu.returned s.cpu, m'⟩ := by
  have hgate := hlink.gate n (by rintro rfl; exact absurd hn (by decide)) hn'
  obtain ⟨s₁, s₂, back, stop, hint, hworks, hat, hout⟩ :=
    enter_stub hlink hown hroom hI hu n
  obtain ⟨m, res, m', reg, flags, hkept, hres, hQ, hframe, hstep, hsp, -⟩ :=
    @call_handler μ E scratch A I hown hroom s.mem s.cpu hu s₂
      (BitVec.ofNat 32 n.toNat) sym.interruptHandler back userSelector
      interruptHandler (fun m _ m' => Q m m') hat hlink.interruptHandler
      hhandler
  have hleave := @leave_stub μ E (Cpu.returned s.cpu) hu
    (dataSegs s₂.cpu.seg userSelector) m' reg back stop flags hat.user hsp (by
      intro d hcs hss
      cases d with
      | cs => exact absurd rfl hcs
      | ss => exact absurd rfl hss
      | _ => rfl) hframe hout
  exact ⟨_, s₁, m, res, m', hgate, hint, hkept, hres, hQ,
    hworks.trans (hleave.head hat.user hstep)⟩

end BenOS.Tasks
