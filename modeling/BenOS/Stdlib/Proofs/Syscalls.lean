/-
What a program gets from a system call: the command is run once, with its
number and its argument, and the function returns as C functions do, with
the answer in `eax` (`system_call_returns`).
-/
import BenOS.Stdlib.Syscalls
import BenOS.Tasks.Proofs.Assembly

namespace BenOS.Stdlib.Asm

open Lib X86 Tasks

variable {μ : Type} {E : Env μ} {sym : Symbols}
  {scratch : State μ → Scratch}
  {isr80hHandler interruptHandler :
    BitVec 32 → BitVec 32 → μ → Option (Ended μ)}
  {A : Bool → Addr → Prop} {I I' : μ → Prop} {top : Addr} {cap : Nat}

-- ================================================================ the stacks

/-- The stack of a program, apart from the words of the kernel. -/
structure UserStack (A : Bool → Addr → Prop) (sym : Symbols) (top : Addr)
    (cap : Nat) : Prop where
  room : Room A true top cap
  kernel : ∀ j < cap, ∀ k < entryWords,
    below top (j + 1) ≠ below tssEsp0 (k + 1)
  tmpRes : ∀ j < cap, below top (j + 1) ≠ sym.tmpRes

-- ================================================================= the calls

/-- The code of a function in front of the call and behind it, by its
number of arguments. -/
inductive CallShape (command : BitVec 32) :
    Nat → List Instr → List Instr → Prop
  | none : CallShape command 0
      [.push .ebp, .mov .ebp .esp, .movImm .eax command] [.pop .ebp, .ret]
  | argFirst : CallShape command 1
      [.push .ebp, .mov .ebp .esp, .pushMem .ebp 8#32, .movImm .eax command]
      [.addImm .esp 4#32, .pop .ebp, .ret]
  | argLast : CallShape command 1
      [.push .ebp, .mov .ebp .esp, .movImm .eax command, .pushMem .ebp 8#32]
      [.addImm .esp 4#32, .pop .ebp, .ret]

/-- The functions differ in the number, in the argument, and in the order
of two instructions. -/
theorem systemCalls_shape {call : List Instr} {command : BitVec 32} {n : Nat}
    (h : (call, command, n) ∈ systemCalls) :
    ∃ enter leave, CallShape command n enter leave
      ∧ call = enter ++ .int 0x80#8 :: leave := by
  simp only [systemCalls, List.mem_cons, Prod.mk.injEq, List.not_mem_nil,
    or_false] at h
  rcases h with ⟨rfl, rfl, rfl⟩ | ⟨rfl, rfl, rfl⟩ | ⟨rfl, rfl, rfl⟩
    | ⟨rfl, rfl, rfl⟩ | ⟨rfl, rfl, rfl⟩ | ⟨rfl, rfl, rfl⟩ | ⟨rfl, rfl, rfl⟩
    | ⟨rfl, rfl, rfl⟩
  · exact ⟨_, _, .argFirst, rfl⟩
  · exact ⟨_, _, .none, rfl⟩
  all_goals exact ⟨_, _, .argLast, rfl⟩

/-- The frame of the function, as far as the number and the argument. -/
theorem enter_call (hown : Own E.words I A) (hroom : Room A true top cap)
    {s : State μ} {ret command : BitVec 32} {args ws : List (BitVec 32)}
    {enter leave : List Instr}
    (hshape : CallShape command args.length enter leave) (hI : I s.mem)
    (hlt : args.length + ((args ++ ws).length + 2) ≤ cap)
    (hu : s.cpu.user = true)
    (hsp : s.cpu.reg .esp = below top ((args ++ ws).length + 1))
    (hws : StackAt E.words true s.mem top (ret :: (args ++ ws))) :
    ∃ m, block E.words enter s
        = some ⟨⟨Function.update (Function.update (Function.update s.cpu.reg
            .ebp (below top ((args ++ ws).length + 2))) .eax command)
            .esp (below top (args.length + ((args ++ ws).length + 2))),
          s.cpu.seg, s.cpu.eip, s.cpu.flags⟩, m⟩
      ∧ I m ∧ Kept E.words A top cap s.mem m
      ∧ StackAt E.words true m top
        (args ++ s.cpu.reg .ebp :: ret :: (args ++ ws)) := by
  obtain ⟨k, hk⟩ : ∃ k, k = (args ++ ws).length := ⟨_, rfl⟩
  rw [← hk] at hlt hsp
  rw [← hk]
  obtain ⟨m₁, hpush, hI₁, hkept₁, hws₁⟩ := @pushWord_stack μ E.words A I hown
    s true top cap (ret :: (args ++ ws)) hI hroom
    (by rw [List.length_cons, ← hk]; omega) hu
    (by rw [List.length_cons, ← hk]; exact hsp) hws (s.cpu.reg .ebp)
  rw [List.length_cons, ← hk] at hpush
  obtain ⟨c₁, hc₁⟩ : ∃ c, c = (s.cpu.set .esp (below top (k + 2))).set
    .ebp (below top (k + 2)) := ⟨_, rfl⟩
  have hpush' : plain E.words s (.push .ebp)
      = some ⟨s.cpu.set .esp (below top (k + 2)), m₁⟩ := hpush
  have hmov : plain E.words ⟨s.cpu.set .esp (below top (k + 2)), m₁⟩
      (.mov .ebp .esp) = some ⟨c₁, m₁⟩ := by
    rw [hc₁]
    rfl
  have hregs : ∀ n, Function.update (Function.update c₁.reg .eax command) .esp
      (below top n) = Function.update (Function.update
        (Function.update s.cpu.reg .ebp (below top (k + 2))) .eax
        command) .esp (below top n) := by
    intro n
    rw [hc₁]
    funext q
    cases q with
    | _ => rfl
  have hend : ∀ n, (c₁.set .eax command).set .esp (below top n)
      = ⟨Function.update (Function.update (Function.update s.cpu.reg .ebp
          (below top (k + 2))) .eax command) .esp (below top n),
        s.cpu.seg, s.cpu.eip, s.cpu.flags⟩ := by
    intro n
    rw [← hregs, hc₁]
    rfl
  have hu₁ : c₁.user = true := by
    rw [hc₁]
    exact hu
  have hsp₁ : c₁.reg .esp = below top (k + 2) := by
    rw [hc₁]
    rfl
  have hbp₁ : c₁.reg .ebp = below top (k + 2) := by
    rw [hc₁]
    rfl
  -- the argument lies two words behind the saved `ebp`
  have hpushArg : ∀ {arg : BitVec 32}, args = [arg] → ∀ c : Cpu,
      c.user = true → c.reg .esp = below top (k + 2) →
      c.reg .ebp = below top (k + 2) →
      ∃ m₂, plain E.words ⟨c, m₁⟩ (.pushMem .ebp 8#32)
          = some ⟨c.set .esp (below top (k + 3)), m₂⟩
        ∧ I m₂ ∧ Kept E.words A top cap m₁ m₂
        ∧ StackAt E.words true m₂ top
          (args ++ s.cpu.reg .ebp :: ret :: (args ++ ws)) := by
    intro arg hargs c hc hsp' hbp
    subst hargs
    rw [List.length_singleton] at hlt
    rw [List.singleton_append, List.length_cons] at hk
    have harg : below top (k + 2) + 8#32 = below top k := by
      rw [show (8#32 : BitVec 32) = 4#32 + 4#32 from rfl, ← add_assoc,
        below_succ_add, below_succ_add]
    have hread : E.words.read c.user m₁ (c.reg .ebp + 8#32) = some arg := by
      rw [hc, hbp, harg, hk]
      exact hws₁.2.2.1
    obtain ⟨m₂, hpush₂, hI₂, hkept₂, hws₂⟩ := @pushWord_stack μ E.words A I
      hown ⟨c, m₁⟩ true top cap (s.cpu.reg .ebp :: ret :: arg :: ws) hI₁ hroom
      (show ws.length + 3 < cap by omega) hc (by rw [hsp', hk]; rfl) hws₁ arg
    refine ⟨m₂, (plain_pushMem hread).trans ?_, hI₂, hkept₂, hws₂⟩
    rw [hpush₂, hk]
    rfl
  generalize hn : args.length = n at hshape hlt ⊢
  cases hshape with
  | none =>
      have hnil : args = [] := List.length_eq_zero_iff.mp hn
      refine ⟨m₁, ?_, hI₁, hkept₁, ?_⟩
      · rw [block_cons hpush', block_cons hmov]
        refine (block_cons rfl).trans ?_
        rw [Nat.zero_add, ← hend, ← hsp₁]
        exact congrArg some (State.set_self
          (State.mk (c₁.set .eax command) m₁) .esp).symm
      · rw [hnil] at hws₁ ⊢
        exact hws₁
  | argFirst =>
      obtain ⟨arg, hargs⟩ := List.length_eq_one_iff.mp hn
      obtain ⟨m₂, hpush₂, hI₂, hkept₂, hws₂⟩ := hpushArg hargs c₁ hu₁ hsp₁ hbp₁
      refine ⟨m₂, ?_, hI₂, hkept₁.trans hkept₂, hws₂⟩
      rw [block_cons hpush', block_cons hmov, block_cons hpush₂,
        show 1 + (k + 2) = k + 3 by omega, ← hend,
        Cpu.set_comm c₁ (show Reg.eax ≠ Reg.esp by decide)]
      rfl
  | argLast =>
      obtain ⟨arg, hargs⟩ := List.length_eq_one_iff.mp hn
      obtain ⟨m₂, hpush₂, hI₂, hkept₂, hws₂⟩ :=
        hpushArg hargs (c₁.set .eax command) hu₁ hsp₁ hbp₁
      refine ⟨m₂, ?_, hI₂, hkept₁.trans hkept₂, hws₂⟩
      rw [block_cons hpush', block_cons hmov]
      refine (block_cons rfl).trans ?_
      refine (block_cons hpush₂).trans ?_
      rw [show 1 + (k + 2) = k + 3 by omega, ← hend]
      rfl

/-- The last instructions of the function: `ebp` comes back, and it
returns. -/
theorem pop_and_ret {s : State μ} {stop ebp ret : BitVec 32} {k : Nat}
    (hload : CodeAt E.code s.cpu.eip [.pop .ebp, .ret] stop)
    (hu : s.cpu.user = true) (hsp : s.cpu.reg .esp = below top (k + 2))
    (hebp : E.words.read true s.mem (below top (k + 2)) = some ebp)
    (hret : E.words.read true s.mem (below top (k + 1)) = some ret) :
    Reaches E s ⟨⟨Function.update (Function.update s.cpu.reg .ebp ebp) .esp
      (below top k), s.cpu.seg, ret, s.cpu.flags⟩, s.mem⟩ := by
  obtain ⟨next, hpop, next', hretcode, -⟩ := hload
  have hstep := step_plain hpop (plain_pop hsp (by rw [hu]; exact hebp))
  rw [below_succ_add] at hstep
  obtain ⟨s₁, hs₁⟩ : ∃ s₁, s₁ = ((s.set .esp (below top (k + 1))).set .ebp
    ebp).at next := ⟨_, rfl⟩
  rw [← hs₁] at hstep
  have hsp₁ : s₁.cpu.reg .esp = below top (k + 1) := by
    rw [hs₁]
    rfl
  have hret₁ : E.words.read s₁.cpu.user s₁.mem (below top (k + 1))
      = some ret := by
    rw [hs₁]
    show E.words.read s.cpu.user s.mem _ = _
    rw [hu]
    exact hret
  have hcode₁ : E.code s₁.cpu.eip = some (.ret, next') := by
    rw [hs₁]
    exact hretcode
  have hback := step_ret hcode₁ (popWord_read hsp₁ hret₁)
  rw [below_succ_add] at hback
  refine Relation.ReflTransGen.head hstep (Relation.ReflTransGen.single
    (hback.trans (congrArg some ?_)))
  have hregs : Function.update s₁.cpu.reg .esp (below top k)
      = Function.update (Function.update s.cpu.reg .ebp ebp) .esp
        (below top k) := by
    rw [hs₁]
    funext q
    cases q with
    | _ => rfl
  rw [← hregs, hs₁]
  rfl

/-- What is left of the function behind the call: the argument is
dropped, and it returns. -/
theorem leave_call {s : State μ} {stop command ebp ret : BitVec 32}
    {n k : Nat} {enter leave : List Instr}
    (hshape : CallShape command n enter leave)
    (hload : CodeAt E.code s.cpu.eip leave stop) (hu : s.cpu.user = true)
    (hsp : s.cpu.reg .esp = below top (n + (k + 2)))
    (hebp : E.words.read true s.mem (below top (k + 2)) = some ebp)
    (hret : E.words.read true s.mem (below top (k + 1)) = some ret) :
    ∃ flags, Reaches E s ⟨⟨Function.update (Function.update s.cpu.reg .ebp
      ebp) .esp (below top k), s.cpu.seg, ret, flags⟩, s.mem⟩ := by
  -- the argument is dropped in the same way wherever it was pushed
  have hdropArg : n = 1 → leave = [.addImm .esp 4#32, .pop .ebp, .ret] →
      ∃ flags, Reaches E s ⟨⟨Function.update (Function.update s.cpu.reg .ebp
        ebp) .esp (below top k), s.cpu.seg, ret, flags⟩, s.mem⟩ := by
    intro hn hleave
    subst hn
    subst hleave
    obtain ⟨next, hadd, hrest⟩ := hload
    have hsp' : s.cpu.reg .esp = below top (k + 2 + 1) := by
      rw [hsp, Nat.add_comm 1]
    have hdrop := step_plain hadd
      (plain_addImm hsp' (below_succ_add top (k + 2)))
    obtain ⟨c₁, hc₁⟩ : ∃ c : Cpu, c = ⟨Function.update s.cpu.reg .esp
      (below top (k + 2)), s.cpu.seg, next,
      addFlags s.cpu.flags (below top (k + 2 + 1)) 4#32⟩ := ⟨_, rfl⟩
    have hsp₁ : c₁.reg .esp = below top (k + 2) := by
      rw [hc₁]
      rfl
    have hlast := @pop_and_ret μ E top ⟨c₁, s.mem⟩ stop ebp ret k
      (by rw [hc₁]; exact hrest) (by rw [hc₁]; exact hu) hsp₁ hebp hret
    have hregs : Function.update (Function.update c₁.reg .ebp ebp) .esp
        (below top k) = Function.update (Function.update s.cpu.reg .ebp ebp)
          .esp (below top k) := by
      rw [hc₁]
      funext q
      cases q with
      | _ => rfl
    refine ⟨c₁.flags, ?_⟩
    rw [← hregs, show s.cpu.seg = c₁.seg by rw [hc₁]]
    refine Relation.ReflTransGen.head ?_ hlast
    rw [hc₁]
    exact hdrop
  cases hshape with
  | none =>
      rw [Nat.zero_add] at hsp
      exact ⟨s.cpu.flags, pop_and_ret hload hu hsp hebp hret⟩
  | argFirst => exact hdropArg rfl rfl
  | argLast => exact hdropArg rfl rfl

/-- What the kernel finds when the command comes to it: the frame of the
program, which is that of the caller but for the number in `eax`, the
stack and `ebp`, and the two words on top of the stack of the program that
the function will need. -/
structure Called (W : WordMem μ) (s : State μ) (command ret : BitVec 32)
    (top : Addr) (k : Nat) (m : μ) (c : Cpu) (hc : c.user = true) : Prop where
  eax : c.reg .eax = command
  rest : ∀ r, r ≠ .eax → r ≠ .esp → r ≠ .ebp → c.reg r = s.cpu.reg r
  seg : c.seg = s.cpu.seg
  flags : c.flags = s.cpu.flags
  frame : FrameOf W m c hc
  ebp : W.read true m (below top (k + 2)) = some (s.cpu.reg .ebp)
  ret : W.read true m (below top (k + 1)) = some ret

/-- A handler answers a command: it comes back, with the frame and the two
words as they were. -/
def Answers (W : WordMem μ) (I' : μ → Prop) (Q : μ → BitVec 32 → μ → Prop)
    (handler : BitVec 32 → BitVec 32 → μ → Option (Ended μ))
    (command top : BitVec 32) (k : Nat) (m : μ) : Prop :=
  ∃ res m', handler command frameAddress m = some (.back res m')
    ∧ Q m res m' ∧ I' m' ∧ FrameKept W m m'
    ∧ W.read true m' (below top (k + 2)) = W.read true m (below top (k + 2))
    ∧ W.read true m' (below top (k + 1)) = W.read true m (below top (k + 1))

/-- The call itself: behind it the answer is in `eax`, the data segments
are those of a program, and the two words are where they were. -/
theorem take_call
    (hlink : Linked E sym scratch isr80hHandler interruptHandler)
    (hown : Own E.words I A) (hown' : Own E.words I' A)
    (hwords : KernelWords A sym) (huser : UserStack A sym top cap)
    {s₀ s : State μ} {next command ret : BitVec 32} {k : Nat}
    {Q : μ → BitVec 32 → μ → Prop} (hlt : k + 2 ≤ cap) (hI : I s.mem)
    (hu : s.cpu.user = true) (heax : s.cpu.reg .eax = command)
    (hrest : ∀ r, r ≠ .eax → r ≠ .esp → r ≠ .ebp →
      s.cpu.reg r = s₀.cpu.reg r)
    (hseg : s.cpu.seg = s₀.cpu.seg) (hflags : s.cpu.flags = s₀.cpu.flags)
    (hebp : E.words.read true s.mem (below top (k + 2))
      = some (s₀.cpu.reg .ebp))
    (hret : E.words.read true s.mem (below top (k + 1)) = some ret)
    (hcode : E.code s.cpu.eip = some (.int 0x80#8, next))
    (hhandler : ∀ m, I m → Kept E.words A tssEsp0 entryWords s.mem m →
      Called E.words s₀ command ret top k m (s.at next).cpu hu →
      Answers E.words I' Q isr80hHandler command top k m) :
    ∃ m res m' m'', isr80hHandler command frameAddress m = some (.back res m')
      ∧ Q m res m' ∧ I' m' ∧ E.words.write false m' sym.tmpRes res = some m''
      ∧ Reaches E s ⟨(Cpu.returned (s.cpu.setEip next)).set .eax res, m''⟩
      ∧ E.words.read true m'' (below top (k + 2)) = some (s₀.cpu.reg .ebp)
      ∧ E.words.read true m'' (below top (k + 1)) = some ret := by
  have hcell : ∀ j < cap, A true (below top (j + 1)) := huser.room.cells
  have hkeep : ∀ m, Kept E.words A tssEsp0 entryWords s.mem m →
      ∀ j < cap, E.words.read true m (below top (j + 1))
        = E.words.read true s.mem (below top (j + 1)) := fun m hkept j hj =>
    hkept true _ (hcell j hj) (huser.kernel j hj)
  obtain ⟨s₁, m, res, m', m'', hint, -, hres, ⟨hQ, hebp', hret'⟩, hI', hwrite,
      hworks⟩ :=
    @isr80h_wrapper_returns μ E sym scratch isr80hHandler interruptHandler A I
      I' hlink hown hown' hwords (s.at next)
      (fun m res m' => Q m res m'
        ∧ E.words.read true m' (below top (k + 2)) = some (s₀.cpu.reg .ebp)
        ∧ E.words.read true m' (below top (k + 1)) = some ret) hI hu (by
      intro m hI hkept hframe
      have hebp' := (hkeep m hkept (k + 1) (by omega)).trans hebp
      have hret' := (hkeep m hkept k (by omega)).trans hret
      obtain ⟨res, m', hres, hQ, hI', hframe', hsame, hsame'⟩ :=
        hhandler m hI hkept ⟨heax, hrest, hseg, hflags, hframe, hebp', hret'⟩
      rw [State.at_reg, heax]
      exact ⟨res, m', hres, ⟨⟨hQ, hsame.trans hebp', hsame'.trans hret'⟩, hI'⟩,
        hframe'⟩)
  rw [State.at_reg, heax] at hres
  have hstep := (step_int hcode hlink.gate80 rfl).trans hint
  obtain ⟨-, hsame⟩ := hown'.written hI' hwords.tmpRes hwrite
  refine ⟨m, res, m', m'', hres, hQ, hI', hwrite,
    Relation.ReflTransGen.head hstep hworks.reaches, ?_, ?_⟩
  · rw [hsame true _ (hcell (k + 1) (by omega)), if_neg (huser.tmpRes (k + 1)
      (by omega))]
    exact hebp'
  · rw [hsame true _ (hcell k (by omega)), if_neg (huser.tmpRes k (by omega))]
    exact hret'

/-- A system call does what its command does, and returns as a C function
does: the kernel runs the command once, with its number and with the
argument on top of the stack, and the caller goes on behind its call with
the answer in `eax`, the return address off the stack, every other
register as it was, and the data segments of a program. -/
theorem system_call_returns
    (hlink : Linked E sym scratch isr80hHandler interruptHandler)
    (hown : Own E.words I A) (hown' : Own E.words I' A)
    (hwords : KernelWords A sym) (huser : UserStack A sym top cap)
    {call : List Instr} {command : BitVec 32} {args ws : List (BitVec 32)}
    (hcall : (call, command, args.length) ∈ systemCalls) {s : State μ}
    {stop ret : BitVec 32} {Q : μ → BitVec 32 → μ → Prop}
    (hload : CodeAt E.code s.cpu.eip call stop) (hu : s.cpu.user = true)
    (hI : I s.mem) (hlt : args.length + ((args ++ ws).length + 2) ≤ cap)
    (hsp : s.cpu.reg .esp = below top ((args ++ ws).length + 1))
    (hws : StackAt E.words true s.mem top (ret :: (args ++ ws)))
    (hhandler : ∀ m c hc, I m →
      Called E.words s command ret top (args ++ ws).length m c hc →
      c.reg .esp = below top (args.length + ((args ++ ws).length + 2)) →
      StackAt E.words true m top
        (args ++ s.cpu.reg .ebp :: ret :: (args ++ ws)) →
      Answers E.words I' Q isr80hHandler command top (args ++ ws).length m) :
    ∃ m res m' m'' flags,
      isr80hHandler command frameAddress m = some (.back res m')
      ∧ Q m res m' ∧ I' m' ∧ E.words.write false m' sym.tmpRes res = some m''
      ∧ Reaches E s ⟨⟨Function.update (Function.update s.cpu.reg .eax res)
          .esp (below top (args ++ ws).length),
          dataSegs s.cpu.seg userSelector, ret, flags⟩, m''⟩ := by
  obtain ⟨enter, leave, hshape, rfl⟩ := systemCalls_shape hcall
  obtain ⟨b, hload₁, next, hint, hload₂⟩ := codeAt_append hload
  obtain ⟨m₁, hblock, hI₁, -, hws₁⟩ := enter_call hown huser.room hshape hI
    hlt hu hsp hws
  have hreach₁ := reaches_block hload₁ hblock
  obtain ⟨k, hk⟩ : ∃ k, k = (args ++ ws).length := ⟨_, rfl⟩
  rw [← hk] at hreach₁ hlt hhandler ⊢
  obtain ⟨c₁, hc₁⟩ : ∃ c : Cpu, c = ⟨Function.update (Function.update
      (Function.update s.cpu.reg .ebp (below top (k + 2))) .eax
      command) .esp (below top (args.length + (k + 2))), s.cpu.seg, b,
      s.cpu.flags⟩ :=
    ⟨_, rfl⟩
  have hu₁ : c₁.user = true := by
    rw [hc₁]
    exact hu
  have hsp₁ : c₁.reg .esp = below top (args.length + (k + 2)) := by
    rw [hc₁]
    rfl
  have hreach₁' : Reaches E s ⟨c₁, m₁⟩ := by
    rw [hc₁]
    exact hreach₁
  have hframe := hws₁.suffix
  obtain ⟨m, res, m', m'', hres, hQ, hI', hwrite, hreach₂, hebp, hret⟩ :=
    @take_call μ E sym scratch isr80hHandler interruptHandler A I I' top cap
      hlink hown hown' hwords huser s ⟨c₁, m₁⟩ next command ret k Q
      (by omega) hI₁ hu₁ (by rw [hc₁]; rfl) (by
        intro r heax hesp hebp
        rw [hc₁]
        show Function.update (Function.update (Function.update _ _ _) _ _) _ _
          r = _
        rw [Function.update_of_ne hesp, Function.update_of_ne heax,
          Function.update_of_ne hebp])
      (by rw [hc₁]) (by rw [hc₁]) (by rw [hk]; exact hframe.1)
      (by rw [hk]; exact hframe.2.1) (by rw [hc₁]; exact hint) (by
        intro m hI hkept hcalled
        refine hhandler m _ _ hI hcalled hsp₁ (hws₁.congr fun j hj => ?_)
        have hj' : j < cap := by
          rw [List.length_append, List.length_cons, List.length_cons,
            ← hk] at hj
          omega
        exact hkept true _ (huser.room.cells j hj') (huser.kernel j hj'))
  -- the function returns
  obtain ⟨s₂, hs₂⟩ : ∃ s₂ : State μ,
      s₂ = ⟨(Cpu.returned (c₁.setEip next)).set .eax res, m''⟩ := ⟨_, rfl⟩
  have hsp₂ : s₂.cpu.reg .esp = below top (args.length + (k + 2)) := by
    rw [hs₂]
    exact hsp₁
  obtain ⟨flags, hleave⟩ := leave_call hshape (s := s₂) (k := k)
    (by rw [hs₂]; exact hload₂) (by rw [hs₂]; exact hu₁) hsp₂
    (by rw [hs₂]; exact hebp) (by rw [hs₂]; exact hret)
  have hregs : Function.update (Function.update s₂.cpu.reg .ebp
      (s.cpu.reg .ebp)) .esp (below top k)
      = Function.update (Function.update s.cpu.reg .eax res) .esp
        (below top k) := by
    rw [hs₂, hc₁]
    funext q
    cases q with
    | _ => rfl
  have hseg₂ : s₂.cpu.seg = dataSegs s.cpu.seg userSelector := by
    rw [hs₂, hc₁]
    rfl
  have hmem₂ : s₂.mem = m'' := by
    rw [hs₂]
  rw [hregs, hseg₂, hmem₂] at hleave
  rw [← hs₂] at hreach₂
  exact ⟨m, res, m', m'', flags, hres, hQ, hI', hwrite,
    (hreach₁'.trans hreach₂).trans hleave⟩

/-- A memory where `benos_putchar` has been called. -/
def putcharMemory (a : Addr) : BitVec 32 :=
  if a = 0x3FEFF8#32 then 0x400123#32 else 72#32

theorem system_call_returns_putchar :
    ∃ m flags, Reaches (imageEnv flatWords (fun _ _ m => some (.back 0#32 m))
        (fun _ _ m => some (.back 0#32 m)) benosPutchar)
      ⟨imageCpu 7#32 0x3FEFF8#32, putcharMemory⟩
      ⟨⟨Function.update (Function.update (imageCpu 7#32 0x3FEFF8#32).reg
        .eax 0#32) .esp 0x3FEFFC#32, dataSegs (fun _ => 0x1B#16) 0x23#16,
        0x400123#32, flags⟩, m⟩ := by
  obtain ⟨_, res, _, m'', flags, _, hres, _, _, hreach⟩ :=
    @system_call_returns (Addr → BitVec 32) _ imageSymbols _ _ _
      (fun _ _ => True) (fun _ => True) (fun _ => True) 0x3FF000#32 8
      (imageEnv_linked flatWords (fun _ _ m => some (.back 0#32 m))
        (fun _ _ m => some (.back 0#32 m)) benosPutchar)
      flatWords_own flatWords_own flat_kernelWords
      ⟨⟨by decide, fun _ _ => trivial⟩, by decide, by decide⟩
      benosPutchar 3#32 [72#32] [] (by simp [systemCalls])
      ⟨imageCpu 7#32 0x3FEFF8#32, putcharMemory⟩ _ 0x400123#32
      (fun _ res _ => res = 0#32)
      (@codeAt_listing (imagePiece benosPutchar) 515 (by decide)
        (show 8 ≤ 32 by omega)) rfl trivial (show 4 ≤ 8 by omega) rfl
      ⟨rfl, rfl, trivial⟩
      fun m _ _ _ _ _ _ =>
        ⟨_, m, rfl, rfl, trivial, fun _ _ => rfl, rfl, rfl⟩
  rw [hres] at hreach
  exact ⟨m'', flags, hreach⟩

end BenOS.Stdlib.Asm
