/-
What the assembly of `task_return` does, instruction by instruction: the
processor runs the task whose registers it is given, and it holds for it
what `Tasks/Switch` says (`task_return_asm`).
-/
import BenOS.Tasks.Proofs.Assembly

namespace BenOS.Tasks

open Lib X86

variable {μ : Type} {E : Env μ} {sym : Symbols}
  {scratch : State μ → Scratch}
  {isr80hHandler interruptHandler :
    BitVec 32 → BitVec 32 → μ → Option (Ended μ)}
  {A : Bool → Addr → Prop} {I : μ → Prop} {top : Addr} {cap : Nat}
  {regs : Addr} {r : Registers}

-- ================================================================ the scene

/-- The words of a `struct registers`, apart from a stack. -/
structure RegistersRoom (A : Bool → Addr → Prop) (regs top : Addr)
    (cap : Nat) : Prop where
  cells : ∀ k < 12, A false (regs + BitVec.ofNat 32 (4 * k))
  apart : ∀ k < 12, ∀ j < cap,
    regs + BitVec.ofNat 32 (4 * k) ≠ below top (j + 1)

/-- A `struct registers` lies in the memory, and a stack. -/
structure Scene (W : WordMem μ) (I : μ → Prop) (top : Addr) (cap : Nat)
    (regs : Addr) (r : Registers) (m : μ) (ws : List (BitVec 32)) : Prop where
  inv : I m
  stack : StackAt W false m top ws
  registers : ∀ k < 12,
    W.read false m (regs + BitVec.ofNat 32 (4 * k)) = some (r.word (4 * k))

/-- A push on the stack leaves the registers where they are. -/
theorem Scene.push (hown : Own E.words I A) (hroom : Room A false top cap)
    (hregs : RegistersRoom A regs top cap) {s : State μ}
    {ws : List (BitVec 32)} (h : Scene E.words I top cap regs r s.mem ws)
    (hlt : ws.length < cap) (hu : s.cpu.user = false)
    (hsp : s.cpu.reg .esp = below top ws.length) (v : BitVec 32) :
    ∃ m, pushWord E.words v s
        = some ⟨s.cpu.set .esp (below top (ws.length + 1)), m⟩
      ∧ Scene E.words I top cap regs r m (v :: ws) := by
  obtain ⟨m, hpush, hI, hkept, hws⟩ :=
    pushWord_stack hown h.inv hroom hlt hu hsp h.stack v
  refine ⟨m, hpush, hI, hws, ?_⟩
  intro k hk
  rw [hkept false _ (hregs.cells k hk) (hregs.apart k hk)]
  exact h.registers k hk

/-- A field is loaded. -/
theorem Scene.load {W : WordMem μ} {m : μ} {ws : List (BitVec 32)}
    (h : Scene W I top cap regs r m ws) {c : Cpu} (hu : c.user = false)
    (hbx : c.reg .ebx = regs) (d : Reg) {k : Nat} (hk : k < 12) :
    plain W ⟨c, m⟩ (.load d .ebx (BitVec.ofNat 32 (4 * k)))
      = some ⟨c.set d (r.word (4 * k)), m⟩ := by
  apply plain_load
  rw [hu, hbx]
  exact h.registers k hk

/-- A field is pushed. -/
theorem Scene.pushField (hown : Own E.words I A) (hroom : Room A false top cap)
    (hregs : RegistersRoom A regs top cap) {m : μ} {ws : List (BitVec 32)}
    (h : Scene E.words I top cap regs r m ws) (hlt : ws.length < cap) {c : Cpu}
    (hu : c.user = false) (hsp : c.reg .esp = below top ws.length)
    (hbx : c.reg .ebx = regs) {k : Nat} (hk : k < 12) :
    ∃ m', plain E.words ⟨c, m⟩ (.pushMem .ebx (BitVec.ofNat 32 (4 * k)))
        = some ⟨c.set .esp (below top (ws.length + 1)), m'⟩
      ∧ Scene E.words I top cap regs r m' (r.word (4 * k) :: ws) := by
  obtain ⟨m', hpush, hm'⟩ := @Scene.push μ E A I top cap regs r hown hroom
    hregs ⟨c, m⟩ ws h hlt hu hsp (r.word (4 * k))
  refine ⟨m', ?_, hm'⟩
  rw [plain_pushMem (v := r.word (4 * k))]
  · exact hpush
  · rw [hu, hbx]
    exact h.registers k hk

/-- Fields are loaded one after the other. -/
theorem Scene.loads {W : WordMem μ} {m : μ} {ws : List (BitVec 32)}
    (h : Scene W I top cap regs r m ws) (l : List (Reg × Nat)) :
    ∀ {c : Cpu}, c.user = false → c.reg .ebx = regs →
      (∀ p ∈ l, p.1 ≠ .ebx ∧ p.2 < 12) →
      block W (l.map fun p => .load p.1 .ebx (BitVec.ofNat 32 (4 * p.2)))
          ⟨c, m⟩
        = some ⟨l.foldl (fun c p => c.set p.1 (r.word (4 * p.2))) c, m⟩ := by
  induction l with
  | nil => exact fun _ _ _ => rfl
  | cons p l ih =>
      intro c hu hbx hl
      obtain ⟨hne, hlt⟩ := hl p List.mem_cons_self
      rw [List.map_cons, block_cons (h.load hu hbx p.1 hlt), List.foldl_cons]
      refine ih hu ?_ fun q hq => hl q (List.mem_cons_of_mem p hq)
      exact (Function.update_of_ne hne.symm _ _).trans hbx

/-- A word of the stack is read from `ebp` on. -/
theorem Scene.word {W : WordMem μ} {m : μ} {v : BitVec 32}
    {vs ws : List (BitVec 32)}
    (h : Scene W I top cap regs r m (vs ++ v :: ws)) :
    W.read false m (below top (ws.length + 1)) = some v := by
  have hdrop : ∀ {vs : List (BitVec 32)},
      StackAt W false m top (vs ++ v :: ws) → StackAt W false m top (v :: ws) := by
    intro vs
    induction vs with
    | nil => exact fun h => h
    | cons w vs ih => exact fun h => ih h.2
  exact (hdrop h.stack).1

-- ================================================== the general purpose ones

/-- The registers of a task, and the stack of the kernel. -/
def restoredRegs (r : Registers) (esp : BitVec 32) : Reg → BitVec 32
  | .eax => r.eax
  | .ecx => r.ecx
  | .edx => r.edx
  | .ebx => r.ebx
  | .esp => esp
  | .ebp => r.ebp
  | .esi => r.esi
  | .edi => r.edi

theorem restoredRegs_set (r : Registers) (esp esp' : BitVec 32) :
    Function.update (restoredRegs r esp) .esp esp' = restoredRegs r esp' := by
  funext q
  cases q with
  | _ => rfl

/-- `restore_general_purpose_registers` loads them. -/
theorem restore_block (hown : Own E.words I A) (hroom : Room A false top cap)
    (hregs : RegistersRoom A regs top cap) {s : State μ} {ret : BitVec 32}
    {ws : List (BitVec 32)}
    (h : Scene E.words I top cap regs r s.mem (ret :: regs :: ws))
    (hlt : ws.length + 2 < cap) (hu : s.cpu.user = false)
    (hsp : s.cpu.reg .esp = below top (ws.length + 2)) :
    ∃ m flags, block E.words
        [ .push .ebp, .mov .ebp .esp, .load .ebx .ebp 8#32
        , .load .edi .ebx 0#32, .load .esi .ebx 4#32, .load .ebp .ebx 8#32
        , .load .edx .ebx 16#32, .load .ecx .ebx 20#32, .load .eax .ebx 24#32
        , .load .ebx .ebx 12#32, .addImm .esp 4#32 ] s
        = some ⟨⟨restoredRegs r (below top (ws.length + 2)), s.cpu.seg,
          s.cpu.eip, flags⟩, m⟩
      ∧ Scene E.words I top cap regs r m (ret :: regs :: ws) := by
  obtain ⟨m, hpush, hm⟩ := h.push hown hroom hregs hlt hu hsp (s.cpu.reg .ebp)
  have hframe : below top (ws.length + 3) + 8#32 = below top (ws.length + 1) := by
    rw [show (8#32 : BitVec 32) = 4#32 + 4#32 from rfl, ← add_assoc,
      below_succ_add, below_succ_add]
  obtain ⟨c₁, hc₁⟩ : ∃ c, c = s.cpu.set .esp (below top (ws.length + 3)) :=
    ⟨_, rfl⟩
  obtain ⟨c₂, hc₂⟩ : ∃ c, c = (c₁.set .ebp (below top (ws.length + 3))).set
    .ebx regs := ⟨_, rfl⟩
  have hu₂ : c₂.user = false := by
    rw [hc₂, hc₁]
    exact hu
  have hmov : plain E.words ⟨c₁, m⟩ (.mov .ebp .esp)
      = some ⟨c₁.set .ebp (below top (ws.length + 3)), m⟩ := by
    show some (State.mk (c₁.set .ebp (c₁.reg .esp)) m) = _
    rw [hc₁, Cpu.reg_set_self]
  have hload : plain E.words ⟨c₁.set .ebp (below top (ws.length + 3)), m⟩
      (.load .ebx .ebp 8#32) = some ⟨c₂, m⟩ := by
    rw [hc₂]
    apply plain_load
    rw [Cpu.user_set, hc₁, Cpu.user_set, hu, Cpu.reg_set_self, hframe]
    exact @Scene.word μ I top cap regs r E.words m regs
      [s.cpu.reg .ebp, ret] ws hm
  obtain ⟨c₃, hc₃⟩ : ∃ c, c = (((((c₂.set .edi r.edi).set .esi r.esi).set .ebp
    r.ebp).set .edx r.edx).set .ecx r.ecx).set .eax r.eax := ⟨_, rfl⟩
  have hloads : block E.words (([(.edi, 0), (.esi, 1), (.ebp, 2), (.edx, 4),
      (.ecx, 5), (.eax, 6)] : List (Reg × Nat)).map fun p =>
        .load p.1 .ebx (BitVec.ofNat 32 (4 * p.2))) ⟨c₂, m⟩
      = some ⟨c₃, m⟩ := by
    rw [hc₃]
    exact hm.loads _ hu₂ (by rw [hc₂]; rfl) (by decide)
  have hlast := @Scene.load μ I top cap regs r E.words m _ hm c₃
    (by rw [hc₃]; exact hu₂) (by rw [hc₃, hc₂]; rfl) .ebx 3 (by decide)
  have hregs : Function.update (c₃.set .ebx r.ebx).reg .esp
      (below top (ws.length + 2)) = restoredRegs r (below top (ws.length + 2)) := by
    rw [hc₃, hc₂, hc₁]
    funext q
    cases q with
    | _ => rfl
  have hseg : c₃.seg = s.cpu.seg := by
    rw [hc₃, hc₂, hc₁]
    rfl
  have heip : c₃.eip = s.cpu.eip := by
    rw [hc₃, hc₂, hc₁]
    rfl
  have hesp : (c₃.set .ebx r.ebx).reg .esp = below top (ws.length + 3) := by
    rw [hc₃, hc₂, hc₁]
    rfl
  have hadd := @plain_addImm μ E.words ⟨c₃.set .ebx r.ebx, m⟩ .esp _ 4#32 _
    hesp (below_succ_add top (ws.length + 2))
  have hpush' : plain E.words s (.push .ebp) = some ⟨c₁, m⟩ := by
    rw [hc₁]
    exact hpush
  refine ⟨m, addFlags (c₃.set .ebx r.ebx).flags (below top (ws.length + 3))
    4#32, ?_, hm.inv, hm.stack.2, hm.registers⟩
  rw [block_cons hpush', block_cons hmov, block_cons hload]
  refine (block_append hloads).trans ?_
  refine (block_cons hlast).trans ?_
  refine (block_cons hadd).trans ?_
  rw [hregs, show (c₃.set .ebx r.ebx).seg = s.cpu.seg from hseg,
    show (c₃.set .ebx r.ebx).eip = s.cpu.eip from heip]
  rfl

-- ================================================================= the frame

/-- The flags a task is returned to with, where the kernel runs with
`kflags`. -/
def returnFlags (kflags : BitVec 32) : BitVec 32 :=
  (kflags &&& 0x00FCFFFF#32) ||| 0x200#32

/-- The words for `iretd` are laid on the stack. -/
theorem frame_block (hown : Own E.words I A) (hroom : Room A false top cap)
    (hregs : RegistersRoom A regs top cap) {s : State μ} {ret : BitVec 32}
    {ws : List (BitVec 32)}
    (h : Scene E.words I top cap regs r s.mem (ret :: regs :: ws))
    (hlt : ws.length + 8 ≤ cap) (hu : s.cpu.user = false)
    (hsp : s.cpu.reg .esp = below top (ws.length + 2)) :
    ∃ m c, block E.words
        [ .mov .ebp .esp, .load .ebx .ebp 4#32, .pushMem .ebx 44#32
        , .pushMem .ebx 40#32, .pushf, .pop .eax, .orImm .eax 0x200#32
        , .push .eax, .pushMem .ebx 32#32, .pushMem .ebx 28#32 ] s
        = some ⟨c, m⟩
      ∧ c.user = false ∧ c.seg = s.cpu.seg ∧ c.eip = s.cpu.eip
      ∧ c.reg .esp = below top (ws.length + 7) ∧ c.reg .ebx = regs
      ∧ c.reg .ebp = below top (ws.length + 2)
      ∧ Scene E.words I top cap regs r m
        (r.ip :: r.cs :: returnFlags s.cpu.flags :: r.esp :: r.ss :: ret
          :: regs :: ws) := by
  obtain ⟨c₁, hc₁⟩ : ∃ c, c = (s.cpu.set .ebp (below top (ws.length + 2))).set
    .ebx regs := ⟨_, rfl⟩
  have hu₁ : c₁.user = false := by
    rw [hc₁]
    exact hu
  have hsp₁ : c₁.reg .esp = below top (ws.length + 2) := by
    rw [hc₁]
    exact hsp
  have hbx₁ : c₁.reg .ebx = regs := by
    rw [hc₁]
    rfl
  have hmov : plain E.words s (.mov .ebp .esp)
      = some ⟨s.cpu.set .ebp (below top (ws.length + 2)), s.mem⟩ := by
    show some (State.mk (s.cpu.set .ebp (s.cpu.reg .esp)) s.mem) = _
    rw [hsp]
  have hload : plain E.words
      ⟨s.cpu.set .ebp (below top (ws.length + 2)), s.mem⟩
      (.load .ebx .ebp 4#32) = some ⟨c₁, s.mem⟩ := by
    rw [hc₁]
    apply plain_load
    rw [Cpu.user_set, hu, Cpu.reg_set_self, below_succ_add]
    exact h.stack.2.1
  obtain ⟨m₁, hss, hm₁⟩ := h.pushField hown hroom hregs
    (show ws.length + 2 < cap by omega) hu₁ hsp₁ hbx₁ (show 11 < 12 by decide)
  obtain ⟨m₂, hesp, hm₂⟩ := @Scene.pushField μ E A I top cap regs r hown hroom
    hregs m₁ _ hm₁ (show ws.length + 3 < cap by omega)
    (c₁.set .esp (below top (ws.length + 3))) hu₁ (Cpu.reg_set_self _ _ _)
    hbx₁ 10 (by decide)
  rw [Cpu.set_set] at hesp
  -- the flags, by way of `eax`
  obtain ⟨m₃, hpushf, hm₃⟩ := @Scene.push μ E A I top cap regs r hown hroom
    hregs ⟨c₁.set .esp (below top (ws.length + 4)), m₂⟩ _ hm₂
    (show ws.length + 4 < cap by omega) hu₁ (Cpu.reg_set_self _ _ _)
    (c₁.flags &&& 0x00FCFFFF#32)
  have hpushf' : plain E.words ⟨c₁.set .esp (below top (ws.length + 4)), m₂⟩
      .pushf = some ⟨c₁.set .esp (below top (ws.length + 5)), m₃⟩ := by
    refine hpushf.trans ?_
    rw [Cpu.set_set]
    rfl
  have hpop : plain E.words ⟨c₁.set .esp (below top (ws.length + 5)), m₃⟩
      (.pop .eax) = some ⟨(c₁.set .esp (below top (ws.length + 4))).set .eax
        (c₁.flags &&& 0x00FCFFFF#32), m₃⟩ := by
    have hword := @popWord_stack μ E.words
      ⟨c₁.set .esp (below top (ws.length + 5)), m₃⟩ false top
      (c₁.flags &&& 0x00FCFFFF#32) (r.esp :: r.ss :: ret :: regs :: ws) hu₁
      (Cpu.reg_set_self c₁ .esp (below top (ws.length + 5))) hm₃.stack
    unfold plain
    rw [hword]
    simp only [State.set, Cpu.set_set]
    rfl
  obtain ⟨c₂, hc₂⟩ : ∃ c, c = Cpu.mk (Function.update (Function.update
      c₁.reg .esp (below top (ws.length + 4))) .eax (returnFlags c₁.flags))
      c₁.seg c₁.eip (orFlags c₁.flags (returnFlags c₁.flags)) := ⟨_, rfl⟩
  have hor : plain E.words ⟨(c₁.set .esp (below top (ws.length + 4))).set .eax
      (c₁.flags &&& 0x00FCFFFF#32), m₃⟩ (.orImm .eax 0x200#32)
      = some ⟨c₂, m₃⟩ := by
    rw [plain_orImm, Cpu.reg_set_self, hc₂]
    unfold Cpu.set returnFlags
    simp only [Function.update_idem]
  have hu₂ : c₂.user = false := by
    rw [hc₂]
    exact hu₁
  have hsp₂ : c₂.reg .esp = below top (ws.length + 4) := by
    rw [hc₂]
    rfl
  have hbx₂ : c₂.reg .ebx = regs := by
    rw [hc₂]
    exact hbx₁
  obtain ⟨m₄, hpush, hm₄⟩ := @Scene.push μ E A I top cap regs r hown hroom
    hregs ⟨c₂, m₃⟩ _ ⟨hm₃.inv, hm₃.stack.2, hm₃.registers⟩
    (show ws.length + 4 < cap by omega) hu₂ hsp₂ (returnFlags c₁.flags)
  have hpush' : plain E.words ⟨c₂, m₃⟩ (.push .eax)
      = some ⟨c₂.set .esp (below top (ws.length + 5)), m₄⟩ := by
    have heax : c₂.reg .eax = returnFlags c₁.flags := by
      rw [hc₂]
      rfl
    show pushWord E.words (c₂.reg .eax) _ = _
    rw [heax]
    exact hpush
  -- the code segment and the instruction pointer
  obtain ⟨m₅, hcs, hm₅⟩ := @Scene.pushField μ E A I top cap regs r hown hroom
    hregs m₄ _ hm₄ (show ws.length + 5 < cap by omega)
    (c₂.set .esp (below top (ws.length + 5))) hu₂ (Cpu.reg_set_self _ _ _)
    hbx₂ 8 (by decide)
  obtain ⟨m₆, hip, hm₆⟩ := @Scene.pushField μ E A I top cap regs r hown hroom
    hregs m₅ _ hm₅ (show ws.length + 6 < cap by omega)
    (c₂.set .esp (below top (ws.length + 6))) hu₂ (Cpu.reg_set_self _ _ _)
    hbx₂ 7 (by decide)
  rw [Cpu.set_set] at hcs hip
  have hflags : c₁.flags = s.cpu.flags := by
    rw [hc₁]
    rfl
  rw [hflags] at hm₆
  refine ⟨m₆, c₂.set .esp (below top (ws.length + 7)), ?_, hu₂, ?_, ?_,
    Cpu.reg_set_self _ _ _, hbx₂, ?_, hm₆⟩
  · rw [block_cons hmov, block_cons hload]
    refine (block_cons hss).trans ?_
    refine (block_cons hesp).trans ?_
    refine (block_cons hpushf').trans ?_
    rw [block_cons hpop, block_cons hor, block_cons hpush']
    refine (block_cons hcs).trans ?_
    exact block_cons hip
  · rw [hc₂, hc₁]
    rfl
  · rw [hc₂, hc₁]
    rfl
  · rw [hc₂, hc₁]
    rfl

/-- The data segments are set, and the registers are handed on. -/
theorem segs_block (hown : Own E.words I A) (hroom : Room A false top cap)
    (hregs : RegistersRoom A regs top cap) {c : Cpu} {m : μ} {ret : BitVec 32}
    {vs ws : List (BitVec 32)}
    (h : Scene E.words I top cap regs r m (vs ++ ret :: regs :: ws))
    (hlt : (vs ++ ret :: regs :: ws).length < cap) (hu : c.user = false)
    (hsp : c.reg .esp = below top (vs ++ ret :: regs :: ws).length)
    (hbx : c.reg .ebx = regs) (hbp : c.reg .ebp = below top (ws.length + 2)) :
    ∃ m' c', block E.words
        [ .loadLow .eax .ebx 44#32, .movSeg .ds .eax, .movSeg .es .eax
        , .movSeg .fs .eax, .movSeg .gs .eax, .pushMem .ebp 4#32 ] ⟨c, m⟩
        = some ⟨c', m'⟩
      ∧ c'.user = false ∧ c'.eip = c.eip
      ∧ (∀ d, d ≠ .cs → d ≠ .ss → c'.seg d = r.ss.setWidth 16)
      ∧ c'.reg .esp = below top ((vs ++ ret :: regs :: ws).length + 1)
      ∧ Scene E.words I top cap regs r m'
        (regs :: (vs ++ ret :: regs :: ws)) := by
  have hlow : ((c.reg .eax).extractLsb' 16 16 ++ r.ss.setWidth 16).setWidth 16
      = r.ss.setWidth 16 := by
    rw [BitVec.setWidth_append, dif_pos (le_refl 16), BitVec.setWidth_eq]
  obtain ⟨c₁, hc₁⟩ : ∃ c₁, c₁ = c.set .eax
    ((c.reg .eax).extractLsb' 16 16 ++ r.ss.setWidth 16) := ⟨_, rfl⟩
  obtain ⟨c₂, hc₂⟩ : ∃ c₂, c₂ = (((c₁.setSeg .ds (r.ss.setWidth 16)).setSeg .es
    (r.ss.setWidth 16)).setSeg .fs (r.ss.setWidth 16)).setSeg .gs
    (r.ss.setWidth 16) := ⟨_, rfl⟩
  have hload : plain E.words ⟨c, m⟩ (.loadLow .eax .ebx 44#32)
      = some ⟨c₁, m⟩ := by
    rw [hc₁]
    apply plain_loadLow
    rw [hu, hbx]
    exact h.registers 11 (by decide)
  have hmov : ∀ (d : Seg) (c' : Cpu), d ≠ .cs → c'.reg = c₁.reg →
      plain E.words ⟨c', m⟩ (.movSeg d .eax)
        = some ⟨c'.setSeg d (r.ss.setWidth 16), m⟩ := by
    intro d c' hd hc'
    show (if d = .cs then none else
      some (State.mk (c'.setSeg d ((c'.reg .eax).setWidth 16)) m)) = _
    rw [if_neg hd, hc', hc₁, Cpu.reg_set_self, hlow]
  have hu₂ : c₂.user = false := by
    rw [hc₂, hc₁]
    exact hu
  have hread : E.words.read c₂.user m (c₂.reg .ebp + 4#32) = some regs := by
    have hbp₂ : c₂.reg .ebp = below top (ws.length + 2) := by
      rw [hc₂, hc₁]
      exact hbp
    rw [hu₂, hbp₂, below_succ_add]
    have h' : Scene E.words I top cap regs r m ((vs ++ [ret]) ++ regs :: ws) := by
      rw [List.append_assoc]
      exact h
    exact h'.word
  obtain ⟨m', hpush, hm'⟩ := @Scene.push μ E A I top cap regs r hown hroom
    hregs ⟨c₂, m⟩ _ h hlt hu₂ (by rw [hc₂, hc₁]; exact hsp) regs
  refine ⟨m', c₂.set .esp (below top ((vs ++ ret :: regs :: ws).length + 1)),
    ?_, hu₂, ?_, ?_, Cpu.reg_set_self _ _ _, hm'⟩
  · rw [block_cons hload, block_cons (hmov .ds c₁ (by decide) rfl)]
    refine (block_cons (hmov .es (c₁.setSeg .ds _) (by decide) rfl)).trans ?_
    refine (block_cons (hmov .fs ((c₁.setSeg .ds _).setSeg .es _) (by decide)
      rfl)).trans ?_
    refine (block_cons (hmov .gs
      (((c₁.setSeg .ds _).setSeg .es _).setSeg .fs _) (by decide) rfl)).trans ?_
    rw [← hc₂]
    exact block_cons ((plain_pushMem hread).trans hpush)
  · rw [hc₂, hc₁]
    rfl
  · intro d hcs hss
    rw [hc₂]
    cases d with
    | cs => exact absurd rfl hcs
    | ss => exact absurd rfl hss
    | _ => rfl

-- ================================================================== the whole

/-- What `task_return` answers for a code segment of ring 3. -/
theorem taskReturn_user {kflags : BitVec 32}
    (h : r.cs.setWidth 16 &&& 3#16 = 3#16) :
    taskReturn r kflags = some
      { edi := r.edi, esi := r.esi, ebp := r.ebp, ebx := r.ebx, edx := r.edx
        ecx := r.ecx, eax := r.eax, ip := r.ip, cs := r.cs.setWidth 16
        flags := kflags ||| 0x200#32, esp := r.esp, ss := r.ss.setWidth 16
        ring := h } :=
  dif_pos h

theorem taskReturn_kernel {kflags : BitVec 32}
    (h : ¬ r.cs.setWidth 16 &&& 3#16 = 3#16) : taskReturn r kflags = none :=
  dif_neg h

/-- `restore_general_purpose_registers` is called and comes back. -/
theorem call_restore
    (hlink : Linked E sym scratch isr80hHandler interruptHandler)
    (hown : Own E.words I A) (hroom : Room A false top cap)
    (hregs : RegistersRoom A regs top cap) {s : State μ} {back : Addr}
    {ws : List (BitVec 32)}
    (h : Scene E.words I top cap regs r s.mem (regs :: ws))
    (hlt : ws.length + 2 < cap) (hu : s.cpu.user = false)
    (hsp : s.cpu.reg .esp = below top (ws.length + 1))
    (hcode : E.code s.cpu.eip = some (.call sym.restoreGprs, back)) :
    ∃ m flags, Works E s ⟨⟨restoredRegs r (below top (ws.length + 1)),
        s.cpu.seg, back, flags⟩, m⟩
      ∧ Scene E.words I top cap regs r m (regs :: ws) := by
  obtain ⟨hext, stop, hload⟩ := hlink.restoreGprs
  obtain ⟨b, hload, next, hret, -⟩ := @codeAt_append E.code
    [ .push .ebp, .mov .ebp .esp, .load .ebx .ebp 8#32, .load .edi .ebx 0#32
    , .load .esi .ebx 4#32, .load .ebp .ebx 8#32, .load .edx .ebx 16#32
    , .load .ecx .ebx 20#32, .load .eax .ebx 24#32, .load .ebx .ebx 12#32
    , .addImm .esp 4#32 ] _ stop _ hload
  obtain ⟨m₁, hpush, hm₁⟩ := @Scene.push μ E A I top cap regs r hown hroom
    hregs (s.at back) _ h (show ws.length + 1 < cap by omega) hu hsp back
  obtain ⟨s₁, hs₁⟩ : ∃ s₁, s₁ = (State.mk
    (s.cpu.set .esp (below top (ws.length + 2))) m₁).at sym.restoreGprs :=
    ⟨_, rfl⟩
  have hcall : step E s = some s₁ := by
    rw [step_call hcode, hs₁]
    unfold callTo
    simp only [State.at_eip, hext]
    rw [hpush]
    rfl
  have heip₁ : s₁.cpu.eip = sym.restoreGprs := by
    rw [hs₁]
    rfl
  have hseg₁ : s₁.cpu.seg = s.cpu.seg := by
    rw [hs₁]
    rfl
  have hsp₁ : s₁.cpu.reg .esp = below top (ws.length + 2) := by
    rw [hs₁]
    rfl
  have hu₁ : s₁.cpu.user = false := by
    rw [hs₁]
    exact hu
  have hscene₁ : Scene E.words I top cap regs r s₁.mem (back :: regs :: ws) := by
    rw [hs₁]
    exact hm₁
  obtain ⟨m₂, flags, hblock, hm₂⟩ := restore_block hown hroom hregs hscene₁ hlt
    hu₁ hsp₁
  rw [← heip₁] at hload
  have hworks := works_block hload hu₁ hblock
  have hu₂ : (Cpu.mk (restoredRegs r (below top (ws.length + 2))) s₁.cpu.seg b
    flags).user = false := hu₁
  have hpop := @popWord_stack μ E.words ⟨⟨restoredRegs r
    (below top (ws.length + 2)), s₁.cpu.seg, b, flags⟩, m₂⟩ false top back
    (regs :: ws) hu₂ rfl hm₂.stack
  have hback := @step_ret μ E ⟨⟨restoredRegs r (below top (ws.length + 2)),
    s₁.cpu.seg, b, flags⟩, m₂⟩ _ back next hret hpop
  have hend : State.mk ⟨Function.update
      (restoredRegs r (below top (ws.length + 2))) .esp
        (below top (ws.length + 1)), s₁.cpu.seg, back, flags⟩ m₂
      = ⟨⟨restoredRegs r (below top (ws.length + 1)), s.cpu.seg, back, flags⟩,
        m₂⟩ := by
    rw [restoredRegs_set, hseg₁]
  refine ⟨m₂, flags, ?_, hm₂.inv, hm₂.stack.2, hm₂.registers⟩
  refine Works.head hu hcall (Works.tail hworks hu₂ (hback.trans ?_))
  exact congrArg some hend

/-- `task_return` runs the task: the processor comes to hold for it what
its `struct registers` says, with interrupts on, and its data segments are
that of its stack. The `struct registers` stays. -/
theorem task_return_asm
    (hlink : Linked E sym scratch isr80hHandler interruptHandler)
    (hown : Own E.words I A) (hroom : Room A false top cap)
    (hregs : RegistersRoom A regs top cap) {s : State μ} {ret : BitVec 32}
    {ws : List (BitVec 32)}
    (h : Scene E.words I top cap regs r s.mem (ret :: regs :: ws))
    (hcap : ws.length + 10 ≤ cap) (hu : s.cpu.user = false)
    (hsp : s.cpu.reg .esp = below top (ws.length + 2))
    (heip : s.cpu.eip = sym.taskReturn) {cpu : UserCpu}
    (hret : taskReturn r (s.cpu.flags &&& 0x00FCFFFF#32) = some cpu) :
    ∃ (c : Cpu) (hc : c.user = true) (m : μ), userCpu c hc = cpu ∧ I m
      ∧ (∀ d, d ≠ .cs → c.seg d = cpu.ss) ∧ Works E s ⟨c, m⟩
      ∧ ∀ k < 12, E.words.read false m (regs + BitVec.ofNat 32 (4 * k))
        = some (r.word (4 * k)) := by
  obtain ⟨stop, hload⟩ := hlink.taskReturn
  rw [← heip] at hload
  obtain ⟨b₁, hload₁, hload⟩ := @codeAt_append E.code
    [ .mov .ebp .esp, .load .ebx .ebp 4#32, .pushMem .ebx 44#32
    , .pushMem .ebx 40#32, .pushf, .pop .eax, .orImm .eax 0x200#32
    , .push .eax, .pushMem .ebx 32#32, .pushMem .ebx 28#32 ] _ stop _ hload
  obtain ⟨b₂, hload₂, back, hcall, hload⟩ := @codeAt_append E.code
    [ .loadLow .eax .ebx 44#32, .movSeg .ds .eax, .movSeg .es .eax
    , .movSeg .fs .eax, .movSeg .gs .eax, .pushMem .ebp 4#32 ] _ stop _ hload
  obtain ⟨b₃, hload₃, next, hiretd, -⟩ :=
    @codeAt_append E.code [.addImm .esp 4#32] _ stop _ hload
  -- the frame
  obtain ⟨m₁, c₁, hblock₁, hu₁, hseg₁, heip₁, hsp₁, hbx₁, hbp₁, hm₁⟩ :=
    frame_block hown hroom hregs h (by omega) hu hsp
  have hworks₁ := works_block hload₁ hu hblock₁
  obtain ⟨m₂, c₂, hblock₂, hu₂, -, hseg₂, hsp₂, hm₂⟩ :=
    @segs_block μ E A I top cap regs r hown hroom hregs c₁ m₁ ret
      [r.ip, r.cs, returnFlags s.cpu.flags, r.esp, r.ss] ws hm₁
      (show ws.length + 7 < cap by omega) hu₁ hsp₁ hbx₁ hbp₁
  have hat₂ : block E.words
        [ .loadLow .eax .ebx 44#32, .movSeg .ds .eax, .movSeg .es .eax
        , .movSeg .fs .eax, .movSeg .gs .eax, .pushMem .ebp 4#32 ]
        ((State.mk c₁ m₁).at b₁) = some ((State.mk c₂ m₂).at b₁) := by
    rw [block_at, hblock₂]
    rfl
  have hworks₂ := works_block hload₂ hu₁ hat₂
  -- the registers
  obtain ⟨m₃, flags, hworks₃, hm₃⟩ := @call_restore μ E sym scratch
    isr80hHandler interruptHandler A I top cap regs r hlink hown hroom hregs
    ((State.mk c₂ m₂).at b₂) back (r.ip :: r.cs :: returnFlags s.cpu.flags
      :: r.esp :: r.ss :: ret :: regs :: ws) hm₂
    (show ws.length + 7 + 2 < cap by omega) hu₂ hsp₂ hcall
  have hadd := @plain_addImm μ E.words ⟨⟨restoredRegs r
    (below top (ws.length + 8)), c₂.seg, back, flags⟩, m₃⟩ .esp _ 4#32 _ rfl
    (below_succ_add top (ws.length + 7))
  rw [restoredRegs_set] at hadd
  have hworks₄ := works_block (s := ⟨⟨restoredRegs r
    (below top (ws.length + 8)), c₂.seg, back, flags⟩, m₃⟩) hload₃ hu₂
    (block_cons hadd)
  -- out
  have hring : r.cs.setWidth 16 &&& 3#16 = 3#16 := by
    by_contra hne
    rw [taskReturn_kernel hne] at hret
    cases hret
  have hu₃ : (Cpu.mk (restoredRegs r (below top (ws.length + 7))) c₂.seg b₃
    (addFlags flags (below top (ws.length + 8)) 4#32)).user = false := hu₂
  have hiret := @iretd_stack μ E.words ⟨⟨restoredRegs r
    (below top (ws.length + 7)), c₂.seg, b₃,
    addFlags flags (below top (ws.length + 8)) 4#32⟩, m₃⟩ top r.ip r.cs
    (returnFlags s.cpu.flags) r.esp r.ss (ret :: regs :: ws) hu₃ hring
    (by
      show below top (ws.length + 7) = below top (5 + (ws.length + 2))
      rw [Nat.add_comm 5])
    hm₃.stack.2
  rw [restoredRegs_set] at hiret
  refine ⟨⟨restoredRegs r r.esp, Function.update (Function.update c₂.seg .cs
    (r.cs.setWidth 16)) .ss (r.ss.setWidth 16), r.ip,
    returnFlags s.cpu.flags⟩, ?_, m₃, ?_, hm₃.inv, ?_, ?_, hm₃.registers⟩
  · exact beq_iff_eq.mpr hring
  · rw [taskReturn_user hring] at hret
    exact Option.some.inj hret
  · intro d hcs
    rw [taskReturn_user hring] at hret
    rw [← Option.some.inj hret]
    by_cases hss : d = .ss
    · rw [hss]
      rfl
    · show Function.update (Function.update c₂.seg .cs _) .ss _ d = _
      rw [Function.update_of_ne hss, Function.update_of_ne hcs]
      exact hseg₂ d hcs hss
  · have hworks := ((hworks₁.trans hworks₂).trans hworks₃).trans hworks₄
    exact Works.tail hworks hu₂ ((step_iretd hiretd).trans hiret)

/-- The registers of a new task, and the words of a memory where
`task_return` is called with them. -/
def newTaskRegisters : Registers :=
  { Registers.zero with
    ip := 0x400000#32, cs := 0x1B#32, esp := 0x3FF000#32, ss := 0x23#32 }

/-- A memory where `task_return` has been called with them. -/
def newTaskMemory (a : Addr) : BitVec 32 :=
  if a = below tssEsp0 1 then 0x1000000#32
  else newTaskRegisters.word (a - 0x1000000#32).toNat

theorem task_return_asm_newTask :
    ∃ c m, c.reg .esp = 0x3FF000#32 ∧ c.eip = 0x400000#32 ∧ c.user = true
      ∧ Works (imageEnv flatWords (fun _ _ m => some (.back 0#32 m))
          (fun _ _ m => some (.back 0#32 m)) [])
        ⟨⟨Function.update (fun _ => 0#32) .esp (below tssEsp0 2),
          fun _ => 8#16, imageSymbols.taskReturn, 2#32⟩, newTaskMemory⟩
        ⟨c, m⟩ := by
  obtain ⟨c, hc, m, hcpu, _, _, hworks, _⟩ := @task_return_asm
    (Addr → BitVec 32) _ imageSymbols _ _ _ (fun _ _ => True) (fun _ => True)
    tssEsp0 16 0x1000000#32 newTaskRegisters
    (imageEnv_linked flatWords (fun _ _ m => some (.back 0#32 m))
      (fun _ _ m => some (.back 0#32 m)) []) flatWords_own
    flat_kernelWords.stack ⟨fun _ _ => trivial, by decide⟩
    ⟨⟨Function.update (fun _ => 0#32) .esp (below tssEsp0 2),
      fun _ => 8#16, imageSymbols.taskReturn, 2#32⟩, newTaskMemory⟩ 0#32 []
    ⟨trivial, ⟨by decide, rfl, trivial⟩, by decide⟩ (by decide) rfl rfl rfl _
    (taskReturn_user (by decide))
  refine ⟨c, m, ?_, ?_, hc, hworks⟩
  · exact congrArg UserCpu.esp hcpu
  · exact congrArg UserCpu.ip hcpu

end BenOS.Tasks
