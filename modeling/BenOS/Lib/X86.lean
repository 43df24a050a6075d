/-
The part of a 32-bit x86 that moves words between registers and the
stack, and that passes between a program and the kernel.

The memory is whatever words are read from and written to (`WordMem`).
Code is looked up by its address, with the address of the instruction
behind it, so that no length of an instruction is fixed. A function that
is not given as instructions (`Env.foreign`) takes one step from its entry
to its return.

What is left out: the checks on segment descriptors, the error codes some
exceptions push, and a return by `iretd` that the program makes itself.

# The rules

- `reaches_block`: instructions that do not transfer control are one
  function of the state (`block`), and the processor computes it.
- `pushWords_stack`, `popWords_stack`: a stack is a list of words below
  its top (`Stack`), pushed and popped as lists are, where the memory
  keeps what was written (`Own`).
- `Kept`: what a run on one stack leaves alone.
-/
import Mathlib.Logic.Relation
import Mathlib.Logic.Function.Basic
import Mathlib.Data.BitVec

namespace BenOS.Lib.X86

-- ================================================================ the state

/-- The general purpose registers. -/
inductive Reg
  | eax | ecx | edx | ebx | esp | ebp | esi | edi
deriving DecidableEq

/-- The segment registers. -/
inductive Seg
  | cs | ss | ds | es | fs | gs
deriving DecidableEq

/-- What a processor holds. -/
structure Cpu where
  reg : Reg → BitVec 32
  seg : Seg → BitVec 16
  eip : BitVec 32
  flags : BitVec 32

/-- It runs in ring 3. -/
def Cpu.user (c : Cpu) : Bool := c.seg .cs &&& 3#16 == 3#16

/-- A general purpose register is set. -/
def Cpu.set (c : Cpu) (r : Reg) (v : BitVec 32) : Cpu :=
  { c with reg := Function.update c.reg r v }

/-- A segment register is set. -/
def Cpu.setSeg (c : Cpu) (d : Seg) (v : BitVec 16) : Cpu :=
  { c with seg := Function.update c.seg d v }

/-- A memory as a processor uses it: words are read and written, by the
user or not. `none` is a page fault. -/
structure WordMem (μ : Type) where
  read : Bool → μ → BitVec 32 → Option (BitVec 32)
  write : Bool → μ → BitVec 32 → BitVec 32 → Option μ

/-- A processor with its memory. -/
structure State (μ : Type) where
  cpu : Cpu
  mem : μ

variable {μ : Type}

/-- A general purpose register is set. -/
def State.set (s : State μ) (r : Reg) (v : BitVec 32) : State μ :=
  { s with cpu := s.cpu.set r v }

/-- The instruction pointer is set. -/
def Cpu.setEip (c : Cpu) (eip : BitVec 32) : Cpu := { c with eip := eip }

/-- The state, about to execute at an address. -/
def State.at (s : State μ) (eip : BitVec 32) : State μ :=
  { s with cpu := { s.cpu with eip := eip } }

@[simp] theorem State.at_mem (s : State μ) (e : BitVec 32) :
    (s.at e).mem = s.mem := rfl

@[simp] theorem State.at_reg (s : State μ) (e : BitVec 32) :
    (s.at e).cpu.reg = s.cpu.reg := rfl

@[simp] theorem State.at_seg (s : State μ) (e : BitVec 32) :
    (s.at e).cpu.seg = s.cpu.seg := rfl

@[simp] theorem State.at_flags (s : State μ) (e : BitVec 32) :
    (s.at e).cpu.flags = s.cpu.flags := rfl

@[simp] theorem State.at_eip (s : State μ) (e : BitVec 32) :
    (s.at e).cpu.eip = e := rfl

@[simp] theorem State.at_user (s : State μ) (e : BitVec 32) :
    (s.at e).cpu.user = s.cpu.user := rfl

@[simp] theorem State.at_at (s : State μ) (e e' : BitVec 32) :
    (s.at e).at e' = s.at e' := rfl

@[simp] theorem Cpu.user_set (c : Cpu) (r : Reg) (v : BitVec 32) :
    (c.set r v).user = c.user := rfl

-- ==================================================================== flags

/-- One flag is set or cleared. -/
def setFlag (flags : BitVec 32) (i : Nat) (b : Bool) : BitVec 32 :=
  if b then flags ||| (1#32 <<< i) else flags &&& ~~~(1#32 <<< i)

/-- The parity, zero and sign flag of a result. -/
def resultFlags (flags r : BitVec 32) : BitVec 32 :=
  let flags := setFlag flags 2 ((List.range 8).countP r.getLsbD % 2 == 0)
  let flags := setFlag flags 6 (r == 0#32)
  setFlag flags 7 r.msb

/-- The flags behind `add`. -/
def addFlags (flags a b : BitVec 32) : BitVec 32 :=
  let flags := setFlag flags 0 (decide (2 ^ 32 ≤ a.toNat + b.toNat))
  let flags := setFlag flags 4 (decide (16 ≤ a.toNat % 16 + b.toNat % 16))
  let flags := setFlag flags 11 (a.msb == b.msb && (a + b).msb != a.msb)
  resultFlags flags (a + b)

/-- The flags behind `or`, which leaves the adjust flag undefined: here it
stays. -/
def orFlags (flags r : BitVec 32) : BitVec 32 :=
  resultFlags (setFlag (setFlag flags 0 false) 11 false) r

/-- The interrupt flag. -/
abbrev flagIf : Nat := 9

-- =================================================================== the stack

/-- `push` of a word. -/
def pushWord (W : WordMem μ) (v : BitVec 32) (s : State μ) :
    Option (State μ) := do
  let esp := s.cpu.reg .esp - 4#32
  let m ← W.write s.cpu.user s.mem esp v
  some { cpu := s.cpu.set .esp esp, mem := m }

/-- `push` of word after word. -/
def pushWords (W : WordMem μ) : List (BitVec 32) → State μ → Option (State μ)
  | [], s => some s
  | v :: vs, s => do
      let s ← pushWord W v s
      pushWords W vs s

/-- `pop` of a word. -/
def popWord (W : WordMem μ) (s : State μ) : Option (BitVec 32 × State μ) := do
  let v ← W.read s.cpu.user s.mem (s.cpu.reg .esp)
  some (v, s.set .esp (s.cpu.reg .esp + 4#32))

/-- `pop` of so many words, the first one first. -/
def popWords (W : WordMem μ) :
    Nat → State μ → Option (List (BitVec 32) × State μ)
  | 0, s => some ([], s)
  | n + 1, s => do
      let (v, s) ← popWord W s
      let (vs, s) ← popWords W n s
      some (v :: vs, s)

-- ============================================================= instructions

/-- The instructions; an operand in memory is a register and a
displacement, or an address. -/
inductive Instr
  | push (r : Reg)
  | pushImm (v : BitVec 32)
  | pushMem (b : Reg) (d : BitVec 32)
  | pushf
  | pushad
  | pop (r : Reg)
  | popad
  | mov (d s : Reg)
  | movImm (d : Reg) (v : BitVec 32)
  | load (d b : Reg) (disp : BitVec 32)
  | loadLow (d b : Reg) (disp : BitVec 32)
  | loadAbs (d : Reg) (a : BitVec 32)
  | storeAbs (a : BitVec 32) (s : Reg)
  | movSeg (d : Seg) (s : Reg)
  | addImm (d : Reg) (v : BitVec 32)
  | orImm (d : Reg) (v : BitVec 32)
  | cli
  | sti
  | int (n : BitVec 8)
  | call (f : BitVec 32)
  | ret
  | iretd

/-- `popad`; the word of `esp` is passed over. -/
def popad (W : WordMem μ) (s : State μ) : Option (State μ) :=
  match popWords W 8 s with
  | some ([edi, esi, ebp, _, ebx, edx, ecx, eax], s) =>
      some (((((((s.set .edi edi).set .esi esi).set .ebp ebp).set .ebx
        ebx).set .edx edx).set .ecx ecx).set .eax eax)
  | _ => none

/-- `cli` and `sti`, which ring 3 may not. -/
def setIf (b : Bool) (s : State μ) : Option (State μ) :=
  if s.cpu.user then none
  else some { s with cpu :=
    { s.cpu with flags := setFlag s.cpu.flags flagIf b } }

/-- An instruction that does not transfer control, less the step to the
next one. -/
def plain (W : WordMem μ) (s : State μ) : Instr → Option (State μ)
  | .push r => pushWord W (s.cpu.reg r) s
  | .pushImm v => pushWord W v s
  | .pushMem b d => do
      let v ← W.read s.cpu.user s.mem (s.cpu.reg b + d)
      pushWord W v s
  -- the virtual and the resume flag are not pushed
  | .pushf => pushWord W (s.cpu.flags &&& 0x00FCFFFF#32) s
  | .pushad =>
      pushWords W (([.eax, .ecx, .edx, .ebx, .esp, .ebp, .esi, .edi] :
        List Reg).map s.cpu.reg) s
  | .pop r => do
      let (v, s) ← popWord W s
      some (s.set r v)
  | .popad => popad W s
  | .mov d r => some (s.set d (s.cpu.reg r))
  | .movImm d v => some (s.set d v)
  | .load d b disp => do
      let v ← W.read s.cpu.user s.mem (s.cpu.reg b + disp)
      some (s.set d v)
  | .loadLow d b disp => do
      let v ← W.read s.cpu.user s.mem (s.cpu.reg b + disp)
      some (s.set d ((s.cpu.reg d).extractLsb' 16 16 ++ v.setWidth 16))
  | .loadAbs d a => do
      let v ← W.read s.cpu.user s.mem a
      some (s.set d v)
  | .storeAbs a r => do
      let m ← W.write s.cpu.user s.mem a (s.cpu.reg r)
      some { s with mem := m }
  -- the code segment is not loaded by `mov`
  | .movSeg d r =>
      if d = .cs then none
      else some { s with cpu := s.cpu.setSeg d ((s.cpu.reg r).setWidth 16) }
  | .addImm d v =>
      let s' := s.set d (s.cpu.reg d + v)
      some { s' with cpu := { s'.cpu with
        flags := addFlags s.cpu.flags (s.cpu.reg d) v } }
  | .orImm d v =>
      let s' := s.set d (s.cpu.reg d ||| v)
      some { s' with cpu := { s'.cpu with
        flags := orFlags s.cpu.flags (s.cpu.reg d ||| v) } }
  | .cli => setIf false s
  | .sti => setIf true s
  | _ => none

/-- One after the other. -/
def block (W : WordMem μ) : List Instr → State μ → Option (State μ)
  | [], s => some s
  | i :: is, s => do
      let s ← plain W s i
      block W is s

-- ================================================================ the machine

/-- An interrupt gate. -/
structure Gate where
  selector : BitVec 16
  offset : BitVec 32
  dpl : Nat

/-- What a processor runs with: the memory, the code, the interrupt
descriptor table, the kernel stack of the task state segment, and the
functions that are not given as instructions. -/
structure Env (μ : Type) where
  words : WordMem μ
  code : BitVec 32 → Option (Instr × BitVec 32)
  gate : BitVec 8 → Option Gate
  esp0 : BitVec 32
  ss0 : BitVec 16
  foreign : BitVec 32 → Option (State μ → Option (State μ))

/-- The flags that an interrupt gate clears: trap, interrupt, nested task,
resume and virtual. -/
def gateFlags (flags : BitVec 32) : BitVec 32 := flags &&& ~~~0x00034300#32

/-- An interrupt is taken: from ring 3 on the kernel stack. -/
def interrupt (E : Env μ) (g : Gate) (s : State μ) : Option (State μ) := do
  let c := s.cpu
  let s ←
    if c.user then
      pushWords E.words
        [(c.seg .ss).setWidth 32, c.reg .esp, c.flags,
          (c.seg .cs).setWidth 32, c.eip]
        { s with cpu :=
          ((c.set .esp E.esp0).setSeg .ss E.ss0).setSeg .cs g.selector }
    else
      pushWords E.words [c.flags, (c.seg .cs).setWidth 32, c.eip]
        { s with cpu := c.setSeg .cs g.selector }
  some { s with cpu :=
    { s.cpu with eip := g.offset, flags := gateFlags c.flags } }

/-- `iretd` in the kernel: the stack is left for that of the program where
the code segment is one of ring 3. -/
def iretd (W : WordMem μ) (s : State μ) : Option (State μ) :=
  if s.cpu.user then none
  else
    match popWords W 3 s with
    | some ([eip, cs, flags], s) =>
        if cs.setWidth 16 &&& 3#16 = 3#16 then
          match popWords W 2 s with
          | some ([esp, ss], s) =>
              let c := ((s.cpu.set .esp esp).setSeg .cs
                (cs.setWidth 16)).setSeg .ss (ss.setWidth 16)
              some { s with cpu := { c with eip := eip, flags := flags } }
          | _ => none
        else
          let c := s.cpu.setSeg .cs (cs.setWidth 16)
          some { s with cpu := { c with eip := eip, flags := flags } }
    | _ => none

/-- `call`: the function is run through where it is none of the code. -/
def callTo (E : Env μ) (f : BitVec 32) (s : State μ) : Option (State μ) := do
  let s ← pushWord E.words s.cpu.eip s
  match E.foreign f with
  | some run => run s
  | none => some (s.at f)

/-- One step of the processor. -/
def step (E : Env μ) (s : State μ) : Option (State μ) :=
  match E.code s.cpu.eip with
  | none => none
  | some (i, next) =>
      match i with
      | .int n => do
          let g ← E.gate n
          -- the gate has to admit the ring
          if s.cpu.user && g.dpl != 3 then none
          else interrupt E g (s.at next)
      | .call f => callTo E f (s.at next)
      | .ret => do
          let (eip, s) ← popWord E.words s
          some (s.at eip)
      | .iretd => iretd E.words s
      | i => (plain E.words s i).map fun s => s.at next

/-- The processor comes from one state to another. -/
def Reaches (E : Env μ) : State μ → State μ → Prop :=
  Relation.ReflTransGen fun s s' => step E s = some s'

/-- In the kernel it comes from one state to another. -/
def Works (E : Env μ) : State μ → State μ → Prop :=
  Relation.ReflTransGen fun s s' => s.cpu.user = false ∧ step E s = some s'

/-- How a C function ends: it comes back with an answer, or it calls
another one with one argument, which does not come back. -/
inductive Ended (μ : Type)
  | back (res : BitVec 32) (m : μ)
  | calls (f arg : BitVec 32) (m : μ)

/-- What the compiler decides: what a C function leaves in the registers
that are its own, how many words it has on the stack where it calls
another one, and where it calls it. -/
structure Scratch where
  reg : Reg → BitVec 32
  flags : BitVec 32
  depth : Nat
  ret : BitVec 32

/-- The data segments, beside the code and the stack. -/
def dataSegs (seg : Seg → BitVec 16) (v : BitVec 16) : Seg → BitVec 16
  | .cs => seg .cs
  | .ss => seg .ss
  | _ => v

/-- A C function of two words, by the convention of the i386: its
arguments lie behind the return address, it answers in `eax`, and `ecx`,
`edx` and the flags are its own to change. It comes back with `ds` in the
data segments. -/
def cdecl2 (W : WordMem μ) (scratch : State μ → Scratch) (ds : BitVec 16)
    (f : BitVec 32 → BitVec 32 → μ → Option (Ended μ)) (s : State μ) :
    Option (State μ) := do
  let esp := s.cpu.reg .esp
  let a ← W.read s.cpu.user s.mem (esp + 4#32)
  let b ← W.read s.cpu.user s.mem (esp + 8#32)
  let t := scratch s
  match ← f a b s.mem with
  | .back res m =>
      let (eip, s) ← popWord W { s with mem := m }
      let s := ((s.set .ecx (t.reg .ecx)).set .edx (t.reg .edx)).set .eax res
      some { s with cpu :=
        { s.cpu with
          seg := dataSegs s.cpu.seg ds, eip := eip, flags := t.flags } }
  | .calls g arg m =>
      let esp := esp - BitVec.ofNat 32 (4 * t.depth)
      let c := { s.cpu with
        reg := Function.update t.reg .esp esp, flags := t.flags }
      let s ← pushWords W [arg, t.ret] { cpu := c, mem := m }
      some (s.at g)

-- ============================================================ the simp set

section Simp

variable (s : State μ)

@[simp] theorem State.set_mem (r : Reg) (v : BitVec 32) :
    (s.set r v).mem = s.mem := rfl

@[simp] theorem State.set_seg (r : Reg) (v : BitVec 32) :
    (s.set r v).cpu.seg = s.cpu.seg := rfl

@[simp] theorem State.set_eip (r : Reg) (v : BitVec 32) :
    (s.set r v).cpu.eip = s.cpu.eip := rfl

@[simp] theorem State.set_flags (r : Reg) (v : BitVec 32) :
    (s.set r v).cpu.flags = s.cpu.flags := rfl

@[simp] theorem State.set_user (r : Reg) (v : BitVec 32) :
    (s.set r v).cpu.user = s.cpu.user := rfl

@[simp] theorem State.set_reg (r : Reg) (v : BitVec 32) :
    (s.set r v).cpu.reg = Function.update s.cpu.reg r v := rfl

theorem Cpu.reg_set_self (c : Cpu) (r : Reg) (v : BitVec 32) :
    (c.set r v).reg r = v := Function.update_self _ _ _

theorem Cpu.seg_setSeg_self (c : Cpu) (d : Seg) (v : BitVec 16) :
    (c.setSeg d v).seg d = v := by
  unfold Cpu.setSeg
  exact Function.update_self d v c.seg

/-- Different registers are set in any order. -/
theorem Cpu.set_comm (c : Cpu) {r r' : Reg} (h : r ≠ r') (v w : BitVec 32) :
    (c.set r v).set r' w = (c.set r' w).set r v := by
  unfold Cpu.set
  rw [Function.update_comm h]

/-- The register set last counts. -/
@[simp] theorem Cpu.set_set (c : Cpu) (r : Reg) (v w : BitVec 32) :
    (c.set r v).set r w = c.set r w := by
  unfold Cpu.set
  rw [Function.update_idem]

@[simp] theorem State.set_set (r : Reg) (v w : BitVec 32) :
    (s.set r v).set r w = s.set r w :=
  congrArg (fun c => State.mk c s.mem) (Cpu.set_set s.cpu r v w)

/-- A register set to what it holds is not changed. -/
theorem State.set_self (r : Reg) : s.set r (s.cpu.reg r) = s := by
  unfold State.set Cpu.set
  rw [Function.update_eq_self]

@[simp] theorem Cpu.user_dataSegs (c : Cpu) (v : BitVec 16) :
    { c with seg := dataSegs c.seg v }.user = c.user := rfl

/-- The data segments set last count. -/
@[simp] theorem dataSegs_dataSegs (seg : Seg → BitVec 16) (v w : BitVec 16) :
    dataSegs (dataSegs seg v) w = dataSegs seg w := by
  funext d
  cases d with
  | _ => rfl

end Simp

-- =========================================================== straight blocks

section Blocks

variable {W : WordMem μ} {E : Env μ}

theorem pushWord_at (v e : BitVec 32) (s : State μ) :
    pushWord W v (s.at e) = (pushWord W v s).map (·.at e) := by
  unfold pushWord
  simp only [State.at_reg, State.at_user, State.at_mem]
  cases W.write s.cpu.user s.mem (s.cpu.reg .esp - 4#32) v with
  | none => rfl
  | some m => rfl

theorem pushWords_at (vs : List (BitVec 32)) (e : BitVec 32) :
    ∀ s : State μ, pushWords W vs (s.at e) = (pushWords W vs s).map (·.at e) := by
  induction vs with
  | nil => exact fun _ => rfl
  | cons v vs ih =>
      intro s
      unfold pushWords
      rw [pushWord_at]
      cases pushWord W v s with
      | none => rfl
      | some s' => exact ih s'

theorem popWord_at (e : BitVec 32) (s : State μ) :
    popWord W (s.at e) = (popWord W s).map fun r => (r.1, r.2.at e) := by
  unfold popWord
  simp only [State.at_reg, State.at_user, State.at_mem]
  cases W.read s.cpu.user s.mem (s.cpu.reg .esp) with
  | none => rfl
  | some v => rfl

theorem popWords_at (n : Nat) (e : BitVec 32) :
    ∀ s : State μ, popWords W n (s.at e)
      = (popWords W n s).map fun r => (r.1, r.2.at e) := by
  induction n with
  | zero => exact fun _ => rfl
  | succ n ih =>
      intro s
      unfold popWords
      rw [popWord_at]
      cases popWord W s with
      | none => rfl
      | some r =>
          simp only [Option.map_some, Option.bind_eq_bind, Option.bind_some]
          rw [ih]
          cases popWords W n r.2 with
          | none => rfl
          | some r' => rfl

theorem setIf_at (b : Bool) (e : BitVec 32) (s : State μ) :
    setIf b (s.at e) = (setIf b s).map (·.at e) := by
  unfold setIf
  by_cases hu : s.cpu.user = true
  · rw [if_pos hu]
    exact if_pos hu
  · rw [if_neg hu]
    exact if_neg hu

/-- What an instruction does does not hang on where it stands. -/
theorem plain_at (i : Instr) (e : BitVec 32) (s : State μ) :
    plain W (s.at e) i = (plain W s i).map (·.at e) := by
  cases i with
  | push r => exact pushWord_at _ e s
  | pushImm v => exact pushWord_at _ e s
  | pushf => exact pushWord_at _ e s
  | pushad => exact pushWords_at _ e s
  | pushMem b d =>
      unfold plain
      simp only [State.at_reg, State.at_user, State.at_mem]
      cases W.read s.cpu.user s.mem (s.cpu.reg b + d) with
      | none => rfl
      | some v => exact pushWord_at v e s
  | pop r =>
      unfold plain
      rw [popWord_at]
      cases popWord W s with
      | none => rfl
      | some r => rfl
  | popad =>
      unfold plain popad
      rw [popWords_at]
      cases popWords W 8 s with
      | none => rfl
      | some r =>
          obtain ⟨vs, s'⟩ := r
          simp only [Option.map_some]
          split
          next heq => cases heq; rfl
          next hne =>
            split
            next heq => cases heq; exact absurd rfl (hne _ _ _ _ _ _ _ _ _)
            next => rfl
  | load d b disp =>
      unfold plain
      simp only [State.at_reg, State.at_user, State.at_mem]
      cases W.read s.cpu.user s.mem (s.cpu.reg b + disp) with
      | none => rfl
      | some v => rfl
  | loadLow d b disp =>
      unfold plain
      simp only [State.at_reg, State.at_user, State.at_mem]
      cases W.read s.cpu.user s.mem (s.cpu.reg b + disp) with
      | none => rfl
      | some v => rfl
  | loadAbs d a =>
      unfold plain
      simp only [State.at_user, State.at_mem]
      cases W.read s.cpu.user s.mem a with
      | none => rfl
      | some v => rfl
  | storeAbs a r =>
      unfold plain
      simp only [State.at_reg, State.at_user, State.at_mem]
      cases W.write s.cpu.user s.mem a (s.cpu.reg r) with
      | none => rfl
      | some m => rfl
  | movSeg d r =>
      cases d with
      | _ => rfl
  | cli => exact setIf_at false e s
  | sti => exact setIf_at true e s
  | _ => rfl

/-- The instructions lie in the code from an address on, as far as
another one. -/
def CodeAt (code : BitVec 32 → Option (Instr × BitVec 32)) :
    BitVec 32 → List Instr → BitVec 32 → Prop
  | a, [], stop => a = stop
  | a, i :: is, stop => ∃ next, code a = some (i, next) ∧ CodeAt code next is stop

/-- Code is loaded part by part. -/
theorem codeAt_append {code : BitVec 32 → Option (Instr × BitVec 32)}
    {is js : List Instr} {stop : BitVec 32} :
    ∀ {a : BitVec 32}, CodeAt code a (is ++ js) stop →
      ∃ b, CodeAt code a is b ∧ CodeAt code b js stop := by
  induction is with
  | nil => exact fun {a} h => ⟨a, rfl, h⟩
  | cons i is ih =>
      rintro a ⟨next, hcode, hrest⟩
      obtain ⟨b, his, hjs⟩ := ih hrest
      exact ⟨b, ⟨next, hcode, his⟩, hjs⟩

theorem plain_orImm (s : State μ) (d : Reg) (v : BitVec 32) :
    plain W s (.orImm d v) = some ⟨⟨
      Function.update s.cpu.reg d (s.cpu.reg d ||| v), s.cpu.seg, s.cpu.eip,
      orFlags s.cpu.flags (s.cpu.reg d ||| v)⟩, s.mem⟩ := rfl

theorem plain_addImm {s : State μ} {d : Reg} {a v b : BitVec 32}
    (ha : s.cpu.reg d = a) (hb : a + v = b) :
    plain W s (.addImm d v) = some ⟨⟨Function.update s.cpu.reg d b, s.cpu.seg,
      s.cpu.eip, addFlags s.cpu.flags a v⟩, s.mem⟩ := by
  rw [← hb, ← ha]
  rfl

theorem plain_pushMem {s : State μ} {b : Reg} {d v : BitVec 32}
    (hread : W.read s.cpu.user s.mem (s.cpu.reg b + d) = some v) :
    plain W s (.pushMem b d) = pushWord W v s := by
  unfold plain
  simp only [hread]
  rfl

theorem plain_load {s : State μ} {r b : Reg} {d v : BitVec 32}
    (hread : W.read s.cpu.user s.mem (s.cpu.reg b + d) = some v) :
    plain W s (.load r b d) = some (s.set r v) := by
  unfold plain
  simp only [hread]
  rfl

theorem plain_loadLow {s : State μ} {r b : Reg} {d v : BitVec 32}
    (hread : W.read s.cpu.user s.mem (s.cpu.reg b + d) = some v) :
    plain W s (.loadLow r b d)
      = some (s.set r ((s.cpu.reg r).extractLsb' 16 16 ++ v.setWidth 16)) := by
  unfold plain
  simp only [hread]
  rfl

theorem popWord_read {s : State μ} {sp v : BitVec 32}
    (hsp : s.cpu.reg .esp = sp) (hread : W.read s.cpu.user s.mem sp = some v) :
    popWord W s = some (v, s.set .esp (sp + 4#32)) := by
  unfold popWord
  rw [hsp, hread]
  rfl

theorem plain_pop {s : State μ} {r : Reg} {sp v : BitVec 32}
    (hsp : s.cpu.reg .esp = sp) (hread : W.read s.cpu.user s.mem sp = some v) :
    plain W s (.pop r) = some ((s.set .esp (sp + 4#32)).set r v) := by
  unfold plain
  rw [popWord_read hsp hread]
  rfl

theorem step_call {s : State μ} {f next : BitVec 32}
    (hcode : E.code s.cpu.eip = some (.call f, next)) :
    step E s = callTo E f (s.at next) := by
  unfold step
  rw [hcode]

/-- A program gets through a gate for ring 3. -/
theorem step_int {s : State μ} {n : BitVec 8} {g : Gate} {next : BitVec 32}
    (hcode : E.code s.cpu.eip = some (.int n, next))
    (hgate : E.gate n = some g) (hdpl : g.dpl = 3) :
    step E s = interrupt E g (s.at next) := by
  unfold step
  rw [hcode]
  simp only [hgate, hdpl, Option.bind_eq_bind, Option.bind_some, bne_self_eq_false,
    Bool.and_false, Bool.false_eq_true, if_false]

theorem step_ret {s s' : State μ} {eip next : BitVec 32}
    (hcode : E.code s.cpu.eip = some (.ret, next))
    (hpop : popWord E.words s = some (eip, s')) :
    step E s = some (s'.at eip) := by
  unfold step
  rw [hcode]
  simp only [hpop]
  rfl

theorem step_iretd {s : State μ} {next : BitVec 32}
    (hcode : E.code s.cpu.eip = some (.iretd, next)) :
    step E s = iretd E.words s := by
  unfold step
  rw [hcode]

theorem step_plain {s s' : State μ} {i : Instr} {next : BitVec 32}
    (hcode : E.code s.cpu.eip = some (i, next))
    (hplain : plain E.words s i = some s') : step E s = some (s'.at next) := by
  unfold step
  rw [hcode]
  cases i with
  | int n => cases hplain
  | call f => cases hplain
  | ret => cases hplain
  | iretd => cases hplain
  | _ =>
      simp only
      rw [hplain]
      rfl

theorem block_cons {i : Instr} {is : List Instr} {s s' : State μ}
    (h : plain W s i = some s') : block W (i :: is) s = block W is s' := by
  rw [block, h]
  rfl

theorem block_append {is js : List Instr} :
    ∀ {s s' : State μ}, block W is s = some s' →
      block W (is ++ js) s = block W js s' := by
  induction is with
  | nil =>
      intro s s' h
      cases h
      rfl
  | cons i is ih =>
      intro s s' h
      cases hplain : plain W s i with
      | none =>
          rw [block, hplain] at h
          cases h
      | some s₁ =>
          rw [block_cons hplain] at h
          rw [List.cons_append, block_cons hplain]
          exact ih h

theorem block_at (is : List Instr) (e : BitVec 32) :
    ∀ s : State μ, block W is (s.at e) = (block W is s).map (·.at e) := by
  induction is with
  | nil => exact fun _ => rfl
  | cons i is ih =>
      intro s
      unfold block
      rw [plain_at]
      cases plain W s i with
      | none => rfl
      | some s' => exact ih s'

theorem pushWord_user {v : BitVec 32} {s s' : State μ}
    (h : pushWord W v s = some s') : s'.cpu.user = s.cpu.user := by
  unfold pushWord at h
  cases hw : W.write s.cpu.user s.mem (s.cpu.reg .esp - 4#32) v with
  | none =>
      simp only [hw] at h
      cases h
  | some m =>
      simp only [hw] at h
      cases h
      rfl

theorem pushWords_user (vs : List (BitVec 32)) :
    ∀ {s s' : State μ}, pushWords W vs s = some s' →
      s'.cpu.user = s.cpu.user := by
  induction vs with
  | nil =>
      intro s s' h
      cases h
      rfl
  | cons v vs ih =>
      intro s s' h
      unfold pushWords at h
      obtain ⟨s₁, hpush, hrest⟩ := Option.bind_eq_some_iff.mp h
      exact (ih hrest).trans (pushWord_user hpush)

theorem popWord_user {v : BitVec 32} {s s' : State μ}
    (h : popWord W s = some (v, s')) : s'.cpu.user = s.cpu.user := by
  unfold popWord at h
  obtain ⟨w, -, hset⟩ := Option.bind_eq_some_iff.mp h
  cases hset
  rfl

theorem popWords_user (n : Nat) :
    ∀ {vs : List (BitVec 32)} {s s' : State μ},
      popWords W n s = some (vs, s') → s'.cpu.user = s.cpu.user := by
  induction n with
  | zero =>
      intro vs s s' h
      cases h
      rfl
  | succ n ih =>
      intro vs s s' h
      unfold popWords at h
      obtain ⟨⟨v, s₁⟩, hpop, hrest⟩ := Option.bind_eq_some_iff.mp h
      obtain ⟨⟨ws, s₂⟩, hpops, hend⟩ := Option.bind_eq_some_iff.mp hrest
      cases hend
      exact (ih hpops).trans (popWord_user hpop)

theorem popad_user {s s' : State μ} (h : popad W s = some s') :
    s'.cpu.user = s.cpu.user := by
  unfold popad at h
  split at h
  next hpop =>
    have hker := popWords_user 8 hpop
    rw [← Option.some.inj h]
    exact hker
  next => cases h

theorem setIf_user {b : Bool} {s s' : State μ} (h : setIf b s = some s') :
    s'.cpu.user = s.cpu.user := by
  unfold setIf at h
  by_cases hu : s.cpu.user = true
  · rw [if_pos hu] at h
    cases h
  · rw [if_neg hu] at h
    rw [← Option.some.inj h]
    rfl

/-- An instruction that does not transfer control stays in its ring. -/
theorem plain_user {i : Instr} {s s' : State μ} (h : plain W s i = some s') :
    s'.cpu.user = s.cpu.user := by
  cases i with
  | push r => exact pushWord_user h
  | pushImm v => exact pushWord_user h
  | pushf => exact pushWord_user h
  | pushad => exact pushWords_user _ h
  | pushMem b d =>
      obtain ⟨v, -, hpush⟩ := Option.bind_eq_some_iff.mp h
      exact pushWord_user hpush
  | pop r =>
      obtain ⟨⟨v, s₁⟩, hpop, hset⟩ := Option.bind_eq_some_iff.mp h
      have hker := popWord_user hpop
      rw [← Option.some.inj hset]
      exact hker
  | popad => exact popad_user h
  | load d b disp =>
      obtain ⟨v, -, hset⟩ := Option.bind_eq_some_iff.mp h
      cases hset
      rfl
  | loadLow d b disp =>
      obtain ⟨v, -, hset⟩ := Option.bind_eq_some_iff.mp h
      cases hset
      rfl
  | loadAbs d a =>
      obtain ⟨v, -, hset⟩ := Option.bind_eq_some_iff.mp h
      cases hset
      rfl
  | storeAbs a r =>
      obtain ⟨m, -, hset⟩ := Option.bind_eq_some_iff.mp h
      cases hset
      rfl
  | movSeg d r =>
      cases d with
      | cs => cases h
      | _ =>
          cases h
          rfl
  | cli => exact setIf_user h
  | sti => exact setIf_user h
  | mov d r =>
      cases h
      rfl
  | movImm d v =>
      cases h
      rfl
  | addImm d v =>
      cases h
      rfl
  | orImm d v =>
      cases h
      rfl
  | int n => cases h
  | call f => cases h
  | ret => cases h
  | iretd => cases h

/-- What it reaches in the kernel, it reaches. -/
theorem Works.reaches {s s' : State μ} (h : Works E s s') : Reaches E s s' :=
  Relation.ReflTransGen.mono (fun _ _ hstep => hstep.2) _ _ h

/-- One more step. -/
theorem Works.tail {s s' s'' : State μ} (h : Works E s s')
    (hu : s'.cpu.user = false) (hstep : step E s' = some s'') :
    Works E s s'' := Relation.ReflTransGen.tail h ⟨hu, hstep⟩

/-- One step before. -/
theorem Works.head {s s' s'' : State μ} (hu : s.cpu.user = false)
    (hstep : step E s = some s') (h : Works E s' s'') : Works E s s'' :=
  Relation.ReflTransGen.head ⟨hu, hstep⟩ h

/-- The processor runs through a block of the kernel. -/
theorem works_block {is : List Instr} {stop : BitVec 32} :
    ∀ {s s' : State μ}, CodeAt E.code s.cpu.eip is stop →
      s.cpu.user = false → block E.words is s = some s' →
      Works E s (s'.at stop) := by
  induction is with
  | nil =>
      intro s s' hload _ hblock
      cases hblock
      rw [← show s.cpu.eip = stop from hload]
      exact Relation.ReflTransGen.refl
  | cons i is ih =>
      rintro s s' ⟨next, hcode, hrest⟩ hu hblock
      unfold block at hblock
      cases hplain : plain E.words s i with
      | none =>
          rw [hplain] at hblock
          cases hblock
      | some s₁ =>
          rw [hplain] at hblock
          have hstep := step_plain hcode hplain
          have hat : block E.words is (s₁.at next) = some (s'.at next) := by
            rw [block_at, show block E.words is s₁ = some s' from hblock]
            rfl
          have hworks := @ih (s₁.at next) (s'.at next) hrest
            ((plain_user hplain).trans hu) hat
          exact Works.head hu hstep hworks

/-- The processor runs through a block. -/
theorem reaches_block {is : List Instr} {stop : BitVec 32} :
    ∀ {s s' : State μ}, CodeAt E.code s.cpu.eip is stop →
      block E.words is s = some s' → Reaches E s (s'.at stop) := by
  induction is with
  | nil =>
      intro s s' hload hblock
      cases hblock
      rw [← show s.cpu.eip = stop from hload]
      exact Relation.ReflTransGen.refl
  | cons i is ih =>
      rintro s s' ⟨next, hcode, hrest⟩ hblock
      unfold block at hblock
      cases hplain : plain E.words s i with
      | none =>
          rw [hplain] at hblock
          cases hblock
      | some s₁ =>
          rw [hplain] at hblock
          have hstep := step_plain hcode hplain
          have hat : block E.words is (s₁.at next) = some (s'.at next) := by
            rw [block_at, show block E.words is s₁ = some s' from hblock]
            rfl
          have hreach := ih hrest hat
          exact Relation.ReflTransGen.head hstep hreach

end Blocks

-- ==================================================================== stacks

section Stacks

variable {W : WordMem μ} {A : Bool → BitVec 32 → Prop}

/-- Where the stack that starts at `top` comes to with so many words. -/
def below (top : BitVec 32) (n : Nat) : BitVec 32 :=
  top - BitVec.ofNat 32 (4 * n)

theorem below_zero (top : BitVec 32) : below top 0 = top := sub_zero top

theorem below_succ (top : BitVec 32) (n : Nat) :
    below top n - 4#32 = below top (n + 1) := by
  unfold below
  rw [sub_sub, Nat.mul_succ, BitVec.ofNat_add]

theorem below_succ_add (top : BitVec 32) (n : Nat) :
    below top (n + 1) + 4#32 = below top n := by
  rw [← below_succ, sub_add_cancel]

/-- Words further up a stack. -/
theorem below_add (top : BitVec 32) (n j : Nat) :
    below top (n + j) + BitVec.ofNat 32 (4 * j) = below top n := by
  unfold below
  rw [Nat.mul_add, BitVec.ofNat_add, ← sub_sub, sub_add_cancel]

/-- The words of a stack of less than 2^30 words lie at different
addresses. -/
theorem below_inj (top : BitVec 32) {n k : Nat} (hn : n < 2 ^ 30)
    (hk : k < 2 ^ 30) (h : below top n = below top k) : n = k := by
  have hsub : BitVec.ofNat 32 (4 * n) = BitVec.ofNat 32 (4 * k) :=
    sub_right_injective h
  have hnat := congrArg BitVec.toNat hsub
  simp only [BitVec.toNat_ofNat] at hnat
  omega

/-- The words of a stack, its head first, are read below its top. -/
def StackAt (W : WordMem μ) (u : Bool) (m : μ) (top : BitVec 32) :
    List (BitVec 32) → Prop
  | [] => True
  | v :: ws => W.read u m (below top (ws.length + 1)) = some v
      ∧ StackAt W u m top ws

/-- The words an access may go to: what is written there is read there,
and every other word stays. `I` is what is known of the memory. -/
structure Own (W : WordMem μ) (I : μ → Prop) (A : Bool → BitVec 32 → Prop) :
    Prop where
  write : ∀ {u : Bool} {a : BitVec 32} {m : μ}, I m → A u a →
    ∀ v, ∃ m', W.write u m a v = some m' ∧ I m' ∧ ∀ u' b, A u' b →
      W.read u' m' b = if b = a then some v else W.read u' m b

/-- What was written keeps what is known of the memory. -/
theorem Own.written {W : WordMem μ} {I : μ → Prop}
    {A : Bool → BitVec 32 → Prop} (hown : Own W I A) {u : Bool}
    {a v : BitVec 32} {m m' : μ} (hI : I m) (hA : A u a)
    (h : W.write u m a v = some m') :
    I m' ∧ ∀ u' b, A u' b →
      W.read u' m' b = if b = a then some v else W.read u' m b := by
  obtain ⟨m₁, hwrite, hI', hread⟩ := hown.write hI hA v
  rw [h] at hwrite
  cases hwrite
  exact ⟨hI', hread⟩

/-- A stack has room for so many words. -/
structure Room (A : Bool → BitVec 32 → Prop) (u : Bool) (top : BitVec 32)
    (cap : Nat) : Prop where
  small : cap < 2 ^ 30
  cells : ∀ k < cap, A u (below top (k + 1))

/-- Outside the room of a stack every word stays. -/
def Kept (W : WordMem μ) (A : Bool → BitVec 32 → Prop) (top : BitVec 32)
    (cap : Nat) (m m' : μ) : Prop :=
  ∀ u b, A u b → (∀ k < cap, b ≠ below top (k + 1)) →
    W.read u m' b = W.read u m b

theorem Kept.refl (top : BitVec 32) (cap : Nat) (m : μ) :
    Kept W A top cap m m := fun _ _ _ _ => rfl

theorem Kept.trans {top : BitVec 32} {cap : Nat} {m m' m'' : μ}
    (h : Kept W A top cap m m') (h' : Kept W A top cap m' m'') :
    Kept W A top cap m m'' :=
  fun u b hA hb => (h' u b hA hb).trans (h u b hA hb)

/-- Words read at the same addresses are the same stack. -/
theorem StackAt.congr {u : Bool} {top : BitVec 32} {m m' : μ}
    {ws : List (BitVec 32)} (h : StackAt W u m top ws)
    (hsame : ∀ k < ws.length,
      W.read u m' (below top (k + 1)) = W.read u m (below top (k + 1))) :
    StackAt W u m' top ws := by
  induction ws with
  | nil => trivial
  | cons v ws ih =>
      rw [List.length_cons] at hsame
      refine ⟨?_, ih h.2 fun k hk => hsame k (Nat.lt_succ_of_lt hk)⟩
      rw [hsame ws.length (Nat.lt_succ_self _)]
      exact h.1

/-- A word of a stack, counted from its top. -/
theorem StackAt.getElem? {u : Bool} {top : BitVec 32} {m : μ}
    {ws : List (BitVec 32)} (h : StackAt W u m top ws) :
    ∀ {j : Nat} {v : BitVec 32}, ws[j]? = some v →
      W.read u m (below top (ws.length - j)) = some v := by
  induction ws with
  | nil => exact fun hv => by cases hv
  | cons w ws ih =>
      intro j v hv
      cases j with
      | zero =>
          rw [List.getElem?_cons_zero] at hv
          rw [← hv]
          exact h.1
      | succ j =>
          rw [List.getElem?_cons_succ] at hv
          rw [List.length_cons, Nat.add_sub_add_right]
          exact ih h.2 hv

/-- What lies below the uppermost words of a stack. -/
theorem StackAt.suffix {u : Bool} {top : BitVec 32} {m : μ}
    {vs ws : List (BitVec 32)} (h : StackAt W u m top (vs ++ ws)) :
    StackAt W u m top ws := by
  induction vs with
  | nil => exact h
  | cons v vs ih => exact ih h.2

variable {I : μ → Prop}

/-- A word is pushed. -/
theorem pushWord_stack (hown : Own W I A) {s : State μ} {u : Bool}
    {top : BitVec 32} {cap : Nat} {ws : List (BitVec 32)} (hI : I s.mem)
    (hroom : Room A u top cap) (hlt : ws.length < cap) (hu : s.cpu.user = u)
    (hsp : s.cpu.reg .esp = below top ws.length)
    (hws : StackAt W u s.mem top ws) (v : BitVec 32) :
    ∃ m', pushWord W v s
        = some ⟨s.cpu.set .esp (below top (ws.length + 1)), m'⟩
      ∧ I m' ∧ Kept W A top cap s.mem m' ∧ StackAt W u m' top (v :: ws) := by
  have hcell := hroom.cells ws.length hlt
  obtain ⟨m', hwrite, hI', hread⟩ := hown.write hI hcell v
  refine ⟨m', ?_, hI', ?_, ?_, ?_⟩
  · unfold pushWord
    simp only [hsp, below_succ, hu, hwrite]
    rfl
  · intro u' b hA hb
    rw [hread u' b hA, if_neg (hb ws.length hlt)]
  · rw [hread u _ hcell, if_pos rfl]
  · apply hws.congr
    intro k hk
    have hsmall := hroom.small
    rw [hread u _ (hroom.cells k (by omega)), if_neg]
    intro heq
    have := below_inj top (by omega) (by omega) heq
    omega

/-- Words are pushed, the last one on top. -/
theorem pushWords_stack (hown : Own W I A) {u : Bool} {top : BitVec 32}
    {cap : Nat} (hroom : Room A u top cap) (vs : List (BitVec 32)) :
    ∀ {s : State μ} {ws : List (BitVec 32)}, I s.mem →
      vs.length + ws.length ≤ cap → s.cpu.user = u →
      s.cpu.reg .esp = below top ws.length → StackAt W u s.mem top ws →
      ∃ m', pushWords W vs s
          = some ⟨s.cpu.set .esp (below top (vs.length + ws.length)), m'⟩
        ∧ I m' ∧ Kept W A top cap s.mem m'
        ∧ StackAt W u m' top (vs.reverse ++ ws) := by
  induction vs with
  | nil =>
      intro s ws hI _ _ hsp hws
      refine ⟨s.mem, ?_, hI, Kept.refl _ _ _, hws⟩
      rw [List.length_nil, Nat.zero_add, ← hsp]
      exact congrArg some (State.set_self s .esp).symm
  | cons v vs ih =>
      intro s ws hI hlen hu hsp hws
      rw [List.length_cons] at hlen
      obtain ⟨m₁, hpush, hI₁, hkept₁, hws₁⟩ :=
        pushWord_stack hown hI hroom (by omega) hu hsp hws v
      obtain ⟨m₂, hrest, hI₂, hkept₂, hws₂⟩ :=
        @ih ⟨s.cpu.set .esp (below top (ws.length + 1)), m₁⟩ (v :: ws) hI₁
          (by rw [List.length_cons]; omega) hu (Cpu.reg_set_self _ _ _) hws₁
      refine ⟨m₂, ?_, hI₂, hkept₁.trans hkept₂, ?_⟩
      · unfold pushWords
        rw [hpush]
        refine hrest.trans ?_
        rw [Cpu.set_set, List.length_cons, List.length_cons,
          show vs.length + (ws.length + 1) = vs.length + 1 + ws.length by omega]
      · rw [List.reverse_cons, List.append_assoc]
        exact hws₂

/-- A word is popped. -/
theorem popWord_stack {s : State μ} {u : Bool} {top v : BitVec 32}
    {ws : List (BitVec 32)} (hu : s.cpu.user = u)
    (hsp : s.cpu.reg .esp = below top (ws.length + 1))
    (hws : StackAt W u s.mem top (v :: ws)) :
    popWord W s = some (v, s.set .esp (below top ws.length)) := by
  rw [← below_succ_add]
  refine popWord_read hsp ?_
  rw [hu]
  exact hws.1

/-- Words are popped, the first one from the top. -/
theorem popWords_stack {u : Bool} {top : BitVec 32} (vs : List (BitVec 32)) :
    ∀ {s : State μ} {ws : List (BitVec 32)}, s.cpu.user = u →
      s.cpu.reg .esp = below top (vs.length + ws.length) →
      StackAt W u s.mem top (vs ++ ws) →
      popWords W vs.length s
        = some (vs, s.set .esp (below top ws.length)) := by
  induction vs with
  | nil =>
      intro s ws _ hsp _
      rw [List.length_nil, Nat.zero_add] at hsp
      rw [← hsp, State.set_self]
      rfl
  | cons v vs ih =>
      intro s ws hu hsp hws
      have hlen : (v :: vs).length + ws.length = (vs ++ ws).length + 1 := by
        rw [List.length_cons, List.length_append]
        omega
      have hpop : popWord W s = some (v, s.set .esp
          (below top (vs.length + ws.length))) := by
        rw [← List.length_append]
        exact popWord_stack hu (hsp.trans (congrArg (below top) hlen)) hws
      have hrest := @ih (s.set .esp (below top (vs.length + ws.length))) ws hu
        (Cpu.reg_set_self _ _ _) hws.2
      rw [State.set_set] at hrest
      rw [List.length_cons, popWords, hpop]
      simp only [Option.bind_eq_bind, Option.bind_some]
      rw [hrest]
      rfl

/-- `pushad` puts eight words on. -/
theorem pushad_stack (hown : Own W I A) {s : State μ} {u : Bool}
    {top : BitVec 32} {cap : Nat} {ws : List (BitVec 32)} (hI : I s.mem)
    (hroom : Room A u top cap) (hlen : 8 + ws.length ≤ cap)
    (hu : s.cpu.user = u) (hsp : s.cpu.reg .esp = below top ws.length)
    (hws : StackAt W u s.mem top ws) :
    ∃ m', plain W s .pushad
        = some ⟨s.cpu.set .esp (below top (8 + ws.length)), m'⟩
      ∧ I m' ∧ Kept W A top cap s.mem m'
      ∧ StackAt W u m' top
        (s.cpu.reg .edi :: s.cpu.reg .esi :: s.cpu.reg .ebp
          :: s.cpu.reg .esp :: s.cpu.reg .ebx :: s.cpu.reg .edx
          :: s.cpu.reg .ecx :: s.cpu.reg .eax :: ws) :=
  pushWords_stack hown hroom
    [s.cpu.reg .eax, s.cpu.reg .ecx, s.cpu.reg .edx, s.cpu.reg .ebx,
      s.cpu.reg .esp, s.cpu.reg .ebp, s.cpu.reg .esi, s.cpu.reg .edi]
    hI hlen hu hsp hws

/-- `popad` takes eight words off. -/
theorem popad_stack {s : State μ} {u : Bool} {top : BitVec 32}
    {ws : List (BitVec 32)} {edi esi ebp esp ebx edx ecx eax : BitVec 32}
    (hu : s.cpu.user = u)
    (hsp : s.cpu.reg .esp = below top (8 + ws.length))
    (hws : StackAt W u s.mem top
      (edi :: esi :: ebp :: esp :: ebx :: edx :: ecx :: eax :: ws)) :
    popad W s = some ((((((((s.set .esp (below top ws.length)).set .edi
      edi).set .esi esi).set .ebp ebp).set .ebx ebx).set .edx edx).set .ecx
      ecx).set .eax eax) := by
  have hpop : popWords W 8 s = some ([edi, esi, ebp, esp, ebx, edx, ecx, eax],
      s.set .esp (below top ws.length)) :=
    popWords_stack [edi, esi, ebp, esp, ebx, edx, ecx, eax] hu hsp hws
  unfold popad
  rw [hpop]

end Stacks

-- ============================================================ in and out

section Transfer

variable {E : Env μ} {A : Bool → BitVec 32 → Prop} {I : μ → Prop}

/-- An interrupt of a program leaves its state on the kernel stack. -/
theorem interrupt_stack (hown : Own E.words I A) {s : State μ} {g : Gate}
    {cap : Nat} (hI : I s.mem) (hroom : Room A false E.esp0 cap)
    (hcap : 5 ≤ cap) (hu : s.cpu.user = true)
    (hsel : (g.selector &&& 3#16 == 3#16) = false) :
    ∃ m, interrupt E g s = some ⟨⟨
        Function.update s.cpu.reg .esp (below E.esp0 5),
        Function.update (Function.update s.cpu.seg .ss E.ss0) .cs g.selector,
        g.offset, gateFlags s.cpu.flags⟩, m⟩
      ∧ I m ∧ Kept E.words A E.esp0 cap s.mem m
      ∧ StackAt E.words false m E.esp0
        [s.cpu.eip, (s.cpu.seg .cs).setWidth 32, s.cpu.flags,
          s.cpu.reg .esp, (s.cpu.seg .ss).setWidth 32] := by
  have hsp : (Function.update s.cpu.reg .esp E.esp0) .esp
      = below E.esp0 0 := by
    rw [below_zero]
    exact Function.update_self _ _ _
  have huser : (((s.cpu.set .esp E.esp0).setSeg .ss E.ss0).setSeg .cs
      g.selector).user = false := by
    unfold Cpu.user
    rw [Cpu.seg_setSeg_self]
    exact hsel
  obtain ⟨m, hpush, hI', hkept, hws⟩ := @pushWords_stack μ E.words A I hown
    false E.esp0 cap hroom
    [(s.cpu.seg .ss).setWidth 32, s.cpu.reg .esp, s.cpu.flags,
      (s.cpu.seg .cs).setWidth 32, s.cpu.eip]
    ⟨((s.cpu.set .esp E.esp0).setSeg .ss E.ss0).setSeg .cs g.selector, s.mem⟩
    [] hI hcap huser hsp trivial
  refine ⟨m, ?_, hI', hkept, hws⟩
  unfold interrupt
  simp only [hu, if_true, hpush]
  simp only [Cpu.set, Cpu.setSeg, Function.update_idem, Option.bind_eq_bind,
    Option.bind_some]
  rfl

/-- `iretd` takes it back. -/
theorem iretd_stack {W : WordMem μ} {s : State μ} {top : BitVec 32}
    {eip cs flags esp ss : BitVec 32} {ws : List (BitVec 32)}
    (hu : s.cpu.user = false) (hring : cs.setWidth 16 &&& 3#16 = 3#16)
    (hsp : s.cpu.reg .esp = below top (5 + ws.length))
    (hws : StackAt W false s.mem top (eip :: cs :: flags :: esp :: ss :: ws)) :
    iretd W s = some ⟨⟨
        Function.update s.cpu.reg .esp esp,
        Function.update (Function.update s.cpu.seg .cs (cs.setWidth 16)) .ss
          (ss.setWidth 16),
        eip, flags⟩, s.mem⟩ := by
  have hlen : ([eip, cs, flags].length + (esp :: ss :: ws).length)
      = 5 + ws.length := by
    simp only [List.length_cons, List.length_nil]
    omega
  have hfirst : popWords W 3 s = some ([eip, cs, flags],
      s.set .esp (below top (esp :: ss :: ws).length)) :=
    @popWords_stack μ W false top [eip, cs, flags] s (esp :: ss :: ws) hu
      (by rw [hlen]; exact hsp) hws
  have hrest : popWords W 2 (s.set .esp (below top (esp :: ss :: ws).length))
      = some ([esp, ss], (s.set .esp (below top
        (esp :: ss :: ws).length)).set .esp (below top ws.length)) :=
    @popWords_stack μ W false top [esp, ss]
      (s.set .esp (below top (esp :: ss :: ws).length)) ws hu
      (by
        rw [State.set_reg, Function.update_self]
        simp only [List.length_cons, List.length_nil]
        exact congrArg (below top) (by omega)) hws.2.2.2
  unfold iretd
  rw [hu, hfirst]
  simp only [Bool.false_eq_true, if_false, hring, if_true, hrest]
  simp only [State.set, Cpu.set, Cpu.setSeg, Function.update_idem]

/-- A C function of two words is called and comes back, where it keeps its
return address. -/
theorem callTo_cdecl2 (hown : Own E.words I A) {s : State μ} {u : Bool}
    {top f a b : BitVec 32} {cap : Nat} {ws : List (BitVec 32)}
    {scratch : State μ → Scratch} {ds : BitVec 16}
    {g : BitVec 32 → BitVec 32 → μ → Option (Ended μ)}
    {Q : μ → BitVec 32 → μ → Prop} (hI : I s.mem) (hroom : Room A u top cap)
    (hcap : 3 + ws.length ≤ cap) (hu : s.cpu.user = u)
    (hsp : s.cpu.reg .esp = below top (2 + ws.length))
    (hws : StackAt E.words u s.mem top (a :: b :: ws))
    (hext : E.foreign f = some (cdecl2 E.words scratch ds g))
    (hg : ∀ m, I m → Kept E.words A top cap s.mem m →
      StackAt E.words u m top (s.cpu.eip :: a :: b :: ws) →
      ∃ res m', g a b m = some (.back res m') ∧ Q m res m'
        ∧ E.words.read u m' (below top (ws.length + 3)) = some s.cpu.eip) :
    ∃ m res m' ecx edx flags, Kept E.words A top cap s.mem m ∧ Q m res m'
      ∧ g a b m = some (.back res m')
      ∧ callTo E f s = some ⟨⟨Function.update (Function.update
          (Function.update s.cpu.reg .ecx ecx) .edx edx) .eax res,
        dataSegs s.cpu.seg ds, s.cpu.eip, flags⟩, m'⟩ := by
  have hsp' : s.cpu.reg .esp = below top (a :: b :: ws).length := by
    rw [hsp, List.length_cons, List.length_cons, Nat.add_comm 2]
  obtain ⟨m, hpush, hI', hkept, hholds⟩ := pushWord_stack hown hI hroom
    (by rw [List.length_cons, List.length_cons]; omega) hu hsp' hws s.cpu.eip
  obtain ⟨res, m', hres, hQ, hret⟩ := hg m hI' hkept hholds
  have hlen : (a :: b :: ws).length + 1 = ws.length + 3 := rfl
  rw [hlen] at hpush
  have ha : E.words.read u m (below top (ws.length + 3) + 4#32) = some a := by
    rw [below_succ_add]
    exact hholds.2.1
  have hb : E.words.read u m (below top (ws.length + 3) + 8#32) = some b := by
    rw [show (8#32 : BitVec 32) = 4#32 + 4#32 from rfl, ← add_assoc,
      below_succ_add, below_succ_add]
    exact hholds.2.2.1
  obtain ⟨t, hscratch⟩ : ∃ t, t = scratch
      ⟨s.cpu.set .esp (below top (ws.length + 3)), m⟩ := ⟨_, rfl⟩
  refine ⟨m, res, m', t.reg .ecx, t.reg .edx, t.flags, hkept, hQ, hres, ?_⟩
  unfold callTo
  rw [hpush]
  simp only [Option.bind_eq_bind, Option.bind_some, hext]
  unfold cdecl2 popWord
  simp only [Cpu.reg_set_self, Cpu.user_set, hu, ha, hb, hres, hret,
    ← hscratch, Option.bind_eq_bind, Option.bind_some]
  simp only [State.set, Cpu.set, Function.update_idem, below_succ_add]
  have hback : Function.update s.cpu.reg .esp (below top (ws.length + 2))
      = s.cpu.reg := by
    rw [Nat.add_comm, ← hsp, Function.update_eq_self]
  rw [hback]

end Transfer

-- ========================================================= part of a state

/-- The words of a part of the state. The rest of it says how they are
found. -/
def WordMem.over {ν : Type} (W : ν → WordMem μ) (get : ν → μ)
    (set : ν → μ → ν) : WordMem ν where
  read u s a := (W s).read u (get s) a
  write u s a v := ((W s).write u (get s) a v).map (set s)

/-- They are kept as in the part, where `J` of the state says how they are
found, and is kept itself. -/
theorem Own.over {ν : Type} {W : WordMem μ} {I : μ → Prop}
    {A : Bool → BitVec 32 → Prop} (hown : Own W I A) {get : ν → μ}
    {set : ν → μ → ν} (hget : ∀ s m, get (set s m) = m) {V : ν → WordMem μ}
    {J : ν → Prop} (hV : ∀ s, J s → V s = W)
    (hJ : ∀ s u a v m, I (get s) → J s → A u a →
      W.write u (get s) a v = some m → J (set s m)) :
    Own (WordMem.over V get set) (fun s => I (get s) ∧ J s) A where
  write := by
    rintro u a s ⟨hI, hs⟩ hA v
    obtain ⟨m, hwrite, hI', hread⟩ := hown.write hI hA v
    have hs' := hJ s u a v m hI hs hA hwrite
    refine ⟨set s m, ?_, ⟨?_, hs'⟩, ?_⟩
    · show ((V s).write u (get s) a v).map (set s) = _
      rw [hV s hs, hwrite]
      rfl
    · rw [hget]
      exact hI'
    · intro u' b hb
      show (V (set s m)).read u' (get (set s m)) b
        = if b = a then some v else (V s).read u' (get s) b
      rw [hV _ hs', hV s hs, hget]
      exact hread u' b hb

-- ============================================================ plain machines

/-- A memory of words that do not overlap and that are free to all. -/
def flatWords : WordMem (BitVec 32 → BitVec 32) where
  read _ m a := some (m a)
  write _ m a v := some (Function.update m a v)

/-- All of it may be used. -/
theorem flatWords_own : Own flatWords (fun _ => True) fun _ _ => True where
  write := by
    intro u a m _ _ v
    refine ⟨Function.update m a v, rfl, trivial, ?_⟩
    intro u' b _
    by_cases h : b = a
    · subst h
      rw [if_pos rfl]
      exact congrArg some (Function.update_self b v m)
    · rw [if_neg h]
      exact congrArg some (Function.update_of_ne h v m)

/-- Code in pieces of 32 instructions, one address apart. -/
def listing (f : Nat → List Instr) (a : BitVec 32) :
    Option (Instr × BitVec 32) :=
  ((f (a.toNat / 32))[a.toNat % 32]?).map fun i => (i, a + 1#32)

/-- A piece is loaded from its first address on. -/
theorem codeAt_listing {f : Nat → List Instr} {n : Nat} (hn : n < 2 ^ 27)
    (hlen : (f n).length ≤ 32) :
    CodeAt (listing f) (BitVec.ofNat 32 (32 * n)) (f n)
      (BitVec.ofNat 32 (32 * n + (f n).length)) := by
  -- by induction on what is left of the piece
  have hrest : ∀ js is : List Instr, is ++ js = f n →
      CodeAt (listing f) (BitVec.ofNat 32 (32 * n + is.length)) js
        (BitVec.ofNat 32 (32 * n + (f n).length)) := by
    intro js
    induction js with
    | nil =>
        intro is his
        rw [List.append_nil] at his
        rw [his]
        rfl
    | cons j js ih =>
        intro is his
        have hle : is.length + (js.length + 1) = (f n).length := by
          rw [← his, List.length_append, List.length_cons]
        have hnat : (BitVec.ofNat 32 (32 * n + is.length)).toNat
            = 32 * n + is.length := by
          rw [BitVec.toNat_ofNat]
          exact Nat.mod_eq_of_lt (by omega)
        have hdiv : (32 * n + is.length) / 32 = n := by omega
        have hmod : (32 * n + is.length) % 32 = is.length := by omega
        refine ⟨BitVec.ofNat 32 (32 * n + is.length) + 1#32, ?_, ?_⟩
        · unfold listing
          rw [hnat, hdiv, hmod, ← his, List.getElem?_append_right le_rfl,
            Nat.sub_self]
          rfl
        · have hnext := ih (is ++ [j]) (by rw [List.append_assoc]; exact his)
          rw [List.length_append, List.length_singleton, ← Nat.add_assoc,
            BitVec.ofNat_add] at hnext
          exact hnext
  exact hrest (f n) [] rfl

end BenOS.Lib.X86
