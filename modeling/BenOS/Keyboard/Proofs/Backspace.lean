/-
The keyboard buffer with backspaces.

`EditRun` keeps beside the state what should be waiting for each process,
as the calls alone tell: a push puts a character behind the others, a pop
takes the first and a backspace the last, and where there is none they
take nothing.

`keyboard_backspace` moves the tail without a look at the head. So the
buffer holds what should be waiting over exactly those runs in which
every backspace comes while something is (`keyboard_backspace_exact`).
-/
import BenOS.Keyboard.Proofs.Queue

namespace BenOS.Keyboard

open Lib

-- ============================================================== the system

/-- The state, and for each process the characters that should be
waiting. -/
structure EditRun where
  sys : KeyboardSys
  waiting : Addr → List UInt8

/-- One call, or a switch of the foreground process and the current
task. -/
inductive EditOp
  | push (c : UInt8)
  | pop
  | backspace (proc : Addr)
  | switch (currProcess taskProcess : Option Addr)

/-- What one operation makes of the state, and of what should be
waiting. -/
def editNext (s : EditRun) : EditOp → EditRun
  | .push c =>
      { sys := keyboardPush c s.sys
        waiting := match s.sys.currProcess with
          | some p => if c = 0 then s.waiting else logged s.waiting p c
          | none => s.waiting }
  | .pop =>
      { sys := (keyboardPop s.sys).2
        waiting := match s.sys.taskProcess with
          | some p => Function.update s.waiting p (s.waiting p).tail
          | none => s.waiting }
  | .backspace proc =>
      { sys := { s.sys with
          keyboard := Function.update s.sys.keyboard proc
            (keyboardBackspace (s.sys.keyboard proc)) }
        waiting := Function.update s.waiting proc
          (s.waiting proc).dropLast }
  | .switch currProcess taskProcess =>
      { s with
        sys := { s.sys with
          currProcess := currProcess, taskProcess := taskProcess } }

/-- No operation is refused. -/
def editStep (s : EditRun) (op : EditOp) : Option EditRun :=
  some (editNext s op)

/-- Nothing is waiting. -/
def editStart (sys : KeyboardSys) : EditRun where
  sys := sys
  waiting := fun _ => []

-- ======================================================= what is required

/-- No more characters are waiting than the buffer holds. -/
def Fits (p : Addr) (_ : EditRun) (_ : EditOp) (s' : EditRun) : Prop :=
  (s'.waiting p).length ≤ benosKeyboardBufferSize

instance (p : Addr) (s : EditRun) (op : EditOp) (s' : EditRun) :
    Decidable (Fits p s op s') := inferInstanceAs (Decidable (_ ≤ _))

/-- The buffer holds what should be waiting, a pop delivers the first of
it, and a backspace where nothing is waiting changes nothing. -/
structure Edited (p : Addr) (s : EditRun) (op : EditOp) (s' : EditRun) :
    Prop where
  holds : Holds (s'.sys.keyboard p) (s'.waiting p)
  pop : op = .pop → s.sys.taskProcess = some p →
    (keyboardPop s.sys).1 = (s.waiting p).headD 0
  backspace : op = .backspace p → s.waiting p = [] →
    s'.sys.keyboard p = s.sys.keyboard p

/-- A backspace comes while something is waiting. -/
def HasWaiting (p : Addr) (s : EditRun) (op : EditOp) (_ : EditRun) : Prop :=
  op = .backspace p → s.waiting p ≠ []

-- ================================================================== the steps

/-- A backspace takes the last character back. -/
theorem Holds.backspace {kb : KeyboardBuffer} {q : List UInt8} {c : UInt8}
    (h : Holds kb (q ++ [c])) : Holds (keyboardBackspace kb) q := by
  have htail : kb.tail - 1#32 = kb.head + BitVec.ofNat 32 q.length := by
    have hlast := h.tail
    rw [List.length_append, List.length_singleton, BitVec.ofNat_add,
      ← BitVec.add_assoc] at hlast
    rw [hlast, BitVec.add_sub_cancel]
  have hindex : counterIndex (kb.tail - 1#32)
      = ringAt benosKeyboardBufferSize (kb.head.toNat + q.length) := by
    unfold counterIndex
    rw [ringAt_eq_iff, htail, BitVec.toNat_add, BitVec.toNat_ofNat]
    simp only [benosKeyboardBufferSize]
    omega
  refine ⟨?_, htail, fun b hb => h.nonzero b (List.mem_append_left _ hb)⟩
  show Ring (Function.update kb.buffer (counterIndex (kb.tail - 1#32)) 0) 0
    kb.head.toNat q
  rw [hindex]
  exact h.ring.unpush

/-- A backspace always moves the tail. -/
theorem keyboardBackspace_ne (kb : KeyboardBuffer) :
    keyboardBackspace kb ≠ kb := by
  intro h
  have htail : kb.tail - 1#32 = kb.tail := congrArg KeyboardBuffer.tail h
  bv_omega

/-- A push, where the buffer holds what should be waiting. -/
theorem holds_push {p : Addr} {s : EditRun} {c : UInt8}
    (h : Holds (s.sys.keyboard p) (s.waiting p))
    (hfits : Fits p s (.push c) (editNext s (.push c))) :
    Holds ((editNext s (.push c)).sys.keyboard p)
      ((editNext s (.push c)).waiting p) := by
  unfold Fits at hfits
  cases hr : s.sys.currProcess with
  | none =>
      simp only [editNext, keyboardPush, hr]
      exact h
  | some r =>
      by_cases hc : c = 0
      · simp only [editNext, keyboardPush, hr, if_pos hc]
        exact h
      · simp only [editNext, keyboardPush_some hr hc, hr, if_neg hc,
          logged] at hfits ⊢
        by_cases hp : p = r
        · subst hp
          rw [Function.update_self, List.length_append,
            List.length_singleton] at hfits
          rw [Function.update_self, Function.update_self]
          exact h.push (by omega) hc
        · rw [Function.update_of_ne hp, Function.update_of_ne hp]
          exact h

/-- A pop delivers the first character that is waiting, and leaves the
others. -/
theorem holds_pop {p : Addr} {s : EditRun}
    (h : Holds (s.sys.keyboard p) (s.waiting p)) :
    Holds ((editNext s .pop).sys.keyboard p) ((editNext s .pop).waiting p)
      ∧ (s.sys.taskProcess = some p →
        (keyboardPop s.sys).1 = (s.waiting p).headD 0) := by
  cases hr : s.sys.taskProcess with
  | none =>
      simp only [editNext, keyboardPop, hr]
      exact ⟨h, nofun⟩
  | some r =>
      by_cases hp : p = r
      · subst hp
        cases hq : s.waiting p with
        | nil =>
            rw [hq] at h
            simp only [editNext, keyboardPop_nil hr h, hr, hq, List.tail_nil,
              Function.update_self]
            exact ⟨h, fun _ => rfl⟩
        | cons c q =>
            rw [hq] at h
            have hc := h.nonzero c List.mem_cons_self
            simp only [editNext, keyboardPop_cons hr hc h.ring, hr, hq,
              List.tail_cons, Function.update_self]
            exact ⟨h.pop, fun _ => rfl⟩
      · refine ⟨?_, fun heq => absurd (Option.some.inj heq).symm hp⟩
        simp only [editNext, keyboardPop, hr]
        rw [Function.update_of_ne hp]
        split
        · exact h
        · simp only
          rw [Function.update_of_ne hp]
          exact h

/-- A backspace while something is waiting. -/
theorem holds_backspace {p r : Addr} {s : EditRun}
    (h : Holds (s.sys.keyboard p) (s.waiting p))
    (hwaiting : r = p → s.waiting p ≠ []) :
    Holds ((editNext s (.backspace r)).sys.keyboard p)
      ((editNext s (.backspace r)).waiting p) := by
  simp only [editNext]
  by_cases hp : p = r
  · subst hp
    rw [Function.update_self, Function.update_self]
    rw [← List.dropLast_append_getLast (hwaiting rfl)] at h
    exact h.backspace
  · rw [Function.update_of_ne hp, Function.update_of_ne hp]
    exact h

/-- One step: the buffer goes on as it should exactly where a backspace
comes while something is waiting. -/
theorem edited_iff {p : Addr} {s : EditRun} {op : EditOp}
    (h : Holds (s.sys.keyboard p) (s.waiting p))
    (hfits : Fits p s op (editNext s op)) :
    Edited p s op (editNext s op) ↔ HasWaiting p s op (editNext s op) := by
  unfold HasWaiting
  cases op with
  | push c => exact iff_of_true ⟨holds_push h hfits, nofun, nofun⟩ nofun
  | pop =>
      obtain ⟨hholds, hpop⟩ := holds_pop h
      exact iff_of_true ⟨hholds, fun _ => hpop, nofun⟩ nofun
  | switch currProcess taskProcess =>
      exact iff_of_true ⟨h, nofun, nofun⟩ nofun
  | backspace r =>
      constructor
      · intro hedited hr hnil
        have hsame := hedited.backspace hr hnil
        obtain rfl := EditOp.backspace.inj hr
        simp only [editNext, Function.update_self] at hsame
        exact keyboardBackspace_ne _ hsame
      · intro hwaiting
        refine ⟨?_, nofun, fun hr hnil => absurd hnil (hwaiting hr)⟩
        exact holds_backspace h fun hr => hwaiting (congrArg _ hr)

-- =================================================================== the runs

theorem holds_editStart {sys : KeyboardSys} {p : Addr}
    (h : Fresh (sys.keyboard p)) :
    Holds ((editStart sys).sys.keyboard p) ((editStart sys).waiting p) :=
  (queued_start h).holds

/-- The buffer of a process holds what should be waiting over exactly the
runs in which every backspace comes while something is, as long as no
more should be waiting than the buffer holds. -/
theorem keyboard_backspace_exact {sys : KeyboardSys} {p : Addr}
    (hfresh : Fresh (sys.keyboard p)) {ops : List EditOp}
    (hfits : Along editStep (Fits p) (editStart sys) ops) :
    Along editStep (Edited p) (editStart sys) ops
      ↔ Along editStep (HasWaiting p) (editStart sys) ops := by
  refine along_iff_of_inv
    (I := fun s => Holds (s.sys.keyboard p) (s.waiting p)) ?_ ?_
    (holds_editStart hfresh) hfits
  · intro s op s' h hstep hfits hwaiting
    obtain rfl := Option.some.inj hstep
    exact ((edited_iff h hfits).mpr hwaiting).holds
  · intro s op s' h hstep hfits
    obtain rfl := Option.some.inj hstep
    exact edited_iff h hfits

/-- Two characters, one of them taken back, and a third. -/
theorem keyboard_backspace_exact_three :
    Along editStep (Edited 0x1000#32) (editStart aboutToWrap)
      [.push 1, .push 2, .backspace 0x1000#32, .push 3, .pop, .pop] := by
  refine (keyboard_backspace_exact fresh_aboutToWrap (by decide)).mpr ?_
  refine ⟨nofun, nofun, fun _ => ?_, nofun, nofun, nofun, trivial⟩
  exact List.cons_ne_nil 1 [2]

/-- It is not so over every run: a backspace where nothing is waiting
moves the tail. -/
theorem keyboard_backspace_moves_tail :
    ¬ ∀ (sys : KeyboardSys) (p : Addr), Fresh (sys.keyboard p) →
        ∀ ops : List EditOp,
          Along editStep (Fits p) (editStart sys) ops →
          Along editStep (Edited p) (editStart sys) ops := by
  intro h
  obtain ⟨hedited, -⟩ := h aboutToWrap 0x1000#32 fresh_aboutToWrap
    [.backspace 0x1000#32] (by decide)
  exact keyboardBackspace_ne _ (hedited.backspace rfl rfl)

end BenOS.Keyboard
