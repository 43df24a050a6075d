/-
The keyboard buffer of a process as a queue, over runs of pushes and pops
with any switching of processes between them.

`KeyboardRun` keeps beside the state what was pushed to each process,
what its pops delivered, and how much of both there was whenever a pop
found nothing. While no character is pushed into a full buffer
(`HasRoom`), the buffer holds what is pushed and not popped, in order
(`Queued`): one step of the ring (`Ring.push`, `Ring.pop`) for each call.
Nothing else is asked of the counters, which may wrap.

A character pushed into a full buffer replaces the first one
(`Ring.overflow`), and is delivered in its place, before those that were
pushed earlier (`keyboard_overflow_reorders`).
-/
import BenOS.Keyboard.Keyboard
import BenOS.Lib.Run

namespace BenOS.Keyboard

open Lib

-- ============================================================== the system

/-- The state, and for each process the characters pushed, those
delivered, and how many there were of both at each pop that found
nothing. -/
structure KeyboardRun where
  sys : KeyboardSys
  pushed : Addr → List UInt8
  popped : Addr → List UInt8
  emptied : Addr → List (Nat × Nat)

/-- One call, or a switch of the foreground process and the current
task. -/
inductive KeyboardOp
  | push (c : UInt8)
  | pop
  | switch (currProcess taskProcess : Option Addr)

/-- A list kept for each process, longer by one for one of them. -/
def logged {β : Type} (log : Addr → List β) (p : Addr) (b : β) :
    Addr → List β :=
  Function.update log p (log p ++ [b])

/-- What one operation makes of the state, and what is kept of it. -/
def keyboardNext (s : KeyboardRun) : KeyboardOp → KeyboardRun
  | .push c =>
      { s with
        sys := keyboardPush c s.sys
        pushed := match s.sys.currProcess with
          | some p => if c = 0 then s.pushed else logged s.pushed p c
          | none => s.pushed }
  | .pop =>
      let r := keyboardPop s.sys
      match s.sys.taskProcess with
      | none => { s with sys := r.2 }
      | some p =>
          if r.1 = 0 then
            { s with
              sys := r.2
              emptied := logged s.emptied p
                ((s.pushed p).length, (s.popped p).length) }
          else { s with sys := r.2, popped := logged s.popped p r.1 }
  | .switch currProcess taskProcess =>
      { s with
        sys := { s.sys with
          currProcess := currProcess, taskProcess := taskProcess } }

/-- No operation is refused. -/
def keyboardStep (s : KeyboardRun) (op : KeyboardOp) : Option KeyboardRun :=
  some (keyboardNext s op)

/-- Nothing was pushed or popped yet. -/
def keyboardStart (sys : KeyboardSys) : KeyboardRun where
  sys := sys
  pushed := fun _ => []
  popped := fun _ => []
  emptied := fun _ => []

/-- The buffer as `process_init` leaves it, up to the value its counters
start from. -/
structure Fresh (kb : KeyboardBuffer) : Prop where
  counters : kb.tail = kb.head
  empty : ∀ i, kb.buffer i = 0

-- ======================================================= what is required

/-- How many characters are pushed and not popped. -/
def outstanding (p : Addr) (s : KeyboardRun) : Nat :=
  (s.pushed p).length - (s.popped p).length

/-- No more characters are outstanding than the buffer holds. -/
def Within (p : Addr) (_ : KeyboardRun) (_ : KeyboardOp) (s' : KeyboardRun) :
    Prop :=
  outstanding p s' ≤ benosKeyboardBufferSize

/-- A character that is pushed finds room in the buffer. -/
def HasRoom (p : Addr) (s : KeyboardRun) (op : KeyboardOp)
    (_ : KeyboardRun) : Prop :=
  match op with
  | .push c => s.sys.currProcess = some p → c ≠ 0 →
      outstanding p s < benosKeyboardBufferSize
  | _ => True

/-- What the pops delivered is a prefix of what was pushed, and a pop
finds nothing exactly when nothing is outstanding. -/
def Fifo (p : Addr) (s : KeyboardRun) (op : KeyboardOp) (s' : KeyboardRun) :
    Prop :=
  s'.popped p <+: s'.pushed p ∧
    match op with
    | .pop => s.sys.taskProcess = some p →
        ((keyboardPop s.sys).1 = 0 ↔ outstanding p s = 0)
    | _ => True

/-- What the pops delivered comes in the order it was pushed, and what is
delivered next behind a pop that found nothing is what was pushed next
behind it. -/
def InOrder (p : Addr) (_ : KeyboardRun) (_ : KeyboardOp) (s' : KeyboardRun) :
    Prop :=
  (s'.popped p).Sublist (s'.pushed p)
    ∧ ∀ mark ∈ s'.emptied p, ∀ c, (s'.popped p)[mark.2]? = some c →
        (s'.pushed p)[mark.1]? = some c

-- ============================================================ the invariant

/-- The buffer holds the queue `q`: its first character at the head, and
the tail behind its last. -/
structure Holds (kb : KeyboardBuffer) (q : List UInt8) : Prop where
  ring : Ring kb.buffer 0 kb.head.toNat q
  tail : kb.tail = kb.head + BitVec.ofNat 32 q.length
  nonzero : ∀ c ∈ q, c ≠ 0

/-- The buffer of a process holds what is pushed and not popped, and
whenever a pop found nothing, nothing was outstanding. -/
structure Queued (p : Addr) (s : KeyboardRun) (q : List UInt8) : Prop where
  holds : Holds (s.sys.keyboard p) q
  log : s.pushed p = s.popped p ++ q
  emptied : ∀ mark ∈ s.emptied p, mark.1 = mark.2

theorem queued_start {sys : KeyboardSys} {p : Addr}
    (h : Fresh (sys.keyboard p)) : Queued p (keyboardStart sys) [] := by
  refine ⟨⟨⟨Nat.zero_le _, ?_, ?_⟩, ?_, ?_⟩, rfl, ?_⟩
  · intro i hi
    exact absurd hi (Nat.not_lt_zero i)
  · intro i _ _
    exact h.empty _
  · show (sys.keyboard p).tail = (sys.keyboard p).head + 0#32
    rw [BitVec.add_zero]
    exact h.counters
  · intro c hc
    exact absurd hc List.not_mem_nil
  · intro mark hmark
    exact absurd hmark List.not_mem_nil

theorem Queued.outstanding_eq {p : Addr} {s : KeyboardRun} {q : List UInt8}
    (h : Queued p s q) : outstanding p s = q.length := by
  unfold outstanding
  rw [h.log, List.length_append]
  omega

/-- The index of the tail is the place behind the queue. -/
theorem Holds.tailIndex {kb : KeyboardBuffer} {q : List UInt8}
    (h : Holds kb q) : keyboardGetTailIndex kb
      = ringAt benosKeyboardBufferSize (kb.head.toNat + q.length) := by
  unfold keyboardGetTailIndex counterIndex
  rw [ringAt_eq_iff, h.tail, BitVec.toNat_add, BitVec.toNat_ofNat]
  simp only [benosKeyboardBufferSize]
  omega

-- ================================================================= the buffer

/-- A push into a buffer with room. -/
theorem Holds.push {kb : KeyboardBuffer} {q : List UInt8} (h : Holds kb q)
    (hroom : q.length < benosKeyboardBufferSize) {c : UInt8} (hc : c ≠ 0) :
    Holds
      { kb with
        buffer := Function.update kb.buffer (keyboardGetTailIndex kb) c
        tail := kb.tail + 1#32 } (q ++ [c]) := by
  refine ⟨?_, ?_, ?_⟩
  · rw [h.tailIndex]
    exact h.ring.push hroom c
  · show kb.tail + 1#32 = kb.head + BitVec.ofNat 32 (q ++ [c]).length
    rw [h.tail, List.length_append, List.length_singleton, BitVec.ofNat_add,
      BitVec.add_assoc]
  · intro b hb
    rcases List.mem_append.mp hb with hb | hb
    · exact h.nonzero b hb
    · rw [List.mem_singleton.mp hb]
      exact hc

/-- A pop from a buffer that holds something. -/
theorem Holds.pop {kb : KeyboardBuffer} {c : UInt8} {q : List UInt8}
    (h : Holds kb (c :: q)) :
    Holds
      { kb with
        buffer := Function.update kb.buffer (counterIndex kb.head) 0x00
        head := kb.head + 1#32 } q := by
  refine ⟨?_, ?_, fun b hb => h.nonzero b (List.mem_cons_of_mem _ hb)⟩
  · refine h.ring.pop.round ?_
    show (kb.head + 1#32).toNat % _ = (kb.head.toNat + 1) % _
    rw [BitVec.toNat_add]
    simp only [benosKeyboardBufferSize, BitVec.toNat_ofNat]
    omega
  · show kb.tail = kb.head + 1#32 + BitVec.ofNat 32 q.length
    rw [h.tail, List.length_cons, BitVec.ofNat_add, BitVec.add_assoc,
      BitVec.add_comm 1#32]

/-- A push into a full buffer takes the place of the first character. -/
theorem Holds.overflow {kb : KeyboardBuffer} {c : UInt8} {q : List UInt8}
    (h : Holds kb (c :: q))
    (hfull : (c :: q).length = benosKeyboardBufferSize) (b : UInt8) :
    Ring (Function.update kb.buffer (keyboardGetTailIndex kb) b) 0
      kb.head.toNat (b :: q) := by
  rw [h.tailIndex]
  exact h.ring.overflow hfull b

-- ================================================================== the calls

/-- A pop where nothing is queued. -/
theorem keyboardPop_nil {s : KeyboardSys} {p : Addr}
    (hp : s.taskProcess = some p) (h : Holds (s.keyboard p) []) :
    keyboardPop s = (0, s) := by
  have hnone : (s.keyboard p).buffer (counterIndex (s.keyboard p).head) = 0 :=
    h.ring.none
  unfold keyboardPop
  rw [hp]
  simp only
  rw [if_pos hnone]

/-- A pop takes what the head holds. -/
theorem keyboardPop_cons {s : KeyboardSys} {p : Addr} {c : UInt8}
    {q : List UInt8} (hp : s.taskProcess = some p) (hc : c ≠ 0)
    (h : Ring (s.keyboard p).buffer 0 (s.keyboard p).head.toNat (c :: q)) :
    keyboardPop s = (c,
      { s with
        keyboard := Function.update s.keyboard p
          { s.keyboard p with
            buffer := Function.update (s.keyboard p).buffer
              (counterIndex (s.keyboard p).head) 0x00
            head := (s.keyboard p).head + 1#32 } }) := by
  have hfirst : (s.keyboard p).buffer (counterIndex (s.keyboard p).head) = c :=
    h.first
  unfold keyboardPop
  rw [hp]
  simp only
  rw [hfirst, if_neg hc]

/-- A push of a character to the foreground process. -/
theorem keyboardPush_some {s : KeyboardSys} {p : Addr} {c : UInt8}
    (hp : s.currProcess = some p) (hc : c ≠ 0) :
    keyboardPush c s =
      { s with
        keyboard := Function.update s.keyboard p
          { s.keyboard p with
            buffer := Function.update (s.keyboard p).buffer
              (keyboardGetTailIndex (s.keyboard p)) c
            tail := (s.keyboard p).tail + 1#32 } } := by
  unfold keyboardPush
  rw [hp]
  simp only
  rw [if_neg hc]

/-- What is kept for the process `p`, and its buffer. -/
structure SameFor (p : Addr) (s s' : KeyboardRun) : Prop where
  keyboard : s'.sys.keyboard p = s.sys.keyboard p
  pushed : s'.pushed p = s.pushed p
  popped : s'.popped p = s.popped p
  emptied : s'.emptied p = s.emptied p

theorem Queued.same {p : Addr} {s s' : KeyboardRun} {q : List UInt8}
    (h : Queued p s q) (hsame : SameFor p s s') : Queued p s' q := by
  obtain ⟨hholds, hlog, hemptied⟩ := h
  rw [← hsame.keyboard] at hholds
  rw [← hsame.pushed, ← hsame.popped] at hlog
  rw [← hsame.emptied] at hemptied
  exact ⟨hholds, hlog, hemptied⟩

/-- What an operation does for a process: nothing, or a character is
pushed, or a pop finds nothing, or it takes what the head holds. -/
theorem keyboardNext_cases (p : Addr) (s : KeyboardRun) (op : KeyboardOp) :
    SameFor p s (keyboardNext s op)
      ∨ (∃ c, op = .push c ∧ s.sys.currProcess = some p ∧ c ≠ 0)
      ∨ (op = .pop ∧ s.sys.taskProcess = some p) := by
  cases op with
  | push c =>
      cases hp : s.sys.currProcess with
      | none =>
          refine Or.inl ?_
          unfold keyboardNext keyboardPush
          simp only [hp]
          exact ⟨rfl, rfl, rfl, rfl⟩
      | some r =>
          by_cases hc : c = 0
          · refine Or.inl ?_
            unfold keyboardNext keyboardPush
            simp only [hp, if_pos hc]
            exact ⟨rfl, rfl, rfl, rfl⟩
          · by_cases hr : p = r
            · exact Or.inr (Or.inl ⟨c, rfl, by rw [hr], hc⟩)
            · refine Or.inl ?_
              simp only [keyboardNext, keyboardPush_some hp hc, hp, if_neg hc,
                logged]
              exact ⟨Function.update_of_ne hr _ _,
                Function.update_of_ne hr _ _, rfl, rfl⟩
  | pop =>
      cases hp : s.sys.taskProcess with
      | none =>
          refine Or.inl ?_
          unfold keyboardNext keyboardPop
          simp only [hp]
          exact ⟨rfl, rfl, rfl, rfl⟩
      | some r =>
          by_cases hr : p = r
          · exact Or.inr (Or.inr ⟨rfl, by rw [hr]⟩)
          · refine Or.inl ?_
            unfold keyboardNext keyboardPop
            simp only [hp]
            by_cases hc : (s.sys.keyboard r).buffer
                (counterIndex (s.sys.keyboard r).head) = 0x00
            · rw [if_pos hc, if_pos rfl]
              exact ⟨rfl, rfl, rfl, Function.update_of_ne hr _ _⟩
            · rw [if_neg hc, if_neg hc]
              exact ⟨Function.update_of_ne hr _ _, rfl,
                Function.update_of_ne hr _ _, rfl⟩
  | switch currProcess taskProcess => exact Or.inl ⟨rfl, rfl, rfl, rfl⟩

-- ================================================================= the steps

theorem queued_push {p : Addr} {s : KeyboardRun} {q : List UInt8}
    (h : Queued p s q) {c : UInt8} (hp : s.sys.currProcess = some p)
    (hc : c ≠ 0) (hroom : q.length < benosKeyboardBufferSize) :
    Queued p (keyboardNext s (.push c)) (q ++ [c]) := by
  simp only [keyboardNext, keyboardPush_some hp hc, hp, if_neg hc, logged]
  refine ⟨?_, ?_, h.emptied⟩
  · simp only [Function.update_self]
    exact h.holds.push hroom hc
  · simp only [Function.update_self]
    rw [h.log, List.append_assoc]

theorem queued_pop_nil {p : Addr} {s : KeyboardRun} (h : Queued p s [])
    (hp : s.sys.taskProcess = some p) :
    Queued p (keyboardNext s .pop) [] := by
  simp only [keyboardNext, keyboardPop_nil hp h.holds, hp, if_true, logged]
  refine ⟨h.holds, h.log, fun mark hmark => ?_⟩
  simp only [Function.update_self] at hmark
  rcases List.mem_append.mp hmark with hmark | hmark
  · exact h.emptied mark hmark
  · rw [List.mem_singleton.mp hmark]
    simp only
    rw [h.log, List.append_nil]

theorem queued_pop_cons {p : Addr} {s : KeyboardRun} {c : UInt8}
    {q : List UInt8} (h : Queued p s (c :: q))
    (hp : s.sys.taskProcess = some p) :
    Queued p (keyboardNext s .pop) q := by
  have hc := h.holds.nonzero c List.mem_cons_self
  simp only [keyboardNext, keyboardPop_cons hp hc h.holds.ring, hp, if_neg hc,
    logged]
  refine ⟨?_, ?_, h.emptied⟩
  · simp only [Function.update_self]
    exact h.holds.pop
  · simp only [Function.update_self]
    rw [h.log, List.append_assoc]
    rfl

/-- With room for what is pushed, the buffer of a process stays a queue,
whoever is served. -/
theorem queued_step {p : Addr} {s : KeyboardRun} {op : KeyboardOp}
    (h : ∃ q, Queued p s q) (hroom : HasRoom p s op (keyboardNext s op)) :
    ∃ q, Queued p (keyboardNext s op) q := by
  obtain ⟨q, hq⟩ := h
  rcases keyboardNext_cases p s op with hsame | ⟨c, rfl, hp, hc⟩ | ⟨rfl, hp⟩
  · exact ⟨q, hq.same hsame⟩
  · have hlt := hroom hp hc
    rw [hq.outstanding_eq] at hlt
    exact ⟨q ++ [c], queued_push hq hp hc hlt⟩
  · cases q with
    | nil => exact ⟨[], queued_pop_nil hq hp⟩
    | cons c q => exact ⟨q, queued_pop_cons hq hp⟩

/-- A queue delivers a prefix of what it was given. -/
theorem Queued.delivered {p : Addr} {s : KeyboardRun} {q : List UInt8}
    (h : Queued p s q) : s.popped p <+: s.pushed p := by
  rw [h.log]
  exact List.prefix_append _ _

/-- A pop finds nothing exactly where nothing is queued. -/
theorem Queued.pop_eq_zero_iff {p : Addr} {s : KeyboardRun} {q : List UInt8}
    (h : Queued p s q) (hp : s.sys.taskProcess = some p) :
    (keyboardPop s.sys).1 = 0 ↔ outstanding p s = 0 := by
  rw [h.outstanding_eq]
  cases q with
  | nil =>
      rw [keyboardPop_nil hp h.holds]
      exact iff_of_true rfl rfl
  | cons c q =>
      have hc := h.holds.nonzero c List.mem_cons_self
      rw [keyboardPop_cons hp hc h.holds.ring]
      exact iff_of_false hc (Nat.succ_ne_zero _)

/-- A queue delivers in order, also behind a pop that found nothing. -/
theorem Queued.inOrder {p : Addr} {s s' : KeyboardRun} {op : KeyboardOp}
    {q : List UInt8} (h : Queued p s' q) : InOrder p s op s' := by
  refine ⟨h.delivered.sublist, fun mark hmark c hc => ?_⟩
  obtain ⟨hlt, hget⟩ := List.getElem?_eq_some_iff.mp hc
  rw [h.emptied mark hmark, h.log, List.getElem?_append_left hlt]
  exact hc

/-- Where the buffer is a queue, no more is outstanding than it holds only
if a character that was pushed found room. -/
theorem hasRoom_of_within {p : Addr} {s : KeyboardRun} {op : KeyboardOp}
    {q : List UInt8} (h : Queued p s q)
    (hwithin : Within p s op (keyboardNext s op)) :
    HasRoom p s op (keyboardNext s op) := by
  cases op with
  | pop => trivial
  | switch currProcess taskProcess => trivial
  | push c =>
      intro hp hc
      unfold Within at hwithin
      unfold outstanding at hwithin ⊢
      simp only [keyboardNext, hp, if_neg hc, logged, Function.update_self,
        List.length_append, List.length_singleton] at hwithin
      have hle : (s.popped p).length ≤ (s.pushed p).length :=
        h.delivered.length_le
      omega

-- ================================================================== the runs

/-- The keyboard buffer of a process is a lossless queue: over every run
in which no more characters are outstanding than it holds, whatever the
counters start from, the pops deliver a prefix of what was pushed, and a
pop finds nothing exactly when nothing is outstanding. -/
theorem keyboard_fifo_exact {sys : KeyboardSys} {p : Addr}
    (hfresh : Fresh (sys.keyboard p)) {ops : List KeyboardOp}
    (hwithin : Along keyboardStep (Within p) (keyboardStart sys) ops) :
    Along keyboardStep (Fifo p) (keyboardStart sys) ops := by
  refine along_of_inv (I := fun s => ∃ q, Queued p s q) (C := Within p) ?_ ?_
    ⟨[], queued_start hfresh⟩ hwithin
  · intro s op s' h hstep hwithin
    obtain rfl := Option.some.inj hstep
    obtain ⟨q, hq⟩ := h
    exact queued_step ⟨q, hq⟩ (hasRoom_of_within hq hwithin)
  · intro s op s' h hstep hwithin
    obtain rfl := Option.some.inj hstep
    obtain ⟨q, hq⟩ := h
    obtain ⟨q', hq'⟩ := queued_step ⟨q, hq⟩ (hasRoom_of_within hq hwithin)
    refine ⟨hq'.delivered, ?_⟩
    cases op with
    | push c => trivial
    | switch currProcess taskProcess => trivial
    | pop => exact hq.pop_eq_zero_iff

/-- A process whose counters are about to wrap. -/
def aboutToWrap : KeyboardSys where
  currProcess := some 0x1000#32
  taskProcess := some 0x1000#32
  keyboard := fun _ => ⟨fun _ => 0, 0xFFFFFFFF#32, 0xFFFFFFFF#32⟩

theorem fresh_aboutToWrap : Fresh (aboutToWrap.keyboard 0x1000#32) :=
  ⟨rfl, fun _ => rfl⟩

/-- Two characters pushed there and popped, and one that is left. -/
theorem keyboard_fifo_exact_three :
    Along keyboardStep (Fifo 0x1000#32) (keyboardStart aboutToWrap)
      [.push 1, .push 2, .pop, .pop, .pop, .push 3] := by
  refine keyboard_fifo_exact fresh_aboutToWrap ?_
  refine ⟨?_, ?_, ?_, ?_, ?_, ?_, trivial⟩
  all_goals
    unfold Within
    decide

/-- Over every run in which each character pushed finds room, the pops
deliver in order, also behind pops that found nothing. -/
theorem keyboard_in_order {sys : KeyboardSys} {p : Addr}
    (hfresh : Fresh (sys.keyboard p)) {ops : List KeyboardOp}
    (hroom : Along keyboardStep (HasRoom p) (keyboardStart sys) ops) :
    Along keyboardStep (InOrder p) (keyboardStart sys) ops := by
  refine along_of_inv (I := fun s => ∃ q, Queued p s q) (C := HasRoom p) ?_ ?_
    ⟨[], queued_start hfresh⟩ hroom
  · intro s op s' h hstep hroom
    obtain rfl := Option.some.inj hstep
    exact queued_step h hroom
  · intro s op s' h hstep hroom
    obtain rfl := Option.some.inj hstep
    obtain ⟨q, hq⟩ := queued_step h hroom
    exact hq.inOrder

/-- The same calls, each of them in order. -/
theorem keyboard_in_order_three :
    Along keyboardStep (InOrder 0x1000#32) (keyboardStart aboutToWrap)
      [.push 1, .push 2, .pop, .pop, .pop, .push 3] := by
  refine keyboard_in_order fresh_aboutToWrap ?_
  exact ⟨fun _ _ => by decide, fun _ _ => by decide, trivial, trivial,
    trivial, fun _ _ => by decide, trivial⟩

-- ================================================================== overflow

/-- A pop delivers what the head holds and moves on. -/
theorem pop_delivers {p : Addr} {s : KeyboardRun} {c : UInt8}
    {q : List UInt8} (hp : s.sys.taskProcess = some p) (hc : c ≠ 0)
    (h : Ring (s.sys.keyboard p).buffer 0 (s.sys.keyboard p).head.toNat
      (c :: q)) :
    (keyboardNext s .pop).popped p = s.popped p ++ [c]
      ∧ (keyboardNext s .pop).pushed p = s.pushed p
      ∧ (keyboardNext s .pop).sys.taskProcess = some p
      ∧ Ring ((keyboardNext s .pop).sys.keyboard p).buffer 0
          ((keyboardNext s .pop).sys.keyboard p).head.toNat q := by
  simp only [keyboardNext, keyboardPop_cons hp hc h, hp, if_neg hc, logged,
    Function.update_self, true_and]
  refine h.pop.round ?_
  rw [BitVec.toNat_add]
  simp only [benosKeyboardBufferSize, BitVec.toNat_ofNat]
  omega

/-- A character pushed into a full buffer is delivered at once, and then
the second of those that were there before it. -/
theorem overflow_delivers {p : Addr} {s : KeyboardRun} {b c d : UInt8}
    {q : List UInt8} (h : Queued p s (c :: d :: q))
    (hfull : (c :: d :: q).length = benosKeyboardBufferSize) (hb : b ≠ 0)
    (hcurr : s.sys.currProcess = some p)
    (htask : s.sys.taskProcess = some p) :
    let s' := keyboardNext (keyboardNext (keyboardNext s (.push b)) .pop) .pop
    s'.popped p = s.popped p ++ [b, d] ∧ s'.pushed p = s.pushed p ++ [b] := by
  have hd := h.holds.nonzero d (List.mem_cons_of_mem _ List.mem_cons_self)
  have hring := h.holds.overflow hfull b
  obtain ⟨s₁, hs₁⟩ : ∃ s₁, keyboardNext s (.push b) = s₁ := ⟨_, rfl⟩
  have hpush : s₁.popped p = s.popped p ∧ s₁.pushed p = s.pushed p ++ [b]
      ∧ s₁.sys.taskProcess = some p
      ∧ Ring (s₁.sys.keyboard p).buffer 0 (s₁.sys.keyboard p).head.toNat
          (b :: d :: q) := by
    rw [← hs₁]
    simp only [keyboardNext, keyboardPush_some hcurr hb, hcurr, if_neg hb,
      logged, Function.update_self, true_and]
    exact ⟨htask, hring⟩
  obtain ⟨hpopped₁, hpushed₁, htask₁, hring₁⟩ := hpush
  obtain ⟨hpopped₂, hpushed₂, htask₂, hring₂⟩ :=
    pop_delivers htask₁ hb hring₁
  obtain ⟨hpopped₃, hpushed₃, -, -⟩ := pop_delivers htask₂ hd hring₂
  simp only
  rw [hs₁]
  constructor
  · rw [hpopped₃, hpopped₂, hpopped₁, List.append_assoc]
    rfl
  · rw [hpushed₃, hpushed₂, hpushed₁]

/-- One character pushed again and again. -/
theorem queued_pushes {p : Addr} {c : UInt8} (hc : c ≠ 0) (n : Nat) :
    ∀ {s : KeyboardRun} {q : List UInt8}, Queued p s q →
      s.sys.currProcess = some p → s.sys.taskProcess = some p →
      q.length + n ≤ benosKeyboardBufferSize →
      ∃ s', exec keyboardStep s (List.replicate n (.push c)) = some s'
        ∧ Queued p s' (q ++ List.replicate n c)
        ∧ s'.sys.currProcess = some p ∧ s'.sys.taskProcess = some p
        ∧ s'.popped p = s.popped p := by
  induction n with
  | zero =>
      intro s q h hcurr htask _
      exact ⟨s, rfl, by simpa using h, hcurr, htask, rfl⟩
  | succ n ih =>
      intro s q h hcurr htask hroom
      have hpush := queued_push h hcurr hc (by omega)
      have hsys : (keyboardNext s (.push c)).sys.currProcess = some p
          ∧ (keyboardNext s (.push c)).sys.taskProcess = some p := by
        simp only [keyboardNext, keyboardPush_some hcurr hc]
        exact ⟨hcurr, htask⟩
      obtain ⟨s', hexec, hq, hcurr', htask', hpopped⟩ :=
        ih hpush hsys.1 hsys.2 (by
          rw [List.length_append, List.length_singleton]
          omega)
      refine ⟨s', hexec, ?_, hcurr', htask', hpopped⟩
      rw [List.replicate_succ, ← List.singleton_append, ← List.append_assoc]
      exact hq

/-- It is not so that the pops deliver in order over every run: with 1024
characters pushed, another one that is pushed is delivered first. -/
theorem keyboard_overflow_reorders :
    ¬ ∀ (sys : KeyboardSys) (p : Addr), Fresh (sys.keyboard p) →
        ∀ ops : List KeyboardOp,
          Along keyboardStep (InOrder p) (keyboardStart sys) ops := by
  intro hall
  have hfresh : Fresh ⟨fun _ => 0, 0#32, 0#32⟩ := ⟨rfl, fun _ => rfl⟩
  obtain ⟨sys, hsys⟩ : ∃ sys : KeyboardSys, sys =
      { currProcess := some 0x1000#32
        taskProcess := some 0x1000#32
        keyboard := fun _ => ⟨fun _ => 0, 0#32, 0#32⟩ } := ⟨_, rfl⟩
  have hfresh' : Fresh (sys.keyboard 0x1000#32) := by
    rw [hsys]
    exact hfresh
  obtain ⟨s, hexec, hq, hcurr, htask, hpopped⟩ :=
    queued_pushes (c := 1) (by decide) 1024 (queued_start hfresh')
      (by rw [hsys]; rfl) (by rw [hsys]; rfl) (Nat.le_refl _)
  have hrun := along_append hexec (hall sys 0x1000#32 hfresh'
    (List.replicate 1024 (.push 1) ++ [.push 2, .pop, .pop]))
  obtain ⟨-, -, ⟨hsub, -⟩, -⟩ := hrun
  obtain ⟨hpop, hpush⟩ := overflow_delivers (b := 2) (c := 1) (d := 1)
    (q := List.replicate 1022 1) hq (by
      rw [List.length_cons, List.length_cons, List.length_replicate])
    (by decide) hcurr htask
  have hnone : (keyboardStart sys).popped 0x1000#32 = [] := rfl
  rw [hpop, hpush, hq.log, hpopped, hnone] at hsub
  -- read backwards, 1 and then 2 among 2 and then ones only
  have hrev := hsub.reverse
  simp only [List.nil_append, List.reverse_append, List.reverse_cons,
    List.reverse_nil, List.reverse_replicate, List.cons_append] at hrev
  have htail := (List.cons_sublist_cons'.mp hrev).resolve_right
    (fun h => absurd h.1 (by decide))
  have hmem := htail.subset (List.mem_cons_of_mem _ List.mem_cons_self)
  exact absurd (List.eq_of_mem_replicate hmem) (by decide)

end BenOS.Keyboard
