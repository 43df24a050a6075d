/-
From one task to the next, as `Tasks` has it.

The processor's page directory is that of the task the kernel switched to
last (`SwitchedTo`). So what an interrupt of the clock does to the memory,
where it saves the registers of the program in its task and goes on to the
next, is what it does to the records (`idtClock_refines`): both come back,
or neither does.
-/
import BenOS.Idt.Handlers
import BenOS.Lib.Simulation
import BenOS.Refine.Tasks

namespace BenOS.Refine

open Lib Memory Kernel Isr80h

variable {live : List Addr} {k : KernelState} {s : Tasks.TaskSys}
  {sys : SysState} {task : Addr}

-- ============================================================= task_switch

/-- The tasks are shown, and the task with an address runs: it is the
current one, and its page directory is loaded. -/
structure SwitchedTo (live : List Addr) (task : Addr) (sys : SysState)
    (s : Tasks.TaskSys) : Prop where
  shown : TasksShown live sys.kernel s
  current : s.currentTask = some task
  chunk : s.currDir = nullable (taskPageDirectory sys.mem task)
  directory : sys.directory = load32 sys.mem (taskPageDirectory sys.mem task)

/-- `task_switch` -/
theorem taskSwitch_refines (h : TasksShown live sys.kernel s)
    (htask : task ∈ live) (hne : task ≠ 0#32) :
    SwitchedTo live task (taskSwitch task sys) (Tasks.taskSwitch s task) := by
  refine ⟨⟨h.head, h.tail, (nullable_of_ne hne).symm, h.record⟩, rfl, ?_, rfl⟩
  show (s.tasks task).pageDirectory = _
  rw [h.record task htask]
  rfl

/-- The tasks listed lead to each other, the list starts with one of them,
and one of them is current. -/
structure Closed (live : List Addr) (s : Tasks.TaskSys) : Prop where
  head : ∀ a, s.taskHead = some a → a ∈ live
  next : ∀ a ∈ live, ∀ b, (s.tasks a).next = some b → b ∈ live
  current : ∀ a, s.currentTask = some a → a ∈ live

/-- The task behind the current one is listed too. -/
theorem Closed.getNext (h : Closed live s) {t : Addr}
    (hnext : Tasks.taskGetNext s = some (some t)) : t ∈ live := by
  unfold Tasks.taskGetNext at hnext
  split at hnext
  case h_1 => cases hnext
  case h_2 c hc =>
    split at hnext
    case h_1 => exact h.head t (Option.some.inj hnext)
    case h_2 b hb =>
      rw [← Option.some.inj (Option.some.inj hnext)]
      exact h.next c (h.current c hc) b hb

/-- The task the kernel has as the current one. -/
theorem Closed.kernelCurrent (h : Closed live s) (hs : TasksShown live k s)
    (hne : k.currentTask ≠ 0#32) : k.currentTask ∈ live := by
  refine h.current _ ?_
  rw [hs.current, nullable_of_ne hne]

theorem Closed.taskSwitch (h : Closed live s) (htask : task ∈ live) :
    Closed live (Tasks.taskSwitch s task) := by
  refine ⟨h.head, h.next, fun a ha => ?_⟩
  rw [← Option.some.inj ha]
  exact htask

/-- `task_next`: both have a task to go on to, and it is the same, or
neither has one. Of the kernel only the current task is changed. -/
theorem taskNext_refines (h : TasksShown live sys.kernel s)
    (hclosed : Closed live s) :
    Option.Rel (fun r s' => SwitchedTo live r.1 r.2 s' ∧ Closed live s'
        ∧ r.2.kernel = { sys.kernel with currentTask := r.1 })
      (Isr80h.taskNext sys) (Tasks.taskNextSwitch s) := by
  unfold Isr80h.taskNext Tasks.taskNextSwitch
  by_cases hne : sys.kernel.currentTask = 0#32
  case pos =>
    have hget : Tasks.taskGetNext s = none := by
      unfold Tasks.taskGetNext
      rw [h.current, nullable_eq_none.mpr hne]
    rw [if_pos hne, hget]
    exact .none
  case neg =>
    have hget := taskGetNext_refines h (hclosed.kernelCurrent h hne) hne
    rw [if_neg hne]
    simp only
    by_cases hne' : Kernel.taskGetNext sys.kernel = 0#32
    · rw [if_pos hne', hget, nullable_eq_none.mpr hne']
      exact .none
    · rw [nullable_of_ne hne'] at hget
      rw [if_neg hne', hget]
      have hlive := hclosed.getNext hget
      exact .some ⟨taskSwitch_refines h hlive hne', hclosed.taskSwitch hlive,
        rfl⟩

-- ============================================================== idt_clock

/-- The registers of a program, saved in its task. -/
theorem taskAt_taskSaveState {frame : Addr}
    (hapart : SpansApart (task + offRegisters) sizeofRegisters frame
      sizeofInterruptFrame) (m : Bytes) :
    taskAt (taskSaveState task frame m) task
      = Tasks.taskSaveState (taskAt m task) (frameAt m frame) := by
  obtain ⟨hregs, hout⟩ := taskSaveState_refines hapart m (taskAt m task)
  have hword : ∀ o : Addr, 48 ≤ (o - offRegisters).toNat →
      4 ≤ (offRegisters - o).toNat →
      load32 (taskSaveState task frame m) (task + o) = load32 m (task + o) :=
    fun o hn hl => load32_congr fun x hx => hout x fun hin =>
      spansApart_fields task hn hl x hin hx
  unfold taskAt
  rw [hregs, hword offPageDirectory (by decide) (by decide),
    hword offProcess (by decide) (by decide),
    hword offNext (by decide) (by decide),
    hword offPrev (by decide) (by decide)]
  rfl

/-- A frame lies beside the registers of the tasks. -/
def FrameApart (live : List Addr) (frame : Addr) : Prop :=
  ∀ a ∈ live, SpansApart (a + offRegisters) sizeofRegisters frame
    sizeofInterruptFrame

/-- `task_current_save_state` -/
theorem taskCurrentSaveState_refines {frame : Addr}
    (h : TasksShown live sys.kernel s) (hclosed : Closed live s)
    (hap : TasksApart live) (hframe : FrameApart live frame) :
    Option.Rel (fun sys' s' => TasksShown live sys'.kernel s' ∧ Closed live s')
      (taskCurrentSaveState frame sys)
      (Tasks.taskCurrentSaveState s (frameAt sys.mem frame)) := by
  unfold taskCurrentSaveState Tasks.taskCurrentSaveState
  rw [h.current]
  by_cases hne : sys.kernel.currentTask = 0#32
  case pos =>
    rw [if_pos hne, nullable_eq_none.mpr hne]
    exact .none
  case neg =>
    have hcurrent := hclosed.kernelCurrent h hne
    have hapart := hframe _ hcurrent
    rw [if_neg hne, nullable_of_ne hne]
    refine .some ⟨⟨h.head, h.tail, (nullable_of_ne hne).symm, fun b hb => ?_⟩,
      hclosed.head, fun b hb c hc => ?_, fun b hb => ?_⟩
    · by_cases hbt : b = sys.kernel.currentTask
      · rw [hbt]
        refine (Function.update_self _ _ _).trans ?_
        rw [h.record _ hcurrent]
        exact (taskAt_taskSaveState hapart _).symm
      · refine (Function.update_of_ne hbt _ _).trans ?_
        rw [h.record b hb]
        obtain ⟨-, hout⟩ := taskSaveState_refines hapart sys.mem
          (s.tasks sys.kernel.currentTask)
        have hspan := hap _ hcurrent b hb (Ne.symm hbt)
        have hsame : SameOn b sizeofTask sys.mem
            (taskSaveState sys.kernel.currentTask frame sys.mem) :=
          fun x hx => hout x fun hin =>
            hspan x (InSpan.of_part hin (by decide)) hx
        exact (taskAt_congr hsame).symm
    · by_cases hbt : b = sys.kernel.currentTask
      · rw [hbt] at hb hc
        simp only [Function.update_self] at hc
        exact hclosed.next _ hb c hc
      · simp only [Function.update_of_ne hbt] at hc
        exact hclosed.next b hb c hc
    · rw [← Option.some.inj hb]
      exact hcurrent

/-- What `interrupt_handler` does with the interrupt of the clock. -/
theorem interruptHandler_clock (env : Locals) (frame : Addr) (sys : SysState) :
    Idt.interruptHandler env Idt.kernelCallbacks 0x20#32 frame sys
      = (taskCurrentSaveState frame (kernelPage env sys)).bind fun sys =>
        (Isr80h.taskNext (Idt.endOfInterrupt sys)).map fun r =>
          .started r.1 r.2 := by
  have hclock : Idt.interruptCallback env Idt.kernelCallbacks 0x20#32 frame
      (kernelPage env sys) = (taskCurrentSaveState frame
        (kernelPage env sys)).bind Idt.idtClock := rfl
  unfold Idt.interruptHandler
  simp only
  rw [hclock]
  cases taskCurrentSaveState frame (kernelPage env sys) with
  | none => rfl
  | some sys =>
      simp only [Option.bind_some]
      unfold Idt.idtClock
      cases Isr80h.taskNext (Idt.endOfInterrupt sys) with
      | none => rfl
      | some r => rfl

/-- A clock interrupt with the frame at its address, and with the one that
is there: both go on to the next task, or neither has one. -/
theorem idtClock_refines (env : Locals) {frame : Addr}
    (h : TasksShown live sys.kernel s) (hclosed : Closed live s)
    (hap : TasksApart live) (hframe : FrameApart live frame) :
    Option.Rel (fun handled s' => ∃ task sys', handled = .started task sys'
        ∧ SwitchedTo live task sys' s' ∧ Closed live s')
      (Idt.interruptHandler env Idt.kernelCallbacks 0x20#32 frame sys)
      (Tasks.idtClock s (frameAt sys.mem frame)) := by
  have hclock : Tasks.idtClock s (frameAt sys.mem frame)
      = (Tasks.taskCurrentSaveState s (frameAt sys.mem frame)).bind fun s =>
        Tasks.taskNextSwitch s := by
    unfold Tasks.idtClock
    cases Tasks.taskCurrentSaveState s (frameAt sys.mem frame) with
    | none => rfl
    | some s => rfl
  have hpaged : TasksShown live (kernelPage env sys).kernel s := h
  rw [interruptHandler_clock, hclock]
  refine rel_bind (taskCurrentSaveState_refines hpaged hclosed hap hframe) ?_
  rintro sys₁ s₁ ⟨hshown, hclosed⟩
  have hshown' : TasksShown live (Idt.endOfInterrupt sys₁).kernel s₁ := hshown
  refine rel_map_left (taskNext_refines hshown' hclosed) ?_
  rintro ⟨task, sys'⟩ s' ⟨hswitched, hclosed, -⟩
  exact ⟨task, sys', rfl, hswitched, hclosed⟩

end BenOS.Refine
