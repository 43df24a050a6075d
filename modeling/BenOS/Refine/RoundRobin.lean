/-
Round robin in the memory of the kernel.

Between two interrupts of the clock the program that runs does what it
likes with the memory beside the tasks (`KeepsTasks`). An interrupt in
memory is one of `Tasks`, with the frame that is read off the memory
(`clockInterrupt_refines`), and so is a run of them; so as many interrupts
as there are tasks in the list make each of them current once
(`round_robin_in_memory`).
-/
import BenOS.Isr80h.Proofs.UserCalls
import BenOS.Refine.Switch
import BenOS.Tasks.Proofs.RoundRobin

namespace BenOS.Refine

open Lib Memory Kernel Isr80h

variable {live xs : List Addr} {s : Tasks.TaskSys} {sys : SysState}

-- =============================================================== one interrupt

/-- What comes to an interrupt of the clock: what the program did to the
memory since the last one, and the address of the frame. -/
structure Interrupted where
  program : Bytes → Bytes
  frame : Addr

/-- The program leaves the tasks alone, and the frame lies beside them. -/
structure KeepsTasks (live : List Addr) (e : Interrupted) : Prop where
  program : ∀ m, ∀ a ∈ live, SameOn a sizeofTask m (e.program m)
  frame : FrameApart live e.frame

/-- The frame that is there. -/
def frameRead (sys : SysState) (e : Interrupted) : Tasks.InterruptFrame :=
  frameAt (e.program sys.mem) e.frame

/-- The interrupt of the clock, from the program as far as
`task_return`. -/
def clockInterrupt (env : Locals) (sys : SysState) (e : Interrupted) :
    Option SysState :=
  match Idt.interruptHandler env Idt.kernelCallbacks 0x20#32 e.frame
      (sys.setMem (e.program sys.mem)) with
  | some (.started _ sys) => some sys
  | _ => none

/-- The kernel runs its current task, and its tasks are those of `s`. -/
structure Runs (live : List Addr) (sys : SysState) (s : Tasks.TaskSys) :
    Prop where
  switched : SwitchedTo live sys.kernel.currentTask sys s
  closed : Closed live s

theorem SwitchedTo.runs {task : Addr} (h : SwitchedTo live task sys s)
    (hclosed : Closed live s) : Runs live sys s := by
  have hcurrent : nullable sys.kernel.currentTask = some task :=
    h.shown.current.symm.trans h.current
  have hne : task ≠ 0#32 := by
    rintro rfl
    unfold nullable at hcurrent
    split at hcurrent
    case isTrue => cases hcurrent
    case isFalse hne => exact hne (Option.some.inj hcurrent)
  rw [← (nullable_eq_some hne).mp hcurrent] at h
  exact ⟨h, hclosed⟩

/-- A clock interrupt in memory is one of `Tasks`. -/
theorem clockInterrupt_refines (env : Locals) (h : Runs live sys s)
    (hap : TasksApart live) {e : Interrupted} (he : KeepsTasks live e) :
    Option.Rel (Runs live) (clockInterrupt env sys e)
      (Tasks.idtClock s (frameRead sys e)) := by
  have hshown : TasksShown live (sys.setMem (e.program sys.mem)).kernel s :=
    h.switched.shown.congr rfl rfl rfl fun a ha => he.program _ a ha
  have hrel := idtClock_refines env hshown h.closed hap he.frame
  have hread : frameAt (sys.setMem (e.program sys.mem)).mem e.frame
      = frameRead sys e := rfl
  rw [hread] at hrel
  unfold clockInterrupt
  generalize Idt.interruptHandler env Idt.kernelCallbacks 0x20#32 e.frame
    (sys.setMem (e.program sys.mem)) = x at hrel ⊢
  generalize Tasks.idtClock s (frameRead sys e) = y at hrel ⊢
  cases hrel with
  | none => exact .none
  | some hstarted =>
      obtain ⟨task, sys', rfl, hswitched, hclosed⟩ := hstarted
      exact .some (hswitched.runs hclosed)

-- ===================================================================== a round

/-- A list of tasks, each of which the one before leads to, is closed. -/
theorem closed_of_threaded (h : Tasks.Threaded s xs)
    (hcurrent : ∀ a, s.currentTask = some a → a ∈ xs) : Closed xs s := by
  obtain ⟨hhead, hlinks⟩ := links_of_follow h.walk
  refine ⟨fun a ha => ?_, fun a ha b hb => ?_, hcurrent⟩
  · exact List.mem_of_mem_head? (hhead.symm.trans ha)
  · obtain ⟨i, hi, rfl⟩ := List.mem_iff_getElem.mp ha
    have hnext : xs[i + 1]? = some b := (hlinks i hi).symm.trans hb
    exact List.mem_of_getElem? hnext

/-- Round robin in memory: whatever the programs do beside the tasks, as
many interrupts of the clock as there are tasks in the list make each task
current once, in the order of the list, with its page directory loaded,
and end with the one that was current before. The tasks in memory are
then those of `Tasks` behind these interrupts, so their registers are
those of the frames. -/
theorem round_robin_in_memory (env : Locals)
    (h : SwitchedTo xs sys.kernel.currentTask sys s)
    (hlist : Tasks.Threaded s xs) (hcurrent : sys.kernel.currentTask ∈ xs)
    (hap : TasksApart xs) {es : List Interrupted}
    (hes : ∀ e ∈ es, KeepsTasks xs e) (hlen : es.length = xs.length) :
    ∃ sys' s' before behind, exec (clockInterrupt env) sys es = some sys'
      ∧ xs = before ++ sys.kernel.currentTask :: behind
      ∧ (states (clockInterrupt env) sys es).map (·.kernel.currentTask)
        = behind ++ before ++ [sys.kernel.currentTask]
      ∧ (∀ sys₁ ∈ states (clockInterrupt env) sys es, sys₁.directory
        = load32 sys₁.mem
          (taskPageDirectory sys₁.mem sys₁.kernel.currentTask))
      ∧ exec Tasks.idtClock s
          (readings (clockInterrupt env) frameRead sys es) = some s'
      ∧ SwitchedTo xs sys.kernel.currentTask sys' s' := by
  obtain ⟨i, hi, hat⟩ := List.mem_iff_getElem.mp hcurrent
  have hcur : s.currentTask = some xs[i] := by
    rw [hat]
    exact h.current
  have hclosed : Closed xs s := by
    refine closed_of_threaded hlist fun a ha => ?_
    rw [← Option.some.inj (hcur.symm.trans ha)]
    exact List.getElem_mem hi
  have hsim : ∀ sys s e, Runs xs sys s → KeepsTasks xs e →
      Option.Rel (Runs xs) (clockInterrupt env sys e)
        (Tasks.idtClock s (frameRead sys e)) := fun _ _ _ hruns he =>
    clockInterrupt_refines env hruns hap he
  obtain ⟨hexec, hstates⟩ := exec_rel hsim es hes ⟨h, hclosed⟩
  -- the interrupts of `Tasks` come back, and so those in memory do
  obtain ⟨s', hexec', -⟩ := Tasks.states_idtClock
    (readings (clockInterrupt env) frameRead sys es) hlist hi hcur
  rw [hexec'] at hexec
  obtain ⟨sys', hrun, hruns⟩ := rel_some_right hexec
  obtain ⟨s'', hexec'', hlast, hround⟩ := Tasks.round_idtClock hlist hi hcur
    ((length_readings hrun).trans hlen)
  obtain rfl := Option.some.inj (hexec'.symm.trans hexec'')
  obtain ⟨hpaged, -⟩ : (∀ sys₁ ∈ states (clockInterrupt env) sys es,
      sys₁.directory = load32 sys₁.mem
        (taskPageDirectory sys₁.mem sys₁.kernel.currentTask)) ∧ _ :=
    (List.forall₂_and_left _ _).mp (hstates.imp
      fun _ _ hruns => ⟨hruns.switched.directory, hruns⟩)
  have hseen : (states (clockInterrupt env) sys es).map
        (fun sys => some sys.kernel.currentTask)
      = (states Tasks.idtClock s (readings (clockInterrupt env) frameRead sys
        es)).map (·.currentTask) := by
    rw [← List.forall₂_eq_eq_eq, List.forall₂_map_left_iff,
      List.forall₂_map_right_iff]
    exact hstates.imp fun _ _ hruns => hruns.switched.current.symm
  refine ⟨sys', s', xs.take i, xs.drop (i + 1), hrun, ?_, ?_, hpaged, hexec',
    ?_⟩
  · rw [← hat, ← List.drop_eq_getElem_cons hi, List.take_append_drop]
  · rw [← hat]
    refine (List.map_inj_right fun a b hab => Option.some.inj hab).mp ?_
    rw [List.map_map, ← hround]
    exact hseen
  · have hend := hruns.switched.current.symm.trans hlast
    rw [hat] at hend
    rw [← Option.some.inj hend]
    exact hruns.switched

-- ================================================================== two tasks

/-- Two tasks in memory that lead to each other, each with a directory. -/
def twoTasks : Bytes :=
  [(0x1000#32 + offPageDirectory, 0x3000#32), (0x1000#32 + offNext, 0x2000#32),
    (0x2000#32 + offPageDirectory, 0x4000#32), (0x2000#32 + offPrev, 0x1000#32),
    (0x3000#32, 0x5000#32), (0x4000#32, 0x6000#32)].foldl
    (fun m w => store32 m w.1 w.2) fun _ => 0

/-- The kernel that runs the second of them. -/
def twoTasksState : SysState :=
  { callerState with
    kernel :=
      { callerState.kernel with
        ram := ⟨emptyHeap, twoTasks, true⟩
        taskHead := 0x1000#32
        taskTail := 0x2000#32
        currentTask := 0x2000#32 }
    directory := 0x6000#32 }

/-- The same tasks, as `Tasks` has them. -/
def twoTasksAt : Tasks.TaskSys where
  tasks := taskAt twoTasks
  currentTask := some 0x2000#32
  taskTail := some 0x2000#32
  taskHead := some 0x1000#32
  currDir := some 0x4000#32

/-- Two interrupts, with the frame on the stack of the kernel; in front of
the first one the program writes to a page of its own. -/
def twoInterrupts : List Interrupted :=
  [⟨fun m => store32 m 0x8000#32 7#32, 0x7000#32⟩, ⟨id, 0x7000#32⟩]

theorem keepsTasks_twoInterrupts :
    ∀ e ∈ twoInterrupts, KeepsTasks [0x1000#32, 0x2000#32] e := by
  have hframe : FrameApart [0x1000#32, 0x2000#32] 0x7000#32 := by
    intro a ha
    simp only [List.mem_cons, List.not_mem_nil, or_false] at ha
    rcases ha with rfl | rfl
    · exact spansApart_of_dist (by decide) (by decide)
    · exact spansApart_of_dist (by decide) (by decide)
  intro e he
  simp only [twoInterrupts, List.mem_cons, List.not_mem_nil, or_false] at he
  rcases he with rfl | rfl
  · refine ⟨fun m a ha => writeBytes_sameOn m _ ?_, hframe⟩
    simp only [List.mem_cons, List.not_mem_nil, or_false] at ha
    rcases ha with rfl | rfl
    · exact spansApart_of_dist (by decide) (by decide)
    · exact spansApart_of_dist (by decide) (by decide)
  · exact ⟨fun _ _ _ => SameOn.refl _ _ _, hframe⟩

theorem round_robin_in_memory_two_tasks :
    ∃ sys' s' before behind,
      exec (clockInterrupt callerLocals) twoTasksState twoInterrupts
        = some sys'
      ∧ [0x1000#32, 0x2000#32] = before ++ 0x2000#32 :: behind
      ∧ (states (clockInterrupt callerLocals) twoTasksState twoInterrupts).map
        (·.kernel.currentTask) = behind ++ before ++ [0x2000#32]
      ∧ exec Tasks.idtClock twoTasksAt
          (readings (clockInterrupt callerLocals) frameRead twoTasksState
            twoInterrupts) = some s'
      ∧ SwitchedTo [0x1000#32, 0x2000#32] 0x2000#32 sys' s' := by
  have hap : TasksApart [0x1000#32, 0x2000#32] := by
    intro a ha b hb hab
    simp only [List.mem_cons, List.not_mem_nil, or_false] at ha hb
    rcases ha with rfl | rfl <;> rcases hb with rfl | rfl
    · exact absurd rfl hab
    · exact spansApart_of_dist (by decide) (by decide)
    · exact spansApart_of_dist (by decide) (by decide)
    · exact absurd rfl hab
  have hswitched : SwitchedTo [0x1000#32, 0x2000#32]
      twoTasksState.kernel.currentTask twoTasksState twoTasksAt :=
    ⟨⟨rfl, rfl, rfl, fun _ _ => rfl⟩, rfl, by decide +kernel, by decide +kernel⟩
  obtain ⟨sys', s', before, behind, hrun, hparts, hround, -, hexec, hend⟩ :=
    round_robin_in_memory callerLocals hswitched ⟨by decide, by decide +kernel⟩
      (by decide) hap keepsTasks_twoInterrupts rfl
  exact ⟨sys', s', before, behind, hrun, hparts, hround, hexec, hend⟩

end BenOS.Refine
