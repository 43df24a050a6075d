/-
The end of a process, as `Tasks` has it.

`process_terminate` gives back what the process has and takes its task out
of the list and its address out of the table. In memory it writes to the
page tables and the allocation table of the process, and to the task in
front of its own, and so the tasks and processes that go on are shown as
before (`processTerminate_refines`). What follows is `task_next`; with it
the end of the current task in memory, by exit or by fault, is that of
`Tasks` (`end_in_memory`): both go on to the same task, or neither goes on,
be it for want of a process or of a task.
-/
import BenOS.Isr80h.Proofs.UserCalls
import BenOS.Kernel.Proofs.Isolation
import BenOS.Kernel.Proofs.Teardown
import BenOS.Refine.Load
import BenOS.Refine.Switch
import BenOS.Tasks.Proofs.Exit

namespace BenOS.Refine

open Lib Memory Kernel

variable {o : Objects} {others : List (Addr × Nat)} {tasks procs : List Addr}
  {k k' : KernelState} {s : Tasks.ProcessSys} {r : Ram} {m m' : Bytes}
  {process : Addr}

-- ============================================================ the allocations

/-- Giving back the allocations writes to the page tables and to the
allocation table. -/
theorem terminateAllocations_outside (h : ProcOk o others r) (n : Nat) :
    n ≤ benosMaxProgramAllocations →
      ∀ r', r' = terminateAllocations o.process n r → ∀ x,
        ¬ InTables o.parts x → ¬ InTable o.process x →
          r'.mem x = r.mem x := by
  induction n with
  | zero =>
      rintro - _ rfl x - -
      rfl
  | succ n ih =>
      intro hn r' hr x hx hx'
      have hswept := (swept h n (by omega)).1
      have hlast := ih (by omega) _ rfl x hx hx'
      unfold terminateAllocations at hr
      simp only at hr
      generalize terminateAllocations o.process n r = r₁ at hswept hlast hr
      by_cases hnull : allocPtr r₁.mem o.process n = 0#32
      · rw [hnull, (processFree_null hswept.ok).1] at hr
        rw [hr]
        exact hlast
      · obtain ⟨-, m', hstruck, hfree⟩ :=
          processFree_entry hswept.ok (by omega) hnull
        rw [hr, hfree]
        exact (hstruck.outside x hx hx').trans hlast

/-- The record of a process has no part in its allocation table. -/
theorem processAt_outside (h : ∀ x, InSpan process sizeofProcess x →
      ¬ InTable process x → m' x = m x) :
    processAt m' process = processAt m process := by
  have hsame : ∀ {o : Addr} {l : Nat}, o.toNat + l ≤ sizeofProcess →
      l ≤ (BitVec.ofNat 32 offAllocations - o).toNat →
      8192 ≤ (o - BitVec.ofNat 32 offAllocations).toNat →
      SameOn (process + o) l m m' := by
    intro o l hin hn hl x hx
    exact h x (InSpan.of_part hx hin) (spansApart_fields process hn hl x hx)
  exact processAt_eq
    (load16_congr (hsame (by decide) (by decide) (by decide)))
    (sameOn_byte (hsame (by decide) (by decide) (by decide)))
    (congrArg nullable
      (load32_congr (hsame (by decide) (by decide) (by decide))))
    (load32_congr (hsame (by decide) (by decide) (by decide)))
    (congrArg nullable
      (load32_congr (hsame (by decide) (by decide) (by decide))))
    (congrArg nullable
      (load32_congr (hsame (by decide) (by decide) (by decide))))

/-- The tasks and processes listed are those of a live process and of
others, and the task in front of its own is one of them. -/
structure LiveProcess (o : Objects) (others : List (Addr × Nat))
    (tasks procs : List Addr) (k : KernelState) : Prop where
  ok : ProcOk o others k.ram
  task : ∀ a ∈ tasks, a = o.task ∨ (a, 1) ∈ others
  process : ∀ p ∈ procs, p = o.process ∨ (p, 3) ∈ others
  ownTask : o.task ∈ tasks
  ownProcess : o.process ∈ procs
  before : taskPrev k o.task ≠ 0#32 → taskPrev k o.task ∈ tasks

theorem LiveProcess.mem_task (h : LiveProcess o others tasks procs k) {a : Addr}
    (ha : a ∈ tasks) :
    (a, 1) ∈ recorded k.ram.mem o.process ++ (o.owned ++ others) := by
  rcases h.task a ha with heq | hother
  · rw [heq]
    exact List.mem_append_right _ (List.mem_append_left _
      (List.mem_cons_of_mem _ List.mem_cons_self))
  · exact List.mem_append_right _ (List.mem_append_right _ hother)

theorem LiveProcess.mem_process (h : LiveProcess o others tasks procs k)
    {p : Addr} (hp : p ∈ procs) :
    (p, 3) ∈ recorded k.ram.mem o.process ++ (o.owned ++ others) := by
  rcases h.process p hp with heq | hother
  · rw [heq]
    exact List.mem_append_right _ (List.mem_append_left _ List.mem_cons_self)
  · exact List.mem_append_right _ (List.mem_append_right _ hother)

theorem LiveProcess.apart (h : LiveProcess o others tasks procs k) :
    TasksApart tasks := fun _ ha _ hb hab =>
  tasksApart_of_blocks (h.ok.ram.spansApart_of_ne (h.mem_task ha)
    (h.mem_task hb) fun heq => hab (Prod.mk.inj heq).1)

theorem LiveProcess.beside (h : LiveProcess o others tasks procs k) {a p : Addr}
    (ha : a ∈ tasks) (hp : p ∈ procs) :
    SpansApart a (blockBytes 1) p (blockBytes 3) := by
  refine h.ok.ram.spansApart_of_ne (h.mem_task ha) (h.mem_process hp) ?_
  exact fun heq => absurd (Prod.mk.inj heq).2 (by decide)

/-- Where only the tables of the process are written, it is shown as
before, and so are the others. -/
theorem shown_of_outside (hlive : LiveProcess o others tasks procs k)
    (h : Shown tasks procs k s) {r' : Ram}
    (hout : ∀ x, ¬ InTables o.parts x → ¬ InTable o.process x →
      r'.mem x = k.ram.mem x) :
    Shown tasks procs { k with ram := r' } s := by
  have hap := hlive.ok.apart
  have hframe := hlive.ok.frame hout
  refine h.congr ⟨rfl, rfl, rfl, rfl, rfl⟩ (fun a ha => ?_) fun p hp => ?_
  · have hblock : SameOn a (blockBytes 1) k.ram.mem r'.mem := by
      rcases hlive.task a ha with heq | hother
      · rw [heq]
        refine fun x hx => hout x (fun ⟨i, hi, hin⟩ => ?_) fun hin => ?_
        · exact hap.task_table i hi x hx hin
        · exact hap.process_task x (InSpan.of_part hin (by decide)) hx
      · exact hframe (a, 1) hother
    exact fun x hx => hblock x (Nat.lt_trans hx (by decide))
  · rcases hlive.process p hp with heq | hother
    · rw [heq]
      refine processAt_outside fun x hx hno =>
        hout x (fun ⟨i, hi, hin⟩ => ?_) hno
      exact hap.process_table i hi x (Nat.lt_trans hx (by decide)) hin
    · refine processAt_congr fun x hx => hframe (p, 3) hother x ?_
      exact Nat.lt_trans hx (show sizeofProcess < blockBytes 3 by decide)

theorem shown_of_allocations (hlive : LiveProcess o others tasks procs k)
    (h : Shown tasks procs k s) :
    Shown tasks procs
      { k with ram := processTerminateAllocations o.process k.ram } s :=
  have hloop : processTerminateAllocations o.process k.ram
      = terminateAllocations o.process benosMaxProgramAllocations k.ram := rfl
  shown_of_outside hlive h
    (terminateAllocations_outside hlive.ok _ (Nat.le_refl _) _ hloop)

-- ========================================================== the program data

/-- `process_free_progran_data` writes nothing. -/
theorem processFreeProgranData_refines (process : Addr) (r : Ram) :
    (processFreeProgranData process r).1
        = Tasks.processFreeProgranData (processAt r.mem process)
      ∧ (processFreeProgranData process r).2.mem = r.mem := by
  have hclose : ∀ file, (elfClose file r).mem = r.mem := by
    intro file
    unfold elfClose
    split
    · rfl
    · rfl
  unfold processFreeProgranData Tasks.processFreeProgranData processAt
  simp only
  split
  · exact ⟨rfl, rfl⟩
  · split
    · exact ⟨rfl, hclose _⟩
    · exact ⟨rfl, rfl⟩

-- =============================================================== the table

/-- A state that has panicked goes no further. -/
def unpanicked (s : Tasks.ProcessSys) : Option Tasks.ProcessSys :=
  if s.panicked then none else some s

theorem Shown.unpanicked (h : Shown tasks procs k s) :
    unpanicked s = some s := by
  unfold Refine.unpanicked
  rw [h.running]
  rfl

/-- `process_switch_to_any`: a process is left for both, or for neither. -/
theorem processSwitchToAny_refines (h : Shown tasks procs k s) :
    Option.Rel (Shown tasks procs) (processSwitchToAny k)
      (unpanicked (Tasks.processSwitchToAny s)) := by
  have hsome : ∀ a : Addr, (nullable a).isSome = (a != 0#32) := by
    intro a
    rw [Bool.eq_iff_iff, Option.isSome_iff_ne_none, bne_iff_ne, ne_eq,
      nullable_eq_none]
  unfold processSwitchToAny Tasks.processSwitchToAny
  rw [firstSlot_refines h hsome]
  cases (List.finRange benosMaxProcesses).find? fun i =>
      k.processes i != 0#32 with
  | none => exact .none
  | some i =>
      have hshown : Shown tasks procs { k with currProcess := k.processes i }
          (Tasks.processSwitch s (s.processes i)) :=
        ⟨h.tasks.congr rfl rfl rfl fun _ _ => SameOn.refl _ _ _,
          h.processes, h.processes i, h.process, h.running⟩
      simp only
      rw [hshown.unpanicked]
      exact .some hshown

/-- `process_unlink` -/
theorem processUnlink_refines (h : Shown tasks procs k s)
    (hprocess : process ∈ procs) (hne : process ≠ 0#32) :
    Option.Rel (Shown tasks procs) (processUnlink process k)
      ((Tasks.processUnlink s process).bind unpanicked) := by
  have hid : (s.memory process).id.toNat
      = (load16 k.ram.mem (process + offId)).toNat := by
    rw [h.process process hprocess]
    rfl
  unfold processUnlink Tasks.processUnlink
  simp only
  rw [hid]
  by_cases hlt : (load16 k.ram.mem (process + offId)).toNat < benosMaxProcesses
  case neg =>
    rw [dif_neg hlt, dif_neg hlt]
    exact .none
  case pos =>
    rw [dif_pos hlt, dif_pos hlt]
    have hcleared : Shown tasks procs
        { k with processes := Function.update k.processes ⟨_, hlt⟩ 0#32 }
        { s with processes := Function.update s.processes ⟨_, hlt⟩ none } := by
      refine ⟨h.tasks.congr rfl rfl rfl fun _ _ => SameOn.refl _ _ _,
        fun i => ?_, h.currProcess, h.process, h.running⟩
      by_cases hi : i = ⟨_, hlt⟩
      · rw [hi]
        simp only [Function.update_self]
        exact (nullable_eq_none.mpr rfl).symm
      · simp only [Function.update_of_ne hi]
        exact h.processes i
    have hcurrent : s.currProcess = some process ↔ k.currProcess = process := by
      rw [h.currProcess, nullable_eq_some hne]
    by_cases hcurr : k.currProcess = process
    · rw [if_pos hcurr, if_pos (hcurrent.mpr hcurr)]
      exact processSwitchToAny_refines hcleared
    · rw [if_neg hcurr, if_neg fun hs => hcurr (hcurrent.mp hs)]
      simp only [Option.bind_some]
      rw [hcleared.unpanicked]
      exact .some hcleared

-- =========================================================== process_terminate

/-- A heap that has blocks back shows the same. -/
theorem Shown.of_mem (h : Shown tasks procs k s) {r' : Ram}
    (hmem : r'.mem = k.ram.mem) : Shown tasks procs { k with ram := r' } s :=
  h.congr ⟨rfl, rfl, rfl, rfl, rfl⟩ (fun _ _ x _ => congrFun hmem x)
    fun p _ => congrArg (processAt · p) hmem

/-- `task_free` of the task of a process, where the memory links it. -/
theorem taskFree_of_links (htask : o.task ≠ 0#32)
    (hchunk : o.parts.chunk ≠ 0#32) (hdir : o.parts.dir ≠ 0#32)
    (h : o.Links k.ram.mem) : ∃ k', taskFree o.task k = some k' := by
  unfold taskFree pagingFree4gb
  rw [if_neg htask, h.chunk, if_neg hchunk]
  simp only
  rw [h.dirOk.dir, if_neg hdir]
  exact ⟨_, rfl⟩

/-- `process_terminate` from `task_free` on, where the task of the process
is the one it had. -/
theorem processTerminate_unlink (hlive : LiveProcess o others tasks procs k)
    {k₁ : KernelState} (h : Shown tasks procs k₁ s)
    (hlinks : o.Links k₁.ram.mem)
    (hprev : taskPrev k₁ o.task ≠ 0#32 → taskPrev k₁ o.task ∈ tasks) :
    ∃ k₂ t, taskFree o.task k₁ = some k₂
      ∧ Tasks.taskFree s.tasks (nullable o.task) = some t
      ∧ Option.Rel (Shown tasks procs) (processUnlink o.process k₂)
        ((Tasks.processUnlink { s with tasks := t } o.process).bind
          unpanicked) := by
  have hown : ∀ c ∈ o.owned, c.1 ≠ 0#32 := fun c hc =>
    hlive.ok.ram.ne_null (List.mem_append_right _ (List.mem_append_left _ hc))
  obtain ⟨k₂, hfree⟩ := taskFree_of_links (k := k₁)
    (hown (o.task, 1) (by simp [Objects.owned]))
    (hown (o.parts.chunk, 1) (by simp [Objects.owned]))
    (hown (o.parts.dir, 1) (by simp [Objects.owned])) hlinks
  obtain ⟨t, hfreed, hshown⟩ :=
    taskFree_refines h.tasks hlive.apart hlive.ownTask hprev hfree
  obtain ⟨hprocs, hcurr, hsame⟩ := taskFree_frame hfree
  have hshown₂ : Shown tasks procs k₂ { s with tasks := t } := by
    refine ⟨hshown, fun i => ?_, ?_, fun p hp => ?_, h.running⟩
    · rw [hprocs]
      exact h.processes i
    · rw [hcurr]
      exact h.currProcess
    · have hblock : SameOn p (blockBytes 3) k₁.ram.mem k₂.ram.mem :=
        hsame p _ fun hnull =>
          (hlive.beside (hprev hnull) hp).part (by decide)
      have hspan : SameOn p sizeofProcess k₁.ram.mem k₂.ram.mem := fun x hx =>
        hblock x (Nat.lt_trans hx (by decide))
      rw [processAt_congr hspan]
      exact h.process p hp
  exact ⟨k₂, t, hfree, hfreed, processUnlink_refines hshown₂ hlive.ownProcess
    (hown (o.process, 3) (by simp [Objects.owned]))⟩

/-- What is left of a termination that has not panicked. -/
def terminated (a : Int × Tasks.ProcessSys) :
    Option (Int × Tasks.ProcessSys) :=
  (unpanicked a.2).map fun s => (a.1, s)

theorem processTerminate_freed {t : Tasks.TaskSys}
    (hres : ¬ Tasks.processFreeProgranData (s.memory process) < 0)
    (hfree : Tasks.taskFree s.tasks (s.memory process).task = some t) :
    (Tasks.processTerminate s process).bind terminated
      = ((Tasks.processUnlink { s with tasks := t } process).bind
        unpanicked).map fun s' =>
          (Tasks.processFreeProgranData (s.memory process), s') := by
  unfold Tasks.processTerminate
  simp only
  rw [if_neg hres, hfree]
  simp only
  cases Tasks.processUnlink { s with tasks := t } process with
  | none => rfl
  | some s' => rfl

/-- `process_terminate` of a live process. -/
theorem processTerminate_refines (hlive : LiveProcess o others tasks procs k)
    (h : Shown tasks procs k s) :
    Option.Rel (fun a b => a.1 = b.1 ∧ Shown tasks procs a.2 b.2)
      (processTerminate o.process k)
      ((Tasks.processTerminate s o.process).bind terminated) := by
  have hshown₁ := shown_of_allocations hlive h
  have hswept := (swept hlive.ok benosMaxProgramAllocations (Nat.le_refl _)).1
  have hrecord : s.memory o.process = processAt k.ram.mem o.process :=
    h.process _ hlive.ownProcess
  have hword : load32 k.ram.mem (o.process + offTask) = o.task :=
    hlive.ok.links.task
  unfold processTerminate
  simp only
  obtain ⟨r, hr⟩ : ∃ r, processTerminateAllocations o.process k.ram = r :=
    ⟨_, rfl⟩
  have hlinks : o.Links r.mem := by
    rw [← hr]
    exact hswept.ok.links
  rw [hr] at hshown₁ ⊢
  have hrecord₁ : s.memory o.process = processAt r.mem o.process :=
    hshown₁.process _ hlive.ownProcess
  obtain ⟨hres, hmem⟩ := processFreeProgranData_refines o.process r
  rw [← hrecord₁] at hres
  generalize processFreeProgranData o.process r = a at hres hmem ⊢
  by_cases hfail : a.1 < 0
  case pos =>
    have hshown : Shown tasks procs { k with ram := a.2 } s :=
      hshown₁.of_mem hmem
    unfold Tasks.processTerminate terminated
    simp only
    rw [← hres, if_pos hfail, if_pos hfail, Option.bind_some,
      hshown.unpanicked]
    exact .some ⟨rfl, hshown⟩
  case neg =>
    rw [if_neg hfail]
    have hshown₂ : Shown tasks procs { k with
        ram := kfree (load32 a.2.mem (o.process + offStack)) a.2 } s :=
      hshown₁.of_mem hmem
    -- the process has the task it had, and that the task in front of it
    have htask : load32 (kfree (load32 a.2.mem (o.process + offStack)) a.2).mem
        (o.process + offTask) = o.task := by
      rw [kfree_mem, hmem]
      exact hlinks.task
    have hprev := (hshown₂.tasks.prev hlive.ownTask).symm.trans
      (h.tasks.prev hlive.ownTask)
    have htask' : (s.memory o.process).task = nullable o.task := by
      rw [hrecord, ← hword]
      rfl
    have hlinks₂ : o.Links (kfree (load32 a.2.mem (o.process + offStack))
        a.2).mem := by
      rw [kfree_mem, hmem]
      exact hlinks
    obtain ⟨k₂, t, hfree, hfreed, hunlink⟩ := processTerminate_unlink hlive
      hshown₂ hlinks₂ (by rw [nullable_inj.mp hprev]; exact hlive.before)
    rw [htask, hfree,
      processTerminate_freed (hres ▸ hfail) (htask' ▸ hfreed), ← hres]
    simp only [Option.bind_eq_bind, Option.bind_some]
    rw [Option.map_eq_bind]
    exact rel_bind hunlink fun _ _ hshown' => .some ⟨rfl, hshown'⟩

-- ============================================================ the tasks left

variable {t t' : Tasks.TaskSys} {task : Addr}

theorem Closed.skip (h : Closed tasks t) (htask : task ∈ tasks) :
    Closed tasks (Tasks.taskListSkip t task) := by
  unfold Tasks.taskListSkip
  split
  case h_2 => exact h
  case h_1 prev _ =>
    refine ⟨h.head, fun a ha b hb => ?_, h.current⟩
    by_cases hap : a = prev
    · rw [hap] at hb
      simp only [Function.update_self] at hb
      exact h.next task htask b hb
    · simp only [Function.update_of_ne hap] at hb
      exact h.next a ha b hb

theorem Closed.moveHead (h : Closed tasks t) (htask : task ∈ tasks) :
    Closed tasks (Tasks.taskListMoveHead t task) := by
  unfold Tasks.taskListMoveHead
  split
  case isTrue => exact ⟨h.next task htask, h.next, h.current⟩
  case isFalse => exact h

theorem Closed.moveTail (h : Closed tasks t) (task : Addr) :
    Closed tasks (Tasks.taskListMoveTail t task) := by
  unfold Tasks.taskListMoveTail
  split
  case isTrue => exact ⟨h.head, h.next, h.current⟩
  case isFalse => exact h

/-- What is left when a task is freed goes on among those listed. -/
theorem Closed.taskFree (h : Closed tasks t) {a : Option Addr}
    (ha : ∀ task, a = some task → task ∈ tasks)
    (hfree : Tasks.taskFree t a = some t') : Closed tasks t' := by
  unfold Tasks.taskFree at hfree
  cases a with
  | none => cases hfree
  | some task =>
      have htask := ha task rfl
      simp only at hfree
      split at hfree
      case h_1 => cases hfree
      case h_2 =>
        unfold Tasks.taskListRemove at hfree
        simp only at hfree
        have hmoved := ((h.skip htask).moveHead htask).moveTail task
        generalize Tasks.taskListMoveTail (Tasks.taskListMoveHead
          (Tasks.taskListSkip t task) task) task = t₁ at hmoved hfree
        split at hfree
        case isFalse =>
          rw [← Option.some.inj hfree]
          exact hmoved
        case isTrue =>
          split at hfree
          case h_2 => cases hfree
          case h_1 next hnext =>
            rw [← Option.some.inj hfree]
            refine ⟨hmoved.head, hmoved.next, fun c hc => ?_⟩
            have hc' : next = some c := hc
            rw [hc'] at hnext
            exact hmoved.getNext hnext

/-- Unlinking a process leaves the tasks. -/
theorem processUnlink_tasks {s' : Tasks.ProcessSys}
    (h : Tasks.processUnlink s process = some s') : s'.tasks = s.tasks := by
  unfold Tasks.processUnlink at h
  simp only at h
  split at h
  case isFalse => cases h
  case isTrue =>
    split at h
    case isFalse => rw [← Option.some.inj h]
    case isTrue =>
      rw [← Option.some.inj h]
      unfold Tasks.processSwitchToAny Tasks.processSwitch
      split
      · rfl
      · rfl

theorem Closed.processTerminate {res : Int} {s' : Tasks.ProcessSys}
    (h : Closed tasks s.tasks)
    (htask : ∀ task, (s.memory process).task = some task → task ∈ tasks)
    (hterm : Tasks.processTerminate s process = some (res, s')) :
    Closed tasks s'.tasks := by
  unfold Tasks.processTerminate at hterm
  simp only at hterm
  split at hterm
  case isTrue =>
    rw [← (Prod.mk.inj (Option.some.inj hterm)).2]
    exact h
  case isFalse =>
    split at hterm
    case h_1 => cases hterm
    case h_2 t hfree =>
      split at hterm
      case h_1 => cases hterm
      case h_2 s₁ hunlink =>
        rw [← (Prod.mk.inj (Option.some.inj hterm)).2,
          processUnlink_tasks hunlink]
        exact h.taskFree htask hfree

-- ========================================================= exits and faults

/-- The state in which a task is returned to, if one is. -/
def resumed : Tasks.ExitOutcome → Option Tasks.ProcessSys
  | .resumed s => some s
  | _ => none

theorem terminated_tasks {a b : Int × Tasks.ProcessSys}
    (h : terminated a = some b) : b.2.tasks = a.2.tasks := by
  unfold terminated unpanicked at h
  split at h
  case isTrue => cases h
  case isFalse => rw [← Option.some.inj h]

/-- The current task goes: its process is terminated, and where that does
not panic, the next task runs. -/
theorem resumed_terminateCurrent {t : Addr}
    (hcurrent : s.tasks.currentTask = some t) :
    resumed (Tasks.terminateCurrent s)
      = ((Tasks.processTerminate s (s.tasks.tasks t).process).bind
        terminated).bind fun b =>
          (Tasks.taskNextSwitch b.2.tasks).map fun t =>
            { b.2 with tasks := t } := by
  unfold Tasks.terminateCurrent
  rw [hcurrent]
  simp only
  cases Tasks.processTerminate s (s.tasks.tasks t).process with
  | none => rfl
  | some b =>
      obtain ⟨res, s'⟩ := b
      simp only [Option.bind_some]
      unfold terminated unpanicked
      simp only
      by_cases hpanicked : s'.panicked
      · rw [if_pos hpanicked, if_pos hpanicked]
        rfl
      · rw [if_neg hpanicked, if_neg hpanicked]
        simp only [Option.map_some, Option.bind_some]
        unfold Tasks.exitTaskNext Tasks.taskNextSwitch
        cases Tasks.taskGetNext s'.tasks with
        | none => rfl
        | some next =>
            cases next with
            | none => rfl
            | some next => rfl

/-- The process of the current task lives, and what is in memory is what
`Tasks` has. -/
structure Current (o : Objects) (others : List (Addr × Nat))
    (tasks procs : List Addr) (sys : Isr80h.SysState)
    (s : Tasks.ProcessSys) : Prop where
  live : LiveProcess o others tasks procs sys.kernel
  shown : Shown tasks procs sys.kernel s
  closed : Closed tasks s.tasks
  current : sys.kernel.currentTask ≠ 0#32
  process : Isr80h.currentProcess sys = o.process

/-- Behind its end another task runs, and what goes on is shown. -/
structure WentOn (tasks procs : List Addr) (task : Addr)
    (sys : Isr80h.SysState) (s : Tasks.ProcessSys) : Prop where
  shown : Shown tasks procs sys.kernel s
  switched : SwitchedTo tasks task sys s.tasks

variable {sys : Isr80h.SysState}

/-- The end of the current task: its process is terminated, and the next
task is returned to, whatever else `rest` does to the state between. -/
theorem terminateCurrent_refines (h : Current o others tasks procs sys s)
    {rest : Int × KernelState → Isr80h.SysState}
    (hrest : ∀ a, (rest a).kernel = a.2) :
    Option.Rel (fun handled s' => ∃ task sys', handled = .started task sys'
        ∧ WentOn tasks procs task sys' s')
      ((processTerminate (Isr80h.currentProcess sys) sys.kernel).bind
        fun a => (Isr80h.taskNext (rest a)).map fun r =>
          Isr80h.Handled.started r.1 r.2)
      (resumed (Tasks.terminateCurrent s)) := by
  have hsome : s.tasks.currentTask = some sys.kernel.currentTask := by
    rw [h.shown.tasks.current, nullable_of_ne h.current]
  have hproc : (s.tasks.tasks sys.kernel.currentTask).process = o.process := by
    rw [h.shown.tasks.record _ (h.closed.current _ hsome)]
    exact h.process
  have htask : ∀ t, (s.memory o.process).task = some t → t ∈ tasks := by
    intro t ht
    have hown : (s.memory o.process).task = nullable o.task := by
      rw [h.shown.process _ h.live.ownProcess, ← h.live.ok.links.task]
      rfl
    rw [hown] at ht
    unfold nullable at ht
    split at ht
    case isTrue => cases ht
    case isFalse =>
      rw [← Option.some.inj ht]
      exact h.live.ownTask
  have hkeep : ∀ b, (Tasks.processTerminate s o.process).bind terminated
      = some b → Closed tasks b.2.tasks := by
    intro b hb
    obtain ⟨⟨res, s₁⟩, hterm, hb⟩ := Option.bind_eq_some_iff.mp hb
    rw [terminated_tasks hb]
    exact h.closed.processTerminate htask hterm
  have hterm := rel_and_right (processTerminate_refines h.live h.shown) hkeep
  rw [resumed_terminateCurrent hsome, hproc, h.process]
  refine rel_bind hterm ?_
  rintro ⟨res, k₁⟩ ⟨res', s₁⟩ ⟨⟨-, hshown⟩, hclosed⟩
  have hkernel := hrest (res, k₁)
  have htasks : TasksShown tasks (rest (res, k₁)).kernel s₁.tasks := by
    rw [hkernel]
    exact hshown.tasks
  have hnext := taskNext_refines htasks hclosed
  refine rel_map hnext ?_
  rintro ⟨task, sys'⟩ t ⟨hswitched, -, hsame⟩
  refine ⟨task, sys', rfl, ⟨hswitched.shown, fun i => ?_, ?_, fun p hp => ?_,
    hshown.running⟩, hswitched⟩
  · rw [hsame, hkernel]
    exact hshown.processes i
  · rw [hsame, hkernel]
    exact hshown.currProcess
  · rw [hsame, hkernel]
    exact hshown.process p hp

/-- The state `isr80h_command9_exit` goes on in: it may have printed. -/
def exitPrinted (sys : Isr80h.SysState) (a : Int × KernelState) :
    Isr80h.SysState :=
  if a.1 < 0 then { sys with kernel := a.2 }
  else
    { sys with
      kernel := a.2
      terminal := (Terminal.print Isr80h.terminatedMessage sys.terminal).val }

theorem isr80hCommand9Exit_eq (sys : Isr80h.SysState) :
    Isr80h.isr80hCommand9Exit sys
      = (processTerminate (Isr80h.currentProcess sys) sys.kernel).bind
        fun a => (Isr80h.taskNext (exitPrinted sys a)).map fun r =>
          .started r.1 r.2 := by
  unfold Isr80h.isr80hCommand9Exit
  cases processTerminate (Isr80h.currentProcess sys) sys.kernel with
  | none => rfl
  | some a =>
      simp only [Option.bind_eq_bind, Option.bind_some, Option.map_eq_bind]
      rfl

theorem idtHandleException_eq (sys : Isr80h.SysState) :
    Idt.idtHandleException sys
      = (processTerminate (Isr80h.currentProcess sys) sys.kernel).bind
        fun a => (Isr80h.taskNext { sys with kernel := a.2 }).map fun r =>
          .started r.1 r.2 := by
  unfold Idt.idtHandleException
  cases processTerminate (Isr80h.currentProcess sys) sys.kernel with
  | none => rfl
  | some a =>
      simp only [Option.bind_eq_bind, Option.bind_some, Option.map_eq_bind]
      rfl

/-- The end of the current task in memory, by exit and by fault, is that of
`Tasks`: the kernel returns to a task exactly where `Tasks` resumes one,
and to the same; where one panics, for want of a process or of a task, or
follows a null pointer, so does the other. -/
theorem end_in_memory (h : Current o others tasks procs sys s) :
    Option.Rel (fun handled s' => ∃ task sys', handled = .started task sys'
          ∧ WentOn tasks procs task sys' s')
        (Isr80h.isr80hCommand9Exit sys)
        (resumed (Tasks.isr80hCommand9Exit s))
      ∧ Option.Rel (fun handled s' => ∃ task sys', handled = .started task sys'
          ∧ WentOn tasks procs task sys' s')
        (Idt.idtHandleException sys)
        (resumed (Tasks.idtHandleException s)) := by
  have hprinted : ∀ a, (exitPrinted sys a).kernel = a.2 := by
    intro a
    unfold exitPrinted
    split
    · rfl
    · rfl
  rw [isr80hCommand9Exit_eq, idtHandleException_eq]
  exact ⟨terminateCurrent_refines h hprinted,
    terminateCurrent_refines h fun _ => rfl⟩

-- ============================================================== two processes

theorem linkedWords :
    load32 linkedMemory ((objectsAt 0).task + offProcess)
        = (objectsAt 0).process
      ∧ load32 linkedMemory ((objectsAt 0).task + offNext)
        = (objectsAt 1030).task
      ∧ load32 linkedMemory ((objectsAt 0).task + offPrev) = 0#32
      ∧ load32 linkedMemory ((objectsAt 1030).task + offNext) = 0#32
      ∧ load32 linkedMemory ((objectsAt 1030).task + offPrev)
        = (objectsAt 0).task := by
  decide +kernel

/-- Only the two tasks are written to. -/
theorem linkedMemory_sameOn {a : Addr} {n : Nat}
    (h : SpansApart (objectsAt 0).task (blockBytes 1) a n)
    (h' : SpansApart (objectsAt 1030).task (blockBytes 1) a n) :
    SameOn a n twoFresh.mem linkedMemory := by
  have hfield : ∀ {t o v : Addr} {m : Bytes}, o.toNat + 4 ≤ blockBytes 1 →
      SpansApart t (blockBytes 1) a n → SameOn a n m (store32 m (t + o) v) :=
    fun hin ht => writeBytes_sameOn _ _ (ht.part hin)
  have hprocess := hfield (v := (objectsAt 0).process) (m := twoFresh.mem)
    (show offProcess.toNat + 4 ≤ _ by decide) h
  exact (hprocess.trans (hfield (show offNext.toNat + 4 ≤ _ by decide) h)).trans
    (hfield (show offPrev.toNat + 4 ≤ _ by decide) h')

/-- Other objects of the first process have the bytes they had. -/
theorem linkedMemory_object {c : Addr × Nat} (hc : c ∈ (objectsAt 0).owned)
    (hne : c ≠ ((objectsAt 0).task, 1)) :
    SameOn c.1 (blockBytes c.2) twoFresh.mem linkedMemory := by
  have htask : ((objectsAt 0).task, 1) ∈ (objectsAt 0).owned :=
    List.mem_cons_of_mem _ List.mem_cons_self
  have htask' : ((objectsAt 1030).task, 1) ∈ (objectsAt 1030).owned :=
    List.mem_cons_of_mem _ List.mem_cons_self
  refine linkedMemory_sameOn (ramOk_twoFresh.1.spansApart_of_ne
    (List.mem_append_left _ htask) (List.mem_append_left _ hc) (Ne.symm hne)) ?_
  exact (List.pairwise_append.mp ramOk_twoFresh.1.spansApart).2.2 c hc _ htask'
    |>.symm

theorem links_linkedMemory : (objectsAt 0).Links linkedMemory := by
  have hold := fresh_first.ok.links
  have hprocess : SameOn (objectsAt 0).process (blockBytes 3) twoFresh.mem
      linkedMemory :=
    linkedMemory_object (c := ((objectsAt 0).process, 3)) List.mem_cons_self
      (by decide)
  have hchunk : SameOn (objectsAt 0).parts.chunk (blockBytes 1) twoFresh.mem
      linkedMemory :=
    linkedMemory_object (c := ((objectsAt 0).parts.chunk, 1))
      (by simp [Objects.owned]) (by decide)
  have hdir : SameOn (objectsAt 0).parts.dir (blockBytes 1) twoFresh.mem
      linkedMemory :=
    linkedMemory_object (c := ((objectsAt 0).parts.dir, 1))
      (by simp [Objects.owned]) (by decide)
  refine ⟨(load32_congr (hprocess.part (by decide))).trans hold.task, ?_,
    hold.dirOk.sameOn ?_ hdir⟩
  · decide +kernel
  · exact fun x hx => hchunk x (Nat.lt_trans hx (by decide))

theorem procOk_linked :
    ProcOk (objectsAt 0) (objectsAt 1030).owned
      ⟨twoFresh.heap, linkedMemory, true⟩ := by
  have hprocess : SameOn (objectsAt 0).process (blockBytes 3) twoFresh.mem
      linkedMemory :=
    linkedMemory_object (c := ((objectsAt 0).process, 3)) List.mem_cons_self
      (by decide)
  have htable := fun i hi => alloc_congr (i := i) hprocess hi
  have hold := fresh_first.ok
  have hram : ∀ live, RamOk twoFresh live →
      RamOk ⟨twoFresh.heap, linkedMemory, true⟩ live := by
    generalize twoFresh = r
    exact fun live h => h.of_heap rfl
  refine ⟨?_, links_linkedMemory, fun i hi hptr => ?_⟩
  · rw [recorded_congr htable]
    exact hram _ hold.ram
  · rw [(htable i hi).2]
    exact hold.empty i hi ((htable i hi).1 ▸ hptr)

theorem liveProcess_linked : LiveProcess (objectsAt 0) (objectsAt 1030).owned
    linkedTasks linkedProcs linkedKernel := by
  have hprev : taskPrev linkedKernel (objectsAt 0).task = 0#32 := by
    unfold taskPrev
    rw [ram_linkedKernel]
    exact linkedWords.2.2.1
  have hram := procOk_linked
  rw [← ram_linkedKernel] at hram
  refine ⟨hram, fun a ha => ?_, fun a ha => ?_, List.mem_cons_self,
    List.mem_cons_self, fun hne => absurd hprev hne⟩
  · rcases List.mem_cons.mp ha with rfl | ha
    · exact Or.inl rfl
    · rw [List.mem_singleton.mp ha]
      exact Or.inr (List.mem_cons_of_mem _ List.mem_cons_self)
  · rcases List.mem_cons.mp ha with rfl | ha
    · exact Or.inl rfl
    · rw [List.mem_singleton.mp ha]
      exact Or.inr List.mem_cons_self

/-- The first task leads to the second, and that to none. -/
theorem links_linkedSys :
    linkedSys.tasks.next (objectsAt 0).task = some (objectsAt 1030).task
      ∧ linkedSys.tasks.next (objectsAt 1030).task = none
      ∧ linkedSys.tasks.prev (objectsAt 0).task = none
      ∧ linkedSys.tasks.prev (objectsAt 1030).task
        = some (objectsAt 0).task := by
  obtain ⟨-, hnext, hprev, hend, hback⟩ := linkedWords
  refine ⟨?_, ?_, ?_, ?_⟩
  · exact (congrArg nullable hnext).trans (nullable_task (by decide))
  · exact nullable_eq_none.mpr hend
  · exact nullable_eq_none.mpr hprev
  · exact (congrArg nullable hback).trans (nullable_task (by decide))

theorem closed_linkedSys : Closed linkedTasks linkedSys.tasks := by
  obtain ⟨hnext, hend, -, -⟩ := links_linkedSys
  refine ⟨fun a ha => ?_, fun a ha b hb => ?_, fun a ha => ?_⟩
  · rw [← Option.some.inj ha]
    exact List.mem_cons_self
  · rcases List.mem_cons.mp ha with rfl | ha
    · rw [← Option.some.inj (hnext.symm.trans hb)]
      exact List.mem_cons_of_mem _ List.mem_cons_self
    · rw [List.mem_singleton.mp ha] at hb
      cases hend.symm.trans hb
  · rw [← Option.some.inj ha]
    exact List.mem_cons_self

/-- A processor that runs them. -/
def exitState : Isr80h.SysState :=
  { Isr80h.callerState with kernel := linkedKernel }

theorem current_exitState : Current (objectsAt 0) (objectsAt 1030).owned
    linkedTasks linkedProcs exitState linkedSys := by
  have hkernel : exitState.kernel = linkedKernel := rfl
  refine ⟨liveProcess_linked, shown_linked, closed_linkedSys,
    blockAddress_ne_null (by decide), ?_⟩
  unfold Isr80h.currentProcess Isr80h.SysState.mem
  rw [hkernel, ram_linkedKernel]
  exact linkedWords.1

/-- Its exit, as `Tasks` has it, resumes the second task. -/
theorem resumed_linkedSys : ∃ s,
    resumed (Tasks.isr80hCommand9Exit linkedSys) = some s
      ∧ s.tasks.currentTask = some (objectsAt 1030).task := by
  obtain ⟨hnext, hend, hprev, hback⟩ := links_linkedSys
  have hchunk : load32 linkedMemory ((objectsAt 0).task + offPageDirectory)
      = (objectsAt 0).parts.chunk := links_linkedMemory.chunk
  have hexiting : Tasks.Exiting linkedSys linkedTasks (objectsAt 0).task
      (objectsAt 0).process := by
    refine ⟨⟨by decide, rfl, rfl, fun i hi => ?_, fun i hi => ?_, ?_⟩,
      List.mem_cons_self, rfl, ?_, linkedWords.1, ?_, Or.inl ?_, ?_, rfl⟩
    · rcases i with _ | _ | i
      · exact hnext
      · exact hend
      · simp only [linkedTasks, List.length_cons, List.length_nil] at hi
        omega
    · rcases i with _ | i
      · exact hback
      · simp only [linkedTasks, List.length_cons, List.length_nil] at hi
        omega
    · rintro a ha
      rw [← Option.some.inj ha]
      exact hprev
    · intro hnull
      have hzero : load32 linkedMemory ((objectsAt 0).task + offPageDirectory)
          = 0#32 := nullable_eq_none.mp hnull
      exact blockAddress_ne_null (by decide) (hchunk.symm.trans hzero)
    · have htask : load32 linkedMemory ((objectsAt 0).process + offTask)
          = (objectsAt 0).task := links_linkedMemory.task
      exact (congrArg nullable htask).trans (nullable_task (by decide))
    · decide +kernel
    · decide +kernel
  have hfound : Tasks.FindsForeground linkedSys (objectsAt 0).process := by
    refine Or.inr ⟨1, ?_, ?_⟩
    · decide +kernel
    · decide +kernel
  obtain ⟨hresumes, -⟩ := (Tasks.terminateCurrent_exact hexiting).mpr
    ⟨rfl, hfound⟩
  obtain ⟨s, hs, hcurrent⟩ := hresumes (by decide) 0 (by decide) rfl
  refine ⟨s, ?_, hcurrent⟩
  unfold Tasks.isr80hCommand9Exit
  rw [hs]
  rfl

theorem end_in_memory_two_tasks : ∃ sys s,
    Isr80h.isr80hCommand9Exit exitState
        = some (.started (objectsAt 1030).task sys)
      ∧ resumed (Tasks.isr80hCommand9Exit linkedSys) = some s
      ∧ WentOn linkedTasks linkedProcs (objectsAt 1030).task sys s := by
  obtain ⟨s, hs, hcurrent⟩ := resumed_linkedSys
  obtain ⟨hexit, -⟩ := end_in_memory current_exitState
  rw [hs] at hexit
  obtain ⟨handled, hhandled, task, sys, rfl, hwent⟩ := rel_some_right hexit
  have htask : task = (objectsAt 1030).task :=
    Option.some.inj (hwent.switched.current.symm.trans hcurrent)
  rw [htask] at hhandled hwent
  exact ⟨sys, s, hhandled, hs, hwent⟩

end BenOS.Refine
