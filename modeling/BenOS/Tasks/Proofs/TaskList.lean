/-
The task list over whole histories: sequences of `task_new`,
`task_free` and `task_switch` from the boot state.

`TaskRun` adds to the task globals the list of live tasks in creation
order; `taskStep` is one call. What is required of a state (`ListOk`) is
read off the links as the scheduler follows them: forwards from the
head, backwards from the tail, and never into a freed task.

`task_list_remove` repairs the predecessor's `next`, the head, the tail
and the current task, but not the successor's `prev`. So the
requirement survives a `task_free` exactly when there is no successor
(`listOk_free_iff`), and a history is right at every state exactly when
each task it frees is the tail at that moment (`task_list_exact`).
-/
import BenOS.Lib.Dll
import BenOS.Lib.Run
import BenOS.Tasks.List

namespace BenOS.Tasks

open Lib

-- ============================================================== the system

/-- `next` of the task at an address. -/
def TaskSys.next (s : TaskSys) (t : Addr) : Option Addr := (s.tasks t).next

/-- `prev` of the task at an address. -/
def TaskSys.prev (s : TaskSys) (t : Addr) : Option Addr := (s.tasks t).prev

/-- The task globals with the live tasks, oldest first. -/
structure TaskRun where
  sys : TaskSys
  live : List Addr

/-- One call. `new` names the memory and the page directory the
allocator answers with. -/
inductive TaskOp
  | new (mem chunk process : Addr) (entry : TaskEntry)
  | free (task : Addr)
  | switch (task : Addr)

/-- One call on the task list: a `task_new` whose memory no live task
occupies, or a call on a live task. -/
def taskStep (s : TaskRun) : TaskOp → Option TaskRun
  | .new mem chunk process entry =>
      if mem ∈ s.live then none
      else
        match taskNew s.sys (some mem) (some chunk) process entry with
        | some sys => some { sys := sys, live := s.live ++ [mem] }
        | none => none
  | .free task =>
      if task ∈ s.live then
        match taskFree s.sys (some task) with
        | some sys => some { sys := sys, live := s.live.erase task }
        | none => none
      else none
  | .switch task =>
      if task ∈ s.live then
        some { s with sys := taskSwitch s.sys task }
      else none

/-- The globals at boot, over any memory. -/
def bootTasks (tasks : Addr → Task) : TaskRun where
  sys :=
    { tasks := tasks, currentTask := none, taskTail := none
      taskHead := none, currDir := none }
  live := []

-- ======================================================= what is required

/-- The list is exactly the live tasks in creation order, both ways, no
link of a live task leaves them, and the current task is one of them
whenever there is one. -/
structure ListOk (s : TaskRun) : Prop where
  forward : follow s.sys.next (s.live.length + 1) s.sys.taskHead = s.live
  ends : s.live.getLast? = s.sys.taskTail
  backward :
    follow s.sys.prev (s.live.length + 1) s.sys.taskTail = s.live.reverse
  starts : s.live.head? = s.sys.taskHead
  nextLive : ∀ t ∈ s.live, ∀ u, s.sys.next t = some u → u ∈ s.live
  prevLive : ∀ t ∈ s.live, ∀ u, s.sys.prev t = some u → u ∈ s.live
  currentLive : s.live ≠ [] → ∃ c ∈ s.live, s.sys.currentTask = some c
  getNextLive : s.live ≠ [] → ∃ u ∈ s.live, taskGetNext s.sys = some (some u)

/-- The task a call frees is the tail of the list. -/
def FreesTail (s : TaskRun) (op : TaskOp) (_ : TaskRun) : Prop :=
  match op with
  | .free task => s.sys.taskTail = some task
  | _ => True

instance (s : TaskRun) (op : TaskOp) (s' : TaskRun) :
    Decidable (FreesTail s op s') := by
  cases op
  · exact inferInstanceAs (Decidable True)
  · exact inferInstanceAs (Decidable (_ = _))
  · exact inferInstanceAs (Decidable True)

-- ============================================================ the invariant

/-- The links thread the live tasks, one of which is current when there
is any, and each of which has its page directory. -/
structure ListInv (s : TaskRun) : Prop where
  dll : IsDll s.sys.next s.sys.prev s.sys.taskHead s.sys.taskTail s.live
  current : s.live ≠ [] → ∃ c ∈ s.live, s.sys.currentTask = some c
  paged : ∀ t ∈ s.live, (s.sys.tasks t).pageDirectory ≠ none

theorem listInv_boot (tasks : Addr → Task) : ListInv (bootTasks tasks) :=
  ⟨IsDll.nil _ _, fun h => absurd rfl h, fun _ h => absurd h List.not_mem_nil⟩

/-- `task_get_next` stays inside a well-formed list. -/
theorem ListInv.getNext {s : TaskRun} (h : ListInv s) (hne : s.live ≠ []) :
    ∃ u ∈ s.live, taskGetNext s.sys = some (some u) := by
  obtain ⟨c, hc, hcur⟩ := h.current hne
  unfold taskGetNext
  rw [hcur]
  simp only
  cases hnext : (s.sys.tasks c).next with
  | some u => exact ⟨u, h.dll.next_mem hc hnext, rfl⟩
  | none =>
      have hhead := h.dll.head_eq
      obtain ⟨a, xs, hlive⟩ := List.exists_cons_of_ne_nil hne
      rw [hlive, List.head?_cons] at hhead
      exact ⟨a, by rw [hlive]; exact List.mem_cons_self, by rw [hhead]⟩

/-- The invariant gives everything that is required. -/
theorem ListInv.listOk {s : TaskRun} (h : ListInv s) : ListOk s where
  forward := h.dll.follow_next
  ends := h.dll.tail_eq.symm
  backward := h.dll.follow_prev
  starts := h.dll.head_eq.symm
  nextLive := fun _ ht _ hu => h.dll.next_mem ht hu
  prevLive := fun _ ht _ hu => h.dll.prev_mem ht hu
  currentLive := h.current
  getNextLive := h.getNext

-- ========================================================= what a call does

/-- Everything `task_list_remove` does to the globals and to the memory
of the tasks. The successor's `prev` is not among it. -/
structure Removed (s : TaskSys) (t : Addr) (s' : TaskSys) : Prop where
  next : ∀ u, s'.next u = if s.prev t = some u then s.next t else s.next u
  prev : ∀ u, s'.prev u = s.prev u
  registers : ∀ u, (s'.tasks u).registers = (s.tasks u).registers
  pageDirectory : ∀ u, (s'.tasks u).pageDirectory = (s.tasks u).pageDirectory
  head : s'.taskHead = if s.taskHead = some t then s.next t else s.taskHead
  tail : s'.taskTail = if s.taskTail = some t then s.prev t else s.taskTail
  current : s'.currentTask =
    if s.currentTask = some t then (s.next t).or s'.taskHead
    else s.currentTask

theorem taskListMoveHead_tasks (s : TaskSys) (t : Addr) :
    (taskListMoveHead s t).tasks = s.tasks := by
  unfold taskListMoveHead
  split <;> rfl

theorem taskListMoveTail_tasks (s : TaskSys) (t : Addr) :
    (taskListMoveTail s t).tasks = s.tasks := by
  unfold taskListMoveTail
  split <;> rfl

/-- What redirecting the predecessor does to one task. -/
theorem taskListSkip_tasks (s : TaskSys) (t u : Addr) :
    (taskListSkip s t).tasks u
      = if s.prev t = some u then { s.tasks u with next := s.next t }
        else s.tasks u := by
  unfold taskListSkip TaskSys.prev TaskSys.next
  cases hp : (s.tasks t).prev with
  | none => rfl
  | some p =>
      by_cases hu : u = p
      · subst hu
        simp
      · have hne : ¬ (some p = some u) := fun heq =>
          hu (Option.some.inj heq).symm
        simp [hu, hne]

theorem taskListSkip_globals (s : TaskSys) (t : Addr) :
    (taskListSkip s t).taskHead = s.taskHead
      ∧ (taskListSkip s t).taskTail = s.taskTail
      ∧ (taskListSkip s t).currentTask = s.currentTask := by
  unfold taskListSkip
  split <;> exact ⟨rfl, rfl, rfl⟩

/-- A task that is not its own predecessor is removed as `Removed`
says. -/
theorem taskListRemove_removed {s s' : TaskSys} {t : Addr}
    (h : taskListRemove s t = some s') (hself : s.prev t ≠ some t) :
    Removed s t s' := by
  obtain ⟨hhead₁, htail₁, hcur₁⟩ := taskListSkip_globals s t
  have htask₁ : ((taskListSkip s t).tasks t) = s.tasks t := by
    rw [taskListSkip_tasks, if_neg hself]
  -- the state before `current_task` is looked at
  have hbefore : ∀ s₃, s₃ = taskListMoveTail (taskListMoveHead
      (taskListSkip s t) t) t →
      s₃.tasks = (taskListSkip s t).tasks
      ∧ s₃.taskHead = (if s.taskHead = some t then s.next t else s.taskHead)
      ∧ s₃.taskTail = (if s.taskTail = some t then s.prev t else s.taskTail)
      ∧ s₃.currentTask = s.currentTask := by
    rintro s₃ rfl
    refine ⟨by rw [taskListMoveTail_tasks, taskListMoveHead_tasks], ?_, ?_, ?_⟩
    all_goals
      simp only [taskListMoveTail, taskListMoveHead, hhead₁]
      by_cases hh : s.taskHead = some t <;> by_cases ht : s.taskTail = some t
        <;> simp [hh, ht, hhead₁, htail₁, hcur₁, htask₁, TaskSys.next,
          TaskSys.prev]
  obtain ⟨htasks, hhead, htail, hcur⟩ := hbefore _ rfl
  generalize hs₃ : taskListMoveTail (taskListMoveHead
    (taskListSkip s t) t) t = s₃ at htasks hhead htail hcur
  unfold taskListRemove at h
  simp only [hs₃] at h
  have hs' : s'.tasks = s₃.tasks ∧ s'.taskHead = s₃.taskHead
      ∧ s'.taskTail = s₃.taskTail
      ∧ s'.currentTask = if s.currentTask = some t
          then (s.next t).or s₃.taskHead else s.currentTask := by
    rw [hcur] at h
    by_cases hc : s.currentTask = some t
    · rw [if_pos hc] at h ⊢
      have hget : taskGetNext s₃ = some ((s.next t).or s₃.taskHead) := by
        unfold taskGetNext
        rw [hcur, hc]
        simp only [htasks, htask₁]
        unfold TaskSys.next
        cases (s.tasks t).next <;> rfl
      rw [hget] at h
      injection h with h
      subst h
      exact ⟨rfl, rfl, rfl, rfl⟩
    · rw [if_neg hc] at h ⊢
      injection h with h
      subst h
      exact ⟨rfl, rfl, rfl, hcur⟩
  obtain ⟨htasks', hhead', htail', hcur'⟩ := hs'
  have hat : ∀ u, s'.tasks u
      = if s.prev t = some u then { s.tasks u with next := s.next t }
        else s.tasks u := by
    intro u
    rw [htasks', htasks, taskListSkip_tasks]
  have hframe : ∀ u, (s'.tasks u).prev = (s.tasks u).prev
      ∧ (s'.tasks u).registers = (s.tasks u).registers
      ∧ (s'.tasks u).pageDirectory = (s.tasks u).pageDirectory := by
    intro u
    rw [hat u]
    by_cases hp : s.prev t = some u
    · rw [if_pos hp]
      exact ⟨rfl, rfl, rfl⟩
    · rw [if_neg hp]
      exact ⟨rfl, rfl, rfl⟩
  refine ⟨?_, fun u => (hframe u).1, fun u => (hframe u).2.1,
    fun u => (hframe u).2.2, by rw [hhead', hhead], by rw [htail', htail],
    by rw [hcur', hhead']⟩
  intro u
  unfold TaskSys.next
  rw [hat u]
  by_cases hp : s.prev t = some u
  · rw [if_pos hp, if_pos hp]
    rfl
  · rw [if_neg hp, if_neg hp]

/-- Everything a successful `task_new` does to the globals and to the
memory of the tasks. -/
structure Added (s : TaskSys) (t chunk : Addr) (s' : TaskSys) : Prop where
  next : ∀ u, s'.next u =
    if u = t then none else if s.taskTail = some u then some t else s.next u
  prev : ∀ u, s'.prev u = if u = t then s.taskTail else s.prev u
  registers : ∀ u, u ≠ t → (s'.tasks u).registers = (s.tasks u).registers
  pageDirectory : ∀ u, (s'.tasks u).pageDirectory =
    if u = t then some chunk else (s.tasks u).pageDirectory
  head : s'.taskHead = s.taskHead.or (some t)
  tail : s'.taskTail = some t
  current : s'.currentTask =
    if s.taskHead = none then some t else s.currentTask

/-- A task in memory that is not the tail's is added as `Added` says. -/
theorem taskNew_added {s s' : TaskSys} {t chunk process : Addr}
    {entry : TaskEntry}
    (h : taskNew s (some t) (some chunk) process entry = some s')
    (hends : s.taskHead = none → s.taskTail = none)
    (hout : s.taskTail ≠ some t) : Added s t chunk s' := by
  unfold taskNew taskInit at h
  simp only [ne_eq, not_true_eq_false, if_false] at h
  by_cases hhead : s.taskHead = none
  · rw [if_pos hhead] at h
    injection h with h
    subst h
    refine ⟨?_, ?_, ?_, ?_, by simp [hhead], rfl, by simp [hhead]⟩
    all_goals
      intro u
      by_cases hu : u = t <;>
        simp [TaskSys.next, TaskSys.prev, hu, hends hhead]
  · rw [if_neg hhead] at h
    cases htail : s.taskTail with
    | none =>
        rw [htail] at h
        cases h
    | some tail =>
        rw [htail] at h hout
        have hne : tail ≠ t := fun heq => hout (by rw [heq])
        obtain ⟨first, hfirst⟩ := Option.ne_none_iff_exists'.mp hhead
        injection h with h
        subst h
        refine ⟨?_, ?_, ?_, ?_, by simp [hfirst], rfl, by simp [hhead]⟩
        all_goals
          intro u
          by_cases hu : u = t
          · subst hu
            simp [TaskSys.next, TaskSys.prev, htail, Ne.symm hne]
          · by_cases hu' : u = tail
            · subst hu'
              simp [TaskSys.next, TaskSys.prev, htail, hne]
            · simp [TaskSys.next, TaskSys.prev, htail, hu, hu', Ne.symm hu']

-- ========================================================== one step at a time

/-- A call of `task_new` keeps the invariant. -/
theorem ListInv.new {s : TaskRun} (h : ListInv s) {t chunk : Addr}
    {s' : TaskSys} (hfree : t ∉ s.live) (hadd : Added s.sys t chunk s') :
    ListInv { sys := s', live := s.live ++ [t] } := by
  have hne : ∀ u ∈ s.live, u ≠ t := fun u hu heq => hfree (heq ▸ hu)
  refine ⟨?_, fun _ => ?_, ?_⟩
  · rw [hadd.tail]
    refine h.dll.snoc hfree hadd.head ?_ ?_ ?_ ?_ ?_
    · intro a ha hlast
      rw [hadd.next, if_neg (hne a ha), if_neg hlast]
    · intro a hlast
      have ha : a ∈ s.live := by
        rw [h.dll.tail_eq] at hlast
        exact List.mem_of_getLast? hlast
      rw [hadd.next, if_neg (hne a ha), if_pos hlast]
    · rw [hadd.next, if_pos rfl]
    · intro a ha
      rw [hadd.prev, if_neg (hne a ha)]
    · rw [hadd.prev, if_pos rfl]
  · simp only [hadd.current]
    by_cases hhead : s.sys.taskHead = none
    · exact ⟨t, by simp, by rw [if_pos hhead]⟩
    · have hlive : s.live ≠ [] := by
        intro hnil
        exact hhead (by rw [h.dll.head_eq, hnil, List.head?_nil])
      obtain ⟨c, hc, hcur⟩ := h.current hlive
      exact ⟨c, List.mem_append_left _ hc, by rw [if_neg hhead, hcur]⟩
  · intro u hu
    rw [hadd.pageDirectory]
    by_cases hut : u = t
    · rw [if_pos hut]
      exact Option.some_ne_none chunk
    · rw [if_neg hut]
      refine h.paged u ?_
      rcases List.mem_append.mp hu with hu | hu
      · exact hu
      · exact absurd (List.mem_singleton.mp hu) hut

/-- Freeing the tail keeps the invariant. -/
theorem ListInv.freeTail {s : TaskRun} (h : ListInv s) {t : Addr}
    {s' : TaskSys} (htail : s.sys.taskTail = some t)
    (hrem : Removed s.sys t s') :
    ListInv { sys := s', live := s.live.erase t } := by
  obtain ⟨ys, hys⟩ : ∃ ys, s.live = ys ++ [t] := by
    have hlast := h.dll.tail_eq
    rw [htail] at hlast
    exact List.getLast?_eq_some_iff.mp hlast.symm
  have hdll := h.dll
  rw [hys] at hdll
  have hout : t ∉ ys := by
    have hnodup := hdll.nodup
    rw [List.nodup_append] at hnodup
    exact fun hmem => hnodup.2.2 t hmem t (List.mem_singleton_self t) rfl
  have herase : s.live.erase t = ys := by
    rw [hys, List.erase_append_right _ hout, List.erase_cons_head,
      List.append_nil]
  have hmem : t ∈ s.live := by simp [hys]
  have hnull : s.sys.next t = none := (h.dll.next_eq_none_iff hmem).mpr htail
  have hdll' : IsDll s'.next s'.prev s'.taskHead s'.taskTail ys := by
    rw [hrem.tail, if_pos htail]
    refine hdll.unsnoc ?_ ?_ ?_ ?_ ?_
    · intro hhead
      rw [hrem.head, if_pos hhead, hnull]
    · intro hhead
      rw [hrem.head, if_neg hhead]
    · intro a _ hp
      rw [hrem.next, if_neg hp]
    · intro a hp
      rw [hrem.next, if_pos hp, hnull]
    · intro a _
      exact hrem.prev a
  rw [herase]
  refine ⟨hdll', ?_, ?_⟩
  · intro hlive
    rw [hrem.current]
    by_cases hcur : s.sys.currentTask = some t
    · obtain ⟨a, xs, hxs⟩ : ∃ a xs, ys = a :: xs :=
        List.exists_cons_of_ne_nil hlive
      refine ⟨a, by simp [hxs], ?_⟩
      rw [if_pos hcur, hnull, hdll'.head_eq]
      rw [hxs, List.head?_cons]
      rfl
    · obtain ⟨c, hc, hcur'⟩ := h.current (List.ne_nil_of_mem hmem)
      refine ⟨c, ?_, by rw [if_neg hcur, hcur']⟩
      have hct : c ≠ t := fun heq => hcur (heq ▸ hcur')
      rw [hys] at hc
      rcases List.mem_append.mp hc with hc | hc
      · exact hc
      · exact absurd (List.mem_singleton.mp hc) hct
  · intro u hu
    rw [hrem.pageDirectory]
    exact h.paged u (by rw [hys]; exact List.mem_append_left _ hu)

/-- What a call on the free list of a well-formed list amounts to. -/
theorem ListInv.free_removed {s : TaskRun} (h : ListInv s) {t : Addr}
    {s' : TaskSys} (ht : t ∈ s.live) (hs : taskFree s.sys (some t) = some s') :
    Removed s.sys t s' := by
  unfold taskFree at hs
  obtain ⟨chunk, hchunk⟩ := Option.ne_none_iff_exists'.mp (h.paged t ht)
  simp only [hchunk] at hs
  exact taskListRemove_removed hs (h.dll.prev_ne ht)

/-- A freed task leaves a list that is as required exactly when it was
the tail: any other leaves its successor's `prev` pointing at it. -/
theorem ListInv.listOk_free_iff {s : TaskRun} (h : ListInv s) {t : Addr}
    {s' : TaskSys} (ht : t ∈ s.live) (hrem : Removed s.sys t s') :
    ListOk { sys := s', live := s.live.erase t } ↔
      s.sys.taskTail = some t := by
  refine ⟨fun hok => ?_, fun htail => (h.freeTail htail hrem).listOk⟩
  by_contra htail
  have hsome : s.sys.next t ≠ none := fun hnull =>
    htail ((h.dll.next_eq_none_iff ht).mp hnull)
  obtain ⟨u, hu⟩ := Option.ne_none_iff_exists'.mp hsome
  have hback : s'.prev u = some t := by
    rw [hrem.prev]
    exact h.dll.prev_of_next ht hu
  have hut : u ≠ t := fun heq => h.dll.next_ne ht (heq ▸ hu)
  have hlive : u ∈ s.live.erase t :=
    (List.mem_erase_of_ne hut).mpr (h.dll.next_mem ht hu)
  have hdead := hok.prevLive u hlive t hback
  exact absurd hdead h.dll.nodup.not_mem_erase

/-- A switch to a live task keeps the invariant. -/
theorem ListInv.switch {s : TaskRun} (h : ListInv s) {t : Addr}
    (ht : t ∈ s.live) : ListInv { s with sys := taskSwitch s.sys t } :=
  ⟨h.dll, fun _ => ⟨t, ht, rfl⟩, h.paged⟩

/-- No call on a well-formed list dereferences null: the calls that have
no outcome are a `task_new` in a live task's memory and a call on a task
that is not live. -/
theorem ListInv.step_eq_none_iff {s : TaskRun} (h : ListInv s) (op : TaskOp) :
    taskStep s op = none ↔
      match op with
      | .new mem _ _ _ => mem ∈ s.live
      | .free t => t ∉ s.live
      | .switch t => t ∉ s.live := by
  cases op with
  | new mem chunk process entry =>
      by_cases hmem : mem ∈ s.live
      · simp [taskStep, hmem]
      · have hsome : taskNew s.sys (some mem) (some chunk) process entry
            ≠ none := by
          unfold taskNew taskInit
          simp only [ne_eq, not_true_eq_false, if_false]
          by_cases hhead : s.sys.taskHead = none
          · rw [if_pos hhead]
            exact Option.some_ne_none _
          · rw [if_neg hhead]
            cases htail : s.sys.taskTail with
            | none =>
                rw [h.dll.tail_eq, List.getLast?_eq_none_iff] at htail
                rw [h.dll.head_eq, htail] at hhead
                exact absurd rfl hhead
            | some tail => exact Option.some_ne_none _
        obtain ⟨sys, hsys⟩ := Option.ne_none_iff_exists'.mp hsome
        simp [taskStep, hmem, hsys]
  | free t =>
      by_cases ht : t ∈ s.live
      · have hsome : taskFree s.sys (some t) ≠ none := by
          obtain ⟨chunk, hchunk⟩ := Option.ne_none_iff_exists'.mp (h.paged t ht)
          unfold taskFree taskListRemove
          simp only [hchunk]
          split
          · next hcur =>
              unfold taskGetNext
              rw [hcur]
              simp only
              cases (TaskSys.tasks (taskListMoveTail (taskListMoveHead
                (taskListSkip s.sys t) t) t) t).next <;>
                exact Option.some_ne_none _
          · exact Option.some_ne_none _
        obtain ⟨sys, hsys⟩ := Option.ne_none_iff_exists'.mp hsome
        simp [taskStep, ht, hsys]
      · simp [taskStep, ht]
  | switch t => simp [taskStep]

/-- The step lemma: from a well-formed list, one call leaves the list as
required exactly when it frees no task but the tail, and then the
invariant holds again. -/
theorem taskStep_exact {s s' : TaskRun} {op : TaskOp} (h : ListInv s)
    (hstep : taskStep s op = some s') :
    (FreesTail s op s' → ListInv s') ∧ (ListOk s' ↔ FreesTail s op s') := by
  cases op with
  | new mem chunk process entry =>
      unfold taskStep at hstep
      by_cases hmem : mem ∈ s.live
      · simp [hmem] at hstep
      · simp only [hmem, if_false] at hstep
        cases hnew : taskNew s.sys (some mem) (some chunk) process entry with
        | none => simp [hnew] at hstep
        | some sys =>
            simp only [hnew, Option.some.injEq] at hstep
            subst hstep
            have hends : s.sys.taskHead = none → s.sys.taskTail = none := by
              rw [h.dll.head_eq, h.dll.tail_eq]
              intro hhead
              rw [List.head?_eq_none_iff.mp hhead, List.getLast?_nil]
            have hout : s.sys.taskTail ≠ some mem := by
              rw [h.dll.tail_eq]
              exact fun hlast => hmem (List.mem_of_getLast? hlast)
            have hinv := h.new hmem (taskNew_added hnew hends hout)
            exact ⟨fun _ => hinv, iff_of_true hinv.listOk trivial⟩
  | free t =>
      unfold taskStep at hstep
      by_cases ht : t ∈ s.live
      · simp only [ht, if_true] at hstep
        cases hfree : taskFree s.sys (some t) with
        | none => simp [hfree] at hstep
        | some sys =>
            simp only [hfree, Option.some.injEq] at hstep
            subst hstep
            have hrem := h.free_removed ht hfree
            exact ⟨fun htail => h.freeTail htail hrem,
              h.listOk_free_iff ht hrem⟩
      · simp [ht] at hstep
  | switch t =>
      unfold taskStep at hstep
      by_cases ht : t ∈ s.live
      · simp only [ht, if_true, Option.some.injEq] at hstep
        subst hstep
        exact ⟨fun _ => h.switch ht,
          iff_of_true (h.switch ht).listOk trivial⟩
      · simp [ht] at hstep

-- ============================================================ whole histories

/-- Histories: after every call of a history the list is exactly the live
tasks in creation order, both ways, with no link to a freed task and a
live current task, if and only if every task the history frees is the
tail of the list when it is freed. -/
theorem task_list_exact (tasks : Addr → Task) (ops : List TaskOp) :
    Along taskStep (fun _ _ s' => ListOk s') (bootTasks tasks) ops ↔
      Along taskStep FreesTail (bootTasks tasks) ops := by
  exact along_iff_of_inv (A := fun _ _ _ => True)
    (fun _ _ _ hI hstep _ hC => (taskStep_exact hI hstep).1 hC)
    (fun _ _ _ hI hstep _ => (taskStep_exact hI hstep).2)
    (listInv_boot tasks) (along_true _ ops)

/-- Two tasks, then the older one freed: the younger one's `prev` still
points at it. -/
theorem task_list_free_head :
    ¬ ∀ (tasks : Addr → Task) (ops : List TaskOp),
      Along taskStep (fun _ _ s' => ListOk s') (bootTasks tasks) ops := by
  intro hall
  let blank : Addr → Task := fun _ =>
    { pageDirectory := none, registers := Registers.zero, process := 0#32
      next := none, prev := none }
  obtain ⟨-, -, hok, -⟩ := hall blank
    [.new 0x1000#32 0x2000#32 0#32 .binary,
      .new 0x3000#32 0x4000#32 0#32 .binary, .free 0x1000#32]
  have hdead := hok.prevLive 0x3000#32 (by decide) 0x1000#32 (by decide)
  exact absurd hdead (by decide)

end BenOS.Tasks
