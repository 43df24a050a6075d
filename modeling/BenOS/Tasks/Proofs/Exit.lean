/-
Which task runs when the current one has ended.

`task_list_remove` already moves `current_task` on to the successor of
the task it removes, and `task_next` moves on once more. So the task that
resumes is the successor's successor in what is left of the list
(`taskGetNext_removed`), and the successor loses its turn; where nothing
is left, `task_next` follows a null `current_task`. With exactly two
tasks the successor is its own successor, and only then the right task
resumes (`exit_resumes_exact`), given that `process_unlink` finds a
process for the foreground.
-/
import BenOS.Tasks.Exit
import BenOS.Tasks.Proofs.RoundRobin

namespace BenOS.Tasks

open Lib

-- ============================================================ the requirement

/-- Task `t` of the well-formed task list `xs` is current, and its process
`p` is one that was loaded. -/
structure Exiting (s : ProcessSys) (xs : List Addr) (t p : Addr) : Prop where
  list : IsDll s.tasks.next s.tasks.prev s.tasks.taskHead s.tasks.taskTail xs
  listed : t ∈ xs
  current : s.tasks.currentTask = some t
  paged : (s.tasks.tasks t).pageDirectory ≠ none
  process : (s.tasks.tasks t).process = p
  task : (s.memory p).task = some t
  kind : (s.memory p).filetype = processFiletypeElf
    ∨ (s.memory p).filetype = processFiletypeBinary
  slot : (s.memory p).id.toNat < benosMaxProcesses
  running : s.panicked = false

/-- An exit of task `t` resumes the right task: the one behind `t` in the
list, or the head behind the last one; and with no other task it is the
panic of `task_next` that ends it. -/
structure ResumesNext (xs : List Addr) (t : Addr) (outcome : ExitOutcome) :
    Prop where
  waiting : xs.length ≠ 1 → ∀ (i : Nat) (hi : i < xs.length), xs[i] = t →
    ∃ s, outcome = .resumed s
      ∧ s.tasks.currentTask = xs[(i + 1) % xs.length]?
  alone : xs = [t] → outcome = .noMoreTasks

/-- When process `p` is unlinked, the foreground stays or goes to another
process of the table. -/
def FindsForeground (s : ProcessSys) (p : Addr) : Prop :=
  s.currProcess ≠ some p
    ∨ ∃ i : Fin benosMaxProcesses,
        i.val ≠ (s.memory p).id.toNat ∧ s.processes i ≠ none

-- ======================================================= the task behind next

variable {s s' : TaskSys} {xs : List Addr}

/-- What the links of a well-formed list say about its `i`-th task. -/
theorem IsDll_at {next prev : Addr → Option Addr} {head tail : Option Addr}
    (h : IsDll next prev head tail xs) {i : Nat} (hi : i < xs.length) :
    next xs[i] = xs[i + 1]?
      ∧ ∀ j, (hj : j < xs.length) →
          (prev xs[i] = some xs[j] ↔ j + 1 = i) := by
  refine ⟨h.next_eq i hi, fun j hj => ?_⟩
  cases i with
  | zero =>
      have hfirst : prev xs[0] = none :=
        h.prev_head _ (by rw [List.head?_eq_getElem?, List.getElem?_eq_getElem])
      rw [hfirst]
      exact ⟨fun hsome => absurd hsome (Option.some_ne_none _).symm,
        fun heq => by omega⟩
  | succ i =>
      rw [h.prev_eq i hi, Option.some_inj, h.nodup.getElem_inj_iff]
      omega

/-- The task `task_get_next` names once the current task is removed: with
one task there is none to follow, with two it is the other, and with more
it is the one behind the next. -/
theorem taskGetNext_removed
    (h : IsDll s.next s.prev s.taskHead s.taskTail xs) {i : Nat}
    (hi : i < xs.length) (hcur : s.currentTask = some xs[i])
    (hrem : Removed s xs[i] s') :
    (xs.length = 1 → taskGetNext s' = none)
      ∧ (xs.length = 2 → taskGetNext s' = some xs[(i + 1) % xs.length]?)
      ∧ (3 ≤ xs.length → taskGetNext s' = some xs[(i + 2) % xs.length]?) := by
  obtain ⟨hnext, hprev⟩ := IsDll_at h hi
  have hhead : s'.taskHead = if i = 0 then xs[1]? else xs[0]? := by
    have hpos : 0 < xs.length := by omega
    rw [hrem.head, hnext, h.head_eq, List.head?_eq_getElem?,
      List.getElem?_eq_getElem hpos]
    by_cases hzero : i = 0
    · subst hzero
      rw [if_pos rfl, if_pos rfl]
    · have hother : ¬ some xs[0] = some xs[i] := fun heq =>
        hzero (h.nodup.getElem_inj_iff.mp (Option.some_inj.mp heq)).symm
      rw [if_neg hother, if_neg hzero]
  have hcurrent : s'.currentTask = xs[i + 1]?.or s'.taskHead := by
    rw [hrem.current, if_pos hcur, hnext]
  -- the links of what is left, at the place `j`
  have hlink : ∀ j, (hj : j < xs.length) → s'.next xs[j]
      = if j + 1 = i then xs[i + 1]? else xs[j + 1]? := by
    intro j hj
    rw [hrem.next, hnext, h.next_eq j hj]
    by_cases hbefore : j + 1 = i
    · rw [if_pos ((hprev j hj).mpr hbefore), if_pos hbefore]
    · rw [if_neg (fun hp => hbefore ((hprev j hj).mp hp)), if_neg hbefore]
  refine ⟨fun hone => ?_, fun htwo => ?_, fun hmany => ?_⟩
  · have hnull : s'.currentTask = none := by
      rw [hcurrent, hhead, if_pos (by omega),
        List.getElem?_eq_none (by omega), List.getElem?_eq_none (by omega),
        Option.none_or]
    unfold taskGetNext
    rw [hnull]
  · by_cases hfirst : i = 0
    · -- the tail is left, and it is the head now
      subst hfirst
      have hcur' : s'.currentTask = some xs[1] := by
        rw [hcurrent, List.getElem?_eq_getElem (by omega), Option.some_or]
      rw [taskGetNext_eq hcur', hlink 1 (by omega), if_neg (by omega),
        List.getElem?_eq_none (by omega), Option.none_or, hhead, if_pos rfl,
        htwo]
    · -- the head is left
      have hlast : i = 1 := by omega
      subst hlast
      have hcur' : s'.currentTask = some xs[0] := by
        rw [hcurrent, List.getElem?_eq_none (by omega), Option.none_or, hhead,
          if_neg hfirst, List.getElem?_eq_getElem (by omega)]
      rw [taskGetNext_eq hcur', hlink 0 (by omega), if_pos rfl,
        List.getElem?_eq_none (by omega), Option.none_or, hhead,
        if_neg hfirst, htwo]
  · by_cases hlast : i + 1 < xs.length
    · have hcur' : s'.currentTask = some xs[i + 1] := by
        rw [hcurrent, List.getElem?_eq_getElem hlast, Option.some_or]
      rw [taskGetNext_eq hcur', hlink (i + 1) hlast, if_neg (by omega)]
      by_cases hbehind : i + 2 < xs.length
      · rw [Nat.mod_eq_of_lt hbehind, List.getElem?_eq_getElem hbehind,
          Option.some_or]
      · have hwrap : (i + 2) % xs.length = 0 := by
          rw [show i + 2 = xs.length by omega, Nat.mod_self]
        rw [hwrap, List.getElem?_eq_none (by omega), Option.none_or, hhead,
          if_neg (by omega)]
    · have hcur' : s'.currentTask = some xs[0] := by
        rw [hcurrent, List.getElem?_eq_none (by omega), Option.none_or, hhead,
          if_neg (by omega), List.getElem?_eq_getElem (by omega)]
      have hwrap : (i + 2) % xs.length = 1 := by
        rw [show i + 2 = xs.length + 1 by omega, Nat.add_mod_left,
          Nat.mod_eq_of_lt (by omega)]
      rw [taskGetNext_eq hcur', hlink 0 (by omega), if_neg (by omega), hwrap,
        List.getElem?_eq_getElem (show 0 + 1 < xs.length by omega),
        Option.some_or]

-- ============================================================ the termination

/-- The current task, if it has a page directory, is freed. -/
theorem taskFree_current {t : Addr} (hcur : s.currentTask = some t)
    (hpaged : (s.tasks t).pageDirectory ≠ none) :
    ∃ s', taskFree s (some t) = some s' := by
  obtain ⟨chunk, hchunk⟩ := Option.ne_none_iff_exists'.mp hpaged
  unfold taskFree taskListRemove
  simp only [hchunk]
  -- moving the ends leaves the current task, so `task_get_next` has one
  have hcur' : (taskListMoveTail (taskListMoveHead (taskListSkip s t) t)
      t).currentTask = some t := by
    unfold taskListMoveTail taskListMoveHead
    split <;> split <;> exact (taskListSkip_globals s t).2.2.trans hcur
  generalize taskListMoveTail (taskListMoveHead (taskListSkip s t) t) t = s₃
    at hcur' ⊢
  rw [if_pos hcur', taskGetNext_eq hcur']
  exact ⟨_, rfl⟩

/-- `process_switch_to_any` leaves the tasks, and panics where the table
has no process. -/
theorem processSwitchToAny_spec {s : ProcessSys} (hrun : s.panicked = false) :
    (processSwitchToAny s).tasks = s.tasks
      ∧ ((processSwitchToAny s).panicked = false
        ↔ ∃ i, s.processes i ≠ none) := by
  unfold processSwitchToAny
  cases hslot : firstSlot (fun p => p.isSome) s.processes with
  | some i =>
      have hi := List.find?_some hslot
      simp only [Option.isSome_iff_ne_none] at hi
      exact ⟨rfl, fun _ => ⟨i, hi⟩, fun _ => hrun⟩
  | none =>
      refine ⟨rfl, fun h => (by cases h), fun ⟨i, hi⟩ => ?_⟩
      have hnone := List.find?_eq_none.mp hslot i (List.mem_finRange i)
      rw [Option.isSome_iff_ne_none] at hnone
      exact absurd hi hnone

/-- `process_unlink` leaves the tasks, and panics where the foreground
process is unlinked and no other is in the table. -/
theorem processUnlink_spec {s : ProcessSys} {p : Addr}
    (hslot : (s.memory p).id.toNat < benosMaxProcesses)
    (hrun : s.panicked = false) :
    ∃ s', processUnlink s p = some s' ∧ s'.tasks = s.tasks
      ∧ (s'.panicked = false ↔ FindsForeground s p) := by
  unfold processUnlink
  simp only
  rw [dif_pos hslot]
  by_cases hcurr : s.currProcess = some p
  · rw [if_pos hcurr]
    obtain ⟨htasks, hfound⟩ := processSwitchToAny_spec (s := { s with
      processes := Function.update s.processes ⟨_, hslot⟩ none }) hrun
    simp only at hfound
    refine ⟨_, rfl, htasks, ?_⟩
    rw [hfound]
    constructor
    · rintro ⟨i, hi⟩
      right
      refine ⟨i, fun heq => ?_, ?_⟩
      · rw [show i = ⟨_, hslot⟩ from Fin.ext heq, Function.update_self] at hi
        exact hi rfl
      · intro hnone
        apply hi
        by_cases heq : i = ⟨_, hslot⟩
        · rw [heq, Function.update_self]
        · rw [Function.update_of_ne heq]
          exact hnone
    · rintro (hother | ⟨i, hne, hi⟩)
      · exact absurd hcurr hother
      · refine ⟨i, ?_⟩
        rw [Function.update_of_ne (fun heq => hne (congrArg Fin.val heq))]
        exact hi
  · rw [if_neg hcurr]
    exact ⟨_, rfl, rfl, fun _ => Or.inl hcurr, fun _ => hrun⟩

/-- What an exit comes to: the current task is removed from the list, and
if a process is found for the foreground, `task_next` goes on in what is
left. -/
theorem terminateCurrent_eq {s : ProcessSys} {t p : Addr}
    (h : Exiting s xs t p) :
    ∃ s' : ProcessSys, Removed s.tasks t s'.tasks
      ∧ terminateCurrent s
        = (if s'.panicked then .noProcess else exitTaskNext s')
      ∧ (s'.panicked = false ↔ FindsForeground s p) := by
  obtain ⟨tasks, hfree⟩ := taskFree_current h.current h.paged
  have hrem : Removed s.tasks t tasks := by
    have hlist := hfree
    obtain ⟨chunk, hchunk⟩ := Option.ne_none_iff_exists'.mp h.paged
    unfold taskFree at hlist
    simp only [hchunk] at hlist
    exact taskListRemove_removed hlist (h.list.prev_ne h.listed)
  obtain ⟨s', hunlink, htasks, hpanic⟩ :=
    processUnlink_spec (s := { s with tasks := tasks }) h.slot h.running
  refine ⟨s', by rw [htasks]; exact hrem, ?_, hpanic⟩
  have hres : processFreeProgranData (s.memory p) = 0 := by
    unfold processFreeProgranData
    rcases h.kind with hkind | hkind <;> rw [hkind] <;> rfl
  unfold terminateCurrent processTerminate
  rw [h.current]
  simp only
  rw [h.process, hres, h.task]
  rw [if_neg (by omega), hfree]
  simp only
  rw [hunlink]

-- =================================================================== the exit

/-- An exit resumes the right task exactly where the list holds two tasks
and a process is found for the foreground. -/
theorem terminateCurrent_exact {s : ProcessSys} {t p : Addr}
    (h : Exiting s xs t p) :
    ResumesNext xs t (terminateCurrent s)
      ↔ xs.length = 2 ∧ FindsForeground s p := by
  obtain ⟨s', hrem, heq, hpanic⟩ := terminateCurrent_eq h
  obtain ⟨i, hi, rfl⟩ := List.mem_iff_getElem.mp h.listed
  obtain ⟨hone, htwo, hmany⟩ := taskGetNext_removed h.list hi h.current hrem
  rw [heq]
  by_cases hfound : s'.panicked = false
  · rw [hfound]
    have hcond : (xs.length = 2 ∧ FindsForeground s p) ↔ xs.length = 2 :=
      and_iff_left (hpanic.mp hfound)
    rw [hcond]
    simp only [Bool.false_eq_true, if_false]
    unfold exitTaskNext
    rcases Nat.lt_trichotomy xs.length 2 with hless | htwo' | hmore
    · -- nothing is left, and `current_task` is null
      rw [hone (by omega)]
      refine ⟨fun hok => ?_, fun hlen => by omega⟩
      have halone : xs = [xs[i]] := by
        obtain ⟨a, ha⟩ := List.length_eq_one_iff.mp (show xs.length = 1 by omega)
        subst ha
        simp
      have := hok.alone halone
      cases this
    · rw [htwo htwo']
      refine ⟨fun _ => htwo', fun _ => ⟨fun _ j hj hji => ?_, fun halone => ?_⟩⟩
      · have hij : j = i := h.list.nodup.getElem_inj_iff.mp hji
        have hbehind : (i + 1) % xs.length < xs.length :=
          Nat.mod_lt _ (by omega)
        rw [hij, List.getElem?_eq_getElem hbehind]
        exact ⟨_, rfl, rfl⟩
      · rw [halone] at htwo'
        cases htwo'
    · rw [hmany (by omega)]
      refine ⟨fun hok => ?_, fun hlen => by omega⟩
      have hbehind : (i + 1) % xs.length < xs.length :=
        Nat.mod_lt _ (by omega)
      have hbehind' : (i + 2) % xs.length < xs.length :=
        Nat.mod_lt _ (by omega)
      obtain ⟨s₁, hs₁, hcur⟩ := hok.waiting (by omega) i hi rfl
      rw [List.getElem?_eq_getElem hbehind'] at hs₁
      simp only [ExitOutcome.resumed.injEq] at hs₁
      subst hs₁
      rw [List.getElem?_eq_getElem hbehind] at hcur
      have hsame := h.list.nodup.getElem_inj_iff.mp (Option.some_inj.mp hcur)
      -- two places apart are not one place apart, in three or more
      by_cases hwrap : i + 2 < xs.length
      · rw [Nat.mod_eq_of_lt hwrap, Nat.mod_eq_of_lt (by omega)] at hsame
        omega
      · by_cases hwrap' : i + 1 < xs.length
        · rw [show i + 2 = xs.length by omega, Nat.mod_self,
            Nat.mod_eq_of_lt hwrap'] at hsame
          omega
        · rw [show i + 2 = xs.length + 1 by omega,
            show i + 1 = xs.length by omega, Nat.mod_self,
            Nat.add_mod_left, Nat.mod_eq_of_lt (by omega)] at hsame
          omega
  · have hpanicked : s'.panicked = true := by
      cases hp : s'.panicked with
      | true => rfl
      | false => exact absurd hp hfound
    rw [if_pos hpanicked]
    refine ⟨fun hok => ?_, fun hcond => absurd (hpanic.mpr hcond.2) hfound⟩
    by_cases hlen : xs.length = 1
    · obtain ⟨a, ha⟩ := List.length_eq_one_iff.mp hlen
      have := hok.alone (by subst ha; simp)
      cases this
    · obtain ⟨s₁, hs₁, -⟩ := hok.waiting hlen i hi rfl
      cases hs₁

/-- Exit resumes the right task exactly where two tasks are in the list
and the process leaves the foreground or another process to it: for every
well-formed task list, every task of it that is current, and both ways a
task ends. -/
theorem exit_resumes_exact {s : ProcessSys} {t p : Addr}
    (h : Exiting s xs t p) :
    (ResumesNext xs t (isr80hCommand9Exit s)
        ↔ xs.length = 2 ∧ FindsForeground s p)
      ∧ (ResumesNext xs t (idtHandleException s)
        ↔ xs.length = 2 ∧ FindsForeground s p) :=
  ⟨terminateCurrent_exact h, terminateCurrent_exact h⟩

/-- Tasks in a list, the first of them current, each with the process at
0x9000, which is not in the foreground. -/
def readyTasks (next prev : Addr → Option Addr) (tail : Addr) :
    ProcessSys where
  tasks :=
    { tasks := fun t =>
        { pageDirectory := some 0x8000#32, registers := Registers.zero
          process := 0x9000#32, next := next t, prev := prev t }
      currentTask := some 0x1000#32
      taskTail := some tail
      taskHead := some 0x1000#32
      currDir := none }
  processes := fun _ => none
  currProcess := none
  memory := fun _ =>
    { id := 0, filetype := processFiletypeElf, image := none, size := 0#32
      stack := none, task := some 0x1000#32 }
  panicked := false

/-- Two tasks: the second one resumes. -/
theorem exit_resumes_exact_two_tasks :
    ResumesNext [0x1000#32, 0x2000#32] 0x1000#32 (isr80hCommand9Exit
      (readyTasks (fun t => if t = 0x1000#32 then some 0x2000#32 else none)
        (fun t => if t = 0x2000#32 then some 0x1000#32 else none)
        0x2000#32)) := by
  refine (exit_resumes_exact (p := 0x9000#32) ⟨⟨by decide, rfl, rfl, ?_, ?_,
    ?_⟩, by decide, rfl, by decide, rfl, rfl, Or.inl rfl, by decide,
    rfl⟩).1.mpr ⟨rfl, Or.inl (by decide)⟩
  · intro i hi
    rcases i with _ | _ | i
    · rfl
    · rfl
    · simp only [List.length_cons, List.length_nil] at hi
      omega
  · intro i hi
    rcases i with _ | i
    · rfl
    · simp only [List.length_cons, List.length_nil] at hi
      omega
  · intro a ha
    cases ha
    rfl

/-- It is not so on every task list: of three tasks the first exits, and
the third resumes. -/
theorem exit_skips_next :
    ¬ ∀ (s : ProcessSys) (xs : List Addr) (t p : Addr), Exiting s xs t p →
        ResumesNext xs t (isr80hCommand9Exit s) := by
  intro hall
  have hexiting : Exiting
      (readyTasks
        (fun t => if t = 0x1000#32 then some 0x2000#32
          else if t = 0x2000#32 then some 0x3000#32 else none)
        (fun t => if t = 0x3000#32 then some 0x2000#32
          else if t = 0x2000#32 then some 0x1000#32 else none) 0x3000#32)
      [0x1000#32, 0x2000#32, 0x3000#32] 0x1000#32 0x9000#32 := by
    refine ⟨⟨by decide, rfl, rfl, ?_, ?_, ?_⟩, by decide, rfl, by decide, rfl,
      rfl, Or.inl rfl, by decide, rfl⟩
    · intro i hi
      rcases i with _ | _ | _ | i
      · rfl
      · rfl
      · rfl
      · simp only [List.length_cons, List.length_nil] at hi
        omega
    · intro i hi
      rcases i with _ | _ | i
      · rfl
      · rfl
      · simp only [List.length_cons, List.length_nil] at hi
        omega
    · intro a ha
      cases ha
      rfl
  have hlen := ((terminateCurrent_exact hexiting).mp
    (hall _ _ _ _ hexiting)).1
  cases hlen

end BenOS.Tasks
