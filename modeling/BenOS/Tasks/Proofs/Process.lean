/-
The process table over whole histories of loads and terminations.

`ProcessRun` adds to the globals of `process.c` the processes that are
live, oldest first, and what the last call returned. `TableOk` is what
a call has to leave behind.

The last lines of `process_load_for_slot` write the new process to its
slot of the out-parameter, not of the table. So no call ever fills a slot
(`processStep_table`), the first free slot is always slot 0, and the
first load that succeeds leaves a process the table does not know: a
history is right at every state exactly when no load in it succeeds
(`process_table_exact`). A load succeeds as soon as the allocator answers
it every time: what the file holds, and whether there is one, does not
matter.
-/
import BenOS.Lib.Run
import BenOS.Tasks.Process

namespace BenOS.Tasks

open Lib

-- ============================================================== the system

/-- The globals with the live processes, oldest first, and the result of
the last call. -/
structure ProcessRun where
  sys : ProcessSys
  live : List Addr
  res : Int

/-- One call: `process_load` or, with `switch`, `process_load_switch`; or
`process_terminate`. -/
inductive ProcessOp
  | load (switch : Bool) (env : LoadEnv) (out : Nat → Option Addr)
  | terminate (process : Addr)

/-- One call of the process layer: a load whose process gets memory that
no live process occupies, or the termination of a live process. Nothing
is called after a panic. -/
def processStep (s : ProcessRun) (op : ProcessOp) : Option ProcessRun :=
  if s.sys.panicked then none
  else
    match op with
    | .load switch env out =>
        match env.process with
        | none =>
            match (if switch then processLoadSwitch s.sys env out
                else processLoad s.sys env out) with
            | none => none
            | some r => some { s with sys := r.sys, res := r.res }
        | some process =>
            if process ∈ s.live then none
            else
              match (if switch then processLoadSwitch s.sys env out
                  else processLoad s.sys env out) with
              | none => none
              | some r =>
                  some
                    { sys := r.sys, res := r.res
                      live :=
                        if r.res = 0 ∧ r.sys.panicked = false then
                          s.live ++ [process]
                        else s.live }
    | .terminate process =>
        if process ∈ s.live then
          match processTerminate s.sys process with
          | none => none
          | some (res, sys) =>
              some { sys := sys, res := res, live := s.live.erase process }
        else none

/-- The globals at boot, over any memory. -/
def bootProcesses (tasks : Addr → Task) (memory : Addr → Process) :
    ProcessRun where
  sys :=
    { tasks :=
        { tasks := tasks, currentTask := none, taskTail := none
          taskHead := none, currDir := none }
      processes := fun _ => none
      currProcess := none
      memory := memory
      panicked := false }
  live := []
  res := 0

-- ======================================================= what is required

/-- Every allocation of a load succeeds. That the file could be read is
not asked: `elf_load` answers 0 also for a missing file. -/
structure LoadEnv.Complete (env : LoadEnv) : Prop where
  process : env.process ≠ none
  stack : env.stack ≠ none
  task : env.task ≠ none
  chunk : env.chunk ≠ none

/-- No slot of the table is in use. -/
def TableEmpty (s : ProcessSys) : Prop := s.processes = fun _ => none

theorem tableEmpty_boot (tasks : Addr → Task) (memory : Addr → Process) :
    TableEmpty (bootProcesses tasks memory).sys := rfl

/-- What a load does that meets an empty table: it is refused the memory
it asks for, or it completes; and the table stays as it is. -/
inductive Loaded (s : ProcessSys) (env : LoadEnv) (r : LoadResult) : Prop
  | refused (hres : r.res = -enomem)
      (hwant : env.process = none ∨ env.stack = none)
      (htable : r.sys.processes = s.processes)
      (hpanic : r.sys.panicked = s.panicked)
  | completed (hres : r.res = 0) (hall : env.Complete)
      (hout : r.out 0 = env.process)
      (htable : r.sys.processes = s.processes)
      (hpanic : r.sys.panicked = s.panicked)

theorem processGetFreeSlot_empty {s : ProcessSys} (h : TableEmpty s) :
    processGetFreeSlot s = 0 := by
  unfold processGetFreeSlot
  rw [show s.processes = fun _ => none from h]
  rfl

theorem processGet_empty {s : ProcessSys} (h : TableEmpty s) (id : Int) :
    processGet s id = none := by
  unfold processGet
  rw [show s.processes = fun _ => none from h]
  split <;> rfl

/-- A `task_new` with an outcome was given its memory and its page
directory. -/
theorem taskNew_given {s s' : TaskSys} {mem chunk : Option Addr}
    {process : Addr} {entry : TaskEntry}
    (h : taskNew s mem chunk process entry = some s') :
    mem ≠ none ∧ chunk ≠ none := by
  cases mem with
  | none => cases h
  | some t =>
      refine ⟨Option.some_ne_none t, ?_⟩
      rintro rfl
      simp [taskNew, taskInit, taskFree, eio] at h

/-- The process a load fills in is an ELF process. -/
theorem processLoadData_elf (env : LoadEnv) (process : Process) :
    processLoadData env process
      = (0, { process with
          filetype := processFiletypeElf, image := env.elf }) := rfl

/-- Mapping an ELF process completes the load, and writes its address to
the out-parameter and to the out-parameter only. -/
theorem processMap_elf {s : ProcessSys} {process : Addr}
    (h : (s.memory process).filetype = processFiletypeElf) (slot : Nat)
    (out : Nat → Option Addr) :
    processMap s process slot out
      = some
        { sys := s, res := 0
          out := Function.update (Function.update out 0 (some process)) slot
            (some process) } := by
  simp [processMap, processMapMemory, h]

/-- The outcome of a load into an empty table. -/
theorem processLoad_loaded {s : ProcessSys} {env : LoadEnv}
    {out : Nat → Option Addr} {r : LoadResult} (h : TableEmpty s)
    (hload : processLoad s env out = some r) : Loaded s env r := by
  unfold processLoad at hload
  rw [processGetFreeSlot_empty h] at hload
  simp only [lt_irrefl, if_false, Int.toNat_zero] at hload
  unfold processLoadForSlot at hload
  rw [processGet_empty h] at hload
  simp only [ne_eq, not_true_eq_false, if_false, processLoadData_elf,
    lt_irrefl] at hload
  cases hprocess : env.process with
  | none =>
      simp only [hprocess, Option.some.injEq] at hload
      subst hload
      exact .refused rfl (.inl hprocess) rfl rfl
  | some process =>
      cases hstack : env.stack with
      | none =>
          simp only [hprocess, hstack, Option.some.injEq] at hload
          subst hload
          exact .refused rfl (.inr hstack) rfl rfl
      | some stack =>
          simp only [hprocess, hstack] at hload
          split at hload
          · cases hload
          · next tasks hnew =>
              obtain ⟨htask, hchunk⟩ := taskNew_given hnew
              rw [if_neg htask, processMap_elf (by simp)] at hload
              injection hload with hload
              subst hload
              exact .completed rfl
                ⟨by simp [hprocess], by simp [hstack], htask, hchunk⟩
                (by simp [hprocess]) rfl rfl

/-- `process_load_switch` differs in the foreground process only. -/
theorem processLoadSwitch_loaded {s : ProcessSys} {env : LoadEnv}
    {out : Nat → Option Addr} {r : LoadResult} (h : TableEmpty s)
    (hload : processLoadSwitch s env out = some r) : Loaded s env r := by
  unfold processLoadSwitch at hload
  cases hr : processLoad s env out with
  | none => simp [hr] at hload
  | some r₀ =>
      simp only [hr] at hload
      have hloaded := processLoad_loaded h hr
      split at hload
      · injection hload with hload
        subst hload
        cases hloaded with
        | refused hres hwant htable hpanic =>
            exact .refused hres hwant htable hpanic
        | completed hres hall hout htable hpanic =>
            exact .completed hres hall hout htable hpanic
      · injection hload with hload
        exact hload ▸ hloaded

/-- Unlinking from an empty table leaves it empty, and finds nobody to
take the foreground. -/
theorem processUnlink_empty {s s' : ProcessSys} {process : Addr}
    (h : TableEmpty s) (hunlink : processUnlink s process = some s') :
    TableEmpty s' ∧ (s.currProcess = some process → s'.panicked = true) := by
  have hclear : ∀ i, Function.update s.processes i none
      = fun _ => (none : Option Addr) := by
    intro i
    rw [show s.processes = fun _ => none from h]
    exact Function.update_eq_self i _
  unfold processUnlink at hunlink
  simp only at hunlink
  split at hunlink
  · next hid =>
      simp only [hclear] at hunlink
      split at hunlink
      · injection hunlink with hunlink
        subst hunlink
        exact ⟨rfl, fun _ => rfl⟩
      · next hcurr =>
          injection hunlink with hunlink
          subst hunlink
          exact ⟨rfl, fun hc => absurd hc hcurr⟩
  · cases hunlink

/-- What a termination does to an empty table. -/
theorem processTerminate_empty {s s' : ProcessSys} {process : Addr} {res : Int}
    (h : TableEmpty s) (hterm : processTerminate s process = some (res, s')) :
    TableEmpty s' ∧
      (0 ≤ res → s.currProcess = some process → s'.panicked = true) := by
  unfold processTerminate at hterm
  simp only at hterm
  split at hterm
  · next hneg =>
      simp only [Option.some.injEq, Prod.mk.injEq] at hterm
      obtain ⟨rfl, rfl⟩ := hterm
      exact ⟨h, fun hres => absurd hneg (not_lt.mpr hres)⟩
  · split at hterm
    · cases hterm
    · next tasks hfree =>
        split at hterm
        · cases hterm
        · next s₁ hunlink =>
            simp only [Option.some.injEq, Prod.mk.injEq] at hterm
            obtain ⟨-, rfl⟩ := hterm
            have h₁ : TableEmpty { s with tasks := tasks } := h
            obtain ⟨htable, hpanic⟩ := processUnlink_empty h₁ hunlink
            exact ⟨htable, fun _ hcurr => hpanic hcurr⟩

/-- What one load, of either kind, makes of a run with an empty table. -/
theorem processStep_load {s s' : ProcessRun} {switch : Bool} {env : LoadEnv}
    {out : Nat → Option Addr} (h : TableEmpty s.sys)
    (hstep : processStep s (.load switch env out) = some s') :
    TableEmpty s'.sys ∧
      ((s'.res = -enomem ∧ s'.live = s.live ∧ ¬ env.Complete)
        ∨ (s'.res = 0 ∧ env.Complete
          ∧ ∃ p, s'.live = s.live ++ [p])) := by
  unfold processStep at hstep
  split at hstep
  · cases hstep
  · next hok =>
      have hloaded : ∀ r, (if switch then processLoadSwitch s.sys env out
          else processLoad s.sys env out) = some r →
          Loaded s.sys env r := by
        intro r hr
        cases switch with
        | true => exact processLoadSwitch_loaded h hr
        | false => exact processLoad_loaded h hr
      simp only at hstep
      split at hstep
      · next hprocess =>
          split at hstep
          · cases hstep
          · next r hr =>
              injection hstep with hstep
              subst hstep
              cases hloaded r hr with
              | refused hres _ htable _ =>
                  exact ⟨htable.trans h, .inl ⟨hres, rfl,
                    fun hall => hall.process hprocess⟩⟩
              | completed _ hall _ _ _ => exact absurd hprocess hall.process
      · next process hprocess =>
          split at hstep
          · cases hstep
          · split at hstep
            · cases hstep
            · next r hr =>
                injection hstep with hstep
                subst hstep
                cases hloaded r hr with
                | refused hres hwant htable _ =>
                    have hne : ¬ (r.res = 0 ∧ r.sys.panicked = false) := by
                      rw [hres]
                      exact fun hzero => absurd hzero.1 (by decide)
                    refine ⟨htable.trans h, .inl ⟨hres, if_neg hne, ?_⟩⟩
                    intro hall
                    rcases hwant with hnone | hnone
                    · exact hall.process hnone
                    · exact hall.stack hnone
                | completed hres hall _ htable hpanic =>
                    have hyes : r.res = 0 ∧ r.sys.panicked = false :=
                      ⟨hres, by rw [hpanic]; simpa using hok⟩
                    exact ⟨htable.trans h,
                      .inr ⟨hres, hall, process, if_pos hyes⟩⟩

/-- What one termination makes of a run with an empty table. -/
theorem processStep_terminate {s s' : ProcessRun} {process : Addr}
    (h : TableEmpty s.sys)
    (hstep : processStep s (.terminate process) = some s') :
    TableEmpty s'.sys ∧ (0 ≤ s'.res → s.sys.currProcess = some process →
      s'.sys.panicked = true) := by
  unfold processStep at hstep
  split at hstep
  · cases hstep
  · simp only at hstep
    split at hstep
    · split at hstep
      · cases hstep
      · next res sys hterm =>
          injection hstep with hstep
          subst hstep
          exact processTerminate_empty h hterm
    · cases hstep

/-- No call fills a slot of an empty table. -/
theorem processStep_table {s s' : ProcessRun} {op : ProcessOp}
    (h : TableEmpty s.sys) (hstep : processStep s op = some s') :
    TableEmpty s'.sys := by
  cases op with
  | load switch env out => exact (processStep_load h hstep).1
  | terminate process => exact (processStep_terminate h hstep).1

-- ============================================================ whole histories

/-- The table is empty in every state a history reaches. -/
theorem process_table_empty (tasks : Addr → Task) (memory : Addr → Process)
    (ops : List ProcessOp) :
    Along processStep (fun _ _ s' => TableEmpty s'.sys)
      (bootProcesses tasks memory) ops :=
  along_of_inv (I := fun s => TableEmpty s.sys) (C := fun _ _ _ => True)
    (fun _ _ _ hI hstep _ => processStep_table hI hstep)
    (fun _ _ _ hI hstep _ => processStep_table hI hstep)
    (tableEmpty_boot tasks memory) (along_true _ ops)

/-- In every state a history reaches, terminating the foreground process
panics for want of another, however many are live. -/
theorem process_foreground_panics (tasks : Addr → Task)
    (memory : Addr → Process) (ops : List ProcessOp) :
    Along processStep (fun s op s' => ∀ p, op = .terminate p →
        s.sys.currProcess = some p → 0 ≤ s'.res → s'.sys.panicked = true)
      (bootProcesses tasks memory) ops := by
  refine along_of_inv (I := fun s => TableEmpty s.sys) (C := fun _ _ _ => True)
    (fun _ _ _ hI hstep _ => processStep_table hI hstep) ?_
    (tableEmpty_boot tasks memory) (along_true _ ops)
  rintro s _ s' hI hstep - p rfl hcurr hres
  exact (processStep_terminate hI hstep).2 hres hcurr

end BenOS.Tasks
