/-
A task's registers from the interruption to the resumption.

The registers saved at an entry are the task's own (`saveOnEntry_saved`)
and stay in its `struct task` while other tasks run, whatever those do
(`machineStep_served`, `exec_served`): no event writes the registers of a
live task that is not the current one. `task_return` brings back
everything it reads from there (`taskReturn_saved`); the flags it does
not read, it takes them from the kernel.

So a resumption is transparent exactly when the kernel's flags happen to
agree with the task's, the interrupt flag apart
(`context_switch_exact`).
-/
import BenOS.Lib.Run
import BenOS.Tasks.Switch

namespace BenOS.Tasks

open Lib

-- ======================================================= what is required

/-- Every register is back, the flags with the interrupt flag set. -/
def Restored (before after : UserCpu) : Prop :=
  after = { before with flags := before.flags ||| 0x200#32 }

/-- The clock interrupts task `t` at `m`, and the last event resumes it,
at `m'`, for the first time since. -/
structure NextResume (t : Addr) (m : Machine) (events : List Event)
    (last : Event) (m' : Machine) : Prop where
  running : m.sys.currentTask = some t
  live : t ∈ m.live
  interrupted : ∃ kflags, (events ++ [last]).head? = some (.clock kflags)
  reached : ∃ m₁, exec machineStep m events = some m₁
    ∧ machineStep m₁ last = some m'
  elsewhere : Along machineStep (fun _ _ s => s.sys.currentTask ≠ some t) m
    events
  resumed : m'.sys.currentTask = some t

/-- The kernel flags at the last `pushf` agree with the given ones, the
interrupt flag apart. -/
def FlagsAgree (last : Event) (flags : BitVec 32) : Prop :=
  match last.kernelFlags with
  | some kflags => kflags ||| 0x200#32 = flags ||| 0x200#32
  | none => False

-- ========================================================== save and return

/-- What an entry saves for the state of the CPU. -/
def savedRegisters (cpu : UserCpu) : Registers where
  edi := cpu.edi
  esi := cpu.esi
  ebp := cpu.ebp
  ebx := cpu.ebx
  edx := cpu.edx
  ecx := cpu.ecx
  eax := cpu.eax
  ip := cpu.ip
  cs := cpu.cs.setWidth 32
  flags := cpu.flags
  esp := cpu.esp
  ss := cpu.ss.setWidth 32

/-- A selector survives the way through a 32-bit word. -/
theorem selector_roundtrip (x : BitVec 16) :
    (x.setWidth 32).setWidth 16 = x := by
  rw [BitVec.setWidth_setWidth_of_le _ (by decide), BitVec.setWidth_eq]

/-- What a task's state in the CPU comes back to through `iretd`. -/
theorem iretd_saved (cpu : UserCpu) (flags : BitVec 32)
    (stack : List (BitVec 32)) :
    iretd cpu.toGprs (cpu.ip :: cpu.cs.setWidth 32 :: flags :: cpu.esp ::
        cpu.ss.setWidth 32 :: stack)
      = some { cpu with flags := flags } := by
  have hring : cpu.cs &&& 3#16 = 3#16 := cpu.ring
  simp only [iretd, selector_roundtrip]
  rw [dif_pos hring]

/-- An entry saves the registers of the current task and nothing else. -/
theorem saveOnEntry_saved {m : Machine} {s : TaskSys}
    (h : saveOnEntry m = some s) :
    ∃ t, m.sys.currentTask = some t
      ∧ s = { m.sys with
          tasks := Function.update m.sys.tasks t
            { m.sys.tasks t with registers := savedRegisters m.cpu } } := by
  change taskCurrentSaveState m.sys _ = some s at h
  unfold taskCurrentSaveState at h
  cases hcur : m.sys.currentTask with
  | none =>
      rw [hcur] at h
      cases h
  | some t =>
      rw [hcur] at h
      injection h with h
      refine ⟨t, rfl, ?_⟩
      rw [← h, ← hcur]
      rfl

/-- `task_return` on saved registers: everything but the flags comes from
them, and the flags come from the kernel. -/
theorem taskReturn_saved (cpu : UserCpu) (kflags : BitVec 32) :
    taskReturn (savedRegisters cpu) kflags
      = some { cpu with flags := kflags ||| 0x200#32 } :=
  iretd_saved cpu (kflags ||| 0x200#32) []

/-- A return by the frame brings back every register. -/
theorem leaveByFrame_eq (m : Machine) : leaveByFrame m = some m.cpu :=
  iretd_saved m.cpu m.cpu.flags []

/-- A successful `task_next` runs some task from its saved registers. -/
theorem taskNext_resumes {s s' : TaskSys} {kflags : BitVec 32}
    {cpu : UserCpu} (h : taskNext s kflags = some (s', cpu)) :
    ∃ next, s' = taskSwitch s next
      ∧ taskReturn (s.tasks next).registers kflags = some cpu := by
  unfold taskNext at h
  cases hnext : taskGetNext s with
  | none => simp [hnext] at h
  | some r =>
      cases r with
      | none => simp [hnext] at h
      | some next =>
          simp only [hnext] at h
          cases hret : taskReturn ((taskSwitch s next).tasks next).registers
              kflags with
          | none => simp [hret] at h
          | some cpu' =>
              simp only [hret, Option.some.injEq, Prod.mk.injEq] at h
              exact ⟨next, h.1.symm, by rw [← h.2]; exact hret⟩

-- ====================================================== other tasks' memory

/-- Removing a task from the list leaves everybody's registers. -/
theorem taskFree_registers {s s' : TaskSys} {t : Addr}
    (h : taskFree s (some t) = some s') (u : Addr) :
    (s'.tasks u).registers = (s.tasks u).registers := by
  have hskip : ((taskListSkip s t).tasks u).registers
      = (s.tasks u).registers := by
    unfold taskListSkip
    cases (s.tasks t).prev with
    | none => rfl
    | some p =>
        by_cases hu : u = p
        · subst hu
          simp
        · simp [hu]
  have htasks : s'.tasks = (taskListSkip s t).tasks := by
    unfold taskFree at h
    cases hdir : (s.tasks t).pageDirectory with
    | none => simp [hdir] at h
    | some chunk =>
        simp only [hdir] at h
        unfold taskListRemove at h
        have hmoved : (taskListMoveTail (taskListMoveHead
            (taskListSkip s t) t) t).tasks = (taskListSkip s t).tasks := by
          unfold taskListMoveTail taskListMoveHead
          split <;> split <;> rfl
        simp only at h
        split at h
        · split at h
          · injection h with h
            rw [← h, ← hmoved]
          · cases h
        · injection h with h
          rw [← h, ← hmoved]
  rw [htasks, hskip]

/-- A new task leaves the registers of every other. -/
theorem taskNew_registers {s s' : TaskSys} {t chunk process : Addr}
    {entry : TaskEntry} {u : Addr}
    (h : taskNew s (some t) (some chunk) process entry = some s')
    (hu : u ≠ t) : (s'.tasks u).registers = (s.tasks u).registers := by
  unfold taskNew taskInit at h
  simp only [ne_eq, not_true_eq_false, if_false] at h
  split at h
  · injection h with h
    subst h
    simp [hu]
  · split at h
    · cases h
    · next tail _ =>
        injection h with h
        subst h
        by_cases hut : u = tail
        · subst hut
          simp [hu]
        · simp [hu, hut]

/-- The entry of another task leaves a task's registers. -/
theorem saveOnEntry_registers {m : Machine} {s : TaskSys} {t : Addr}
    (h : saveOnEntry m = some s) (ht : m.sys.currentTask ≠ some t) :
    (s.tasks t).registers = (m.sys.tasks t).registers := by
  obtain ⟨c, hc, rfl⟩ := saveOnEntry_saved h
  have hne : t ≠ c := fun heq => ht (heq ▸ hc)
  simp [hne]

/-- An entry stays with the current task. -/
theorem saveOnEntry_current {m : Machine} {s : TaskSys}
    (h : saveOnEntry m = some s) : s.currentTask = m.sys.currentTask := by
  obtain ⟨c, -, rfl⟩ := saveOnEntry_saved h
  rfl

/-- What an event can do to a task, and how it can end in one. -/
structure Served (t : Addr) (m : Machine) (e : Event) (m' : Machine) :
    Prop where
  registers : (m'.sys.tasks t).registers = (m.sys.tasks t).registers
  live : t ∈ m'.live
  resumed : m'.sys.currentTask = some t → ∃ kflags,
    e.kernelFlags = some kflags
      ∧ taskReturn (m.sys.tasks t).registers kflags = some m'.cpu

/-- After `task_next` the CPU is that of the task it made current, as
that task's saved registers say. -/
theorem taskNext_served {s s' : TaskSys} {kflags : BitVec 32}
    {cpu : UserCpu} {t : Addr} (h : taskNext s kflags = some (s', cpu)) :
    (s'.tasks t).registers = (s.tasks t).registers
      ∧ (s'.currentTask = some t →
        taskReturn (s.tasks t).registers kflags = some cpu) := by
  obtain ⟨next, rfl, hret⟩ := taskNext_resumes h
  refine ⟨rfl, fun hback => ?_⟩
  injection hback with hback
  rw [← hback]
  exact hret

/-- `task_page` stays with the current task. -/
theorem taskPage_frame {s s' : TaskSys} (h : taskPage s = some s') :
    s'.tasks = s.tasks ∧ s'.currentTask = s.currentTask := by
  unfold taskPage at h
  cases hcur : s.currentTask with
  | none => simp [hcur] at h
  | some t =>
      simp only [hcur, Option.some.injEq] at h
      subst h
      exact ⟨rfl, rfl⟩

/-- An entry and an exit by the frame serve no task but the current. -/
theorem served_of_taskPage {m : Machine} {s s' : TaskSys} {e : Event}
    {t : Addr} (cpu : UserCpu) (hpage : taskPage s = some s')
    (hregs : (s.tasks t).registers = (m.sys.tasks t).registers)
    (hsame : s.currentTask = m.sys.currentTask) (ht : t ∈ m.live)
    (hcur : m.sys.currentTask ≠ some t) :
    Served t m e { m with sys := s', cpu := cpu } := by
  obtain ⟨htasks, hcur'⟩ := taskPage_frame hpage
  refine ⟨by rw [← hregs, ← htasks], ht, fun hback => ?_⟩
  rw [hcur', hsame] at hback
  exact absurd hback hcur

/-- The step lemma: an event of another task leaves a live task live and
its registers as they are, and if it ends in that task, it does so by
`task_return` from these registers. -/
theorem machineStep_served {m m' : Machine} {e : Event} {t : Addr}
    (h : machineStep m e = some m') (ht : t ∈ m.live)
    (hcur : m.sys.currentTask ≠ some t) : Served t m e m' := by
  cases e with
  | user cpu =>
      injection h with h
      subst h
      exact ⟨rfl, ht, fun hback => absurd hback hcur⟩
  | clock kflags =>
      simp only [machineStep] at h
      split at h
      · cases h
      · next s hsave =>
          split at h
          · next s' cpu hnext =>
              injection h with h
              subst h
              obtain ⟨hkeep, hback⟩ := taskNext_served (t := t) hnext
              rw [saveOnEntry_registers hsave hcur] at hkeep hback
              exact ⟨hkeep, ht, fun hc => ⟨kflags, rfl, hback hc⟩⟩
          · cases h
  | irq callback =>
      simp only [machineStep] at h
      split at h
      · cases h
      · next s hsave =>
          rw [leaveByFrame_eq] at h
          split at h
          · next s' cpu hpage hcpu =>
              injection h with h
              subst h
              cases callback with
              | true =>
                  exact served_of_taskPage cpu hpage
                    (saveOnEntry_registers hsave hcur)
                    (saveOnEntry_current hsave) ht hcur
              | false =>
                  injection hsave with hsave
                  subst hsave
                  exact served_of_taskPage cpu hpage rfl rfl ht hcur
          · cases h
  | syscall result =>
      simp only [machineStep] at h
      split at h
      · cases h
      · next s hsave =>
          rw [leaveByFrame_eq] at h
          split at h
          · next s' cpu hpage hcpu =>
              injection h with h
              subst h
              exact served_of_taskPage _ hpage
                (saveOnEntry_registers hsave hcur)
                (saveOnEntry_current hsave) ht hcur
          · cases h
  | load mem chunk process entry kflags =>
      simp only [machineStep] at h
      split at h
      · cases h
      · next hfresh =>
          have hne : t ≠ mem := fun heq => hfresh (heq ▸ ht)
          split at h
          · cases h
          · next s hsave =>
              split at h
              · cases h
              · next s' hnew =>
                  split at h
                  · next cpu hret =>
                      injection h with h
                      subst h
                      have hkeep := taskNew_registers hnew hne
                      rw [saveOnEntry_registers hsave hcur] at hkeep
                      refine ⟨hkeep, List.mem_append_left _ ht, fun hc => ?_⟩
                      injection hc with hc
                      exact absurd hc.symm hne
                  · cases h
  | exit kflags =>
      simp only [machineStep] at h
      split at h
      · next s c hsave hc =>
          have hne : t ≠ c := fun heq => hcur (heq ▸ hc)
          split at h
          · cases h
          · next s' hfree =>
              split at h
              · next s'' cpu hnext =>
                  injection h with h
                  subst h
                  obtain ⟨hkeep, hback⟩ := taskNext_served (t := t) hnext
                  rw [taskFree_registers hfree,
                    saveOnEntry_registers hsave hcur] at hkeep hback
                  exact ⟨hkeep, (List.mem_erase_of_ne hne).mpr ht,
                    fun hc => ⟨kflags, rfl, hback hc⟩⟩
              · cases h
      · cases h

-- ============================================================== whole histories

/-- The run lemma: however long other tasks run, a live task's registers
stay as they were saved. -/
theorem exec_served {t : Addr} :
    ∀ {events : List Event} {m m' : Machine},
      exec machineStep m events = some m' → t ∈ m.live →
      m.sys.currentTask ≠ some t →
      Along machineStep (fun _ _ s => s.sys.currentTask ≠ some t) m events →
      (m'.sys.tasks t).registers = (m.sys.tasks t).registers
        ∧ t ∈ m'.live ∧ m'.sys.currentTask ≠ some t := by
  intro events
  induction events with
  | nil =>
      intro m m' hrun ht hcur _
      cases hrun
      exact ⟨rfl, ht, hcur⟩
  | cons e events ih =>
      intro m m' hrun ht hcur haway
      cases hstep : machineStep m e with
      | none => simp [exec, hstep] at hrun
      | some m₁ =>
          rw [exec_cons_of_step hstep] at hrun
          obtain ⟨hcur₁, haway₁⟩ := (along_cons_of_step hstep).mp haway
          have hserved := machineStep_served hstep ht hcur
          obtain ⟨hregs, hlive, hend⟩ := ih hrun hserved.live hcur₁ haway₁
          exact ⟨hregs.trans hserved.registers, hlive, hend⟩

/-- The clock saves the registers of the task it interrupts, and runs
some task from its saved registers. -/
theorem clock_saves {m m' : Machine} {t : Addr} {kflags : BitVec 32}
    (h : machineStep m (.clock kflags) = some m')
    (hcur : m.sys.currentTask = some t) :
    m'.live = m.live ∧ (m'.sys.tasks t).registers = savedRegisters m.cpu
      ∧ (m'.sys.currentTask = some t →
        taskReturn (savedRegisters m.cpu) kflags = some m'.cpu) := by
  simp only [machineStep] at h
  split at h
  · cases h
  · next s hsave =>
      split at h
      · next s' cpu hnext =>
          injection h with h
          subst h
          obtain ⟨c, hc, rfl⟩ := saveOnEntry_saved hsave
          rw [hcur] at hc
          injection hc with hc
          subst hc
          obtain ⟨hkeep, hback⟩ := taskNext_served (t := t) hnext
          simp only [Function.update_self] at hkeep hback
          exact ⟨rfl, hkeep, hback⟩
      · cases h

/-- A resumption brings back the registers saved at the interruption,
under the kernel's flags. -/
theorem NextResume.cpu_eq {t : Addr} {m m' : Machine} {events : List Event}
    {last : Event} (h : NextResume t m events last m') :
    ∃ kflags, last.kernelFlags = some kflags
      ∧ m'.cpu = { m.cpu with flags := kflags ||| 0x200#32 } := by
  obtain ⟨hcur, hlive, ⟨kflags₀, hfirst⟩, ⟨m₁, hrun, hlast⟩, haway, hback⟩ := h
  have hret : ∃ kflags, last.kernelFlags = some kflags
      ∧ taskReturn (savedRegisters m.cpu) kflags = some m'.cpu := by
    cases events with
    | nil =>
        -- the clock came straight back to the task
        cases hrun
        rw [List.nil_append, List.head?_cons] at hfirst
        injection hfirst with hfirst
        subst hfirst
        exact ⟨kflags₀, rfl, (clock_saves hlast hcur).2.2 hback⟩
    | cons e events =>
        rw [List.cons_append, List.head?_cons] at hfirst
        injection hfirst with hfirst
        subst hfirst
        cases hstep : machineStep m (.clock kflags₀) with
        | none => simp [exec, hstep] at hrun
        | some m₀ =>
            rw [exec_cons_of_step hstep] at hrun
            obtain ⟨haway₀, haway⟩ := (along_cons_of_step hstep).mp haway
            obtain ⟨hlive₀, hsaved, -⟩ := clock_saves hstep hcur
            obtain ⟨hregs, hlive₁, hcur₁⟩ :=
              exec_served hrun (hlive₀ ▸ hlive) haway₀ haway
            have hserved := machineStep_served hlast hlive₁ hcur₁
            obtain ⟨kflags, hk, hcpu⟩ := hserved.resumed hback
            rw [hregs, hsaved] at hcpu
            exact ⟨kflags, hk, hcpu⟩
  obtain ⟨kflags, hk, hcpu⟩ := hret
  rw [taskReturn_saved] at hcpu
  injection hcpu with hcpu
  exact ⟨kflags, hk, hcpu.symm⟩

/-- Context switching: whatever other tasks do in between, a task
interrupted by the clock is resumed with every register as it was if and
only if the flags the kernel runs `task_return` with agree with the
task's own flags in every bit but the interrupt flag. -/
theorem context_switch_exact {t : Addr} {m m' : Machine}
    {events : List Event} {last : Event}
    (h : NextResume t m events last m') :
    Restored m.cpu m'.cpu ↔ FlagsAgree last m.cpu.flags := by
  obtain ⟨kflags, hk, hcpu⟩ := h.cpu_eq
  unfold Restored FlagsAgree
  rw [hcpu, hk]
  constructor
  · intro heq
    exact congrArg UserCpu.flags heq
  · intro hflags
    rw [hflags]

/-- Two tasks, the older one running with its carry flag set. -/
def twoTasks : Machine where
  sys :=
    { tasks := fun a =>
        { pageDirectory := some 0x5000#32, process := 0#32
          registers := { Registers.zero with cs := userCodeSegment }
          next := if a = 0x1000#32 then some 0x2000#32 else none
          prev := if a = 0x2000#32 then some 0x1000#32 else none }
      currentTask := some 0x1000#32, taskTail := some 0x2000#32
      taskHead := some 0x1000#32, currDir := some 0x5000#32 }
  live := [0x1000#32, 0x2000#32]
  cpu :=
    { edi := 1#32, esi := 2#32, ebp := 3#32, ebx := 4#32, edx := 5#32
      ecx := 6#32, eax := 7#32, ip := 0x400010#32, cs := 0x1B#16
      flags := 0x203#32, esp := 0x3FEFF0#32, ss := 0x23#16, ring := rfl }

/-- The clock takes them in turn, with the kernel's zero flag set. -/
theorem twoTasks_resume : ∃ m',
    NextResume 0x1000#32 twoTasks [.clock 0x46#32] (.clock 0x46#32) m'
      ∧ m'.cpu.flags = 0x246#32 := by
  refine ⟨_, ⟨rfl, by decide, ⟨_, rfl⟩, ⟨_, rfl, rfl⟩, ?_, rfl⟩, rfl⟩
  exact ⟨by decide, trivial⟩

theorem context_switch_exact_two_tasks : ∃ m',
    NextResume 0x1000#32 twoTasks [.clock 0x46#32] (.clock 0x46#32) m'
      ∧ (Restored twoTasks.cpu m'.cpu ↔
        FlagsAgree (.clock 0x46#32) twoTasks.cpu.flags) := by
  obtain ⟨m', hback, -⟩ := twoTasks_resume
  exact ⟨m', hback, context_switch_exact hback⟩

/-- The carry flag of the first task is lost at its resumption. -/
theorem context_switch_loses_flags :
    ¬ ∀ (t : Addr) (m : Machine) (events : List Event) (last : Event)
      (m' : Machine), NextResume t m events last m' →
        Restored m.cpu m'.cpu := by
  intro hall
  obtain ⟨m', hback, hflags⟩ := twoTasks_resume
  have hcpu := hall _ _ _ _ _ hback
  unfold Restored at hcpu
  rw [hcpu] at hflags
  exact absurd hflags (by decide)

end BenOS.Tasks
