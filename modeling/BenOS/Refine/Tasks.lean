/-
The tasks of the kernel's memory, as the tasks of `Tasks`.

`Tasks` keeps a record at each address and null as `none`; the kernel has
the bytes of `struct task`. `taskAt` reads the record off the bytes, and
`TasksShown` says that the records of some tasks are those of the memory,
with the same globals. What `task.c` does to the bytes it then does to the
records: there is one theorem for each function, from a call that comes
back in the kernel to the call of `Tasks`.

A task the list still points to may have been given back, and its bytes
be another's. So the tasks a call writes to are asked to be shown.
-/
import BenOS.Isr80h.Proofs.SaveState
import BenOS.Kernel.Proofs.AddressSpace
import BenOS.Kernel.Proofs.NewTask

namespace BenOS.Refine

open Lib Memory Kernel

-- ================================================================ the records

/-- A pointer; null is none. -/
def nullable (a : Addr) : Option Addr := if a = 0#32 then none else some a

theorem nullable_of_ne {a : Addr} (h : a ≠ 0#32) : nullable a = some a :=
  if_neg h

theorem nullable_eq_none {a : Addr} : nullable a = none ↔ a = 0#32 := by
  unfold nullable
  split
  case isTrue h => exact iff_of_true rfl h
  case isFalse h => exact iff_of_false (fun hn => by cases hn) h

theorem nullable_eq_some {a b : Addr} (hb : b ≠ 0#32) :
    nullable a = some b ↔ a = b := by
  unfold nullable
  split
  case isTrue h =>
    rw [h]
    exact iff_of_false (fun hn => by cases hn) (Ne.symm hb)
  case isFalse => exact ⟨Option.some.inj, congrArg some⟩

theorem nullable_inj {a b : Addr} : nullable a = nullable b ↔ a = b := by
  by_cases hb : b = 0#32
  · rw [hb, nullable_eq_none.mpr rfl, nullable_eq_none]
  · rw [nullable_of_ne hb, nullable_eq_some hb]

/-- The `struct task` at an address. -/
def taskAt (m : Bytes) (task : Addr) : Tasks.Task where
  pageDirectory := nullable (load32 m (task + offPageDirectory))
  registers := Isr80h.registersAt m task
  process := load32 m (task + offProcess)
  next := nullable (load32 m (task + offNext))
  prev := nullable (load32 m (task + offPrev))

variable {m m' : Bytes} {task a : Addr}

/-- Each field is a word of the task. -/
theorem registersAt_congr (h : ∀ i < 12, load32 m' (task + BitVec.ofNat 32
      (4 + 4 * i)) = load32 m (task + BitVec.ofNat 32 (4 + 4 * i))) :
    Isr80h.registersAt m' task = Isr80h.registersAt m task := by
  have hword : ∀ i < 12, load32 m' (task + Isr80h.offRegisters
        + BitVec.ofNat 32 (4 * i))
      = load32 m (task + Isr80h.offRegisters + BitVec.ofNat 32 (4 * i)) := by
    intro i hi
    have hsum : task + Isr80h.offRegisters + BitVec.ofNat 32 (4 * i)
        = task + BitVec.ofNat 32 (4 + 4 * i) := by
      rw [BitVec.add_assoc, BitVec.ofNat_add]
    rw [hsum]
    exact h i hi
  unfold Isr80h.registersAt
  simp only
  rw [hword 0 (by decide), hword 1 (by decide), hword 2 (by decide),
    hword 3 (by decide), hword 4 (by decide), hword 5 (by decide),
    hword 6 (by decide), hword 7 (by decide), hword 8 (by decide),
    hword 9 (by decide), hword 10 (by decide), hword 11 (by decide)]

/-- The bytes of a task decide its record. -/
theorem taskAt_congr (h : SameOn task sizeofTask m m') :
    taskAt m' task = taskAt m task := by
  have hword : ∀ k, k + 4 ≤ sizeofTask →
      load32 m' (task + BitVec.ofNat 32 k)
        = load32 m (task + BitVec.ofNat 32 k) := by
    intro k hk
    refine load32_congr (h.part ?_)
    rw [BitVec.toNat_ofNat]
    have := Nat.mod_le k (2 ^ 32)
    omega
  have hregs := registersAt_congr fun i hi => hword (4 + 4 * i) (by
    simp only [sizeofTask]
    omega)
  have hdir : load32 m' (task + offPageDirectory)
      = load32 m (task + offPageDirectory) := hword 0 (by decide)
  have hprocess : load32 m' (task + offProcess)
      = load32 m (task + offProcess) := hword 52 (by decide)
  have hnext : load32 m' (task + offNext) = load32 m (task + offNext) :=
    hword 56 (by decide)
  have hprev : load32 m' (task + offPrev) = load32 m (task + offPrev) :=
    hword 60 (by decide)
  unfold taskAt
  rw [hregs, hdir, hprocess, hnext, hprev]

/-- A store to `task->next`. -/
theorem taskAt_storeNext (m : Bytes) (task v : Addr) :
    taskAt (store32 m (task + offNext) v) task
      = { taskAt m task with next := nullable v } := by
  have hword : ∀ k, k + 4 ≤ 56 →
      load32 (store32 m (task + offNext) v) (task + BitVec.ofNat 32 k)
        = load32 m (task + BitVec.ofNat 32 k) := fun k hk =>
    load32_taskStore m task v (k := 56) (by decide) (by
      simp only [sizeofTask]
      omega) (Or.inr hk)
  have hprev : load32 (store32 m (task + offNext) v) (task + offPrev)
      = load32 m (task + offPrev) :=
    load32_taskStore m task v (k := 56) (j := 60) (by decide) (by decide)
      (Or.inl (by decide))
  have hdir : load32 (store32 m (task + offNext) v) (task + offPageDirectory)
      = load32 m (task + offPageDirectory) := hword 0 (by decide)
  have hprocess : load32 (store32 m (task + offNext) v) (task + offProcess)
      = load32 m (task + offProcess) := hword 52 (by decide)
  unfold taskAt
  rw [registersAt_congr fun i hi => hword (4 + 4 * i) (by omega), hdir,
    hprocess, hprev, load32_store32]

/-- The globals of `task.c` are those of `s`, and so are the records of the
tasks listed. -/
structure TasksShown (live : List Addr) (k : KernelState)
    (s : Tasks.TaskSys) : Prop where
  head : s.taskHead = nullable k.taskHead
  tail : s.taskTail = nullable k.taskTail
  current : s.currentTask = nullable k.currentTask
  record : ∀ a ∈ live, s.tasks a = taskAt k.ram.mem a

/-- No two tasks share a byte. -/
def TasksApart (live : List Addr) : Prop :=
  ∀ a ∈ live, ∀ b ∈ live, a ≠ b → SpansApart a sizeofTask b sizeofTask

theorem tasksApart_of_blocks {a b : Addr}
    (h : SpansApart a (blockBytes 1) b (blockBytes 1)) :
    SpansApart a sizeofTask b sizeofTask := fun x hx hx' =>
  h x (Nat.lt_trans hx (show sizeofTask < blockBytes 1 by decide))
    (Nat.lt_trans hx' (show sizeofTask < blockBytes 1 by decide))

variable {live live' : List Addr} {k k' : KernelState} {s : Tasks.TaskSys}

/-- Fewer tasks may be shown. -/
theorem TasksShown.mono (h : TasksShown live k s) (hsub : live' ⊆ live) :
    TasksShown live' k s :=
  ⟨h.head, h.tail, h.current, fun a ha => h.record a (hsub ha)⟩

/-- Memories that agree on the tasks show the same. -/
theorem TasksShown.congr (h : TasksShown live k s)
    (hhead : k'.taskHead = k.taskHead) (htail : k'.taskTail = k.taskTail)
    (hcurrent : k'.currentTask = k.currentTask)
    (hsame : ∀ a ∈ live, SameOn a sizeofTask k.ram.mem k'.ram.mem) :
    TasksShown live k' s := by
  refine ⟨?_, ?_, ?_, fun a ha => ?_⟩
  · rw [hhead]
    exact h.head
  · rw [htail]
    exact h.tail
  · rw [hcurrent]
    exact h.current
  · rw [taskAt_congr (hsame a ha)]
    exact h.record a ha

theorem TasksShown.next (h : TasksShown live k s) (ha : a ∈ live) :
    (s.tasks a).next = nullable (taskNext k a) := by
  rw [h.record a ha]
  rfl

theorem TasksShown.prev (h : TasksShown live k s) (ha : a ∈ live) :
    (s.tasks a).prev = nullable (taskPrev k a) := by
  rw [h.record a ha]
  rfl

/-- A store to a field of a task that is shown. -/
theorem TasksShown.store (h : TasksShown live k s) (hap : TasksApart live)
    (ha : a ∈ live) {o v : Addr} (ho : o.toNat + 4 ≤ sizeofTask)
    {r : Tasks.Task} (hr : taskAt (store32 k.ram.mem (a + o) v) a = r) :
    TasksShown live (k.store (a + o) v)
      { s with tasks := Function.update s.tasks a r } := by
  refine ⟨h.head, h.tail, h.current, fun b hb => ?_⟩
  show Function.update s.tasks a r b = taskAt (store32 k.ram.mem (a + o) v) b
  by_cases hba : b = a
  · rw [hba, hr]
    exact Function.update_self _ _ _
  · have hsame : SameOn b sizeofTask k.ram.mem
        (store32 k.ram.mem (a + o) v) :=
      writeBytes_sameOn _ _ ((hap a ha b hb (Ne.symm hba)).part ho)
    rw [taskAt_congr hsame, Function.update_of_ne hba]
    exact h.record b hb

-- ============================================================== task_get_next

/-- `task_get_next` -/
theorem taskGetNext_refines (h : TasksShown live k s)
    (hcurrent : k.currentTask ∈ live) (hne : k.currentTask ≠ 0#32) :
    Tasks.taskGetNext s = some (nullable (taskGetNext k)) := by
  unfold Tasks.taskGetNext taskGetNext
  rw [h.current, nullable_of_ne hne]
  simp only
  rw [h.next hcurrent]
  by_cases hnext : taskNext k k.currentTask = 0#32
  · rw [if_pos hnext, nullable_eq_none.mpr hnext]
    exact congrArg some h.head
  · rw [if_neg hnext, nullable_of_ne hnext]

-- ========================================================== task_list_remove

/-- `task_list_remove`, the predecessor. -/
theorem taskListSkip_refines (h : TasksShown live k s)
    (hap : TasksApart live) (htask : task ∈ live)
    (hprev : taskPrev k task ≠ 0#32 → taskPrev k task ∈ live) :
    TasksShown live
      (if taskPrev k task = 0#32 then k
        else k.store (taskPrev k task + offNext) (taskNext k task))
      (Tasks.taskListSkip s task) := by
  unfold Tasks.taskListSkip
  rw [h.prev htask]
  by_cases hnull : taskPrev k task = 0#32
  · rw [if_pos hnull, nullable_eq_none.mpr hnull]
    exact h
  · rw [if_neg hnull, nullable_of_ne hnull]
    simp only
    rw [h.next htask, h.record _ (hprev hnull)]
    exact h.store hap (hprev hnull) (by decide) (taskAt_storeNext _ _ _)

/-- `task_list_remove`, the head. -/
theorem taskListMoveHead_refines (h : TasksShown live k s)
    (htask : task ∈ live) (hne : task ≠ 0#32) :
    TasksShown live
      (if task = k.taskHead then { k with taskHead := taskNext k task } else k)
      (Tasks.taskListMoveHead s task) := by
  have hiff : s.taskHead = some task ↔ task = k.taskHead := by
    rw [h.head, nullable_eq_some hne]
    exact eq_comm
  unfold Tasks.taskListMoveHead
  by_cases heq : task = k.taskHead
  · rw [if_pos heq, if_pos (hiff.mpr heq)]
    exact ⟨h.next htask, h.tail, h.current, h.record⟩
  · rw [if_neg heq, if_neg fun hs => heq (hiff.mp hs)]
    exact h

/-- `task_list_remove`, the tail. -/
theorem taskListMoveTail_refines (h : TasksShown live k s)
    (htask : task ∈ live) (hne : task ≠ 0#32) :
    TasksShown live
      (if task = k.taskTail then { k with taskTail := taskPrev k task } else k)
      (Tasks.taskListMoveTail s task) := by
  have hiff : s.taskTail = some task ↔ task = k.taskTail := by
    rw [h.tail, nullable_eq_some hne]
    exact eq_comm
  unfold Tasks.taskListMoveTail
  by_cases heq : task = k.taskTail
  · rw [if_pos heq, if_pos (hiff.mpr heq)]
    exact ⟨h.head, h.prev htask, h.current, h.record⟩
  · rw [if_neg heq, if_neg fun hs => heq (hiff.mp hs)]
    exact h

/-- `task_list_remove` of a task that is shown with its predecessor. -/
theorem taskListRemove_refines (h : TasksShown live k s)
    (hap : TasksApart live) (htask : task ∈ live) (hne : task ≠ 0#32)
    (hprev : taskPrev k task ≠ 0#32 → taskPrev k task ∈ live) :
    ∃ s', Tasks.taskListRemove s task = some s'
      ∧ TasksShown live (taskListRemove task k) s' := by
  have h₁ := taskListSkip_refines h hap htask hprev
  unfold Tasks.taskListRemove taskListRemove
  simp only
  generalize (if taskPrev k task = 0#32 then k
    else k.store (taskPrev k task + offNext) (taskNext k task)) = k₁ at h₁ ⊢
  generalize Tasks.taskListSkip s task = s₁ at h₁ ⊢
  have h₂ := taskListMoveHead_refines h₁ htask hne
  generalize (if task = k₁.taskHead then
    { k₁ with taskHead := taskNext k₁ task } else k₁) = k₂ at h₂ ⊢
  generalize Tasks.taskListMoveHead s₁ task = s₂ at h₂ ⊢
  have h₃ := taskListMoveTail_refines h₂ htask hne
  generalize (if task = k₂.taskTail then
    { k₂ with taskTail := taskPrev k₂ task } else k₂) = k₃ at h₃ ⊢
  generalize Tasks.taskListMoveTail s₂ task = s₃ at h₃ ⊢
  have hiff : s₃.currentTask = some task ↔ task = k₃.currentTask := by
    rw [h₃.current, nullable_eq_some hne]
    exact eq_comm
  by_cases heq : task = k₃.currentTask
  · rw [if_pos heq, if_pos (hiff.mpr heq),
      taskGetNext_refines h₃ (heq ▸ htask) (heq ▸ hne)]
    exact ⟨_, rfl, h₃.head, h₃.tail, rfl, h₃.record⟩
  · rw [if_neg heq, if_neg fun hs => heq (hiff.mp hs)]
    exact ⟨s₃, rfl, h₃⟩

/-- It writes to the `next` of the predecessor and to the globals of the
list, and nowhere else. -/
theorem taskListRemove_frame (task : Addr) (k : KernelState) :
    ∃ m head tail current, taskListRemove task k
        = { k.setMem m with
            taskHead := head, taskTail := tail, currentTask := current }
      ∧ ∀ a n, (taskPrev k task ≠ 0#32 →
          SpansApart (taskPrev k task + offNext) 4 a n) →
        SameOn a n k.ram.mem m := by
  have hskip : ∃ m, (if taskPrev k task = 0#32 then k
        else k.store (taskPrev k task + offNext) (taskNext k task))
          = k.setMem m
      ∧ ∀ a n, (taskPrev k task ≠ 0#32 →
          SpansApart (taskPrev k task + offNext) 4 a n) →
        SameOn a n k.ram.mem m := by
    by_cases hnull : taskPrev k task = 0#32
    · rw [if_pos hnull]
      exact ⟨k.ram.mem, rfl, fun a n _ => SameOn.refl _ _ _⟩
    · rw [if_neg hnull]
      exact ⟨_, rfl, fun a n hap => writeBytes_sameOn _ _ (hap hnull)⟩
  obtain ⟨m, heq, hsame⟩ := hskip
  -- whichever globals point to the task, they alone are set
  unfold taskListRemove
  rw [heq]
  simp only
  split <;> split <;> split <;> exact ⟨m, _, _, _, rfl, hsame⟩

-- ================================================================= task_free

/-- Giving back a directory writes nothing. -/
theorem pagingFree4gb_some {chunk : Addr} {r r' : Ram}
    (h : pagingFree4gb chunk r = some r') :
    chunk ≠ 0#32 ∧ r'.mem = r.mem ∧ r'.served = r.served := by
  have hchunk : chunk ≠ 0#32 := by
    intro hnull
    unfold pagingFree4gb at h
    rw [if_pos hnull] at h
    cases h
  have hdir : load32 r.mem chunk ≠ 0#32 := by
    intro hnull
    unfold pagingFree4gb at h
    simp only at h
    rw [if_neg hchunk, if_pos hnull] at h
    cases h
  rw [pagingFree4gb_eq r hchunk hdir] at h
  rw [← Option.some.inj h]
  exact ⟨hchunk, kfreeAll_mem _ _, kfreeAll_served _ _⟩

/-- `task_free` that comes back has given back the directory, taken the
task out of the list, and given back the task. -/
theorem taskFree_some (h : taskFree task k = some k') :
    task ≠ 0#32 ∧ ∃ r, pagingFree4gb (load32 k.ram.mem
        (task + offPageDirectory)) k.ram = some r
      ∧ k' = (taskListRemove task { k with ram := r }).kfree task := by
  unfold taskFree at h
  split at h
  case isTrue => cases h
  case isFalse hne =>
    obtain ⟨r, hr, h⟩ := Option.bind_eq_some_iff.mp h
    exact ⟨hne, r, hr, (Option.some.inj h).symm⟩

/-- `task_free` of a task that is shown with its predecessor. -/
theorem taskFree_refines (h : TasksShown live k s) (hap : TasksApart live)
    (htask : task ∈ live)
    (hprev : taskPrev k task ≠ 0#32 → taskPrev k task ∈ live)
    (hfree : taskFree task k = some k') :
    ∃ s', Tasks.taskFree s (nullable task) = some s'
      ∧ TasksShown live k' s' := by
  obtain ⟨hne, r, hpaging, rfl⟩ := taskFree_some hfree
  obtain ⟨hchunk, hmem, -⟩ := pagingFree4gb_some hpaging
  have hfreed : TasksShown live { k with ram := r } s :=
    h.congr rfl rfl rfl fun a _ x _ => congrFun hmem x
  have hprev' : taskPrev { k with ram := r } task = taskPrev k task :=
    congrArg (load32 · (task + offPrev)) hmem
  obtain ⟨s', hremove, hshown⟩ := taskListRemove_refines hfreed hap htask hne
    (by rw [hprev']; exact hprev)
  refine ⟨s', ?_, hshown.congr rfl rfl rfl fun a _ => SameOn.refl _ _ _⟩
  have hdir : (s.tasks task).pageDirectory
      = some (load32 k.ram.mem (task + offPageDirectory)) := by
    rw [h.record task htask]
    exact nullable_of_ne hchunk
  unfold Tasks.taskFree
  rw [nullable_of_ne hne]
  simp only
  rw [hdir]
  exact hremove

/-- It writes where taking the task out of the list writes. -/
theorem taskFree_frame (hfree : taskFree task k = some k') :
    k'.processes = k.processes ∧ k'.currProcess = k.currProcess
      ∧ ∀ a n, (taskPrev k task ≠ 0#32 →
          SpansApart (taskPrev k task + offNext) 4 a n) →
        SameOn a n k.ram.mem k'.ram.mem := by
  obtain ⟨-, r, hpaging, rfl⟩ := taskFree_some hfree
  obtain ⟨-, hmem, -⟩ := pagingFree4gb_some hpaging
  obtain ⟨m, head, tail, current, heq, hsame⟩ :=
    taskListRemove_frame task { k with ram := r }
  have hprev : taskPrev { k with ram := r } task = taskPrev k task :=
    congrArg (load32 · (task + offPrev)) hmem
  rw [hprev] at hsame
  rw [heq]
  refine ⟨rfl, rfl, fun a n hap => ?_⟩
  have hfirst : SameOn a n k.ram.mem r.mem := fun x _ => congrFun hmem x
  exact hfirst.trans (hsame a n hap)

-- ================================================================== task_new

/-- The entry point `task_init` goes by. -/
def entryAt (m : Bytes) (process : Addr) : Tasks.TaskEntry :=
  if m (process + offFiletype) = Tasks.processFiletypeElf then
    .elf (Loader.elfEntry m
      (Loader.elfHeader m (load32 m (process + offImage)))).val
  else .binary

end BenOS.Refine
