/-
Round robin: the tasks that clock interrupts make current, one behind the
other.

Only the links forward and the head matter here. `Threaded s xs` says
that following them from the head visits the tasks `xs`, each once, and
stops. A clock interrupt leaves that as it is and moves the current task
on by one place, from the last place back to the first
(`idtClock_next`); so the tasks made current along a run are those of the
list from the place behind the current one on, round and round
(`states_idtClock`), and a run of the length of the list is one round.
-/
import Mathlib.Data.List.Rotate
import BenOS.Lib.Dll
import BenOS.Lib.Run
import BenOS.Tasks.Proofs.Switch
import BenOS.Tasks.Proofs.TaskList

namespace BenOS.Tasks

open Lib

variable {s s' : TaskSys} {xs : List Addr}

/-- Following `next` from the head visits `xs`, each task once, and then
null. -/
structure Threaded (s : TaskSys) (xs : List Addr) : Prop where
  nodup : xs.Nodup
  walk : follow s.next (xs.length + 1) s.taskHead = xs

/-- `task_get_next` with a current task: its successor, or else the head. -/
theorem taskGetNext_eq {c : Addr} (hcur : s.currentTask = some c) :
    taskGetNext s = some ((s.next c).or s.taskHead) := by
  unfold taskGetNext TaskSys.next
  rw [hcur]
  simp only
  cases (s.tasks c).next with
  | none => rfl
  | some u => rfl

/-- `task_next` does what `taskNextSwitch` says and then returns. -/
theorem taskNextSwitch_of_taskNext {kflags : BitVec 32} {cpu : UserCpu}
    (h : taskNext s kflags = some (s', cpu)) : taskNextSwitch s = some s' := by
  unfold taskNext at h
  unfold taskNextSwitch
  split at h
  case h_2 => cases h
  case h_1 next hget =>
    simp only at h ⊢
    split at h
    case h_2 => cases h
    case h_1 =>
      injection h with h
      exact congrArg some (Prod.mk.inj h).1

/-- The clock interrupts of the machine are those of `idtClock`. -/
theorem machineStep_clock {m m' : Machine} {kflags : BitVec 32}
    (h : machineStep m (.clock kflags) = some m') :
    ∃ frame, idtClock m.sys frame = some m'.sys := by
  simp only [machineStep] at h
  split at h
  case h_1 => cases h
  case h_2 sys hsave =>
    split at h
    case h_2 => cases h
    case h_1 sys' cpu hnext =>
      injection h with h
      subst h
      unfold saveOnEntry at hsave
      split at hsave
      case h_2 => cases hsave
      case h_1 frame _ =>
        refine ⟨frame, ?_⟩
        unfold idtClock
        rw [hsave]
        exact taskNextSwitch_of_taskNext hnext

-- ================================================================= one step

/-- A clock interrupt leaves the links and the head, and moves on to the
task `task_get_next` names. -/
theorem idtClock_eq {c : Addr} (hcur : s.currentTask = some c)
    (frame : InterruptFrame) {next : Addr}
    (hnext : (s.next c).or s.taskHead = some next) :
    ∃ s', idtClock s frame = some s' ∧ s'.currentTask = some next
      ∧ s'.next = s.next ∧ s'.taskHead = s.taskHead := by
  have hsave : taskCurrentSaveState s frame
      = some { s with
        tasks := Function.update s.tasks c
          (taskSaveState (s.tasks c) frame) } := by
    unfold taskCurrentSaveState
    rw [hcur]
  generalize hs₁ : ({ s with
    tasks := Function.update s.tasks c
      (taskSaveState (s.tasks c) frame) } : TaskSys) = s₁ at hsave
  have hlink : s₁.next = s.next := by
    rw [← hs₁]
    funext t
    unfold TaskSys.next
    simp only
    by_cases ht : t = c
    · rw [ht, Function.update_self]
      rfl
    · rw [Function.update_of_ne ht]
  have hhead : s₁.taskHead = s.taskHead := by rw [← hs₁]
  have hget : taskGetNext s₁ = some (some next) := by
    rw [taskGetNext_eq (by rw [← hs₁]; exact hcur), hlink, hhead, hnext]
  refine ⟨taskSwitch s₁ next, ?_, rfl, hlink, hhead⟩
  unfold idtClock taskNextSwitch
  rw [hsave]
  simp only
  rw [hget]

/-- The current task moves on by one place, from the last back to the
first. -/
theorem idtClock_next (h : Threaded s xs) {i : Nat} (hi : i < xs.length)
    (hnext : (i + 1) % xs.length < xs.length)
    (hcur : s.currentTask = some xs[i]) (frame : InterruptFrame) :
    ∃ s', idtClock s frame = some s' ∧ Threaded s' xs
      ∧ s'.currentTask = some xs[(i + 1) % xs.length] := by
  obtain ⟨hhead, hlinks⟩ := links_of_follow h.walk
  have hget : (s.next xs[i]).or s.taskHead
      = some xs[(i + 1) % xs.length] := by
    rw [hlinks i hi, hhead]
    by_cases hlast : i + 1 < xs.length
    · simp only [Nat.mod_eq_of_lt hlast]
      rw [List.getElem?_eq_getElem hlast]
      rfl
    · have hend : i + 1 = xs.length := by omega
      simp only [hend, Nat.mod_self]
      rw [List.getElem?_eq_none (Nat.le_refl _), Option.none_or,
        List.head?_eq_getElem?, List.getElem?_eq_getElem (by omega)]
  obtain ⟨s', hstep, hcur', hlink, hhead'⟩ := idtClock_eq hcur frame hget
  refine ⟨s', hstep, ⟨h.nodup, ?_⟩, hcur'⟩
  rw [hlink, hhead']
  exact h.walk

-- =================================================================== the run

/-- Along any number of clock interrupts the current tasks are those
behind the one that was current, round and round. -/
theorem states_idtClock (frames : List InterruptFrame) :
    ∀ {s : TaskSys} {i : Nat}, Threaded s xs → ∀ (hi : i < xs.length),
      s.currentTask = some xs[i] →
      ∃ s', exec idtClock s frames = some s'
        ∧ s'.currentTask = xs[(i + frames.length) % xs.length]?
        ∧ (states idtClock s frames).map (·.currentTask)
          = (List.range frames.length).map
              fun k => xs[(i + 1 + k) % xs.length]? := by
  induction frames with
  | nil =>
      intro s i h hi hcur
      refine ⟨s, rfl, ?_, rfl⟩
      rw [hcur, List.length_nil, Nat.add_zero, Nat.mod_eq_of_lt hi,
        List.getElem?_eq_getElem hi]
  | cons frame frames ih =>
      intro s i h hi hcur
      have hpos : (i + 1) % xs.length < xs.length := Nat.mod_lt _ (by omega)
      obtain ⟨s₁, hstep, h₁, hcur₁⟩ := idtClock_next h hi hpos hcur frame
      obtain ⟨s', hexec, hlast, hstates⟩ := ih h₁ hpos hcur₁
      refine ⟨s', ?_, ?_, ?_⟩
      · rw [exec_cons_of_step hstep]
        exact hexec
      · rw [hlast, Nat.mod_add_mod, List.length_cons]
        congr 2
        omega
      · rw [states_cons_of_step hstep, List.map_cons, hstates, hcur₁,
          List.length_cons, List.range_succ_eq_map, List.map_cons,
          List.map_map]
        congr 1
        · exact (List.getElem?_eq_getElem hpos).symm
        · refine List.map_congr_left fun k _ => ?_
          rw [Function.comp_apply, Nat.add_assoc, Nat.mod_add_mod,
            Nat.add_assoc]
          congr 2
          omega

/-- One round of clock interrupts: the tasks made current are those of the
list from the place behind the current one on. -/
theorem round_idtClock (h : Threaded s xs) {i : Nat} (hi : i < xs.length)
    (hcur : s.currentTask = some xs[i]) {frames : List InterruptFrame}
    (hframes : frames.length = xs.length) :
    ∃ s', exec idtClock s frames = some s' ∧ s'.currentTask = some xs[i]
      ∧ (states idtClock s frames).map (·.currentTask)
        = (xs.drop (i + 1) ++ xs.take i ++ [xs[i]]).map some := by
  obtain ⟨s', hexec, hlast, hstates⟩ := states_idtClock frames h hi hcur
  have hrotate : (states idtClock s frames).map (·.currentTask)
      = (xs.rotate (i + 1)).map some := by
    rw [hstates, hframes]
    refine List.ext_getElem (by simp) ?_
    intro k hk _
    rw [List.length_map, List.length_range] at hk
    simp only [List.getElem_map, List.getElem_range, List.getElem_rotate]
    simp only [Nat.add_comm k]
    exact List.getElem?_eq_getElem (Nat.mod_lt _ (by omega))
  refine ⟨s', hexec, ?_, ?_⟩
  · rw [hlast, hframes, Nat.add_mod_right, Nat.mod_eq_of_lt hi,
      List.getElem?_eq_getElem hi]
  · rw [hrotate, List.rotate_eq_drop_append_take (by omega), List.append_assoc,
      List.take_append_getElem]

/-- Round robin: on every well-formed task list and whatever task of it is
current, as many clock interrupts as there are tasks make each task
current exactly once, in the order of the list, and end with the task
that was current before. -/
theorem round_robin_exact (h : Threaded s xs) {c : Addr} (hc : c ∈ xs)
    (hcur : s.currentTask = some c) (frames : List InterruptFrame)
    (hframes : frames.length = xs.length) :
    ∃ s', exec idtClock s frames = some s' ∧ s'.currentTask = some c
      ∧ ∃ ys, (states idtClock s frames).map (·.currentTask) = ys.map some
        ∧ ys.Perm xs ∧ ys.Nodup
        ∧ ∃ before behind, xs = before ++ c :: behind
          ∧ ys = behind ++ before ++ [c] := by
  obtain ⟨i, hi, rfl⟩ := List.mem_iff_getElem.mp hc
  obtain ⟨s', hexec, hlast, hround⟩ := round_idtClock h hi hcur hframes
  have hparts : xs = xs.take i ++ xs[i] :: xs.drop (i + 1) := by
    rw [← List.drop_eq_getElem_cons hi, List.take_append_drop]
  have hperm : (xs.drop (i + 1) ++ xs.take i ++ [xs[i]]).Perm xs := by
    rw [List.append_assoc, List.take_append_getElem,
      ← List.rotate_eq_drop_append_take (by omega)]
    exact List.rotate_perm _ _
  exact ⟨s', hexec, hlast, _, hround, hperm, hperm.nodup_iff.mpr h.nodup,
    xs.take i, xs.drop (i + 1), hparts, rfl⟩

/-- Two tasks in a list, the second one current. -/
def twoReady : TaskSys where
  tasks := fun t =>
    { pageDirectory := none, registers := Registers.zero, process := 0#32
      next := if t = 0x1000#32 then some 0x2000#32 else none
      prev := if t = 0x2000#32 then some 0x1000#32 else none }
  currentTask := some 0x2000#32
  taskTail := some 0x2000#32
  taskHead := some 0x1000#32
  currDir := none

/-- Two clock interrupts there, and each has been current once. -/
theorem round_robin_exact_two_tasks :
    ∃ s', exec idtClock twoReady [⟨0, 0, 0, 0, 0, 0, 0, 0, 0, 0, 0, 0, 0⟩,
        ⟨1, 1, 1, 1, 1, 1, 1, 1, 1, 1, 1, 1, 1⟩] = some s'
      ∧ s'.currentTask = some 0x2000#32 := by
  obtain ⟨s', hexec, hcur, -⟩ := round_robin_exact (s := twoReady)
    (c := 0x2000#32) (show Threaded twoReady [0x1000#32, 0x2000#32] from
      ⟨by decide, by decide⟩)
    (by decide) rfl [⟨0, 0, 0, 0, 0, 0, 0, 0, 0, 0, 0, 0, 0⟩,
      ⟨1, 1, 1, 1, 1, 1, 1, 1, 1, 1, 1, 1, 1⟩] rfl
  exact ⟨s', hexec, hcur⟩

end BenOS.Tasks
