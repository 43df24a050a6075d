/-
Argument injection that fails.

`process_inject_args` answers an error wherever a `process_malloc` of it
does (`processInjectArgsFrom_failed`). Its caller does not look: the result
it tests behind the call is still that of `process_load_switch`. So
whatever fails and for whatever list, the new process is started
(`invokeLoaded_started`).
-/
import BenOS.Kernel.Proofs.Alloc
import BenOS.Kernel.Proofs.ArgWalk
import BenOS.Kernel.Proofs.Fresh
import BenOS.Memory.Proofs.Requests

namespace BenOS.Kernel

open Lib Memory Traced Fat

variable {process argv rootArg : Addr} {m : Bytes} {r : Ram} {fuel : Nat}

-- ============================================================ what is required

/-- The blocks of the heap, and the allocation table, the page directory
and the arguments of the process, are as they were. -/
structure InjectUndone (process : Addr) (r r' : Ram) : Prop where
  blocks : ∀ i : Nat, i < r.heap.table.total →
    r'.heap.table.entries i = r.heap.table.entries i
  table : ∀ i < benosMaxProgramAllocations,
    allocPtr r'.mem process i = allocPtr r.mem process i
      ∧ allocSize r'.mem process i = allocSize r.mem process i
  directory : ∀ page,
    pagingGet r'.mem (load32 r'.mem (processPageDirectory r'.mem process)) page
      = pagingGet r.mem (load32 r.mem (processPageDirectory r.mem process)) page
  argc : load32 r'.mem (process + offArgc) = load32 r.mem (process + offArgc)
  argv : load32 r'.mem (process + offArgv) = load32 r.mem (process + offArgv)

/-- A failed injection is undone and reported: it answers a negative code
and leaves things as they were, and its caller gets an answer too. -/
structure FailureHandled (fuel : Nat) (res : Int) (process rootArg : Addr)
    (k : KernelState) : Prop where
  undone : ∃ e r', (processInjectArgsFrom fuel process rootArg k.ram).val
    = some (e, r') ∧ e < 0 ∧ InjectUndone process k.ram r'
  reported : ∃ v k',
    (invokeLoaded fuel res process rootArg k).val = some (.answered v k')

-- ============================================================== the function

/-- A string that is refused is what the loop answers. -/
theorem injectCommandArgsLoop_failed (fuel : Nat) :
    ∀ {i : Int} {current : Addr} {r : Ram},
      .malloc 0#32
          ∈ (injectCommandArgsLoop process argv fuel i current r).log →
      ∃ r', (injectCommandArgsLoop process argv fuel i current r).val
        = some (-enomem, r') := by
  induction fuel with
  | zero =>
      intro i current r h
      exact absurd h List.not_mem_nil
  | succ fuel ih =>
      intro i current r h
      by_cases hnull : current = 0#32
      · rw [hnull, injectCommandArgsLoop_null] at h
        exact absurd h List.not_mem_nil
      · generalize hq : processMalloc process sizeofArg r = q at h
        obtain ⟨ptr, q⟩ := q
        by_cases hptr : ptr = 0#32
        · subst hptr
          rw [injectCommandArgsLoop_refused hnull hq]
          exact ⟨q, rfl⟩
        · rw [injectCommandArgsLoop_granted hnull hq hptr] at h ⊢
          rcases List.mem_cons.mp h with h | h
          · cases h
          · rcases List.mem_cons.mp h with h | h
            · exact absurd (ArgEvent.malloc.inj h).symm hptr
            · exact ih h

/-- So is an array that is refused. -/
theorem injectCommandArgs_failed {argc : Int}
    (h : .malloc 0#32 ∈ (injectCommandArgs fuel process rootArg argc r).log) :
    ∃ r', (injectCommandArgs fuel process rootArg argc r).val
      = some (-enomem, r') := by
  generalize hq : processMalloc process (toUint32 (4 * argc)).toNat r = q
  obtain ⟨argv, q⟩ := q
  by_cases hnull : argv = 0#32
  · subst hnull
    rw [injectCommandArgs_refused hq]
    exact ⟨q, rfl⟩
  · rw [injectCommandArgs_granted hq hnull] at h ⊢
    rcases List.mem_cons.mp h with h | h
    · exact absurd (ArgEvent.malloc.inj h).symm hnull
    · obtain ⟨r', hval⟩ := injectCommandArgsLoop_failed fuel h
      simp only [hval]
      exact ⟨r', rfl⟩

/-- `process_inject_args` answers `-ENOMEM` for whichever request of it is
refused. -/
theorem processInjectArgsFrom_failed
    (h : .malloc 0#32 ∈ (processInjectArgsFrom fuel process rootArg r).log) :
    ∃ r', (processInjectArgsFrom fuel process rootArg r).val
      = some (-enomem, r') := by
  have hcount := malloc_not_mem_count (m := r.mem) 0#32 fuel 0 rootArg
  cases hval : (processCountCommandArgs fuel r.mem rootArg).val with
  | none =>
      unfold processInjectArgsFrom at h
      rw [log_bind, hval, log_pure, List.append_nil] at h
      exact absurd h hcount
  | some argc =>
      rw [processInjectArgsFrom_some hval] at h ⊢
      by_cases hargc : argc = 0
      · rw [if_pos hargc, log_pure, List.append_nil] at h
        exact absurd h hcount
      · rw [if_neg hargc] at h ⊢
        rcases List.mem_append.mp h with h | h
        · exact absurd h hcount
        · exact injectCommandArgs_failed h

-- ============================================================ the system call

variable {res : Int} {k : KernelState}

/-- Where the program was loaded, the process is started with whatever
`process_inject_args` has left. -/
theorem invokeLoaded_started (hres : 0 ≤ res) {e : Int} {r' : Ram}
    (h : (processInjectArgsFrom fuel process rootArg k.ram).val
      = some (e, r')) :
    (invokeLoaded fuel res process rootArg k).val
      = some (.started (load32 r'.mem (process + offTask))
        { k with
          ram := r'
          currentTask := load32 r'.mem (process + offTask) }) := by
  have hres' : ¬ res < 0 := not_lt.mpr hres
  unfold invokeLoaded
  rw [if_neg hres', val_bind, h]
  simp only
  rw [if_neg hres']
  rfl

/-- Requests are made only where the program was loaded. -/
theorem nonneg_of_mem_invokeLoaded {e : ArgEvent}
    (h : e ∈ (invokeLoaded fuel res process rootArg k).log) : 0 ≤ res := by
  by_contra hneg
  unfold invokeLoaded at h
  rw [if_pos (not_le.mp hneg), log_pure] at h
  exact List.not_mem_nil h

/-- What the call comes to behind `process_load_switch` is what
`process_inject_args` does. -/
theorem log_invokeLoaded (hres : 0 ≤ res) :
    (invokeLoaded fuel res process rootArg k).log
      = (processInjectArgsFrom fuel process rootArg k.ram).log := by
  have hres' : ¬ res < 0 := not_lt.mpr hres
  unfold invokeLoaded
  rw [if_neg hres', log_bind]
  cases (processInjectArgsFrom fuel process rootArg k.ram).val with
  | none => exact List.append_nil _
  | some a =>
      simp only
      rw [if_neg hres']
      exact List.append_nil _

/-- A failed injection is not reported. -/
theorem not_failureHandled (hres : 0 ≤ res)
    (h : .malloc 0#32
      ∈ (processInjectArgsFrom fuel process rootArg k.ram).log) :
    ¬ FailureHandled fuel res process rootArg k := by
  intro hhandled
  obtain ⟨v, k', hanswer⟩ := hhandled.reported
  obtain ⟨r', hval⟩ := processInjectArgsFrom_failed h
  rw [invokeLoaded_started hres hval] at hanswer
  cases hanswer

/-- A system call in which a request is refused starts the process. -/
theorem isr80hCommand7_started {vol : Option Volume} {path : Addr}
    {stack : Nat → Addr}
    (h : .malloc 0#32
      ∈ (isr80hCommand7InvokeSystemCommand fuel vol path stack k).log) :
    ∃ task k', (isr80hCommand7InvokeSystemCommand fuel vol path stack k).val
      = some (.started task k') := by
  unfold isr80hCommand7InvokeSystemCommand at h ⊢
  split at h
  case h_1 ptr built _ _ =>
    simp only at h ⊢
    split at h
    case h_1 => exact absurd h List.not_mem_nil
    case h_2 l _ =>
      have hres := nonneg_of_mem_invokeLoaded h
      rw [log_invokeLoaded hres] at h
      obtain ⟨r', hval⟩ := processInjectArgsFrom_failed h
      exact ⟨_, _, invokeLoaded_started hres hval⟩
  case h_2 => exact absurd h List.not_mem_nil
  case h_3 => exact absurd h List.not_mem_nil

/-- Whichever request of `process_inject_args` is refused, for whatever
list: it answers `-ENOMEM`, and `isr80h_command7_invoke_system_command`
starts the process and answers nothing. A failed injection is never
handled. -/
theorem failed_injection_never_handled (fuel : Nat) :
    (∀ (res : Int) (process rootArg : Addr) (k : KernelState), 0 ≤ res →
        .malloc 0#32
            ∈ (processInjectArgsFrom fuel process rootArg k.ram).log →
          (∃ r', (processInjectArgsFrom fuel process rootArg k.ram).val
            = some (-enomem, r'))
          ∧ ¬ FailureHandled fuel res process rootArg k)
      ∧ ∀ (vol : Option Volume) (path : Addr) (stack : Nat → Addr)
          (k : KernelState),
        .malloc 0#32
            ∈ (isr80hCommand7InvokeSystemCommand fuel vol path stack k).log →
          ∃ task k',
            (isr80hCommand7InvokeSystemCommand fuel vol path stack k).val
              = some (.started task k') := by
  constructor
  · intro res process rootArg k hres h
    exact ⟨processInjectArgsFrom_failed h, not_failureHandled hres h⟩
  · intro vol path stack k h
    exact isr80hCommand7_started h

-- ========================================================= a heap that is full

/-- Marking frees no block. -/
theorem takenFrom_keeps {ns : List Nat} {i : Nat} :
    ∀ {b : Nat} {heap : Heap}, ¬ IsFree heap.table i →
      ¬ IsFree (takenFrom b ns heap).table i := by
  induction ns with
  | nil => exact fun h => h
  | cons n ns ih =>
      intro b heap h
      refine ih fun hfree => h ?_
      exact ((isFree_heapMarkBlocksTaken heap b n i).mp hfree).1

/-- Blocks that are handed out one behind the other are not free. -/
theorem takenFrom_taken {ns : List Nat} (hpos : ∀ n ∈ ns, 1 ≤ n) {i : Nat} :
    ∀ {b : Nat} {heap : Heap}, b ≤ i → i < b + ns.sum →
      ¬ IsFree (takenFrom b ns heap).table i := by
  induction ns with
  | nil =>
      intro b heap hlo hhi
      rw [List.sum_nil] at hhi
      omega
  | cons n ns ih =>
      intro b heap hlo hhi
      rw [List.sum_cons] at hhi
      by_cases hin : i < b + n
      · have htaken : ¬ IsFree (heapMarkBlocksTaken heap b n).table i :=
          fun hfree => ((isFree_heapMarkBlocksTaken heap b n i).mp hfree).2
            ⟨hlo, hin⟩
        show ¬ IsFree (takenFrom (b + n) ns
          (heapMarkBlocksTaken heap b n)).table i
        exact takenFrom_keeps htaken
      · exact ih (fun n hn => hpos n (List.mem_cons_of_mem _ hn)) (by omega)
          (by omega)

/-- A kernel that has loaded a process, from block 0 on, and given all the
other blocks to one owner. The first of these is a node with the name `a`
and no next. -/
def fullKernel : KernelState where
  ram :=
    { heap := takenFrom 0 (objectLengths ++ [24570]) emptyHeap
      mem := wordMemory fun k =>
        if k < (0x1000 + 1030) * 1024 then objectWord 0 k
        else if k = (0x1000 + 1030) * 1024 then 0x61#32
        else 0#32
      served := true }
  files := fun _ => none
  taskHead := 0#32
  taskTail := 0#32
  currentTask := 0#32
  processes := fun _ => 0#32
  currProcess := 0#32

/-- Its heap has no free block. -/
theorem full_fullKernel :
    RamOk fullKernel.ram
        (placed 0 objectLengths ++ [(blockAddress 1030, 24570)])
      ∧ ∀ size, 1 ≤ size → size < 2 ^ 32 →
        heapMalloc fullKernel.ram.heap size = (0#32, fullKernel.ram.heap) := by
  have hpos : ∀ n ∈ objectLengths ++ [24570], 1 ≤ n := by
    intro n hn
    rcases List.mem_append.mp hn with hn | hn
    · exact one_le_objectLengths n hn
    · rw [List.mem_singleton.mp hn]
      decide
  have hsum : (objectLengths ++ [24570]).sum = kernelHeapBlocks := by
    rw [List.sum_append, sum_objectLengths]
    rfl
  obtain ⟨hok, htotal, -⟩ := ramOk_takenFrom hpos hsum.le
    fullKernel.ram.mem fullKernel.ram.served
  have htaken : ∀ i, i < kernelHeapBlocks →
      ¬ IsFree (takenFrom 0 (objectLengths ++ [24570]) emptyHeap).table i := by
    intro i hi
    exact takenFrom_taken hpos (Nat.zero_le i) (by omega)
  rw [placed_append, sum_objectLengths] at hok
  have hheap : fullKernel.ram.heap
      = takenFrom 0 (objectLengths ++ [24570]) emptyHeap := by
    simp only [fullKernel]
  generalize takenFrom 0 (objectLengths ++ [24570]) emptyHeap = heap
    at hheap hok htotal htaken
  have hram : RamOk fullKernel.ram
      (placed 0 objectLengths ++ [(blockAddress 1030, 24570)]) :=
    hok.of_heap hheap
  refine ⟨hram, fun size hlo hsize => ?_⟩
  have hlast : ¬ IsFree fullKernel.ram.heap.table
      (fullKernel.ram.heap.table.total - 1) := by
    rw [hheap, htotal]
    exact htaken _ (by decide)
  rcases heapMalloc_of_guard hram.inMemory hlo hsize (Or.inr (Or.inr hlast))
    with hserves | hnull
  · obtain ⟨b, hin, hrun⟩ := hserves
    have hn := blocksFor_pos hlo
    rw [hheap] at hin hrun
    rw [htotal] at hin
    exact absurd (hrun b (Nat.le_refl b) (by omega)) (htaken b (by omega))
  · exact hnull

/-- The process there is fresh. -/
theorem fresh_fullKernel :
    Fresh (objectsAt 0) [(blockAddress 1030, 24570)] fullKernel.ram :=
  fresh_at (by decide) (fun k _ hk => if_pos (by omega)) full_fullKernel.1

theorem heapMalloc_refused_fullKernel :
    heapMalloc fullKernel.ram.heap (toUint32 (4 * 1)).toNat
      = (0#32, fullKernel.ram.heap) :=
  full_fullKernel.2 _ (by decide) (by decide)

/-- The array of its one argument is refused. -/
theorem refused_fullKernel :
    .malloc 0#32 ∈ (processInjectArgsFrom 2 (objectsAt 0).process
      (blockAddress 1030) fullKernel.ram).log := by
  have hnode : blockAddress 1030 ≠ 0#32 := by decide
  have hnext : commandArgNext fullKernel.ram.mem (blockAddress 1030)
      = 0#32 := by
    have h := load32_block (fun k =>
      if k < (0x1000 + 1030) * 1024 then objectWord 0 k
      else if k = (0x1000 + 1030) * 1024 then 0x61#32 else 0#32)
      (c := 1030) (k := 128) (by decide) (by decide)
    exact h
  have hends : EndsIn fullKernel.ram.mem (blockAddress 1030) 1 :=
    endsIn_succ.mpr ⟨hnode, endsIn_zero.mpr hnext⟩
  obtain ⟨hcount, -⟩ :=
    countCommandArgsLoop_of_walk 1 0 hends (Nat.lt_succ_self 1)
  have hone : (if 1 = 0 then 0 else toInt32 (0 + (1 : Nat))) = 1 := rfl
  rw [hone] at hcount
  have hrefused := heapMalloc_refused_fullKernel
  rw [processInjectArgsFrom_some hcount, if_neg (by decide)]
  refine List.mem_append_right _ ?_
  rw [injectCommandArgs_refused (processMalloc_of_refused _ hrefused)]
  exact List.mem_cons_self

/-- It is not so that failures are handled: not where no block is left for
the array. -/
theorem failed_injection_started :
    ¬ ∀ (o : Objects) (others : List (Addr × Nat)) (fuel : Nat) (res : Int)
        (rootArg : Addr) (k : KernelState), Fresh o others k.ram → 0 ≤ res →
      .malloc 0#32
          ∈ (processInjectArgsFrom fuel o.process rootArg k.ram).log →
      FailureHandled fuel res o.process rootArg k := by
  intro hall
  exact not_failureHandled (Int.le_refl 0) refused_fullKernel
    (hall _ _ 2 0 _ fullKernel fresh_fullKernel (Int.le_refl 0)
      refused_fullKernel)

end BenOS.Kernel
