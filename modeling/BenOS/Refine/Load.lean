/-
The processes of the kernel's memory, as the processes of `Tasks`, and the
loads of `process.c`.

`processAt` reads the record of a process off its bytes, and `Shown` says
that the records of some processes, the table and the globals are those
of the memory, beside the tasks. A load in memory that comes back is then
a load of `Tasks`, with what the allocator and the files answered it read
off the memory, and where the heap has room it does come back
(`load_in_memory`).

What a load asks for is kept apart from what was there by the heap, and so
is what it writes, as long as opening and reading the file asks for no
more than the heap has (`DataServed`).
-/
import BenOS.Kernel.Proofs.ElfFrame
import BenOS.Kernel.Proofs.Mapping
import BenOS.Refine.Tasks
import BenOS.Tasks.Proofs.Process

namespace BenOS.Refine

open Lib Memory Fat Kernel

-- ================================================================ the records

/-- The `struct process` at an address. -/
def processAt (m : Bytes) (process : Addr) : Tasks.Process where
  id := ⟨load16 m (process + offId)⟩
  filetype := m (process + offFiletype)
  image := nullable (load32 m (process + offImage))
  size := load32 m (process + offSize)
  stack := nullable (load32 m (process + offStack))
  task := nullable (load32 m (process + offTask))

variable {m m' : Bytes} {process : Addr}

/-- The fields `Tasks` has decide the record. -/
theorem processAt_eq {r : Tasks.Process}
    (hid : load16 m (process + offId) = r.id.toBitVec)
    (hfiletype : m (process + offFiletype) = r.filetype)
    (himage : nullable (load32 m (process + offImage)) = r.image)
    (hsize : load32 m (process + offSize) = r.size)
    (hstack : nullable (load32 m (process + offStack)) = r.stack)
    (htask : nullable (load32 m (process + offTask)) = r.task) :
    processAt m process = r := by
  unfold processAt
  rw [hid, hfiletype, himage, hsize, hstack, htask]

theorem sameOn_byte {a : Addr} (h : SameOn a 1 m m') : m' a = m a := by
  refine h a ?_
  unfold InSpan
  rw [BitVec.sub_self]
  decide

/-- The bytes of a process decide its record. -/
theorem processAt_congr (h : SameOn process sizeofProcess m m') :
    processAt m' process = processAt m process :=
  processAt_eq (load16_congr (h.part (by decide)))
    (sameOn_byte (h.part (by decide)))
    (congrArg nullable (load32_congr (h.part (by decide))))
    (load32_congr (h.part (by decide)))
    (congrArg nullable (load32_congr (h.part (by decide))))
    (congrArg nullable (load32_congr (h.part (by decide))))

/-- A write to a field of a process is not seen in another. -/
theorem fieldWrite_sameOn (m : Bytes) (process : Addr) (f : Nat → UInt8)
    {o o' : Addr} {n l : Nat} (hn : n ≤ (o' - o).toNat)
    (hl : l ≤ (o - o').toNat) :
    SameOn (process + o') l m (writeBytes m (process + o) n f) :=
  writeBytes_sameOn m f (spansApart_fields process hn hl)

/-- A number stored in two bytes. -/
theorem load16_writeBytes (m : Bytes) (a v : Addr) :
    load16 (writeBytes m a 2 (byteOf v)) a = v.setWidth 16 := by
  have hlow : writeBytes m a 2 (byteOf v) a = byteOf v 0 := by
    unfold writeBytes
    rw [BitVec.sub_self, if_pos (by decide)]
    rfl
  have hhigh : writeBytes m a 2 (byteOf v) (a + 1#32) = byteOf v 1 := by
    unfold writeBytes
    rw [BitVec.add_comm, BitVec.add_sub_cancel, if_pos (by decide)]
    rfl
  have hparts : v.extractLsb' 8 8 ++ v.extractLsb' 0 8 = v.extractLsb' 0 16 :=
    BitVec.extractLsb'_append_extractLsb'_eq_extractLsb' rfl
  unfold load16
  rw [hlow, hhigh]
  exact hparts.trans (BitVec.eq_of_toNat_eq rfl)

/-- What `process_load_for_slot` stores before `task_new`. -/
theorem processAt_setStack (m : Bytes) (process : Addr) (fname : List UInt8)
    (stack : Addr) (processSlot : Nat) :
    processAt (setStack m process fname stack processSlot) process
      = { processAt m process with
          stack := nullable stack, id := UInt16.ofNat processSlot } := by
  have hlen : (((fname.takeWhile fun c => c != 0).take (benosMaxPath - 1))
      ++ [0]).length ≤ 108 := by
    rw [List.length_append, List.length_take]
    simp only [benosMaxPath, List.length_cons, List.length_nil]
    omega
  -- the name, the stack and the number, one after the other
  have hsame : ∀ {o : Addr} {l : Nat}, 108 ≤ (o - offFilename).toNat →
      l ≤ (offFilename - o).toNat → 4 ≤ (o - offStack).toNat →
      l ≤ (offStack - o).toNat → 2 ≤ (o - offId).toNat →
      l ≤ (offId - o).toNat →
      SameOn (process + o) l m
        (setStack m process fname stack processSlot) := by
    intro o l h₁ h₁' h₂ h₂' h₃ h₃'
    have hname : SameOn (process + o) l m
        (strncpy m (process + offFilename) fname benosMaxPath) := by
      unfold strncpy writeList
      exact fieldWrite_sameOn m process _ (hlen.trans h₁) h₁'
    apply hname.trans
    apply (fieldWrite_sameOn _ process (byteOf stack) h₂ h₂').trans
    exact fieldWrite_sameOn _ process _ h₃ h₃'
  refine processAt_eq ?_ ?_ ?_ ?_ ?_ ?_
  · refine (load16_writeBytes _ _ _).trans ?_
    exact BitVec.setWidth_ofNat_of_le (by decide) processSlot
  · exact sameOn_byte (hsame (by decide) (by decide) (by decide) (by decide)
      (by decide) (by decide))
  · exact congrArg nullable (load32_congr (hsame (by decide) (by decide)
      (by decide) (by decide) (by decide) (by decide)))
  · exact load32_congr (hsame (by decide) (by decide) (by decide) (by decide)
      (by decide) (by decide))
  · refine congrArg nullable ((load32_congr
      (fieldWrite_sameOn _ process _ (by decide) (by decide))).trans ?_)
    exact load32_store32 _ _ _
  · exact congrArg nullable (load32_congr (hsame (by decide) (by decide)
      (by decide) (by decide) (by decide) (by decide)))

-- ============================================================== what is shown

/-- The globals are those of `s`, and so are the records of the tasks and
the processes listed. -/
structure Shown (tasks procs : List Addr) (k : KernelState)
    (s : Tasks.ProcessSys) : Prop where
  tasks : TasksShown tasks k s.tasks
  processes : ∀ i, s.processes i = nullable (k.processes i)
  currProcess : s.currProcess = nullable k.currProcess
  process : ∀ p ∈ procs, s.memory p = processAt k.ram.mem p
  running : s.panicked = false

variable {tasks procs : List Addr} {k k' : KernelState} {s : Tasks.ProcessSys}

/-- Memories that agree on the tasks, and have the same records of the
processes, show the same. -/
theorem Shown.congr (h : Shown tasks procs k s) (hglobals : SameGlobals k k')
    (htasks : ∀ a ∈ tasks, SameOn a sizeofTask k.ram.mem k'.ram.mem)
    (hprocs : ∀ p ∈ procs,
      processAt k'.ram.mem p = processAt k.ram.mem p) :
    Shown tasks procs k' s := by
  refine ⟨h.tasks.congr hglobals.taskHead hglobals.taskTail
    hglobals.currentTask htasks, fun i => ?_, ?_, fun p hp => ?_, h.running⟩
  · rw [hglobals.processes]
    exact h.processes i
  · rw [hglobals.currProcess]
    exact h.currProcess
  · rw [hprocs p hp]
    exact h.process p hp

-- =============================================================== the table

/-- The first slot with a property of its pointer. -/
theorem firstSlot_refines (h : Shown tasks procs k s) {P : Option Addr → Bool}
    {Q : Addr → Bool} (hPQ : ∀ a, P (nullable a) = Q a) :
    Tasks.firstSlot P s.processes
      = (List.finRange benosMaxProcesses).find? fun i =>
        Q (k.processes i) := by
  unfold Tasks.firstSlot
  congr 1
  funext i
  rw [h.processes i, hPQ]

/-- A block of the heap that is held. -/
def HeldAt (a : Addr) (n : Nat) (r : Ram) : Prop :=
  ∃ b, a = blockAddress b ∧ Held b n r

/-- Whatever is held in `r` is held in `r'`, and has its bytes. -/
def Retains (r r' : Ram) : Prop :=
  ∀ b n, n ≤ kernelHeapBlocks → Held b n r →
    Held b n r' ∧ SameOn (blockAddress b) (blockBytes n) r.mem r'.mem

variable {r r' r'' : Ram} {a : Addr} {n : Nat}

theorem HeldAt.retained (h : HeldAt a n r) (hn : n ≤ kernelHeapBlocks)
    (hr : Retains r r') :
    HeldAt a n r' ∧ SameOn a (blockBytes n) r.mem r'.mem := by
  obtain ⟨b, rfl, hheld⟩ := h
  obtain ⟨hheld', hsame⟩ := hr b n hn hheld
  exact ⟨⟨b, rfl, hheld'⟩, hsame⟩

theorem Retains.trans (h : Retains r r') (h' : Retains r' r'') :
    Retains r r'' := by
  intro b n hn hheld
  obtain ⟨hheld', hsame⟩ := h b n hn hheld
  obtain ⟨hheld'', hsame'⟩ := h' b n hn hheld'
  exact ⟨hheld'', hsame.trans hsame'⟩

theorem retains_of_spares (h : Spares r r') : Retains r r' := by
  intro b n hn hheld
  exact ⟨h.held b n hheld, (h.taken b n hn hheld.isTaken).2⟩

/-- A write outside of what is held. -/
theorem Retains.mem (h : Retains r r') {m : Bytes} {c : Addr} {l : Nat}
    (hout : Outside r c l)
    (hm : ∀ a n, SpansApart c l a n → SameOn a n r'.mem m) :
    Retains r { r' with mem := m } := by
  intro b n hn hheld
  obtain ⟨hheld', hsame⟩ := h b n hn hheld
  exact ⟨hheld'.of_heap rfl,
    hsame.trans (hm _ _ (hout b n hn hheld.isTaken))⟩

/-- The tasks and the processes listed are blocks of a heap in order, and
the tail of the list is one of them. -/
structure LiveHeap (tasks procs : List Addr) (k : KernelState) : Prop where
  tidy : Tidy k.ram
  task : ∀ a ∈ tasks, HeldAt a 1 k.ram
  process : ∀ p ∈ procs, HeldAt p 3 k.ram
  apart : TasksApart tasks
  beside : ∀ a ∈ tasks, ∀ p ∈ procs,
    SpansApart a (blockBytes 1) p (blockBytes 3)
  tail : k.taskHead ≠ 0#32 → k.taskTail ∈ tasks

/-- What is held is shown as it was. -/
theorem LiveHeap.shown (hheap : LiveHeap tasks procs k)
    (h : Shown tasks procs k s) (hglobals : SameGlobals k k')
    (hretains : Retains k.ram k'.ram) : Shown tasks procs k' s := by
  refine h.congr hglobals (fun a ha => ?_) fun p hp => ?_
  · obtain ⟨-, hsame⟩ := (hheap.task a ha).retained (by decide) hretains
    exact fun x hx => hsame x (Nat.lt_trans hx (by decide))
  · obtain ⟨-, hsame⟩ := (hheap.process p hp).retained (by decide) hretains
    exact processAt_congr fun x hx => hsame x (Nat.lt_trans hx (by decide))

-- =========================================================== process_load_data

/-- A process a load is making: its block lies outside of what was there
before, and that is held and has its bytes. -/
structure ProcessMade (k : KernelState) (process : Addr)
    (record : Tasks.Process) (k' : KernelState) : Prop where
  globals : SameGlobals k k'
  retains : Retains k.ram k'.ram
  held : HeldAt process 3 k'.ram
  outside : Outside k.ram process (blockBytes 3)
  record : processAt k'.ram.mem process = record

variable {record record' : Tasks.Process}

/-- A write to the process. -/
theorem ProcessMade.write (h : ProcessMade k process record k')
    (hm : ∀ a n, SpansApart process (blockBytes 3) a n →
      SameOn a n k'.ram.mem m)
    (hrecord : processAt m process = record') :
    ProcessMade k process record' (k'.setMem m) := by
  obtain ⟨b, hb, hheld⟩ := h.held
  exact ⟨h.globals.trans ⟨rfl, rfl, rfl, rfl, rfl⟩, h.retains.mem h.outside hm,
    ⟨b, hb, hheld.of_heap rfl⟩, h.outside, hrecord⟩

/-- What comes behind, where it retains what is held. -/
theorem ProcessMade.trans {k'' : KernelState}
    (h : ProcessMade k process record k') (hglobals : SameGlobals k' k'')
    (hretains : Retains k'.ram k''.ram) : ProcessMade k process record k'' := by
  obtain ⟨hheld, hsame⟩ := h.held.retained (by decide) hretains
  refine ⟨h.globals.trans hglobals, h.retains.trans hretains, hheld, h.outside,
    ?_⟩
  have hspan : SameOn process sizeofProcess k'.ram.mem k''.ram.mem :=
    fun x hx => hsame x (Nat.lt_trans hx (by decide))
  rw [processAt_congr hspan]
  exact h.record

theorem ProcessMade.kzalloc {size : Nat} (h : ProcessMade k process record k')
    (hsize : size ≤ 0x80000000) :
    ProcessMade k process record (k'.kzalloc size).2 :=
  h.trans ⟨rfl, rfl, rfl, rfl, rfl⟩
    (retains_of_spares (spares_kzalloc k'.ram hsize))

variable {vol : Option Volume} {fname : List UInt8}

/-- An ELF process, with the image `elf_load` gave. -/
def elfProcess (record : Tasks.Process) (elf : Option Addr) : Tasks.Process :=
  { record with filetype := Tasks.processFiletypeElf, image := elf }

variable {task : Addr} {p : DirParts}

/-- What `process_load_for_slot` stores before `task_new` is seen in the
process only. -/
theorem setStack_sameOn (m : Bytes) (fname : List UInt8) (stack : Addr)
    (processSlot : Nat) (h : SpansApart process (blockBytes 3) a n) :
    SameOn a n m (setStack m process fname stack processSlot) := by
  have hlen : (((fname.takeWhile fun c => c != 0).take (benosMaxPath - 1))
      ++ [0]).length ≤ 108 := by
    rw [List.length_append, List.length_take]
    simp only [benosMaxPath, List.length_cons, List.length_nil]
    omega
  have hname : SameOn a n m
      (strncpy m (process + offFilename) fname benosMaxPath) := by
    unfold strncpy writeList
    exact writeBytes_sameOn m _ (h.part (Nat.le_trans
      (Nat.add_le_add_left hlen _) (by decide)))
  apply hname.trans
  apply (writeBytes_sameOn _ (byteOf stack)
    (h.part (o := offStack) (l := 4) (by decide))).trans
  exact writeBytes_sameOn _ _ (h.part (o := offId) (l := 2) (by decide))

/-- Giving back a block writes nothing. -/
theorem Shown.kfree (h : Shown tasks procs k s) (ptr : Addr) :
    Shown tasks procs (k.kfree ptr) s :=
  h.congr ⟨rfl, rfl, rfl, rfl, rfl⟩ (fun _ _ => SameOn.refl _ _ _)
    fun _ _ => rfl

/-- What a load leaves at a process that is not shown is not seen. -/
theorem Shown.forget (h : Shown tasks procs k s) (hnot : process ∉ procs)
    (record : Tasks.Process) :
    Shown tasks procs k
      { s with memory := Function.update s.memory process record } := by
  refine ⟨h.tasks, h.processes, h.currProcess, fun p hp => ?_, h.running⟩
  have hne : p ≠ process := fun heq => hnot (heq ▸ hp)
  exact (Function.update_of_ne hne _ _).trans (h.process p hp)

/-- A load in memory has left what a load of `Tasks` has: the result, the
out-parameter and what was there, and a new process with its task where it
answers 0. -/
structure LoadShown (tasks procs : List Addr) (l : Loaded)
    (r : Tasks.LoadResult) : Prop where
  res : r.res = l.res
  out : r.out = fun i => nullable (l.out i)
  shown : Shown tasks procs l.kernel r.sys
  loaded : l.res = 0 → ∃ task,
    Shown (task :: tasks) (l.out 0 :: procs) l.kernel r.sys
      ∧ (r.sys.memory (l.out 0)).task = some task

/-- A load that fails before `task_new`. -/
theorem LoadShown.failed {res : Int} {out : Nat → Addr}
    (h : Shown tasks procs k s) (hres : res ≠ 0) (ptr : Addr) :
    LoadShown tasks procs
      { res := res, out := out, kernel := k.kfree ptr }
      { sys := s, res := res, out := fun i => nullable (out i) } :=
  ⟨rfl, rfl, h.kfree ptr, fun hzero => absurd hzero hres⟩

-- what a load of `Tasks` comes to, answer by answer

/-- The process before `task_new`. -/
def loadedProcess (elf : Option Addr) (processSlot : Nat) (stack : Addr) :
    Tasks.Process :=
  { elfProcess Tasks.processInit elf with
    stack := some stack, id := UInt16.ofNat processSlot }

/-- The process with its name, its stack and its number. -/
theorem ProcessMade.setStack {elf : Option Addr} (fname : List UInt8)
    (processSlot : Nat)
    (h : ProcessMade k process (elfProcess Tasks.processInit elf) k')
    (hstack : (k'.kzalloc benosUserProgramStackSize).1 ≠ 0#32) :
    ProcessMade k process
      (loadedProcess elf processSlot (k'.kzalloc benosUserProgramStackSize).1)
      ((k'.kzalloc benosUserProgramStackSize).2.setMem
        (Kernel.setStack (k'.kzalloc benosUserProgramStackSize).2.ram.mem
          process fname (k'.kzalloc benosUserProgramStackSize).1
          processSlot)) := by
  have hkept := h.kzalloc
    (show benosUserProgramStackSize ≤ 0x80000000 by decide)
  refine hkept.write (fun a n hap => setStack_sameOn _ _ _ _ hap) ?_
  rw [processAt_setStack, hkept.record, nullable_of_ne hstack]
  rfl

/-- The memory of the two processes of `twoFresh`, the task of the first
one at the head of the list and that of the second behind it. -/
def linkedMemory : Bytes :=
  store32 (store32 (store32 twoFresh.mem
      ((objectsAt 0).task + offProcess) (objectsAt 0).process)
    ((objectsAt 0).task + offNext) (objectsAt 1030).task)
    ((objectsAt 1030).task + offPrev) (objectsAt 0).task

/-- A kernel that runs the first one in the foreground. -/
def linkedKernel : KernelState where
  ram := ⟨twoFresh.heap, linkedMemory, true⟩
  files := fun _ => none
  taskHead := (objectsAt 0).task
  taskTail := (objectsAt 1030).task
  currentTask := (objectsAt 0).task
  processes := fun i =>
    if i = 0 then (objectsAt 0).process
    else if i = 1 then (objectsAt 1030).process
    else 0#32
  currProcess := (objectsAt 0).process

/-- What `Tasks` has of it. -/
def linkedSys : Tasks.ProcessSys where
  tasks :=
    { tasks := taskAt linkedMemory
      currentTask := some (objectsAt 0).task
      taskTail := some (objectsAt 1030).task
      taskHead := some (objectsAt 0).task
      currDir := none }
  processes := fun i => nullable (linkedKernel.processes i)
  currProcess := some (objectsAt 0).process
  memory := processAt linkedMemory
  panicked := false

/-- The two tasks, and the two processes. -/
def linkedTasks : List Addr := [(objectsAt 0).task, (objectsAt 1030).task]

def linkedProcs : List Addr := [(objectsAt 0).process, (objectsAt 1030).process]

theorem ram_linkedKernel :
    linkedKernel.ram = ⟨twoFresh.heap, linkedMemory, true⟩ := rfl

theorem nullable_task {b : Nat} (hb : b < 2 ^ 15) :
    nullable (objectsAt b).task = some (objectsAt b).task :=
  nullable_of_ne (blockAddress_ne_null (by omega))

theorem nullable_process {b : Nat} (hb : b < 2 ^ 15) :
    nullable (objectsAt b).process = some (objectsAt b).process :=
  nullable_of_ne (blockAddress_ne_null (by omega))

theorem shown_linked :
    Shown linkedTasks linkedProcs linkedKernel linkedSys := by
  have hfirst := (nullable_task (b := 0) (by decide)).symm
  have hsecond := (nullable_task (b := 1030) (by decide)).symm
  have hprocess := (nullable_process (b := 0) (by decide)).symm
  have hmem : linkedKernel.ram.mem = linkedMemory := by
    rw [ram_linkedKernel]
  refine ⟨⟨hfirst, hsecond, hfirst, fun _ _ => ?_⟩, fun _ => rfl, hprocess,
    fun _ _ => ?_, rfl⟩
  · rw [hmem]
    rfl
  · rw [hmem]
    rfl

-- the heap of the two

end BenOS.Refine
