/-
The memory of the machine while a program is in the kernel: the words the
assembly uses, through the page directory of the task, and the `struct
task` with the registers of the program.

The program and the assembly run under the directory of the task. What
the assembly needs of the memory are its own words and those of the stack
of the program, each a word of its own (`pagedWords_own`); the `struct
task` is none of them (`Running`). Behind `task_current_save_state` the
registers of the program are in its task, and nothing but them and the
words of the assembly was written (`saved_of`).
-/
import BenOS.Isr80h.Proofs.SaveState
import BenOS.Kernel.Proofs.Paged

namespace BenOS.Isr80h

open Lib X86 Memory Kernel Tasks

variable {s₀ : SysState} {p : DirParts} {view : PageDir}
  {A : Bool → Addr → Prop}

-- ================================================================ the memory

/-- The words of the kernel's memory, through the directory that is
loaded. -/
def sysWords : WordMem SysState :=
  WordMem.over (fun s => pagedWords s.directory) SysState.mem SysState.setMem

/-- The task of a program that is about to enter the kernel: its directory
is loaded, the words in use are mapped, those of the frame to themselves,
and the `struct task` lies apart from all of that. -/
structure Running (s₀ : SysState) (p : DirParts) (view : PageDir)
    (A : Bool → Addr → Prop) : Prop where
  task : s₀.kernel.currentTask ≠ 0#32
  loaded : s₀.directory = p.dir
  directory : taskPageDirectory s₀.mem s₀.kernel.currentTask = p.chunk
  guarded : Guarded p view s₀.mem
  mapped : WordsMapped p view A
  identity : ∀ k < entryWords,
    physOf view (below tssEsp0 (k + 1)) = below tssEsp0 (k + 1)
  taskWords : ∀ x, InSpan s₀.kernel.currentTask sizeofTask x →
    ¬ WordBytes view A x
  taskFrame : SpansApart s₀.kernel.currentTask sizeofTask frameAddress
    sizeofInterruptFrame
  taskDir : ∀ x, DirBytes p x → ¬ InSpan s₀.kernel.currentTask sizeofTask x

/-- What the assembly keeps: the directory, and all but its words. -/
structure OnTheWay (s₀ : SysState) (p : DirParts) (view : PageDir)
    (A : Bool → Addr → Prop) (s : SysState) : Prop where
  guarded : Guarded p view s.mem
  outside : SameBut (WordBytes view A) s₀.mem s.mem
  rest : s = s₀.setMem s.mem

theorem OnTheWay.refl (hguard : Guarded p view s₀.mem) :
    OnTheWay s₀ p view A s₀ := ⟨hguard, SameBut.refl _ _, rfl⟩

theorem sysWords_own (hmap : WordsMapped p view A)
    (hloaded : s₀.directory = p.dir) :
    Own sysWords (OnTheWay s₀ p view A) A := by
  have hown := @Own.over Bytes SysState (pagedWords p.dir) (Guarded p view) A
    (pagedWords_own hmap) SysState.mem SysState.setMem (fun _ _ => rfl)
    (fun s => pagedWords s.directory)
    (fun s => SameBut (WordBytes view A) s₀.mem s.mem ∧ s = s₀.setMem s.mem)
    (by
      intro s hs
      rw [hs.2, ← hloaded]
      rfl)
    (by
      rintro s u a v m hguard ⟨hsame, hs⟩ hA hwrite
      rw [hguard.write hmap hA v] at hwrite
      rw [← Option.some.inj hwrite]
      refine ⟨hsame.trans (writeBytes_sameBut s.mem _ fun x hx =>
        ⟨u, a, hA, hx⟩), ?_⟩
      show s.setMem _ = s₀.setMem _
      rw [hs]
      rfl)
  constructor
  intro u a s hs hA v
  obtain ⟨s', hwrite, ⟨hguard, houtside, hrest⟩, hread⟩ :=
    hown.write ⟨hs.guarded, hs.outside, hs.rest⟩ hA v
  exact ⟨s', hwrite, ⟨hguard, houtside, hrest⟩, hread⟩

/-- A word, as the kernel and the program read it. -/
theorem sysWords_read (hmap : WordsMapped p view A) {s : SysState}
    (hloaded : s.directory = p.dir) (hguard : Guarded p view s.mem) {u : Bool}
    {a : Addr} (hA : A u a) :
    sysWords.read u s a = some (load32 s.mem (physOf view a)) := by
  show (pagedWords s.directory).read u s.mem a = _
  rw [hloaded]
  exact hguard.read hmap hA id

theorem OnTheWay.read (hmap : WordsMapped p view A)
    (hloaded : s₀.directory = p.dir) {s : SysState}
    (hs : OnTheWay s₀ p view A s) {u : Bool} {a : Addr} (hA : A u a) :
    sysWords.read u s a = some (load32 s.mem (physOf view a)) := by
  refine sysWords_read hmap ?_ hs.guarded hA
  rw [hs.rest]
  exact hloaded

-- ================================================================= the frame

/-- The frame on the kernel stack is the one the program left. -/
theorem frameAt_of (h : Running s₀ p view A)
    (hcells : ∀ k < entryWords, A false (below tssEsp0 (k + 1))) {s : SysState}
    (hs : OnTheWay s₀ p view A s) {c : Cpu} {hc : c.user = true}
    (hframe : FrameOf sysWords s c hc) (t : Tasks.Task) :
    (Tasks.taskSaveState t (frameAt s.mem frameAddress)).registers
      = savedRegisters (userCpu c hc) := by
  have hlen : (entryStack (userCpu c hc)).length = 13 := rfl
  have hfield : ∀ j v, j < 13 → (entryStack (userCpu c hc))[j]? = some v →
      load32 s.mem (frameAddress + BitVec.ofNat 32 (4 * j)) = v := by
    intro j v hj hv
    obtain ⟨k, hk⟩ : ∃ k, 13 - j = k + 1 := ⟨12 - j, by omega⟩
    have hlt : k < entryWords := by
      simp only [entryWords]
      omega
    have hread := hframe.getElem? hv
    rw [hlen, hk, hs.read h.mapped h.loaded (hcells k hlt),
      h.identity k hlt] at hread
    have haddr := below_add tssEsp0 (13 - j) j
    rw [Nat.sub_add_cancel (Nat.le_of_lt hj), hk] at haddr
    unfold frameAddress
    rw [haddr]
    exact Option.some.inj hread
  unfold frameAt Tasks.taskSaveState savedRegisters
  simp only
  rw [hfield 0 (c.reg .edi) (by decide) rfl,
    hfield 1 (c.reg .esi) (by decide) rfl,
    hfield 2 (c.reg .ebp) (by decide) rfl,
    hfield 4 (c.reg .ebx) (by decide) rfl,
    hfield 5 (c.reg .edx) (by decide) rfl,
    hfield 6 (c.reg .ecx) (by decide) rfl,
    hfield 7 (c.reg .eax) (by decide) rfl,
    hfield 8 c.eip (by decide) rfl,
    hfield 9 ((c.seg .cs).setWidth 32) (by decide) rfl,
    hfield 10 c.flags (by decide) rfl,
    hfield 11 (c.reg .esp) (by decide) rfl,
    hfield 12 ((c.seg .ss).setWidth 32) (by decide) rfl]
  rfl

-- ================================================================= the pages

/-- The same kernel under the directory at `dir`. -/
def SysState.under (s : SysState) (dir : Addr) : SysState :=
  { s with directory := dir }

theorem taskSwitch_current (s : SysState) :
    taskSwitch s.kernel.currentTask s
      = s.under (taskDirectoryEntry s.mem s.kernel.currentTask) := rfl

theorem taskPage_eq {s : SysState} (h : s.kernel.currentTask ≠ 0#32) :
    taskPage s
      = some (s.under (taskDirectoryEntry s.mem s.kernel.currentTask)) := by
  unfold taskPage
  rw [if_neg h, taskSwitch_current]

-- ======================================================= the state is saved

/-- The bytes the kernel writes before it looks at the command: its words,
and the registers of the task. -/
def Touched (s₀ : SysState) (view : PageDir) (A : Bool → Addr → Prop)
    (x : Addr) : Prop :=
  WordBytes view A x
    ∨ InSpan (s₀.kernel.currentTask + offRegisters) sizeofRegisters x

/-- The memory behind `task_current_save_state`: the registers of the
program are in its task, and the rest is what it was. -/
structure Saved (s₀ : SysState) (p : DirParts) (view : PageDir)
    (A : Bool → Addr → Prop) (c : Cpu) (hc : c.user = true) (m : Bytes) :
    Prop where
  guarded : Guarded p view m
  registers : registersAt m s₀.kernel.currentTask
    = savedRegisters (userCpu c hc)
  outside : SameBut (Touched s₀ view A) s₀.mem m

/-- The registers are a part of the task. -/
theorem inTask_of_inRegisters {task x : Addr}
    (h : InSpan (task + offRegisters) sizeofRegisters x) :
    InSpan task sizeofTask x := h.of_part (by decide)

/-- What is apart from the task is not written. -/
theorem taskSaveState_sameBut {task : Addr}
    (hframe : SpansApart task sizeofTask frameAddress sizeofInterruptFrame)
    (m : Bytes) :
    SameBut (InSpan (task + offRegisters) sizeofRegisters) m
      (taskSaveState task frameAddress m) := by
  have hregs : SpansApart (task + offRegisters) sizeofRegisters frameAddress
      sizeofInterruptFrame := hframe.part (by decide)
  obtain ⟨-, -, hout⟩ := saveFields_spec hregs savedFields m savedFields_ok
  exact hout

/-- The state is saved. -/
theorem saved_of (h : Running s₀ p view A)
    (hcells : ∀ k < entryWords, A false (below tssEsp0 (k + 1))) {s : SysState}
    (hs : OnTheWay s₀ p view A s) {c : Cpu} {hc : c.user = true}
    (hframe : FrameOf sysWords s c hc) :
    Saved s₀ p view A c hc
        (taskSaveState s₀.kernel.currentTask frameAddress s.mem)
      ∧ ∀ u a, A u a → SameOn (physOf view a) 4 s.mem
        (taskSaveState s₀.kernel.currentTask frameAddress s.mem) := by
  have hregs : SpansApart (s₀.kernel.currentTask + offRegisters)
      sizeofRegisters frameAddress sizeofInterruptFrame :=
    h.taskFrame.part (by decide)
  have hsame := taskSaveState_sameBut h.taskFrame s.mem
  obtain ⟨hsaved, -⟩ := taskSaveState_refines hregs s.mem
    ⟨none, Registers.zero, 0#32, none, none⟩
  refine ⟨⟨?_, ?_, ?_⟩, fun u a hA => ?_⟩
  · exact hs.guarded.same hsame fun x hx hin =>
      h.taskDir x hx (inTask_of_inRegisters hin)
  · rw [hsaved]
    exact frameAt_of h hcells hs hframe _
  · exact (hs.outside.mono fun _ => Or.inl).trans
      (hsame.mono fun _ => Or.inr)
  · exact hsame.sameOn fun x hx hin =>
      h.taskWords x (inTask_of_inRegisters hin) ⟨u, a, hA, hx⟩

/-- A field of the task that is none of its registers is what it was. -/
theorem Saved.field (h : Running s₀ p view A) {c : Cpu} {hc : c.user = true}
    {m : Bytes} (hs : Saved s₀ p view A c hc m) {o : Addr}
    (ho : o.toNat + 4 ≤ sizeofTask)
    (hapart : SpansApart (s₀.kernel.currentTask + offRegisters) sizeofRegisters
      (s₀.kernel.currentTask + o) 4) :
    load32 m (s₀.kernel.currentTask + o)
      = load32 s₀.mem (s₀.kernel.currentTask + o) := by
  refine load32_congr (hs.outside.sameOn fun x hx => ?_)
  rintro (hword | hin)
  · exact h.taskWords x (hx.of_part ho) hword
  · exact hapart x hin hx

theorem Saved.directory (h : Running s₀ p view A) {c : Cpu}
    {hc : c.user = true} {m : Bytes} (hs : Saved s₀ p view A c hc m) :
    taskPageDirectory m s₀.kernel.currentTask = p.chunk := by
  rw [← h.directory]
  exact hs.field h (by decide) (spansApart_fields _ (by decide) (by decide))

theorem Saved.process (h : Running s₀ p view A) {c : Cpu} {hc : c.user = true}
    {m : Bytes} (hs : Saved s₀ p view A c hc m) :
    load32 m (s₀.kernel.currentTask + offProcess)
      = load32 s₀.mem (s₀.kernel.currentTask + offProcess) :=
  hs.field h (by decide) (spansApart_fields _ (by decide) (by decide))

/-- A word of the program's stack, as `task_get_stack_item` reads it. -/
theorem Saved.stackItem (h : Running s₀ p view A) {c : Cpu} {hc : c.user = true}
    {s : SysState} (hcur : s.kernel.currentTask = s₀.kernel.currentTask)
    (hs : Saved s₀ p view A c hc s.mem) {i : Nat}
    (hA : A true (c.reg .esp + BitVec.ofNat 32 (4 * i))) :
    stackItem s i = some (load32 s.mem (physOf view
      (c.reg .esp + BitVec.ofNat 32 (4 * i)))) := by
  have hesp : load32 s.mem (s₀.kernel.currentTask + offRegistersEsp)
      = c.reg .esp := by
    have hreg := congrArg Registers.esp hs.registers
    have haddr : s₀.kernel.currentTask + offRegisters + BitVec.ofNat 32 (4 * 10)
        = s₀.kernel.currentTask + offRegistersEsp := add_assoc _ _ _
    unfold registersAt at hreg
    simp only at hreg
    rw [haddr] at hreg
    exact hreg
  have hread : (pagedWords p.dir).read false s.mem
      (c.reg .esp + BitVec.ofNat 32 (4 * i)) = some (load32 s.mem (physOf view
        (c.reg .esp + BitVec.ofNat 32 (4 * i)))) :=
    hs.guarded.read h.mapped hA fun hno => absurd hno Bool.false_ne_true
  have hdir : taskDirectoryEntry s.mem s₀.kernel.currentTask = p.dir :=
    hs.guarded.loads (hs.directory h)
  unfold Isr80h.stackItem taskGetStackItem
  simp only
  rw [hcur, hesp, hdir, ← pageAccess_kernel p.dir false]
  exact hread

-- =================================================== the kernel's own pages

/-- A handler at work: the kernel under its own directory, with the state
of the program saved. -/
structure Handed (s₀ : SysState) (p : DirParts) (view : PageDir)
    (A : Bool → Addr → Prop) (c : Cpu) (hc : c.user = true) (s : SysState) :
    Prop where
  rest : s = (s₀.setMem s.mem).under s.directory
  saved : Saved s₀ p view A c hc s.mem

theorem Handed.current {c : Cpu} {hc : c.user = true} {s : SysState}
    (h : Handed s₀ p view A c hc s) :
    s.kernel.currentTask = s₀.kernel.currentTask := by
  rw [h.rest]
  rfl

/-- The keyboard is that of the program. -/
theorem Handed.keyboardSys (hrun : Running s₀ p view A) {c : Cpu}
    {hc : c.user = true} {s : SysState} (h : Handed s₀ p view A c hc s) :
    Isr80h.keyboardSys s = Isr80h.keyboardSys s₀ := by
  have hprocess : currentProcess s = currentProcess s₀ := by
    have hfield := h.saved.process hrun
    rw [← h.current] at hfield
    exact hfield.trans (congrArg (fun t => load32 s₀.mem (t + offProcess))
      h.current)
  unfold Isr80h.keyboardSys
  rw [hprocess, h.rest]
  rfl

/-- `task_current_save_state` under the directory of the kernel. -/
theorem handed_of (h : Running s₀ p view A)
    (hcells : ∀ k < entryWords, A false (below tssEsp0 (k + 1))) {s : SysState}
    (hs : OnTheWay s₀ p view A s) {c : Cpu} {hc : c.user = true}
    (hframe : FrameOf sysWords s c hc) (env : Locals) :
    ∃ s₁, taskCurrentSaveState frameAddress (kernelPage env s) = some s₁
      ∧ Handed s₀ p view A c hc s₁
      ∧ ∀ u a, A u a → SameOn (physOf view a) 4 s.mem s₁.mem := by
  obtain ⟨hsaved, hwords⟩ := saved_of h hcells hs hframe
  obtain ⟨m₁, hm₁⟩ : ∃ m₁, m₁
    = taskSaveState s₀.kernel.currentTask frameAddress s.mem := ⟨_, rfl⟩
  rw [← hm₁] at hsaved hwords
  have hcur : (kernelPage env s).kernel.currentTask
      = s₀.kernel.currentTask := by
    rw [hs.rest]
    rfl
  refine ⟨(kernelPage env s).setMem m₁, ?_, ⟨?_, hsaved⟩, hwords⟩
  · unfold taskCurrentSaveState
    rw [hcur, if_neg h.task, hm₁]
    rfl
  · rw [hs.rest]
    rfl

/-- `task_page` loads the directory of the task again. -/
theorem taskPage_under (h : Running s₀ p view A) {s : SysState}
    (hcur : s.kernel.currentTask = s₀.kernel.currentTask)
    (hguard : Guarded p view s.mem)
    (hchunk : taskPageDirectory s.mem s₀.kernel.currentTask = p.chunk) :
    taskPage s = some (s.under p.dir) := by
  have hne : s.kernel.currentTask ≠ 0#32 := by
    rw [hcur]
    exact h.task
  have hdir : taskDirectoryEntry s.mem s.kernel.currentTask = p.dir := by
    rw [hcur]
    exact hguard.loads hchunk
  rw [taskPage_eq hne, hdir]

end BenOS.Isr80h
