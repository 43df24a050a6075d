/-
A task made: `task_new` in the memory of the kernel.

`task_init` writes into the new task and into its page directory, which
stand on blocks outside of what was taken before (`TaskBegun`); then the
task goes behind the last of the list, and the two point to each other.
So what was taken before is spared, but for the tail of the list.
-/
import BenOS.Kernel.Proofs.NewTables

namespace BenOS.Kernel

open Lib Memory Loader

variable {k k' : KernelState} {task process : Addr}

-- ================================================================ task_init

/-- What `task_init` stores once the page directory is made. -/
def setTask (m : Bytes) (task process chunk ip : Addr) : Bytes :=
  let m := store32 m (task + offPageDirectory) chunk
  let m := store32 m (task + offRegistersIp) benosProgramVirtualAddress
  let m := store32 m (task + offRegistersIp) ip
  let m := store32 m (task + offRegistersSs) userDataSegment
  let m := store32 m (task + offRegistersCs) userCodeSegment
  let m := store32 m (task + offRegistersEsp)
    benosProgramVirtualStackAddressStart
  store32 m (task + offProcess) process

/-- A store to one word of a task leaves its other words. -/
theorem load32_taskStore (m : Bytes) (task v : Addr) {k j : Nat}
    (hk : k + 4 ≤ sizeofTask) (hj : j + 4 ≤ sizeofTask)
    (hfar : k + 4 ≤ j ∨ j + 4 ≤ k) :
    load32 (store32 m (task + BitVec.ofNat 32 k) v) (task + BitVec.ofNat 32 j)
      = load32 m (task + BitVec.ofNat 32 j) := by
  simp only [sizeofTask] at hk hj
  apply load32_store32_apart
  refine spansApart_fields task ?_ ?_ <;>
    simp only [BitVec.toNat_sub, BitVec.toNat_ofNat] <;> omega

/-- A word of a task behind a store to one. -/
theorem load32_taskStore_ite (m : Bytes) (task v : Addr) {k j : Nat}
    (hk : k + 4 ≤ sizeofTask) (hj : j + 4 ≤ sizeofTask) (hkw : k % 4 = 0)
    (hjw : j % 4 = 0) :
    load32 (store32 m (task + BitVec.ofNat 32 k) v) (task + BitVec.ofNat 32 j)
      = if j = k then v else load32 m (task + BitVec.ofNat 32 j) := by
  by_cases heq : j = k
  · rw [if_pos heq, heq, load32_store32]
  · rw [if_neg heq]
    exact load32_taskStore m task v hk hj (by omega)

/-- The words of a task that is set up. -/
theorem load32_setTask (m : Bytes) (task process chunk ip : Addr) {j : Nat}
    (hj : j + 4 ≤ sizeofTask) (hjw : j % 4 = 0) :
    load32 (setTask m task process chunk ip) (task + BitVec.ofNat 32 j)
      = if j = 52 then process
        else if j = 44 then benosProgramVirtualStackAddressStart
        else if j = 36 then userCodeSegment
        else if j = 48 then userDataSegment
        else if j = 32 then ip
        else if j = 0 then chunk
        else load32 m (task + BitVec.ofNat 32 j) := by
  have hstore := fun (m : Bytes) (v : Addr) (k : Nat)
      (hk : k + 4 ≤ sizeofTask) (hkw : k % 4 = 0) =>
    load32_taskStore_ite m task v hk hj hkw hjw
  unfold setTask
  simp only
  rw [hstore _ _ 52 (by decide) (by decide),
    hstore _ _ 44 (by decide) (by decide),
    hstore _ _ 36 (by decide) (by decide),
    hstore _ _ 48 (by decide) (by decide),
    hstore _ _ 32 (by decide) (by decide),
    hstore _ _ 32 (by decide) (by decide),
    hstore _ _ 0 (by decide) (by decide)]
  split <;> try rfl
  split <;> try rfl
  split <;> try rfl
  split <;> try rfl
  split <;> rfl

/-- A block of the heap that is taken. -/
def TakenAt (a : Addr) (n : Nat) (r : Ram) : Prop :=
  ∃ b, a = blockAddress b ∧ Taken b n r

theorem TakenAt.ne_null {a : Addr} {n : Nat} {r : Ram} (h : TakenAt a n r) :
    a ≠ 0#32 := by
  obtain ⟨b, rfl, htaken⟩ := h
  have hlt := htaken.lt
  have htotal := htaken.total
  simp only [kernelHeapBlocks] at htotal
  exact blockAddress_ne_null (by omega)

/-- What lies outside shares no byte with a block that is taken. -/
theorem TakenAt.apart {a c : Addr} {n l : Nat} {r : Ram} (h : TakenAt a n r)
    (hn : n ≤ kernelHeapBlocks) (hout : Outside r c l) :
    SpansApart c l a (blockBytes n) := by
  obtain ⟨b, rfl, htaken⟩ := h
  exact hout b n hn htaken

/-- A taken block is spared. -/
theorem TakenAt.spared {a : Addr} {n : Nat} {r r' : Ram} (h : TakenAt a n r)
    (hn : n ≤ kernelHeapBlocks) (hspares : Spares r r') :
    TakenAt a n r' ∧ SameOn a (blockBytes n) r.mem r'.mem := by
  obtain ⟨b, rfl, htaken⟩ := h
  obtain ⟨htaken', hsame⟩ := hspares.taken b n hn htaken
  exact ⟨⟨b, rfl, htaken'⟩, hsame⟩

/-- A task set up: its blocks lie outside of what was taken before, apart
from each other, and the memory leads from one to the next. -/
structure TaskBegun (k : KernelState) (task process : Addr) (p : DirParts)
    (ip : BitVec 32) (k' : KernelState) : Prop where
  globals : k' = { k with ram := k'.ram }
  spares : Spares k.ram k'.ram
  taken : TakenAt task 1 k'.ram
  outside : Outside k.ram task pagingPageSize
  chunkNull : p.chunk ≠ 0#32
  fields : SameOn task sizeofTask
    (setTask (fun _ => 0) task process p.chunk ip) k'.ram.mem
  ok : DirOk p k'.ram.mem
  apart : DirApart p
  taskTable : ∀ i < pagingTotalEntriesPerTable,
    SpansApart (p.table i) pagingPageSize task pagingPageSize
  taskChunk : SpansApart p.chunk pagingPageSize task pagingPageSize
  taskDir : SpansApart p.dir pagingPageSize task pagingPageSize
  chunkOutside : Outside k.ram p.chunk pagingPageSize
  dirOutside : Outside k.ram p.dir pagingPageSize
  tableOutside : ∀ i < pagingTotalEntriesPerTable,
    Outside k.ram (p.table i) pagingPageSize

/-- Appending a task is seen in its `prev`, in the `next` of the tail and
in the globals of the list. -/
theorem taskAppend_some (h : taskAppend task k = some k') :
    (k.taskHead = 0#32
        ∧ k' = { k with
            taskHead := task, taskTail := task, currentTask := task })
      ∨ k.taskHead ≠ 0#32 ∧ k.taskTail ≠ 0#32
        ∧ k' = { k.setMem (store32
              (store32 k.ram.mem (k.taskTail + offNext) task)
              (task + offPrev) k.taskTail) with
            taskTail := task } := by
  unfold taskAppend at h
  split at h
  case isTrue hhead => exact Or.inl ⟨hhead, (Option.some.inj h).symm⟩
  case isFalse hhead =>
    split at h
    case isTrue => cases h
    case isFalse htail =>
      exact Or.inr ⟨hhead, htail, (Option.some.inj h).symm⟩

/-- It leaves what is apart from the two words it stores. -/
theorem taskAppend_sameOn {a : Addr} {n : Nat}
    (h : taskAppend task k = some k')
    (htail : k.taskHead ≠ 0#32 → SpansApart (k.taskTail + offNext) 4 a n)
    (htask : SpansApart (task + offPrev) 4 a n) :
    SameOn a n k.ram.mem k'.ram.mem := by
  rcases taskAppend_some h with ⟨-, hk⟩ | ⟨hhead, -, hk⟩
  · rw [hk]
    exact SameOn.refl _ _ _
  · rw [hk]
    exact (writeBytes_sameOn _ _ (htail hhead)).trans
      (writeBytes_sameOn _ _ htask)

/-- A task that is begun and put behind the last: its directory is in
place, and what was taken before has its bytes, but for the tail. -/
structure TaskLinked (k : KernelState) (task : Addr) (p : DirParts)
    (k' : KernelState) : Prop where
  chunk : load32 k'.ram.mem (task + offPageDirectory) = p.chunk
  ok : DirOk p k'.ram.mem
  processes : k'.processes = k.processes
  currProcess : k'.currProcess = k.currProcess
  kept : ∀ a n, n ≤ kernelHeapBlocks → TakenAt a n k.ram →
    (k.taskHead ≠ 0#32 →
      SpansApart (k.taskTail + offNext) 4 a (blockBytes n)) →
    SameOn a (blockBytes n) k.ram.mem k'.ram.mem

theorem TaskBegun.append {p : DirParts} {ip : BitVec 32} {k₁ : KernelState}
    (h : TaskBegun k task process p ip k₁)
    (htail : k.taskHead ≠ 0#32 → TakenAt k.taskTail 1 k.ram)
    (happend : taskAppend task k₁ = some k') : TaskLinked k task p k' := by
  have hhead : k₁.taskHead = k.taskHead := by rw [h.globals]
  have hlast : k₁.taskTail = k.taskTail := by rw [h.globals]
  have hprev : ∀ {a : Addr} {n : Nat}, SpansApart task pagingPageSize a n →
      SpansApart (task + offPrev) 4 a n := fun hap => hap.part (by decide)
  have hsame : ∀ {a : Addr} {n : Nat}, (k.taskHead ≠ 0#32 →
        SpansApart (k.taskTail + offNext) 4 a n) →
      SpansApart (task + offPrev) 4 a n →
      SameOn a n k₁.ram.mem k'.ram.mem := by
    intro a n hnext hprev
    refine taskAppend_sameOn happend (fun hne => ?_) hprev
    rw [hlast]
    exact hnext (hhead ▸ hne)
  -- the tail was taken before, and so lies apart from what is new
  have hnext : ∀ {c : Addr}, Outside k.ram c pagingPageSize →
      k.taskHead ≠ 0#32 →
      SpansApart (k.taskTail + offNext) 4 c pagingPageSize := fun hout hne =>
    ((htail hne).apart (by decide) hout).symm.part (by decide)
  have hglobals : k'.processes = k₁.processes
      ∧ k'.currProcess = k₁.currProcess := by
    rcases taskAppend_some happend with ⟨-, hk⟩ | ⟨-, -, hk⟩
    · rw [hk]
      exact ⟨rfl, rfl⟩
    · rw [hk]
      exact ⟨rfl, rfl⟩
  refine ⟨?_, ?_, ?_, ?_, fun a n hn htaken hnext => ?_⟩
  · have hword : SameOn (task + offPageDirectory) 4 k₁.ram.mem k'.ram.mem := by
      refine hsame (fun hne => ?_)
        (spansApart_fields task (by decide) (by decide))
      exact ((hnext h.outside hne).symm.part (by decide)).symm
    rw [load32_congr hword, load32_congr (h.fields.part (by decide))]
    exact load32_setTask _ _ _ _ _ (j := 0) (by decide) (by decide)
  · refine h.ok.sameOn ?_ (hsame (hnext h.dirOutside) (hprev h.taskDir.symm))
    have hchunk := hsame (hnext h.chunkOutside) (hprev h.taskChunk.symm)
    exact fun x hx => hchunk x (Nat.lt_trans hx (by decide))
  · rw [hglobals.1, h.globals]
  · rw [hglobals.2, h.globals]
  · obtain ⟨-, hspared⟩ := htaken.spared hn h.spares
    exact hspared.trans (hsame hnext (hprev (htaken.apart hn h.outside)))

-- ================================================================ task_new

end BenOS.Kernel
