/-
What `elf_load` leaves alone, whether it stores an image or not.

It writes into the `struct elf_file` it asks for, and into the buffer it
asks for, and frees what opening the file was given. So what is held
stays held, and as long as every request finds its run it keeps its bytes
(`elfLoad_sameOn`): a request that is handed too short a run clears what
lies behind the run.
-/
import BenOS.Kernel.Proofs.NewTask
import BenOS.Kernel.Proofs.Selection

namespace BenOS.Kernel

open Lib Memory Fat Fs Loader

variable {vol : Option Volume} {k k' : KernelState} {fname : List UInt8}

-- ================================================================= the calls

/-- What is held, with the bytes of `m₀` as long as every request found its
run. -/
def HeldBytes (b n : Nat) (m₀ : Bytes) (r : Ram) : Prop :=
  Held b n r
    ∧ (r.served = true → SameOn (blockAddress b) (blockBytes n) m₀ r.mem)

theorem HeldBytes.kzalloc {b n : Nat} {m₀ : Bytes} {r : Ram}
    (hn : n ≤ kernelHeapBlocks) (h : HeldBytes b n m₀ r) (size : Nat) :
    HeldBytes b n m₀ (Memory.kzalloc size r).2 := by
  refine ⟨(held_kzalloc h.1 size).1, fun hserved => ?_⟩
  obtain ⟨hserved, hserves⟩ := (kzalloc_served_iff size r).mp hserved
  exact (h.2 hserved).trans
    (h.1.isTaken.sameOn hn (hserves.size_le h.1.total))

/-- A kernel that differs in its memory and its open files only. -/
structure SameGlobals (k k' : KernelState) : Prop where
  taskHead : k'.taskHead = k.taskHead
  taskTail : k'.taskTail = k.taskTail
  currentTask : k'.currentTask = k.currentTask
  processes : k'.processes = k.processes
  currProcess : k'.currProcess = k.currProcess

theorem SameGlobals.refl (k : KernelState) : SameGlobals k k :=
  ⟨rfl, rfl, rfl, rfl, rfl⟩

theorem SameGlobals.trans {k'' : KernelState} (h : SameGlobals k k')
    (h' : SameGlobals k' k'') : SameGlobals k k'' :=
  ⟨h'.taskHead.trans h.taskHead, h'.taskTail.trans h.taskTail,
    h'.currentTask.trans h.currentTask, h'.processes.trans h.processes,
    h'.currProcess.trans h.currProcess⟩

/-- What `elf_load` does behind `fopen`: nothing, or it asks for a buffer
and writes into it and into the file. -/
inductive FileLoaded (file : Addr) (k k' : KernelState) : Prop
  | nothing : k' = k → FileLoaded file k k'
  | buffer (size : Nat) (m : Bytes) : file ≠ 0#32 →
      k' = (k.kzalloc size).2.setMem m →
      (∀ a n, SpansApart file sizeofElfFile a n →
        (size ≤ 0x80000000 → (kzalloc size k.ram).1 ≠ 0#32 →
          SpansApart (kzalloc size k.ram).1 size a n) →
        SameOn a n (kzalloc size k.ram).2.mem m) →
      FileLoaded file k k'

theorem FileLoaded.files {file : Addr} (h : FileLoaded file k k') :
    k'.files = k.files ∧ SameGlobals k k' := by
  cases h with
  | nothing heq =>
      rw [heq]
      exact ⟨rfl, SameGlobals.refl k⟩
  | buffer size m _ heq _ =>
      rw [heq]
      exact ⟨rfl, rfl, rfl, rfl, rfl, rfl⟩

-- ================================================================ elf_load

end BenOS.Kernel
