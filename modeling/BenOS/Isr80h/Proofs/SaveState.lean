/-
What `task_current_save_state` leaves in the memory: the registers of the
program that was interrupted, in the `struct registers` of its task, and
all else as it was (`taskSaveState_refines`).
-/
import BenOS.Isr80h.Isr80h
import BenOS.Tasks.Proofs.ReturnPath

namespace BenOS.Isr80h

open Lib X86 Memory Kernel Tasks

variable {m : Bytes} {task frame : Addr}

-- ============================================================ the structures

/-- The `struct registers` of a task. -/
def registersAt (m : Bytes) (task : Addr) : Registers :=
  let word := fun k => load32 m (task + offRegisters + BitVec.ofNat 32 (4 * k))
  { edi := word 0
    esi := word 1
    ebp := word 2
    ebx := word 3
    edx := word 4
    ecx := word 5
    eax := word 6
    ip := word 7
    cs := word 8
    flags := word 9
    esp := word 10
    ss := word 11 }

/-- The `struct interrupt_frame` at an address. -/
def frameAt (m : Bytes) (frame : Addr) : InterruptFrame :=
  let word := fun k => load32 m (frame + BitVec.ofNat 32 (4 * k))
  { edi := word 0
    esi := word 1
    ebp := word 2
    reserved := word 3
    ebx := word 4
    edx := word 5
    ecx := word 6
    eax := word 7
    ip := word 8
    cs := word 9
    flags := word 10
    esp := word 11
    ss := word 12 }

/-- The bytes of a `struct registers`. -/
abbrev sizeofRegisters : Nat := 48

/-- The bytes of a `struct interrupt_frame`. -/
abbrev sizeofInterruptFrame : Nat := 52

-- ================================================================ the copy

/-- A field of the registers is a part of them. -/
theorem registers_part {k : Nat} (hk : k + 4 ≤ sizeofRegisters) :
    (BitVec.ofNat 32 k).toNat + 4 ≤ sizeofRegisters := by
  rw [BitVec.toNat_ofNat]
  have := Nat.mod_le k (2 ^ 32)
  omega

theorem frame_part {k : Nat} (hk : k + 4 ≤ sizeofInterruptFrame) :
    (BitVec.ofNat 32 k).toNat + 4 ≤ sizeofInterruptFrame := by
  rw [BitVec.toNat_ofNat]
  have := Nat.mod_le k (2 ^ 32)
  omega

/-- Fields at different places are apart. -/
theorem fields_apart (regs : Addr) {k j : Nat} (hk : k + 4 ≤ sizeofRegisters)
    (hj : j + 4 ≤ sizeofRegisters) (hfar : k + 4 ≤ j ∨ j + 4 ≤ k) :
    SpansApart (regs + BitVec.ofNat 32 k) 4 (regs + BitVec.ofNat 32 j) 4 := by
  simp only [sizeofRegisters] at hk hj
  apply spansApart_fields
  · rw [BitVec.toNat_sub, BitVec.toNat_ofNat, BitVec.toNat_ofNat]
    omega
  · rw [BitVec.toNat_sub, BitVec.toNat_ofNat, BitVec.toNat_ofNat]
    omega

/-- What the fields of a list ask for: they lie in the structures, on
words, and no two go to one place. -/
structure FieldsOk (fs : List (Nat × Nat)) : Prop where
  places : ∀ f ∈ fs, 4 ∣ f.1 ∧ f.1 + 4 ≤ sizeofRegisters
    ∧ f.2 + 4 ≤ sizeofInterruptFrame
  nodup : (fs.map Prod.fst).Nodup

theorem savedFields_ok : FieldsOk savedFields where
  places := by decide
  nodup := by decide

/-- A list of fields is copied: each is found in the registers as it was in
the frame, and nothing else of the memory is written. -/
theorem saveFields_spec (hapart : SpansApart (task + offRegisters)
      sizeofRegisters frame sizeofInterruptFrame) (fs : List (Nat × Nat)) :
    ∀ m : Bytes, FieldsOk fs →
      (∀ f ∈ fs, load32 (fs.foldl (saveField task frame) m)
          (task + offRegisters + BitVec.ofNat 32 f.1)
        = load32 m (frame + BitVec.ofNat 32 f.2))
      ∧ (∀ k, k + 4 ≤ sizeofRegisters → 4 ∣ k → k ∉ fs.map Prod.fst →
        load32 (fs.foldl (saveField task frame) m)
            (task + offRegisters + BitVec.ofNat 32 k)
          = load32 m (task + offRegisters + BitVec.ofNat 32 k))
      ∧ ∀ x, ¬ InSpan (task + offRegisters) sizeofRegisters x →
        fs.foldl (saveField task frame) m x = m x := by
  induction fs with
  | nil =>
      exact fun m _ => ⟨fun _ h => absurd h List.not_mem_nil,
        fun _ _ _ _ => rfl, fun _ _ => rfl⟩
  | cons f fs ih =>
      intro m hok
      obtain ⟨hword, hreg, hframe⟩ := hok.places f List.mem_cons_self
      have hnodup := hok.nodup
      rw [List.map_cons, List.nodup_cons] at hnodup
      have hok' : FieldsOk fs :=
        ⟨fun g hg => hok.places g (List.mem_cons_of_mem f hg), hnodup.2⟩
      obtain ⟨hfound, hrest, hout⟩ := ih (saveField task frame m f) hok'
      have hstored : ∀ k, k + 4 ≤ sizeofRegisters → 4 ∣ k → k ≠ f.1 →
          load32 (saveField task frame m f)
              (task + offRegisters + BitVec.ofNat 32 k)
            = load32 m (task + offRegisters + BitVec.ofNat 32 k) := by
        intro k hk hdvd hne
        exact load32_store32_apart m _ (fields_apart _ hreg hk (by omega))
      refine ⟨fun g hg => ?_, fun k hk hdvd hnot => ?_, fun x hx => ?_⟩
      · rw [List.foldl_cons]
        rcases List.mem_cons.mp hg with rfl | hg
        · rw [hrest g.1 hreg hword hnodup.1]
          exact load32_store32 m _ _
        · rw [hfound g hg]
          -- the frame is not written
          have hplace := frame_part (hok'.places g hg).2.2
          exact load32_store32_apart m _ ((hapart.parts (registers_part hreg)
            hplace))
      · rw [List.map_cons, List.mem_cons, not_or] at hnot
        rw [List.foldl_cons, hrest k hk hdvd hnot.2]
        exact hstored k hk hdvd hnot.1
      · rw [List.foldl_cons, hout x hx]
        exact writeBytes_of_not_inSpan m _ fun hin =>
          hx (hin.of_part (registers_part hreg))

/-- `task_save_state`, in the memory, does what it does to a task: the
`struct registers` comes to hold the frame, and nothing else is
written. -/
theorem taskSaveState_refines (hapart : SpansApart (task + offRegisters)
      sizeofRegisters frame sizeofInterruptFrame) (m : Bytes)
    (t : Tasks.Task) :
    registersAt (taskSaveState task frame m) task
        = (Tasks.taskSaveState t (frameAt m frame)).registers
      ∧ ∀ x, ¬ InSpan (task + offRegisters) sizeofRegisters x →
        taskSaveState task frame m x = m x := by
  obtain ⟨hfound, -, hout⟩ :=
    saveFields_spec hapart savedFields m savedFields_ok
  refine ⟨?_, hout⟩
  have hfield : ∀ k j, (k, j) ∈ savedFields →
      load32 (taskSaveState task frame m)
          (task + offRegisters + BitVec.ofNat 32 k)
        = load32 m (frame + BitVec.ofNat 32 j) := fun k j h => hfound (k, j) h
  unfold registersAt frameAt Tasks.taskSaveState
  simp only
  rw [hfield 0 0 (by decide), hfield (4 * 1) 4 (by decide),
    hfield (4 * 2) 8 (by decide), hfield (4 * 3) 16 (by decide),
    hfield (4 * 4) 20 (by decide), hfield (4 * 5) 24 (by decide),
    hfield (4 * 6) 28 (by decide), hfield (4 * 7) 32 (by decide),
    hfield (4 * 8) 36 (by decide), hfield (4 * 9) 40 (by decide),
    hfield (4 * 10) 44 (by decide), hfield (4 * 11) 48 (by decide)]

end BenOS.Isr80h
