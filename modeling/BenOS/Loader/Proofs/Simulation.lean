/-
`process_map_memory` on two states that stand for the same directory.

`PagersAgree` relates the states: `paging_set` leads related ones to
related ones, and their memories agree wherever a read may lie. Then the
mapping functions read the same places and leave related states, one
after the other up to `processMapMemory_sim`. The reads are a condition on
one side only: as far as they lie where the memories agree, the other side
makes the same ones.
-/
import BenOS.Loader.Map
import BenOS.Memory.Proofs.Directory

namespace BenOS.Loader

open Lib Memory Traced

variable {σ τ : Type} {pg : Pager σ} {pg' : Pager τ} {R : σ → τ → Prop}
  {P : Span → Prop}

-- ================================================================ the states

/-- `paging_set` keeps states related, and related states have the same
bytes wherever a read may lie. -/
structure PagersAgree (pg : Pager σ) (pg' : Pager τ) (R : σ → τ → Prop)
    (P : Span → Prop) : Prop where
  set : ∀ virt val s t, R s t →
    Agree R (pg.set virt val s) (pg'.set virt val t)
  bytes : ∀ s t, R s t → ∀ b, P b →
    SameOn b.addr b.len (pg'.bytes t) (pg.bytes s)

variable (h : PagersAgree pg pg' R P) {s : σ} {t : τ}

-- ================================================================= the reads

include h

theorem read32_sim (hR : R s t) (a : Addr) :
    Sim P Eq (read32 (pg.bytes s) a) (read32 (pg'.bytes t) a) :=
  sim_look fun hP => load32_congr (h.bytes s t hR _ hP)

theorem read16_sim (hR : R s t) (a : Addr) :
    Sim P Eq (read16 (pg.bytes s) a) (read16 (pg'.bytes t) a) :=
  sim_look fun hP => load16_congr (h.bytes s t hR _ hP)

theorem elfPheader_sim (hR : R s t) (header : Addr) :
    Sim P Eq (elfPheader (pg.bytes s) header)
      (elfPheader (pg'.bytes t) header) := by
  refine sim_bind (read32_sim h hR _) ?_
  rintro off _ rfl
  exact sim_pure rfl

theorem elfPhdrPhysAddress_sim (hR : R s t) (elfMem phdr : Addr) :
    Sim P Eq (elfPhdrPhysAddress (pg.bytes s) elfMem phdr)
      (elfPhdrPhysAddress (pg'.bytes t) elfMem phdr) := by
  refine sim_bind (read32_sim h hR _) ?_
  rintro off _ rfl
  exact sim_pure rfl

-- ============================================================== the mappings

/-- A program header is mapped alike. -/
theorem processMapPhdr_sim (hR : R s t) (elfMem phdr : Addr) :
    Sim P (Agree R) (processMapPhdr pg elfMem phdr s)
      (processMapPhdr pg' elfMem phdr t) := by
  refine sim_bind (elfPhdrPhysAddress_sim h hR elfMem phdr) ?_
  rintro phdrPhysAddress _ rfl
  refine sim_bind (read32_sim h hR _) ?_
  rintro pFlags _ rfl
  refine sim_bind (read32_sim h hR _) ?_
  rintro vaddr _ rfl
  refine sim_bind (read32_sim h hR _) ?_
  rintro memsz _ rfl
  exact sim_pure (pagingMapTo_sim h.set _ _ _ _ hR)

/-- So are all from an index on: each round starts from the states the
round before it leaves. -/
theorem processMapElfLoop_sim (elfMem phdrs : Addr) (fuel : Nat) :
    ∀ (i : Nat) (res : Int) {s : σ} {t : τ}, R s t →
      Sim P (Agree R) (processMapElfLoop pg elfMem phdrs fuel i res s)
        (processMapElfLoop pg' elfMem phdrs fuel i res t) := by
  induction fuel with
  | zero => exact fun _ _ _ _ hR => sim_pure ⟨rfl, hR⟩
  | succ fuel ih =>
      intro i res s t hR
      unfold processMapElfLoop
      refine sim_bind (read16_sim h hR _) ?_
      rintro phnum _ rfl
      by_cases hi : i < phnum.toNat
      · rw [if_pos hi, if_pos hi]
        refine sim_bind (processMapPhdr_sim h hR elfMem _) ?_
        rintro ⟨res, s⟩ ⟨_, t⟩ ⟨rfl, hR⟩
        by_cases hres : res < 0
        · rw [if_pos hres, if_pos hres]
          exact sim_pure ⟨rfl, hR⟩
        · rw [if_neg hres, if_neg hres]
          exact ih (i + 1) res hR
      · rw [if_neg hi, if_neg hi]
        exact sim_pure ⟨rfl, hR⟩

theorem processMapElf_sim (hR : R s t) (elfMem : Addr) :
    Sim P (Agree R) (processMapElf pg elfMem s)
      (processMapElf pg' elfMem t) := by
  refine sim_bind (elfPheader_sim h hR elfMem) ?_
  rintro phdrs _ rfl
  exact processMapElfLoop_sim h elfMem phdrs phnumLimit 0 0 hR

theorem processMapBinary_sim (hR : R s t) (program : Program) :
    Agree R (processMapBinary pg program s) (processMapBinary pg' program t) :=
  ⟨rfl, (pagingMapTo_sim h.set _ _ _ _ hR).2⟩

/-- The `switch` panics on both sides or on none. -/
theorem processMapImage_sim (hR : R s t) (program : Program)
    {y : Traced Span (Int × τ)} (hy : processMapImage pg' program t = some y) :
    ∃ x, processMapImage pg program s = some x ∧ Sim P (Agree R) x y := by
  unfold processMapImage at hy ⊢
  by_cases helf : program.filetype = Tasks.processFiletypeElf
  · rw [if_pos helf] at hy ⊢
    obtain rfl := Option.some.inj hy
    exact ⟨_, rfl, processMapElf_sim h hR program.elfMem⟩
  · rw [if_neg helf] at hy ⊢
    by_cases hbinary : program.filetype = Tasks.processFiletypeBinary
    · rw [if_pos hbinary] at hy ⊢
      obtain rfl := Option.some.inj hy
      exact ⟨_, rfl, sim_pure (processMapBinary_sim h hR program)⟩
    · rw [if_neg hbinary] at hy
      cases hy

/-- `process_map_memory` does the same on related states, as long as it
reads where their memories agree. -/
theorem processMapMemory_sim (hR : R s t) (program : Program)
    {y : Traced Span (Int × τ)}
    (hy : processMapMemory pg' program t = some y) :
    ∃ x, processMapMemory pg program s = some x ∧ Sim P (Agree R) x y := by
  unfold processMapMemory at hy ⊢
  rw [Option.bind_eq_bind, Option.bind_eq_some_iff] at hy
  obtain ⟨image', himage', hy⟩ := hy
  obtain rfl := Option.some.inj hy
  obtain ⟨image, himage, hsim⟩ := processMapImage_sim h hR program himage'
  rw [himage, Option.bind_eq_bind, Option.bind_some]
  refine ⟨_, rfl, sim_bind hsim ?_⟩
  -- what the `switch` answers is not looked at
  rintro r r' ⟨-, hR⟩
  obtain ⟨hres, hR⟩ := processMapBinary_sim h hR program
  simp only
  rw [hres]
  split
  · exact sim_pure ⟨hres, hR⟩
  · exact sim_pure ⟨rfl, (pagingMapTo_sim h.set _ _ _ _ hR).2⟩

omit h in
/-- `process_map_memory` knows the file type, and answers 0. -/
theorem processMapMemory_res {program : Program} {y : Traced Span (Int × σ)}
    (hy : processMapMemory pg program s = some y) :
    (program.filetype = Tasks.processFiletypeElf
        ∨ program.filetype = Tasks.processFiletypeBinary)
      ∧ y.val.1 = 0 := by
  unfold processMapMemory at hy
  rw [Option.bind_eq_bind, Option.bind_eq_some_iff] at hy
  obtain ⟨image, himage, hy⟩ := hy
  have hknown : program.filetype = Tasks.processFiletypeElf
      ∨ program.filetype = Tasks.processFiletypeBinary := by
    by_contra hno
    push Not at hno
    unfold processMapImage at himage
    rw [if_neg hno.1, if_neg hno.2] at himage
    cases himage
  refine ⟨hknown, ?_⟩
  rw [← Option.some.inj hy]
  rfl

omit h in
/-- `process_map_memory` of an ELF program does not panic. -/
theorem processMapMemory_isElf {program : Program}
    (helf : program.filetype = Tasks.processFiletypeElf) (s : σ) :
    ∃ y, processMapMemory pg program s = some y := by
  have himage : processMapImage pg program s
      = some (processMapElf pg program.elfMem s) := if_pos helf
  unfold processMapMemory
  rw [himage]
  exact ⟨_, rfl⟩

end BenOS.Loader
