/-
What a loaded program's directory lets user code write, and what becomes
of the pages the kernel uses.

`process_map_elf` carries neither the size of the file nor any notion of
an address that is not the program's: the physical pages of a segment
come from `p_offset` and `p_memsz`, its virtual pages from `p_vaddr`, as
the file has them.

# What is exact about it

- `writes_confined_exact`: only the file's buffer and the stack can be
  written exactly when no page of a writable segment that is left mapped
  lies elsewhere; for segments with pages of their own, exactly when
  `p_offset + p_memsz` stays within the file's pages
  (`writesConfined_iff_ends`).
- `kernel_identity_exact`: the kernel's pages are where the kernel has
  them exactly when whatever is mapped over one of them last is mapped to
  itself.
-/
import Mathlib.Data.List.TakeWhile
import BenOS.Loader.Proofs.Image
import BenOS.Memory.Proofs.HeapRuns

namespace BenOS.Loader

open Lib Memory

namespace LoadedElf

variable (L : LoadedElf)

-- ======================================================= what is required

/-- A physical page of the buffer the file was read into. -/
def BufferPage (p : BitVec 20) : Prop :=
  (p - pageOf L.program.elfMem).toNat < blocksFor L.fileSize

/-- A physical page of the program's own stack. -/
def OwnStackPage (p : BitVec 20) : Prop :=
  (p - pageOf L.program.stack).toNat
    < benosUserProgramStackSize / pagingPageSize

/-- A page of the program's own: of the buffer or the stack. -/
def OwnPage (p : BitVec 20) : Prop := L.BufferPage p ∨ L.OwnStackPage p

instance (p : BitVec 20) : Decidable (L.OwnPage p) :=
  inferInstanceAs (Decidable (_ < _ ∨ _ < _))

/-- All that user code can write through a directory is its own. -/
def WritesConfined (d : PageDir) : Prop :=
  ∀ v, entryPresent (d v) → entryUser (d v) → entryWritable (d v) →
    L.OwnPage (entryFrame (d v))

/-- `tss.esp0`: the stack interrupts go to lies below it. -/
def tssEsp0 : Nat := 0x600000

/-- A virtual page the kernel uses while the directory of a process is
loaded: of its image, which ends at `imageEnd`, of the stack interrupts
go to, down to `stackBottom`, or of the heap. -/
def KernelPage (imageEnd stackBottom : Nat) (v : BitVec 20) : Prop :=
  (0x100000 ≤ (pageAddress v).toNat ∧ (pageAddress v).toNat < imageEnd)
    ∨ (stackBottom ≤ (pageAddress v).toNat ∧ (pageAddress v).toNat < tssEsp0)
    ∨ (benosHeadAddress.toNat ≤ (pageAddress v).toNat
        ∧ (pageAddress v).toNat < benosHeadAddress.toNat + benosHeapSizeBytes)

instance (imageEnd stackBottom : Nat) (v : BitVec 20) :
    Decidable (KernelPage imageEnd stackBottom v) :=
  inferInstanceAs (Decidable (_ ∨ _ ∨ _))

/-- A directory has the kernel's pages where the kernel's own has them. -/
def KeepsKernel (imageEnd stackBottom : Nat) (d : PageDir) : Prop :=
  ∀ v, KernelPage imageEnd stackBottom v →
    entryPresent (d v)
      ∧ entryFrame (d v)
        = entryFrame (pagingNew4gbDir (userFlags ||| pagingIsWritable) v)

-- ================================================================ entries

/-- The entry of a page, where a request was the last to cover it. -/
theorem entry_of_request {v : BitVec 20} {r : MapReq}
    (h : lastRequest L.requests v = some r) :
    mapped L.requests (pagingNew4gbDir userFlags) v = r.value v := by
  rw [elf_directory_apply, h]
  rfl

/-- The entry of a page that nothing covers. -/
theorem entry_of_none {v : BitVec 20} (h : lastRequest L.requests v = none) :
    mapped L.requests (pagingNew4gbDir userFlags) v
      = pageAddress v ||| userFlags := by
  rw [elf_directory_apply, h]
  rfl

/-- A request's entries name the pages it asks for. -/
theorem entryFrame_value {r : MapReq} (hr : r ∈ L.requests) (v : BitVec 20) :
    entryFrame (r.value v) = r.frame v := by
  refine entryFrame_or _ ?_
  rcases L.flags_of_mem hr with hf | hf
  · rw [hf]
    decide
  · rw [hf]
    decide

/-- They are present, and user code may read them. -/
theorem entryUser_value {r : MapReq} (hr : r ∈ L.requests) (v : BitVec 20) :
    entryPresent (r.value v) = true ∧ entryUser (r.value v) = true := by
  unfold entryPresent entryUser MapReq.value
  rw [getLsbD_entry _ _ (by decide), getLsbD_entry _ _ (by decide)]
  rcases L.flags_of_mem hr with hf | hf
  · rw [hf]
    decide
  · rw [hf]
    decide

/-- Those of a segment can be written where the segment asks for it. -/
theorem entryWritable_request (i : Nat) (v : BitVec 20) :
    entryWritable ((L.request i).value v) = decide (L.Writable i) := by
  unfold entryWritable MapReq.value
  rw [getLsbD_entry _ _ (by decide)]
  unfold request
  by_cases hw : L.Writable i
  · rw [if_pos hw, decide_eq_true hw]
    show (userFlags ||| pagingIsWritable).getLsbD 1 = true
    decide
  · rw [if_neg hw, decide_eq_false hw]
    show userFlags.getLsbD 1 = false
    decide

/-- A page that nothing covers cannot be written. -/
theorem entryWritable_identity (v : BitVec 20) :
    entryWritable (pageAddress v ||| userFlags) = false := by
  unfold entryWritable
  rw [getLsbD_entry _ _ (by decide)]
  decide

-- ============================================================ confinement

/-- The pages of the directory user code can write are those that a
writable segment was the last to map, and those of the stack. -/
theorem writesConfined_iff :
    L.WritesConfined (mapped L.requests (pagingNew4gbDir userFlags))
      ↔ ∀ i ∈ L.segments, L.Writable i → ∀ v,
          lastRequest L.requests v = some (L.request i) →
          L.OwnPage ((L.request i).frame v) := by
  have hmem : ∀ i ∈ L.segments, L.request i ∈ L.requests := fun i hi =>
    List.mem_append_left _ (List.mem_map_of_mem hi)
  constructor
  · intro hconf i hi hw v hlast
    have hentry := L.entry_of_request hlast
    obtain ⟨hpresent, huser⟩ := L.entryUser_value (hmem i hi) v
    have hown := hconf v (by rw [hentry]; exact hpresent)
      (by rw [hentry]; exact huser)
      (by rw [hentry, entryWritable_request]; exact decide_eq_true hw)
    rwa [hentry, L.entryFrame_value (hmem i hi)] at hown
  · intro h v _ _ hwrite
    cases hlast : lastRequest L.requests v with
    | none =>
        rw [L.entry_of_none hlast, entryWritable_identity] at hwrite
        cases hwrite
    | some r =>
        have hr := lastCover_mem MapReq.covers hlast
        rw [L.entry_of_request hlast] at hwrite ⊢
        rw [L.entryFrame_value hr.1]
        rcases List.mem_append.mp hr.1 with hseg | hstack
        · obtain ⟨i, hi, rfl⟩ := List.mem_map.mp hseg
          rw [entryWritable_request] at hwrite
          exact h i hi (of_decide_eq_true hwrite) v hlast
        · have hreq := List.mem_singleton.mp hstack
          subst hreq
          refine Or.inr ?_
          have hcov := of_decide_eq_true hr.2
          unfold OwnStackPage
          show (pageOf L.program.stack + _ - pageOf L.program.stack).toNat < _
          rw [BitVec.add_comm, BitVec.add_sub_cancel]
          exact hcov

/-- What user code can write is its own exactly when each page of a
writable segment, as far as no later mapping takes it over, is a page of
the buffer or of the stack. -/
theorem writes_confined_exact :
    (∃ d, L.mapMemory = some (0, d) ∧ L.WritesConfined d)
      ↔ ∀ i ∈ L.segments, L.Writable i → ∀ v,
          lastRequest L.requests v = some (L.request i) →
          L.OwnPage ((L.request i).frame v) := by
  rw [L.exists_mapMemory_iff]
  exact L.writesConfined_iff

/-- The page a segment gives a virtual one is of the buffer exactly when
`p_offset`, in pages, and the distance from `p_vaddr` come to less than
the buffer's pages. -/
theorem bufferPage_iff (i : Nat) (v : BitVec 20) :
    L.BufferPage ((L.request i).frame v)
      ↔ (pageOf (L.field i offPOffset)
          + (v - pageOf (L.field i offPVaddr))).toNat
        < blocksFor L.fileSize := by
  have hstart : pageOf (L.physStart i)
      = pageOf (L.program.elfMem) + pageOf (L.field i offPOffset) := by
    unfold physStart
    rw [BitVec.add_comm, pageOf_add L.imagePage, BitVec.add_comm]
  have hframe : (L.request i).frame v - pageOf L.program.elfMem
      = pageOf (L.field i offPOffset)
        + (v - pageOf (L.field i offPVaddr)) := by
    show pageOf (L.physStart i) + (v - pageOf (L.field i offPVaddr)) - _ = _
    rw [hstart, BitVec.add_assoc, BitVec.add_comm, BitVec.add_sub_cancel]
  unfold BufferPage
  rw [hframe]

/-- The pages of a segment that does not go round the end of memory: all
that `p_offset` and `p_memsz` touch. -/
theorem request_pages {i : Nat}
    (hfits : L.program.elfMem.toNat + (L.field i offPOffset).toNat
      + (L.field i offPMemsz).toNat + pagingPageSize ≤ 2 ^ 32) :
    (L.request i).pages
      = ((L.field i offPOffset).toNat % pagingPageSize
          + (L.field i offPMemsz).toNat + (pagingPageSize - 1))
        / pagingPageSize := by
  have hpage := L.imagePage
  have hstart : (L.physStart i).toNat
      = L.program.elfMem.toNat + (L.field i offPOffset).toNat := by
    unfold physStart
    rw [BitVec.toNat_add]
    simp only [pagingPageSize] at *
    omega
  have hstop : (L.physStart i + L.field i offPMemsz).toNat
      = L.program.elfMem.toNat + (L.field i offPOffset).toNat
        + (L.field i offPMemsz).toNat := by
    rw [BitVec.toNat_add, hstart]
    simp only [pagingPageSize] at *
    omega
  have hend : (L.physEnd i).toNat
      = (L.program.elfMem.toNat + (L.field i offPOffset).toNat
          + (L.field i offPMemsz).toNat + (pagingPageSize - 1))
        / pagingPageSize * pagingPageSize := by
    unfold physEnd
    rw [toNat_pagingAlignAddress (by rw [hstop]; exact hfits), hstop]
  show (L.physEnd i - pageAddress (pageOf (L.physStart i))).toNat
    / pagingPageSize = _
  rw [BitVec.toNat_sub, hend, toNat_pageAddress, toNat_pageOf, hstart]
  simp only [pagingPageSize] at *
  omega

/-- A segment that is mapped has a page at least. -/
theorem request_pages_pos {i : Nat} (hi : i ∈ L.segments) :
    0 < (L.request i).pages := by
  unfold segments at hi
  have htaken : L.Taken i :=
    of_decide_eq_true (List.mem_takeWhile_imp hi :)
  have hstart := pageAddress_aligned (pageOf (L.physStart i))
  have hend : (L.physEnd i).toNat % pagingPageSize = 0 :=
    pagingAlignAddress_aligned _
  unfold Taken at htaken
  show 0 < (L.physEnd i - pageAddress (pageOf (L.physStart i))).toNat
    / pagingPageSize
  rw [BitVec.toNat_sub]
  have := (L.physEnd i).isLt
  simp only [pagingPageSize] at *
  omega

/-- Where every segment has its pages to itself, does not go round the end
of memory and keeps clear of the stack, what user code can write is its own
exactly when each writable segment ends in the last page of the file, or in
front of it. -/
theorem writesConfined_iff_ends
    (hown : ∀ i ∈ L.segments, ∀ v, (L.request i).covers v →
      lastRequest L.requests v = some (L.request i))
    (hfits : ∀ i ∈ L.segments,
      L.program.elfMem.toNat + (L.field i offPOffset).toNat
        + (L.field i offPMemsz).toNat + pagingPageSize ≤ 2 ^ 32)
    (hstack : ∀ i ∈ L.segments, ∀ v, (L.request i).covers v →
      ¬ L.OwnStackPage ((L.request i).frame v)) :
    L.WritesConfined (mapped L.requests (pagingNew4gbDir userFlags))
      ↔ ∀ i ∈ L.segments, L.Writable i →
          (L.field i offPOffset).toNat + (L.field i offPMemsz).toNat
            ≤ blocksFor L.fileSize * pagingPageSize := by
  rw [L.writesConfined_iff]
  refine forall_congr' fun i => forall_congr' fun hi => forall_congr' fun _ => ?_
  have hpages := L.request_pages (hfits i hi)
  have hpos := L.request_pages_pos hi
  have hfit := hfits i hi
  constructor
  · intro h
    -- the last page of the segment is one of the file
    obtain ⟨k, hk⟩ := Nat.exists_eq_add_of_lt hpos
    have hdist : pageOf (L.field i offPVaddr) + BitVec.ofNat 20 k
        - pageOf (L.field i offPVaddr) = BitVec.ofNat 20 k := by
      rw [BitVec.add_comm, BitVec.add_sub_cancel]
    have hkmod : k % 2 ^ 20 = k := by
      simp only [pagingPageSize] at *
      omega
    have hcov : (L.request i).covers
        (pageOf (L.field i offPVaddr) + BitVec.ofNat 20 k) := by
      refine decide_eq_true ?_
      show (pageOf (L.field i offPVaddr) + BitVec.ofNat 20 k
        - pageOf (L.field i offPVaddr)).toNat < _
      rw [hdist, BitVec.toNat_ofNat, hkmod]
      omega
    have hpage : L.BufferPage ((L.request i).frame
        (pageOf (L.field i offPVaddr) + BitVec.ofNat 20 k)) :=
      (h _ (hown i hi _ hcov)).resolve_right (hstack i hi _ hcov)
    rw [bufferPage_iff, hdist, BitVec.toNat_add, toNat_pageOf,
      BitVec.toNat_ofNat, hkmod] at hpage
    simp only [pagingPageSize] at *
    omega
  · intro h v hlast
    have hcov := of_decide_eq_true (lastCover_mem MapReq.covers hlast).2
    refine Or.inl ((L.bufferPage_iff i v).mpr ?_)
    have hk : (v - pageOf (L.field i offPVaddr)).toNat
        < (L.request i).pages := hcov
    rw [BitVec.toNat_add, toNat_pageOf]
    refine Nat.lt_of_le_of_lt (Nat.mod_le _ _) ?_
    simp only [pagingPageSize] at *
    omega

/-- A writable segment of two pages in a file of 84 bytes. -/
def longBss : LoadedElf :=
  oneSegment [1, 0, 0x400000, 0, 84, 8192, 6, 0x1000] (by decide +kernel)

/-- It is not so that user code can only write what is its own: the
second page of such a segment is the heap block behind the buffer. -/
theorem writes_behind_the_buffer :
    ¬ ∀ L : LoadedElf, ∃ d, L.mapMemory = some (0, d) ∧ L.WritesConfined d := by
  intro hall
  obtain ⟨d, hd, hconf⟩ := hall longBss
  have hsecond : longBss.mapMemory.map (fun r => r.2 0x401#20)
      = some 0x01011007#32 := by decide +kernel
  rw [hd] at hsecond
  have hentry : d 0x401#20 = 0x01011007#32 := Option.some.inj hsecond
  have hown := hconf 0x401#20 (by rw [hentry]; decide) (by rw [hentry]; decide)
    (by rw [hentry]; decide)
  rw [hentry] at hown
  exact absurd hown (by decide)

-- ======================================================= the kernel's pages

theorem frame_eq_self_iff (r : MapReq) (v : BitVec 20) :
    r.frame v = v ↔ r.phys = r.virt := by
  unfold MapReq.frame
  constructor
  · intro h
    have hsum : r.phys + (v - r.virt) + (r.virt - v) = v + (r.virt - v) := by
      rw [h]
    rw [BitVec.add_assoc] at hsum
    simpa using hsum
  · intro h
    rw [h]
    simp

/-- The kernel's pages are where the kernel has them exactly when each
mapping that is the last over one of them maps its pages to themselves. -/
theorem kernel_identity_exact (imageEnd stackBottom : Nat) :
    (∃ d, L.mapMemory = some (0, d) ∧ KeepsKernel imageEnd stackBottom d)
      ↔ ∀ v, KernelPage imageEnd stackBottom v → ∀ r,
          lastRequest L.requests v = some r → r.phys = r.virt := by
  have hkernel : ∀ v, entryFrame
      (pagingNew4gbDir (userFlags ||| pagingIsWritable) v) = v :=
    fun v => entryFrame_or v (by decide)
  rw [L.exists_mapMemory_iff]
  constructor
  · intro hkeep v hv r hlast
    have hentry := L.entry_of_request hlast
    have hframe := (hkeep v hv).2
    rw [hentry, hkernel,
      L.entryFrame_value (lastCover_mem MapReq.covers hlast).1] at hframe
    exact (frame_eq_self_iff r v).mp hframe
  · intro h v hv
    rw [hkernel]
    cases hlast : lastRequest L.requests v with
    | none =>
        rw [L.entry_of_none hlast]
        refine ⟨?_, entryFrame_or v (by decide)⟩
        unfold entryPresent
        rw [getLsbD_entry _ _ (by decide)]
        decide
    | some r =>
        have hr := (lastCover_mem MapReq.covers hlast).1
        rw [L.entry_of_request hlast, L.entryFrame_value hr]
        exact ⟨(L.entryUser_value hr v).1,
          (frame_eq_self_iff r v).mpr (h v hv r hlast)⟩

/-- A segment at the page the interrupt stack begins in. -/
def atKernelStack : LoadedElf :=
  oneSegment [1, 0, 0x5FF000, 0, 84, 84, 6, 0x1000] (by decide +kernel)

/-- It is not so that the kernel's pages stay: a segment can take the
place of the stack that interrupts go to. -/
theorem kernel_stack_remapped :
    ¬ ∀ L : LoadedElf, ∃ d, L.mapMemory = some (0, d)
        ∧ KeepsKernel 0x110000 0x5FF000 d := by
  intro hall
  obtain ⟨d, hd, hkeep⟩ := hall atKernelStack
  have hstack : atKernelStack.mapMemory.map (fun r => r.2 0x5FF#20)
      = some 0x01010007#32 := by decide +kernel
  rw [hd] at hstack
  have hentry : d 0x5FF#20 = 0x01010007#32 := Option.some.inj hstack
  have hframe := (hkeep 0x5FF#20 (by decide)).2
  rw [hentry] at hframe
  exact absurd hframe (by decide)

end LoadedElf

end BenOS.Loader
