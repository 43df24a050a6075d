/-
What a loaded program finds at the addresses of its segments.

A segment is mapped in place: its pages are the pages of the buffer that
its file bytes happen to lie in, nothing is copied and nothing is
cleared. Which byte answers at an address is settled by the last request
that covers its page.

# What is exact about it

`elf_image_exact`: each segment reads as its program header says exactly
when, at each of its addresses, the last mapping of the page allows
writing where the segment asks for it, and either the byte is one of the
file and the address is congruent to its offset, so that the mapping of
the segment itself shows it (`InPlace`), or the byte at the place that
answers happens to be the one due (`Coincides`). In place is enough
(`imageRight_of_inPlace`). Otherwise the mapping of the segment shows the
memory from the front of the page its bytes start in (`shown_place`). The
bytes behind `p_filesz` are never due in place: they are right where the
buffer has zeros.
-/
import BenOS.Loader.Proofs.Confine

namespace BenOS.Loader

open Lib Memory

namespace LoadedElf

variable (L : LoadedElf)

-- ======================================================= what is required

/-- The byte of the file at an offset, where it has one. -/
def fileByte (j : Int) : Option UInt8 :=
  if 0 ≤ j ∧ j < L.fileSize then
    some (L.mem (L.program.elfMem + BitVec.ofInt 32 j))
  else none

/-- The byte due at the `x`-th address of segment `i`: a byte of the
file, and zero behind `p_filesz`. -/
def dueByte (i x : Nat) : Option UInt8 :=
  if x < (L.field i offPFilesz).toNat then
    L.fileByte ((L.field i offPOffset).toInt + x)
  else some 0

/-- The `x`-th address of segment `i`. -/
def segmentAddress (i x : Nat) : Addr :=
  L.field i offPVaddr + BitVec.ofNat 32 x

/-- The physical address an entry gives a virtual one. -/
def physAddress (frame : BitVec 20) (v : Addr) : Addr :=
  pageAddress frame + BitVec.ofNat 32 (v.toNat % pagingPageSize)

/-- User code finds the byte `b` at `v`, and may write there if `w`. -/
structure Finds (d : PageDir) (v : Addr) (b : UInt8) (w : Prop) : Prop where
  present : entryPresent (d (pageOf v))
  user : entryUser (d (pageOf v))
  byte : L.mem (physAddress (entryFrame (d (pageOf v))) v) = b
  writable : w → entryWritable (d (pageOf v))

/-- Every loadable segment reads as its program header says. -/
def ImageRight (d : PageDir) : Prop :=
  ∀ i < L.phnum, L.field i offPType = ptLoad →
    ∀ x < (L.field i offPMemsz).toNat,
      ∃ b, L.dueByte i x = some b
        ∧ L.Finds d (L.segmentAddress i x) b (L.Writable i)

-- ============================================================ the condition

/-- The mapping of the segment itself shows byte `x`: it is the last over
the page, the byte is one of the file, and the address is congruent to
its offset. -/
structure InPlace (i x : Nat) : Prop where
  last : lastRequest L.requests (pageOf (L.segmentAddress i x))
    = some (L.request i)
  congruent : (L.field i offPVaddr).toNat % pagingPageSize
    = (L.field i offPOffset).toNat % pagingPageSize
  inFile : x < (L.field i offPFilesz).toNat
  start : 0 ≤ (L.field i offPOffset).toInt + x
  stop : (L.field i offPOffset).toInt + x < L.fileSize

/-- The physical page that answers for a virtual one. -/
def answeringFrame (v : BitVec 20) : BitVec 20 :=
  (lastRequest L.requests v).elim v fun r => r.frame v

/-- The byte that answers happens to be the byte due. -/
def Coincides (i x : Nat) : Prop :=
  L.dueByte i x = some (L.mem (physAddress
    (L.answeringFrame (pageOf (L.segmentAddress i x)))
    (L.segmentAddress i x)))

/-- The last mapping of the page allows writing. -/
def LastWritable (v : BitVec 20) : Prop :=
  ∃ r, lastRequest L.requests v = some r
    ∧ r.flags = userFlags ||| pagingIsWritable

-- ================================================================ addresses

/-- An address is the offset in its page, from the page on. -/
theorem physAddress_pageOf (a v : Addr)
    (h : v.toNat % pagingPageSize = a.toNat % pagingPageSize) :
    physAddress (pageOf a) v = a := by
  apply BitVec.eq_of_toNat_eq
  unfold physAddress
  rw [h, BitVec.toNat_add, toNat_pageAddress, toNat_pageOf,
    BitVec.toNat_ofNat]
  have := a.isLt
  simp only [pagingPageSize]
  omega

/-- Addresses a whole number of pages apart are moved alike by a
request. -/
theorem frame_congruent {r : MapReq} {v₀ a₀ x : Addr}
    (hvirt : r.virt = pageOf v₀) (hphys : r.phys = pageOf a₀)
    (h : v₀.toNat % pagingPageSize = a₀.toNat % pagingPageSize) :
    r.frame (pageOf (v₀ + x)) = pageOf (a₀ + x) := by
  have hδ : (a₀ - v₀).toNat % pagingPageSize = 0 := by
    rw [BitVec.toNat_sub]
    have := v₀.isLt
    have := a₀.isLt
    simp only [pagingPageSize] at *
    omega
  have hsum : a₀ + x = v₀ + x + (a₀ - v₀) := by
    rw [BitVec.add_comm (v₀ + x), ← BitVec.add_assoc, BitVec.sub_add_cancel]
  have hbase : pageOf a₀ = pageOf v₀ + pageOf (a₀ - v₀) := by
    rw [← pageOf_add hδ, BitVec.add_comm, BitVec.sub_add_cancel]
  unfold MapReq.frame
  rw [hvirt, hphys, hsum, pageOf_add hδ, hbase, add_right_comm,
    add_sub_cancel]

/-- The page a segment's bytes start in, with the segment's address in its
own page. -/
def shownStart (i : Nat) : Addr :=
  physAddress (pageOf (L.physStart i)) (L.field i offPVaddr)

/-- What the mapping of the segment itself shows: the memory from the front
of the page its bytes start in, as far on as the address is in its page. -/
theorem shown_place {i x : Nat}
    (hlast : lastRequest L.requests (pageOf (L.segmentAddress i x))
      = some (L.request i)) :
    physAddress (L.answeringFrame (pageOf (L.segmentAddress i x)))
      (L.segmentAddress i x) = L.shownStart i + BitVec.ofNat 32 x := by
  have hnat : (L.shownStart i).toNat
      = (pageOf (L.physStart i)).toNat * pagingPageSize
        + (L.field i offPVaddr).toNat % pagingPageSize := by
    unfold shownStart physAddress
    rw [BitVec.toNat_add, toNat_pageAddress, BitVec.toNat_ofNat]
    have := (pageOf (L.physStart i)).isLt
    simp only [pagingPageSize]
    omega
  have hmod : (L.field i offPVaddr).toNat % pagingPageSize
      = (L.shownStart i).toNat % pagingPageSize := by
    rw [hnat]
    simp only [pagingPageSize]
    omega
  have hphys : (L.request i).phys = pageOf (L.shownStart i) := by
    show pageOf (L.physStart i) = _
    apply BitVec.eq_of_toNat_eq
    rw [toNat_pageOf (L.shownStart i), hnat]
    simp only [pagingPageSize]
    omega
  have hframe := frame_congruent (r := L.request i)
    (x := BitVec.ofNat 32 x) rfl hphys hmod
  unfold answeringFrame
  rw [hlast]
  show physAddress ((L.request i).frame
    (pageOf (L.field i offPVaddr + BitVec.ofNat 32 x))) _ = _
  rw [hframe]
  refine physAddress_pageOf _ _ ?_
  unfold segmentAddress
  rw [BitVec.toNat_add, BitVec.toNat_add]
  simp only [pagingPageSize] at *
  omega

/-- Where the address is congruent to the offset these are the segment's
bytes. -/
theorem shownStart_congruent {i : Nat}
    (h : (L.field i offPVaddr).toNat % pagingPageSize
      = (L.field i offPOffset).toNat % pagingPageSize) :
    L.shownStart i = L.physStart i := by
  have hpage := L.imagePage
  refine physAddress_pageOf _ _ ?_
  unfold physStart
  rw [h, BitVec.toNat_add]
  simp only [pagingPageSize] at *
  omega

/-- A byte in place is the byte due. -/
theorem InPlace.coincides {i x : Nat} (h : L.InPlace i x) :
    L.Coincides i x := by
  obtain ⟨hlast, hcong, hfile, hstart, hstop⟩ := h
  have hplace : physAddress
      (L.answeringFrame (pageOf (L.segmentAddress i x)))
      (L.segmentAddress i x) = L.physStart i + BitVec.ofNat 32 x := by
    rw [L.shown_place hlast, L.shownStart_congruent hcong]
  unfold Coincides dueByte fileByte
  rw [if_pos hfile, if_pos ⟨hstart, hstop⟩, hplace]
  unfold physStart
  congr 2
  rw [BitVec.add_assoc, BitVec.ofInt_add, BitVec.ofInt_toInt,
    BitVec.ofInt_natCast]

-- =========================================================== the whole image

/-- What a page's entry says, in terms of the requests. -/
theorem entry_of_page (v : BitVec 20) :
    let e := mapped L.requests (pagingNew4gbDir userFlags) v
    entryPresent e = true ∧ entryUser e = true
      ∧ entryFrame e = L.answeringFrame v
      ∧ (entryWritable e = true ↔ L.LastWritable v) := by
  show entryPresent (mapped L.requests _ v) = true
    ∧ entryUser (mapped L.requests _ v) = true
    ∧ entryFrame (mapped L.requests _ v) = _
    ∧ (entryWritable (mapped L.requests _ v) = true ↔ _)
  unfold answeringFrame LastWritable
  cases hlast : lastRequest L.requests v with
  | none =>
      rw [L.entry_of_none hlast, entryWritable_identity]
      unfold entryPresent entryUser
      rw [getLsbD_entry _ _ (by decide), getLsbD_entry _ _ (by decide)]
      refine ⟨by decide, by decide, entryFrame_or v (by decide), ?_⟩
      exact iff_of_false (by decide) fun ⟨_, h, _⟩ => by cases h
  | some r =>
      have hr := (lastCover_mem MapReq.covers hlast).1
      rw [L.entry_of_request hlast]
      obtain ⟨hpresent, huser⟩ := L.entryUser_value hr v
      refine ⟨hpresent, huser, L.entryFrame_value hr v, ?_⟩
      unfold entryWritable MapReq.value
      rw [getLsbD_entry _ _ (by decide)]
      rcases L.flags_of_mem hr with hf | hf
      · rw [hf]
        exact iff_of_true (by decide) ⟨r, rfl, hf⟩
      · rw [hf]
        refine iff_of_false (by decide) fun ⟨q, hq, hflags⟩ => ?_
        rw [← Option.some.inj hq, hf] at hflags
        exact absurd hflags (by decide)

/-- The directory shows the image where each byte that answers is the one
due, and the segment can be written if it asks for it. -/
theorem imageRight_iff :
    L.ImageRight (mapped L.requests (pagingNew4gbDir userFlags))
      ↔ ∀ i < L.phnum, L.field i offPType = ptLoad →
          ∀ x < (L.field i offPMemsz).toNat,
            (L.Writable i → L.LastWritable (pageOf (L.segmentAddress i x)))
              ∧ L.Coincides i x := by
  constructor
  · intro himage i hi hload x hx
    obtain ⟨b, hdue, hfinds⟩ := himage i hi hload x hx
    obtain ⟨-, -, hframe, hwrite⟩ := L.entry_of_page
      (pageOf (L.segmentAddress i x))
    refine ⟨fun hw => hwrite.mp (hfinds.writable hw), ?_⟩
    unfold Coincides
    rw [hdue, ← hfinds.byte, hframe]
  · intro h i hi hload x hx
    obtain ⟨hw, hdue⟩ := h i hi hload x hx
    obtain ⟨hpresent, huser, hframe, hwrite⟩ := L.entry_of_page
      (pageOf (L.segmentAddress i x))
    exact ⟨_, hdue, hpresent, huser, by rw [hframe],
      fun hwr => hwrite.mpr (hw hwr)⟩

/-- So it does where every byte is in place. -/
theorem imageRight_of_inPlace
    (h : ∀ i < L.phnum, L.field i offPType = ptLoad →
      ∀ x < (L.field i offPMemsz).toNat,
        (L.Writable i → L.LastWritable (pageOf (L.segmentAddress i x)))
          ∧ L.InPlace i x) :
    ∃ d, L.mapMemory = some (0, d) ∧ L.ImageRight d := by
  rw [L.exists_mapMemory_iff, L.imageRight_iff]
  intro i hi hload x hx
  obtain ⟨hw, hplace⟩ := h i hi hload x hx
  exact ⟨hw, hplace.coincides⟩

/-- Each loadable segment reads as its program header says exactly when,
at each of its addresses, the last mapping of the page allows writing if
the segment asks for it, and the byte is shown in place or coincides. -/
theorem elf_image_exact :
    (∃ d, L.mapMemory = some (0, d) ∧ L.ImageRight d)
      ↔ ∀ i < L.phnum, L.field i offPType = ptLoad →
          ∀ x < (L.field i offPMemsz).toNat,
            (L.Writable i → L.LastWritable (pageOf (L.segmentAddress i x)))
              ∧ (L.InPlace i x ∨ L.Coincides i x) := by
  rw [L.exists_mapMemory_iff, L.imageRight_iff]
  constructor
  · intro h i hi hload x hx
    obtain ⟨hw, hdue⟩ := h i hi hload x hx
    exact ⟨hw, Or.inr hdue⟩
  · intro h i hi hload x hx
    obtain ⟨hw, hbyte⟩ := h i hi hload x hx
    refine ⟨hw, ?_⟩
    rcases hbyte with hplace | hdue
    · exact hplace.coincides
    · exact hdue

/-- A segment whose address is not congruent to its offset. -/
def misaligned : LoadedElf :=
  oneSegment [1, 52, 0x400000, 0, 4, 4, 4, 0x1000] (by decide +kernel)

/-- It is not so that every segment reads as its header says: such a
segment shows the front of the page its bytes lie in. -/
theorem segment_shows_header :
    ¬ ∀ L : LoadedElf, ∃ d, L.mapMemory = some (0, d) ∧ L.ImageRight d := by
  intro hall
  obtain ⟨d, hd, himage⟩ := hall misaligned
  have hpage : misaligned.mapMemory.map (fun r => r.2 0x400#20)
      = some 0x01010005#32 := by decide +kernel
  rw [hd] at hpage
  have hentry : d 0x400#20 = 0x01010005#32 := Option.some.inj hpage
  obtain ⟨b, hdue, hfinds⟩ := himage 0 (by decide +kernel) (by decide +kernel)
    0 (by decide +kernel)
  have hbyte := hfinds.byte
  have haddr : pageOf (misaligned.segmentAddress 0 0) = 0x400#20 := by
    decide +kernel
  rw [haddr, hentry] at hbyte
  have hdue' : misaligned.dueByte 0 0 = some 1 := by decide +kernel
  rw [hdue', ← hbyte] at hdue
  exact absurd hdue (by decide +kernel)

end LoadedElf

end BenOS.Loader
