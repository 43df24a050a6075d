/-
The extents that `elf_process_pheaders` records.

The loop folds the `PT_LOAD` headers of the table into the four addresses
of `struct elf_file` (`elfProcessPheaders_file`). A base of zero is taken
for no base at all, so the base is that of the last header of a run that
only goes down since the last zero: it is zero exactly where the last
header starts at zero (`base_zero_iff`), and the lowest where none does
(`base_lowest`). The end is always the highest of the sums, as 32-bit
numbers (`end_highest`).
-/
import BenOS.Loader.Proofs.Bounds

namespace BenOS.Loader

open Lib Traced

-- ======================================================= the loaded segments

/-- A program header of type `PT_LOAD`, as far as the extents go. -/
structure LoadHeader where
  vaddr : Addr
  offset : Addr
  filesz : Addr
deriving DecidableEq

/-- The program header at `phdr`, if it has that type. -/
def loadHeader (m : Bytes) (phdr : Addr) : Option LoadHeader :=
  if load32 m (phdr + offPType) = ptLoad then
    some ⟨load32 m (phdr + offPVaddr), load32 m (phdr + offPOffset),
      load32 m (phdr + offPFilesz)⟩
  else none

/-- The `PT_LOAD` headers of the table, in order. -/
def loadHeaders (m : Bytes) (header : Addr) : List LoadHeader :=
  (List.range (ePhnum m header)).filterMap fun i =>
    loadHeader m (elfProgramHeader m header i).val

/-- The end of a segment's contents, as the code computes it. -/
def LoadHeader.endAddress (h : LoadHeader) : Addr := h.vaddr + h.filesz

-- ============================================================ what is required

/-- The base is the lowest address of a segment, and where its contents
are. -/
structure LowestBase (hs : List LoadHeader) (file : ElfFile) : Prop where
  attained : ∃ h ∈ hs, file.virtBaseAddress = h.vaddr
    ∧ file.physBaseAddress = file.elfMem + h.offset
  lowest : ∀ h ∈ hs, file.virtBaseAddress.toNat ≤ h.vaddr.toNat

/-- The end is the highest end of a segment, and where its contents end. -/
structure HighestEnd (hs : List LoadHeader) (file : ElfFile) : Prop where
  attained : ∃ h ∈ hs,
    file.virtEndAddress.toNat = h.vaddr.toNat + h.filesz.toNat
      ∧ file.physEndAddress = file.elfMem + h.offset + h.filesz
  highest : ∀ h ∈ hs,
    h.vaddr.toNat + h.filesz.toNat ≤ file.virtEndAddress.toNat

/-- The extents of the segments, if there are any. -/
def Extents (hs : List LoadHeader) (file : ElfFile) : Prop :=
  hs ≠ [] → LowestBase hs file ∧ HighestEnd hs file

/-- No segment starts at zero, or the last one does; and no segment's end
is beyond the 32-bit addresses. -/
structure Plain (hs : List LoadHeader) : Prop where
  base : (∀ h ∈ hs, h.vaddr ≠ 0#32) ∨ ∃ h, hs.getLast? = some h ∧ h.vaddr = 0#32
  fits : ∀ h ∈ hs, h.vaddr.toNat + h.filesz.toNat < 2 ^ 32

-- ================================================================ one header

/-- `elf_process_phdr_pt_load`, the base, with the header at hand. -/
def lowerBase (file : ElfFile) (h : LoadHeader) : ElfFile :=
  if file.virtBaseAddress.toNat ≥ h.vaddr.toNat
      ∨ file.virtBaseAddress = 0#32 then
    { file with
      virtBaseAddress := h.vaddr, physBaseAddress := file.elfMem + h.offset }
  else file

/-- `elf_process_phdr_pt_load`, the end, with the header at hand. -/
def raiseEnd (file : ElfFile) (h : LoadHeader) : ElfFile :=
  if file.virtEndAddress.toNat ≤ h.endAddress.toNat
      ∨ file.virtEndAddress = 0#32 then
    { file with
      virtEndAddress := h.endAddress
      physEndAddress := file.elfMem + h.offset + h.filesz }
  else file

/-- What a `PT_LOAD` header changes. -/
def account (file : ElfFile) (h : LoadHeader) : ElfFile :=
  raiseEnd (lowerBase file h) h

section One

variable (file : ElfFile) (h : LoadHeader)

@[simp] theorem lowerBase_elfMem : (lowerBase file h).elfMem = file.elfMem := by
  unfold lowerBase
  split <;> rfl

@[simp] theorem lowerBase_virtEnd :
    (lowerBase file h).virtEndAddress = file.virtEndAddress := by
  unfold lowerBase
  split <;> rfl

@[simp] theorem lowerBase_physEnd :
    (lowerBase file h).physEndAddress = file.physEndAddress := by
  unfold lowerBase
  split <;> rfl

@[simp] theorem account_elfMem : (account file h).elfMem = file.elfMem := by
  unfold account raiseEnd
  split
  · exact lowerBase_elfMem file h
  · exact lowerBase_elfMem file h

/-- The base is left to the first half. -/
theorem account_base :
    (account file h).virtBaseAddress = (lowerBase file h).virtBaseAddress
      ∧ (account file h).physBaseAddress
        = (lowerBase file h).physBaseAddress := by
  unfold account raiseEnd
  split <;> exact ⟨rfl, rfl⟩

/-- The end is left to the second half. -/
theorem account_end :
    (account file h).virtEndAddress = (raiseEnd file h).virtEndAddress
      ∧ (account file h).physEndAddress = (raiseEnd file h).physEndAddress := by
  unfold account raiseEnd
  rw [lowerBase_virtEnd, lowerBase_elfMem]
  split
  · exact ⟨rfl, rfl⟩
  · exact ⟨lowerBase_virtEnd file h, lowerBase_physEnd file h⟩

end One

-- ================================================================== the table

variable (m : Bytes)

theorem elfLowerBase_val (file : ElfFile) (phdr vaddr filesz : Addr) :
    (elfLowerBase m file phdr vaddr).val
      = lowerBase file ⟨vaddr, load32 m (phdr + offPOffset), filesz⟩ := by
  unfold elfLowerBase lowerBase
  split <;> rfl

theorem elfRaiseEnd_val (file : ElfFile) (phdr vaddr filesz : Addr) :
    (elfRaiseEnd m file phdr (vaddr + filesz) filesz).val
      = raiseEnd file ⟨vaddr, load32 m (phdr + offPOffset), filesz⟩ := by
  unfold elfRaiseEnd raiseEnd LoadHeader.endAddress
  split <;> rfl

/-- A header that is read is accounted for, if it is of type `PT_LOAD`. -/
theorem elfProcessPheader_file (file : ElfFile) (phdr : Addr) :
    (elfProcessPheader m file phdr).val.2
      = (loadHeader m phdr).elim file (account file) := by
  unfold elfProcessPheader loadHeader
  rw [val_bind, val_ite]
  have htype : (read32 m (phdr + offPType)).val
      = load32 m (phdr + offPType) := rfl
  rw [htype]
  by_cases h : load32 m (phdr + offPType) = ptLoad
  · rw [if_pos h, if_pos h]
    unfold elfProcessPhdrPtLoad
    simp only [val_bind, val_pure, elfRaiseEnd_val]
    rw [elfLowerBase_val m file phdr _ (load32 m (phdr + offPFilesz))]
    rfl
  · rw [if_neg h, if_neg h]
    rfl

/-- The loop accounts for the headers from an index on. -/
theorem elfProcessPheadersLoop_file (header : Addr) (fuel : Nat) :
    ∀ (i : Nat) (file : ElfFile), ePhnum m header ≤ i + fuel →
      (elfProcessPheadersLoop m header fuel i 0 file).val.2
        = ((List.range' i (ePhnum m header - i)).filterMap fun i =>
            loadHeader m (elfProgramHeader m header i).val).foldl account
              file := by
  induction fuel with
  | zero =>
      intro i file hle
      rw [Nat.sub_eq_zero_of_le (by omega)]
      rfl
  | succ fuel ih =>
      intro i file hle
      have hnum : (read16 m (header + offEPhnum)).val.toNat
          = ePhnum m header := rfl
      unfold elfProcessPheadersLoop
      rw [val_bind, val_ite, hnum]
      by_cases hi : i < ePhnum m header
      · have hlen : ePhnum m header - i = (ePhnum m header - (i + 1)) + 1 := by
          omega
        rw [if_pos hi, val_bind, val_bind, val_ite, elfProcessPheader_val,
          if_neg (Int.lt_irrefl 0), ih _ _ (by omega), elfProcessPheader_file,
          hlen, List.range'_succ, List.filterMap_cons]
        cases loadHeader m (elfProgramHeader m header i).val with
        | none => rfl
        | some h => rfl
      · rw [if_neg hi, Nat.sub_eq_zero_of_le (by omega)]
        rfl

/-- The extents are those of the `PT_LOAD` headers, one after the other. -/
theorem elfProcessPheaders_file (file : ElfFile) :
    (elfProcessPheaders m file).val.2
      = (loadHeaders m file.elfMem).foldl account file := by
  have hlt := (load16 m (file.elfMem + offEPhnum)).isLt
  unfold elfProcessPheaders loadHeaders
  rw [elfProcessPheadersLoop_file m file.elfMem phnumLimit 0 file (by
    simp only [phnumLimit, ePhnum]; omega), List.range_eq_range']
  rfl

-- =================================================================== the fold

section Fold

variable (elfMem : Addr)

/-- The extents after a list of headers. -/
def extentsOf (hs : List LoadHeader) : ElfFile :=
  hs.foldl account (ElfFile.ofMem elfMem)

@[simp] theorem extentsOf_append_singleton (hs : List LoadHeader)
    (h : LoadHeader) :
    extentsOf elfMem (hs ++ [h]) = account (extentsOf elfMem hs) h :=
  List.foldl_append

@[simp] theorem extentsOf_elfMem (hs : List LoadHeader) :
    (extentsOf elfMem hs).elfMem = elfMem := by
  induction hs using List.reverseRecOn with
  | nil => rfl
  | append_singleton hs h ih =>
      rw [extentsOf_append_singleton, account_elfMem, ih]

/-- The base is that of a header. -/
theorem base_attained (hs : List LoadHeader) (hne : hs ≠ []) :
    ∃ h ∈ hs, (extentsOf elfMem hs).virtBaseAddress = h.vaddr
      ∧ (extentsOf elfMem hs).physBaseAddress = elfMem + h.offset := by
  induction hs using List.reverseRecOn with
  | nil => exact absurd rfl hne
  | append_singleton hs a ih =>
      obtain ⟨hvirt, hphys⟩ := account_base (extentsOf elfMem hs) a
      rw [extentsOf_append_singleton, hvirt, hphys]
      unfold lowerBase
      split
      case isTrue =>
        refine ⟨a, List.mem_append_right _ (List.mem_singleton_self a), rfl, ?_⟩
        rw [extentsOf_elfMem]
      case isFalse hkeep =>
        have hbefore : hs ≠ [] := fun hnil =>
          hkeep (Or.inr (by rw [hnil]; rfl))
        obtain ⟨h, hmem, hbase⟩ := ih hbefore
        exact ⟨h, List.mem_append_left _ hmem, hbase⟩

/-- The base is zero exactly where the last header starts there. -/
theorem base_zero_iff (hs : List LoadHeader) :
    (extentsOf elfMem hs).virtBaseAddress = 0#32
      ↔ ∀ h, hs.getLast? = some h → h.vaddr = 0#32 := by
  induction hs using List.reverseRecOn with
  | nil => exact iff_of_true rfl fun h hlast => nomatch hlast
  | append_singleton hs a _ =>
      obtain ⟨hvirt, -⟩ := account_base (extentsOf elfMem hs) a
      have hlast : (∀ h, (hs ++ [a]).getLast? = some h → h.vaddr = 0#32)
          ↔ a.vaddr = 0#32 := by
        rw [List.getLast?_concat]
        exact ⟨fun h => h a rfl, fun h _ heq => Option.some.inj heq ▸ h⟩
      rw [hlast, extentsOf_append_singleton, hvirt]
      unfold lowerBase
      split
      case isTrue => exact Iff.rfl
      case isFalse hkeep =>
        -- the base stays below a header that starts higher
        rw [not_or, not_le] at hkeep
        obtain ⟨hlt, hbase⟩ := hkeep
        refine iff_of_false hbase fun hzero => ?_
        rw [hzero] at hlt
        exact Nat.not_lt_zero _ hlt

/-- Where no header starts at zero, the base is the lowest. -/
theorem base_lowest (hs : List LoadHeader) (hne : ∀ h ∈ hs, h.vaddr ≠ 0#32) :
    ∀ h ∈ hs,
      (extentsOf elfMem hs).virtBaseAddress.toNat ≤ h.vaddr.toNat := by
  induction hs using List.reverseRecOn with
  | nil => exact fun h hmem => nomatch hmem
  | append_singleton hs a ih =>
      obtain ⟨hvirt, -⟩ := account_base (extentsOf elfMem hs) a
      have hbefore := ih fun h hmem => hne h (List.mem_append_left _ hmem)
      rw [extentsOf_append_singleton, hvirt]
      intro h hmem
      unfold lowerBase
      split
      case isTrue hlower =>
        rcases List.mem_append.mp hmem with hmem | hmem
        · rcases hlower with hge | hzero
          · exact Nat.le_trans hge (hbefore h hmem)
          · -- a base of zero is none at all: nothing was there before
            obtain ⟨h', hlast⟩ := List.getLast?_isSome.mpr
              (List.ne_nil_of_mem hmem) |> Option.isSome_iff_exists.mp
            have hvaddr := (base_zero_iff elfMem hs).mp hzero h' hlast
            exact absurd hvaddr (hne h' (List.mem_append_left _
              (List.mem_of_getLast? hlast)))
        · rw [List.mem_singleton.mp hmem]
      case isFalse hkeep =>
        rw [not_or, not_le] at hkeep
        rcases List.mem_append.mp hmem with hmem | hmem
        · exact hbefore h hmem
        · rw [List.mem_singleton.mp hmem]
          exact Nat.le_of_lt hkeep.1

/-- The end is that of a header. -/
theorem end_attained (hs : List LoadHeader) (hne : hs ≠ []) :
    ∃ h ∈ hs, (extentsOf elfMem hs).virtEndAddress = h.endAddress
      ∧ (extentsOf elfMem hs).physEndAddress
        = elfMem + h.offset + h.filesz := by
  induction hs using List.reverseRecOn with
  | nil => exact absurd rfl hne
  | append_singleton hs a ih =>
      obtain ⟨hvirt, hphys⟩ := account_end (extentsOf elfMem hs) a
      rw [extentsOf_append_singleton, hvirt, hphys]
      unfold raiseEnd
      split
      case isTrue =>
        refine ⟨a, List.mem_append_right _ (List.mem_singleton_self a), rfl, ?_⟩
        rw [extentsOf_elfMem]
      case isFalse hkeep =>
        have hbefore : hs ≠ [] := fun hnil =>
          hkeep (Or.inr (by rw [hnil]; rfl))
        obtain ⟨h, hmem, hend⟩ := ih hbefore
        exact ⟨h, List.mem_append_left _ hmem, hend⟩

/-- The end is the highest, as 32-bit numbers go. -/
theorem end_highest (hs : List LoadHeader) :
    ∀ h ∈ hs,
      h.endAddress.toNat ≤ (extentsOf elfMem hs).virtEndAddress.toNat := by
  induction hs using List.reverseRecOn with
  | nil => exact fun h hmem => nomatch hmem
  | append_singleton hs a ih =>
      obtain ⟨hvirt, -⟩ := account_end (extentsOf elfMem hs) a
      rw [extentsOf_append_singleton, hvirt]
      intro h hmem
      unfold raiseEnd
      split
      case isTrue hraise =>
        rcases List.mem_append.mp hmem with hmem | hmem
        · have hle := ih h hmem
          rcases hraise with hge | hzero
          · exact Nat.le_trans hle hge
          · rw [hzero] at hle
            exact Nat.le_trans hle (Nat.zero_le _)
        · rw [List.mem_singleton.mp hmem]
      case isFalse hkeep =>
        rw [not_or, not_le] at hkeep
        rcases List.mem_append.mp hmem with hmem | hmem
        · exact ih h hmem
        · rw [List.mem_singleton.mp hmem]
          exact Nat.le_of_lt hkeep.1

end Fold

-- ================================================================ the extents

/-- The base is right where no segment starts at zero, or the last one
does. -/
theorem lowestBase_iff (elfMem : Addr) {hs : List LoadHeader} (hne : hs ≠ []) :
    LowestBase hs (extentsOf elfMem hs)
      ↔ (∀ h ∈ hs, h.vaddr ≠ 0#32)
        ∨ ∃ h, hs.getLast? = some h ∧ h.vaddr = 0#32 := by
  have hlast := List.getLast?_eq_some_getLast hne
  constructor
  · rintro ⟨-, hlowest⟩
    by_cases hzero : ∃ h ∈ hs, h.vaddr = 0#32
    · obtain ⟨h, hmem, hvaddr⟩ := hzero
      have hle := hlowest h hmem
      rw [hvaddr] at hle
      have hbase : (extentsOf elfMem hs).virtBaseAddress = 0#32 :=
        BitVec.eq_of_toNat_eq (Nat.le_antisymm hle (Nat.zero_le _))
      exact Or.inr ⟨_, hlast, (base_zero_iff elfMem hs).mp hbase _ hlast⟩
    · exact Or.inl fun h hmem hvaddr => hzero ⟨h, hmem, hvaddr⟩
  · intro hplain
    refine ⟨?_, ?_⟩
    · rw [extentsOf_elfMem]
      exact base_attained elfMem hs hne
    · rcases hplain with hnone | ⟨h, hlast', hvaddr⟩
      · exact base_lowest elfMem hs hnone
      · have hbase := (base_zero_iff elfMem hs).mpr fun h' h'' => by
          rw [← Option.some.inj (hlast'.symm.trans h''), hvaddr]
        intro h _
        rw [hbase]
        exact Nat.zero_le _

/-- The end is right where all ends are 32-bit addresses. -/
theorem highestEnd_iff (elfMem : Addr) {hs : List LoadHeader} (hne : hs ≠ []) :
    HighestEnd hs (extentsOf elfMem hs)
      ↔ ∀ h ∈ hs, h.vaddr.toNat + h.filesz.toNat < 2 ^ 32 := by
  constructor
  · rintro ⟨-, hhighest⟩ h hmem
    exact Nat.lt_of_le_of_lt (hhighest h hmem) (BitVec.isLt _)
  · intro hfits
    have hsum : ∀ h ∈ hs,
        h.endAddress.toNat = h.vaddr.toNat + h.filesz.toNat := by
      intro h hmem
      unfold LoadHeader.endAddress
      rw [BitVec.toNat_add, Nat.mod_eq_of_lt (hfits h hmem)]
    obtain ⟨h, hmem, hvirt, hphys⟩ := end_attained elfMem hs hne
    refine ⟨⟨h, hmem, ?_, ?_⟩, fun h hmem => ?_⟩
    · rw [hvirt, hsum h hmem]
    · rw [hphys, extentsOf_elfMem]
    · rw [← hsum h hmem]
      exact end_highest elfMem hs h hmem

/-- For every table of program headers the extents of its segments are
recorded exactly where no segment starts at zero, or the last one does, and
none ends beyond the 32-bit addresses. -/
theorem extents_exact (m : Bytes) (elfMem : Addr) :
    Extents (loadHeaders m elfMem)
        (elfProcessPheaders m (ElfFile.ofMem elfMem)).val.2
      ↔ Plain (loadHeaders m elfMem) := by
  rw [elfProcessPheaders_file]
  show Extents _ (extentsOf elfMem _) ↔ _
  by_cases hne : loadHeaders m elfMem = []
  · rw [hne]
    refine iff_of_true (fun h => absurd rfl h) ⟨Or.inl ?_, ?_⟩
    · exact fun _ h => nomatch h
    · exact fun _ h => nomatch h
  · constructor
    · intro h
      obtain ⟨hbase, hend⟩ := h hne
      exact ⟨(lowestBase_iff elfMem hne).mp hbase,
        (highestEnd_iff elfMem hne).mp hend⟩
    · rintro ⟨hbase, hfits⟩ -
      exact ⟨(lowestBase_iff elfMem hne).mpr hbase,
        (highestEnd_iff elfMem hne).mpr hfits⟩

/-- A file at 0x1000 with two segments: the first starts at zero, the
second at 0x1000. -/
def zeroFirst : Bytes := fun a =>
  match (a - 0x1000#32).toNat with
  -- e_phoff, e_phnum
  | 28 => 52
  | 44 => 2
  -- p_type, p_offset, p_filesz
  | 52 => 1
  | 56 => 0x80
  | 68 => 0x10
  -- p_type, p_offset, p_vaddr, p_filesz
  | 84 => 1
  | 88 => 0x90
  | 93 => 0x10
  | 100 => 0x10
  | _ => 0

/-- The base is that of the second segment. -/
theorem zeroFirst_base :
    loadHeaders zeroFirst 0x1000#32
        = [⟨0#32, 0x80#32, 0x10#32⟩, ⟨0x1000#32, 0x90#32, 0x10#32⟩]
      ∧ (elfProcessPheaders zeroFirst
          (ElfFile.ofMem 0x1000#32)).val.2.virtBaseAddress = 0x1000#32
      ∧ ¬ Extents (loadHeaders zeroFirst 0x1000#32)
          (elfProcessPheaders zeroFirst (ElfFile.ofMem 0x1000#32)).val.2 := by
  have hheaders : loadHeaders zeroFirst 0x1000#32
      = [⟨0#32, 0x80#32, 0x10#32⟩, ⟨0x1000#32, 0x90#32, 0x10#32⟩] := by
    decide +kernel
  have hbase : (elfProcessPheaders zeroFirst
      (ElfFile.ofMem 0x1000#32)).val.2.virtBaseAddress = 0x1000#32 := by
    decide +kernel
  refine ⟨hheaders, hbase, fun h => ?_⟩
  rw [hheaders] at h
  obtain ⟨hlowest, -⟩ := h (List.cons_ne_nil _ _)
  have hle := hlowest.lowest _ List.mem_cons_self
  rw [hbase] at hle
  exact absurd hle (by decide)

end BenOS.Loader
