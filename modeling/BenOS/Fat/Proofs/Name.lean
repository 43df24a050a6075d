/-
The name of a directory entry, and when a path component matches it.

An entry spells its name in the two fields of an 8.3 name: each field up
to its first NUL or space, with a dot between them where there is an
extension (`shortName`). A component matches when it is that name up to
the case of its letters (`nameMatches_iff`).

The code builds the name in a buffer. While it does so, the buffer spells
what there is of the name so far and is zero from there on (`Builds`), so
that the offset to write at is always the length of the name. Building
reads no byte outside the fields and, apart from the call of `memset`
that clears all of the buffer, writes the first 13 bytes of it at most
(`name_matching`).
-/
import Mathlib.Data.List.GetD
import Mathlib.Data.List.TakeWhile
import BenOS.Fat.Name
import BenOS.Fat.Proofs.Lookup

namespace BenOS.Fat

open Lib Traced

-- ======================================================== names of two fields

/-- Two characters are the same letter, or the same character. -/
def SameLetter (a b : UInt8) : Prop :=
  a = b ∨ (65 ≤ a ∧ a ≤ 90 ∧ b = a + 32) ∨ (65 ≤ b ∧ b ≤ 90 ∧ a = b + 32)

instance : DecidableRel SameLetter := fun _ _ =>
  inferInstanceAs (Decidable (_ ∨ _))

/-- Two strings are the same up to the case of ASCII letters. -/
def SameUpToCase (str1 str2 : List UInt8) : Prop :=
  List.Forall₂ SameLetter str1 str2

instance : DecidableRel SameUpToCase := fun str1 str2 =>
  inferInstanceAs (Decidable (List.Forall₂ SameLetter str1 str2))

/-- Neither NUL nor space. -/
def inText (c : UInt8) : Bool := c ≠ 0x00 ∧ c ≠ 0x20

/-- The part of a field before its first NUL or space. -/
def fieldText (field : List UInt8) : List UInt8 := field.takeWhile inText

/-- The name that the two fields of an entry spell. -/
def shortName (item : FatDirItem) : List UInt8 :=
  fieldText item.fname.toList
    ++ if item.ext0 = 0x00 ∨ item.ext0 = 0x20 then []
      else 0x2E :: fieldText item.ext.toList

theorem fat16ToProperString_eq (field : List UInt8) :
    fat16ToProperString field = fieldText field := by
  unfold fieldText
  induction field with
  | nil => rfl
  | cons c cs ih =>
      unfold fat16ToProperString
      by_cases hc : c ≠ 0x00 ∧ c ≠ 0x20
      · have htext : inText c = true := decide_eq_true hc
        rw [if_pos hc, ih, List.takeWhile_cons_of_pos htext]
      · have htext : ¬ inText c = true := mt of_decide_eq_true hc
        rw [if_neg hc, List.takeWhile_cons_of_neg htext]

/-- The code spells an entry by its two fields. -/
theorem fat16GetFullRelativeFilename_eq (item : FatDirItem) :
    fat16GetFullRelativeFilename item = shortName item := by
  have hext0 : item.ext[0] = item.ext0 := rfl
  unfold fat16GetFullRelativeFilename shortName
  simp only [fat16ToProperString_eq, hext0]
  by_cases hext : item.ext0 = 0x00 ∨ item.ext0 = 0x20
  · rw [if_neg (by rwa [← not_or, not_not]), if_pos hext, List.append_nil]
  · rw [if_pos (not_or.mp hext), if_neg hext]

/-- A field spells no NUL. -/
theorem fieldText_no_nul (field : List UInt8) : 0x00 ∉ fieldText field := by
  intro hmem
  have hkept : inText 0x00 = true := List.mem_takeWhile_imp hmem
  cases hkept

theorem shortName_no_nul (item : FatDirItem) : 0x00 ∉ shortName item := by
  unfold shortName
  rw [List.mem_append]
  rintro (hmem | hmem)
  · exact fieldText_no_nul _ hmem
  · split at hmem
    · cases hmem
    · rcases List.mem_cons.mp hmem with hdot | hmem
      · cases hdot
      · exact fieldText_no_nul _ hmem

theorem fieldText_length_le (field : List UInt8) :
    (fieldText field).length ≤ field.length :=
  (List.takeWhile_prefix _).length_le

/-- A name has at most 12 characters. -/
theorem shortName_length_le (item : FatDirItem) :
    (shortName item).length ≤ 12 := by
  have hfname := fieldText_length_le item.fname.toList
  have hext := fieldText_length_le item.ext.toList
  rw [Vector.length_toList] at hfname hext
  unfold shortName
  rw [List.length_append]
  split
  · rw [List.length_nil]
    omega
  · rw [List.length_cons]
    omega

-- =================================================================== comparing

/-- `tolower` maps two characters to one exactly when they are the same
letter. -/
theorem tolower_eq_iff {a b : UInt8} :
    tolower a = tolower b ↔ SameLetter a b := by
  unfold SameLetter tolower
  simp only [UInt8.le_iff_toNat_le, ← UInt8.toNat_inj]
  have ha := a.toNat_lt
  have hb := b.toNat_lt
  split <;> split <;> simp only [UInt8.toNat_add, UInt8.reduceToNat] at * <;>
    omega

theorem tolower_ne_zero {c : UInt8} (hc : c ≠ 0) : tolower c ≠ tolower 0 := by
  intro h
  rw [tolower_eq_iff] at h
  rcases h with h | ⟨hge, hle, hzero⟩ | ⟨hge, -, -⟩
  · exact hc h
  · rw [UInt8.le_iff_toNat_le] at hge hle
    have hsum := congrArg UInt8.toNat hzero
    simp only [UInt8.toNat_add, UInt8.reduceToNat] at hge hle hsum
    omega
  · exact absurd hge (by decide)

/-- Within its length the comparison looks at nothing but the characters,
behind the end of a string taken as NUL. -/
theorem istrncmp_congr {str str' : List UInt8} (t : List UInt8) (len : Nat)
    (h : ∀ i < len, str.getD i 0 = str'.getD i 0) :
    istrncmp str t len = istrncmp str' t len := by
  induction len generalizing str str' t with
  | zero => rfl
  | succ len ih =>
      have hhead : str.headD 0 = str'.headD 0 := by
        have := h 0 (Nat.succ_pos len)
        cases str <;> cases str' <;> exact this
      have htail : ∀ i < len, str.tail.getD i 0 = str'.tail.getD i 0 := by
        intro i hi
        have := h (i + 1) (Nat.succ_lt_succ hi)
        cases str <;> cases str' <;> exact this
      unfold istrncmp
      rw [hhead, ih t.tail htail]

/-- Where the characters are the same letter, the rest decides. -/
theorem istrncmp_cons {a b : UInt8} {str1 str2 : List UInt8} {len : Nat}
    (ha : a ≠ 0) (hab : tolower a = tolower b) :
    istrncmp (a :: str1) (b :: str2) (len + 1) = istrncmp str1 str2 len :=
  (if_neg fun h => h.2 hab).trans (if_neg ha)

/-- A string shorter than the bound compares as equal to those that are
the same up to case, and to no others. -/
theorem istrncmp_eq_zero_iff {str1 str2 : List UInt8} {len : Nat}
    (h1 : 0x00 ∉ str1) (h2 : 0x00 ∉ str2) (hlen : str1.length < len) :
    istrncmp str1 str2 len = 0 ↔ SameUpToCase str1 str2 := by
  unfold SameUpToCase
  induction len generalizing str1 str2 with
  | zero => exact absurd hlen (Nat.not_lt_zero _)
  | succ len ih =>
      cases str1 with
      | nil =>
          cases str2 with
          | nil => exact iff_of_true rfl .nil
          | cons b str2 =>
              -- the first string ends before the second
              have hb : b ≠ 0 := fun h => h2 (h ▸ List.mem_cons_self)
              refine iff_of_false ?_ (by rintro ⟨⟩)
              apply istrncmp_first
              exact (tolower_ne_zero hb).symm
      | cons a str1 =>
          have ha : a ≠ 0 := fun h => h1 (h ▸ List.mem_cons_self)
          cases str2 with
          | nil =>
              refine iff_of_false ?_ (by rintro ⟨⟩)
              apply istrncmp_first
              exact tolower_ne_zero ha
          | cons b str2 =>
              rw [List.forall₂_cons, ← tolower_eq_iff]
              by_cases hab : tolower a = tolower b
              · have hrest := ih (fun h => h1 (List.mem_cons_of_mem a h))
                  (fun h => h2 (List.mem_cons_of_mem b h))
                  (Nat.lt_of_succ_lt_succ hlen)
                rw [istrncmp_cons ha hab, hrest]
                exact (and_iff_right hab).symm
              · refine iff_of_false ?_ (fun h => hab h.1)
                apply istrncmp_first
                exact hab

/-- A component matches an entry exactly when it is the name of the entry
up to case. -/
theorem nameMatches_iff {item : FatDirItem} {name : List UInt8}
    (hname : 0x00 ∉ name) :
    nameMatches item name = true ↔ SameUpToCase (shortName item) name := by
  have hlen := shortName_length_le item
  unfold nameMatches
  rw [beq_iff_eq, fat16GetFullRelativeFilename_eq]
  apply istrncmp_eq_zero_iff (shortName_no_nul item) hname
  exact Nat.lt_of_le_of_lt hlen (by decide)

-- ==================================================================== building

/-- The first `n` characters of a buffer are those of a string, and zero
behind its end. -/
def Spells (n : Nat) (buf : NameBuffer) (str : List UInt8) : Prop :=
  ∀ i < n, buf i = str.getD i 0

section Spells

variable {n : Nat} {buf : NameBuffer} {str : List UInt8}

theorem spells_nil (buf : NameBuffer) (n : Nat) :
    Spells n (buf.memset 0x00 n).val [] :=
  fun _ hi => if_pos hi

/-- A character written behind the string becomes its last, -/
theorem Spells.put (h : Spells n buf str) (c : UInt8) :
    Spells n (buf.put str.length c).val (str ++ [c]) := by
  intro i hi
  rcases lt_trichotomy i str.length with hlt | heq | hgt
  · exact (Function.update_of_ne hlt.ne _ _).trans
      ((h i hi).trans (List.getD_append _ _ _ _ hlt).symm)
  · subst heq
    rw [List.getD_append_right _ _ _ _ le_rfl, Nat.sub_self]
    exact Function.update_self _ _ _
  · have hold := h i hi
    rw [List.getD_eq_default _ _ hgt.le] at hold
    rw [List.getD_eq_default _ _ (by rw [List.length_append]; exact hgt)]
    exact (Function.update_of_ne hgt.ne' _ _).trans hold

/-- and a NUL written there changes nothing. -/
theorem Spells.terminate (h : Spells n buf str) :
    Spells n (buf.put str.length 0x00).val str := by
  intro i hi
  by_cases heq : i = str.length
  · subst heq
    rw [List.getD_eq_default _ _ le_rfl]
    exact Function.update_self _ _ _
  · exact (Function.update_of_ne heq _ _).trans (h i hi)

/-- The comparison takes the buffer for the string it spells. -/
theorem Spells.istrncmp (h : Spells n buf str) (name : List UInt8) :
    istrncmp ((List.range n).map buf) name n = istrncmp str name n := by
  apply istrncmp_congr
  intro i hi
  rw [← h i hi, List.getD_eq_getElem?_getD, List.getElem?_map,
    List.getElem?_range hi]
  rfl

end Spells

/-- A computation leaves the buffer, which is part of its result, with a
string in it, and accesses only what `P` allows. -/
def Builds {α : Type} (P : NameAccess → Prop) (n : Nat)
    (x : Traced NameAccess (Option α)) (result : NameBuffer → α)
    (str : List UInt8) : Prop :=
  ∃ buf, x.val = some (result buf) ∧ Spells n buf str ∧ Logs P x

section Builds

variable {α β : Type} {P : NameAccess → Prop} {n : Nat}
  {result : NameBuffer → α} {str : List UInt8} {buf : NameBuffer}

theorem builds_pure (result : NameBuffer → α) (h : Spells n buf str) :
    Builds P n (pure (some (result buf))) result str :=
  ⟨buf, rfl, h, logs_pure _⟩

theorem Builds.after {x : Traced NameAccess β}
    {f : β → Traced NameAccess (Option α)} (h : Builds P n (f x.val) result str)
    (hx : Logs P x) : Builds P n (x >>= f) result str := by
  obtain ⟨buf, hval, hbuf, hlogs⟩ := h
  exact ⟨buf, hval, hbuf, logs_bind hx hlogs⟩

variable {read : Nat → NameAccess} {size : Nat}

/-- The loop of `fat16_to_proper_string` appends the text of what is left
of its field. -/
theorem fat16ToProperStringLoop_builds (hsize : size < 4294967296) :
    ∀ (cs : List UInt8) (i : Nat) (str : List UInt8) (buf : NameBuffer),
      cs ≠ [] → i + cs.length = size → Spells n buf str →
      (∀ j < size, P (read j)) → (∀ o < str.length + cs.length, P (.out o)) →
      Builds P n (fat16ToProperStringLoop read size cs i str.length buf)
        (Prod.mk (str ++ fieldText cs).length) (str ++ fieldText cs) := by
  intro cs
  induction cs with
  | nil => exact fun _ _ _ hne => absurd rfl hne
  | cons c cs ih =>
      intro i str buf _ hi hbuf hread hout
      rw [List.length_cons] at hi hout
      have hlook : P (read i) := hread i (by omega)
      unfold fat16ToProperStringLoop fieldText
      by_cases hc : c ≠ 0x00 ∧ c ≠ 0x20
      · have htext : inText c = true := decide_eq_true hc
        have hput : Logs P (buf.put str.length c) :=
          logs_look (hout _ (by omega)) _
        have hlen : (str ++ [c]).length = str.length + 1 := List.length_append
        rw [List.takeWhile_cons_of_pos htext]
        refine .after ?_ (logs_look hlook c)
        rw [val_look, if_pos hc]
        refine .after ?_ hput
        by_cases hlast : (i : Int) ≥ toUint32 (size - 1)
        · -- the last byte of the field
          have hcs : cs = [] := by
            unfold toUint32 at hlast
            apply List.eq_nil_of_length_eq_zero
            omega
          rw [if_pos hlast, hcs, List.takeWhile_nil, ← hlen]
          exact builds_pure (Prod.mk _) (hbuf.put c)
        · have hcs : cs ≠ [] := by
            rintro rfl
            unfold toUint32 at hlast
            rw [List.length_nil] at hi
            omega
          have happ := List.append_cons str c (fieldText cs)
          unfold fieldText at happ
          rw [if_neg hlast, ← hlen, happ]
          refine ih (i + 1) (str ++ [c]) _ hcs (by omega) (hbuf.put c) hread ?_
          intro o ho
          rw [hlen] at ho
          exact hout o (by omega)
      · have htext : ¬ inText c = true := mt of_decide_eq_true hc
        rw [List.takeWhile_cons_of_neg htext, List.append_nil]
        refine .after ?_ (logs_look hlook c)
        rw [val_look, if_neg hc]
        exact builds_pure (Prod.mk _) hbuf

/-- `fat16_to_proper_string` appends the text of its field. -/
theorem fat16ToProperStringLogged_builds {field : List UInt8} (hsize : size < 4294967296)
    (hne : field ≠ []) (hlen : field.length = size) (hbuf : Spells n buf str)
    (hread : ∀ j < size, P (read j))
    (hout : ∀ o ≤ str.length + size, P (.out o)) :
    Builds P n (fat16ToProperStringLogged read field size str.length buf)
      (Prod.mk (str ++ fieldText field).length) (str ++ fieldText field) := by
  have htext := fieldText_length_le field
  obtain ⟨buf', hval, hbuf', hlogs⟩ := fat16ToProperStringLoop_builds hsize
    field 0 str buf hne (by omega) hbuf hread
    (fun o ho => hout o (by omega))
  have hend : P (.out (str ++ fieldText field).length) := by
    apply hout
    rw [List.length_append]
    omega
  unfold fat16ToProperStringLogged
  refine .after ?_ hlogs
  rw [hval]
  refine .after ?_ (logs_look hend _)
  exact builds_pure (Prod.mk _) hbuf'.terminate

end Builds

/-- What building a name may access: the bytes of the two fields, the
whole buffer to clear it, and its first 13 bytes. -/
def NameAccess.Within (maxLen : Nat) : NameAccess → Prop
  | .fname i => i < 8
  | .ext i => i < 3
  | .clear size => size = maxLen
  | .out i => i < 13

/-- `fat16_get_full_relative_filename` leaves the name of the entry in the
buffer. -/
theorem fat16GetFullRelativeFilenameLogged_builds (item : FatDirItem)
    (maxLen : Nat) (buf : NameBuffer) :
    Builds (NameAccess.Within maxLen) maxLen
      (fat16GetFullRelativeFilenameLogged item maxLen buf) id
      (shortName item) := by
  have hclear : NameAccess.Within maxLen (.clear maxLen) := rfl
  have hreadFname : ∀ j < 8, NameAccess.Within maxLen (.fname j) :=
    fun _ hj => hj
  have hreadExt : ∀ j < 3, NameAccess.Within maxLen (.ext j) := fun _ hj => hj
  have hout : ∀ o ≤ 12, NameAccess.Within maxLen (.out o) :=
    fun _ ho => Nat.lt_succ_of_le ho
  have hfname : item.fname.toList.length = 8 := item.fname.length_toList
  have hext : item.ext.toList.length = 3 := item.ext.length_toList
  have htext := fieldText_length_le item.fname.toList
  obtain ⟨buf₁, hval₁, hbuf₁, hlogs₁⟩ := fat16ToProperStringLogged_builds
    (by decide) (List.ne_nil_of_length_pos (by omega)) hfname
    (spells_nil buf maxLen) hreadFname
    (fun o ho => hout o (ho.trans (by decide)))
  rw [List.nil_append] at hval₁ hbuf₁
  rw [List.length_nil] at hval₁ hlogs₁
  unfold fat16GetFullRelativeFilenameLogged shortName
  refine .after ?_ (logs_look hclear _)
  refine .after ?_ hlogs₁
  rw [hval₁]
  refine .after ?_ (logs_look (hreadExt 0 (by decide)) _)
  rw [val_look]
  by_cases hblank : item.ext0 = 0x00 ∨ item.ext0 = 0x20
  · rw [if_pos hblank, if_neg (by rwa [← not_or, not_not]), List.append_nil]
    exact builds_pure id hbuf₁
  · rw [if_neg hblank, if_pos (not_or.mp hblank), List.append_cons]
    have hdot : (fieldText item.fname.toList ++ [0x2E]).length
        = (fieldText item.fname.toList).length + 1 := List.length_append
    obtain ⟨buf₂, hval₂, hbuf₂, hlogs₂⟩ := fat16ToProperStringLogged_builds
      (by decide) (List.ne_nil_of_length_pos (by omega)) hext
      (hbuf₁.put 0x2E) hreadExt (fun o ho => hout o (by omega))
    rw [hdot] at hval₂ hlogs₂
    refine .after ?_ (logs_look (hout _ (by omega)) _)
    refine .after ?_ hlogs₂
    rw [hval₂]
    exact builds_pure id hbuf₂

/-- The test on the buffer is the test on the name, and it accesses what
building the name accesses. -/
theorem nameMatchesLogged_spec (item : FatDirItem) (name : List UInt8)
    (tmpFilename : NameBuffer) :
    (nameMatchesLogged item name tmpFilename).val
        = some (nameMatches item name)
      ∧ Logs (NameAccess.Within benosMaxPath)
          (nameMatchesLogged item name tmpFilename) := by
  obtain ⟨out, hval, hout, hlogs⟩ :=
    fat16GetFullRelativeFilenameLogged_builds item benosMaxPath tmpFilename
  unfold nameMatchesLogged nameMatches
  rw [val_bind, hval, fat16GetFullRelativeFilename_eq]
  refine ⟨?_, logs_bind hlogs ?_⟩
  · show some _ = some _
    rw [id_eq, hout.istrncmp name]
  · rw [hval]
    exact logs_pure _

-- =================================================================== the result

/-- A component matches an entry exactly when it is, up to the case of its
letters, what the fields of the entry spell. Building the name to compare
with reads nothing but the bytes of the fields and, apart from the call of
`memset` that clears the buffer, writes the first 13 bytes of it at
most. -/
theorem name_matching (item : FatDirItem) (name : List UInt8)
    (tmpFilename : NameBuffer) (hname : 0x00 ∉ name) :
    (∃ found, (nameMatchesLogged item name tmpFilename).val = some found
        ∧ (found = true ↔ SameUpToCase (shortName item) name))
      ∧ ∀ access ∈ (nameMatchesLogged item name tmpFilename).log,
          access.Within benosMaxPath := by
  obtain ⟨hval, hlogs⟩ := nameMatchesLogged_spec item name tmpFilename
  exact ⟨⟨nameMatches item name, hval, nameMatches_iff hname⟩, hlogs⟩

/-- Clearing the buffer writes all of it. -/
theorem le_length_bytesWritten {log : List NameAccess} {size : Nat}
    (h : .clear size ∈ log) : size ≤ (bytesWritten log).length := by
  have hsub : List.range size ⊆ bytesWritten log := by
    intro i hi
    unfold bytesWritten
    rw [List.mem_dedup, List.mem_flatMap]
    exact ⟨.clear size, h, hi⟩
  calc size = (List.range size).length := List.length_range.symm
    _ ≤ (bytesWritten log).length :=
        (List.nodup_range.subperm hsub).length_le

/-- The entry of `SHELL.ELF`. -/
def shellEntry : FatDirItem where
  fname := #v[0x53, 0x48, 0x45, 0x4C, 0x4C, 0x20, 0x20, 0x20]
  ext := #v[0x45, 0x4C, 0x46]
  attributes := 0x00
  high16BitsFirstCluster := 0
  low16BitsFirstCluster := 0
  fileSize := 0

/-- The component `shell.elf` matches it. -/
theorem name_matching_shell :
    (nameMatchesLogged shellEntry
        [0x73, 0x68, 0x65, 0x6C, 0x6C, 0x2E, 0x65, 0x6C, 0x66] fun _ => 0xCC).val
      = some true := by
  obtain ⟨⟨found, hval, hfound⟩, -⟩ := name_matching shellEntry
    [0x73, 0x68, 0x65, 0x6C, 0x6C, 0x2E, 0x65, 0x6C, 0x66] (fun _ => 0xCC)
    (by decide)
  rw [hval, hfound.mpr (by decide)]

/-- All of the buffer is written, not 13 bytes of it: it is cleared first. -/
theorem name_clears_buffer :
    ¬ (bytesWritten (fat16GetFullRelativeFilenameLogged shellEntry benosMaxPath
        fun _ => 0xCC).log).length ≤ 13 := by
  have hclear : .clear benosMaxPath ∈ (fat16GetFullRelativeFilenameLogged
      shellEntry benosMaxPath fun _ => 0xCC).log :=
    List.mem_cons_self
  have hall := le_length_bytesWritten hclear
  intro hfew
  exact absurd (hall.trans hfew) (by decide)

end BenOS.Fat
