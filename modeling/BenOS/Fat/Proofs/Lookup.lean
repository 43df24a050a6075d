/-
Finding an entry of a directory by its name.

A `Directory` is a sequence of entries up to the first one that starts
with a zero byte; those before it that are not deleted are live, and each
live entry has a name of its own. A lookup compares the names of the
first `total` items of the array a directory was loaded into, deleted ones
as well, and makes an item of each that has the name
(`fat16FindItemInDir_eq`). So it finds the live entries, and nothing else,
exactly when these are the first `total` items in some order
(`looksUp_iff_perm`); where the array holds the directory from its front
on, when the live entries are its first `total` ones (`looksUp_iff`).
-/
import BenOS.Lib.Packed
import BenOS.Fat.Dir

namespace BenOS.Fat

open Lib Disk

variable {σ : Type}

-- ===================================================================== names

theorem istrncmp_self (str : List UInt8) (len : Nat) :
    istrncmp str str len = 0 := by
  induction len generalizing str with
  | zero => rfl
  | succ len ih =>
      unfold istrncmp
      simp only [ne_eq, not_true_eq_false, false_and, if_false, ih, ite_self]

/-- An entry answers to its full name. -/
theorem nameMatches_self (item : FatDirItem) :
    nameMatches item (fat16GetFullRelativeFilename item) = true := by
  unfold nameMatches
  rw [istrncmp_self]
  rfl

/-- Names that start with different bytes, one of them no letter, are
different. -/
theorem istrncmp_first {str1 str2 : List UInt8} {len : Nat}
    (hne : tolower (str1.headD 0) ≠ tolower (str2.headD 0)) :
    istrncmp str1 str2 (len + 1) ≠ 0 := by
  have hbyte : str1.headD 0 ≠ str2.headD 0 := fun h => hne (by rw [h])
  unfold istrncmp
  simp only
  rw [if_pos ⟨hbyte, hne⟩]
  intro hzero
  exact hbyte (UInt8.toNat_inj.mp (by omega))

theorem fname_cons (item : FatDirItem) :
    item.fname.toList = item.fname0 :: item.fname.toList.tail := by
  have hlen : item.fname.toList.length = 8 := item.fname.length_toList
  cases hcase : item.fname.toList with
  | nil => simp [hcase] at hlen
  | cons c cs =>
      have hget : item.fname.toList.get ⟨0, by omega⟩ = item.fname0 :=
        Vector.getElem_toList _
      simp only [List.get_eq_getElem, hcase, List.getElem_cons_zero] at hget
      rw [hget, List.tail_cons]

/-- The full name starts with the first byte of the entry, -/
theorem fullName_head {item : FatDirItem}
    (h : item.fname0 ≠ 0x00 ∧ item.fname0 ≠ 0x20) :
    (fat16GetFullRelativeFilename item).headD 0 = item.fname0 := by
  unfold fat16GetFullRelativeFilename
  rw [fname_cons, fat16ToProperString, if_pos h]
  simp only
  split <;> rfl

/-- or, where that is no part of a name, with the dot or the end. -/
theorem fullName_head_empty {item : FatDirItem}
    (h : ¬ (item.fname0 ≠ 0x00 ∧ item.fname0 ≠ 0x20)) :
    (fat16GetFullRelativeFilename item).headD 0 = 0x2E
      ∨ (fat16GetFullRelativeFilename item).headD 0 = 0x00 := by
  unfold fat16GetFullRelativeFilename
  rw [fname_cons, fat16ToProperString, if_neg h]
  simp only
  split
  · exact .inl rfl
  · exact .inr rfl

/-- The entry is deleted. -/
def FatDirItem.Deleted (item : FatDirItem) : Prop := item.fname0 = 0xE5

instance (item : FatDirItem) : Decidable item.Deleted :=
  inferInstanceAs (Decidable (_ = _))

theorem tolower_deleted {c : UInt8} (h : tolower c = 0xE5) : c = 0xE5 := by
  unfold tolower at h
  split at h
  · next hletter =>
      obtain ⟨hge, hle⟩ := hletter
      rw [UInt8.le_iff_toNat_le] at hge hle
      have hsum := congrArg UInt8.toNat h
      rw [UInt8.toNat_add] at hsum
      simp at hge hle hsum
      omega
  · exact h

/-- No other entry answers to the name of a deleted one. -/
theorem nameMatches_deleted {item deleted : FatDirItem}
    (hitem : ¬ item.Deleted) (hdeleted : deleted.Deleted) :
    nameMatches item (fat16GetFullRelativeFilename deleted) = false := by
  unfold FatDirItem.Deleted at hitem hdeleted
  have hhead : (fat16GetFullRelativeFilename deleted).headD 0 = 0xE5 := by
    rw [fullName_head (by rw [hdeleted]; decide), hdeleted]
  have hother : (fat16GetFullRelativeFilename item).headD 0 ≠ 0xE5 := by
    by_cases h : item.fname0 ≠ 0x00 ∧ item.fname0 ≠ 0x20
    · rwa [fullName_head h]
    · rcases fullName_head_empty h with h | h <;> rw [h] <;> decide
  unfold nameMatches
  rw [beq_eq_false_iff_ne]
  refine istrncmp_first fun heq => hother (tolower_deleted ?_)
  rw [heq, hhead]
  rfl

-- ==================================================================== finding

variable (al : Allocator σ) (vol : Volume) (items : List FatDirItem)
  (name : List UInt8)

/-- The loop makes an item of every entry with the name among those it
compares, and keeps the last. -/
theorem fat16FindLoop_eq (k : Nat) :
    ∀ (i : Nat) (r : Option FatItem × σ), i + k ≤ items.length →
      fat16FindLoop al vol items name k i r.1 r.2
        = (((items.drop i).take k).filter (nameMatches · name)).foldlM
          (fun r item => fat16NewFatItemForDirItem al vol item r.2) r := by
  induction k with
  | zero => intro i r _; rfl
  | succ k ih =>
      intro i r hlen
      have hi : i < items.length := by omega
      rw [fat16FindLoop, List.getElem?_eq_getElem hi,
        List.drop_eq_getElem_cons hi, List.take_succ_cons, List.filter_cons]
      simp only [Option.bind_eq_bind, Option.bind_some]
      split
      · rw [List.foldlM_cons]
        refine congrArg _ (funext fun r' => ?_)
        exact ih (i + 1) r' (by omega)
      · exact ih (i + 1) r (by omega)

/-- The entries of a loaded directory that a lookup makes an item of:
those of the counted ones that have the name. -/
def FatDir.answering (dir : FatDir) (name : List UInt8) : List FatDirItem :=
  (dir.items.take dir.total.toNat).filter (nameMatches · name)

/-- A lookup makes an item of every entry that answers, and keeps the
last. -/
theorem fat16FindItemInDir_eq {dir : FatDir}
    (hlen : dir.total.toNat ≤ dir.items.length) (s : σ) :
    fat16FindItemInDir al vol dir name s
      = (dir.answering name).foldlM
        (fun r item => fat16NewFatItemForDirItem al vol item r.2)
        (none, s) := by
  have hloop := fat16FindLoop_eq al vol dir.items name dir.total.toNat 0
    (none, s) (by omega)
  rwa [List.drop_zero] at hloop

/-- Where one entry answers, that one is found. -/
theorem fat16FindItemInDir_one {dir : FatDir} {item : FatDirItem}
    (hlen : dir.total.toNat ≤ dir.items.length)
    (h : dir.answering name = [item]) (s : σ) :
    fat16FindItemInDir al vol dir name s
      = fat16NewFatItemForDirItem al vol item s := by
  rw [fat16FindItemInDir_eq al vol name hlen, h, List.foldlM_cons]
  exact bind_pure _

/-- Where none answers, none is found. -/
theorem fat16FindItemInDir_none {dir : FatDir}
    (hlen : dir.total.toNat ≤ dir.items.length)
    (h : dir.answering name = []) (s : σ) :
    fat16FindItemInDir al vol dir name s = some (none, s) := by
  rw [fat16FindItemInDir_eq al vol name hlen, h]
  rfl

/-- The allocator has memory for every item. -/
def Answers (al : Allocator σ) : Prop :=
  ∀ s, (al.kzalloc sizeofFatItem s).1 ≠ none

/-- An item made with memory to spare is not null. -/
theorem fat16NewFatItemForDirItem_ne_null {al : Allocator σ}
    (hal : Answers al) (item : FatDirItem) (s s' : σ) :
    fat16NewFatItemForDirItem al vol item s ≠ some (none, s') := by
  have hsome := hal s
  unfold fat16NewFatItemForDirItem
  split
  · next hnone =>
      rw [hnone] at hsome
      exact absurd rfl hsome
  · split
    · intro h
      obtain ⟨r, -, hr⟩ := Option.bind_eq_some_iff.mp h
      cases hr
    · intro h
      cases h

-- =============================================================== directories

/-- A directory: its entries, up to the first that starts with a zero
byte. The entries before it that are not deleted have names of their own,
none of which is the name of the one that ends the directory. -/
structure Directory where
  entry : Nat → FatDirItem
  last : Nat
  ends : (entry last).fname0 = 0x00
  before : ∀ i < last, (entry i).fname0 ≠ 0x00
  distinct : ∀ i < last, ∀ j < last, ¬ (entry i).Deleted →
    ¬ (entry j).Deleted → ∀ name, nameMatches (entry i) name = true →
    nameMatches (entry j) name = true → i = j
  named : ∀ i < last, ¬ (entry i).Deleted →
    nameMatches (entry i) (fat16GetFullRelativeFilename (entry last)) = false

/-- The indices of the live entries. -/
def Directory.Live (D : Directory) (i : Nat) : Prop :=
  i < D.last ∧ ¬ (D.entry i).Deleted

instance (D : Directory) : DecidablePred D.Live :=
  fun _ => inferInstanceAs (Decidable (_ ∧ _))

/-- How many live entries there are. -/
def Directory.liveCount (D : Directory) : Nat := Nat.count D.Live D.last

/-- The live entries, as they stand in the directory. -/
def Directory.liveEntries (D : Directory) : List FatDirItem :=
  ((List.range D.last).filter fun i => decide (D.Live i)).map D.entry

/-- What is required of lookups in a directory that is loaded: a name a
live entry answers to leads to that entry and to no other, and any other
name to null. -/
structure LooksUp (vol : Volume) (D : Directory) (dir : FatDir) : Prop where
  found : ∀ (name : List UInt8) (i : Nat),
    D.Live i → nameMatches (D.entry i) name = true →
    dir.answering name = [D.entry i]
      ∧ ∀ {σ : Type} (al : Allocator σ) (s : σ),
        fat16FindItemInDir al vol dir name s
          = fat16NewFatItemForDirItem al vol (D.entry i) s
  missing : ∀ name : List UInt8,
    (∀ i, D.Live i → nameMatches (D.entry i) name = false) →
    dir.answering name = []
      ∧ ∀ {σ : Type} (al : Allocator σ) (s : σ),
        fat16FindItemInDir al vol dir name s = some (none, s)

/-- An allocator that always has memory. -/
def plenty : Allocator Unit where
  kzalloc := fun _ s => (some benosHeadAddress, s)
  kfree := fun _ s => s

theorem plenty_answers : Answers plenty := fun _ => Option.some_ne_none _

-- ============================================================ what is compared

variable {vol} {D : Directory} {dir : FatDir}

/-- One live entry answers to its name. -/
theorem Directory.liveEntries_one {name : List UInt8} {i : Nat}
    (hi : D.Live i) (hname : nameMatches (D.entry i) name = true) :
    D.liveEntries.filter (nameMatches · name) = [D.entry i] := by
  have hnodup : ((List.range D.last).filter fun i => decide (D.Live i)).Nodup :=
    List.nodup_range.filter _
  unfold Directory.liveEntries
  rw [List.filter_map, List.filter_filter]
  -- the indices that are left are `i` alone
  have hindex : (List.range D.last).filter (fun j =>
      ((nameMatches · name) ∘ D.entry) j && decide (D.Live j)) = [i] := by
    refine List.perm_singleton.mp ((List.perm_ext_iff_of_nodup
      (List.nodup_range.filter _) (List.nodup_singleton i)).mpr fun j => ?_)
    rw [List.mem_filter, List.mem_range, List.mem_singleton, Bool.and_eq_true,
      decide_eq_true_iff]
    constructor
    · rintro ⟨-, hj, hlive⟩
      exact D.distinct j hlive.1 i hi.1 hlive.2 hi.2 name hj hname
    · rintro rfl
      exact ⟨hi.1, hname, hi⟩
  rw [hindex]
  rfl

/-- No live entry answers to a name that none has. -/
theorem Directory.liveEntries_none {name : List UInt8}
    (h : ∀ i, D.Live i → nameMatches (D.entry i) name = false) :
    D.liveEntries.filter (nameMatches · name) = [] := by
  refine List.filter_eq_nil_iff.mpr fun item hitem => ?_
  obtain ⟨i, hi, rfl⟩ := List.mem_map.mp hitem
  have hlive := of_decide_eq_true (List.mem_filter.mp hi).2
  rw [h i hlive]
  exact Bool.false_ne_true

/-- Lookups are right if and only if the entries compared are the live
ones, in some order. -/
theorem looksUp_iff_perm (hlen : dir.total.toNat ≤ dir.items.length) :
    LooksUp vol D dir
      ↔ (dir.items.take dir.total.toNat).Perm D.liveEntries := by
  constructor
  · intro h
    have hsame : ∀ name, dir.answering name
        = D.liveEntries.filter (nameMatches · name) := by
      intro name
      by_cases hsome : ∃ i, D.Live i ∧ nameMatches (D.entry i) name = true
      · obtain ⟨i, hi, hname⟩ := hsome
        rw [(h.found name i hi hname).1, Directory.liveEntries_one hi hname]
      · have hnone : ∀ i, D.Live i → nameMatches (D.entry i) name = false :=
          fun i hi => Bool.eq_false_iff.mpr fun hname => hsome ⟨i, hi, hname⟩
        rw [(h.missing name hnone).1, Directory.liveEntries_none hnone]
    -- an entry is counted among those that answer to its own name
    refine List.perm_iff_count.mpr fun item => ?_
    have hfilter := congrArg (List.count item)
      (hsame (fat16GetFullRelativeFilename item))
    rwa [FatDir.answering, List.count_filter (by exact nameMatches_self item),
      List.count_filter (by exact nameMatches_self item)] at hfilter
  · intro h
    have hperm : ∀ name, (dir.answering name).Perm
        (D.liveEntries.filter (nameMatches · name)) :=
      fun name => h.filter _
    refine ⟨fun name i hi hname => ?_, fun name hnone => ?_⟩
    · have hone : dir.answering name = [D.entry i] := by
        have hp := hperm name
        rw [Directory.liveEntries_one hi hname] at hp
        exact List.perm_singleton.mp hp
      exact ⟨hone, fun al s => fat16FindItemInDir_one al vol name hlen hone s⟩
    · have hempty : dir.answering name = [] := by
        have hp := hperm name
        rw [Directory.liveEntries_none hnone] at hp
        exact hp.eq_nil
      exact ⟨hempty, fun al s => fat16FindItemInDir_none al vol name hlen hempty s⟩

/-- Where lookups are right, an entry of the directory that is compared is
live. -/
theorem LooksUp.live_of_lt (h : LooksUp vol D dir)
    (hitems : ∀ j ≤ D.last, j < dir.total.toNat →
      dir.items[j]? = some (D.entry j))
    {i : Nat} (hi : i < dir.total.toNat) : D.Live i := by
  -- an entry no live one has the name of would be found by its name
  have hwrong : ∀ m ≤ D.last, m < dir.total.toNat →
      ¬ ∀ j, D.Live j → nameMatches (D.entry j)
        (fat16GetFullRelativeFilename (D.entry m)) = false := by
    intro m hm hlt hnone
    have hmem : D.entry m ∈ dir.answering
        (fat16GetFullRelativeFilename (D.entry m)) := by
      refine List.mem_filter.mpr ⟨List.mem_iff_getElem?.mpr ⟨m, ?_⟩,
        nameMatches_self _⟩
      rw [List.getElem?_take_of_lt hlt]
      exact hitems m hm hlt
    rw [(h.missing _ hnone).1] at hmem
    exact List.not_mem_nil hmem
  have hlast : i < D.last := by
    by_contra hge
    exact hwrong D.last le_rfl (by omega) fun j hj => D.named j hj.1 hj.2
  refine ⟨hlast, fun hdeleted => ?_⟩
  exact hwrong i hlast.le hi fun j hj => nameMatches_deleted hj.2 hdeleted

/-- Where the entries compared are the directory's own, from its first one
on, lookups are right if and only if these are the live ones. -/
theorem looksUp_iff
    (hitems : ∀ j ≤ D.last, j < dir.total.toNat →
      dir.items[j]? = some (D.entry j)) :
    LooksUp vol D dir ↔ ∀ i, D.Live i ↔ i < dir.total.toNat := by
  constructor
  · intro h i
    refine ⟨fun hlive => ?_, h.live_of_lt hitems⟩
    -- the live entry is one of those compared, at an index of its own
    have hmem : D.entry i ∈ dir.answering
        (fat16GetFullRelativeFilename (D.entry i)) := by
      rw [(h.found _ i hlive (nameMatches_self _)).1]
      exact List.mem_singleton.mpr rfl
    obtain ⟨j, hj⟩ := List.mem_iff_getElem?.mp (List.mem_filter.mp hmem).1
    have hlt : j < dir.total.toNat := by
      by_contra hge
      rw [List.getElem?_eq_none (by rw [List.length_take]; omega)] at hj
      cases hj
    have hjlive := h.live_of_lt hitems hlt
    rw [List.getElem?_take_of_lt hlt, hitems j hjlive.1.le hlt] at hj
    have hname := nameMatches_self (D.entry i)
    have hindex := D.distinct j hjlive.1 i hlive.1 hjlive.2 hlive.2 _
      (by rw [Option.some.inj hj]; exact hname) hname
    omega
  · intro h
    have hitem : ∀ j < dir.total.toNat, dir.items[j]? = some (D.entry j) :=
      fun j hj => hitems j ((h j).mpr hj).1.le hj
    have hle : dir.total.toNat ≤ D.last := by
      by_contra hgt
      exact lt_irrefl _ ((h D.last).mpr (by omega)).1
    have hlen : dir.total.toNat ≤ dir.items.length := by
      by_contra hlt
      have hnone := hitem dir.items.length (by omega)
      rw [List.getElem?_eq_none le_rfl] at hnone
      cases hnone
    have hcompared : dir.items.take dir.total.toNat
        = (List.range dir.total.toNat).map D.entry := by
      refine List.ext_getElem? fun j => ?_
      by_cases hj : j < dir.total.toNat
      · rw [List.getElem?_take_of_lt hj, hitem j hj, List.getElem?_map,
          List.getElem?_range hj, Option.map_some]
      · rw [List.getElem?_eq_none (by rw [List.length_take]; omega),
          List.getElem?_eq_none (by rw [List.length_map, List.length_range]; omega)]
    have hlive : (List.range D.last).filter (fun i => decide (D.Live i))
        = List.range dir.total.toNat := by
      rw [← Nat.add_sub_cancel' hle, List.range_add, List.filter_append,
        List.filter_eq_self.mpr fun i hi =>
          decide_eq_true ((h i).mpr (List.mem_range.mp hi)),
        List.filter_eq_nil_iff.mpr fun i hi => ?_, List.append_nil]
      obtain ⟨k, -, rfl⟩ := List.mem_map.mp hi
      rw [decide_eq_true_iff, h]
      omega
    rw [looksUp_iff_perm hlen, hcompared, Directory.liveEntries, hlive]

end BenOS.Fat
