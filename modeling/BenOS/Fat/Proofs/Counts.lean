/-
The count of a directory against the array of its entries.

The count is of the disk: it goes on to the first zero byte wherever that
is (`HasEnd`), and without one for ever. The array of a subdirectory is
made from the count and so has as many entries. That of the root directory
has what the boot sector says, which may be fewer: of a full root directory
the scan counts into the data behind it (`directory_counts`).
-/
import BenOS.Fat.Proofs.Guarded

namespace BenOS.Fat

open Lib Disk

variable {σ : Type}

-- =================================================================== the scan

/-- A scan meets its end mark, or an entry that cannot be read, before its
positions have come round. -/
theorem scan_stop_le {start : Int} {stop : Nat}
    (hrange : toInt32 start = start) (hblock : start % benosSectorSize = 0)
    (hreads : ∀ k ≤ stop,
      Readable (toInt32 (start + sizeofFatDirItem * (k : Nat)))) :
    stop ≤ 67108864 := by
  have hge := toInt32_ge start
  have hlt := toInt32_lt start
  rw [hrange] at hge hlt
  simp only [benosSectorSize] at hblock
  rcases Int.lt_or_le start 0 with hneg | hpos
  · -- the second entry is in front of the disk
    by_contra hmore
    have hread := hreads 1 (by omega)
    rw [toInt32_of_range (by simp only [sizeofFatDirItem]; omega)
      (by simp only [sizeofFatDirItem]; omega)] at hread
    rcases hread with hread | hread
    · simp only [sizeofFatDirItem] at hread
      omega
    · simp only [sizeofFatDirItem, benosSectorSize] at hread
      omega
  · have hstop := scan_wraps (k := (2147483680 - start).toNat / 32)
      (by simp only [sizeofFatDirItem]; omega) hreads
    omega

/-- Where there is an end mark, the entries are counted. -/
theorem fat16GetTotalItemsForDir_of_hasEnd {disk : Image UInt8} (sector : Int)
    (h : HasEnd disk (toInt32 (sector * benosSectorSize))) :
    ∃ n, fat16GetTotalItemsForDir disk sector = some n := by
  obtain ⟨stop, hends, hreads⟩ := h
  have hle := scan_stop_le (toInt32_toInt32 _) (sectorPos_block sector) hreads
  unfold fat16GetTotalItemsForDir
  exact fat16ScanDir_total stop 0 (by simp only [scanLimit]; omega)
    (toInt32_toInt32 _) hends hreads

-- =================================================================== the array

@[simp] theorem itemsOfBytes_length (n : Nat) (bytes : List UInt8) :
    (itemsOfBytes n bytes).length = n := by
  induction n generalizing bytes with
  | zero => rfl
  | succ n ih => rw [itemsOfBytes, List.length_cons, ih]

/-- The count of a directory is one of entries its array has, and a search
in it stays within the array. -/
structure Counted (dir : FatDir) : Prop where
  nonneg : 0 ≤ dir.total
  within : dir.total ≤ dir.items.length
  inBounds : ∀ i < dir.total.toNat, dir.items[i]? ≠ none

theorem counted_iff {dir : FatDir} :
    Counted dir ↔ 0 ≤ dir.total ∧ dir.total ≤ dir.items.length := by
  constructor
  · intro h
    exact ⟨h.nonneg, h.within⟩
  · rintro ⟨hnonneg, hwithin⟩
    refine ⟨hnonneg, hwithin, fun i hi => ?_⟩
    rw [List.getElem?_eq_getElem (by omega)]
    exact Option.some_ne_none _

/-- A search whose count is past its array reads outside of it. -/
theorem fat16FindLoop_outside {al : Allocator σ} {vol : Volume}
    {items : List FatDirItem} {name : List UInt8} (k : Nat) :
    ∀ {i : Nat} (fItem : Option FatItem) (s : σ), 0 < k →
      items.length < i + k →
      fat16FindLoop al vol items name k i fItem s = none := by
  induction k with
  | zero => exact fun _ _ hk => absurd hk (Nat.lt_irrefl 0)
  | succ k ih =>
      intro i fItem s _ hlen
      rw [fat16FindLoop]
      rcases Nat.lt_or_ge i items.length with hi | hi
      · have hmore : 0 < k := by omega
        rw [List.getElem?_eq_getElem hi, Option.bind_eq_bind, Option.bind_some]
        split
        · apply Option.bind_eq_none_iff.mpr
          rintro ⟨fItem', s'⟩ -
          exact ih fItem' s' hmore (by omega)
        · exact ih fItem s hmore (by omega)
      · rw [List.getElem?_eq_none hi]
        rfl

/-- A search in a directory with too high a count has no outcome. -/
theorem fat16FindItemInDir_outside {al : Allocator σ} {vol : Volume}
    {dir : FatDir} (h : dir.items.length < dir.total) (name : List UInt8)
    (s : σ) : fat16FindItemInDir al vol dir name s = none :=
  fat16FindLoop_outside _ none s (by omega) (by omega)

-- ============================================================ a subdirectory

/-- The array of a subdirectory has as many entries as were counted. -/
theorem fat16LoadFatDir_counted {al : Allocator σ} {vol : Volume}
    {item : FatDirItem} {s s' : σ} {addr items : Addr} {dir : FatDir}
    (h : fat16LoadFatDir al vol item s = some (.live addr items dir, s')) :
    Counted dir := by
  have hcontents := fat16LoadFatDir_contents h
  unfold dirContents at hcontents
  obtain ⟨total, htotal, hcontents⟩ := Option.bind_eq_some_iff.mp hcontents
  obtain ⟨n, rfl, -, stop, hstop, hreads⟩ := fat16GetTotalItemsForDir_eq htotal
  have hle := scan_stop_le (toInt32_toInt32 _) (sectorPos_block _) hreads
  obtain ⟨r, -, hcontents⟩ := Option.bind_eq_some_iff.mp hcontents
  split at hcontents
  · cases hcontents
  · have hdir := Option.some.inj hcontents
    have hcount : (toUint32 (toInt32 ((n : Int) * sizeofFatDirItem))).toNat
        / sizeofFatDirItem = n := by
      simp only [sizeofFatDirItem, toUint32, toInt32]
      omega
    rw [← hdir, hcount]
    apply counted_iff.mpr
    simp only [itemsOfBytes_length]
    exact ⟨Int.natCast_nonneg n, le_rfl⟩

/-- Loading an entry as a directory counts its entries, and an array of as
many comes of it. -/
structure SubCounted (vol : Volume) (item : FatDirItem) : Prop where
  ends : item.attributes &&& fatFileSubdirectory ≠ 0 →
    ScanEnds vol.disk (itemPos vol item)
  counted : ∀ {σ : Type} (al : Allocator σ) (s s' : σ) (addr items : Addr)
    (dir : FatDir),
    fat16LoadFatDir al vol item s = some (.live addr items dir, s') →
      Counted dir

theorem subCounted_iff {vol : Volume} {item : FatDirItem} :
    SubCounted vol item ↔ (item.attributes &&& fatFileSubdirectory ≠ 0 →
      HasEnd vol.disk (itemPos vol item)) := by
  have hiff := scanEnds_iff vol.disk (toInt32_toInt32 (fat16ClusterToSector vol
    (fat16GetFirstCluster item) * benosSectorSize))
  constructor
  · intro h hdir
    exact hiff.mp (h.ends hdir)
  · intro h
    exact ⟨fun hdir => hiff.mpr (h hdir),
      fun _ _ _ _ _ _ hload => fat16LoadFatDir_counted hload⟩

-- ========================================================= the root directory

/-- Where its scan ends, the root directory is loaded if it is given the
memory. -/
theorem fat16GetRootDir_plenty {disk : Image UInt8} {header : FatHeader}
    (h : HasEnd disk (toInt32 (rootDirPos header))) :
    ∃ dir, fat16GetRootDir plenty disk header () = some (0, some dir, ()) := by
  obtain ⟨n, hn⟩ := fat16GetTotalItemsForDir_of_hasEnd
    (header.fatCopies.toNat * header.sectorsPerFat.toNat
      + header.reservedSectors.toNat) h
  have hread := rootDir_read disk header
  unfold rootDirPos at hread
  unfold fat16GetRootDir
  simp only [hn, hread, plenty, Option.bind_eq_bind, Option.bind_some]
  exact ⟨_, rfl⟩

/-- Loading the root directory counts its entries, and no more than its
array has. -/
structure RootCounted (disk : Image UInt8) (header : FatHeader) : Prop where
  ends : ScanEnds disk (toInt32 (rootDirPos header))
  counted : ∀ {σ : Type} (al : Allocator σ) (s s' : σ) (dir : FatDir),
    fat16GetRootDir al disk header s = some (0, some dir, s') → Counted dir

theorem rootCounted_iff {disk : Image UInt8} {header : FatHeader} :
    RootCounted disk header ↔ HasEnd disk (toInt32 (rootDirPos header))
      ∧ ∀ n, LiveOnDisk disk (toInt32 (rootDirPos header)) n →
        n ≤ header.rootDirEntries.toNat := by
  have hiff := scanEnds_iff disk (toInt32_toInt32 (rootDirPos header))
  constructor
  · intro h
    have hends := hiff.mp h.ends
    refine ⟨hends, fun n hn => ?_⟩
    obtain ⟨dir, hload⟩ := fat16GetRootDir_plenty hends
    obtain ⟨m, htotal, hlive, hitems⟩ := fat16GetRootDir_loaded hload
    have hwithin := (h.counted plenty () () dir hload).within
    rw [htotal, hitems, List.length_map, List.length_range] at hwithin
    rw [hn.unique hlive]
    exact Int.ofNat_le.mp hwithin
  · rintro ⟨hends, hfits⟩
    refine ⟨hiff.mpr hends, fun al s s' dir hload => ?_⟩
    obtain ⟨m, htotal, hlive, hitems⟩ := fat16GetRootDir_loaded hload
    apply counted_iff.mpr
    rw [htotal, hitems, List.length_map, List.length_range]
    exact ⟨Int.natCast_nonneg m, Int.ofNat_le.mpr (hfits m hlive)⟩

-- ================================================================ both of them

/-- The count of the root directory is right exactly when its scan meets
an end mark with no more entries in use before it than the boot sector
says, and that of a subdirectory exactly when its scan meets one at all. -/
theorem directory_counts (disk : Image UInt8) (header : FatHeader)
    (vol : Volume) (item : FatDirItem) :
    (RootCounted disk header ↔ HasEnd disk (toInt32 (rootDirPos header))
        ∧ ∀ n, LiveOnDisk disk (toInt32 (rootDirPos header)) n →
          n ≤ header.rootDirEntries.toNat)
      ∧ (SubCounted vol item ↔ (item.attributes &&& fatFileSubdirectory ≠ 0 →
          HasEnd vol.disk (itemPos vol item))) :=
  ⟨rootCounted_iff, subCounted_iff⟩

/-- A disk whose root directory, in sector 2, is full, and behind which
the data starts with another byte that is not zero. -/
def fullRootDisk : Image UInt8 := fun lba i =>
  if lba = 2#32 ∨ (lba = 3#32 ∧ i = 0) then 0x41 else 0

/-- It is counted as having one entry more than it has, and any search in
it reads past them. -/
theorem root_dir_counts_data :
    ∃ dir, fat16GetRootDir plenty fullRootDisk oneDeleted.header ()
        = some (0, some dir, ())
      ∧ dir.items.length = 16 ∧ dir.total = 17
      ∧ (∀ (vol : Volume) (name : List UInt8),
          fat16FindItemInDir plenty vol dir name () = none)
      ∧ ¬ RootCounted fullRootDisk oneDeleted.header := by
  have hres : (fat16GetRootDir plenty fullRootDisk oneDeleted.header ()).map
      (fun r => (r.1, r.2.1.map fun dir => (dir.items.length, dir.total)))
        = some (0, some (16, 17)) := by
    decide +kernel
  obtain ⟨⟨res, dir, s⟩, hload, hmap⟩ := Option.map_eq_some_iff.mp hres
  obtain ⟨rfl, hdir⟩ := Prod.mk.inj hmap
  obtain ⟨dir, rfl, hvalues⟩ := Option.map_eq_some_iff.mp hdir
  obtain ⟨hlen, htotal⟩ := Prod.mk.inj hvalues
  refine ⟨dir, hload, hlen, htotal, fun vol name => ?_, fun h => ?_⟩
  · apply fat16FindItemInDir_outside
    rw [hlen, htotal]
    decide
  · have hwithin := (h.counted plenty () s dir hload).within
    rw [hlen, htotal] at hwithin
    exact absurd hwithin (by decide)

end BenOS.Fat
