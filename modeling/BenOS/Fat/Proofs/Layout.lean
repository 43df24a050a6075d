/-
Where a volume has its clusters.

The data region is said to start behind the root directory, whose size in
sectors `fat16_get_root_dir` works out twice: rounded up, into a variable
nothing reads, and rounded down, into `ending_sector_pos`. So cluster 2
lies over the end of a root directory that does not fill its last sector
(`volume_layout`).
-/
import BenOS.Fat.Resolve
import BenOS.Fat.Proofs.DirLoad

namespace BenOS.Fat

open Lib Disk

variable {σ : Type}

-- ================================================================== the header

namespace FatHeader

variable (header : FatHeader)

/-- The first sector of the root directory. -/
def rootSector : Int :=
  header.reservedSectors.toNat
    + header.fatCopies.toNat * header.sectorsPerFat.toNat

/-- The sectors of the root directory, the last one of them perhaps in
part. -/
def rootSectors : Int :=
  ((sizeofFatDirItem * header.rootDirEntries.toNat + (benosSectorSize - 1))
    / benosSectorSize : Nat)

/-- Where the data region is to start. -/
def dataSector : Int := header.rootSector + header.rootSectors

end FatHeader

/-- The numbers a cluster may have in a FAT16 volume: a directory entry
and the file allocation table have 16 bits for them. -/
def IsCluster (c : Int) : Prop := 2 ≤ c ∧ c < 65536

/-- The sectors from one on, as many as are given. -/
structure SectorRange where
  start : Int
  len : Int

/-- The range has a sector. -/
def SectorRange.Has (range : SectorRange) (sector : Int) : Prop :=
  range.start ≤ sector ∧ sector < range.start + range.len

/-- Two ranges share no sector. -/
def SectorRange.Disjoint (range range' : SectorRange) : Prop :=
  ∀ sector, range.Has sector → ¬ range'.Has sector

/-- The reserved sectors, the boot sector first. -/
def FatHeader.reservedRange (header : FatHeader) : SectorRange :=
  ⟨0, header.reservedSectors.toNat⟩

/-- The sectors of the file allocation tables. -/
def FatHeader.fatRange (header : FatHeader) : SectorRange :=
  ⟨header.reservedSectors.toNat,
    header.fatCopies.toNat * header.sectorsPerFat.toNat⟩

/-- The sectors of the root directory. -/
def FatHeader.rootRange (header : FatHeader) : SectorRange :=
  ⟨header.rootSector, header.rootSectors⟩

/-- The sectors of a cluster. -/
def Volume.clusterRange (vol : Volume) (c : Int) : SectorRange :=
  ⟨fat16ClusterToSector vol c, vol.header.sectorsPerCluster.toNat⟩

/-- The data region starts behind the root directory, and the clusters
share no sector with one another, nor with what lies before them. -/
structure Volume.LaidOut (vol : Volume) : Prop where
  start : vol.rootDir.endingSectorPos = vol.header.dataSector
  clusters : ∀ c c', IsCluster c → IsCluster c' → c ≠ c' →
    (vol.clusterRange c).Disjoint (vol.clusterRange c')
  reserved : ∀ c, IsCluster c →
    (vol.clusterRange c).Disjoint vol.header.reservedRange
  fats : ∀ c, IsCluster c → (vol.clusterRange c).Disjoint vol.header.fatRange
  root : ∀ c, IsCluster c → (vol.clusterRange c).Disjoint vol.header.rootRange

-- ================================================================= the clusters

/-- Where `fat16_get_root_dir` takes the data region to start. -/
theorem fat16GetRootDir_end {al : Allocator σ} {disk : Image UInt8}
    {header : FatHeader} {s s' : σ} {dir : FatDir}
    (h : fat16GetRootDir al disk header s = some (0, some dir, s')) :
    dir.endingSectorPos
      = header.rootSector + (header.rootDirEntries.toNat / 16 : Nat) := by
  obtain ⟨total, r, -, -, rfl⟩ := fat16GetRootDir_dir h
  unfold FatHeader.rootSector
  simp only [benosSectorSize, sizeofFatDirItem]
  omega

/-- What is behind an accepted disk: its header is what the boot sector
says, and its root directory has been loaded. -/
theorem fat16Resolve_accepted {al : Allocator σ} {disk : Image UInt8}
    {s s' : σ} {vol : Volume}
    (h : fat16Resolve al disk s = some (0, some vol, s')) :
    ∃ r s₁ s₂, diskstreamerRead disk 0 sizeofFatH = some r
      ∧ vol.disk = disk
      ∧ vol.header = FatHeader.ofBytes r.out
      ∧ fat16GetRootDir al disk vol.header s₁
          = some (0, some vol.rootDir, s₂) := by
  unfold fat16Resolve at h
  split at h
  · cases h
  · obtain ⟨s₁, -, h⟩ := Option.bind_eq_some_iff.mp h
    obtain ⟨⟨stream, s₂⟩, -, h⟩ := Option.bind_eq_some_iff.mp h
    obtain ⟨⟨res, vol', s₃⟩, hfrom, h⟩ := Option.bind_eq_some_iff.mp h
    have hvol : vol' = some vol := congrArg (fun r => r.2.1) (Option.some.inj h)
    subst hvol
    unfold fat16ResolveFrom at hfrom
    obtain ⟨r, hr, hfrom⟩ := Option.bind_eq_some_iff.mp hfrom
    split at hfrom
    · cases hfrom
    · split at hfrom
      · cases hfrom
      · obtain ⟨⟨res', rootDir, s₄⟩, hload, hfrom⟩ :=
          Option.bind_eq_some_iff.mp hfrom
        simp only at hfrom
        split at hfrom
        · cases hfrom
        · next hok =>
            have hroot := congrArg (fun r => r.2.1) (Option.some.inj hfrom)
            obtain ⟨dir, hdir, rfl⟩ := Option.map_eq_some_iff.mp hroot
            subst hdir
            rw [not_not.mp hok] at hload
            exact ⟨r, _, _, hr, rfl, rfl, hload⟩

/-- The root directory starts low enough. -/
theorem FatHeader.rootSector_lt (header : FatHeader) :
    0 ≤ header.rootSector ∧ header.rootSector < 16777216 := by
  have hreserved := header.reservedSectors.toNat_lt
  have hcopies := header.fatCopies.toNat_lt
  have hfat := header.sectorsPerFat.toNat_lt
  have hmul : header.fatCopies.toNat * header.sectorsPerFat.toNat
      ≤ 255 * 65535 := Nat.mul_le_mul (by omega) (by omega)
  unfold rootSector
  omega

namespace Volume

variable {vol : Volume}

/-- The sectors of a cluster, as numbers. -/
theorem clusterSector_eq (hstart : 0 ≤ vol.rootDir.endingSectorPos)
    (hbound : vol.rootDir.endingSectorPos < 33554432) {c : Int}
    (hc : IsCluster c) :
    fat16ClusterToSector vol c = vol.rootDir.endingSectorPos
      + (c - 2) * vol.header.sectorsPerCluster.toNat := by
  obtain ⟨hge, hlt⟩ := hc
  have hspc := vol.header.sectorsPerCluster.toNat_lt
  have hmul : (c - 2) * (vol.header.sectorsPerCluster.toNat : Int)
      ≤ 65534 * 256 := by
    apply Int.mul_le_mul (by omega) (by omega) (by omega) (by decide)
  have hpos : 0 ≤ (c - 2) * (vol.header.sectorsPerCluster.toNat : Int) :=
    Int.mul_nonneg (by omega) (by omega)
  exact toInt32_of_range (by omega) (by omega)

/-- The sectors of a later cluster are behind those of an earlier one. -/
theorem clusterRange_disjoint (hstart : 0 ≤ vol.rootDir.endingSectorPos)
    (hbound : vol.rootDir.endingSectorPos < 33554432) {c c' : Int}
    (hc : IsCluster c) (hc' : IsCluster c') (hlt : c < c') :
    (vol.clusterRange c).Disjoint (vol.clusterRange c') := by
  have hstep : (c - 2 + 1) * (vol.header.sectorsPerCluster.toNat : Int)
      ≤ (c' - 2) * vol.header.sectorsPerCluster.toNat :=
    Int.mul_le_mul_of_nonneg_right (by omega) (by omega)
  rw [Int.add_mul, Int.one_mul] at hstep
  rintro sector ⟨hge, hbelow⟩ ⟨hge', -⟩
  simp only [clusterRange] at hge hbelow hge'
  rw [clusterSector_eq hstart hbound hc] at hge hbelow
  rw [clusterSector_eq hstart hbound hc'] at hge'
  omega

/-- No cluster reaches before the data region. -/
theorem clusterRange_behind (hstart : 0 ≤ vol.rootDir.endingSectorPos)
    (hbound : vol.rootDir.endingSectorPos < 33554432) {c : Int}
    (hc : IsCluster c) {range : SectorRange}
    (hend : range.start + range.len ≤ vol.rootDir.endingSectorPos) :
    (vol.clusterRange c).Disjoint range := by
  obtain ⟨htwo, -⟩ := id hc
  have hpos : 0 ≤ (c - 2) * (vol.header.sectorsPerCluster.toNat : Int) :=
    Int.mul_nonneg (by omega) (by omega)
  rintro sector ⟨hge, -⟩ ⟨-, hbelow⟩
  simp only [clusterRange] at hge
  rw [clusterSector_eq hstart hbound hc] at hge
  omega

end Volume

/-- The layout of a volume is right exactly when its root directory fills
whole sectors. -/
theorem volume_layout {al : Allocator σ} {disk : Image UInt8}
    {header : FatHeader} {s s' : σ} {dir : FatDir}
    (h : fat16GetRootDir al disk header s = some (0, some dir, s')) :
    Volume.LaidOut { disk := disk, header := header, rootDir := dir }
      ↔ header.rootDirEntries.toNat % 16 = 0 := by
  have hend := fat16GetRootDir_end h
  have hdata : header.dataSector = header.rootSector
      + ((32 * header.rootDirEntries.toNat + 511) / 512 : Nat) := rfl
  obtain ⟨hroot, hlow⟩ := header.rootSector_lt
  have hentries := header.rootDirEntries.toNat_lt
  have hstart : 0 ≤ dir.endingSectorPos := by omega
  have hbound : dir.endingSectorPos < 33554432 := by omega
  constructor
  · intro hlaid
    have heq : dir.endingSectorPos = header.dataSector := hlaid.start
    omega
  · intro hfull
    have heq : dir.endingSectorPos = header.dataSector := by omega
    have hfats : (header.reservedSectors.toNat : Int) ≤ header.rootSector := by
      unfold FatHeader.rootSector
      have := Nat.zero_le (header.fatCopies.toNat * header.sectorsPerFat.toNat)
      omega
    refine ⟨heq, fun c c' hc hc' hne => ?_, fun c hc => ?_, fun c hc => ?_,
      fun c hc => ?_⟩
    · rcases Int.lt_or_gt_of_ne hne with hlt | hgt
      · exact Volume.clusterRange_disjoint hstart hbound hc hc' hlt
      · exact fun sector hin hin' =>
          Volume.clusterRange_disjoint hstart hbound hc' hc hgt sector hin' hin
    · apply Volume.clusterRange_behind hstart hbound hc
      show (0 : Int) + header.reservedSectors.toNat ≤ dir.endingSectorPos
      omega
    · apply Volume.clusterRange_behind hstart hbound hc
      show header.rootSector ≤ dir.endingSectorPos
      omega
    · apply Volume.clusterRange_behind hstart hbound hc
      exact heq.ge

theorem volume_layout_one_deleted :
    ∃ dir, fat16GetRootDir plenty oneDeleted.disk oneDeleted.header ()
        = some (0, some dir, ())
      ∧ (Volume.LaidOut { oneDeleted with rootDir := dir }
        ↔ (16 : Nat) % 16 = 0) := by
  have hres : (fat16GetRootDir plenty oneDeleted.disk oneDeleted.header
      ()).map (fun r => (r.1, r.2.1.isSome)) = some (0, true) := by
    decide +kernel
  obtain ⟨⟨res, dir, s⟩, hload, hmap⟩ := Option.map_eq_some_iff.mp hres
  obtain ⟨rfl, hsome⟩ := Prod.mk.inj hmap
  obtain ⟨dir, rfl⟩ := Option.isSome_iff_exists.mp hsome
  exact ⟨dir, hload, volume_layout hload⟩

/-- A root directory of one entry. -/
def oneEntryHeader : FatHeader := { oneDeleted.header with rootDirEntries := 1 }

/-- A volume of zeros with such a root directory. -/
def oneEntryVolume (dir : FatDir) : Volume where
  disk := fun _ _ => 0
  header := oneEntryHeader
  rootDir := dir

/-- Its only sector is also that of cluster 2. -/
theorem root_dir_shares_sector :
    ∃ dir, fat16GetRootDir plenty (fun _ _ => 0) oneEntryHeader ()
        = some (0, some dir, ())
      ∧ ((oneEntryVolume dir).clusterRange 2).Has 2
      ∧ oneEntryHeader.rootRange.Has 2
      ∧ ¬ (oneEntryVolume dir).LaidOut := by
  have hres : (fat16GetRootDir plenty (fun _ _ => 0) oneEntryHeader
      ()).map (fun r => (r.1, r.2.1.map FatDir.endingSectorPos))
        = some (0, some 2) := by
    decide +kernel
  obtain ⟨⟨res, dir, s⟩, hload, hmap⟩ := Option.map_eq_some_iff.mp hres
  obtain ⟨rfl, hdir⟩ := Prod.mk.inj hmap
  obtain ⟨dir, rfl, hend⟩ := Option.map_eq_some_iff.mp hdir
  refine ⟨dir, hload, ?_, ⟨by decide, by decide⟩, fun hlaid => ?_⟩
  · have hsector : toInt32 (dir.endingSectorPos + (2 - 2) * (1 : Nat)) = 2 := by
      rw [hend]
      rfl
    exact ⟨hsector.le, by
      show 2 < toInt32 (dir.endingSectorPos + (2 - 2) * (1 : Nat)) + (1 : Nat)
      rw [hsector]
      decide⟩
  · have hstart : dir.endingSectorPos = oneEntryHeader.dataSector :=
      hlaid.start
    rw [hend] at hstart
    exact absurd hstart (by decide)

end BenOS.Fat
