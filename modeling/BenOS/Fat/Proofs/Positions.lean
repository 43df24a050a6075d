/-
The stream positions that reads of file data and scans of directories
start from, against the places on the disk they stand for.

A position is an `int` of bytes, so it reaches over 2^22 sectors. A volume
can have more: its positions are right exactly when its last cluster ends
within them (`positions_exact`).
-/
import BenOS.Fat.Proofs.Layout

namespace BenOS.Fat

open Lib Disk

variable {σ : Type}

/-- The sector of an offset in a cluster. -/
def ownSector (vol : Volume) (c offset : Int) : Int :=
  vol.rootDir.endingSectorPos + (c - 2) * vol.header.sectorsPerCluster.toNat
    + offset % vol.clusterBytes / benosSectorSize

/-- The place of an offset in a cluster, in bytes from the start of the
disk. -/
def ownPos (vol : Volume) (c offset : Int) : Int :=
  clusterPos vol c + offset % vol.clusterBytes

/-- The positions for an offset in a cluster are its place: that of a read
of file data, whose first sector is then the cluster's own, and that of
the scan of a directory that starts with the cluster. -/
structure ExactAt (vol : Volume) (c offset : Int) : Prop where
  read : fat16StartingPos vol c offset = ownPos vol c offset
  scan : toInt32 (fat16ClusterToSector vol c * benosSectorSize)
    = ownPos vol c 0
  sector : (fat16StartingPos vol c offset).tdiv benosSectorSize
    = ownSector vol c offset
  inside : 0 ≤ (fat16StartingPos vol c offset).tmod benosSectorSize
    ∧ (fat16StartingPos vol c offset).tmod benosSectorSize ≤ 511

variable {vol : Volume}

/-- A place below 2^31 is a position. -/
theorem exactAt_of_lt (hstart : 0 ≤ vol.rootDir.endingSectorPos) {c : Int}
    (hc : 2 ≤ c) {offset : Int} (hoffset : 0 ≤ offset)
    (hsize : 0 < vol.clusterBytes)
    (hlt : clusterPos vol c + vol.clusterBytes ≤ 2147483648) :
    ExactAt vol c offset := by
  have hmul : 0 ≤ (c - 2) * (vol.header.sectorsPerCluster.toNat : Int) :=
    Int.mul_nonneg (by omega) (by omega)
  have hmod := Int.emod_nonneg offset
    (show (vol.clusterBytes : Int) ≠ 0 by omega)
  have hless := Int.emod_lt_of_pos offset
    (show 0 < (vol.clusterBytes : Int) by omega)
  have hpos : 0 ≤ clusterPos vol c := by
    unfold clusterPos
    exact Int.mul_nonneg (by omega) (by decide)
  have hread : fat16StartingPos vol c offset = ownPos vol c offset := by
    rw [fat16StartingPos_eq, sizeOfClusterBytes_eq,
      Int.tmod_eq_emod_of_nonneg hoffset]
    exact toInt32_of_range (by omega) (by omega)
  have hown : 0 ≤ ownPos vol c offset := by
    unfold ownPos
    omega
  refine ⟨hread, ?_, ?_, ?_⟩
  · rw [fat16ClusterToSector_pos, toInt32_of_range (by omega) (by omega)]
    unfold ownPos
    rw [Int.zero_emod, Int.add_zero]
  · rw [hread, Int.tdiv_eq_ediv_of_nonneg hown]
    unfold ownPos ownSector clusterPos
    simp only [benosSectorSize]
    omega
  · rw [hread, Int.tmod_eq_emod_of_nonneg hown]
    simp only [benosSectorSize]
    omega

/-- The last place of a cluster that is a position lies below 2^31. -/
theorem lt_of_exactAt {c : Int} (hsize : 0 < vol.clusterBytes)
    (h : ExactAt vol c (vol.clusterBytes - 1)) :
    clusterPos vol c + vol.clusterBytes ≤ 2147483648 := by
  have hread := h.read
  have hmod : ((vol.clusterBytes : Int) - 1) % vol.clusterBytes
      = vol.clusterBytes - 1 := Int.emod_eq_of_lt (by omega) (by omega)
  unfold ownPos at hread
  rw [hmod, fat16StartingPos_eq] at hread
  have hlt := toInt32_lt (clusterPos vol c
    + ((vol.clusterBytes : Int) - 1).tmod vol.sizeOfClusterBytes)
  omega

/-- On every volume that is accepted, the positions for its clusters up to
the last are right exactly when that one ends within 2^22 sectors. -/
theorem positions_exact {al : Allocator σ} {disk : Image UInt8} {s s' : σ}
    (h : fat16Resolve al disk s = some (0, some vol, s'))
    (hspc : 1 ≤ vol.header.sectorsPerCluster.toNat
      ∧ vol.header.sectorsPerCluster.toNat ≤ 128)
    {last : Int} (hlast : 2 ≤ last ∧ last ≤ 0xFFEF) :
    (∀ c, 2 ≤ c → c ≤ last → ∀ offset, 0 ≤ offset → ExactAt vol c offset)
      ↔ vol.header.rootSector + (vol.header.rootDirEntries.toNat / 16 : Nat)
          + (last - 1) * vol.header.sectorsPerCluster.toNat ≤ 4194304 := by
  obtain ⟨r, s₁, s₂, -, -, -, hload⟩ := fat16Resolve_accepted h
  have hend := fat16GetRootDir_end hload
  obtain ⟨hroot, -⟩ := vol.header.rootSector_lt
  have hstart : 0 ≤ vol.rootDir.endingSectorPos := by omega
  have hsize : vol.clusterBytes
      = vol.header.sectorsPerCluster.toNat * 512 := rfl
  have hpos : ∀ c, clusterPos vol c = (vol.rootDir.endingSectorPos
      + (c - 2) * vol.header.sectorsPerCluster.toNat) * 512 := fun _ => rfl
  have hsplit : (last - 1) * (vol.header.sectorsPerCluster.toNat : Int)
      = (last - 2) * vol.header.sectorsPerCluster.toNat
        + vol.header.sectorsPerCluster.toNat := by
    rw [show last - 1 = last - 2 + 1 by omega, Int.add_mul, Int.one_mul]
  rw [← hend, hsplit]
  constructor
  · intro hall
    have hlt := lt_of_exactAt (by omega)
      (hall last hlast.1 le_rfl (vol.clusterBytes - 1) (by omega))
    rw [hpos] at hlt
    omega
  · intro hbound c hc hle offset hoffset
    have hmul : (c - 2) * (vol.header.sectorsPerCluster.toNat : Int)
        ≤ (last - 2) * vol.header.sectorsPerCluster.toNat :=
      Int.mul_le_mul_of_nonneg_right (by omega) (by omega)
    apply exactAt_of_lt hstart hc hoffset (by omega)
    rw [hpos]
    omega

/-- A disk with the boot sector of `boot/boot.asm`, and zeros behind. -/
def bootAsmDisk : Image UInt8 := fun lba i =>
  if lba = 0#32 then
    if i = 13 then 0x80
    else if i = 14 then 200
    else if i = 16 then 0x02
    else if i = 17 then 0x40
    else if i = 23 then 0x01
    else if i = 38 then 0x29
    else 0
  else 0

/-- It is accepted, with 128 sectors to a cluster; and the position for
the second byte of its cluster 0xFFEF is negative. -/
theorem bootAsmDisk_accepted :
    ∃ vol, fat16Resolve plenty bootAsmDisk () = some (0, some vol, ())
      ∧ vol.header.sectorsPerCluster = 128
      ∧ fat16StartingPos vol 0xFFEF 1 = -878591 := by
  have hres : (fat16Resolve plenty bootAsmDisk ()).map
      (fun r => (r.1, r.2.1.map fun vol => (vol.header.sectorsPerCluster,
        fat16StartingPos vol 0xFFEF 1)))
        = some (0, some (128, -878591)) := by
    decide +kernel
  obtain ⟨⟨res, vol, s⟩, hload, hmap⟩ := Option.map_eq_some_iff.mp hres
  obtain ⟨rfl, hvol⟩ := Prod.mk.inj hmap
  obtain ⟨vol, rfl, hvalues⟩ := Option.map_eq_some_iff.mp hvol
  obtain ⟨hspc, hpos⟩ := Prod.mk.inj hvalues
  exact ⟨vol, hload, hspc, hpos⟩

theorem positions_exact_boot_asm :
    ∃ vol, fat16Resolve plenty bootAsmDisk () = some (0, some vol, ())
      ∧ ((∀ c, 2 ≤ c → c ≤ 0xFFEF → ∀ offset, 0 ≤ offset →
            ExactAt vol c offset)
        ↔ vol.header.rootSector + (vol.header.rootDirEntries.toNat / 16 : Nat)
          + (0xFFEF - 1) * vol.header.sectorsPerCluster.toNat ≤ 4194304) := by
  obtain ⟨vol, hload, hspc, -⟩ := bootAsmDisk_accepted
  exact ⟨vol, hload, positions_exact hload
    (by rw [hspc]; exact ⟨by decide, by decide⟩) ⟨by decide, le_rfl⟩⟩

/-- A byte of such a cluster is looked for in front of the disk, and in
front of the block buffer. -/
theorem position_overflows :
    ∃ vol, fat16Resolve plenty bootAsmDisk () = some (0, some vol, ())
      ∧ vol.header.sectorsPerCluster = 128
      ∧ (fat16StartingPos vol 0xFFEF 1).tmod benosSectorSize = -511
      ∧ ¬ ∀ c, 2 ≤ c → c ≤ 0xFFEF → ∀ offset, 0 ≤ offset →
          ExactAt vol c offset := by
  obtain ⟨vol, hload, hspc, hpos⟩ := bootAsmDisk_accepted
  have hmod : (fat16StartingPos vol 0xFFEF 1).tmod benosSectorSize = -511 := by
    rw [hpos]
    decide
  refine ⟨vol, hload, hspc, hmod, fun hall => ?_⟩
  have hinside := (hall 0xFFEF (by decide) le_rfl 1 (by decide)).inside.1
  rw [hmod] at hinside
  exact absurd hinside (by decide)

end BenOS.Fat
