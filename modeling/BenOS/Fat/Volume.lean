/-
A FAT16 volume as `fs/fat/fat16.c` sees it once it is resolved: the parts
of the boot sector it reads, the root directory, and the disk; and the
three layers through which file data is read, from the file allocation
table up.

Every `int` and `uint32_t` that can wrap is stored through `toInt32` or
`toUint32`; C's truncating division is `Int.tdiv`. A result `none` is a
division by zero or a read outside a buffer.

The bytes of files are read from `image`, which is the disk itself in the
kernel (`fat16Read`), but the file allocation table always from the
disk. So the same code run over an image whose cells name their own place
shows where on the disk each byte of a file is taken from.
-/
import BenOS.Disk.Streamer

namespace BenOS.Fat

open Lib Disk

variable {β : Type}

-- ================================================================ on the disk

/-- The fields of `struct fat_header` that are read. -/
structure FatHeader where
  sectorsPerCluster : UInt8
  reservedSectors : UInt16
  fatCopies : UInt8
  rootDirEntries : UInt16
  sectorsPerFat : UInt16

/-- `struct fat_dir_item`, without the times and dates. -/
structure FatDirItem where
  fname : Vector UInt8 8
  ext : Vector UInt8 3
  attributes : UInt8
  high16BitsFirstCluster : UInt16
  low16BitsFirstCluster : UInt16
  fileSize : UInt32
deriving DecidableEq

/-- `fname[0]`, which also says whether the entry is in use. -/
def FatDirItem.fname0 (item : FatDirItem) : UInt8 := item.fname[0]

/-- `sizeof(struct fat_dir_item)` -/
abbrev sizeofFatDirItem : Nat := 32

/-- `FAT_FILE_READ_ONLY` -/
def fatFileReadOnly : UInt8 := 0x01

/-- `FAT_FILE_SUBDIRECTORY` -/
def fatFileSubdirectory : UInt8 := 0x10

/-- `BENOS_FAT16_FAT_ENTRY_SIZE` -/
abbrev benosFat16FatEntrySize : Int := 0x02

/-- `BENOS_FAT16_BAD_SECTOR` -/
abbrev benosFat16BadSector : Int := 0xFF7

/-- The little-endian word at an offset of some bytes. -/
def wordAt (bytes : List UInt8) (i : Nat) : Nat :=
  (bytes.getD i 0).toNat + 256 * (bytes.getD (i + 1) 0).toNat

/-- The bytes of a directory entry, read as one. -/
def FatDirItem.ofBytes (bytes : List UInt8) : FatDirItem where
  fname := Vector.ofFn fun i => bytes.getD i 0
  ext := Vector.ofFn fun i => bytes.getD (8 + i) 0
  attributes := bytes.getD 11 0
  high16BitsFirstCluster := UInt16.ofNat (wordAt bytes 20)
  low16BitsFirstCluster := UInt16.ofNat (wordAt bytes 26)
  fileSize := UInt32.ofNat (wordAt bytes 28 + 65536 * wordAt bytes 30)

-- ================================================================= in memory

/-- `struct fat_dir`, its items as the array they point to. -/
structure FatDir where
  items : List FatDirItem
  total : Int
  sectorPos : Int
  endingSectorPos : Int

/-- The disk with its `struct fat_private`. -/
structure Volume where
  disk : Image UInt8
  header : FatHeader
  rootDir : FatDir

/-- `private->header.primary_header.sectors_per_cluster *
disk->sector_size` -/
def Volume.sizeOfClusterBytes (vol : Volume) : Int :=
  vol.header.sectorsPerCluster.toNat * benosSectorSize

-- ============================================== the file allocation table

/-- `fat16_get_first_cluster` -/
def fat16GetFirstCluster (item : FatDirItem) : Int :=
  (item.high16BitsFirstCluster ||| item.low16BitsFirstCluster).toNat

/-- `fat16_cluster_to_sector` -/
def fat16ClusterToSector (vol : Volume) (cluster : Int) : Int :=
  toInt32 (vol.rootDir.endingSectorPos
    + (cluster - 2) * vol.header.sectorsPerCluster.toNat)

/-- `fat16_get_first_fat_sector` -/
def fat16GetFirstFatSector (vol : Volume) : Int :=
  vol.header.reservedSectors.toNat

/-- The stream position `fat16_get_fat_entry` seeks to. -/
def fat16FatEntryPos (vol : Volume) (cluster : Int) : Int :=
  let fatTablePosition :=
    toUint32 (fat16GetFirstFatSector vol * benosSectorSize)
  toInt32 (fatTablePosition * (cluster * benosFat16FatEntrySize))

/-- `fat16_get_fat_entry` -/
def fat16GetFatEntry (vol : Volume) (cluster : Int) : Option Int :=
  match diskstreamerRead vol.disk (fat16FatEntryPos vol cluster) 2 with
  | none => none
  | some r => if r.res < 0 then some r.res else some (wordAt r.out 0)

/-- The loop of `fat16_get_cluster_for_offset` over the clusters ahead. -/
def fat16ClusterLoop (vol : Volume) : Nat → Int → Option Int
  | 0, clusterToUse => some clusterToUse
  | k + 1, clusterToUse =>
      match fat16GetFatEntry vol clusterToUse with
      | none => none
      | some entry =>
          if entry = 0xFF8 ∨ entry = 0xFFF then some (-eio)
          else if entry = benosFat16BadSector then some (-eio)
          else if entry = 0xFF0 ∨ entry = 0xFF6 then some (-eio)
          else if entry = 0x00 then some (-eio)
          else fat16ClusterLoop vol k entry

/-- `fat16_get_cluster_for_offset` -/
@[irreducible] def fat16GetClusterForOffset (vol : Volume)
    (startingCluster offset : Int) : Option Int :=
  if vol.sizeOfClusterBytes = 0 then none
  else
    let clustersAhead := offset.tdiv vol.sizeOfClusterBytes
    fat16ClusterLoop vol clustersAhead.toNat startingCluster

-- ================================================================== reading

/-- What a read of file data leaves behind: its result and the cells it
wrote from `out` on. -/
structure FatRead (β : Type) where
  res : Int
  out : List β
deriving DecidableEq

/-- The stream position a piece of file data is read from. -/
def fat16StartingPos (vol : Volume) (clusterToUse offset : Int) : Int :=
  let offsetFromCluster := offset.tmod vol.sizeOfClusterBytes
  let startingSector := fat16ClusterToSector vol clusterToUse
  toInt32 (startingSector * benosSectorSize + offsetFromCluster)

/-- `fat16_read_internal_from_stream`; the first argument bounds the
recursion. -/
def fat16ReadInternalFromStream (vol : Volume) (image : Image β) :
    Nat → Int → Int → Int → Option (FatRead β)
  | 0, _, _, _ => none
  | fuel + 1, cluster, offset, total =>
      match fat16GetClusterForOffset vol cluster offset with
      | none => none
      | some clusterToUse =>
          if clusterToUse < 0 then some { res := clusterToUse, out := [] }
          else
            let startingPos := fat16StartingPos vol clusterToUse offset
            let totalToRead :=
              if total > vol.sizeOfClusterBytes then vol.sizeOfClusterBytes
              else total
            match diskstreamerRead image startingPos totalToRead with
            | none => none
            | some r =>
                if r.res ≠ benosAllOk then
                  some { res := r.res, out := r.out }
                else if total - totalToRead > 0 then
                  match fat16ReadInternalFromStream vol image fuel cluster
                      (toInt32 (offset + totalToRead))
                      (total - totalToRead) with
                  | none => none
                  | some rest => some { rest with out := r.out ++ rest.out }
                else some { res := r.res, out := r.out }

/-- `fat16_read_internal` -/
@[irreducible] def fat16ReadInternal (vol : Volume) (image : Image β)
    (startCluster offset total : Int) : Option (FatRead β) :=
  fat16ReadInternalFromStream vol image (total.toNat + 1) startCluster offset
    total

end BenOS.Fat
