/-
Directories of a FAT16 volume: counting their entries, loading them,
finding an entry by its name, and walking a path; from
`fs/fat/fat16.c`, with the string functions they compare names by.

What these functions allocate comes from a kernel heap the model does not
look into: an `Allocator` answers `kzalloc` and `kfree` over a state of
its own, which every function passes on. A pointer is the address the
allocator gave with what lies behind it. `fat16_load_fat_dir` returns the
directory it has freed where loading fails, so a pointer to a directory
may be null, freed or live (`DirPtr`).

A result `none` is a dereference of null or of freed memory, a read
outside an array, or a scan that never ends.
-/
import BenOS.Fat.Volume

namespace BenOS.Fat

open Lib Disk

variable {σ : Type}

-- ==================================================================== strings

/-- `tolower`, on the byte of a `char`. -/
def tolower (c : UInt8) : UInt8 := if 65 ≤ c ∧ c ≤ 90 then c + 32 else c

/-- `istrncmp` on the bytes of two strings, a string being followed by
its terminator. -/
def istrncmp : List UInt8 → List UInt8 → Nat → Int
  | _, _, 0 => 0
  | str1, str2, len + 1 =>
      let u1 := str1.headD 0
      let u2 := str2.headD 0
      if u1 ≠ u2 ∧ tolower u1 ≠ tolower u2 then (u1.toNat : Int) - u2.toNat
      else if u1 = 0 then 0
      else istrncmp str1.tail str2.tail len

/-- `fat16_to_proper_string`, on as many bytes as its size says. -/
def fat16ToProperString : List UInt8 → List UInt8
  | [] => []
  | c :: cs =>
      if c ≠ 0x00 ∧ c ≠ 0x20 then c :: fat16ToProperString cs else []

/-- `fat16_get_full_relative_filename` -/
def fat16GetFullRelativeFilename (item : FatDirItem) : List UInt8 :=
  let out := fat16ToProperString item.fname.toList
  if item.ext[0] ≠ 0x00 ∧ item.ext[0] ≠ 0x20 then
    out ++ 0x2E :: fat16ToProperString item.ext.toList
  else out

-- ================================================================= in memory

/-- The kernel heap as the file system calls it. -/
structure Allocator (σ : Type) where
  kzalloc : Nat → σ → Option Addr × σ
  kfree : Option Addr → σ → σ

/-- `sizeof(struct fat_dir)` -/
abbrev sizeofFatDir : Nat := 16

/-- `sizeof(struct fat_item)` -/
abbrev sizeofFatItem : Nat := 8

/-- A pointer to a `struct fat_dir`. -/
inductive DirPtr
  | null
  | freed (addr : Addr)
  | live (addr items : Addr) (dir : FatDir)

/-- A pointer to a `struct fat_item` that is not null, by its type: a
directory, or a file with its directory entry or none. -/
inductive FatItem
  | dir (addr : Addr) (dir : DirPtr)
  | file (addr : Addr) (item : Option (Addr × FatDirItem))

-- =================================================================== counting

/-- The most entries a scan can see before its stream comes back to
where it started. -/
def scanLimit : Nat := 2 ^ 27

/-- The loop of `fat16_get_total_items_for_dir`, from a stream position
and with the count so far. -/
def fat16ScanDir (disk : Image UInt8) : Nat → Int → Int → Option Int
  | 0, _, _ => none
  | fuel + 1, pos, i => do
      let r ← diskstreamerRead disk pos sizeofFatDirItem
      if r.res ≠ benosAllOk then some (-eio)
      else
        let item := FatDirItem.ofBytes r.out
        if item.fname0 = 0x00 then some i
        else if item.fname0 = 0xE5 then fat16ScanDir disk fuel r.pos i
        else fat16ScanDir disk fuel r.pos (i + 1)

/-- `fat16_get_total_items_for_dir` -/
@[irreducible] def fat16GetTotalItemsForDir (disk : Image UInt8)
    (dirStartSector : Int) : Option Int :=
  let dirStartPos := toInt32 (dirStartSector * benosSectorSize)
  fat16ScanDir disk scanLimit dirStartPos 0

-- ==================================================================== loading

/-- An array of directory entries, whose first bytes are given and whose
others are zero. -/
def itemsOfBytes : Nat → List UInt8 → List FatDirItem
  | 0, _ => []
  | n + 1, bytes =>
      FatDirItem.ofBytes (bytes.take sizeofFatDirItem)
        :: itemsOfBytes n (bytes.drop sizeofFatDirItem)

/-- `fat16_get_root_dir`: its result, and the directory where that is
0. -/
def fat16GetRootDir (al : Allocator σ) (disk : Image UInt8)
    (header : FatHeader) (s : σ) : Option (Int × Option FatDir × σ) := do
  let rootDirSectorPos : Int :=
    header.fatCopies.toNat * header.sectorsPerFat.toNat
      + header.reservedSectors.toNat
  let rootDirEntries := header.rootDirEntries.toNat
  let rootDirSize := rootDirEntries * sizeofFatDirItem
  let totalItems ← fat16GetTotalItemsForDir disk rootDirSectorPos
  match al.kzalloc rootDirSize s with
  | (none, s) => some (-enomem, none, s)
  | (some dirItem, s) =>
      let r ← diskstreamerRead disk
        (toInt32 (rootDirSectorPos * benosSectorSize)) rootDirSize
      if r.res ≠ benosAllOk then
        some (-eio, none, al.kfree (some dirItem) s)
      else
        some (0,
          some
            { items := itemsOfBytes rootDirEntries r.out
              total := totalItems
              sectorPos := rootDirSectorPos
              endingSectorPos :=
                rootDirSectorPos + rootDirSize / benosSectorSize },
          s)

/-- `fat16_free_dir` -/
def fat16FreeDir (al : Allocator σ) : DirPtr → σ → Option σ
  | .null, s => some s
  | .freed _, _ => none
  | .live addr items _, s =>
      some (al.kfree (some addr) (al.kfree (some items) s))

/-- `fat16_fat_item_free` -/
def fat16FatItemFree (al : Allocator σ) : FatItem → σ → Option σ
  | .dir addr dir, s => do
      let s ← fat16FreeDir al dir s
      some (al.kfree (some addr) s)
  | .file addr item, s =>
      some (al.kfree (some addr) (al.kfree (item.map Prod.fst) s))

/-- `fat16_load_fat_dir` -/
def fat16LoadFatDir (al : Allocator σ) (vol : Volume) (item : FatDirItem)
    (s : σ) : Option (DirPtr × σ) :=
  if item.attributes &&& fatFileSubdirectory = 0 then some (.null, s)
  else
    match al.kzalloc sizeofFatDir s with
    | (none, s) => some (.null, s)
    | (some dir, s) => do
        let cluster := fat16GetFirstCluster item
        let clusterSector := fat16ClusterToSector vol cluster
        let totalItems ← fat16GetTotalItemsForDir vol.disk clusterSector
        let dirSize := toInt32 (totalItems * sizeofFatDirItem)
        match al.kzalloc (toUint32 dirSize).toNat s with
        | (none, s) => some (.freed dir, al.kfree (some dir) s)
        | (some items, s) =>
            let r ← fat16ReadInternal vol vol.disk cluster 0x00 dirSize
            if r.res ≠ benosAllOk then
              some (.freed dir, al.kfree (some dir) (al.kfree (some items) s))
            else
              some (.live dir items
                { items := itemsOfBytes
                    ((toUint32 dirSize).toNat / sizeofFatDirItem) r.out
                  total := totalItems
                  sectorPos := 0
                  endingSectorPos := 0 }, s)

/-- `fat16_clone_dir_item`, for the size of an entry. -/
def fat16CloneDirItem (al : Allocator σ) (item : FatDirItem) (s : σ) :
    Option (Addr × FatDirItem) × σ :=
  match al.kzalloc sizeofFatDirItem s with
  | (none, s) => (none, s)
  | (some addr, s) => (some (addr, item), s)

/-- `fat16_new_fat_item_for_dir_item` -/
def fat16NewFatItemForDirItem (al : Allocator σ) (vol : Volume)
    (item : FatDirItem) (s : σ) : Option (Option FatItem × σ) :=
  match al.kzalloc sizeofFatItem s with
  | (none, s) => some (none, s)
  | (some fItem, s) =>
      if item.attributes &&& fatFileSubdirectory ≠ 0 then do
        let (dir, s) ← fat16LoadFatDir al vol item s
        some (some (.dir fItem dir), s)
      else
        let r := fat16CloneDirItem al item s
        some (some (.file fItem r.1), r.2)

-- ==================================================================== finding

/-- An entry has a name, as `fat16_find_item_in_dir` compares them. -/
def nameMatches (item : FatDirItem) (name : List UInt8) : Bool :=
  istrncmp (fat16GetFullRelativeFilename item) name benosMaxPath == 0

/-- The loop of `fat16_find_item_in_dir` from index `i` on, with the item
found so far; the first argument counts the indices left. -/
def fat16FindLoop (al : Allocator σ) (vol : Volume) (items : List FatDirItem)
    (name : List UInt8) :
    Nat → Nat → Option FatItem → σ → Option (Option FatItem × σ)
  | 0, _, fItem, s => some (fItem, s)
  | k + 1, i, fItem, s => do
      let item ← items[i]?
      if nameMatches item name then
        let (fItem, s) ← fat16NewFatItemForDirItem al vol item s
        fat16FindLoop al vol items name k (i + 1) fItem s
      else fat16FindLoop al vol items name k (i + 1) fItem s

/-- `fat16_find_item_in_dir` in a directory that is there. -/
def fat16FindItemInDir (al : Allocator σ) (vol : Volume) (dir : FatDir)
    (name : List UInt8) (s : σ) : Option (Option FatItem × σ) :=
  fat16FindLoop al vol dir.items name dir.total.toNat 0 none s

/-- `fat16_find_item_in_dir` -/
def fat16FindItemInDirPtr (al : Allocator σ) (vol : Volume) (dir : DirPtr)
    (name : List UInt8) (s : σ) : Option (Option FatItem × σ) :=
  match dir with
  | .live _ _ dir => fat16FindItemInDir al vol dir name s
  | _ => none

/-- The loop of `fat16_get_dir_entry` over the parts behind the first,
with the item the walk has come to. -/
def fat16WalkLoop (al : Allocator σ) (vol : Volume) :
    List (List UInt8) → Option FatItem → σ → Option (Option FatItem × σ)
  | [], currItem, s => some (currItem, s)
  | _ :: _, none, _ => none
  | _ :: _, some (.file _ _), s => some (none, s)
  | part :: parts, some (.dir addr dir), s => do
      let (tmpItem, s) ← fat16FindItemInDirPtr al vol dir part s
      let s ← fat16FatItemFree al (.dir addr dir) s
      fat16WalkLoop al vol parts tmpItem s

/-- `fat16_get_dir_entry`, for the first part of a path and the parts
that follow. -/
def fat16GetDirEntry (al : Allocator σ) (vol : Volume) (part : List UInt8)
    (next : List (List UInt8)) (s : σ) : Option (Option FatItem × σ) := do
  let (rootItem, s) ← fat16FindItemInDir al vol vol.rootDir part s
  match rootItem with
  | none => some (none, s)
  | some rootItem => fat16WalkLoop al vol next (some rootItem) s

end BenOS.Fat
