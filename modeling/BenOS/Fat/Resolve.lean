/-
Mounting a FAT16 volume: `fat16_resolve`, which reads the boot sector,
takes the disk for its own where a byte of it has one value, and loads the
root directory.

A result `none` is a write through null, which `diskstreamer_new` and
`fat16_resolve` make where the block they ask for is refused, or what
`fat16_get_root_dir` answers `none` to.
-/
import BenOS.Fat.Dir

namespace BenOS.Fat

open Lib Disk

variable {σ : Type}

/-- `BENOS_FAT16_SIGNATURE` -/
def benosFat16Signature : UInt8 := 0x29

/-- `sizeof(struct fat_h)` -/
abbrev sizeofFatH : Nat := 62

/-- `sizeof(struct fat_private)` -/
abbrev sizeofFatPrivate : Nat := 92

/-- `sizeof(struct disk_stream)` -/
abbrev sizeofDiskStream : Nat := 8

/-- The fields of `struct fat_header` at their places in `struct fat_h`. -/
def FatHeader.ofBytes (bytes : List UInt8) : FatHeader where
  sectorsPerCluster := bytes.getD 13 0
  reservedSectors := UInt16.ofNat (wordAt bytes 14)
  fatCopies := bytes.getD 16 0
  rootDirEntries := UInt16.ofNat (wordAt bytes 17)
  sectorsPerFat := UInt16.ofNat (wordAt bytes 22)

/-- `shared.extended_header.signature` in a `struct fat_h` -/
def fatHSignature (bytes : List UInt8) : UInt8 := bytes.getD 38 0

/-- `diskstreamer_new`, which does not look whether it has got a block. -/
def diskstreamerNew (al : Allocator σ) (s : σ) : Option (Addr × σ) :=
  match al.kzalloc sizeofDiskStream s with
  | (none, _) => none
  | (some stream, s) => some (stream, s)

/-- `fat16_init_private`, whose three streams stay. -/
def fat16InitPrivate (al : Allocator σ) (s : σ) : Option σ := do
  let (_, s) ← diskstreamerNew al s
  let (_, s) ← diskstreamerNew al s
  let (_, s) ← diskstreamerNew al s
  some s

/-- `fat16_resolve` behind its stream: its result, and the volume where
that is 0. -/
def fat16ResolveFrom (al : Allocator σ) (disk : Image UInt8) (s : σ) :
    Option (Int × Option Volume × σ) := do
  let r ← diskstreamerRead disk 0 sizeofFatH
  if r.res ≠ benosAllOk then some (-eio, none, s)
  else if fatHSignature r.out ≠ benosFat16Signature then
    some (-efsnotus, none, s)
  else
    let header := FatHeader.ofBytes r.out
    let (res, rootDir, s) ← fat16GetRootDir al disk header s
    if res ≠ benosAllOk then some (-eio, none, s)
    else
      some (0, rootDir.map fun rootDir =>
        { disk := disk, header := header, rootDir := rootDir }, s)

/-- `fat16_resolve`: its result, and the volume where that is 0. -/
def fat16Resolve (al : Allocator σ) (disk : Image UInt8) (s : σ) :
    Option (Int × Option Volume × σ) :=
  match al.kzalloc sizeofFatPrivate s with
  | (none, _) => none
  | (some fatPrivate, s) => do
      let s ← fat16InitPrivate al s
      let (stream, s) ← diskstreamerNew al s
      let (res, vol, s) ← fat16ResolveFrom al disk s
      -- `diskstreamer_close`
      let s := al.kfree (some stream) s
      some (res, vol, if res < 0 then al.kfree (some fatPrivate) s else s)

/-- The pointers of `struct disk` that mounting sets. -/
structure DiskFields where
  fsPrivate : Addr
  filesystem : Addr
deriving DecidableEq

/-- `fat16_resolve` with the pointers of the disk; `fat16Fs` is where the
`struct filesystem` of FAT16 is. Its result, the volume where that is 0,
and the pointers. -/
def fat16ResolveDisk (al : Allocator σ) (fat16Fs : Addr) (disk : Image UInt8)
    (fields : DiskFields) (s : σ) :
    Option (Int × Option Volume × DiskFields × σ) :=
  match al.kzalloc sizeofFatPrivate s with
  | (none, _) => none
  | (some fatPrivate, s) => do
      let s ← fat16InitPrivate al s
      let fields := { fields with fsPrivate := fatPrivate }
      let fields := { fields with filesystem := fat16Fs }
      let (stream, s) ← diskstreamerNew al s
      let (res, vol, s) ← fat16ResolveFrom al disk s
      -- `diskstreamer_close`
      let s := al.kfree (some stream) s
      if res < 0 then
        some (res, vol, { fields with fsPrivate := 0#32 },
          al.kfree (some fatPrivate) s)
      else some (res, vol, fields, s)

end BenOS.Fat
