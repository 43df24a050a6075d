/-
Open files of a FAT16 volume: reading, seeking and stat, from
`fs/fat/fat16.c`.

A descriptor is the item it was opened on and a position. `fat16_read`
takes the item for a file whatever its type; on a directory, and on a
file whose entry could not be copied, it has no outcome here.
-/
import BenOS.Fat.Dir

namespace BenOS.Fat

open Lib Disk

variable {β : Type}

/-- `struct fat_file_descriptor` -/
structure FatFileDescriptor where
  item : FatItem
  pos : UInt32

/-- `SEEK_SET` -/
abbrev seekSet : Nat := 0

/-- `SEEK_CUR` -/
abbrev seekCur : Nat := 1

/-- `SEEK_END` -/
abbrev seekEnd : Nat := 2

/-- `FILE_STAT_READ_ONLY` -/
abbrev fileStatReadOnly : Nat := 0b00000001

/-- `struct file_stat` -/
structure FileStat where
  flags : Nat
  size : UInt32
deriving DecidableEq

/-- The directory entry a descriptor's item points to, as a file's. -/
def FatFileDescriptor.dirItem (desc : FatFileDescriptor) :
    Option FatDirItem :=
  match desc.item with
  | .file _ (some (_, item)) => some item
  | _ => none

/-- The loop of `fat16_read` over the items left, from an offset. -/
def fat16ReadLoop (vol : Volume) (image : Image β) (item : FatDirItem)
    (size : UInt32) (nmemb : UInt32) : Nat → Int → Option (FatRead β)
  | 0, _ => some { res := toInt32 nmemb.toNat, out := [] }
  | k + 1, offset => do
      let r ← fat16ReadInternal vol image (fat16GetFirstCluster item) offset
        (toInt32 size.toNat)
      if r.res < 0 then some r
      else
        let rest ← fat16ReadLoop vol image item size nmemb k
          (toInt32 (offset + size.toNat))
        some { rest with out := r.out ++ rest.out }

/-- `fat16_read`: the position stays as it is. -/
def fat16Read (vol : Volume) (image : Image β) (desc : FatFileDescriptor)
    (size nmemb : UInt32) : Option (FatRead β) := do
  let item ← desc.dirItem
  fat16ReadLoop vol image item size nmemb nmemb.toNat (toInt32 desc.pos.toNat)

/-- `fat16_seek`. A file whose entry could not be copied is dereferenced;
a directory is refused. -/
def fat16Seek (desc : FatFileDescriptor) (offset : UInt32) (seekMode : Nat) :
    Option (Int × FatFileDescriptor) :=
  match desc.item with
  | .dir _ _ => some (-einvarg, desc)
  | .file _ none => none
  | .file _ (some (_, ritem)) =>
      if offset ≥ ritem.fileSize then some (-eio, desc)
      else if seekMode = seekSet then some (0, { desc with pos := offset })
      else if seekMode = seekEnd then some (-eunimp, desc)
      else if seekMode = seekCur then
        some (0, { desc with pos := desc.pos + offset })
      else some (-einvarg, desc)

/-- `fat16_stat`: the result, and the stat where that is 0. -/
def fat16Stat (desc : FatFileDescriptor) : Option (Int × Option FileStat) :=
  match desc.item with
  | .dir _ _ => some (-einvarg, none)
  | .file _ none => none
  | .file _ (some (_, ritem)) =>
      some (0, some
        { size := ritem.fileSize
          flags :=
            if ritem.attributes &&& fatFileReadOnly ≠ 0 then fileStatReadOnly
            else 0x00 })

end BenOS.Fat
