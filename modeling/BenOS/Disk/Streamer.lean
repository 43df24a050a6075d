/-
The disk and the byte stream over it: `disk/disk.c` and
`disk/streamer.c`.

A disk is what `disk_read_block` delivers for each block number, a block
being `BENOS_SECTOR_SIZE` cells. The cells may be of any type: the kernel
reads bytes, and a disk whose cells name their own place shows where a
byte came from.

A stream is its position. The reader recurses from block to block; its
first argument bounds the recursion, and `diskstreamerRead` gives it one
step for every cell asked for and one more. A result `none` is a read of
the block buffer outside its bounds.

`diskstreamerReadLogged` is the same reader with the numbers of the
blocks it asks the disk for.
-/
import BenOS.Config
import BenOS.Lib.Int32
import BenOS.Lib.Traced

namespace BenOS.Disk

open Lib

/-- What each block of a disk holds. -/
abbrev Image (β : Type) := BitVec 32 → Nat → β

variable {β : Type}

/-- `disk_read_block` on the one disk there is. -/
def diskReadBlock (image : Image β) (lba : BitVec 32) : Int × (Nat → β) :=
  (0, image lba)

/-- What a read leaves behind: its result, the cells it wrote from `out`
on, and the position of the stream. -/
structure StreamRead (β : Type) where
  res : Int
  out : List β
  pos : Int

/-- `diskstreamer_read` at a position. -/
def diskstreamerReadLoop (image : Image β) :
    Nat → Int → Int → Option (StreamRead β)
  | 0, _, _ => none
  | fuel + 1, pos, total =>
      let sector := pos.tdiv benosSectorSize
      let offset := pos.tmod benosSectorSize
      let overflow := toInt32 (offset + total) ≥ benosSectorSize
      let totalToRead :=
        if overflow then total - (offset + total - benosSectorSize)
        else total
      let r := diskReadBlock image (BitVec.ofInt 32 sector)
      if r.1 < 0 then some { res := r.1, out := [], pos := pos }
      else if 0 < totalToRead
          ∧ (offset < 0 ∨ benosSectorSize < offset + totalToRead) then none
      else
        let out := (List.range totalToRead.toNat).map fun i =>
          r.2 (offset.toNat + i)
        let pos := toInt32 (pos + totalToRead)
        if overflow then
          match diskstreamerReadLoop image fuel pos (total - totalToRead) with
          | none => none
          | some rest => some { rest with out := out ++ rest.out }
        else some { res := r.1, out := out, pos := pos }

/-- `diskstreamer_seek` followed by `diskstreamer_read`: every use of a
stream seeks first. -/
@[irreducible] def diskstreamerRead (image : Image β) (pos total : Int) :
    Option (StreamRead β) :=
  diskstreamerReadLoop image (total.toNat + 1) pos total

-- ================================================================ requests

/-- `disk_read_block`, which asks for one block. -/
def diskReadBlockLogged (image : Image β) (lba : BitVec 32) :
    Traced (BitVec 32) (Int × (Nat → β)) :=
  Traced.look lba (diskReadBlock image lba)

/-- `diskstreamer_read` at a position, with the blocks it asks for. -/
def diskstreamerReadLoggedLoop (image : Image β) :
    Nat → Int → Int → Traced (BitVec 32) (Option (StreamRead β))
  | 0, _, _ => pure none
  | fuel + 1, pos, total => do
      let sector := pos.tdiv benosSectorSize
      let offset := pos.tmod benosSectorSize
      let overflow := toInt32 (offset + total) ≥ benosSectorSize
      let totalToRead :=
        if overflow then total - (offset + total - benosSectorSize)
        else total
      let r ← diskReadBlockLogged image (BitVec.ofInt 32 sector)
      if r.1 < 0 then pure (some { res := r.1, out := [], pos := pos })
      else if 0 < totalToRead
          ∧ (offset < 0 ∨ benosSectorSize < offset + totalToRead) then
        pure none
      else
        let out := (List.range totalToRead.toNat).map fun i =>
          r.2 (offset.toNat + i)
        let pos := toInt32 (pos + totalToRead)
        if overflow then
          match ← diskstreamerReadLoggedLoop image fuel pos
              (total - totalToRead) with
          | none => pure none
          | some rest => pure (some { rest with out := out ++ rest.out })
        else pure (some { res := r.1, out := out, pos := pos })

/-- `diskstreamer_seek` followed by `diskstreamer_read`, with the blocks
it asks for. -/
def diskstreamerReadLogged (image : Image β) (pos total : Int) :
    Traced (BitVec 32) (Option (StreamRead β)) :=
  diskstreamerReadLoggedLoop image (total.toNat + 1) pos total

end BenOS.Disk
