/-
The functions of `fs/fat/fat16.c` with what they access.

These are the same functions as in `Fat/Dir` and `Fat/File`, with a log:
of each read of a member of the union in `struct fat_item`, and of each
call of the two functions that read the disk in a loop,
`fat16_read_internal` and `fat16_get_total_items_for_dir`. Where
`fat16_read` takes a directory for a file, it finds at the address of the
directory whatever `raw` says is there.

The loops take the functions they call as parameters.
-/
import BenOS.Fat.File
import BenOS.Lib.Traced

namespace BenOS.Fat

open Lib Disk Traced

variable {σ : Type}

/-- The members of the union in `struct fat_item`. -/
inductive ItemMember
  | item
  | dir
deriving DecidableEq

/-- What is accessed. -/
inductive FatAccess
  /-- `item->item` or `item->dir` is read. -/
  | member (m : ItemMember)
  /-- `fat16_read_internal` reads file data into a buffer. -/
  | readInternal (offset total : Int)
  /-- `fat16_get_total_items_for_dir` scans from a stream position on. -/
  | scanDir (pos : Int)
deriving DecidableEq

-- ==================================================================== reading

/-- `fat16_read_internal` -/
def fat16ReadInternalLogged (vol : Volume) (startCluster offset total : Int) :
    Traced FatAccess (Option (FatRead UInt8)) :=
  look (.readInternal offset total)
    (fat16ReadInternal vol vol.disk startCluster offset total)

/-- `fat16_get_total_items_for_dir` -/
def fat16GetTotalItemsForDirLogged (disk : Image UInt8) (dirStartSector : Int) :
    Traced FatAccess (Option Int) :=
  look (.scanDir (toInt32 (dirStartSector * benosSectorSize)))
    (fat16GetTotalItemsForDir disk dirStartSector)

-- ================================================================== open files

/-- The address in a pointer to a directory. -/
def dirPtrAddress : DirPtr → Addr
  | .null => 0#32
  | .freed addr => addr
  | .live addr _ _ => addr

/-- `item->item`, and what it points to. -/
def itemOf (raw : Addr → FatDirItem) (item : FatItem) :
    Traced FatAccess FatDirItem :=
  look (.member .item)
    (match item with
    | .dir _ dir => raw (dirPtrAddress dir)
    | .file _ none => raw 0#32
    | .file _ (some (_, item)) => item)

/-- `fat16_stat` -/
def fat16StatLogged (desc : FatFileDescriptor) :
    Traced FatAccess (Option (Int × Option FileStat)) :=
  match desc.item with
  | .dir _ _ => pure (some (-einvarg, none))
  | .file _ _ => look (.member .item) (fat16Stat desc)

/-- `fat16_seek` -/
def fat16SeekLogged (desc : FatFileDescriptor) (offset : UInt32)
    (seekMode : Nat) : Traced FatAccess (Option (Int × FatFileDescriptor)) :=
  match desc.item with
  | .dir _ _ => pure (some (-einvarg, desc))
  | .file _ _ => look (.member .item) (fat16Seek desc offset seekMode)

/-- The loop of `fat16_read` over the items left, from an offset; `read`
is `fat16_read_internal` at an offset. -/
def fat16ReadLoopLogged
    (read : Int → Traced FatAccess (Option (FatRead UInt8)))
    (size nmemb : UInt32) : Nat → Int → Traced FatAccess (Option (FatRead UInt8))
  | 0, _ => pure (some { res := toInt32 nmemb.toNat, out := [] })
  | k + 1, offset => do
      match ← read offset with
      | none => pure none
      | some r =>
          if r.res < 0 then pure (some r)
          else do
            let rest ← fat16ReadLoopLogged read size nmemb k
              (toInt32 (offset + size.toNat))
            pure (rest.map fun rest => { rest with out := r.out ++ rest.out })

/-- `fat16_read`, which does not look at the type of the item. -/
def fat16ReadLogged (vol : Volume) (raw : Addr → FatDirItem)
    (desc : FatFileDescriptor) (size nmemb : UInt32) :
    Traced FatAccess (Option (FatRead UInt8)) := do
  let item ← itemOf raw desc.item
  fat16ReadLoopLogged
    (fun offset => fat16ReadInternalLogged vol (fat16GetFirstCluster item)
      offset (toInt32 size.toNat))
    size nmemb nmemb.toNat (toInt32 desc.pos.toNat)

/-- `fat16_fat_item_free` -/
def fat16FatItemFreeLogged (al : Allocator σ) (item : FatItem) (s : σ) :
    Traced FatAccess (Option σ) :=
  match item with
  | .dir _ _ => look (.member .dir) (fat16FatItemFree al item s)
  | .file _ _ => look (.member .item) (fat16FatItemFree al item s)

-- ================================================================= directories

/-- `fat16_load_fat_dir` -/
def fat16LoadFatDirLogged (al : Allocator σ) (vol : Volume) (item : FatDirItem)
    (s : σ) : Traced FatAccess (Option (DirPtr × σ)) :=
  if item.attributes &&& fatFileSubdirectory = 0 then pure (some (.null, s))
  else
    match al.kzalloc sizeofFatDir s with
    | (none, s) => pure (some (.null, s))
    | (some dir, s) => do
        let cluster := fat16GetFirstCluster item
        let clusterSector := fat16ClusterToSector vol cluster
        match ← fat16GetTotalItemsForDirLogged vol.disk clusterSector with
        | none => pure none
        | some totalItems =>
            let dirSize := toInt32 (totalItems * sizeofFatDirItem)
            match al.kzalloc (toUint32 dirSize).toNat s with
            | (none, s) => pure (some (.freed dir, al.kfree (some dir) s))
            | (some items, s) => do
                match ← fat16ReadInternalLogged vol cluster 0x00 dirSize with
                | none => pure none
                | some r =>
                    if r.res ≠ benosAllOk then
                      pure (some (.freed dir,
                        al.kfree (some dir) (al.kfree (some items) s)))
                    else
                      pure (some (.live dir items
                        { items := itemsOfBytes
                            ((toUint32 dirSize).toNat / sizeofFatDirItem) r.out
                          total := totalItems
                          sectorPos := 0
                          endingSectorPos := 0 }, s))

/-- `fat16_new_fat_item_for_dir_item` -/
def fat16NewFatItemForDirItemLogged (al : Allocator σ) (vol : Volume)
    (item : FatDirItem) (s : σ) :
    Traced FatAccess (Option (Option FatItem × σ)) :=
  match al.kzalloc sizeofFatItem s with
  | (none, s) => pure (some (none, s))
  | (some fItem, s) =>
      if item.attributes &&& fatFileSubdirectory ≠ 0 then do
        let r ← fat16LoadFatDirLogged al vol item s
        pure (r.map fun (dir, s) => (some (.dir fItem dir), s))
      else
        let r := fat16CloneDirItem al item s
        pure (some (some (.file fItem r.1), r.2))

/-- The loop of `fat16_find_item_in_dir`; `newItem` is
`fat16_new_fat_item_for_dir_item`. -/
def fat16FindLoopLogged
    (newItem : FatDirItem → σ → Traced FatAccess (Option (Option FatItem × σ)))
    (items : List FatDirItem) (name : List UInt8) :
    Nat → Nat → Option FatItem → σ →
      Traced FatAccess (Option (Option FatItem × σ))
  | 0, _, fItem, s => pure (some (fItem, s))
  | k + 1, i, fItem, s =>
      match items[i]? with
      | none => pure none
      | some item =>
          if nameMatches item name then do
            match ← newItem item s with
            | none => pure none
            | some (fItem, s) =>
                fat16FindLoopLogged newItem items name k (i + 1) fItem s
          else fat16FindLoopLogged newItem items name k (i + 1) fItem s

/-- `fat16_find_item_in_dir` in a directory that is there. -/
def fat16FindItemInDirLogged (al : Allocator σ) (vol : Volume) (dir : FatDir)
    (name : List UInt8) (s : σ) :
    Traced FatAccess (Option (Option FatItem × σ)) :=
  fat16FindLoopLogged (fat16NewFatItemForDirItemLogged al vol) dir.items name
    dir.total.toNat 0 none s

/-- `fat16_find_item_in_dir` -/
def fat16FindItemInDirPtrLogged (al : Allocator σ) (vol : Volume)
    (dir : DirPtr) (name : List UInt8) (s : σ) :
    Traced FatAccess (Option (Option FatItem × σ)) :=
  match dir with
  | .live _ _ dir => fat16FindItemInDirLogged al vol dir name s
  | _ => pure none

/-- The loop of `fat16_get_dir_entry`; `find` is `fat16_find_item_in_dir`
and `free` is `fat16_fat_item_free`. -/
def fat16WalkLoopLogged
    (find : DirPtr → List UInt8 → σ →
      Traced FatAccess (Option (Option FatItem × σ)))
    (free : FatItem → σ → Traced FatAccess (Option σ)) :
    List (List UInt8) → Option FatItem → σ →
      Traced FatAccess (Option (Option FatItem × σ))
  | [], currItem, s => pure (some (currItem, s))
  | _ :: _, none, _ => pure none
  | _ :: _, some (.file _ _), s => pure (some (none, s))
  | part :: parts, some (.dir addr dir), s => do
      -- `curr_item->dir`
      let dir ← look (.member .dir) dir
      match ← find dir part s with
      | none => pure none
      | some (tmpItem, s) => do
          match ← free (.dir addr dir) s with
          | none => pure none
          | some s => fat16WalkLoopLogged find free parts tmpItem s

/-- `fat16_get_dir_entry` -/
def fat16GetDirEntryLogged (al : Allocator σ) (vol : Volume)
    (part : List UInt8) (next : List (List UInt8)) (s : σ) :
    Traced FatAccess (Option (Option FatItem × σ)) := do
  match ← fat16FindItemInDirLogged al vol vol.rootDir part s with
  | none => pure none
  | some (none, s) => pure (some (none, s))
  | some (some rootItem, s) =>
      fat16WalkLoopLogged (fat16FindItemInDirPtrLogged al vol)
        (fat16FatItemFreeLogged al) next (some rootItem) s

end BenOS.Fat
