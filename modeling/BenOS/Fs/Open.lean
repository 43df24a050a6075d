/-
Opening and closing files: `fopen` and `fclose` of `fs/file.c`, over
`fat16_open` and `fat16_close`.

An open file is the descriptor the file system gave, with the blocks of
the two descriptors. There is one disk; the file system it was resolved
to is the volume, or none.
-/
import BenOS.Fs.File
import BenOS.Fs.Path
import BenOS.Memory.Kheap

namespace BenOS.Fs

open Fat Memory

variable {σ : Type}

-- ================================================================ the heap

/-- The kernel heap as the file system calls it. -/
def kernelAllocator : Allocator Ram where
  kzalloc := fun size r =>
    let a := kzalloc size r
    (if a.1 = 0#32 then none else some a.1, a.2)
  kfree := fun ptr r => kfree (ptr.getD 0#32) r

-- ============================================================== open files

/-- `struct file_descriptor` at its address, with the private data at
its. -/
structure OpenFile where
  desc : Addr
  priv : Addr
  fat : FatFileDescriptor

/-- `file_descriptors` -/
abbrev OpenFiles := Fin benosMaxFileDescriptors → Option OpenFile

/-- The descriptors by their private data, as the reading calls take
them. -/
def OpenFiles.descriptors (files : OpenFiles) : FileDescriptors :=
  fun i => (files i).map OpenFile.fat

/-- `sizeof(struct fat_file_descriptor)` -/
abbrev sizeofFatFileDescriptor : Nat := 8

/-- `sizeof(struct file_descriptor)` -/
abbrev sizeofFileDescriptor : Nat := 16

/-- `FILE_MODE` -/
inductive FileMode
  | read
  | write
  | append
  | invalid
deriving DecidableEq

/-- `file_get_mode_by_string`: one byte is compared. -/
def fileGetModeByString (str : List UInt8) : FileMode :=
  if str.headD 0 = 0x72 then .read
  else if str.headD 0 = 0x77 then .write
  else if str.headD 0 = 0x61 then .append
  else .invalid

-- =================================================================== fat16

/-- `fat16_open`: an error code, or the descriptor at its address. -/
def fat16Open (al : Allocator σ) (vol : Volume) (part : List UInt8)
    (next : List (List UInt8)) (mode : FileMode) (s : σ) :
    Option (Except Int (Addr × FatFileDescriptor) × σ) :=
  if mode ≠ .read then some (.error (-ereadonly), s)
  else
    match al.kzalloc sizeofFatFileDescriptor s with
    | (none, s) => some (.error (-enomem), s)
    | (some descriptor, s) => do
        let (item, s) ← fat16GetDirEntry al vol part next s
        match item with
        | none => some (.error (-eio), al.kfree (some descriptor) s)
        | some item => some (.ok (descriptor, { item := item, pos := 0 }), s)

/-- `fat16_close`: its result is always 0. -/
def fat16Close (al : Allocator σ) (priv : Addr) (fat : FatFileDescriptor)
    (s : σ) : Option σ := do
  let s ← fat16FatItemFree al fat.item s
  some (al.kfree (some priv) s)

-- ==================================================================== files

/-- The lowest place of the table without a descriptor. -/
def freePlace (files : OpenFiles) : Option (Fin benosMaxFileDescriptors) :=
  (List.finRange benosMaxFileDescriptors).find? fun i => (files i).isNone

/-- `file_new_descriptor`, with what `fopen` puts into the descriptor: its
result, which is the index where it is not negative. -/
def fileNewDescriptor (al : Allocator σ) (files : OpenFiles) (priv : Addr)
    (fat : FatFileDescriptor) (s : σ) : Option (Int × OpenFiles × σ) :=
  match freePlace files with
  | none => some (-enomem, files, s)
  | some i =>
      match al.kzalloc sizeofFileDescriptor s with
      | (none, _) => none
      | (some desc, s) =>
          some (i.val + 1,
            Function.update files i (some ⟨desc, priv, fat⟩), s)

/-- `fopen` behind the parser, before it turns errors to 0. -/
def fopenPath (al : Allocator σ) (vol : Option Volume) (files : OpenFiles)
    (root : PathRoot) (mode : List UInt8) (s : σ) :
    Option (Int × OpenFiles × σ) :=
  match root.parts with
  | [] => some (-einvarg, files, s)
  | first :: next =>
      -- `disk_get`
      if root.driveNo ≠ 0 then some (-eio, files, s)
      else
        match vol with
        | none => some (-eio, files, s)
        | some vol =>
            let mode := fileGetModeByString mode
            if mode = .invalid then some (-einvarg, files, s)
            else do
              let (r, s) ← fat16Open al vol first.part (next.map PathPart.part)
                mode s
              match r with
              | .error err => some (err, files, s)
              | .ok (priv, fat) =>
                  -- `ISERR` of the pointer
                  if priv.toInt < 0 then some (priv.toInt, files, s)
                  else fileNewDescriptor al files priv fat s

/-- `fopen` -/
def fopen (al : Allocator σ) (vol : Option Volume) (files : OpenFiles)
    (filename mode : List UInt8) (s : σ) : Option (Int × OpenFiles × σ) := do
  let (root, s) ← pathparserParse al filename s
  match root with
  | none => some (0, files, s)
  | some root =>
      let (res, files, s) ← fopenPath al vol files root mode s
      some (if res < 0 then 0 else res, files, s)

/-- `fclose` -/
def fclose (al : Allocator σ) (files : OpenFiles) (fd : Int) (s : σ) :
    Option (Int × OpenFiles × σ) :=
  match fileDescriptorIndex fd with
  | none => some (-eio, files, s)
  | some i =>
      match files i with
      | none => some (-eio, files, s)
      | some file => do
          let s ← fat16Close al file.priv file.fat s
          some (0, Function.update files i none, al.kfree (some file.desc) s)

/-- `fseek` on open files. -/
def OpenFiles.fseek (files : OpenFiles) (fd : Int) (offset : UInt32)
    (whence : Nat) : Option (Int × OpenFiles) :=
  match Fs.fseek files.descriptors fd offset whence with
  | none => none
  | some (res, descs) =>
      some (res, fun i => (files i).bind fun file =>
        (descs i).map fun fat => { file with fat := fat })

end BenOS.Fs
