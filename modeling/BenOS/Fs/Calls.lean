/-
The calls of `fs/file.c` with what they access: `fopen`, `fstat`, `fseek`,
`fread` and `fclose`, over the functions of `Fat/Access`.

These are the same calls as in `Fs/File` and `Fs/Open`, with a log, on the
table of open files and the heap.
-/
import BenOS.Fat.Access
import BenOS.Fs.Open

namespace BenOS.Fs

open Lib Disk Fat Traced

variable {σ : Type}

-- ================================================================= opening

/-- `fat16_open` -/
def fat16OpenLogged (al : Allocator σ) (vol : Volume) (part : List UInt8)
    (next : List (List UInt8)) (mode : FileMode) (s : σ) :
    Traced FatAccess (Option (Except Int (Addr × FatFileDescriptor) × σ)) :=
  if mode ≠ .read then pure (some (.error (-ereadonly), s))
  else
    match al.kzalloc sizeofFatFileDescriptor s with
    | (none, s) => pure (some (.error (-enomem), s))
    | (some descriptor, s) => do
        match ← fat16GetDirEntryLogged al vol part next s with
        | none => pure none
        | some (none, s) =>
            pure (some (.error (-eio), al.kfree (some descriptor) s))
        | some (some item, s) =>
            pure (some (.ok (descriptor, { item := item, pos := 0 }), s))

/-- `fopen` behind the parser, before it turns errors to 0. -/
def fopenPathLogged (al : Allocator σ) (vol : Option Volume)
    (files : OpenFiles) (root : PathRoot) (mode : List UInt8) (s : σ) :
    Traced FatAccess (Option (Int × OpenFiles × σ)) :=
  match root.parts with
  | [] => pure (some (-einvarg, files, s))
  | first :: next =>
      if root.driveNo ≠ 0 then pure (some (-eio, files, s))
      else
        match vol with
        | none => pure (some (-eio, files, s))
        | some vol =>
            let mode := fileGetModeByString mode
            if mode = .invalid then pure (some (-einvarg, files, s))
            else do
              match ← fat16OpenLogged al vol first.part
                  (next.map PathPart.part) mode s with
              | none => pure none
              | some (.error err, s) => pure (some (err, files, s))
              | some (.ok (priv, fat), s) =>
                  pure (if priv.toInt < 0 then some (priv.toInt, files, s)
                    else fileNewDescriptor al files priv fat s)

/-- `fopen` -/
def fopenLogged (al : Allocator σ) (vol : Option Volume) (files : OpenFiles)
    (filename mode : List UInt8) (s : σ) :
    Traced FatAccess (Option (Int × OpenFiles × σ)) :=
  match pathparserParse al filename s with
  | none => pure none
  | some (none, s) => pure (some (0, files, s))
  | some (some root, s) => do
      let r ← fopenPathLogged al vol files root mode s
      pure (r.map fun (res, files, s) => (if res < 0 then 0 else res, files, s))

-- =================================================================== calls

/-- A call on a descriptor. -/
inductive FdOp
  | fstat
  | fseek (offset : UInt32) (whence : Nat)
  | fread (size nmemb : UInt32)
  | fclose
deriving DecidableEq

/-- The table of open files, and the heap. -/
structure FsState (σ : Type) where
  files : OpenFiles
  heap : σ

section Calls

variable (al : Allocator σ) (vol : Volume) (raw : Addr → FatDirItem) (fd : Int)

/-- `fseek`: the position is in the descriptor of the file system. -/
def fseekLogged (offset : UInt32) (whence : Nat) (st : FsState σ) :
    Traced FatAccess (Option (Int × FsState σ)) :=
  match fileDescriptorIndex fd with
  | none => pure (some (-eio, st))
  | some i =>
      match st.files i with
      | none => pure (some (-eio, st))
      | some file => do
          let r ← fat16SeekLogged file.fat offset whence
          pure (r.map fun (res, fat) => (res, { st with
            files := Function.update st.files i
              (some { file with fat := fat }) }))

/-- `fclose` -/
def fcloseLogged (st : FsState σ) :
    Traced FatAccess (Option (Int × FsState σ)) :=
  match fileDescriptorIndex fd with
  | none => pure (some (-eio, st))
  | some i =>
      match st.files i with
      | none => pure (some (-eio, st))
      | some file => do
          let s ← fat16FatItemFreeLogged al file.fat.item st.heap
          pure (s.map fun s => (0,
            { files := Function.update st.files i none
              heap := al.kfree (some file.desc)
                (al.kfree (some file.priv) s) }))

/-- A call on the descriptor `fd`: its result, and the state it leaves. -/
def fdCall (op : FdOp) (st : FsState σ) :
    Traced FatAccess (Option (Int × FsState σ)) :=
  match op with
  | .fstat =>
      match fileGetDescriptor st.files.descriptors fd with
      | none => pure (some (-eio, st))
      | some desc => do
          let r ← fat16StatLogged desc
          pure (r.map fun r => (r.1, st))
  | .fseek offset whence => fseekLogged fd offset whence st
  | .fread size nmemb =>
      if size = 0 ∨ nmemb = 0 then pure (some (-einvarg, st))
      else
        match fileGetDescriptor st.files.descriptors fd with
        | none => pure (some (-einvarg, st))
        | some desc => do
            let r ← fat16ReadLogged vol raw desc size nmemb
            pure (r.map fun r => (r.res, st))
  | .fclose => fcloseLogged al fd st

end Calls

end BenOS.Fs
