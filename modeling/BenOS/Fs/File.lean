/-
The file descriptor table of `fs/file.c`, and the calls that go through
it to an open file of the one volume there is.

A descriptor number is one more than its place in the table, and the last
place is never reached by a number that is accepted.
-/
import BenOS.Fat.File

namespace BenOS.Fs

open Lib Disk Fat

variable {β : Type}

/-- The file descriptor table, by the private data of the file system. -/
abbrev FileDescriptors := Fin benosMaxFileDescriptors → Option FatFileDescriptor

/-- The place `file_get_descriptor` looks a number up at. -/
def fileDescriptorIndex (fd : Int) : Option (Fin benosMaxFileDescriptors) :=
  if h : fd ≤ 0 ∨ fd ≥ benosMaxFileDescriptors then none
  else some ⟨(fd - 1).toNat, by
    simp only [benosMaxFileDescriptors] at h ⊢
    omega⟩

/-- `file_get_descriptor` -/
def fileGetDescriptor (table : FileDescriptors) (fd : Int) :
    Option FatFileDescriptor :=
  match fileDescriptorIndex fd with
  | none => none
  | some i => table i

/-- `fread` -/
def fread (vol : Volume) (image : Image β) (table : FileDescriptors)
    (size nmemb : UInt32) (fd : Int) : Option (FatRead β) :=
  if size = 0 ∨ nmemb = 0 then some { res := -einvarg, out := [] }
  else
    match fileGetDescriptor table fd with
    | none => some { res := -einvarg, out := [] }
    | some desc => fat16Read vol image desc size nmemb

/-- `fseek`: the result and the table. -/
def fseek (table : FileDescriptors) (fd : Int) (offset : UInt32)
    (whence : Nat) : Option (Int × FileDescriptors) :=
  match fileDescriptorIndex fd with
  | none => some (-eio, table)
  | some i =>
      match table i with
      | none => some (-eio, table)
      | some desc =>
          match fat16Seek desc offset whence with
          | none => none
          | some (res, desc) =>
              some (res, Function.update table i (some desc))

/-- `fstat` -/
def fstat (table : FileDescriptors) (fd : Int) :
    Option (Int × Option FileStat) :=
  match fileGetDescriptor table fd with
  | none => some (-eio, none)
  | some desc => fat16Stat desc

end BenOS.Fs
