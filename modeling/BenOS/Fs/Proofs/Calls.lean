/-
The calls of `Fs/Calls` compute what those of `Fs/File` and `Fs/Open`
compute.
-/
import BenOS.Fs.Calls
import BenOS.Fat.Proofs.Access

namespace BenOS.Fs

open Lib Disk Fat Traced

variable {σ : Type}

theorem val_fat16OpenLogged (al : Allocator σ) (vol : Volume)
    (part : List UInt8) (next : List (List UInt8)) (mode : FileMode) (s : σ) :
    (fat16OpenLogged al vol part next mode s).val
      = fat16Open al vol part next mode s := by
  unfold fat16OpenLogged fat16Open
  by_cases hmode : mode ≠ .read
  · rw [if_pos hmode, if_pos hmode]
    rfl
  · rw [if_neg hmode, if_neg hmode]
    generalize al.kzalloc sizeofFatFileDescriptor s = q
    obtain ⟨ptr, s⟩ := q
    cases ptr with
    | none => rfl
    | some descriptor =>
        simp only [Option.bind_eq_bind]
        rw [val_bind, val_fat16GetDirEntryLogged]
        cases fat16GetDirEntry al vol part next s with
        | none => rfl
        | some r =>
            obtain ⟨item, s⟩ := r
            cases item with
            | none => rfl
            | some item => rfl

theorem val_fopenPathLogged (al : Allocator σ) (vol : Option Volume)
    (files : OpenFiles) (root : PathRoot) (mode : List UInt8) (s : σ) :
    (fopenPathLogged al vol files root mode s).val
      = fopenPath al vol files root mode s := by
  unfold fopenPathLogged fopenPath
  cases root.parts with
  | nil => rfl
  | cons first next =>
      simp only
      split
      · rfl
      · cases vol with
        | none => rfl
        | some vol =>
            simp only [Option.bind_eq_bind]
            split
            · rfl
            · rw [val_bind, val_fat16OpenLogged]
              cases fat16Open al vol first.part (next.map PathPart.part)
                  (fileGetModeByString mode) s with
              | none => rfl
              | some r =>
                  obtain ⟨res, s⟩ := r
                  cases res with
                  | error err => rfl
                  | ok desc => rfl

theorem val_fopenLogged (al : Allocator σ) (vol : Option Volume)
    (files : OpenFiles) (filename mode : List UInt8) (s : σ) :
    (fopenLogged al vol files filename mode s).val
      = fopen al vol files filename mode s := by
  unfold fopenLogged fopen
  cases pathparserParse al filename s with
  | none => rfl
  | some r =>
      obtain ⟨root, s⟩ := r
      cases root with
      | none => rfl
      | some root =>
          simp only [Option.bind_eq_bind, Option.bind_some]
          rw [val_bind, val_fopenPathLogged]
          cases fopenPath al vol files root mode s with
          | none => rfl
          | some r => rfl

theorem val_fseekLogged (fd : Int) (offset : UInt32) (whence : Nat)
    (st : FsState σ) :
    (fseekLogged fd offset whence st).val
      = match fileDescriptorIndex fd with
        | none => some (-eio, st)
        | some i =>
            match st.files i with
            | none => some (-eio, st)
            | some file => (fat16Seek file.fat offset whence).map fun r =>
                (r.1, { st with
                  files := Function.update st.files i
                    (some { file with fat := r.2 }) }) := by
  unfold fseekLogged
  cases fileDescriptorIndex fd with
  | none => rfl
  | some i =>
      simp only
      cases st.files i with
      | none => rfl
      | some file =>
          simp only
          rw [val_bind, val_fat16SeekLogged]
          rfl

theorem val_fcloseLogged (al : Allocator σ) (fd : Int) (st : FsState σ) :
    (fcloseLogged al fd st).val
      = (fclose al st.files fd st.heap).map fun r => (r.1, ⟨r.2.1, r.2.2⟩) := by
  unfold fcloseLogged fclose
  cases fileDescriptorIndex fd with
  | none => rfl
  | some i =>
      simp only
      cases st.files i with
      | none => rfl
      | some file =>
          simp only
          rw [val_bind, val_fat16FatItemFreeLogged]
          unfold fat16Close
          cases fat16FatItemFree al file.fat.item st.heap with
          | none => rfl
          | some s => rfl

end BenOS.Fs
