/-
The functions of `Fat/Access` compute what those of `Fat/Dir` and
`Fat/File` compute, and a loop accesses what its rounds access.
-/
import BenOS.Fat.Access
import BenOS.Fat.Proofs.Lookup

namespace BenOS.Fat

open Lib Disk Traced

variable {σ : Type}

-- ================================================================ one function

theorem val_fat16StatLogged (desc : FatFileDescriptor) :
    (fat16StatLogged desc).val = fat16Stat desc := by
  unfold fat16StatLogged fat16Stat
  cases desc.item with
  | dir addr dir => rfl
  | file addr item => rfl

theorem val_fat16SeekLogged (desc : FatFileDescriptor) (offset : UInt32)
    (seekMode : Nat) :
    (fat16SeekLogged desc offset seekMode).val
      = fat16Seek desc offset seekMode := by
  unfold fat16SeekLogged fat16Seek
  cases desc.item with
  | dir addr dir => rfl
  | file addr item => rfl

theorem val_fat16FatItemFreeLogged (al : Allocator σ) (item : FatItem) (s : σ) :
    (fat16FatItemFreeLogged al item s).val = fat16FatItemFree al item s := by
  unfold fat16FatItemFreeLogged
  cases item with
  | dir addr dir => rfl
  | file addr item => rfl

theorem val_fat16LoadFatDirLogged (al : Allocator σ) (vol : Volume)
    (item : FatDirItem) (s : σ) :
    (fat16LoadFatDirLogged al vol item s).val
      = fat16LoadFatDir al vol item s := by
  unfold fat16LoadFatDirLogged fat16LoadFatDir
  by_cases hdir : item.attributes &&& fatFileSubdirectory = 0
  · rw [if_pos hdir, if_pos hdir]
    rfl
  · rw [if_neg hdir, if_neg hdir]
    generalize al.kzalloc sizeofFatDir s = q
    obtain ⟨ptr, s⟩ := q
    cases ptr with
    | none => rfl
    | some dir =>
        simp only [Option.bind_eq_bind]
        unfold fat16GetTotalItemsForDirLogged fat16ReadInternalLogged
        rw [val_bind, val_look]
        cases fat16GetTotalItemsForDir vol.disk
            (fat16ClusterToSector vol (fat16GetFirstCluster item)) with
        | none => rfl
        | some totalItems =>
            rw [Option.bind_some]
            simp only
            generalize al.kzalloc
              (toUint32 (toInt32 (totalItems * sizeofFatDirItem))).toNat s = q
            obtain ⟨ptr, s⟩ := q
            cases ptr with
            | none => rfl
            | some items =>
                simp only
                rw [val_bind, val_look]
                cases fat16ReadInternal vol vol.disk (fat16GetFirstCluster item)
                    0x00 (toInt32 (totalItems * sizeofFatDirItem)) with
                | none => rfl
                | some r =>
                    rw [Option.bind_some]
                    simp only
                    rw [val_ite]
                    rfl

theorem val_fat16NewFatItemForDirItemLogged (al : Allocator σ) (vol : Volume)
    (item : FatDirItem) (s : σ) :
    (fat16NewFatItemForDirItemLogged al vol item s).val
      = fat16NewFatItemForDirItem al vol item s := by
  unfold fat16NewFatItemForDirItemLogged fat16NewFatItemForDirItem
  generalize al.kzalloc sizeofFatItem s = q
  obtain ⟨ptr, s⟩ := q
  cases ptr with
  | none => rfl
  | some fItem =>
      simp only [Option.bind_eq_bind]
      split
      · rw [val_bind, val_fat16LoadFatDirLogged]
        cases fat16LoadFatDir al vol item s with
        | none => rfl
        | some r => rfl
      · rfl

-- ==================================================================== the loops

/-- The loop with a log computes any loop `rounds` that is the same
without one. -/
theorem val_fat16ReadLoopLogged
    {read : Int → Traced FatAccess (Option (FatRead UInt8))}
    {size nmemb : UInt32} (rounds : Nat → Int → Option (FatRead UInt8))
    (hzero : ∀ offset,
      rounds 0 offset = some { res := toInt32 nmemb.toNat, out := [] })
    (hsucc : ∀ k offset, rounds (k + 1) offset = (read offset).val.bind fun r =>
      if r.res < 0 then some r
      else (rounds k (toInt32 (offset + size.toNat))).bind fun rest =>
        some { rest with out := r.out ++ rest.out })
    (k : Nat) :
    ∀ offset, (fat16ReadLoopLogged read size nmemb k offset).val
      = rounds k offset := by
  induction k with
  | zero => exact fun offset => (hzero offset).symm
  | succ k ih =>
      intro offset
      rw [fat16ReadLoopLogged, hsucc, val_bind]
      cases (read offset).val with
      | none => rfl
      | some r =>
          rw [Option.bind_some]
          simp only
          split
          · rfl
          · rw [val_bind, ih]
            cases rounds k (toInt32 (offset + size.toNat)) with
            | none => rfl
            | some rest => rfl

/-- On a file with its entry a read is the read of the file. -/
theorem val_fat16ReadLogged (vol : Volume) (raw : Addr → FatDirItem)
    {desc : FatFileDescriptor} {item : FatDirItem}
    (h : desc.dirItem = some item) (size nmemb : UInt32) :
    (fat16ReadLogged vol raw desc size nmemb).val
      = fat16Read vol vol.disk desc size nmemb := by
  unfold fat16ReadLogged fat16Read
  rw [h]
  unfold FatFileDescriptor.dirItem at h
  split at h
  · next heq =>
      rw [heq]
      cases h
      exact val_fat16ReadLoopLogged
        (fat16ReadLoop vol vol.disk item size nmemb)
        (fun _ => rfl) (fun k offset => by rw [fat16ReadLoop]; rfl) _ _
  · cases h

theorem val_fat16FindLoopLogged (al : Allocator σ) (vol : Volume)
    (items : List FatDirItem) (name : List UInt8) (k : Nat) :
    ∀ (i : Nat) (fItem : Option FatItem) (s : σ),
      (fat16FindLoopLogged (fat16NewFatItemForDirItemLogged al vol) items name
        k i fItem s).val = fat16FindLoop al vol items name k i fItem s := by
  induction k with
  | zero => exact fun _ _ _ => rfl
  | succ k ih =>
      intro i fItem s
      rw [fat16FindLoopLogged, fat16FindLoop]
      simp only [Option.bind_eq_bind]
      cases items[i]? with
      | none => rfl
      | some item =>
          rw [Option.bind_some]
          simp only
          split
          · rw [val_bind, val_fat16NewFatItemForDirItemLogged]
            cases fat16NewFatItemForDirItem al vol item s with
            | none => rfl
            | some r => exact ih _ _ _
          · exact ih _ _ _

theorem val_fat16FindItemInDirLogged (al : Allocator σ) (vol : Volume)
    (dir : FatDir) (name : List UInt8) (s : σ) :
    (fat16FindItemInDirLogged al vol dir name s).val
      = fat16FindItemInDir al vol dir name s :=
  val_fat16FindLoopLogged al vol dir.items name _ _ _ _

theorem val_fat16FindItemInDirPtrLogged (al : Allocator σ) (vol : Volume)
    (dir : DirPtr) (name : List UInt8) (s : σ) :
    (fat16FindItemInDirPtrLogged al vol dir name s).val
      = fat16FindItemInDirPtr al vol dir name s := by
  cases dir with
  | null => rfl
  | freed addr => rfl
  | live addr items dir => exact val_fat16FindItemInDirLogged al vol dir name s

theorem val_fat16WalkLoopLogged (al : Allocator σ) (vol : Volume)
    (parts : List (List UInt8)) :
    ∀ (currItem : Option FatItem) (s : σ),
      (fat16WalkLoopLogged (fat16FindItemInDirPtrLogged al vol)
        (fat16FatItemFreeLogged al) parts currItem s).val
      = fat16WalkLoop al vol parts currItem s := by
  induction parts with
  | nil => exact fun _ _ => rfl
  | cons part parts ih =>
      intro currItem s
      cases currItem with
      | none => rfl
      | some item =>
          cases item with
          | file addr item => rfl
          | dir addr dir =>
              rw [fat16WalkLoopLogged, fat16WalkLoop]
              simp only [Option.bind_eq_bind]
              rw [val_bind, val_look, val_bind, val_fat16FindItemInDirPtrLogged]
              cases fat16FindItemInDirPtr al vol dir part s with
              | none => rfl
              | some r =>
                  rw [Option.bind_some]
                  simp only
                  rw [val_bind, val_fat16FatItemFreeLogged]
                  cases fat16FatItemFree al (.dir addr dir) r.2 with
                  | none => rfl
                  | some s => exact ih _ _

theorem val_fat16GetDirEntryLogged (al : Allocator σ) (vol : Volume)
    (part : List UInt8) (next : List (List UInt8)) (s : σ) :
    (fat16GetDirEntryLogged al vol part next s).val
      = fat16GetDirEntry al vol part next s := by
  unfold fat16GetDirEntryLogged fat16GetDirEntry
  rw [val_bind, val_fat16FindItemInDirLogged]
  simp only [Option.bind_eq_bind]
  cases fat16FindItemInDir al vol vol.rootDir part s with
  | none => rfl
  | some r =>
      obtain ⟨rootItem, s⟩ := r
      cases rootItem with
      | none => rfl
      | some rootItem => exact val_fat16WalkLoopLogged al vol next _ _

/-- A read accesses what its rounds access. -/
theorem logs_readLoop {P : FatAccess → Prop}
    {read : Int → Traced FatAccess (Option (FatRead UInt8))}
    {size nmemb : UInt32} (h : ∀ offset, Logs P (read offset)) (k : Nat) :
    ∀ offset, Logs P (fat16ReadLoopLogged read size nmemb k offset) := by
  induction k with
  | zero => exact fun _ => logs_pure _
  | succ k ih =>
      intro offset
      rw [fat16ReadLoopLogged]
      apply logs_bind (h offset)
      split
      · exact logs_pure _
      · split
        · exact logs_pure _
        · exact logs_bind (ih _) (logs_pure _)

/-- A read of some items accesses what its first round does. -/
theorem logs_readLoop_first {P : FatAccess → Prop}
    {read : Int → Traced FatAccess (Option (FatRead UInt8))}
    {size nmemb : UInt32} {k : Nat} {offset : Int} (hk : k ≠ 0)
    (h : Logs P (fat16ReadLoopLogged read size nmemb k offset)) :
    Logs P (read offset) := by
  obtain ⟨k, rfl⟩ := Nat.exists_eq_succ_of_ne_zero hk
  exact (logs_bind_iff.mp h).1

/-- A search accesses what making the items of its name accesses. -/
theorem logs_findLoop {P : FatAccess → Prop}
    {newItem : FatDirItem → σ → Traced FatAccess (Option (Option FatItem × σ))}
    {items : List FatDirItem} {name : List UInt8} (k : Nat) :
    ∀ (i : Nat) (fItem : Option FatItem) (s : σ),
      (∀ item ∈ (items.drop i).take k, nameMatches item name = true →
        ∀ s, Logs P (newItem item s)) →
      Logs P (fat16FindLoopLogged newItem items name k i fItem s) := by
  induction k with
  | zero => exact fun _ _ _ _ => logs_pure _
  | succ k ih =>
      intro i fItem s h
      rw [fat16FindLoopLogged]
      cases hitem : items[i]? with
      | none => exact logs_pure _
      | some item =>
          rw [List.drop_eq_getElem?_toList_append, hitem] at h
          have hrest := fun other hother =>
            h other (List.mem_cons_of_mem item hother)
          simp only
          split
          · next hname =>
              apply logs_bind (h item List.mem_cons_self hname s)
              split
              · exact logs_pure _
              · exact ih _ _ _ hrest
          · exact ih _ _ _ hrest

end BenOS.Fat
