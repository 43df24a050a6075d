/-
Opening a path without a division by zero and without a scan that does not
end.

Only the subdirectories that a path meets are scanned and read, so it is
enough that these are sound (`PathGuarded`): the entries of the path's next
name in the directory that the path has come to, which is the one that the
last of them names (`fat16FindLoop_last`).
-/
import BenOS.Fat.Proofs.Access
import BenOS.Fat.Proofs.Termination

namespace BenOS.Fat

open Lib Disk Traced

variable {σ : Type}

-- ============================================================ the requirement

/-- What an access of the disk must be: one that ends, and divides by
nothing that is zero. -/
def SafeAccess (vol : Volume) : FatAccess → Prop
  | .member _ => True
  | .readInternal offset total => ReadEnds vol offset total
  | .scanDir pos => ScanEnds vol.disk pos

-- ============================================================== the condition

/-- The byte `sectors_per_cluster` of the boot sector. -/
def bootSectorsPerCluster (disk : Image UInt8) : UInt8 := disk 0#32 13

/-- Where the first cluster of an entry starts on the disk. -/
def itemPos (vol : Volume) (item : FatDirItem) : Int :=
  toInt32 (fat16ClusterToSector vol (fat16GetFirstCluster item)
    * benosSectorSize)

/-- An entry that is a subdirectory has an end mark on the disk, and
clusters of some bytes. -/
def SoundItem (vol : Volume) (item : FatDirItem) : Prop :=
  item.attributes &&& fatFileSubdirectory ≠ 0 →
    bootSectorsPerCluster vol.disk ≠ 0 ∧ HasEnd vol.disk (itemPos vol item)

/-- The entries of a name among those that lookups compare. -/
def entriesOf (dir : FatDir) (name : List UInt8) : List FatDirItem :=
  (dir.items.take dir.total.toNat).filter fun item => nameMatches item name

/-- What an entry's clusters hold, as a directory in memory. -/
def dirContents (vol : Volume) (item : FatDirItem) : Option FatDir := do
  let cluster := fat16GetFirstCluster item
  let totalItems ← fat16GetTotalItemsForDir vol.disk
    (fat16ClusterToSector vol cluster)
  let dirSize := toInt32 (totalItems * sizeofFatDirItem)
  let r ← fat16ReadInternal vol vol.disk cluster 0x00 dirSize
  if r.res ≠ benosAllOk then none
  else
    some
      { items := itemsOfBytes ((toUint32 dirSize).toNat / sizeofFatDirItem) r.out
        total := totalItems
        sectorPos := 0
        endingSectorPos := 0 }

/-- From a directory on, a path meets sound entries only. -/
def PathGuarded (vol : Volume) : FatDir → List (List UInt8) → Prop
  | _, [] => True
  | dir, name :: names =>
      (∀ item ∈ entriesOf dir name, SoundItem vol item)
        ∧ ∀ item sub, (entriesOf dir name).getLast? = some item →
          dirContents vol item = some sub → PathGuarded vol sub names

-- =============================================================== one directory

section Walk

variable {al : Allocator σ} {vol : Volume}
  (hboot : vol.header.sectorsPerCluster = bootSectorsPerCluster vol.disk)

include hboot in
/-- Loading a sound entry is safe. -/
theorem logs_loadFatDir {item : FatDirItem} (h : SoundItem vol item) (s : σ) :
    Logs (SafeAccess vol) (fat16LoadFatDirLogged al vol item s) := by
  unfold fat16LoadFatDirLogged
  by_cases hdir : item.attributes &&& fatFileSubdirectory = 0
  · rw [if_pos hdir]
    exact logs_pure _
  · obtain ⟨hzero, hends⟩ := h hdir
    rw [if_neg hdir]
    generalize al.kzalloc sizeofFatDir s = q
    obtain ⟨ptr, s⟩ := q
    cases ptr with
    | none => exact logs_pure _
    | some dir =>
        simp only
        apply logs_bind
        · apply logs_look
          exact (scanEnds_iff vol.disk (toInt32_toInt32 _)).mpr hends
        · split
          · exact logs_pure _
          · next totalItems _ =>
              generalize al.kzalloc (toUint32 (toInt32
                (totalItems * sizeofFatDirItem))).toNat s = q
              obtain ⟨ptr, s⟩ := q
              cases ptr with
              | none => exact logs_pure _
              | some items =>
                  simp only
                  apply logs_bind
                  · apply logs_look
                    apply (readEnds_iff vol).mpr
                    rwa [hboot]
                  · split
                    · exact logs_pure _
                    · split
                      · exact logs_pure _
                      · exact logs_pure _

include hboot in
theorem logs_newFatItem {item : FatDirItem} (h : SoundItem vol item) (s : σ) :
    Logs (SafeAccess vol) (fat16NewFatItemForDirItemLogged al vol item s) := by
  unfold fat16NewFatItemForDirItemLogged
  generalize al.kzalloc sizeofFatItem s = q
  obtain ⟨ptr, s⟩ := q
  cases ptr with
  | none => exact logs_pure _
  | some fItem =>
      simp only
      split
      · exact logs_bind (logs_loadFatDir hboot h s) (logs_pure _)
      · exact logs_pure _

theorem mem_entriesOf {dir : FatDir} {name : List UInt8} {item : FatDirItem} :
    item ∈ entriesOf dir name
      ↔ item ∈ dir.items.take dir.total.toNat ∧ nameMatches item name = true :=
  List.mem_filter

include hboot in
/-- A search in a directory whose entries of the name are sound is safe. -/
theorem logs_findItem {dir : FatDir} {name : List UInt8}
    (h : ∀ item ∈ entriesOf dir name, SoundItem vol item) (s : σ) :
    Logs (SafeAccess vol) (fat16FindItemInDirLogged al vol dir name s) := by
  apply logs_findLoop
  intro item hitem hname s
  rw [List.drop_zero] at hitem
  exact logs_newFatItem hboot (h item (mem_entriesOf.mpr ⟨hitem, hname⟩)) s

-- =============================================================== what is found

/-- A directory that is loaded holds what its clusters do. -/
theorem fat16LoadFatDir_contents {item : FatDirItem} {s s' : σ}
    {addr items : Addr} {dir : FatDir}
    (h : fat16LoadFatDir al vol item s = some (.live addr items dir, s')) :
    dirContents vol item = some dir := by
  unfold fat16LoadFatDir at h
  split at h
  · cases h
  · split at h
    · cases h
    · obtain ⟨total, htotal, h⟩ := Option.bind_eq_some_iff.mp h
      simp only at h
      split at h
      · cases h
      · obtain ⟨r, hr, h⟩ := Option.bind_eq_some_iff.mp h
        split at h
        · cases h
        · next hok =>
            have hdir := congrArg Prod.fst (Option.some.inj h)
            simp only [DirPtr.live.injEq] at hdir
            obtain ⟨-, -, rfl⟩ := hdir
            unfold dirContents
            simp only [Option.bind_eq_bind]
            rw [htotal, Option.bind_some, hr, Option.bind_some, if_neg hok]

/-- What a search finds is made of the last entry it meets of the name. -/
theorem fat16FindLoop_last {items : List FatDirItem} {name : List UInt8}
    (k : Nat) :
    ∀ {i : Nat} {fItem fItem' : Option FatItem} {s s' : σ},
      fat16FindLoop al vol items name k i fItem s = some (fItem', s') →
      match (((items.drop i).take k).filter
          fun item => nameMatches item name).getLast? with
      | none => fItem' = fItem
      | some item => ∃ s₁ s₂,
          fat16NewFatItemForDirItem al vol item s₁ = some (fItem', s₂) := by
  induction k with
  | zero =>
      intro i fItem fItem' s s' h
      cases h
      rfl
  | succ k ih =>
      intro i fItem fItem' s s' h
      rw [fat16FindLoop] at h
      obtain ⟨item, hitem, h⟩ := Option.bind_eq_some_iff.mp h
      rw [List.drop_eq_getElem?_toList_append, hitem]
      simp only [Option.toList_some, List.singleton_append,
        List.take_succ_cons, List.filter_cons]
      split at h
      · next hname =>
          obtain ⟨⟨fItem₁, s₁⟩, hnew, h⟩ := Option.bind_eq_some_iff.mp h
          have hlast := ih h
          rw [if_pos hname, List.getLast?_cons]
          cases hrest : (((items.drop (i + 1)).take k).filter
              fun item => nameMatches item name).getLast? with
          | none =>
              rw [hrest] at hlast
              simp only at hlast
              subst hlast
              exact ⟨s, s₁, hnew⟩
          | some other =>
              rw [hrest] at hlast
              exact hlast
      · next hname =>
          rw [if_neg hname]
          exact ih h

/-- A directory that a search finds is what the last entry of the name
names. -/
theorem fat16FindItemInDir_contents {dir sub : FatDir} {name : List UInt8}
    {s s' : σ} {addr addr' items : Addr}
    (h : fat16FindItemInDir al vol dir name s
      = some (some (.dir addr (.live addr' items sub)), s')) :
    ∃ item, (entriesOf dir name).getLast? = some item
      ∧ dirContents vol item = some sub := by
  have hlast := fat16FindLoop_last _ h
  rw [List.drop_zero] at hlast
  change match (entriesOf dir name).getLast? with | none => _ | some item => _
    at hlast
  cases hentry : (entriesOf dir name).getLast? with
  | none =>
      rw [hentry] at hlast
      cases hlast
  | some item =>
      rw [hentry] at hlast
      obtain ⟨s₁, s₂, hnew⟩ := hlast
      refine ⟨item, rfl, ?_⟩
      unfold fat16NewFatItemForDirItem at hnew
      split at hnew
      · cases hnew
      · split at hnew
        · obtain ⟨⟨dirPtr, s₃⟩, hload, hnew⟩ := Option.bind_eq_some_iff.mp hnew
          cases hnew
          exact fat16LoadFatDir_contents hload
        · cases hnew

-- =================================================================== the walk

theorem logs_freeItem (item : FatItem) (s : σ) :
    Logs (SafeAccess vol) (fat16FatItemFreeLogged al item s) := by
  cases item with
  | dir addr dir => exact logs_look trivial _
  | file addr item => exact logs_look trivial _

/-- What the walk has come to goes on through sound entries. -/
def WalkGuarded (vol : Volume) (parts : List (List UInt8))
    (currItem : Option FatItem) : Prop :=
  ∀ addr addr' items dir, currItem = some (.dir addr (.live addr' items dir)) →
    PathGuarded vol dir parts

/-- A search leaves the walk behind it guarded. -/
theorem walkGuarded_of_found {dir : FatDir} {name : List UInt8}
    {names : List (List UInt8)} (h : PathGuarded vol dir (name :: names))
    {fItem : Option FatItem} {s s' : σ}
    (hfind : fat16FindItemInDir al vol dir name s = some (fItem, s')) :
    WalkGuarded vol names fItem := by
  rintro addr addr' items sub rfl
  obtain ⟨item, hlast, hcontents⟩ := fat16FindItemInDir_contents hfind
  exact h.2 item sub hlast hcontents

include hboot in
/-- The walk along a guarded path is safe. -/
theorem logs_walkLoop (parts : List (List UInt8)) :
    ∀ {currItem : Option FatItem} (s : σ), WalkGuarded vol parts currItem →
      Logs (SafeAccess vol)
        (fat16WalkLoopLogged (fat16FindItemInDirPtrLogged al vol)
          (fat16FatItemFreeLogged al) parts currItem s) := by
  induction parts with
  | nil => exact fun _ _ => logs_pure _
  | cons part parts ih =>
      intro currItem s h
      cases currItem with
      | none => exact logs_pure _
      | some item =>
          cases item with
          | file addr item => exact logs_pure _
          | dir addr dir =>
              rw [fat16WalkLoopLogged]
              have hlook : SafeAccess vol (.member .dir) := trivial
              apply logs_bind (logs_look hlook dir)
              rw [val_look]
              cases dir with
              | null => exact logs_pure _
              | freed addr' => exact logs_pure _
              | live addr' items dir =>
                  have hpath := h addr addr' items dir rfl
                  apply logs_bind (logs_findItem hboot hpath.1 s)
                  rw [val_fat16FindItemInDirLogged]
                  cases hfind : fat16FindItemInDir al vol dir part s with
                  | none => exact logs_pure _
                  | some r =>
                      simp only
                      apply logs_bind (logs_freeItem _ _)
                      split
                      · exact logs_pure _
                      · exact ih _ (walkGuarded_of_found hpath hfind)

include hboot in
/-- Looking up a guarded path is safe. -/
theorem logs_getDirEntry {part : List UInt8} {next : List (List UInt8)}
    (h : PathGuarded vol vol.rootDir (part :: next)) (s : σ) :
    Logs (SafeAccess vol) (fat16GetDirEntryLogged al vol part next s) := by
  unfold fat16GetDirEntryLogged
  apply logs_bind (logs_findItem hboot h.1 s)
  rw [val_fat16FindItemInDirLogged]
  cases hfind : fat16FindItemInDir al vol vol.rootDir part s with
  | none => exact logs_pure _
  | some r =>
      obtain ⟨rootItem, s⟩ := r
      cases rootItem with
      | none => exact logs_pure _
      | some rootItem =>
          exact logs_walkLoop hboot next s (walkGuarded_of_found h hfind)

end Walk

end BenOS.Fat
