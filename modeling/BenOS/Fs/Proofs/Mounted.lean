/-
Calls on a volume that `fat16_resolve` has accepted: whether each of them
ends and divides by nothing that is zero.

`fat16_resolve` looks at one byte of the boot sector, and not at those the
later calls divide by or take for positions. So a call is safe only where
the volume is sound at the places the call comes to
(`accepted_volume_safe`); on an accepted volume whose clusters have no
sectors the first read divides by zero (`accepted_volume_divides`).
-/
import BenOS.Fat.Proofs.Guarded
import BenOS.Fat.Proofs.Layout
import BenOS.Fs.Proofs.Kinds
import BenOS.Fs.Proofs.Parser

namespace BenOS.Fs

open Lib Disk Fat Traced

variable {σ : Type}

-- =================================================================== the calls

/-- A call on a mounted volume: `fopen` of a string, or a call on a
descriptor. -/
inductive VolumeOp
  | fopen (filename mode : List UInt8) (string : 0x00 ∉ filename)
  | call (fd : Int) (op : FdOp)

section Calls

variable (al : Allocator σ) (vol : Volume) (raw : Addr → FatDirItem)

/-- One call, where it has an outcome. -/
def volumeStep (st : FsState σ) : VolumeOp → Option (FsState σ)
  | .fopen filename mode _ =>
      (fopenLogged al (some vol) st.files filename mode st.heap).val.map
        fun r => ⟨r.2.1, r.2.2⟩
  | .call fd op => fdStep al vol raw fd st op

/-- Whatever a call accesses on the disk, it comes to an end there and
divides by nothing that is zero. -/
def CallSafe (st : FsState σ) : VolumeOp → Prop
  | .fopen filename mode _ =>
      Logs (SafeAccess vol) (fopenLogged al (some vol) st.files filename mode
        st.heap)
  | .call fd op => Logs (SafeAccess vol) (fdCall al vol raw fd op st)

/-- What a call needs of the volume: to open a path for reading, entries
that are sound along it; to read some bytes of an open file, clusters of
some sectors. -/
def CallGuarded (st : FsState σ) : VolumeOp → Prop
  | .fopen filename mode _ =>
      Accepted filename → tonum (filename.getD 0 0) = 0 →
      fileGetModeByString mode = .read →
      PathGuarded vol vol.rootDir (leading 0x2F (filename.drop 3))
  | .call fd op =>
      op.ReadsData → fileGetDescriptor st.files.descriptors fd ≠ none →
      bootSectorsPerCluster vol.disk ≠ 0

end Calls

-- ================================================================== the volume

/-- The volume of a disk that is accepted is what the boot sector says. -/
theorem fat16Resolve_boot {al : Allocator σ} {disk : Image UInt8} {s s' : σ}
    {vol : Volume} (h : fat16Resolve al disk s = some (0, some vol, s')) :
    vol.header.sectorsPerCluster = bootSectorsPerCluster vol.disk := by
  obtain ⟨r, s₁, s₂, hr, hdisk, hheader, -⟩ := fat16Resolve_accepted h
  rw [diskstreamerRead_eq disk sizeofFatH (.inl le_rfl) (by decide)
    (by decide) (by decide)] at hr
  rw [hheader, hdisk, ← Option.some.inj hr]
  rfl

-- =============================================================== the two cases

section Safe

variable {al : Allocator σ} {vol : Volume} {raw : Addr → FatDirItem}
  (hboot : vol.header.sectorsPerCluster = bootSectorsPerCluster vol.disk)

include hboot in
/-- Opening a guarded path is safe. -/
theorem logs_fopen {files : OpenFiles} {filename mode : List UInt8} {s : σ}
    (hstr : 0x00 ∉ filename)
    (h : Accepted filename → tonum (filename.getD 0 0) = 0 →
      fileGetModeByString mode = .read →
      PathGuarded vol vol.rootDir (leading 0x2F (filename.drop 3))) :
    Logs (SafeAccess vol)
      (fopenLogged al (some vol) files filename mode s) := by
  unfold fopenLogged
  cases hparse : pathparserParse al filename s with
  | none => exact logs_pure _
  | some r =>
      obtain ⟨root, s₁⟩ := r
      cases root with
      | none => exact logs_pure _
      | some root =>
          simp only
          refine logs_bind ?_ (logs_pure _)
          obtain ⟨hacc, hdrive, hparts⟩ := pathparserParse_parts hstr hparse
          unfold fopenPathLogged
          cases hroot : root.parts with
          | nil => exact logs_pure _
          | cons first next =>
              rw [hroot, List.map_cons] at hparts
              simp only
              split
              · exact logs_pure _
              · next hzero =>
                  rw [hdrive, ne_eq, not_not] at hzero
                  split
                  · exact logs_pure _
                  · refine logs_bind ?_ ?_
                    · unfold fat16OpenLogged
                      split
                      · exact logs_pure _
                      · next hread =>
                          have hpath := h hacc hzero (not_not.mp hread)
                          rw [← hparts] at hpath
                          split
                          · exact logs_pure _
                          · refine logs_bind (logs_getDirEntry hboot hpath _) ?_
                            split
                            · exact logs_pure _
                            · exact logs_pure _
                            · exact logs_pure _
                    · split
                      · exact logs_pure _
                      · exact logs_pure _
                      · exact logs_pure _

include hboot in
/-- A call on a descriptor is safe, where clusters have some sectors if
bytes are read. -/
theorem logs_fdCall {fd : Int} {op : FdOp} {st : FsState σ}
    (h : op.ReadsData → fileGetDescriptor st.files.descriptors fd ≠ none →
      bootSectorsPerCluster vol.disk ≠ 0) :
    Logs (SafeAccess vol) (fdCall al vol raw fd op st) := by
  unfold fdCall
  cases op with
  | fstat =>
      simp only
      split
      · exact logs_pure _
      · refine logs_bind ?_ (logs_pure _)
        unfold fat16StatLogged
        split
        · exact logs_pure _
        · exact logs_look trivial _
  | fseek offset whence =>
      simp only
      unfold fseekLogged
      split
      · exact logs_pure _
      · split
        · exact logs_pure _
        · refine logs_bind ?_ (logs_pure _)
          unfold fat16SeekLogged
          split
          · exact logs_pure _
          · exact logs_look trivial _
  | fread size nmemb =>
      simp only
      split
      · exact logs_pure _
      · next hsome =>
          split
          · exact logs_pure _
          · next desc hdesc =>
              have hzero := h (not_or.mp hsome) (by rw [hdesc]; simp)
              refine logs_bind ?_ (logs_pure _)
              unfold fat16ReadLogged
              apply logs_bind
              · exact logs_look trivial _
              · apply logs_readLoop
                intro offset
                apply logs_look
                apply (readEnds_iff vol).mpr
                rwa [hboot]
  | fclose =>
      simp only
      unfold fcloseLogged
      split
      · exact logs_pure _
      · split
        · exact logs_pure _
        · exact logs_bind (logs_freeItem _ _) (logs_pure _)

include hboot in
/-- A call on a descriptor that is safe needs what it is guarded by. -/
theorem guarded_of_fdCall {fd : Int} {op : FdOp} {st : FsState σ}
    (h : Logs (SafeAccess vol) (fdCall al vol raw fd op st)) :
    op.ReadsData → fileGetDescriptor st.files.descriptors fd ≠ none →
      bootSectorsPerCluster vol.disk ≠ 0 := by
  intro hreads hdesc
  cases op with
  | fread size nmemb =>
      obtain ⟨hsize, hnmemb⟩ := hreads
      obtain ⟨desc, hsome⟩ := Option.ne_none_iff_exists'.mp hdesc
      have hpos : nmemb.toNat ≠ 0 := fun hzero =>
        hnmemb (UInt32.toNat_inj.mp hzero)
      unfold fdCall at h
      simp only at h
      rw [if_neg (not_or.mpr ⟨hsize, hnmemb⟩), hsome] at h
      have hloop := (logs_bind_iff.mp (logs_bind_iff.mp h).1).2
      have hfirst := logs_readLoop_first hpos hloop
      rw [← hboot]
      exact (readEnds_iff vol).mp
        (logs_look_iff (P := SafeAccess vol).mp hfirst)
  | fstat => exact hreads.elim
  | fseek offset whence => exact hreads.elim
  | fclose => exact hreads.elim

end Safe

-- ==================================================================== the runs

/-- On every volume that is accepted, in every run of calls from every
state, each call whose condition on the volume is met, with those before
it, comes to an end and divides by nothing that is zero. -/
theorem accepted_volume_safe {al : Allocator σ} {disk : Image UInt8}
    {s s' : σ} {vol : Volume}
    (hres : fat16Resolve al disk s = some (0, some vol, s'))
    (raw : Addr → FatDirItem) {st : FsState σ} {ops : List VolumeOp}
    (h : Tried (volumeStep al vol raw) (CallGuarded vol) st ops) :
    Tried (volumeStep al vol raw) (CallSafe al vol raw) st ops := by
  have hboot := fat16Resolve_boot hres
  apply Tried.mono _ ops h
  intro st op hguard
  cases op with
  | fopen filename mode string => exact logs_fopen hboot string hguard
  | call fd op => exact logs_fdCall hboot hguard

/-- A disk with a file "A" in its root directory, and with as many sectors
to a cluster as is given. -/
def oneFileDisk (sectorsPerCluster : UInt8) : Image UInt8 := fun lba i =>
  if lba = 0#32 then
    if i = 13 then sectorsPerCluster
    else if i = 14 ∨ i = 16 ∨ i = 22 then 1
    else if i = 17 then 16
    else if i = 38 then 0x29
    else 0
  else if lba = 2#32 then
    if i = 0 then 0x41 else if i = 26 then 2 else if i = 28 then 5 else 0
  else 0

/-- `"0:/a"` -/
def pathA : List UInt8 := [0x30, 0x3A, 0x2F, 0x61]

/-- An entry that is no subdirectory. -/
def isFile (item : FatDirItem) : Bool :=
  item.attributes &&& fatFileSubdirectory == 0

/-- What comes of mounting a disk and opening `"0:/a"` for reading. -/
def mountAndOpen (disk : Image UInt8) :
    Option (Int × UInt8 × Bool × Int × Option ItemMember) := do
  let (res, vol, _) ← fat16Resolve plenty disk ()
  let vol ← vol
  let (fd, files, _) ← fopen plenty (some vol) (fun _ => none) pathA [0x72] ()
  some (res, vol.header.sectorsPerCluster, vol.rootDir.items.all isFile, fd,
    kindAt files 1)

/-- `mountAndOpen` in its steps. -/
theorem mountAndOpen_steps {disk : Image UInt8} {res fd : Int} {n : UInt8}
    {files : Bool} {kind : Option ItemMember}
    (h : mountAndOpen disk = some (res, n, files, fd, kind)) :
    ∃ vol table, fat16Resolve plenty disk () = some (res, some vol, ())
      ∧ vol.header.sectorsPerCluster = n
      ∧ vol.rootDir.items.all isFile = files
      ∧ fopen plenty (some vol) (fun _ => none) pathA [0x72] ()
        = some (fd, table, ())
      ∧ kindAt table 1 = kind := by
  unfold mountAndOpen at h
  simp only [Option.bind_eq_bind] at h
  obtain ⟨⟨res', vol, s⟩, hres, h⟩ := Option.bind_eq_some_iff.mp h
  obtain ⟨vol', hvol, h⟩ := Option.bind_eq_some_iff.mp h
  obtain ⟨⟨fd', table, s'⟩, hopen, h⟩ := Option.bind_eq_some_iff.mp h
  obtain rfl : vol = some vol' := hvol
  cases h
  exact ⟨vol', table, hres, rfl, rfl, hopen, rfl⟩

theorem oneFileDisk_opens {n : UInt8} (hn : n = 0 ∨ n = 1) :
    mountAndOpen (oneFileDisk n) = some (0, n, true, 1, some .item) := by
  rcases hn with rfl | rfl
  · decide +kernel
  · decide +kernel

/-- The step that opens `"0:/a"`. -/
theorem volumeStep_pathA {vol : Volume} {raw : Addr → FatDirItem}
    {fd : Int} {table : OpenFiles}
    (h : fopen plenty (some vol) (fun _ => none) pathA [0x72] ()
      = some (fd, table, ())) :
    volumeStep plenty vol raw ⟨fun _ => none, ()⟩
      (.fopen pathA [0x72] (by decide)) = some ⟨table, ()⟩ := by
  unfold volumeStep
  simp only
  rw [val_fopenLogged, h]
  rfl

/-- Clusters of one sector, and calls that end. -/
theorem accepted_volume_safe_oneFile :
    ∃ vol, fat16Resolve plenty (oneFileDisk 1) () = some (0, some vol, ())
      ∧ ∀ raw, Tried (volumeStep plenty vol raw) (CallSafe plenty vol raw)
        ⟨fun _ => none, ()⟩
        [.fopen pathA [0x72] (by decide), .call 1 (.fread 1 1)] := by
  obtain ⟨vol, table, hres, hone, hfiles, hopen, -⟩ :=
    mountAndOpen_steps (oneFileDisk_opens (.inr rfl))
  refine ⟨vol, hres, fun raw => accepted_volume_safe hres raw ?_⟩
  rw [tried_cons_of_step (volumeStep_pathA hopen)]
  refine ⟨fun _ _ _ => ⟨fun item hitem hdir => ?_, fun _ _ _ _ => trivial⟩, ?_⟩
  · have hmem := List.mem_of_mem_take (mem_entriesOf.mp hitem).1
    exact absurd (beq_iff_eq.mp (List.all_eq_true.mp hfiles item hmem)) hdir
  · have hguard : CallGuarded vol (⟨table, ()⟩ : FsState Unit)
        (.call 1 (.fread 1 1)) := fun _ _ => by
      rw [← fat16Resolve_boot hres, hone]
      decide
    refine ⟨hguard, ?_⟩
    split
    · trivial
    · trivial

/-- It is not so that every accepted volume is safe: on one whose boot
sector has 0 for `sectors_per_cluster` a read divides by it. -/
theorem accepted_volume_divides :
    ¬ ∀ (al : Allocator Unit) (disk : Image UInt8) (s s' : Unit)
        (vol : Volume) (raw : Addr → FatDirItem) (ops : List VolumeOp),
        fat16Resolve al disk s = some (0, some vol, s') →
        Tried (volumeStep al vol raw) (CallSafe al vol raw)
          ⟨fun _ => none, s'⟩ ops := by
  intro hall
  obtain ⟨vol, table, hres, hzero, -, hopen, hkind⟩ :=
    mountAndOpen_steps (oneFileDisk_opens (.inl rfl))
  have hboot := fat16Resolve_boot hres
  have hrun := hall plenty (oneFileDisk 0) () () vol
    (fun _ => FatDirItem.ofBytes [])
    [.fopen pathA [0x72] (by decide), .call 1 (.fread 1 1)] hres
  have hread := ((tried_cons_of_step (volumeStep_pathA hopen)).mp hrun).2.1
  obtain ⟨i, file, -, -, hdesc, -⟩ := kindAt_some hkind
  apply guarded_of_fdCall hboot hread ⟨by decide, by decide⟩
  · rw [hdesc]
    exact Option.some_ne_none _
  · rw [← hboot]
    exact hzero

end BenOS.Fs
