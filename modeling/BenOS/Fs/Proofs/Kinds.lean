/-
Which member of the union in `struct fat_item` the calls on an open file
read.

`fat16_stat`, `fat16_seek` and `fat16_close` look at the type of the item
first, `fat16_read` does not.
A descriptor keeps its kind until it is closed (`fdStep_kind`), so a
sequence of calls is as it should be exactly where it does not read from a
directory before it closes it (`fat_item_kinds_exact`).
-/
import BenOS.Lib.Run
import BenOS.Fs.Proofs.Calls

namespace BenOS.Fs

open Lib Disk Fat Traced

variable {σ : Type}

-- ============================================================ the requirement

/-- The member that the type of an item announces. -/
def announces : FatItem → ItemMember
  | .dir _ _ => .dir
  | .file _ _ => .item

/-- What the descriptor `fd` is open on, if on anything. -/
def kindAt (files : OpenFiles) (fd : Int) : Option ItemMember :=
  (fileGetDescriptor files.descriptors fd).map fun desc => announces desc.item

/-- The disk is read. -/
def ReadsDisk : FatAccess → Prop
  | .member _ => False
  | .readInternal _ _ => True
  | .scanDir _ => True

/-- A call that moves file data. -/
def FdOp.ReadsData : FdOp → Prop
  | .fread size nmemb => size ≠ 0 ∧ nmemb ≠ 0
  | _ => False

section Results

variable (al : Allocator σ) (vol : Volume) (raw : Addr → FatDirItem) (fd : Int)

/-- A call as it should be: it reads the member that the type announces;
on a directory nothing but `fclose` succeeds, and no data moves. -/
structure KindOk (st : FsState σ) (op : FdOp) : Prop where
  announced : ∀ m, .member m ∈ (fdCall al vol raw fd op st).log →
    kindAt st.files fd = some m
  refused : kindAt st.files fd = some .dir → op ≠ .fclose →
    Logs (fun a => ¬ ReadsDisk a) (fdCall al vol raw fd op st)
      ∧ ∃ res st', (fdCall al vol raw fd op st).val = some (res, st')
        ∧ res < 0

/-- One call, where it has an outcome. -/
def fdStep (st : FsState σ) (op : FdOp) : Option (FsState σ) :=
  (fdCall al vol raw fd op st).val.map Prod.snd

variable {al vol raw fd}

theorem kindAt_of_descriptor {files : OpenFiles} {desc : FatFileDescriptor}
    (h : fileGetDescriptor files.descriptors fd = some desc) :
    kindAt files fd = some (announces desc.item) := by
  unfold kindAt
  rw [h]
  rfl

/-- The kind of the file at the place of a descriptor. -/
theorem kindAt_of_index {i : Fin benosMaxFileDescriptors}
    (h : fileDescriptorIndex fd = some i) (files : OpenFiles) :
    kindAt files fd = (files i).map fun file => announces file.fat.item := by
  unfold kindAt fileGetDescriptor
  rw [h]
  simp only
  unfold OpenFiles.descriptors
  rw [Option.map_map]
  rfl

theorem kindAt_of_no_index (h : fileDescriptorIndex fd = none)
    (files : OpenFiles) : kindAt files fd = none := by
  unfold kindAt fileGetDescriptor
  rw [h]
  rfl

/-- Seeking keeps the item. -/
theorem fat16Seek_item {desc desc' : FatFileDescriptor} {offset : UInt32}
    {seekMode : Nat} {res : Int}
    (h : fat16Seek desc offset seekMode = some (res, desc')) :
    desc'.item = desc.item := by
  unfold fat16Seek at h
  split at h
  case h_1 =>
      cases h
      rfl
  case h_2 => cases h
  case h_3 =>
      split at h
      · cases h
        rfl
      · split at h
        · cases h
          rfl
        · split at h
          · cases h
            rfl
          · split at h
            · cases h
              rfl
            · cases h
              rfl

/-- A call that only has a result leaves the state. -/
theorem map_state_eq {α : Type} {o : Option α} {f : α → Int}
    {st st' : FsState σ}
    (h : (o.map fun r => (f r, st)).map Prod.snd = some st') : st' = st := by
  cases o with
  | none => cases h
  | some r => exact (Option.some.inj h).symm

/-- Until it is closed a descriptor keeps its kind, and then it has
none. -/
theorem fdStep_kind {st st' : FsState σ} {op : FdOp}
    (h : fdStep al vol raw fd st op = some st') :
    kindAt st'.files fd
      = if op = .fclose then none else kindAt st.files fd := by
  unfold fdStep fdCall at h
  cases op with
  | fstat =>
      rw [if_neg (by simp)]
      simp only at h
      split at h
      · obtain rfl : st = st' := Option.some.inj h
        rfl
      · rw [map_state_eq h]
  | fseek offset whence =>
      rw [if_neg (by simp)]
      unfold fseekLogged at h
      simp only at h
      cases hi : fileDescriptorIndex fd with
      | none =>
          rw [hi] at h
          obtain rfl : st = st' := Option.some.inj h
          rfl
      | some i =>
          rw [hi] at h
          rw [kindAt_of_index hi, kindAt_of_index hi]
          simp only at h
          cases hfile : st.files i with
          | none =>
              rw [hfile] at h
              rw [← Option.some.inj h]
              simp [hfile]
          | some file =>
              rw [hfile] at h
              simp only [val_bind, val_pure, val_fat16SeekLogged] at h
              cases hseek : fat16Seek file.fat offset whence with
              | none =>
                  rw [hseek] at h
                  cases h
              | some r =>
                  rw [hseek] at h
                  rw [← Option.some.inj h]
                  simp [fat16Seek_item hseek]
  | fread size nmemb =>
      rw [if_neg (by simp)]
      simp only at h
      split at h
      · obtain rfl : st = st' := Option.some.inj h
        rfl
      · split at h
        · obtain rfl : st = st' := Option.some.inj h
          rfl
        · rw [map_state_eq h]
  | fclose =>
      rw [if_pos rfl]
      unfold fcloseLogged at h
      simp only at h
      cases hi : fileDescriptorIndex fd with
      | none => exact kindAt_of_no_index hi _
      | some i =>
          rw [hi] at h
          rw [kindAt_of_index hi]
          simp only at h
          cases hfile : st.files i with
          | none =>
              rw [hfile] at h
              rw [← Option.some.inj h]
              simp [hfile]
          | some file =>
              rw [hfile] at h
              simp only [val_bind, val_pure] at h
              cases hfree : (fat16FatItemFreeLogged al file.fat.item
                  st.heap).val with
              | none =>
                  rw [hfree] at h
                  cases h
              | some s =>
                  rw [hfree] at h
                  rw [← Option.some.inj h]
                  simp

-- ================================================================== the log

/-- A read reads the entry of a file, and no other member. -/
theorem member_mem_read (desc : FatFileDescriptor) (size nmemb : UInt32)
    {m : ItemMember} :
    .member m ∈ (fat16ReadLogged vol raw desc size nmemb).log ↔ m = .item := by
  unfold fat16ReadLogged itemOf
  rw [log_bind, log_look, List.mem_append]
  constructor
  · rintro (hmem | hmem)
    · exact FatAccess.member.inj (List.mem_singleton.mp hmem)
    · have hround : ∀ (c o n : Int), Logs (fun a => a ≠ FatAccess.member m)
          (fat16ReadInternalLogged vol c o n) :=
        fun c o n => logs_look FatAccess.noConfusion _
      exact absurd rfl (logs_readLoop (fun _ => hround _ _ _) _ _ _ hmem)
  · rintro rfl
    exact Or.inl (List.mem_singleton.mpr rfl)

/-- The file that a descriptor with a kind is open on. -/
theorem kindAt_some {files : OpenFiles} {m : ItemMember}
    (h : kindAt files fd = some m) :
    ∃ i file, fileDescriptorIndex fd = some i ∧ files i = some file
      ∧ fileGetDescriptor files.descriptors fd = some file.fat
      ∧ announces file.fat.item = m := by
  cases hi : fileDescriptorIndex fd with
  | none =>
      rw [kindAt_of_no_index hi] at h
      cases h
  | some i =>
      rw [kindAt_of_index hi] at h
      obtain ⟨file, hfile, hm⟩ := Option.map_eq_some_iff.mp h
      refine ⟨i, file, rfl, hfile, ?_, hm⟩
      unfold fileGetDescriptor OpenFiles.descriptors
      rw [hi]
      simp only
      rw [hfile]
      rfl

/-- Without a descriptor nothing is looked at. -/
theorem log_of_no_kind {st : FsState σ} (h : kindAt st.files fd = none)
    (op : FdOp) : (fdCall al vol raw fd op st).log = [] := by
  have hdesc : fileGetDescriptor st.files.descriptors fd = none := by
    cases hdesc : fileGetDescriptor st.files.descriptors fd with
    | none => rfl
    | some desc =>
        rw [kindAt_of_descriptor hdesc] at h
        cases h
  have hfile : ∀ i, fileDescriptorIndex fd = some i → st.files i = none := by
    intro i hi
    rw [kindAt_of_index hi] at h
    exact Option.map_eq_none_iff.mp h
  unfold fdCall
  cases op with
  | fstat =>
      simp only
      rw [hdesc]
      rfl
  | fseek offset whence =>
      simp only
      unfold fseekLogged
      cases hi : fileDescriptorIndex fd with
      | none => rfl
      | some i =>
          simp only
          rw [hfile i hi]
          rfl
  | fread size nmemb =>
      simp only
      split
      · rfl
      · rw [hdesc]
        rfl
  | fclose =>
      simp only
      unfold fcloseLogged
      cases hi : fileDescriptorIndex fd with
      | none => rfl
      | some i =>
          simp only
          rw [hfile i hi]
          rfl

/-- On a file every call reads the entry of a file. -/
theorem member_of_file {st : FsState σ}
    (h : kindAt st.files fd = some .item) {op : FdOp} {m : ItemMember}
    (hmem : .member m ∈ (fdCall al vol raw fd op st).log) : m = .item := by
  obtain ⟨i, file, hi, hfile, hdesc, hkind⟩ := kindAt_some h
  obtain ⟨addr, item, hitem⟩ : ∃ addr item, file.fat.item = .file addr item := by
    cases hitem : file.fat.item with
    | dir addr dir =>
        rw [hitem] at hkind
        cases hkind
    | file addr item => exact ⟨addr, item, rfl⟩
  have hlook : ∀ {α : Type} (a : α),
      .member m ∈ (look (.member .item) a : Traced FatAccess α).log →
      m = .item := fun a hmem =>
    FatAccess.member.inj (List.mem_singleton.mp hmem)
  unfold fdCall at hmem
  cases op with
  | fstat =>
      simp only at hmem
      rw [hdesc, log_bind, log_pure, List.append_nil] at hmem
      unfold fat16StatLogged at hmem
      rw [hitem] at hmem
      exact hlook _ hmem
  | fseek offset whence =>
      simp only at hmem
      unfold fseekLogged at hmem
      rw [hi] at hmem
      simp only at hmem
      rw [hfile, log_bind, log_pure, List.append_nil] at hmem
      unfold fat16SeekLogged at hmem
      rw [hitem] at hmem
      exact hlook _ hmem
  | fread size nmemb =>
      simp only at hmem
      split at hmem
      · exact absurd hmem List.not_mem_nil
      · rw [hdesc, log_bind, log_pure, List.append_nil] at hmem
        exact (member_mem_read file.fat size nmemb).mp hmem
  | fclose =>
      simp only at hmem
      unfold fcloseLogged at hmem
      rw [hi] at hmem
      simp only at hmem
      rw [hfile, log_bind, log_pure, List.append_nil] at hmem
      unfold fat16FatItemFreeLogged at hmem
      rw [hitem] at hmem
      exact hlook _ hmem

/-- On a directory the calls are as they should be, but for the reads. -/
theorem kindOk_dir {st : FsState σ} (h : kindAt st.files fd = some .dir)
    (op : FdOp) : KindOk al vol raw fd st op ↔ ¬ op.ReadsData := by
  obtain ⟨i, file, hi, hfile, hdesc, hkind⟩ := kindAt_some h
  obtain ⟨addr, dir, hitem⟩ : ∃ addr dir, file.fat.item = .dir addr dir := by
    cases hitem : file.fat.item with
    | dir addr dir => exact ⟨addr, dir, rfl⟩
    | file addr item =>
        rw [hitem] at hkind
        cases hkind
  have hneg : ∀ st', fdCall al vol raw fd op st
      = pure (some (-einvarg, st')) → KindOk al vol raw fd st op := by
    intro st' heq
    refine ⟨fun m hmem => ?_, fun _ _ => ⟨?_, -einvarg, st', ?_, by decide⟩⟩
    · rw [heq] at hmem
      exact absurd hmem List.not_mem_nil
    · rw [heq]
      exact logs_pure _
    · rw [heq]
      rfl
  cases op with
  | fstat =>
      refine iff_of_true (hneg st ?_) id
      unfold fdCall
      simp only
      rw [hdesc]
      simp only
      unfold fat16StatLogged
      rw [hitem]
      rfl
  | fseek offset whence =>
      refine iff_of_true (hneg { st with
        files := Function.update st.files i (some file) } ?_) id
      unfold fdCall fseekLogged
      rw [hi]
      simp only
      rw [hfile]
      simp only
      unfold fat16SeekLogged
      rw [hitem]
      rfl
  | fread size nmemb =>
      by_cases hzero : size = 0 ∨ nmemb = 0
      · refine iff_of_true (hneg st ?_) ?_
        · unfold fdCall
          simp only
          rw [if_pos hzero]
        · rintro ⟨hsize, hnmemb⟩
          rcases hzero with hzero | hzero
          · exact hsize hzero
          · exact hnmemb hzero
      · refine iff_of_false (fun hok => ?_) fun hno => hno ?_
        · have hitem' : kindAt st.files fd = some .item := by
            apply hok.announced
            unfold fdCall
            simp only
            rw [if_neg hzero, hdesc, log_bind, log_pure, List.append_nil]
            exact (member_mem_read file.fat size nmemb).mpr rfl
          rw [h] at hitem'
          cases hitem'
        · exact not_or.mp hzero
  | fclose =>
      refine iff_of_true ⟨fun m hmem => ?_, fun _ hne => absurd rfl hne⟩ id
      unfold fdCall fcloseLogged at hmem
      rw [hi] at hmem
      simp only at hmem
      rw [hfile, log_bind, log_pure, List.append_nil] at hmem
      unfold fat16FatItemFreeLogged at hmem
      rw [hitem] at hmem
      rw [FatAccess.member.inj (List.mem_singleton.mp hmem)]
      exact h

/-- A call is as it should be where it moves no data from a directory. -/
theorem kindOk_iff (st : FsState σ) (op : FdOp) :
    KindOk al vol raw fd st op
      ↔ ¬ (kindAt st.files fd = some .dir ∧ op.ReadsData) := by
  cases h : kindAt st.files fd with
  | none =>
      refine iff_of_true ⟨fun m hmem => ?_, fun hdir => ?_⟩ fun hdir => ?_
      · rw [log_of_no_kind h] at hmem
        exact absurd hmem List.not_mem_nil
      · rw [h] at hdir
        cases hdir
      · cases hdir.1
  | some m =>
      cases m with
      | item =>
          refine iff_of_true ⟨fun m hmem => ?_, fun hdir => ?_⟩ fun hdir => ?_
          · rw [member_of_file h hmem]
            exact h
          · rw [h] at hdir
            cases hdir
          · cases hdir.1
      | dir =>
          rw [kindOk_dir h]
          exact not_congr ⟨fun hreads => ⟨rfl, hreads⟩, fun hboth => hboth.2⟩

-- ================================================================== the calls

/-- Calls on a descriptor that is not of a directory are right, and leave it
so. -/
theorem tried_of_not_dir {al : Allocator σ} {vol : Volume}
    {raw : Addr → FatDirItem} {fd : Int} {st : FsState σ}
    (h : kindAt st.files fd ≠ some .dir) (ops : List FdOp) :
    Tried (fdStep al vol raw fd) (KindOk al vol raw fd) st ops := by
  refine tried_of_inv (I := fun st => kindAt st.files fd ≠ some .dir)
    (fun s op s' hI hstep => ?_) (fun s op hI => ?_) ops h
  · rw [fdStep_kind hstep]
    split
    · exact (Option.some_ne_none _).symm
    · exact hI
  · exact (kindOk_iff s op).mpr fun hdir => hI hdir.1

/-- In every sequence of calls on a descriptor, from every state of the
table, each call reads the members that the type announces, and on a
directory fails and moves no data, exactly where the descriptor is not of
a directory or no read of some bytes comes before it is closed. -/
theorem fat_item_kinds_exact (al : Allocator σ) (vol : Volume)
    (raw : Addr → FatDirItem) (fd : Int) (ops : List FdOp) :
    ∀ st : FsState σ,
      Tried (fdStep al vol raw fd) (KindOk al vol raw fd) st ops
        ↔ ¬ (kindAt st.files fd = some .dir
          ∧ ∃ op ∈ ops.takeWhile fun op => op != .fclose, op.ReadsData) := by
  induction ops with
  | nil =>
      intro st
      refine iff_of_true trivial ?_
      rintro ⟨-, op, hop, -⟩
      exact absurd hop List.not_mem_nil
  | cons op ops ih =>
      intro st
      by_cases hdir : kindAt st.files fd = some .dir
      · by_cases hclose : op = .fclose
        · subst hclose
          refine iff_of_true ?_ ?_
          · have hok : KindOk al vol raw fd st .fclose :=
              (kindOk_iff st .fclose).mpr fun h => h.2
            cases hstep : fdStep al vol raw fd st .fclose with
            | none => exact (tried_cons_of_none hstep).mpr hok
            | some st' =>
                refine (tried_cons_of_step hstep).mpr
                  ⟨hok, tried_of_not_dir ?_ ops⟩
                rw [fdStep_kind hstep, if_pos rfl]
                exact (Option.some_ne_none _).symm
          · rintro ⟨-, op, hop, -⟩
            rw [List.takeWhile_cons] at hop
            exact absurd hop List.not_mem_nil
        · have hcons : (op :: ops).takeWhile (fun op => op != .fclose)
              = op :: ops.takeWhile fun op => op != .fclose := by
            rw [List.takeWhile_cons, bne_iff_ne.mpr hclose]
            rfl
          rw [hcons]
          by_cases hreads : op.ReadsData
          · refine iff_of_false (fun h => ?_) fun h => h ⟨hdir, op,
              List.mem_cons_self, hreads⟩
            exact (kindOk_iff st op).mp h.1 ⟨hdir, hreads⟩
          · have hok : KindOk al vol raw fd st op :=
              (kindOk_iff st op).mpr fun h => hreads h.2
            -- the step has an outcome, and the descriptor keeps its kind
            obtain ⟨-, res, st', hval, -⟩ := hok.refused hdir hclose
            have hstep : fdStep al vol raw fd st op = some st' := by
              unfold fdStep
              rw [hval]
              rfl
            have hkind := fdStep_kind hstep
            rw [if_neg hclose] at hkind
            rw [tried_cons_of_step hstep, ih st', hkind]
            constructor
            · rintro ⟨-, hrest⟩ ⟨hd, op', hop', hreads'⟩
              rcases List.mem_cons.mp hop' with rfl | hop'
              · exact hreads hreads'
              · exact hrest ⟨hd, op', hop', hreads'⟩
            · intro h
              refine ⟨hok, fun hrest => ?_⟩
              obtain ⟨hd, op', hop', hreads'⟩ := hrest
              exact h ⟨hd, op', List.mem_cons_of_mem _ hop', hreads'⟩
      · exact iff_of_true (tried_of_not_dir hdir (op :: ops)) fun h => hdir h.1

end Results

/-- A disk whose root directory, in sector 2, has a directory "A", in the
sector behind it, with one file "B". -/
def oneSubdirectory : Volume where
  disk := fun lba i =>
    if lba = 2#32 then
      if i = 0 then 0x41 else if i = 11 then 0x10 else if i = 26 then 2 else 0
    else if lba = 3#32 then
      if i = 0 then 0x42 else if i = 26 then 3 else if i = 28 then 5 else 0
    else 0
  header :=
    { sectorsPerCluster := 1, reservedSectors := 1, fatCopies := 1
      rootDirEntries := 16, sectorsPerFat := 1 }
  rootDir :=
    { items := (List.range 16).map fun j =>
        if j = 0 then
          { fname := Vector.ofFn fun i => if i.val = 0 then 0x41 else 0
            ext := Vector.replicate 3 0
            attributes := fatFileSubdirectory
            high16BitsFirstCluster := 0
            low16BitsFirstCluster := 2
            fileSize := 0 }
        else FatDirItem.ofBytes []
      total := 1, sectorPos := 2, endingSectorPos := 3 }

/-- `fopen("0:/a", "r")` gives a descriptor of the directory. -/
theorem oneSubdirectory_opens :
    (fopen plenty (some oneSubdirectory) (fun _ => none)
      [0x30, 0x3A, 0x2F, 0x61] [0x72] ()).map
        (fun r => (r.1, kindAt r.2.1 1)) = some (1, some .dir) := by
  decide +kernel

/-- It is not so for every descriptor that `fopen` returns: a read takes
the directory for a file. -/
theorem fread_takes_directory :
    ¬ ∀ (al : Allocator Unit) (vol : Volume) (raw : Addr → FatDirItem)
        (files files' : OpenFiles) (filename mode : List UInt8) (fd : Int)
        (s s' : Unit),
        fopen al (some vol) files filename mode s = some (fd, files', s') →
        0 < fd → ∀ ops, Tried (fdStep al vol raw fd) (KindOk al vol raw fd)
          ⟨files', s'⟩ ops := by
  intro hall
  obtain ⟨⟨fd, files', s'⟩, hopen, hres⟩ :=
    Option.map_eq_some_iff.mp oneSubdirectory_opens
  obtain ⟨hfd, hkind⟩ := Prod.mk.inj hres
  obtain rfl : fd = 1 := hfd
  have hrun := hall plenty oneSubdirectory (fun _ => FatDirItem.ofBytes [])
    _ _ _ _ _ _ _ hopen (by decide) [.fread 1 1]
  refine (kindOk_iff _ _).mp hrun.1 ⟨hkind, ?_⟩
  exact ⟨by decide, by decide⟩

end BenOS.Fs
