/-
Reading a file piece after piece: the position a descriptor keeps, over
whole sequences of successful `fread` and `fseek` calls.

A `FileRun` adds to the descriptor table the position the next read has
to continue at, and what the last read delivered. `fat16_read` counts its
offset up in a variable of its own and never stores it in the descriptor.
So a sequence of calls continues where it has to exactly when it does not
read at all (`sequential_exact`).
-/
import BenOS.Fs.File
import BenOS.Lib.Run

namespace BenOS.Fs

open Lib Disk Fat

-- ============================================================== the system

/-- The descriptor table, with the position the next read continues at
and the bytes the last one delivered. -/
structure FileRun where
  table : FileDescriptors
  expected : Nat
  out : List UInt8

/-- A call on the open file. -/
inductive FileOp
  | fread (size nmemb : UInt32)
  | fseek (offset : UInt32) (whence : Nat)

/-- One successful call on the file `fd` is open on. The caller's buffer
lies within the 32-bit address space. -/
def fileStep (vol : Volume) (fd : Int) (s : FileRun) :
    FileOp → Option FileRun
  | .fread size nmemb =>
      if size.toNat * nmemb.toNat < 2 ^ 32 then
        match fread vol vol.disk s.table size nmemb fd with
        | none => none
        | some r =>
            if 0 ≤ r.res then
              some { s with
                expected := s.expected + size.toNat * nmemb.toNat
                out := r.out }
            else none
      else none
  | .fseek offset whence =>
      match fseek s.table fd offset whence with
      | none => none
      | some (res, table) =>
          if 0 ≤ res then
            some { s with
              table := table
              expected :=
                if whence = seekSet then offset.toNat
                else s.expected + offset.toNat }
          else none

/-- A file just opened, or in use, on a descriptor. -/
def openAt (table : FileDescriptors) (desc : FatFileDescriptor) : FileRun where
  table := table
  expected := desc.pos.toNat
  out := []

-- ======================================================= what is required

/-- A call continues where the calls before it ended: a read delivers the
bytes the file has from there on, and the descriptor is left at the end
of the call. -/
structure Continues (vol : Volume) (fd : Int) (s : FileRun) (op : FileOp)
    (s' : FileRun) : Prop where
  delivered : ∀ size nmemb, op = .fread size nmemb →
    ∃ desc res, fileGetDescriptor s.table fd = some desc
      ∧ fat16Read vol vol.disk
          { desc with pos := UInt32.ofNat s.expected } size nmemb
        = some { res := res, out := s'.out }
  position : ∃ desc, fileGetDescriptor s'.table fd = some desc
    ∧ desc.pos = UInt32.ofNat s'.expected

/-- The call is not a read. -/
def NoRead (_ : FileRun) (op : FileOp) (_ : FileRun) : Prop :=
  match op with
  | .fread _ _ => False
  | .fseek _ _ => True

-- =============================================================== one call

/-- The descriptor is where the next read has to continue. -/
def AtExpected (fd : Int) (s : FileRun) : Prop :=
  ∃ desc, fileGetDescriptor s.table fd = some desc
    ∧ desc.pos = UInt32.ofNat s.expected

/-- What a successful read does to a run: nothing but to deliver. -/
theorem fileStep_fread {vol : Volume} {fd : Int} {s s' : FileRun}
    {size nmemb : UInt32}
    (h : fileStep vol fd s (.fread size nmemb) = some s') :
    s'.table = s.table
      ∧ s'.expected = s.expected + size.toNat * nmemb.toNat
      ∧ 0 < size.toNat * nmemb.toNat
      ∧ size.toNat * nmemb.toNat < 2 ^ 32 := by
  unfold fileStep at h
  simp only at h
  split at h
  · next hbuffer =>
      split at h
      · cases h
      · next r hr =>
          split at h
          · next hres =>
              injection h with h
              subst h
              refine ⟨rfl, rfl, ?_, hbuffer⟩
              unfold fread at hr
              split at hr
              · injection hr with hr
                rw [← hr] at hres
                exact absurd hres (by decide)
              · next hsize =>
                  rw [not_or] at hsize
                  refine Nat.mul_pos (Nat.pos_of_ne_zero fun hz => hsize.1 ?_)
                    (Nat.pos_of_ne_zero fun hz => hsize.2 ?_)
                  · exact UInt32.toNat_inj.mp hz
                  · exact UInt32.toNat_inj.mp hz
          · cases h
  · cases h

/-- A read leaves the descriptor where it was, which is not where the
read ended. -/
theorem fread_not_continues {vol : Volume} {fd : Int} {s s' : FileRun}
    {size nmemb : UInt32} (hat : AtExpected fd s)
    (h : fileStep vol fd s (.fread size nmemb) = some s') :
    ¬ Continues vol fd s (.fread size nmemb) s' := by
  obtain ⟨htable, hexp, hpos, hlt⟩ := fileStep_fread h
  obtain ⟨desc, hdesc, hwhere⟩ := hat
  intro h
  obtain ⟨-, desc', hdesc', hwhere'⟩ := h
  rw [htable, hdesc] at hdesc'
  injection hdesc' with hdesc'
  rw [← hdesc', hwhere, hexp] at hwhere'
  have hmod := congrArg UInt32.toNat hwhere'
  rw [UInt32.toNat_ofNat', UInt32.toNat_ofNat'] at hmod
  omega

/-- What a successful `fat16_seek` does to the position. -/
theorem fat16Seek_pos {desc desc' : FatFileDescriptor} {offset : UInt32}
    {whence : Nat} {res : Int}
    (h : fat16Seek desc offset whence = some (res, desc')) (hres : 0 ≤ res) :
    desc'.pos = if whence = seekSet then offset else desc.pos + offset := by
  unfold fat16Seek at h
  split at h
  · injection h with h
    injection h with h _
    rw [← h] at hres
    exact absurd hres (by decide)
  · cases h
  · split at h
    · injection h with h
      injection h with h _
      rw [← h] at hres
      exact absurd hres (by decide)
    · split at h
      · next hset =>
          injection h with h
          injection h with _ h
          rw [← h, if_pos hset]
      · next hset =>
          split at h
          · injection h with h
            injection h with h _
            rw [← h] at hres
            exact absurd hres (by decide)
          · split at h
            · injection h with h
              injection h with _ h
              rw [← h, if_neg hset]
            · injection h with h
              injection h with h _
              rw [← h] at hres
              exact absurd hres (by decide)

/-- A successful seek leaves the descriptor where it has to be. -/
theorem fseek_atExpected {vol : Volume} {fd : Int} {s s' : FileRun}
    {offset : UInt32} {whence : Nat} (hat : AtExpected fd s)
    (h : fileStep vol fd s (.fseek offset whence) = some s') :
    AtExpected fd s' := by
  obtain ⟨desc, hdesc, hwhere⟩ := hat
  unfold fileGetDescriptor at hdesc
  cases hi : fileDescriptorIndex fd with
  | none => simp [hi] at hdesc
  | some i =>
      simp only [hi] at hdesc
      unfold fileStep fseek at h
      simp only [hi, hdesc] at h
      cases hseek : fat16Seek desc offset whence with
      | none => simp [hseek] at h
      | some r =>
          obtain ⟨res, desc'⟩ := r
          simp only [hseek] at h
          split at h
          · next hres =>
              injection h with h
              subst h
              refine ⟨desc', ?_, ?_⟩
              · unfold fileGetDescriptor
                simp [hi]
              · rw [fat16Seek_pos hseek hres, hwhere]
                split
                · rw [UInt32.ofNat_toNat]
                · rw [UInt32.ofNat_add, UInt32.ofNat_toNat]
          · cases h

/-- One call on a descriptor that is where it has to be: it continues
where it has to exactly when it is no read. -/
theorem fileStep_exact {vol : Volume} {fd : Int} {s s' : FileRun}
    {op : FileOp} (hat : AtExpected fd s)
    (h : fileStep vol fd s op = some s') :
    (NoRead s op s' → AtExpected fd s')
      ∧ (Continues vol fd s op s' ↔ NoRead s op s') := by
  cases op with
  | fread size nmemb =>
      exact ⟨False.elim, iff_of_false (fread_not_continues hat h) id⟩
  | fseek offset whence =>
      have hat' := fseek_atExpected hat h
      refine ⟨fun _ => hat', iff_of_true ⟨?_, hat'⟩ trivial⟩
      rintro size nmemb ⟨⟩

-- ============================================================= whole sequences

/-- Sequences of calls: on an open file, every call of a sequence of
successful reads and seeks continues where the calls before it ended if
and only if none of them is a read. -/
theorem sequential_exact (vol : Volume) (table : FileDescriptors) (fd : Int)
    (desc : FatFileDescriptor) (hopen : fileGetDescriptor table fd = some desc)
    (ops : List FileOp) :
    Along (fileStep vol fd) (Continues vol fd) (openAt table desc) ops ↔
      Along (fileStep vol fd) NoRead (openAt table desc) ops :=
  along_iff_of_inv (I := AtExpected fd) (A := fun _ _ _ => True)
    (fun _ _ _ hat h _ hC => (fileStep_exact hat h).1 hC)
    (fun _ _ _ hat h _ => (fileStep_exact hat h).2)
    ⟨desc, hopen, by rw [openAt, UInt32.ofNat_toNat]⟩ (along_true _ ops)

/-- A volume of one-sector clusters, its table in sector 1 and its data
from sector 3 on: a file in cluster 2. -/
def oneCluster : Volume where
  disk := fun lba i =>
    if lba = 1#32 ∧ (i = 4 ∨ i = 5) then 0xFF else 0
  header :=
    { sectorsPerCluster := 1, reservedSectors := 1, fatCopies := 1
      rootDirEntries := 16, sectorsPerFat := 1 }
  rootDir := { items := [], total := 0, sectorPos := 2, endingSectorPos := 3 }

/-- The file, of five bytes. -/
def oneItem : FatDirItem where
  fname := Vector.replicate 8 0x41
  ext := Vector.replicate 3 0x20
  attributes := 0
  high16BitsFirstCluster := 0
  low16BitsFirstCluster := 2
  fileSize := 5

/-- The file, open at its start. -/
def oneFile : FatFileDescriptor where
  item := .file 0x01000000#32 (some (0x01001000#32, oneItem))
  pos := 0

/-- The table with it open on descriptor 1. -/
def oneOpen : FileDescriptors := fun i =>
  if i.val = 0 then some oneFile else none

theorem sequential_exact_one_file :
    fileGetDescriptor oneOpen 1 = some oneFile ∧
      (Along (fileStep oneCluster 1) (Continues oneCluster 1)
          (openAt oneOpen oneFile) [.fread 1 1, .fread 1 1] ↔
        Along (fileStep oneCluster 1) NoRead (openAt oneOpen oneFile)
          [.fread 1 1, .fread 1 1]) :=
  ⟨rfl, sequential_exact oneCluster oneOpen 1 oneFile rfl _⟩

/-- One byte read leaves the descriptor at the byte it was read from. -/
theorem sequential_first_read :
    ¬ ∀ (vol : Volume) (table : FileDescriptors) (fd : Int)
      (desc : FatFileDescriptor), fileGetDescriptor table fd = some desc →
      ∀ ops : List FileOp,
        Along (fileStep vol fd) (Continues vol fd) (openAt table desc) ops := by
  intro hall
  have hone := hall oneCluster oneOpen 1 oneFile rfl [.fread 1 1]
  obtain ⟨s', hstep⟩ : ∃ s', fileStep oneCluster 1 (openAt oneOpen oneFile)
      (.fread 1 1) = some s' :=
    Option.isSome_iff_exists.mp (by decide +kernel)
  exact fread_not_continues ⟨oneFile, rfl, rfl⟩ hstep
    ((along_cons_of_step hstep).mp hone).1

end BenOS.Fs
