/-
Where a descriptor's position can get to, over whole sequences of `fseek`
and `fread` calls of any results.

`fat16_seek` checks the offset against the size of the file before it
looks at the mode, so a relative seek is checked as if it were an absolute
one. The position stays inside the file for exactly the sequences whose
accepted relative seeks do (`seek_stays_inside`).
-/
import BenOS.Fs.Proofs.Position

namespace BenOS.Fs

open Lib Disk Fat

variable {vol : Volume} {fd : Int} {item : FatDirItem}

-- ================================================================== the calls

/-- One call on the file `fd` is open on, whatever it answers. -/
def seekStep (vol : Volume) (fd : Int) (table : FileDescriptors) :
    FileOp → Option FileDescriptors
  | .fread size nmemb =>
      (fread vol vol.disk table size nmemb fd).map fun _ => table
  | .fseek offset whence => (fseek table fd offset whence).map Prod.snd

theorem seekStep_fseek (vol : Volume) (fd : Int) (table : FileDescriptors)
    (offset : UInt32) (whence : Nat) :
    seekStep vol fd table (.fseek offset whence)
      = (fseek table fd offset whence).map Prod.snd := rfl

/-- The descriptor is open on a file with a directory entry. -/
def OpenOn (fd : Int) (item : FatDirItem) (table : FileDescriptors)
    (desc : FatFileDescriptor) : Prop :=
  fileGetDescriptor table fd = some desc ∧ desc.dirItem = some item

/-- A position is the start of a file, or inside of it. -/
def Inside (item : FatDirItem) (pos : UInt32) : Prop :=
  pos = 0 ∨ pos < item.fileSize

instance (item : FatDirItem) (pos : UInt32) : Decidable (Inside item pos) :=
  inferInstanceAs (Decidable (_ ∨ _))

/-- A call leaves the position inside the file: an accepted relative seek
has added to it, and a seek that fails has left it as it was. -/
structure StaysInside (fd : Int) (item : FatDirItem) (table : FileDescriptors)
    (op : FileOp) (table' : FileDescriptors) : Prop where
  inside : ∀ desc', fileGetDescriptor table' fd = some desc' →
    Inside item desc'.pos
  noWrap : ∀ offset, op = .fseek offset seekCur →
    fseek table fd offset seekCur = some (0, table') →
    ∀ desc desc', fileGetDescriptor table fd = some desc →
      fileGetDescriptor table' fd = some desc' →
      desc'.pos.toNat = desc.pos.toNat + offset.toNat
  unchanged : ∀ offset whence res, op = .fseek offset whence →
    fseek table fd offset whence = some (res, table') → res < 0 →
    table' = table

/-- A relative seek that is accepted leads to a place in the file. -/
def SeekFits (fd : Int) (item : FatDirItem) (table : FileDescriptors)
    (op : FileOp) (_ : FileDescriptors) : Prop :=
  match op with
  | .fread _ _ => True
  | .fseek offset whence => whence = seekCur → offset < item.fileSize →
      ∀ desc, fileGetDescriptor table fd = some desc →
        desc.pos.toNat + offset.toNat < item.fileSize.toNat

/-- The descriptor is open on the file, and inside of it. -/
def OpenInside (fd : Int) (item : FatDirItem) (table : FileDescriptors) :
    Prop :=
  ∃ desc, OpenOn fd item table desc ∧ Inside item desc.pos

-- ==================================================================== one seek

/-- `fat16_seek` on a file with an entry. -/
theorem fat16Seek_file {desc : FatFileDescriptor}
    (h : desc.dirItem = some item) (offset : UInt32) (whence : Nat) :
    fat16Seek desc offset whence
      = if offset ≥ item.fileSize then some (-eio, desc)
        else if whence = seekSet then some (0, { desc with pos := offset })
        else if whence = seekEnd then some (-eunimp, desc)
        else if whence = seekCur then
          some (0, { desc with pos := desc.pos + offset })
        else some (-einvarg, desc) := by
  obtain ⟨fItem, pos⟩ := desc
  cases fItem with
  | dir addr dir => cases h
  | file addr entry =>
      cases entry with
      | none => cases h
      | some entry =>
          obtain rfl : entry.2 = item := Option.some.inj h
          rfl

/-- `fseek` on an open descriptor: the table has what `fat16_seek` makes
of it. -/
theorem fseek_open {table : FileDescriptors} {desc desc' : FatFileDescriptor}
    (h : fileGetDescriptor table fd = some desc) {offset : UInt32}
    {whence : Nat} {res : Int}
    (hseek : fat16Seek desc offset whence = some (res, desc')) :
    ∃ table', fseek table fd offset whence = some (res, table')
      ∧ fileGetDescriptor table' fd = some desc'
      ∧ (desc' = desc → table' = table) := by
  unfold fileGetDescriptor at h ⊢
  unfold fseek
  cases hi : fileDescriptorIndex fd with
  | none => simp [hi] at h
  | some i =>
      simp only [hi] at h
      simp only [h, hseek]
      refine ⟨_, rfl, by rw [Function.update_self], fun heq => ?_⟩
      rw [heq, ← h, Function.update_eq_self]

section Step

variable {table table' : FileDescriptors} {desc : FatFileDescriptor}
  {offset : UInt32} {whence : Nat}

/-- A seek that fails stays where it is. -/
theorem seek_fails (hopen : OpenOn fd item table desc)
    (hin : Inside item desc.pos) {res : Int} (hres : res < 0)
    (hseek : fat16Seek desc offset whence = some (res, desc))
    (h : seekStep vol fd table (.fseek offset whence) = some table') :
    table' = table
      ∧ StaysInside fd item table (.fseek offset whence) table' := by
  obtain ⟨table₁, hfseek, -, hsame⟩ := fseek_open hopen.1 hseek
  have htable : table' = table := by
    rw [seekStep_fseek, hfseek] at h
    exact (Option.some.inj h).symm.trans (hsame rfl)
  refine ⟨htable, fun desc' hdesc' => ?_, fun offset' hop hacc => ?_,
    fun _ _ _ _ _ _ => htable⟩
  · rw [htable, hopen.1] at hdesc'
    rw [← Option.some.inj hdesc']
    exact hin
  · cases hop
    rw [hfseek] at hacc
    have hzero := (Prod.mk.inj (Option.some.inj hacc)).1
    omega

/-- A seek that succeeds leaves the new position. -/
theorem seek_succeeds (hopen : OpenOn fd item table desc) {pos : UInt32}
    (hseek : fat16Seek desc offset whence = some (0, { desc with pos := pos }))
    (h : seekStep vol fd table (.fseek offset whence) = some table') :
    OpenOn fd item table' { desc with pos := pos }
      ∧ (StaysInside fd item table (.fseek offset whence) table'
        ↔ Inside item pos
          ∧ (whence = seekCur → pos.toNat = desc.pos.toNat + offset.toNat)) := by
  obtain ⟨table₁, hfseek, hget, -⟩ := fseek_open hopen.1 hseek
  obtain rfl : table' = table₁ := by
    rw [seekStep_fseek, hfseek] at h
    exact (Option.some.inj h).symm
  refine ⟨⟨hget, hopen.2⟩, fun hstays => ⟨hstays.inside _ hget, ?_⟩, ?_⟩
  · rintro rfl
    exact hstays.noWrap offset rfl hfseek desc _ hopen.1 hget
  · rintro ⟨hin, hsum⟩
    refine ⟨fun desc' hdesc' => ?_, ?_, ?_⟩
    · rw [hget] at hdesc'
      rw [← Option.some.inj hdesc']
      exact hin
    · intro offset' hop _ desc₁ desc' hdesc hdesc'
      cases hop
      rw [hopen.1] at hdesc
      rw [hget] at hdesc'
      rw [← Option.some.inj hdesc, ← Option.some.inj hdesc']
      exact hsum rfl
    · intro offset' whence' res hop hfseek' hres
      cases hop
      rw [hfseek] at hfseek'
      have hzero := (Prod.mk.inj (Option.some.inj hfseek')).1
      omega

/-- A relative seek by less than the size of the file is right exactly when
it leads to a place in the file. -/
theorem relative_inside (pos : UInt32) {offset : UInt32}
    (h : offset < item.fileSize) :
    Inside item (pos + offset) ∧ (pos + offset).toNat
        = pos.toNat + offset.toNat
      ↔ pos.toNat + offset.toNat < item.fileSize.toNat := by
  have hsize := item.fileSize.toNat_lt
  rw [UInt32.lt_iff_toNat_lt] at h
  have hadd := UInt32.toNat_add pos offset
  unfold Inside
  rw [UInt32.lt_iff_toNat_lt, ← UInt32.toNat_inj]
  have hzero : (0 : UInt32).toNat = 0 := rfl
  constructor
  · rintro ⟨hin, hsum⟩
    omega
  · intro hlt
    rw [Nat.mod_eq_of_lt (by omega)] at hadd
    exact ⟨Or.inr (by omega), hadd⟩

/-- One call on a descriptor inside its file: it stays inside exactly when
it is no relative seek that leads out. -/
theorem seekStep_exact {op : FileOp} (hI : OpenInside fd item table)
    (h : seekStep vol fd table op = some table') :
    (SeekFits fd item table op table' → OpenInside fd item table')
      ∧ (StaysInside fd item table op table'
        ↔ SeekFits fd item table op table') := by
  obtain ⟨desc, hopen, hin⟩ := id hI
  cases op with
  | fread size nmemb =>
      obtain ⟨r, -, rfl⟩ := Option.map_eq_some_iff.mp h
      refine ⟨fun _ => hI, iff_of_true ⟨fun desc' hdesc' => ?_, ?_, ?_⟩ trivial⟩
      · rw [hopen.1] at hdesc'
        rw [← Option.some.inj hdesc']
        exact hin
      · rintro offset ⟨⟩
      · rintro offset whence res ⟨⟩
  | fseek offset whence =>
      have hseek := fat16Seek_file hopen.2 offset whence
      -- a call that fails is no relative seek that is accepted
      have hfails : ∀ {res : Int}, res < 0 →
          fat16Seek desc offset whence = some (res, desc) →
          (whence = seekCur → ¬ offset < item.fileSize) →
          (SeekFits fd item table (.fseek offset whence) table' →
            OpenInside fd item table')
          ∧ (StaysInside fd item table (.fseek offset whence) table'
            ↔ SeekFits fd item table (.fseek offset whence) table') := by
        intro res hres hseek hnot
        obtain ⟨rfl, hstays⟩ := seek_fails hopen hin hres hseek h
        exact ⟨fun _ => hI, iff_of_true hstays fun hcur hlt =>
          absurd hlt (hnot hcur)⟩
      by_cases hsize : offset ≥ item.fileSize
      · rw [if_pos hsize] at hseek
        exact hfails (by decide) hseek fun _ => UInt32.not_lt.mpr hsize
      · rw [if_neg hsize] at hseek
        have hlt := UInt32.not_le.mp hsize
        by_cases hset : whence = seekSet
        · rw [if_pos hset] at hseek
          obtain ⟨hopen', hiff⟩ := seek_succeeds hopen hseek h
          have hcur : whence ≠ seekCur := by
            rw [hset]
            decide
          refine ⟨fun _ => ⟨_, hopen', Or.inr hlt⟩, hiff.trans ?_⟩
          exact iff_of_true ⟨Or.inr hlt, fun hw => absurd hw hcur⟩
            fun hw => absurd hw hcur
        · rw [if_neg hset] at hseek
          by_cases hend : whence = seekEnd
          · rw [if_pos hend] at hseek
            exact hfails (by decide) hseek fun hw =>
              absurd (hend.symm.trans hw) (by decide)
          · rw [if_neg hend] at hseek
            by_cases hcur : whence = seekCur
            · rw [if_pos hcur] at hseek
              obtain ⟨hopen', hiff⟩ := seek_succeeds hopen hseek h
              have hfits : SeekFits fd item table (.fseek offset whence) table'
                  ↔ desc.pos.toNat + offset.toNat < item.fileSize.toNat := by
                refine ⟨fun hfits => hfits hcur hlt desc hopen.1, ?_⟩
                intro hsum _ _ desc' hdesc'
                rw [hopen.1] at hdesc'
                rwa [← Option.some.inj hdesc']
              have hrel := relative_inside desc.pos hlt
              refine ⟨fun hf => ⟨_, hopen', (hrel.mpr (hfits.mp hf)).1⟩, ?_⟩
              rw [hiff, hfits, ← hrel]
              exact and_congr_right fun _ => ⟨fun hsum => hsum hcur,
                fun hsum _ => hsum⟩
            · rw [if_neg hcur] at hseek
              exact hfails (by decide) hseek fun hw => absurd hw hcur

end Step

-- ============================================================= whole sequences

/-- On an open file, every call of a sequence of seeks and reads leaves the
position inside the file if and only if every relative seek that is
accepted leads to a place in it. -/
theorem seek_stays_inside (vol : Volume) (fd : Int) (item : FatDirItem)
    (table : FileDescriptors) (hopen : OpenInside fd item table)
    (ops : List FileOp) :
    Along (seekStep vol fd) (StaysInside fd item) table ops
      ↔ Along (seekStep vol fd) (SeekFits fd item) table ops :=
  along_iff_of_inv (I := OpenInside fd item) (A := fun _ _ _ => True)
    (fun _ _ _ hI h _ hC => (seekStep_exact hI h).1 hC)
    (fun _ _ _ hI h _ => (seekStep_exact hI h).2) hopen (along_true _ ops)

theorem seek_stays_inside_one_file :
    Along (seekStep oneCluster 1) (StaysInside 1 oneItem) oneOpen
        [.fseek 4 seekSet, .fread 1 1]
      ↔ Along (seekStep oneCluster 1) (SeekFits 1 oneItem) oneOpen
        [.fseek 4 seekSet, .fread 1 1] :=
  seek_stays_inside oneCluster 1 oneItem oneOpen
    ⟨oneFile, ⟨rfl, rfl⟩, Or.inl rfl⟩ _

/-- Two seeks by four take the position of a file of five bytes to 8. -/
theorem seek_leaves_file :
    ¬ ∀ (vol : Volume) (fd : Int) (item : FatDirItem) (table : FileDescriptors),
      OpenInside fd item table → ∀ ops : List FileOp,
        Along (seekStep vol fd) (StaysInside fd item) table ops := by
  intro hall
  have hops := hall oneCluster 1 oneItem oneOpen
    ⟨oneFile, ⟨rfl, rfl⟩, Or.inl rfl⟩ [.fseek 4 seekSet, .fseek 4 seekCur]
  obtain ⟨-, hsecond, -⟩ := hops
  have hpos := hsecond.inside { oneFile with pos := 8 } rfl
  exact absurd hpos (by decide)

end BenOS.Fs
