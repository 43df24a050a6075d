/-
When the functions that read the disk in a loop come to an end.

The recursion of `diskstreamer_read` always does (`streamEnds`), and that
of `fat16_read_internal_from_stream` unless a cluster has no bytes, where
its first division is by zero (`readEnds_iff`): what they read plays no
part in it. The loop of `fat16_get_total_items_for_dir` looks for a byte
on the disk, and ends where it comes to one (`scanEnds_iff`).
-/
import BenOS.Fat.Proofs.DirLoad

namespace BenOS.Fat

open Lib Disk

-- ================================================================ the streams

/-- `diskstreamer_read` at a position ends: it is at its last block, or
ends from the next block on. -/
inductive StreamEnds : Int → Int → Prop
  | step {pos total : Int}
      (rest : toInt32 (pos.tmod benosSectorSize + total) ≥ benosSectorSize →
        StreamEnds
          (toInt32 (pos + (benosSectorSize - pos.tmod benosSectorSize)))
          (toInt32 (total - (benosSectorSize - pos.tmod benosSectorSize)))) :
      StreamEnds pos total

/-- From a block boundary every block takes its cells off the total. -/
theorem streamEnds_of_boundary (n : Nat) :
    ∀ {pos total : Int}, pos.tmod benosSectorSize = 0 → total.toNat ≤ n →
      -2147483648 ≤ total → total < 2147483648 → StreamEnds pos total := by
  induction n with
  | zero =>
      intro pos total hpos hn hge hlt
      refine .step fun hover => ?_
      rw [hpos, Int.zero_add, toInt32_of_range hge hlt] at hover
      simp only [benosSectorSize] at hover
      omega
  | succ n ih =>
      intro pos total hpos hn hge hlt
      refine .step fun hover => ?_
      rw [hpos, Int.zero_add, toInt32_of_range hge hlt] at hover
      rw [hpos]
      have hdvd := Int.dvd_of_tmod_eq_zero hpos
      have hrest : toInt32 (total - (benosSectorSize - 0))
          = total - benosSectorSize := by
        simp only [benosSectorSize] at hover ⊢
        rw [toInt32_of_range (by omega) (by omega)]
        omega
      rw [hrest]
      apply ih
      · apply Int.tmod_eq_zero_of_dvd
        simp only [benosSectorSize] at hdvd ⊢
        unfold toInt32
        omega
      · simp only [benosSectorSize] at hover ⊢
        omega
      · simp only [benosSectorSize] at hover ⊢
        omega
      · simp only [benosSectorSize] at hover ⊢
        omega

/-- Every read of a stream ends. -/
theorem streamEnds {pos total : Int} : StreamEnds pos total := by
  refine .step fun _ => ?_
  apply streamEnds_of_boundary _ _ le_rfl (toInt32_ge _) (toInt32_lt _)
  apply Int.tmod_eq_zero_of_dvd
  have hsplit := Int.mul_tdiv_add_tmod pos benosSectorSize
  simp only [benosSectorSize] at hsplit ⊢
  unfold toInt32
  omega

-- ================================================================== file data

/-- How much of a total one call of `fat16_read_internal_from_stream`
reads. -/
def fat16TotalToRead (vol : Volume) (total : Int) : Int :=
  if total > vol.sizeOfClusterBytes then vol.sizeOfClusterBytes else total

/-- `fat16_read_internal_from_stream` at an offset, for a total, divides
by nothing that is zero and ends, whatever the streams deliver: so do the
reads of the file allocation table and of the data, and so does the call
for what is left. -/
inductive ReadEnds (vol : Volume) : Int → Int → Prop
  | step {offset total : Int} (divisor : vol.sizeOfClusterBytes ≠ 0)
      (entry : ∀ pos, StreamEnds pos 2)
      (data : ∀ pos, StreamEnds pos (fat16TotalToRead vol total))
      (rest : total - fat16TotalToRead vol total > 0 →
        ReadEnds vol (toInt32 (offset + fat16TotalToRead vol total))
          (total - fat16TotalToRead vol total)) :
      ReadEnds vol offset total

theorem sizeOfClusterBytes_nonneg (vol : Volume) :
    0 ≤ vol.sizeOfClusterBytes := by
  unfold Volume.sizeOfClusterBytes
  exact Int.mul_nonneg (Int.natCast_nonneg _) (Int.natCast_nonneg _)

/-- A read ends exactly where clusters have some bytes. -/
theorem readEnds_iff (vol : Volume) {offset total : Int} :
    ReadEnds vol offset total ↔ vol.header.sectorsPerCluster ≠ 0 := by
  have hsize : vol.sizeOfClusterBytes ≠ 0
      ↔ vol.header.sectorsPerCluster ≠ 0 := by
    unfold Volume.sizeOfClusterBytes
    rw [Ne, Ne, ← UInt8.toNat_inj]
    simp
  constructor
  · rintro ⟨hdiv, -, -, -⟩
    exact hsize.mp hdiv
  · intro h
    have hpos := sizeOfClusterBytes_nonneg vol
    have hne := hsize.mpr h
    obtain ⟨n, hn⟩ : ∃ n, total.toNat ≤ n := ⟨_, le_rfl⟩
    induction n generalizing offset total with
    | zero =>
        refine .step hne (fun _ => streamEnds) (fun _ => streamEnds)
          fun hmore => ?_
        unfold fat16TotalToRead at hmore
        split at hmore <;> omega
    | succ n ih =>
        refine .step hne (fun _ => streamEnds) (fun _ => streamEnds)
          fun hmore => ih ?_
        unfold fat16TotalToRead at hmore ⊢
        split at hmore
        · next hbig =>
            rw [if_pos hbig]
            omega
        · omega

/-- Where it ends, one call for each byte and one more are enough: more
change nothing. -/
theorem fat16ReadInternalFromStream_enough {β : Type} {vol : Volume}
    (image : Image β) {offset total : Int} (h : ReadEnds vol offset total) :
    ∀ {fuel fuel' : Nat} (cluster : Int), total.toNat < fuel →
      total.toNat < fuel' →
      fat16ReadInternalFromStream vol image fuel cluster offset total
        = fat16ReadInternalFromStream vol image fuel' cluster offset total := by
  induction h with
  | @step offset total divisor _ _ _ ih =>
      intro fuel fuel' cluster hfuel hfuel'
      obtain ⟨f, rfl⟩ : ∃ f, fuel = f + 1 := ⟨fuel - 1, by omega⟩
      obtain ⟨f', rfl⟩ : ∃ f', fuel' = f' + 1 := ⟨fuel' - 1, by omega⟩
      have hpos := sizeOfClusterBytes_nonneg vol
      have hrest : total - fat16TotalToRead vol total > 0 →
          (total - fat16TotalToRead vol total).toNat < f
            ∧ (total - fat16TotalToRead vol total).toNat < f' := by
        unfold fat16TotalToRead
        split <;> omega
      rw [fat16ReadInternalFromStream, fat16ReadInternalFromStream,
        ← fat16TotalToRead]
      generalize fat16TotalToRead vol total = n at ih hrest
      cases fat16GetClusterForOffset vol cluster offset with
      | none => rfl
      | some clusterToUse =>
          simp only
          split
          · rfl
          · cases diskstreamerRead image
                (fat16StartingPos vol clusterToUse offset) n with
            | none => rfl
            | some r =>
                simp only
                split
                · rfl
                · split
                  · next hmore =>
                      obtain ⟨hless, hless'⟩ := hrest hmore
                      rw [ih hmore cluster hless hless']
                  · rfl

/-- A read of a volume whose clusters have no bytes has no outcome, however
many calls it may take. -/
theorem fat16ReadInternalFromStream_none {β : Type} {vol : Volume}
    (image : Image β) (h : vol.header.sectorsPerCluster = 0) (fuel : Nat)
    (cluster offset total : Int) :
    fat16ReadInternalFromStream vol image fuel cluster offset total = none := by
  cases fuel with
  | zero => rfl
  | succ fuel =>
      have hzero : vol.sizeOfClusterBytes = 0 := by
        unfold Volume.sizeOfClusterBytes
        rw [h]
        rfl
      rw [fat16ReadInternalFromStream]
      unfold fat16GetClusterForOffset
      rw [if_pos hzero]

-- ================================================================= the scans

/-- From a position on, the disk has an end mark, and the entries up to it
can be read. -/
def HasEnd (disk : Image UInt8) (pos : Int) : Prop :=
  ∃ stop, EndsAfter disk pos stop
    ∧ ∀ k ≤ stop, Readable (toInt32 (pos + sizeofFatDirItem * (k : Nat)))

/-- A scan comes to its end mark. -/
def ScanEnds (disk : Image UInt8) (pos : Int) : Prop :=
  ∃ fuel n, fat16ScanDir disk fuel pos 0 = some n

/-- A scan with an end mark ahead comes to it. -/
theorem fat16ScanDir_total {disk : Image UInt8} (stop : Nat) :
    ∀ {fuel : Nat} {pos : Int} (i : Int), stop < fuel → toInt32 pos = pos →
      EndsAfter disk pos stop →
      (∀ k ≤ stop, Readable (toInt32 (pos + sizeofFatDirItem * (k : Nat)))) →
      ∃ n, fat16ScanDir disk fuel pos i = some n := by
  induction stop with
  | zero =>
      intro fuel pos i hfuel hpos hends hreads
      obtain ⟨fuel, rfl⟩ := Nat.exists_eq_add_of_lt hfuel
      rw [Nat.zero_add]
      have hread := hreads 0 le_rfl
      rw [Nat.cast_zero, Int.mul_zero, Int.add_zero, hpos] at hread
      have hend := hends.ends
      rw [scanned_zero disk hpos] at hend
      exact ⟨i, by rw [scanRound_eq hpos hread, if_pos hend]⟩
  | succ stop ih =>
      intro fuel pos i hfuel hpos hends hreads
      obtain ⟨fuel, rfl⟩ : ∃ f, fuel = f + 1 := ⟨fuel - 1, by omega⟩
      have hread := hreads 0 (Nat.zero_le _)
      rw [Nat.cast_zero, Int.mul_zero, Int.add_zero, hpos] at hread
      have hmore := hends.before 0 (Nat.zero_lt_succ stop)
      rw [scanned_zero disk hpos] at hmore
      rw [scanRound_eq hpos hread, if_neg hmore]
      apply ih _ (Nat.lt_of_succ_lt_succ hfuel)
      · exact toInt32_toInt32 _
      · constructor
        · rw [scanned_succ]
          exact hends.ends
        · intro k hk
          rw [scanned_succ]
          exact hends.before (k + 1) (Nat.succ_lt_succ hk)
      · intro k hk
        have hnext := hreads (k + 1) (Nat.succ_le_succ hk)
        rw [toInt32_add_left]
        rw [show pos + (sizeofFatDirItem : Int) * ((k + 1 : Nat) : Int)
          = pos + sizeofFatDirItem + sizeofFatDirItem * (k : Int) by
            simp only [sizeofFatDirItem]; omega] at hnext
        exact hnext

/-- A scan ends exactly where there is an end mark for it. -/
theorem scanEnds_iff (disk : Image UInt8) {pos : Int}
    (hpos : toInt32 pos = pos) : ScanEnds disk pos ↔ HasEnd disk pos := by
  constructor
  · rintro ⟨fuel, n, h⟩
    obtain ⟨stop, hends, hreads, -⟩ := fat16ScanDir_eq disk fuel pos 0 n hpos h
    exact ⟨stop, hends, hreads⟩
  · rintro ⟨stop, hends, hreads⟩
    exact ⟨stop + 1, fat16ScanDir_total stop 0 (Nat.lt_succ_self stop) hpos
      hends hreads⟩

end BenOS.Fat
