/-
The blocks a read of the stream asks the disk for.

`diskstreamer_read` goes on to the next block whenever the stretch asked
for reaches the end of this one, also when nothing is left to read there:
it asks for the blocks from that of the first cell to that of the cell
behind the last (`log_diskstreamerReadLoggedLoop`). These are the blocks
of its own cells just where the read does not end with a block
(`diskstreamer_read_own_sectors_iff`).
-/
import BenOS.Disk.Proofs.Streamer

namespace BenOS.Disk

open Lib

variable {β : Type}

-- ================================================================= erasure

/-- Forgetting the requests gives the reader back. -/
theorem val_diskstreamerReadLoggedLoop (image : Image β) :
    ∀ (fuel : Nat) (pos total : Int),
      (diskstreamerReadLoggedLoop image fuel pos total).val
        = diskstreamerReadLoop image fuel pos total := by
  intro fuel
  induction fuel with
  | zero => intro _ _; rfl
  | succ fuel ih =>
      intro pos total
      unfold diskstreamerReadLoggedLoop diskstreamerReadLoop
      simp only [diskReadBlockLogged, diskReadBlock, Traced.val_bind,
        Traced.val_look, lt_irrefl, if_false]
      by_cases hover : toInt32 (pos.tmod benosSectorSize + total)
          ≥ (benosSectorSize : Int)
      · simp only [hover, if_true]
        split
        case isTrue => rfl
        case isFalse =>
          rw [Traced.val_bind, ih]
          cases diskstreamerReadLoop image fuel _ _ with
          | none => rfl
          | some _ => rfl
      · simp only [hover, if_false]
        split
        case isTrue => rfl
        case isFalse => rfl

theorem val_diskstreamerReadLogged (image : Image β) (pos total : Int) :
    (diskstreamerReadLogged image pos total).val
      = diskstreamerRead image pos total := by
  unfold diskstreamerReadLogged diskstreamerRead
  exact val_diskstreamerReadLoggedLoop image _ pos total

-- ============================================================ the requests

/-- The blocks number `first` to `last`, in order. -/
def sectors (first last : Nat) : List (BitVec 32) :=
  (List.range' first (last + 1 - first)).map (BitVec.ofNat 32)

/-- A stretch of one block. -/
theorem sectors_self (n : Nat) : sectors n n = [BitVec.ofNat 32 n] := by
  unfold sectors
  rw [Nat.add_sub_cancel_left]
  rfl

/-- A stretch of blocks is its first and the stretch behind that. -/
theorem sectors_cons {first last : Nat} (h : first < last) :
    sectors first last
      = BitVec.ofNat 32 first :: sectors (first + 1) last := by
  unfold sectors
  rw [show last + 1 - first = last + 1 - (first + 1) + 1 by omega]
  rfl

/-- The reader asks for every block up to that of the cell behind the
last one it reads. -/
theorem log_diskstreamerReadLoggedLoop (image : Image β) :
    ∀ (fuel pos total : Nat), total < fuel → pos + total < 2147483648 →
      (diskstreamerReadLoggedLoop image fuel pos total).log
        = sectors (pos / benosSectorSize)
            ((pos + total) / benosSectorSize) := by
  intro fuel
  induction fuel with
  | zero =>
      intro _ total hfuel
      exact absurd hfuel (Nat.not_lt_zero total)
  | succ fuel ih =>
      intro pos total hfuel hsum
      obtain ⟨q, hq⟩ : ∃ q, pos / benosSectorSize = q := ⟨_, rfl⟩
      obtain ⟨r, hr⟩ : ∃ r, pos % benosSectorSize = r := ⟨_, rfl⟩
      have hdiv : (pos : Int).tdiv benosSectorSize = (q : Int) := by
        rw [Int.tdiv_eq_ediv_of_nonneg (Int.natCast_nonneg pos), ← hq]
        rfl
      have hmod : (pos : Int).tmod benosSectorSize = (r : Int) := by
        rw [Int.tmod_eq_emod_of_nonneg (Int.natCast_nonneg pos), ← hr]
        rfl
      have hpos : pos = benosSectorSize * q + r := by
        rw [← hq, ← hr, Nat.div_add_mod]
      have hlt : r < benosSectorSize := hr ▸ Nat.mod_lt pos (by decide)
      have hfits : toInt32 ((r : Int) + total) = (r : Int) + total :=
        toInt32_of_range (by omega) (by omega)
      unfold diskstreamerReadLoggedLoop
      simp only [hdiv, hmod, hfits, BitVec.ofInt_natCast, diskReadBlockLogged,
        diskReadBlock, Traced.log_bind, Traced.val_look, Traced.log_look,
        lt_irrefl, if_false]
      rw [hq]
      clear hdiv hmod hfits hq hr
      by_cases hover : benosSectorSize ≤ r + total
      · -- this block to its end, and the rest from the next block on
        obtain ⟨n, hn⟩ : ∃ n, r + n = benosSectorSize :=
          ⟨benosSectorSize - r, Nat.add_sub_cancel' hlt.le⟩
        obtain ⟨rest, hrest⟩ : ∃ rest, total = n + rest :=
          ⟨total - n, by omega⟩
        have hover' : (r : Int) + total ≥ benosSectorSize := by omega
        have hread : (total : Int) - ((r : Int) + total - benosSectorSize)
            = n := by
          omega
        have hleft : (total : Int) - n = rest := by omega
        have hnext : toInt32 ((pos : Int) + n) = ((pos + n : Nat) : Int) := by
          rw [Nat.cast_add]
          exact toInt32_of_range (by omega) (by omega)
        have hinside : ¬ (0 < (n : Int)
            ∧ ((r : Int) < 0 ∨ (benosSectorSize : Int) < (r : Int) + n)) := by
          omega
        have hstart : (pos + n) / benosSectorSize = q + 1 := by
          simp only [benosSectorSize] at hpos hn ⊢
          omega
        have hlast : q < (pos + total) / benosSectorSize := by
          simp only [benosSectorSize] at hpos hn ⊢
          omega
        have hlater := ih (pos + n) rest (by omega) (by omega)
        rw [hstart, Nat.add_assoc, ← hrest] at hlater
        simp only [hover', if_true, hread, hleft, hnext]
        rw [if_neg hinside, Traced.log_bind, hlater, sectors_cons hlast,
          List.singleton_append]
        refine congrArg (List.cons _) ?_
        cases (diskstreamerReadLoggedLoop image fuel _ _).val with
        | none => exact List.append_nil _
        | some _ => exact List.append_nil _
      · -- all of it in this block
        have hover' : ¬ (r : Int) + total ≥ benosSectorSize := by omega
        have hinside : ¬ (0 < (total : Int) ∧ ((r : Int) < 0
            ∨ (benosSectorSize : Int) < (r : Int) + total)) := by
          omega
        have hlast : (pos + total) / benosSectorSize = q := by
          simp only [benosSectorSize] at hpos hover ⊢
          omega
        simp only [hover', if_false]
        rw [if_neg hinside, hlast, sectors_self]
        rfl

/-- A read of at least one cell asks for the blocks from that of its first
cell to that of the cell behind its last. -/
theorem log_diskstreamerReadLogged (image : Image β) (pos total : Nat)
    (hsum : pos + total < 2147483648) :
    (diskstreamerReadLogged image pos total).log
      = sectors (pos / benosSectorSize)
          ((pos + total) / benosSectorSize) := by
  unfold diskstreamerReadLogged
  rw [Int.toNat_natCast]
  exact log_diskstreamerReadLoggedLoop image _ pos total
    (Nat.lt_succ_self total) hsum

-- ============================================================= own sectors

/-- A read asks for the blocks its cells are in, each once and in order,
and so for none behind the end of a disk that holds all of them. -/
structure OwnSectors (image : Image β) (pos total : Int) : Prop where
  requests : (diskstreamerReadLogged image pos total).log
    = sectors (pos / benosSectorSize).toNat
        ((pos + total - 1) / benosSectorSize).toNat
  onDisk : ∀ blocks : Nat, pos + total ≤ blocks * benosSectorSize →
    ∀ lba ∈ (diskstreamerReadLogged image pos total).log,
      lba.toNat < blocks

theorem length_sectors (first last : Nat) :
    (sectors first last).length = last + 1 - first := by
  rw [sectors, List.length_map, List.length_range']

/-- A stretch of block numbers that do not wrap stays below its end. -/
theorem lt_of_mem_sectors {first last blocks : Nat} (hlast : last < blocks)
    (hwrap : last < 2 ^ 32) {lba : BitVec 32}
    (h : lba ∈ sectors first last) : lba.toNat < blocks := by
  unfold sectors at h
  obtain ⟨n, hn, rfl⟩ := List.mem_map.mp h
  obtain ⟨hfirst, hn⟩ := List.mem_range'_1.mp hn
  rw [BitVec.toNat_ofNat, Nat.mod_eq_of_lt (by omega)]
  omega

/-- A read asks for the blocks of its own cells just where it does not end
with a block. -/
theorem diskstreamer_read_own_sectors_iff (image : Image β) {pos total : Int}
    (hpos : 0 ≤ pos) (htotal : 1 ≤ total) (hsum : pos + total < 2 ^ 31) :
    OwnSectors image pos total ↔ (pos + total) % benosSectorSize ≠ 0 := by
  obtain ⟨p, rfl⟩ := Int.eq_ofNat_of_zero_le hpos
  obtain ⟨n, rfl⟩ := Int.eq_ofNat_of_zero_le (show 0 ≤ total by omega)
  have hlog := log_diskstreamerReadLogged image p n (by omega)
  have hfirst : ((p : Int) / benosSectorSize).toNat = p / benosSectorSize := by
    simp only [benosSectorSize]
    omega
  constructor
  · -- the cell behind the last one is in a block of its own
    intro h hend
    have hlength := congrArg List.length (hlog.symm.trans h.requests)
    rw [length_sectors, length_sectors] at hlength
    simp only [benosSectorSize] at hlength hend
    omega
  · intro hend
    have hlast : ((p : Int) + n - 1) / benosSectorSize
        = ((p + n) / benosSectorSize : Nat) := by
      simp only [benosSectorSize] at hend ⊢
      omega
    refine ⟨?_, fun blocks hblocks lba hlba => ?_⟩
    · rw [hlog, hlast, Int.toNat_natCast, hfirst]
    · rw [hlog] at hlba
      refine lt_of_mem_sectors ?_ ?_ hlba
      · simp only [benosSectorSize] at hend hblocks ⊢
        omega
      · simp only [benosSectorSize]
        omega

/-- One cell in front of the end of a block: the read stays in it. -/
theorem diskstreamer_read_own_sectors_iff_of_511 :
    OwnSectors (fun _ _ => 0) 0 511 :=
  (diskstreamer_read_own_sectors_iff (fun _ _ => 0) (by decide) (by decide)
    (by decide)).mpr (by decide)

/-- The whole first block: the reader asks for the second one as well. -/
theorem diskstreamer_read_block_asks_for_next :
    ¬ ∀ (image : Image (BitVec 8)) (pos total : Int), 0 ≤ pos → 1 ≤ total →
      pos + total < 2 ^ 31 → OwnSectors image pos total := by
  intro h
  have hown := h (fun _ _ => 0#8) (0 : Nat) (512 : Nat) (by decide)
    (by decide) (by decide)
  have hlog := log_diskstreamerReadLogged (fun _ _ => 0#8) 0 512
    (by decide)
  have hnext : 1#32 ∈ sectors (0 / benosSectorSize)
      ((0 + 512) / benosSectorSize) := by decide
  rw [← hlog] at hnext
  exact absurd (hown.onDisk 1 (by decide) 1#32 hnext) (by decide)

end BenOS.Disk
