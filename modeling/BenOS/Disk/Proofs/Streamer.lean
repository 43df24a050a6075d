/-
What a read of the stream delivers. The disk is one array of cells
(`cellAt`), and a read is a stretch of it (`diskstreamerRead_eq`), from a
position that is not negative or starts a block; from any other the block
buffer is read in front of its start (`diskstreamerRead_none`).

Positions past the largest `int` come back negative at a block boundary,
as `toInt32` says.
-/
import BenOS.Disk.Streamer

namespace BenOS.Disk

open Lib

variable {β : Type}

/-- The cell at a position of the disk. -/
def cellAt (image : Image β) (pos : Int) : β :=
  image (BitVec.ofInt 32 (pos / benosSectorSize)) (pos % benosSectorSize).toNat

/-- A position from which a stream can deliver cells. -/
def Readable (pos : Int) : Prop := 0 ≤ pos ∨ pos % benosSectorSize = 0

instance (pos : Int) : Decidable (Readable pos) :=
  inferInstanceAs (Decidable (_ ∨ _))

/-- At a readable position C's division is the one that rounds down. -/
theorem tdiv_tmod_of_readable {pos : Int} (h : Readable pos) :
    pos.tdiv benosSectorSize = pos / benosSectorSize
      ∧ pos.tmod benosSectorSize = pos % benosSectorSize := by
  rcases h with hpos | hblock
  · exact ⟨Int.tdiv_eq_ediv_of_nonneg hpos, Int.tmod_eq_emod_of_nonneg hpos⟩
  · have hdvd : (benosSectorSize : Int) ∣ pos := Int.dvd_of_emod_eq_zero hblock
    exact ⟨Int.tdiv_eq_ediv_of_dvd hdvd, by
      rw [hblock, Int.tmod_eq_zero_of_dvd hdvd]⟩

/-- A stretch of a block, read off the block. -/
theorem block_stretch (image : Image β) {pos : Int} (n : Nat)
    (hge : -2147483648 ≤ pos) (hlt : pos < 2147483648)
    (hn : pos % benosSectorSize + n ≤ benosSectorSize) :
    ((List.range n).map fun i => image
        (BitVec.ofInt 32 (pos / benosSectorSize))
        ((pos % benosSectorSize).toNat + i))
      = (List.range n).map fun (i : Nat) => cellAt image (toInt32 (pos + i)) := by
  refine List.map_congr_left fun i hi => ?_
  rw [List.mem_range] at hi
  simp only [benosSectorSize] at hn ⊢
  rw [toInt32_of_range (by omega) (by omega)]
  unfold cellAt
  simp only [benosSectorSize]
  congr 1
  · congr 1
    omega
  · omega

/-- The reader, from a readable position, for as many steps as there are
cells asked for. -/
theorem diskstreamerReadLoop_eq (image : Image β) :
    ∀ (fuel : Nat) (pos : Int) (total : Nat), total < fuel →
      Readable pos → -2147483648 ≤ pos → pos < 2147483648 →
      pos % benosSectorSize + total < 2147483648 →
      diskstreamerReadLoop image fuel pos total
        = some
          { res := 0
            out := (List.range total).map fun (j : Nat) =>
              cellAt image (toInt32 (pos + j))
            pos := toInt32 (pos + total) } := by
  intro fuel
  induction fuel with
  | zero =>
      intro pos total hfuel
      exact absurd hfuel (Nat.not_lt_zero total)
  | succ fuel ih =>
      intro pos total hfuel hread hge hlt htotal
      obtain ⟨hdiv, hmod⟩ := tdiv_tmod_of_readable hread
      unfold diskstreamerReadLoop
      simp only [hdiv, hmod, diskReadBlock, lt_irrefl, if_false]
      have hoff : 0 ≤ pos % benosSectorSize
          ∧ pos % benosSectorSize < benosSectorSize := by
        simp only [benosSectorSize]
        omega
      rw [toInt32_of_range (by omega) (by omega)]
      by_cases hover : pos % benosSectorSize + total ≥ (benosSectorSize : Int)
      · -- the rest of this block, then the following ones
        simp only [hover, if_true]
        obtain ⟨n, hn⟩ : ∃ n : Nat,
            (n : Int) = benosSectorSize - pos % benosSectorSize :=
          ⟨(benosSectorSize - pos % benosSectorSize).toNat, by omega⟩
        have hleft : ((total : Int)
            - (pos % benosSectorSize + total - benosSectorSize)) = n := by
          omega
        rw [hleft, if_neg (by omega), Int.toNat_natCast]
        have hblock : toInt32 (pos + n) % benosSectorSize = 0 := by
          rw [toInt32_emod _ (by decide)]
          simp only [benosSectorSize] at hn ⊢
          omega
        have hrest : ((total : Int) - n) = ((total - n : Nat) : Int) := by
          omega
        rw [hrest, ih (toInt32 (pos + n)) (total - n)
          (by simp only [benosSectorSize] at *; omega) (.inr hblock)
          (toInt32_ge _) (toInt32_lt _) (by omega)]
        simp only [Option.some.injEq, StreamRead.mk.injEq, true_and]
        constructor
        · rw [block_stretch image n hge hlt (by omega)]
          conv_rhs => rw [show total = n + (total - n) by omega]
          rw [List.range_add, List.map_append, List.map_map]
          congr 1
          refine List.map_congr_left fun j _ => ?_
          simp only [Function.comp_apply]
          rw [toInt32_add_left]
          congr 2
          omega
        · rw [toInt32_add_left]
          congr 1
          omega
      · simp only [hover, if_false]
        rw [if_neg (by omega), Int.toNat_natCast,
          block_stretch image total hge hlt (by omega)]

/-- A read from a readable position delivers the stretch of the disk that
starts there. -/
theorem diskstreamerRead_eq (image : Image β) {pos : Int} (total : Nat)
    (hread : Readable pos) (hge : -2147483648 ≤ pos) (hlt : pos < 2147483648)
    (htotal : pos % benosSectorSize + total < 2147483648) :
    diskstreamerRead image pos total
      = some
        { res := 0
          out := (List.range total).map fun (j : Nat) =>
            cellAt image (toInt32 (pos + j))
          pos := toInt32 (pos + total) } := by
  unfold diskstreamerRead
  exact diskstreamerReadLoop_eq image _ pos total
    (by rw [Int.toNat_natCast]; omega) hread hge hlt htotal

/-- A read of something from any other position has no outcome. -/
theorem diskstreamerRead_none (image : Image β) {pos : Int} {total : Nat}
    (hread : ¬ Readable pos) (hpos : 0 < total) (htotal : total < 2147483648) :
    diskstreamerRead image pos total = none := by
  unfold Readable at hread
  simp only [benosSectorSize] at hread
  have hoff : pos.tmod benosSectorSize < 0
      ∧ -512 < pos.tmod benosSectorSize := by
    rw [Int.tmod_eq_emod, if_neg (by simp only [benosSectorSize]; omega)]
    simp only [benosSectorSize]
    omega
  unfold diskstreamerRead diskstreamerReadLoop
  simp only [diskReadBlock, lt_irrefl, if_false]
  rw [toInt32_of_range (by omega) (by omega)]
  rw [if_pos]
  split
  · simp only [benosSectorSize] at *
    omega
  · exact ⟨by omega, .inl hoff.1⟩

/-- A read of nothing, or of less, writes nothing. -/
theorem diskstreamerRead_nonpos (image : Image β) (pos : Int) {total : Int}
    (hge : -2147483648 ≤ total) (htotal : total ≤ 0) :
    diskstreamerRead image pos total = none
      ∨ diskstreamerRead image pos total
        = some { res := 0, out := [], pos := toInt32 (pos + total) } := by
  have hoff : -512 < pos.tmod benosSectorSize
      ∧ pos.tmod benosSectorSize < 512 :=
    ⟨Int.lt_tmod_of_pos pos (by decide), Int.tmod_lt_of_pos pos (by decide)⟩
  unfold diskstreamerRead diskstreamerReadLoop
  simp only [diskReadBlock, lt_irrefl, if_false]
  by_cases hwrap : -2147483648 ≤ pos.tmod benosSectorSize + total
  · rw [toInt32_of_range hwrap (by omega)]
    simp only [benosSectorSize] at hoff ⊢
    rw [if_neg (by omega), if_neg (by omega), if_neg (by omega)]
    simp [Int.toNat_of_nonpos htotal]
  · -- the sum wraps to a large one, and the read starts in front of the block
    left
    have hbig : toInt32 (pos.tmod benosSectorSize + total)
        ≥ (benosSectorSize : Int) := by
      unfold toInt32
      simp only [benosSectorSize] at hoff hwrap ⊢
      omega
    simp only [hbig, if_true]
    simp only [benosSectorSize] at hoff hwrap ⊢
    rw [if_pos]
    exact ⟨by omega, .inl (by omega)⟩

/-- However a read comes out, it writes no more than it was asked for. -/
theorem diskstreamerRead_length (image : Image β) {pos total : Int}
    (hpos : -2147483648 ≤ pos ∧ pos < 2147483648)
    (htotal : -2147483648 ≤ total ∧ total ≤ 2147483136) {r : StreamRead β}
    (h : diskstreamerRead image pos total = some r) :
    r.out.length = total.toNat := by
  by_cases hn : total ≤ 0
  · rcases diskstreamerRead_nonpos image pos htotal.1 hn with hnone | hsome
    · rw [hnone] at h
      cases h
    · rw [hsome] at h
      rw [← Option.some.inj h, Int.toNat_of_nonpos hn]
      rfl
  · obtain ⟨n, hn'⟩ : ∃ n : Nat, (n : Int) = total :=
      ⟨total.toNat, by omega⟩
    rw [← hn'] at h htotal ⊢
    by_cases hread : Readable pos
    · rw [diskstreamerRead_eq image _ hread hpos.1 hpos.2
        (by simp only [benosSectorSize]; omega)] at h
      rw [← Option.some.inj h, List.length_map, List.length_range,
        Int.toNat_natCast]
    · rw [diskstreamerRead_none image hread (by omega) (by omega)] at h
      cases h

-- ============================================================== a flat array

/-- A read of `total` cells from `pos` on comes out as that of one flat
array: cell `j` is cell `(pos + j) mod 512` of block `(pos + j) / 512`. -/
structure FlatRead (image : Image β) (pos total : Int) (r : StreamRead β) :
    Prop where
  res : r.res = 0
  length : r.out.length = total.toNat
  cell : ∀ j (hj : j < r.out.length), r.out[j]
    = image (BitVec.ofInt 32 ((pos + j) / benosSectorSize))
        ((pos + j) % benosSectorSize).toNat
  pos : r.pos = pos + total

/-- Below 2 GiB every read is a read of the flat array. -/
theorem diskstreamerRead_flat (image : Image β) {pos total : Int}
    (hpos : 0 ≤ pos) (htotal : 0 ≤ total) (hsum : pos + total < 2 ^ 31) :
    ∃ r, diskstreamerRead image pos total = some r
      ∧ FlatRead image pos total r := by
  obtain ⟨n, rfl⟩ := Int.eq_ofNat_of_zero_le htotal
  have hread := diskstreamerRead_eq image n (Or.inl hpos)
    (by omega) (by omega) (by simp only [benosSectorSize]; omega)
  refine ⟨_, hread, rfl, ?_, fun j hj => ?_, ?_⟩
  · rw [List.length_map, List.length_range, Int.toNat_natCast]
  · have hj' : j < n := by
      rw [List.length_map, List.length_range] at hj
      exact hj
    rw [List.getElem_map, List.getElem_range,
      toInt32_of_range (by omega) (by omega)]
    rfl
  · exact toInt32_of_range (by omega) (by omega)

/-- Two reads of the flat array, one behind the other, are one. -/
theorem FlatRead.append {image : Image β} {pos a b : Int} (ha : 0 ≤ a)
    (hb : 0 ≤ b) {ra rb r : StreamRead β} (hra : FlatRead image pos a ra)
    (hrb : FlatRead image (pos + a) b rb)
    (hr : FlatRead image pos (a + b) r) :
    ra.out ++ rb.out = r.out ∧ rb.pos = r.pos := by
  have hla := hra.length
  have hlb := hrb.length
  have hlr := hr.length
  constructor
  · refine List.ext_getElem (by rw [List.length_append]; omega) ?_
    intro j hj hjr
    rw [hr.cell j hjr, List.getElem_append]
    split
    case isTrue hja => exact hra.cell j hja
    case isFalse hja =>
      have hshift : pos + a + ((j - ra.out.length : Nat) : Int) = pos + j := by
        omega
      rw [hrb.cell, hshift]
  · rw [hrb.pos, hr.pos]
    omega

/-- The disk stream is a flat array of cells: a read delivers its stretch
of the array and moves the position behind it, and two reads one behind
the other are one read of both lengths. -/
theorem diskstreamer_read_exact (image : Image β) {pos total : Int}
    (hpos : 0 ≤ pos) (htotal : 0 ≤ total) (hsum : pos + total < 2 ^ 31) :
    ∃ r, diskstreamerRead image pos total = some r
      ∧ FlatRead image pos total r
      ∧ ∀ a b, 0 ≤ a → 0 ≤ b → a + b = total →
        ∃ ra rb, diskstreamerRead image pos a = some ra
          ∧ diskstreamerRead image ra.pos b = some rb
          ∧ ra.out ++ rb.out = r.out ∧ rb.pos = r.pos ∧ rb.res = r.res := by
  obtain ⟨r, hread, hflat⟩ := diskstreamerRead_flat image hpos htotal hsum
  refine ⟨r, hread, hflat, fun a b ha hb hab => ?_⟩
  obtain ⟨ra, hra, hfa⟩ :=
    diskstreamerRead_flat image hpos ha (by omega)
  obtain ⟨rb, hrb, hfb⟩ := diskstreamerRead_flat image
    (show 0 ≤ pos + a by omega) hb (by omega)
  rw [← hab] at hflat
  obtain ⟨hout, hend⟩ := FlatRead.append ha hb hfa hfb hflat
  refine ⟨ra, rb, hra, ?_, hout, hend, hfb.res.trans hflat.res.symm⟩
  rw [hfa.pos]
  exact hrb

/-- Six cells over the end of a block, each naming its place. -/
theorem diskstreamer_read_exact_six_cells :
    ∃ r, diskstreamerRead (fun lba i => (lba, i)) 510 6 = some r
      ∧ r.out[3]? = some (1#32, 1) := by
  obtain ⟨r, hread, hflat, -⟩ := diskstreamer_read_exact
    (fun (lba : BitVec 32) (i : Nat) => (lba, i)) (show (0 : Int) ≤ 510 by decide)
    (show (0 : Int) ≤ 6 by decide) (by decide)
  have hlen := hflat.length
  refine ⟨r, hread, ?_⟩
  rw [List.getElem?_eq_getElem (by omega), hflat.cell]
  rfl

-- =============================================================== other images

variable {γ : Type}

/-- A read with its cells mapped. -/
def StreamRead.map (f : β → γ) (r : StreamRead β) : StreamRead γ :=
  { res := r.res, out := r.out.map f, pos := r.pos }

/-- An image with its cells mapped. -/
def Image.map (f : β → γ) (image : Image β) : Image γ :=
  fun lba i => f (image lba i)

/-- The reader looks at no cell: over a mapped image it delivers the
mapped cells. -/
theorem diskstreamerReadLoop_map (f : β → γ) (image : Image β) :
    ∀ (fuel : Nat) (pos total : Int),
      diskstreamerReadLoop (image.map f) fuel pos total
        = (diskstreamerReadLoop image fuel pos total).map
            (StreamRead.map f) := by
  intro fuel
  induction fuel with
  | zero => intro _ _; rfl
  | succ fuel ih =>
      intro pos total
      unfold diskstreamerReadLoop
      simp only [diskReadBlock, lt_irrefl, if_false, ih, Image.map]
      by_cases hover : toInt32 (pos.tmod benosSectorSize + total)
          ≥ (benosSectorSize : Int)
      · simp only [hover, if_true]
        split
        · rfl
        · cases diskstreamerReadLoop image fuel _ _ with
          | none => rfl
          | some rest => simp [StreamRead.map, Function.comp_def]
      · simp only [hover, if_false]
        split
        · rfl
        · simp [StreamRead.map, Function.comp_def]

theorem diskstreamerRead_map (f : β → γ) (image : Image β) (pos total : Int) :
    diskstreamerRead (image.map f) pos total
      = (diskstreamerRead image pos total).map (StreamRead.map f) := by
  unfold diskstreamerRead
  exact diskstreamerReadLoop_map f image _ pos total

end BenOS.Disk
