/-
What a read of file data delivers, place by place.

A read is cut into pieces of at most a cluster's size, and each piece is
read as one stretch of the disk from the place its first byte has. So
byte `j` of a read comes from a place that depends on where its piece
starts (`servedPos`); a read succeeds exactly when every byte has one,
and then it delivers what the image has there (`readInternal_served`,
`readInternal_fails`). The image is arbitrary: the places do not depend
on it.

A piece that does not start at the front of a cluster runs over its end,
into the cluster that follows on the disk (`RunsOver.servedPos_eq`). So a
read is the file's bytes where the file goes on there
(`readsFile_of_follow`), and in general exactly when those that run over,
or whose place is past the largest `int`, happen to find the same byte
there (`read_internal_exact`).
-/
import BenOS.Fat.Proofs.Chain

namespace BenOS.Fat

open Lib Disk

variable {β : Type} {vol : Volume}

-- ================================================================== positions

/-- The size of a cluster in bytes, as a natural number. -/
def Volume.clusterBytes (vol : Volume) : Nat :=
  vol.header.sectorsPerCluster.toNat * benosSectorSize

theorem sizeOfClusterBytes_eq (vol : Volume) :
    vol.sizeOfClusterBytes = (vol.clusterBytes : Int) := by
  unfold Volume.sizeOfClusterBytes Volume.clusterBytes
  rw [Int.natCast_mul]

theorem clusterBytes_le (vol : Volume) : vol.clusterBytes ≤ 130560 := by
  have := vol.header.sectorsPerCluster.toNat_lt
  simp only [Volume.clusterBytes, benosSectorSize]
  omega

/-- Where the data of a cluster starts on the disk. -/
def clusterPos (vol : Volume) (cluster : Int) : Int :=
  (vol.rootDir.endingSectorPos
    + (cluster - 2) * vol.header.sectorsPerCluster.toNat) * benosSectorSize

/-- The offset of the piece that byte `j` of a read is in. -/
def pieceOffset (vol : Volume) (offset : Int) (j : Nat) : Int :=
  toInt32 (offset + (j / vol.clusterBytes * vol.clusterBytes : Nat))

/-- The place on the disk that byte `j` of a read is taken from, if the
read gets there. -/
def servedPos (vol : Volume) (cluster offset : Int) (j : Nat) : Option Int :=
  match fat16GetClusterForOffset vol cluster (pieceOffset vol offset j) with
  | none => none
  | some cl =>
      let start := fat16StartingPos vol cl (pieceOffset vol offset j)
      if 0 ≤ cl ∧ Readable start then
        some (toInt32 (start + (j % vol.clusterBytes : Nat)))
      else none

/-- The cluster lookup depends on the offset through its cluster only. -/
theorem fat16GetClusterForOffset_congr (cluster : Int) {o o' : Int}
    (hdiv : o.tdiv vol.sizeOfClusterBytes = o'.tdiv vol.sizeOfClusterBytes) :
    fat16GetClusterForOffset vol cluster o
      = fat16GetClusterForOffset vol cluster o' := by
  unfold fat16GetClusterForOffset
  simp only [hdiv]

/-- The start of a piece, from the start of its cluster. -/
theorem fat16StartingPos_eq (cl offset : Int) :
    fat16StartingPos vol cl offset
      = toInt32 (clusterPos vol cl + offset.tmod vol.sizeOfClusterBytes) := by
  unfold fat16StartingPos fat16ClusterToSector clusterPos toInt32
  simp only [benosSectorSize]
  omega

/-- The bytes of the first piece, and those of the pieces behind it. -/
theorem servedPos_add (cluster offset : Int) (hC : 0 < vol.clusterBytes)
    (j : Nat) :
    servedPos vol cluster (toInt32 (offset + vol.clusterBytes)) j
      = servedPos vol cluster offset (vol.clusterBytes + j) := by
  have hoff : pieceOffset vol (toInt32 (offset + vol.clusterBytes)) j
      = pieceOffset vol offset (vol.clusterBytes + j) := by
    unfold pieceOffset
    rw [toInt32_add_left, Nat.add_div_left _ hC, Nat.succ_mul]
    congr 1
    omega
  unfold servedPos
  rw [hoff, Nat.add_mod_left]

/-- In the first piece the piece's offset is the read's. -/
theorem pieceOffset_first {offset : Int} (hoff : toInt32 offset = offset)
    {j : Nat} (hj : j < vol.clusterBytes) :
    pieceOffset vol offset j = offset := by
  unfold pieceOffset
  rw [Nat.div_eq_of_lt hj, Nat.zero_mul]
  simpa using hoff

-- ================================================================ one read

/-- All bytes of a read have a place. -/
def AllServed (vol : Volume) (cluster offset : Int) (total : Nat) : Prop :=
  ∀ j < total, ∃ p, servedPos vol cluster offset j = some p

/-- What the disk has at the places of a read. -/
def servedCells (vol : Volume) (image : Image β) (cluster offset : Int)
    (total : Nat) : List β :=
  (List.range total).map fun j =>
    cellAt image ((servedPos vol cluster offset j).getD 0)

/-- The bytes of a read of at most one piece. -/
theorem allServed_piece {cluster offset : Int} (hoff : toInt32 offset = offset)
    {n : Nat} (hn : n ≤ vol.clusterBytes) (hpos : 0 < n) :
    AllServed vol cluster offset n ↔
      ∃ cl, fat16GetClusterForOffset vol cluster offset = some cl
        ∧ 0 ≤ cl ∧ Readable (fat16StartingPos vol cl offset) := by
  constructor
  · intro h
    obtain ⟨p, hp⟩ := h 0 hpos
    unfold servedPos at hp
    rw [pieceOffset_first hoff (by omega)] at hp
    split at hp
    · cases hp
    · next cl hcl =>
        simp only at hp
        split at hp
        · next hok => exact ⟨cl, hcl, hok⟩
        · cases hp
  · intro h j hj
    obtain ⟨cl, hcl, hok⟩ := h
    refine ⟨toInt32 (fat16StartingPos vol cl offset
      + (j % vol.clusterBytes : Nat)), ?_⟩
    unfold servedPos
    rw [pieceOffset_first hoff (by omega), hcl]
    exact if_pos hok

/-- The cells of a piece are the stretch of the image it starts. -/
theorem servedCells_piece (image : Image β) {cluster offset cl : Int}
    (hoff : toInt32 offset = offset) {n : Nat} (hn : n ≤ vol.clusterBytes)
    (hcl : fat16GetClusterForOffset vol cluster offset = some cl)
    (hok : 0 ≤ cl ∧ Readable (fat16StartingPos vol cl offset)) :
    servedCells vol image cluster offset n
      = (List.range n).map fun (j : Nat) =>
          cellAt image (toInt32 (fat16StartingPos vol cl offset + j)) := by
  refine List.map_congr_left fun j hj => ?_
  rw [List.mem_range] at hj
  unfold servedPos
  rw [pieceOffset_first hoff (by omega), hcl]
  simp only
  rw [if_pos hok, Option.getD_some, Nat.mod_eq_of_lt (by omega)]

/-- The cells of the first piece and of the read behind it. -/
theorem servedCells_add (image : Image β) (cluster offset : Int)
    (hC : 0 < vol.clusterBytes) (m : Nat) :
    servedCells vol image cluster offset (vol.clusterBytes + m)
      = servedCells vol image cluster offset vol.clusterBytes
        ++ servedCells vol image cluster
          (toInt32 (offset + vol.clusterBytes)) m := by
  unfold servedCells
  rw [List.range_add, List.map_append, List.map_map]
  congr 1
  refine List.map_congr_left fun j _ => ?_
  rw [Function.comp_apply, servedPos_add cluster offset hC]

theorem allServed_add (cluster offset : Int) (hC : 0 < vol.clusterBytes)
    (m : Nat) :
    AllServed vol cluster offset (vol.clusterBytes + m) ↔
      AllServed vol cluster offset vol.clusterBytes
        ∧ AllServed vol cluster (toInt32 (offset + vol.clusterBytes)) m := by
  constructor
  · intro h
    refine ⟨fun j hj => h j (by omega), fun j hj => ?_⟩
    rw [servedPos_add cluster offset hC]
    exact h _ (by omega)
  · intro h j hj
    obtain ⟨hfirst, hrest⟩ := h
    rcases Nat.lt_or_ge j vol.clusterBytes with hlt | hge
    · exact hfirst j hlt
    · obtain ⟨k, rfl⟩ := Nat.exists_eq_add_of_le hge
      have h := hrest k (by omega)
      rwa [servedPos_add cluster offset hC] at h

/-- A read has no outcome, or ends in an error. -/
def Fails (r : Option (FatRead β)) : Prop := ∀ x, r = some x → x.res < 0

/-- The length of the piece a round reads. -/
theorem piece_length {total n : Nat} (hn : n = min total vol.clusterBytes) :
    (if (total : Int) > vol.sizeOfClusterBytes
      then vol.sizeOfClusterBytes else (total : Int)) = (n : Int) := by
  rw [sizeOfClusterBytes_eq]
  split <;> omega

/-- One round of the recursion, where the piece at the offset is served:
its cells, and then what the rest of the read delivers. -/
theorem readRound_served (image : Image β) {fuel : Nat} {cluster offset cl : Int}
    {total n : Nat} (hoff : toInt32 offset = offset)
    (hcl : fat16GetClusterForOffset vol cluster offset = some cl)
    (hok : 0 ≤ cl ∧ Readable (fat16StartingPos vol cl offset))
    (hn : n = min total vol.clusterBytes) :
    fat16ReadInternalFromStream vol image (fuel + 1) cluster offset total
      = if n < total then
          match fat16ReadInternalFromStream vol image fuel cluster
              (toInt32 (offset + n)) ((total - n : Nat) : Int) with
          | none => none
          | some rest => some { rest with
              out := servedCells vol image cluster offset n ++ rest.out }
        else some
          { res := 0, out := servedCells vol image cluster offset n } := by
  have hle := clusterBytes_le vol
  have hlen := piece_length hn
  have hread := @diskstreamerRead_eq _ image _ n hok.2 (toInt32_ge _)
    (toInt32_lt _) (by simp only [benosSectorSize]; omega)
  rw [fat16ReadInternalFromStream]
  simp only [hcl, if_neg (not_lt.mpr hok.1), hlen, hread, ne_eq,
    not_true_eq_false, if_false]
  rw [servedCells_piece image hoff (by omega) hcl hok]
  by_cases hrest : n < total
  · have hleft : (total : Int) - n = ((total - n : Nat) : Int) := by omega
    have hmore : ((total - n : Nat) : Int) > 0 := by omega
    cases hres : fat16ReadInternalFromStream vol image fuel cluster
        (toInt32 (offset + n)) ((total - n : Nat) : Int) with
    | none => simp only [if_pos hrest, if_pos hmore, hleft, hres]
    | some rest => simp only [if_pos hrest, if_pos hmore, hleft, hres]
  · rw [if_neg hrest, if_neg (by omega)]

/-- One round where the piece at the offset is not served. -/
theorem readRound_fails (image : Image β) {fuel : Nat} {cluster offset : Int}
    {total n : Nat} (hoff : toInt32 offset = offset)
    (hn : n = min total vol.clusterBytes) (hpos : 0 < n)
    (hnot : ¬ AllServed vol cluster offset n) :
    Fails (fat16ReadInternalFromStream vol image (fuel + 1) cluster offset
      total) := by
  have hle := clusterBytes_le vol
  have hlen := piece_length hn
  rw [allServed_piece hoff (by omega) hpos] at hnot
  intro x hx
  rw [fat16ReadInternalFromStream] at hx
  cases hcl : fat16GetClusterForOffset vol cluster offset with
  | none => simp [hcl] at hx
  | some cl =>
      simp only [hcl] at hx
      by_cases hneg : cl < 0
      · rw [if_pos hneg] at hx
        injection hx with hx
        rw [← hx]
        exact hneg
      · have hread : ¬ Readable (fat16StartingPos vol cl offset) :=
          fun hok => hnot ⟨cl, hcl, by omega, hok⟩
        rw [if_neg hneg] at hx
        simp only [hlen] at hx
        rw [diskstreamerRead_none image hread hpos (by omega)] at hx
        cases hx

/-- The read loop, with as many steps as there are bytes: it delivers all
bytes where each has a place, and fails where one has none. -/
theorem readLoop_outcome (image : Image β) (hC : 0 < vol.clusterBytes) :
    ∀ (fuel : Nat) (cluster offset : Int) (total : Nat), 0 < total →
      total < fuel → toInt32 offset = offset →
      (AllServed vol cluster offset total →
        fat16ReadInternalFromStream vol image fuel cluster offset total
          = some { res := 0
                   out := servedCells vol image cluster offset total })
        ∧ (¬ AllServed vol cluster offset total →
          Fails (fat16ReadInternalFromStream vol image fuel cluster offset
            total)) := by
  intro fuel
  induction fuel with
  | zero =>
      intro cluster offset total _ hfuel
      exact absurd hfuel (Nat.not_lt_zero total)
  | succ fuel ih =>
      intro cluster offset total hpos hfuel hoff
      rcases Nat.lt_or_ge vol.clusterBytes total with hlt | hge
      · -- a whole cluster, and the rest of the read behind it
        obtain ⟨m, rfl⟩ := Nat.exists_eq_add_of_le hlt.le
        obtain ⟨hrest, hfail⟩ := ih cluster
          (toInt32 (offset + vol.clusterBytes)) m (by omega) (by omega)
          (toInt32_toInt32 _)
        have hmin : vol.clusterBytes = min (vol.clusterBytes + m)
            vol.clusterBytes := by omega
        rw [allServed_add cluster offset hC, servedCells_add image cluster
          offset hC]
        by_cases hfirst : AllServed vol cluster offset vol.clusterBytes
        · obtain ⟨cl, hcl, hok⟩ :=
            (allServed_piece hoff le_rfl hC).mp hfirst
          rw [readRound_served image hoff hcl hok hmin, if_pos hlt,
            Nat.add_sub_cancel_left]
          constructor
          · intro h
            obtain ⟨-, hall⟩ := h
            rw [hrest hall]
          · intro hnot
            have hnot' : ¬ AllServed vol cluster
                (toInt32 (offset + vol.clusterBytes)) m :=
              fun hall => hnot ⟨hfirst, hall⟩
            intro x hx
            split at hx
            · cases hx
            · next rest hres =>
                injection hx with hx
                rw [← hx]
                exact hfail hnot' rest hres
        · exact ⟨fun hall => absurd hall.1 hfirst,
            fun _ => readRound_fails image hoff hmin hC hfirst⟩
      · have hmin : total = min total vol.clusterBytes := by omega
        constructor
        · intro hall
          obtain ⟨cl, hcl, hok⟩ := (allServed_piece hoff hge hpos).mp hall
          rw [readRound_served image hoff hcl hok hmin,
            if_neg (lt_irrefl total)]
        · exact readRound_fails image hoff hmin hpos

/-- Without a cluster size no lookup has an outcome, -/
theorem fat16GetClusterForOffset_zero (hC : vol.clusterBytes = 0)
    (cluster offset : Int) :
    fat16GetClusterForOffset vol cluster offset = none := by
  unfold fat16GetClusterForOffset
  rw [if_pos (by rw [sizeOfClusterBytes_eq, hC]; rfl)]

/-- and no byte has a place. -/
theorem servedPos_zero (hC : vol.clusterBytes = 0) (cluster offset : Int)
    (j : Nat) : servedPos vol cluster offset j = none := by
  unfold servedPos
  rw [fat16GetClusterForOffset_zero hC]

/-- A read of at least one byte delivers what the image has at the bytes'
places, where each has one. -/
theorem readInternal_served (image : Image β) {cluster offset : Int}
    {total : Nat} (hpos : 0 < total) (hoff : toInt32 offset = offset)
    (hall : AllServed vol cluster offset total) :
    fat16ReadInternal vol image cluster offset total
      = some { res := 0
               out := servedCells vol image cluster offset total } := by
  have hC : 0 < vol.clusterBytes := by
    by_contra hzero
    obtain ⟨p, hp⟩ := hall 0 hpos
    rw [servedPos_zero (by omega)] at hp
    cases hp
  unfold fat16ReadInternal
  rw [Int.toNat_natCast]
  exact (readLoop_outcome image hC (total + 1) cluster offset total hpos
    (Nat.lt_succ_self _) hoff).1 hall

/-- A read one of whose bytes has no place fails. -/
theorem readInternal_fails (image : Image β) {cluster offset : Int}
    {total : Nat} (hpos : 0 < total) (hoff : toInt32 offset = offset)
    (hnot : ¬ AllServed vol cluster offset total) :
    Fails (fat16ReadInternal vol image cluster offset total) := by
  unfold fat16ReadInternal
  rw [Int.toNat_natCast]
  rcases Nat.eq_zero_or_pos vol.clusterBytes with hC | hC
  · -- the first lookup divides by zero
    intro x hx
    rw [fat16ReadInternalFromStream, fat16GetClusterForOffset_zero hC] at hx
    cases hx
  · exact (readLoop_outcome image hC (total + 1) cluster offset total hpos
      (Nat.lt_succ_self _) hoff).2 hnot

/-- However a read comes out, it delivers no more than it was asked for. -/
theorem readFromStream_length (image : Image β) (fuel : Nat) :
    ∀ (cluster offset total : Int) (r : FatRead β), -2147483648 ≤ total →
      fat16ReadInternalFromStream vol image fuel cluster offset total
        = some r → r.out.length ≤ total.toNat := by
  have hC := clusterBytes_le vol
  have hsize := sizeOfClusterBytes_eq vol
  induction fuel with
  | zero => intro _ _ _ _ _ h; cases h
  | succ fuel ih =>
      intro cluster offset total r hge h
      rw [fat16ReadInternalFromStream] at h
      split at h
      case h_1 => cases h
      case h_2 cl _ =>
        split at h
        case isTrue =>
          rw [← Option.some.inj h]
          exact Nat.zero_le _
        case isFalse =>
          simp only at h
          have hn : ∃ n : Int, (if total > vol.sizeOfClusterBytes then
              vol.sizeOfClusterBytes else total) = n
              ∧ n ≤ total ∧ -2147483648 ≤ n ∧ n ≤ 2147483136
              ∧ (0 < total - n → 0 ≤ n) := by
            split
            · exact ⟨_, rfl, by omega⟩
            · exact ⟨_, rfl, by omega⟩
          obtain ⟨n, hn, hle, hlo, hhi, hnn⟩ := hn
          rw [hn] at h
          split at h
          case h_1 => cases h
          case h_2 q hq =>
            have hlen := diskstreamerRead_length image
              ⟨toInt32_ge _, toInt32_lt _⟩ ⟨hlo, hhi⟩ hq
            split at h
            case isTrue =>
              rw [← Option.some.inj h]
              simp only
              omega
            case isFalse =>
              split at h
              case isFalse =>
                rw [← Option.some.inj h]
                simp only
                omega
              case isTrue hmore =>
                split at h
                case h_1 => cases h
                case h_2 rest hrest =>
                  have hrestlen := ih _ _ _ rest (by omega) hrest
                  rw [← Option.some.inj h]
                  simp only [List.length_append]
                  have := hnn hmore
                  omega

theorem readInternal_length (image : Image β) {cluster offset total : Int}
    (hge : -2147483648 ≤ total) {r : FatRead β}
    (h : fat16ReadInternal vol image cluster offset total = some r) :
    r.out.length ≤ total.toNat := by
  unfold fat16ReadInternal at h
  exact readFromStream_length image _ _ _ _ r hge h

-- =============================================================== other images

variable {γ : Type}

/-- A read with its cells mapped. -/
def FatRead.map (f : β → γ) (r : FatRead β) : FatRead γ :=
  { res := r.res, out := r.out.map f }

/-- Reading file data looks at no cell of it. -/
theorem readLoop_map (f : β → γ) (image : Image β) :
    ∀ (fuel : Nat) (cluster offset total : Int),
      fat16ReadInternalFromStream vol (image.map f) fuel cluster offset total
        = (fat16ReadInternalFromStream vol image fuel cluster offset total).map
            (FatRead.map f) := by
  intro fuel
  induction fuel with
  | zero => intro _ _ _; rfl
  | succ fuel ih =>
      intro cluster offset total
      unfold fat16ReadInternalFromStream
      cases fat16GetClusterForOffset vol cluster offset with
      | none => rfl
      | some cl =>
          simp only [diskstreamerRead_map, ih]
          split
          · rfl
          · cases diskstreamerRead image _ _ with
            | none => rfl
            | some r =>
                simp only [Option.map_some, StreamRead.map]
                split
                · rfl
                · by_cases hmore : total
                      - (if total > vol.sizeOfClusterBytes then
                          vol.sizeOfClusterBytes else total) > 0
                  · rw [if_pos hmore, if_pos hmore]
                    cases fat16ReadInternalFromStream vol image fuel _ _ _ with
                    | none => rfl
                    | some rest => simp [FatRead.map]
                  · rw [if_neg hmore, if_neg hmore]
                    rfl

theorem fat16ReadInternal_map (f : β → γ) (image : Image β)
    (cluster offset total : Int) :
    fat16ReadInternal vol (image.map f) cluster offset total
      = (fat16ReadInternal vol image cluster offset total).map
          (FatRead.map f) := by
  unfold fat16ReadInternal
  exact readLoop_map f image _ cluster offset total

-- ======================================================= what is required

/-- Every byte of the request has a cluster assigned. -/
def LookupsSucceed (vol : Volume) (c offset : Int) (total : Nat) : Prop :=
  ∀ j < total, ∃ cl, 0 ≤ cl
    ∧ fat16GetClusterForOffset vol c (offset + (j : Nat)) = some cl

/-- The cluster assigned to an offset. -/
def assignedCluster (vol : Volume) (c offset : Int) : Int :=
  (fat16GetClusterForOffset vol c offset).getD 0

/-- The place of the byte at an offset, in the cluster assigned to it. -/
def assignedPos (vol : Volume) (c offset : Int) : Int :=
  clusterPos vol (assignedCluster vol c offset) + offset % vol.clusterBytes

/-- The read delivers the bytes of the file. -/
def ReadsFile (vol : Volume) (c offset : Int) (total : Nat) : Prop :=
  ∃ out, fat16ReadInternal vol vol.disk c offset total
      = some { res := 0, out := out }
    ∧ ∀ j < total, out[j]?
      = some (cellAt vol.disk (assignedPos vol c (offset + (j : Nat))))

/-- The piece of byte `j` has not run over the end of the cluster it
started in, and all of that cluster is within the positions of a
stream. -/
structure InPlace (vol : Volume) (c offset : Int) (j : Nat) : Prop where
  inside : offset % vol.clusterBytes + (j % vol.clusterBytes : Nat)
    < vol.clusterBytes
  low : 0 ≤ clusterPos vol (assignedCluster vol c (offset + (j : Nat)))
  high : clusterPos vol (assignedCluster vol c (offset + (j : Nat)))
    + vol.clusterBytes ≤ 2147483648

/-- The place byte `j` is taken from holds what its own place does. -/
def Coincides (vol : Volume) (c offset : Int) (j : Nat) : Prop :=
  ∃ p, servedPos vol c offset j = some p
    ∧ cellAt vol.disk p
      = cellAt vol.disk (assignedPos vol c (offset + (j : Nat)))

-- ============================================================== in its place

/-- The start of byte `j`'s piece, and the byte's distance from it. -/
theorem pieceOffset_add {offset : Int} {j : Nat} (hoff : 0 ≤ offset)
    (hend : offset + j < 2147483648) :
    pieceOffset vol offset j + (j % vol.clusterBytes : Nat) = offset + j
      ∧ 0 ≤ pieceOffset vol offset j
      ∧ pieceOffset vol offset j % vol.clusterBytes
        = offset % vol.clusterBytes := by
  have hsplit := Nat.div_add_mod j vol.clusterBytes
  rw [Nat.mul_comm] at hsplit
  have hpiece : pieceOffset vol offset j
      = offset + (j / vol.clusterBytes * vol.clusterBytes : Nat) := by
    unfold pieceOffset
    rw [toInt32_of_range (by omega) (by omega)]
  refine ⟨by omega, by omega, ?_⟩
  rw [hpiece, Int.natCast_mul, Int.add_mul_emod_self_right]

/-- A byte that has not left the cluster its piece starts in. -/
theorem inside_cluster {offset : Int} {j : Nat} (hoff : 0 ≤ offset)
    (hend : offset + j < 2147483648)
    (hinside : offset % vol.clusterBytes + (j % vol.clusterBytes : Nat)
      < vol.clusterBytes) :
    (offset + j) / (vol.clusterBytes : Int)
        = pieceOffset vol offset j / vol.clusterBytes
      ∧ (offset + j) % (vol.clusterBytes : Int)
        = offset % vol.clusterBytes + (j % vol.clusterBytes : Nat) := by
  obtain ⟨hadd, hge, hmod⟩ := @pieceOffset_add vol _ _ hoff hend
  have hC : (0 : Int) < vol.clusterBytes := by
    rcases Nat.eq_zero_or_pos vol.clusterBytes with hzero | hpos
    · rw [hzero, Int.natCast_zero, Int.emod_zero] at hinside
      omega
    · omega
  rw [Int.ediv_emod_unique hC]
  have hp := Int.emod_add_mul_ediv (pieceOffset vol offset j)
    vol.clusterBytes
  have hnonneg := Int.emod_nonneg offset hC.ne'
  omega

/-- Its piece's cluster is the one assigned to it. -/
theorem inside_lookup (c : Int) {offset : Int} {j : Nat} (hoff : 0 ≤ offset)
    (hend : offset + j < 2147483648)
    (hinside : offset % vol.clusterBytes + (j % vol.clusterBytes : Nat)
      < vol.clusterBytes) :
    fat16GetClusterForOffset vol c (pieceOffset vol offset j)
      = fat16GetClusterForOffset vol c (offset + j) := by
  obtain ⟨-, hge, -⟩ := @pieceOffset_add vol _ _ hoff hend
  refine fat16GetClusterForOffset_congr c ?_
  rw [sizeOfClusterBytes_eq, Int.tdiv_eq_ediv_of_nonneg hge,
    Int.tdiv_eq_ediv_of_nonneg (by omega),
    (inside_cluster hoff hend hinside).1]

/-- A byte that is in place is taken from its own place. -/
theorem InPlace.servedPos_eq {c offset : Int} {j : Nat}
    (h : InPlace vol c offset j) (hoff : 0 ≤ offset)
    (hend : offset + j < 2147483648)
    (hlook : ∃ cl, 0 ≤ cl
      ∧ fat16GetClusterForOffset vol c (offset + (j : Nat)) = some cl) :
    servedPos vol c offset j = some (assignedPos vol c (offset + (j : Nat))) := by
  obtain ⟨hinside, hlow, hhigh⟩ := h
  obtain ⟨cl, hcl, hfound⟩ := hlook
  obtain ⟨hadd, hge, hmod⟩ := @pieceOffset_add vol _ _ hoff hend
  have hrem := (inside_cluster hoff hend hinside).2
  have hassigned : assignedCluster vol c (offset + (j : Nat)) = cl := by
    unfold assignedCluster
    rw [hfound, Option.getD_some]
  rw [hassigned] at hlow hhigh
  have hnonneg : 0 ≤ offset % (vol.clusterBytes : Int) := by
    rcases Nat.eq_zero_or_pos vol.clusterBytes with hzero | hpos
    · rw [hzero, Int.natCast_zero, Int.emod_zero]
      exact hoff
    · exact Int.emod_nonneg offset (by omega)
  have hstart : fat16StartingPos vol cl (pieceOffset vol offset j)
      = clusterPos vol cl + offset % vol.clusterBytes := by
    rw [fat16StartingPos_eq, sizeOfClusterBytes_eq,
      Int.tmod_eq_emod_of_nonneg hge, hmod]
    exact toInt32_of_range (by omega) (by omega)
  unfold servedPos assignedPos
  rw [inside_lookup c hoff hend hinside, hfound, hassigned]
  simp only
  rw [if_pos ⟨hcl, .inl (by omega)⟩, hstart,
    toInt32_of_range (by omega) (by omega), hrem]
  congr 1
  omega

/-- A byte in place that is served has a cluster assigned. -/
theorem InPlace.lookup {c offset p : Int} {j : Nat}
    (h : InPlace vol c offset j) (hoff : 0 ≤ offset)
    (hend : offset + j < 2147483648)
    (hserved : servedPos vol c offset j = some p) :
    ∃ cl, 0 ≤ cl
      ∧ fat16GetClusterForOffset vol c (offset + (j : Nat)) = some cl := by
  unfold servedPos at hserved
  rw [inside_lookup c hoff hend h.inside] at hserved
  split at hserved
  · cases hserved
  · next cl hcl =>
      simp only at hserved
      split at hserved
      · next hok => exact ⟨cl, hok.1, hcl⟩
      · cases hserved

/-- So the place it is taken from holds what its own does. -/
theorem InPlace.coincides {c offset : Int} {j : Nat}
    (h : InPlace vol c offset j) (hoff : 0 ≤ offset)
    (hend : offset + j < 2147483648)
    (hlook : ∃ cl, 0 ≤ cl
      ∧ fat16GetClusterForOffset vol c (offset + (j : Nat)) = some cl) :
    Coincides vol c offset j :=
  ⟨_, h.servedPos_eq hoff hend hlook, rfl⟩

-- ================================================== over the end of a cluster

/-- The piece of byte `j` has run over the end of the cluster `cl` it
started in. That cluster and the one behind it on the disk are within the
positions of a stream. -/
structure RunsOver (vol : Volume) (c offset : Int) (j : Nat) (cl : Int) :
    Prop where
  found : fat16GetClusterForOffset vol c (pieceOffset vol offset j) = some cl
  cluster : 0 ≤ cl
  beyond : vol.clusterBytes
    ≤ offset % vol.clusterBytes + (j % vol.clusterBytes : Nat)
  low : 0 ≤ clusterPos vol cl
  high : clusterPos vol (cl + 1) + vol.clusterBytes ≤ 2147483648

/-- Clusters lie one behind the other. -/
theorem clusterPos_succ (cl : Int) :
    clusterPos vol (cl + 1) = clusterPos vol cl + vol.clusterBytes := by
  have hnext : cl + 1 - 2 = cl - 2 + 1 := by omega
  unfold clusterPos Volume.clusterBytes
  rw [hnext, Int.add_mul (cl - 2), Int.one_mul, ← Int.add_assoc, Int.add_mul,
    Int.natCast_mul]

/-- The byte is taken from the cluster that is next on the disk, at the
place it should have in its own. -/
theorem RunsOver.servedPos_eq {c offset cl : Int} {j : Nat}
    (h : RunsOver vol c offset j cl) (hoff : 0 ≤ offset)
    (hend : offset + j < 2147483648) :
    servedPos vol c offset j
      = some (clusterPos vol (cl + 1)
          + (offset + (j : Nat)) % vol.clusterBytes) := by
  obtain ⟨hfound, hcluster, hover, hlow, hhigh⟩ := h
  obtain ⟨hadd, hge, hmod⟩ := @pieceOffset_add vol _ _ hoff hend
  have hC : (0 : Int) < vol.clusterBytes := by
    rcases Nat.eq_zero_or_pos vol.clusterBytes with hzero | hpos
    · rw [fat16GetClusterForOffset_zero hzero] at hfound
      cases hfound
    · omega
  have hnonneg := Int.emod_nonneg offset hC.ne'
  have hlt := Int.emod_lt_of_pos offset hC
  have hrest : j % vol.clusterBytes < vol.clusterBytes :=
    Nat.mod_lt _ (by omega)
  rw [clusterPos_succ] at hhigh ⊢
  have hstart : fat16StartingPos vol cl (pieceOffset vol offset j)
      = clusterPos vol cl + offset % vol.clusterBytes := by
    rw [fat16StartingPos_eq, sizeOfClusterBytes_eq,
      Int.tmod_eq_emod_of_nonneg hge, hmod]
    exact toInt32_of_range (by omega) (by omega)
  have hrem : (offset + (j : Nat)) % (vol.clusterBytes : Int)
      = offset % vol.clusterBytes + (j % vol.clusterBytes : Nat)
        - vol.clusterBytes := by
    rw [← hadd, Int.add_emod, hmod, Int.emod_eq_of_lt (b := vol.clusterBytes)
      (a := (j % vol.clusterBytes : Nat)) (by omega) (by omega)]
    have hwrap := Int.sub_emod_right (offset % (vol.clusterBytes : Int)
      + (j % vol.clusterBytes : Nat)) vol.clusterBytes
    rw [← hwrap]
    exact Int.emod_eq_of_lt (by omega) (by omega)
  unfold servedPos
  rw [hfound]
  simp only
  rw [if_pos ⟨hcluster, .inl (by omega)⟩, hstart,
    toInt32_of_range (by omega) (by omega), hrem]
  congr 1
  omega

/-- It is right where that place holds what its own does. -/
theorem RunsOver.coincides_iff {c offset cl : Int} {j : Nat}
    (h : RunsOver vol c offset j cl) (hoff : 0 ≤ offset)
    (hend : offset + j < 2147483648) :
    Coincides vol c offset j
      ↔ cellAt vol.disk (clusterPos vol (cl + 1)
            + (offset + (j : Nat)) % vol.clusterBytes)
        = cellAt vol.disk (assignedPos vol c (offset + (j : Nat))) := by
  unfold Coincides
  rw [h.servedPos_eq hoff hend]
  simp only [Option.some.injEq, exists_eq_left']

/-- So it is where the file goes on in that very cluster. -/
theorem RunsOver.coincides {c offset cl : Int} {j : Nat}
    (h : RunsOver vol c offset j cl) (hoff : 0 ≤ offset)
    (hend : offset + j < 2147483648)
    (hnext : assignedCluster vol c (offset + (j : Nat)) = cl + 1) :
    Coincides vol c offset j := by
  rw [h.coincides_iff hoff hend, assignedPos, hnext]

-- ============================================================ reads of a file

/-- A read delivers the file's bytes exactly when each place it takes one
from holds what the byte's own does. -/
theorem readsFile_iff_coincides {c offset : Int} {total : Nat}
    (hpos : 0 < total) (hint : toInt32 offset = offset) :
    ReadsFile vol c offset total ↔ ∀ j < total, Coincides vol c offset j := by
  have hcell : ∀ j < total, (servedCells vol vol.disk c offset total)[j]?
      = some (cellAt vol.disk ((servedPos vol c offset j).getD 0)) := by
    intro j hj
    unfold servedCells
    rw [List.getElem?_map, List.getElem?_range hj]
    rfl
  constructor
  · intro h
    obtain ⟨out, hread, hout⟩ := h
    have hall : AllServed vol c offset total := by
      by_contra hnot
      have hfail := readInternal_fails vol.disk hpos hint hnot _ hread
      exact lt_irrefl (0 : Int) hfail
    rw [readInternal_served vol.disk hpos hint hall] at hread
    simp only [Option.some.injEq, FatRead.mk.injEq, true_and] at hread
    intro j hj
    obtain ⟨p, hp⟩ := hall j hj
    refine ⟨p, hp, ?_⟩
    have hj' := hout j hj
    rw [← hread, hcell j hj, hp, Option.getD_some] at hj'
    exact Option.some.inj hj'
  · intro hserved
    refine ⟨_, readInternal_served vol.disk hpos hint
      fun j hj => ?_, fun j hj => ?_⟩
    · obtain ⟨p, hp, -⟩ := hserved j hj
      exact ⟨p, hp⟩
    · obtain ⟨p, hp, hsame⟩ := hserved j hj
      rw [hcell j hj, hp, Option.getD_some, hsame]

/-- It does where each byte is in place, or runs over into the cluster the
file goes on in: always at the front of a cluster, and wherever the clusters
of the request follow one another on the disk. -/
theorem readsFile_of_follow {c offset : Int} {total : Nat} (hoff : 0 ≤ offset)
    (hpos : 0 < total) (hend : offset + total ≤ 2147483648)
    (hlook : LookupsSucceed vol c offset total)
    (hfollow : ∀ j < total, InPlace vol c offset j
      ∨ ∃ cl, RunsOver vol c offset j cl
        ∧ assignedCluster vol c (offset + (j : Nat)) = cl + 1) :
    ReadsFile vol c offset total := by
  refine (readsFile_iff_coincides hpos
    (toInt32_of_range (by omega) (by omega))).mpr fun j hj => ?_
  rcases hfollow j hj with hplace | ⟨cl, hover, hnext⟩
  · exact hplace.coincides hoff (by omega) (hlook j hj)
  · exact hover.coincides hoff (by omega) hnext

/-- Reads: from any start cluster and any offset, a read delivers the
bytes of the clusters assigned to them if and only if every byte whose
piece has run over the end of its cluster, or whose cluster lies past the
positions of a stream, is taken from a place that holds the same byte. -/
theorem read_internal_exact (vol : Volume) (c offset : Int) (total : Nat)
    (hoff : 0 ≤ offset) (hpos : 0 < total) (hend : offset + total ≤ 2147483648)
    (hlook : LookupsSucceed vol c offset total) :
    ReadsFile vol c offset total ↔
      ∀ j < total, InPlace vol c offset j ∨ Coincides vol c offset j := by
  rw [readsFile_iff_coincides hpos (toInt32_of_range (by omega) (by omega))]
  constructor
  · exact fun hsame j hj => .inr (hsame j hj)
  · intro hbytes j hj
    rcases hbytes j hj with hplace | hsame
    · exact hplace.coincides hoff (by omega) (hlook j hj)
    · exact hsame

/-- A fragmented file in the clusters 2 and 4 of a volume of one-sector
clusters, its table in sector 1 and its data from sector 3 on. The word
at the start of sector 4, which the code takes for the entry of cluster
2, says 4 as well. -/
def fragmented : Volume where
  disk := fun lba i =>
    if lba = 1#32 then
      if i = 4 then 4 else if i = 8 ∨ i = 9 then 0xFF else 0
    else if lba = 4#32 ∧ i = 0 then 4
    else if lba = 5#32 then 7
    else 0
  header :=
    { sectorsPerCluster := 1, reservedSectors := 1, fatCopies := 1
      rootDirEntries := 16, sectorsPerFat := 1 }
  rootDir := { items := [], total := 0, sectorPos := 2, endingSectorPos := 3 }

theorem fragmented_lookups : LookupsSucceed fragmented 2 511 2 := by
  intro j hj
  obtain rfl | rfl : j = 0 ∨ j = 1 := by omega
  · exact ⟨2, by decide, by decide +kernel⟩
  · exact ⟨4, by decide, by decide +kernel⟩

theorem read_internal_exact_fragmented :
    LookupsSucceed fragmented 2 511 2 ∧
      (ReadsFile fragmented 2 511 2 ↔
        ∀ j < 2, InPlace fragmented 2 511 j ∨ Coincides fragmented 2 511 j) :=
  ⟨fragmented_lookups, read_internal_exact fragmented 2 511 2 (by decide)
    (by decide) (by decide) fragmented_lookups⟩

/-- A read of two bytes from the last one of cluster 2 on goes on in
cluster 3. -/
theorem read_internal_runs_over :
    ¬ ∀ (vol : Volume) (c offset : Int) (total : Nat), 0 ≤ offset →
      0 < total → LookupsSucceed vol c offset total →
      ReadsFile vol c offset total := by
  intro hall
  obtain ⟨out, hread, hout⟩ := hall fragmented 2 511 2 (by decide) (by decide)
    fragmented_lookups
  have hcell := hout 1 (by decide)
  have hres : fat16ReadInternal fragmented fragmented.disk 2 511 2
      = some { res := 0, out := [0, 4] } := by decide +kernel
  rw [show ((2 : Nat) : Int) = 2 by rfl, hres] at hread
  simp only [Option.some.injEq, FatRead.mk.injEq, true_and] at hread
  rw [← hread] at hcell
  exact absurd hcell (by decide +kernel)

end BenOS.Fat
