/-
The cluster of an offset, against the chain the file allocation table
holds.

What the table says is stated from its layout on the disk (`fatEntry`):
a data cluster to go on to, or a mark at which a file stops. What the
code makes of it is one step `codeNext`, read from the position it
computes (`fat16GetFatEntry_eq`), and the function is a walk along these
steps (`fat16ClusterLoop_eq`). The table's start is multiplied with the
entry's offset where it would have to be added, and the marks it knows
are those of a 12-bit table. So the function follows the chain up to an
offset exactly when, at each cluster on the way, the word it reads
happens to lead where the table does (`cluster_for_offset_exact`).
-/
import BenOS.Disk.Proofs.Streamer
import BenOS.Fat.Volume
import BenOS.Lib.Walk

namespace BenOS.Fat

open Lib Disk

-- ============================================================ what is required

/-- The little-endian word at a position of the disk. -/
def diskWord (disk : Image UInt8) (pos : Int) : Int :=
  (cellAt disk pos).toNat + 256 * (cellAt disk (pos + 1)).toNat

/-- The table's entry of a cluster. -/
def fatEntry (vol : Volume) (cluster : Int) : Int :=
  diskWord vol.disk
    (vol.header.reservedSectors.toNat * benosSectorSize + 2 * cluster)

/-- A cluster number that data is stored under. -/
def IsData (cluster : Int) : Prop := 2 ≤ cluster ∧ cluster ≤ 0xFFEF

/-- An entry with which a chain stops: free, bad, or the end. -/
def IsStop (entry : Int) : Prop :=
  entry = 0x0000 ∨ entry = 0xFFF7 ∨ 0xFFF8 ≤ entry

instance (cluster : Int) : Decidable (IsData cluster) :=
  inferInstanceAs (Decidable (_ ∧ _))

instance (entry : Int) : Decidable (IsStop entry) :=
  inferInstanceAs (Decidable (_ ∨ _ ∨ _))

/-- The data cluster the table goes on to from a data cluster. -/
def dataNext (vol : Volume) (cluster : Int) : Option Int :=
  if IsData cluster ∧ IsData (fatEntry vol cluster) then
    some (fatEntry vol cluster)
  else none

/-- The cluster found for an offset is the one the chain has there, as
long as it runs through data clusters, and an error once the chain has
stopped before. -/
structure FollowsFat (vol : Volume) (c offset : Int) : Prop where
  found : ∀ x, walk (dataNext vol) (offset / vol.sizeOfClusterBytes).toNat c
      = some x →
    fat16GetClusterForOffset vol c offset = some x
  stopped : ∀ i < (offset / vol.sizeOfClusterBytes).toNat, ∀ x,
    walk (dataNext vol) i c = some x → IsStop (fatEntry vol x) →
    ∃ res < 0, fat16GetClusterForOffset vol c offset = some res

-- =============================================================== what it does

/-- An entry at which the code gives up. -/
def Rejected (entry : Int) : Prop :=
  entry = 0xFF8 ∨ entry = 0xFFF ∨ entry = benosFat16BadSector
    ∨ entry = 0xFF0 ∨ entry = 0xFF6 ∨ entry = 0x00

instance (entry : Int) : Decidable (Rejected entry) :=
  inferInstanceAs (Decidable (_ ∨ _ ∨ _ ∨ _ ∨ _ ∨ _))

/-- The word the code reads for a cluster. -/
def wordRead (vol : Volume) (cluster : Int) : Int :=
  diskWord vol.disk (fat16FatEntryPos vol cluster)

/-- The step the code takes from a cluster. -/
def codeNext (vol : Volume) (cluster : Int) : Option Int :=
  if Rejected (wordRead vol cluster) then none
  else some (wordRead vol cluster)

/-- The word read for a cluster of a chain leads where the table does: to
the data cluster it goes on to, or to an error where it stops. -/
structure EntryRight (vol : Volume) (cluster : Int) : Prop where
  follows : ∀ y, dataNext vol cluster = some y →
    wordRead vol cluster = y ∧ ¬ Rejected y
  stops : IsStop (fatEntry vol cluster) → Rejected (wordRead vol cluster)

theorem diskWord_nonneg (disk : Image UInt8) (pos : Int) :
    0 ≤ diskWord disk pos := by
  unfold diskWord
  omega

/-- The positions the code reads entries from start a block. -/
theorem fat16FatEntryPos_block (vol : Volume) (cluster : Int) :
    fat16FatEntryPos vol cluster % benosSectorSize = 0 := by
  have htable : fat16GetFirstFatSector vol * benosSectorSize < 4294967296 := by
    unfold fat16GetFirstFatSector
    have := vol.header.reservedSectors.toNat_lt
    simp only [benosSectorSize]
    omega
  unfold fat16FatEntryPos
  simp only
  rw [toInt32_emod _ (by decide), toUint32_of_range _ htable]
  · rw [mul_right_comm]
    exact Int.mul_emod_left _ _
  · unfold fat16GetFirstFatSector
    simp only [benosSectorSize]
    omega

/-- Reading an entry always succeeds, with the word at that position. -/
theorem fat16GetFatEntry_eq (vol : Volume) (cluster : Int) :
    fat16GetFatEntry vol cluster = some (wordRead vol cluster) := by
  have hblock := fat16FatEntryPos_block vol cluster
  have hge : -2147483648 ≤ fat16FatEntryPos vol cluster := toInt32_ge _
  have hlt : fat16FatEntryPos vol cluster < 2147483648 := toInt32_lt _
  unfold fat16GetFatEntry
  rw [show (2 : Int) = ((2 : Nat) : Int) by rfl,
    diskstreamerRead_eq vol.disk _ (.inr hblock) hge hlt (by omega)]
  have hnext : toInt32 (fat16FatEntryPos vol cluster + 1)
      = fat16FatEntryPos vol cluster + 1 := by
    refine toInt32_of_range (by omega) ?_
    simp only [benosSectorSize] at hblock
    omega
  have hfirst : toInt32 (fat16FatEntryPos vol cluster)
      = fat16FatEntryPos vol cluster := toInt32_of_range hge hlt
  simp only [lt_irrefl, if_false, wordAt, List.range_succ, List.range_zero,
    List.nil_append, List.map_cons, List.map_append, List.map_nil]
  simp [hfirst, hnext, wordRead, diskWord]

/-- The loop is a walk along the code's steps, and an error where the
walk cannot go on. -/
theorem fat16ClusterLoop_eq (vol : Volume) :
    ∀ (k : Nat) (cluster : Int), fat16ClusterLoop vol k cluster
      = some ((walk (codeNext vol) k cluster).getD (-eio)) := by
  intro k
  induction k with
  | zero => intro cluster; rfl
  | succ k ih =>
      intro cluster
      unfold fat16ClusterLoop walk
      rw [fat16GetFatEntry_eq]
      simp only [codeNext, ih]
      by_cases hrej : Rejected (wordRead vol cluster)
      · rw [if_pos hrej]
        rcases hrej with h | h | h | h | h | h <;> simp [h]
      · rw [if_neg hrej]
        simp only [Rejected, not_or] at hrej
        obtain ⟨h₁, h₂, h₃, h₄, h₅, h₆⟩ := hrej
        rw [if_neg (by simp only [h₁, h₂, or_self, not_false_iff]),
          if_neg h₃, if_neg (by simp only [h₄, h₅, or_self, not_false_iff]),
          if_neg h₆]

/-- The function at an offset of a volume with clusters. -/
theorem fat16GetClusterForOffset_eq {vol : Volume}
    (hsize : 0 < vol.sizeOfClusterBytes) (c : Int) {offset : Int}
    (hoff : 0 ≤ offset) :
    fat16GetClusterForOffset vol c offset
      = some ((walk (codeNext vol)
          (offset / vol.sizeOfClusterBytes).toNat c).getD (-eio)) := by
  unfold fat16GetClusterForOffset
  rw [if_neg (by omega), Int.tdiv_eq_ediv_of_nonneg hoff]
  exact fat16ClusterLoop_eq vol _ c

/-- The clusters a walk along the code's steps comes to are not
negative. -/
theorem walk_codeNext_nonneg {vol : Volume} {k : Nat} {c x : Int}
    (hk : 0 < k) (h : walk (codeNext vol) k c = some x) : 0 ≤ x := by
  obtain ⟨k, rfl⟩ : ∃ k', k = k' + 1 := ⟨k - 1, by omega⟩
  rw [walk_succ] at h
  obtain ⟨y, -, hy⟩ := Option.bind_eq_some_iff.mp h
  unfold codeNext at hy
  split at hy
  · cases hy
  · injection hy with hy
    rw [← hy]
    exact diskWord_nonneg _ _

/-- A walk along the table's steps comes to data clusters. -/
theorem walk_dataNext_isData {vol : Volume} {k : Nat} {c x : Int}
    (hk : 0 < k) (h : walk (dataNext vol) k c = some x) : IsData x := by
  obtain ⟨k, rfl⟩ : ∃ k', k = k' + 1 := ⟨k - 1, by omega⟩
  rw [walk_succ] at h
  obtain ⟨y, -, hy⟩ := Option.bind_eq_some_iff.mp h
  unfold dataNext at hy
  split at hy
  · next hdata =>
      injection hy with hy
      rw [← hy]
      exact hdata.2
  · cases hy

/-- What is required at an offset, in terms of the two walks. -/
theorem followsFat_iff {vol : Volume} (hsize : 0 < vol.sizeOfClusterBytes)
    (c : Int) {offset : Int} (hoff : 0 ≤ offset) {k : Nat}
    (hk : (offset / vol.sizeOfClusterBytes).toNat = k) :
    FollowsFat vol c offset ↔
      (∀ x, walk (dataNext vol) k c = some x →
          walk (codeNext vol) k c = some x)
        ∧ (∀ i < k, ∀ x, walk (dataNext vol) i c = some x →
          IsStop (fatEntry vol x) → walk (codeNext vol) k c = none) := by
  have heq := fat16GetClusterForOffset_eq hsize c hoff
  rw [hk] at heq
  constructor
  · intro h
    obtain ⟨hfound, hstopped⟩ := h
    rw [hk] at hfound hstopped
    constructor
    · intro x hx
      have hres := hfound x hx
      rw [heq] at hres
      cases hwalk : walk (codeNext vol) k c with
      | none =>
          -- an error is no data cluster
          rcases Nat.eq_zero_or_pos k with hzero | hpos
          · rw [hzero] at hwalk
            cases hwalk
          · have hdata := walk_dataNext_isData hpos hx
            rw [hwalk] at hres
            injection hres with hres
            obtain ⟨hlow, -⟩ := hdata
            rw [← hres] at hlow
            exact absurd hlow (by decide)
      | some y =>
          rw [hwalk] at hres
          exact hres
    · intro i hi x hx hstop
      obtain ⟨res, hneg, hres⟩ := hstopped i hi x hx hstop
      rw [heq] at hres
      cases hwalk : walk (codeNext vol) k c with
      | none => rfl
      | some y =>
          have hnonneg := walk_codeNext_nonneg (by omega) hwalk
          rw [hwalk] at hres
          injection hres with hres
          rw [Option.getD_some] at hres
          omega
  · intro h
    obtain ⟨hfound, hstopped⟩ := h
    refine ⟨fun x hx => ?_, fun i hi x hx hstop => ?_⟩
    · rw [hk] at hx
      rw [heq, hfound x hx]
      rfl
    · rw [hk] at hi
      refine ⟨-eio, by decide, ?_⟩
      rw [heq, hstopped i hi x hx hstop]
      rfl

-- =========================================================== cluster lookups

/-- What is required at a single cluster, in terms of the two steps. -/
theorem entryRight_iff (vol : Volume) (cluster : Int) :
    EntryRight vol cluster ↔
      (∀ y, dataNext vol cluster = some y → codeNext vol cluster = some y)
        ∧ (IsStop (fatEntry vol cluster) → codeNext vol cluster = none) := by
  have hsome : ∀ y, codeNext vol cluster = some y ↔
      wordRead vol cluster = y ∧ ¬ Rejected y := by
    intro y
    unfold codeNext
    split
    · next hrej =>
        refine iff_of_false (Option.some_ne_none y).symm ?_
        intro h
        obtain ⟨rfl, hno⟩ := h
        exact hno hrej
    · next hrej =>
        rw [Option.some.injEq]
        exact ⟨fun h => ⟨h, h ▸ hrej⟩, fun h => h.1⟩
  have hnone : codeNext vol cluster = none ↔
      Rejected (wordRead vol cluster) := by
    unfold codeNext
    split
    · next hrej => exact iff_of_true rfl hrej
    · next hrej => exact iff_of_false (Option.some_ne_none _) hrej
  constructor
  · intro h
    obtain ⟨hfollows, hstops⟩ := h
    exact ⟨fun y hy => (hsome y).mpr (hfollows y hy),
      fun hstop => hnone.mpr (hstops hstop)⟩
  · intro h
    obtain ⟨hfollows, hstops⟩ := h
    exact ⟨fun y hy => (hsome y).mp (hfollows y hy),
      fun hstop => hnone.mp (hstops hstop)⟩

/-- Cluster lookups: from any cluster, and for all offsets up to a bound,
the function finds the cluster the chain has at the offset, and an error
where the chain has stopped before, if and only if at each cluster of the
chain before the last one asked for the word it reads leads where the
table does. -/
theorem cluster_for_offset_exact (vol : Volume)
    (hsize : 0 < vol.sizeOfClusterBytes) (c : Int) (bound : Nat) :
    (∀ offset : Int, 0 ≤ offset → offset ≤ bound →
        FollowsFat vol c offset) ↔
      ∀ i < ((bound : Int) / vol.sizeOfClusterBytes).toNat, ∀ x,
        walk (dataNext vol) i c = some x → EntryRight vol x := by
  have hfollows : (∀ offset : Int, 0 ≤ offset → offset ≤ bound →
      FollowsFat vol c offset) ↔
      Follows (dataNext vol) (codeNext vol) (fun x => IsStop (fatEntry vol x))
        ((bound : Int) / vol.sizeOfClusterBytes).toNat c := by
    constructor
    · intro hall k hk
      -- the offset at which the k-th cluster starts
      have hoff : 0 ≤ (k : Int) * vol.sizeOfClusterBytes :=
        Int.mul_nonneg (Int.natCast_nonneg k) hsize.le
      have hle : (k : Int) * vol.sizeOfClusterBytes ≤ bound := by
        have hk' : (k : Int) ≤ (bound : Int) / vol.sizeOfClusterBytes :=
          (Int.le_toNat (Int.ediv_nonneg (Int.natCast_nonneg _) hsize.le)).mp hk
        exact (Int.le_ediv_iff_mul_le hsize).mp hk'
      have hdiv : ((k : Int) * vol.sizeOfClusterBytes
          / vol.sizeOfClusterBytes).toNat = k := by
        rw [Int.mul_ediv_cancel _ hsize.ne', Int.toNat_natCast]
      exact (followsFat_iff hsize c hoff hdiv).mp (hall _ hoff hle)
    · intro h offset hoff hle
      refine (followsFat_iff hsize c hoff rfl).mpr (h _ ?_)
      exact Int.toNat_le_toNat (Int.ediv_le_ediv hsize hle)
  rw [hfollows, follows_iff]
  refine forall_congr' fun i => imp_congr_right fun _ => forall_congr' fun x =>
    imp_congr_right fun _ => (entryRight_iff vol x).symm

/-- A volume of one-sector clusters, its table in sector 1 and its data
from sector 3 on: a file in the clusters 2 and 3. -/
def twoClusters : Volume where
  disk := fun lba i =>
    if lba = 1#32 then
      if i = 4 then 3 else if i = 6 ∨ i = 7 then 0xFF else 0
    else 0
  header :=
    { sectorsPerCluster := 1, reservedSectors := 1, fatCopies := 1
      rootDirEntries := 16, sectorsPerFat := 1 }
  rootDir := { items := [], total := 0, sectorPos := 2, endingSectorPos := 3 }

theorem cluster_for_offset_exact_two_clusters :
    0 < twoClusters.sizeOfClusterBytes ∧
      ((∀ offset : Int, 0 ≤ offset → offset ≤ (600 : Nat) →
          FollowsFat twoClusters 2 offset) ↔
        ∀ i < (((600 : Nat) : Int) / twoClusters.sizeOfClusterBytes).toNat,
          ∀ x, walk (dataNext twoClusters) i 2 = some x →
            EntryRight twoClusters x) :=
  ⟨by decide, cluster_for_offset_exact twoClusters (by decide) 2 600⟩

/-- The second cluster of the file is not found: the word read for the
first one is that at the start of sector 4. -/
theorem cluster_for_offset_second_cluster :
    ¬ ∀ (vol : Volume) (c offset : Int), 0 < vol.sizeOfClusterBytes → 2 ≤ c →
      0 ≤ offset → FollowsFat vol c offset := by
  intro hall
  have hfound := (hall twoClusters 2 512 (by decide) (by decide)
    (by decide)).found 3 (by decide +kernel)
  exact absurd hfound (by decide +kernel)

end BenOS.Fat
