/-
How a directory comes into memory, and what lookups make of it there.

The entries of a directory are counted first, by a scan of the disk from
its first byte on that leaves the deleted ones out
(`fat16GetTotalItemsForDir_eq`), and then as many are loaded from the
front, deleted ones among them: of the root directory's region
(`fat16GetRootDir_loaded`), or of the clusters of a subdirectory's chain
(`fat16LoadFatDir_loaded`). The chain is followed for the entries that are
loaded, and for no others.

# What is exact about it

`dir_lookup_exact`: lookups see the live entries, and only these, exactly
when the directory is packed and the scan has met as many live entries as
it has. Where a cluster lookup for an entry that is loaded leaves the
chain, entries of another cluster are loaded; then lookups are right
exactly when what is loaded happens to be the live entries in some order.
-/
import BenOS.Fat.Proofs.Read
import BenOS.Fat.Proofs.Lookup

namespace BenOS.Fat

open Lib Disk

variable {σ : Type}

-- ==================================================================== on disk

/-- The directory entry at a position of the disk. -/
def entryAt (disk : Image UInt8) (pos : Int) : FatDirItem :=
  FatDirItem.ofBytes ((List.range sizeofFatDirItem).map fun (b : Nat) =>
    cellAt disk (toInt32 (pos + b)))

/-- The entry a scan meets after `i` others. -/
def scanned (disk : Image UInt8) (start : Int) (i : Nat) : FatDirItem :=
  entryAt disk (toInt32 (start + sizeofFatDirItem * i))

/-- A scan ends after `stop` entries. -/
structure EndsAfter (disk : Image UInt8) (start : Int) (stop : Nat) : Prop where
  ends : (scanned disk start stop).fname0 = 0x00
  before : ∀ i < stop, (scanned disk start i).fname0 ≠ 0x00

/-- From a position on, the disk has `n` entries that are not deleted
before the first that starts with a zero byte. -/
def LiveOnDisk (disk : Image UInt8) (start : Int) (n : Nat) : Prop :=
  ∃ stop, EndsAfter disk start stop
    ∧ n = Nat.count (fun i => ¬ (scanned disk start i).Deleted) stop

theorem EndsAfter.unique {disk : Image UInt8} {start : Int} {k m : Nat}
    (hk : EndsAfter disk start k) (hm : EndsAfter disk start m) : k = m := by
  rcases Nat.lt_trichotomy k m with hlt | heq | hgt
  · exact absurd hk.ends (hm.before k hlt)
  · exact heq
  · exact absurd hm.ends (hk.before m hgt)

theorem LiveOnDisk.unique {disk : Image UInt8} {start : Int} {n m : Nat}
    (hn : LiveOnDisk disk start n) (hm : LiveOnDisk disk start m) : n = m := by
  obtain ⟨k, hk, rfl⟩ := hn
  obtain ⟨l, hl, rfl⟩ := hm
  rw [hk.unique hl]

-- =================================================================== counting

/-- The entry after the first of a scan is the first of the rest. -/
theorem scanned_succ (disk : Image UInt8) (pos : Int) (i : Nat) :
    scanned disk (toInt32 (pos + sizeofFatDirItem)) i
      = scanned disk pos (i + 1) := by
  unfold scanned
  rw [toInt32_add_left]
  congr 2
  simp only [sizeofFatDirItem]
  omega

theorem scanned_zero (disk : Image UInt8) {pos : Int}
    (hpos : toInt32 pos = pos) : scanned disk pos 0 = entryAt disk pos := by
  unfold scanned
  rw [Nat.cast_zero, Int.mul_zero, Int.add_zero, hpos]

/-- One round of the scan over an entry that can be read. -/
theorem scanRound_eq {disk : Image UInt8} {pos : Int}
    (hpos : toInt32 pos = pos) (hread : Readable pos) (fuel : Nat) (i : Int) :
    fat16ScanDir disk (fuel + 1) pos i
      = if (entryAt disk pos).fname0 = 0x00 then some i
        else fat16ScanDir disk fuel (toInt32 (pos + sizeofFatDirItem))
          (if (entryAt disk pos).Deleted then i else i + 1) := by
  have hge := toInt32_ge pos
  have hlt := toInt32_lt pos
  rw [hpos] at hge hlt
  have hmod : pos % benosSectorSize + sizeofFatDirItem < 2147483648 := by
    simp only [benosSectorSize, sizeofFatDirItem]
    omega
  rw [fat16ScanDir, diskstreamerRead_eq disk _ hread hge hlt hmod]
  simp only [Option.bind_eq_bind, Option.bind_some, ne_eq, not_true_eq_false,
    if_false]
  rw [← entryAt]
  by_cases hend : (entryAt disk pos).fname0 = 0x00
  · rw [if_pos hend, if_pos hend]
  · rw [if_neg hend, if_neg hend]
    by_cases hdeleted : (entryAt disk pos).Deleted
    · rw [if_pos hdeleted, if_pos (show _ = _ from hdeleted)]
    · rw [if_neg hdeleted, if_neg (show ¬ _ = _ from hdeleted)]

/-- One round of the scan that comes to a result: the entry at the
position can be read, and ends the scan or is counted unless deleted. -/
theorem scanRound {disk : Image UInt8} {fuel : Nat} {pos i n : Int}
    (hpos : toInt32 pos = pos)
    (h : fat16ScanDir disk (fuel + 1) pos i = some n) :
    Readable pos ∧
      if (entryAt disk pos).fname0 = 0x00 then n = i
      else fat16ScanDir disk fuel (toInt32 (pos + sizeofFatDirItem))
        (if (entryAt disk pos).Deleted then i else i + 1) = some n := by
  have hread : Readable pos := by
    by_contra hnot
    rw [fat16ScanDir,
      diskstreamerRead_none disk hnot (by decide) (by decide)] at h
    cases h
  rw [scanRound_eq hpos hread] at h
  refine ⟨hread, ?_⟩
  split
  · next hend =>
      rw [if_pos hend] at h
      exact (Option.some.inj h).symm
  · next hmore => rwa [if_neg hmore] at h

/-- The scan, from a position and a count: it counts the entries that are
not deleted, and comes to readable positions only. -/
theorem fat16ScanDir_eq (disk : Image UInt8) :
    ∀ (fuel : Nat) (pos i n : Int), toInt32 pos = pos →
      fat16ScanDir disk fuel pos i = some n →
      ∃ stop, EndsAfter disk pos stop
        ∧ (∀ k ≤ stop, Readable (toInt32 (pos + sizeofFatDirItem * (k : Nat))))
        ∧ n = i
          + Nat.count (fun k => ¬ (scanned disk pos k).Deleted) stop := by
  intro fuel
  induction fuel with
  | zero =>
      intro pos i n _ h
      cases h
  | succ fuel ih =>
      intro pos i n hpos h
      obtain ⟨hread, h⟩ := scanRound hpos h
      have hfirst := scanned_zero disk hpos
      have hzero : Readable (toInt32 (pos + sizeofFatDirItem * (0 : Nat))) := by
        rwa [Nat.cast_zero, Int.mul_zero, Int.add_zero, hpos]
      split at h
      · next hend =>
          refine ⟨0, ⟨by rw [hfirst]; exact hend,
            fun _ hk => absurd hk (Nat.not_lt_zero _)⟩, fun k hk => ?_, ?_⟩
          · rwa [Nat.le_zero.mp hk]
          · rw [h, Nat.count_zero, Nat.cast_zero, Int.add_zero]
      · next hmore =>
          obtain ⟨stop, ⟨hends, hbefore⟩, hreads, hn⟩ :=
            ih _ _ n (toInt32_toInt32 _) h
          simp only [scanned_succ] at hends hbefore hn
          refine ⟨stop + 1, ⟨hends, fun k hk => ?_⟩, fun k hk => ?_, ?_⟩
          · rcases Nat.eq_zero_or_pos k with rfl | hkpos
            · rwa [hfirst]
            · obtain ⟨m, rfl⟩ := Nat.exists_eq_add_of_lt hkpos
              rw [Nat.zero_add] at hk ⊢
              exact hbefore m (by omega)
          · rcases Nat.eq_zero_or_pos k with rfl | hkpos
            · exact hzero
            · obtain ⟨m, rfl⟩ := Nat.exists_eq_add_of_lt hkpos
              have hm := hreads m (by omega)
              rw [toInt32_add_left] at hm
              rw [show pos + (sizeofFatDirItem : Int) * ((0 + m + 1 : Nat) : Int)
                = pos + sizeofFatDirItem + sizeofFatDirItem * (m : Int) by
                  simp only [sizeofFatDirItem]; omega]
              exact hm
          · rw [hn, Nat.count_succ', hfirst]
            by_cases hdeleted : (entryAt disk pos).Deleted
            · rw [if_pos hdeleted, if_neg (not_not.mpr hdeleted), Nat.add_zero]
            · rw [if_neg hdeleted, if_pos hdeleted, Nat.cast_add,
                Nat.cast_one]
              omega

/-- The count of a directory's entries. -/
theorem fat16GetTotalItemsForDir_eq {disk : Image UInt8} {sector n : Int}
    (h : fat16GetTotalItemsForDir disk sector = some n) :
    ∃ m : Nat, n = m ∧ LiveOnDisk disk (toInt32 (sector * benosSectorSize)) m
      ∧ ∃ stop, m ≤ stop ∧ ∀ k ≤ stop, Readable (toInt32
        (toInt32 (sector * benosSectorSize) + sizeofFatDirItem * (k : Nat))) := by
  unfold fat16GetTotalItemsForDir at h
  obtain ⟨stop, hends, hreads, hn⟩ :=
    fat16ScanDir_eq disk _ _ _ n (toInt32_toInt32 _) h
  rw [Int.zero_add] at hn
  exact ⟨_, hn, ⟨stop, hends, rfl⟩, stop, Nat.count_le _, hreads⟩

-- ==================================================================== loading

/-- An array of entries read off a run of cells, entry by entry. -/
theorem itemsOfBytes_map (f : Nat → UInt8) (n : Nat) :
    itemsOfBytes n ((List.range (n * sizeofFatDirItem)).map f)
      = (List.range n).map fun j => FatDirItem.ofBytes
          ((List.range sizeofFatDirItem).map fun b =>
            f (sizeofFatDirItem * j + b)) := by
  induction n generalizing f with
  | zero => rfl
  | succ n ih =>
      have hlen : ((List.range sizeofFatDirItem).map f).length
          = sizeofFatDirItem := by
        rw [List.length_map, List.length_range]
      rw [Nat.succ_mul, Nat.add_comm (n * sizeofFatDirItem), List.range_add,
        List.map_append, List.map_map, itemsOfBytes, List.take_left' hlen,
        List.drop_left' hlen, ih, List.range_succ_eq_map (n := n),
        List.map_cons, List.map_map]
      refine congrArg₂ List.cons ?_ ?_
      · simp only [Nat.mul_zero, Nat.zero_add]
      · refine List.map_congr_left fun j _ => ?_
        simp only [Function.comp_apply]
        congr 2
        funext b
        congr 1
        rw [Nat.mul_succ]
        omega

/-- Where the root directory starts on the disk. -/
def rootDirPos (header : FatHeader) : Int :=
  (header.fatCopies.toNat * header.sectorsPerFat.toNat
    + header.reservedSectors.toNat) * benosSectorSize

/-- The position of a sector is at the front of a block. -/
theorem sectorPos_block (sector : Int) :
    toInt32 (sector * benosSectorSize) % benosSectorSize = 0 := by
  rw [toInt32_emod _ (by decide)]
  exact Int.mul_emod_left _ _

/-- The region of the root directory starts a block, so that it is
read. -/
theorem rootDir_read (disk : Image UInt8) (header : FatHeader) :
    diskstreamerRead disk (toInt32 (rootDirPos header))
        (header.rootDirEntries.toNat * sizeofFatDirItem : Nat)
      = some
        { res := 0
          out := (List.range (header.rootDirEntries.toNat
            * sizeofFatDirItem)).map fun (j : Nat) =>
              cellAt disk (toInt32 (toInt32 (rootDirPos header) + j))
          pos := toInt32 (toInt32 (rootDirPos header)
            + (header.rootDirEntries.toNat * sizeofFatDirItem : Nat)) } := by
  have hentries := header.rootDirEntries.toNat_lt
  have hblock : toInt32 (rootDirPos header) % benosSectorSize = 0 :=
    sectorPos_block _
  exact diskstreamerRead_eq disk _ (.inr hblock) (toInt32_ge _) (toInt32_lt _)
    (by rw [hblock]; simp only [sizeofFatDirItem]; omega)

/-- The root directory that is loaded is the count of its scan and the
bytes of its region. -/
theorem fat16GetRootDir_dir {al : Allocator σ} {disk : Image UInt8}
    {header : FatHeader} {s s' : σ} {dir : FatDir}
    (h : fat16GetRootDir al disk header s = some (0, some dir, s')) :
    ∃ total r,
      fat16GetTotalItemsForDir disk (header.fatCopies.toNat
          * header.sectorsPerFat.toNat + header.reservedSectors.toNat)
        = some total
      ∧ diskstreamerRead disk (toInt32 (rootDirPos header))
          (header.rootDirEntries.toNat * sizeofFatDirItem : Nat) = some r
      ∧ dir =
        { items := itemsOfBytes header.rootDirEntries.toNat r.out
          total := total
          sectorPos := header.fatCopies.toNat * header.sectorsPerFat.toNat
            + header.reservedSectors.toNat
          endingSectorPos := header.fatCopies.toNat
            * header.sectorsPerFat.toNat + header.reservedSectors.toNat
            + (header.rootDirEntries.toNat * sizeofFatDirItem : Nat)
              / benosSectorSize } := by
  unfold fat16GetRootDir at h
  obtain ⟨total, htotal, h⟩ := Option.bind_eq_some_iff.mp h
  split at h
  · cases h
  · obtain ⟨r, hr, h⟩ := Option.bind_eq_some_iff.mp h
    split at h
    · cases h
    · have hdir := congrArg (fun r => r.2.1) (Option.some.inj h)
      exact ⟨total, r, htotal, hr, (Option.some.inj hdir).symm⟩

/-- The root directory in memory: the count of the scan, and the entries
of its region. -/
theorem fat16GetRootDir_loaded {al : Allocator σ} {disk : Image UInt8}
    {header : FatHeader} {s s' : σ} {dir : FatDir}
    (h : fat16GetRootDir al disk header s = some (0, some dir, s')) :
    ∃ n : Nat, dir.total = n
      ∧ LiveOnDisk disk (toInt32 (rootDirPos header)) n
      ∧ dir.items = (List.range header.rootDirEntries.toNat).map
          (scanned disk (toInt32 (rootDirPos header))) := by
  obtain ⟨total, r, htotal, hr, rfl⟩ := fat16GetRootDir_dir h
  obtain ⟨n, rfl, hlive, -⟩ := fat16GetTotalItemsForDir_eq htotal
  rw [rootDir_read] at hr
  obtain rfl := Option.some.inj hr
  refine ⟨n, rfl, hlive, ?_⟩
  rw [itemsOfBytes_map]
  refine List.map_congr_left fun j _ => ?_
  refine congrArg FatDirItem.ofBytes (List.map_congr_left fun b _ => ?_)
  refine congrArg (cellAt disk) ?_
  conv_rhs => rw [toInt32_add_left]
  refine congrArg toInt32 ?_
  simp only [sizeofFatDirItem]
  omega

/-- A scan does not get past the second entry behind the largest
position. -/
theorem scan_wraps {start : Int} {stop k : Nat}
    (hk : start + sizeofFatDirItem * (k : Nat) = 2147483648 + 32)
    (hreads : ∀ k ≤ stop,
      Readable (toInt32 (start + sizeofFatDirItem * (k : Nat)))) :
    stop < k := by
  by_contra hge
  have hread := hreads k (by omega)
  rw [hk] at hread
  exact absurd hread (by decide)

/-- A scan from behind the start of the disk comes to an end before the
positions wrap. -/
theorem scan_short {start : Int} {stop : Nat} (hpos : 0 < start)
    (hlt : start < 2147483648) (hblock : start % benosSectorSize = 0)
    (hreads : ∀ k ≤ stop,
      Readable (toInt32 (start + sizeofFatDirItem * (k : Nat)))) :
    stop < 67108864 := by
  simp only [benosSectorSize] at hblock
  have hstop := scan_wraps (k := (2147483680 - start).toNat / 32)
    (by simp only [sizeofFatDirItem]; omega) hreads
  omega

/-- The position of a cluster's first sector. -/
theorem fat16ClusterToSector_pos (vol : Volume) (cluster : Int) :
    toInt32 (fat16ClusterToSector vol cluster * benosSectorSize)
      = toInt32 (clusterPos vol cluster) := by
  unfold fat16ClusterToSector clusterPos toInt32
  simp only [benosSectorSize]
  omega

/-- The entry at an offset of a file, as a read of the file delivers
it. -/
def servedEntry (vol : Volume) (cluster : Int) (j : Nat) : FatDirItem :=
  FatDirItem.ofBytes ((List.range sizeofFatDirItem).map fun b =>
    cellAt vol.disk
      ((servedPos vol cluster 0 (sizeofFatDirItem * j + b)).getD 0))

/-- A volume a subdirectory is loaded from has a cluster size: the first
lookup divides by it. -/
theorem fat16LoadFatDir_sized {al : Allocator σ} {vol : Volume}
    {item : FatDirItem} {s s' : σ} {addr items : Addr} {dir : FatDir}
    (h : fat16LoadFatDir al vol item s = some (.live addr items dir, s')) :
    0 < vol.clusterBytes := by
  by_contra hzero
  have hread : ∀ cluster total, fat16ReadInternal vol vol.disk cluster 0 total
      = none := by
    intro cluster total
    unfold fat16ReadInternal
    rw [fat16ReadInternalFromStream, fat16GetClusterForOffset_zero (by omega)]
  unfold fat16LoadFatDir at h
  split at h
  · cases h
  · split at h
    · cases h
    · obtain ⟨total, -, h⟩ := Option.bind_eq_some_iff.mp h
      simp only at h
      split at h
      · cases h
      · simp only [hread, Option.bind_eq_bind, Option.bind_none] at h
        cases h

/-- A subdirectory in memory: the count of the scan, and as many entries
as that, read from its first cluster on. -/
theorem fat16LoadFatDir_loaded {al : Allocator σ} {vol : Volume}
    {item : FatDirItem} {s s' : σ} {addr items : Addr} {dir : FatDir}
    (h : fat16LoadFatDir al vol item s = some (.live addr items dir, s'))
    (hpos : 0 < toInt32 (clusterPos vol (fat16GetFirstCluster item))) :
    ∃ n : Nat, dir.total = n ∧ n < 67108864
      ∧ LiveOnDisk vol.disk
        (toInt32 (clusterPos vol (fat16GetFirstCluster item))) n
      ∧ dir.items = (List.range n).map
        (servedEntry vol (fat16GetFirstCluster item)) := by
  unfold fat16LoadFatDir at h
  split at h
  · cases h
  · split at h
    · cases h
    · obtain ⟨total, htotal, h⟩ := Option.bind_eq_some_iff.mp h
      obtain ⟨n, rfl, hlive, stop, hstop, hreads⟩ :=
        fat16GetTotalItemsForDir_eq htotal
      rw [fat16ClusterToSector_pos] at hlive hreads
      have hshort := scan_short hpos (toInt32_lt _) (sectorPos_block _) hreads
      have hsize : toInt32 ((n : Int) * sizeofFatDirItem)
          = (n * sizeofFatDirItem : Nat) := by
        simp only [sizeofFatDirItem]
        rw [toInt32_of_range (by omega) (by omega)]
        omega
      have hcount : (toUint32 ((n * sizeofFatDirItem : Nat) : Int)).toNat
          / sizeofFatDirItem = n := by
        simp only [sizeofFatDirItem]
        rw [toUint32_of_range (by omega) (by omega)]
        omega
      simp only [hsize] at h
      split at h
      · cases h
      · obtain ⟨r, hr, h⟩ := Option.bind_eq_some_iff.mp h
        split at h
        · cases h
        · next hok =>
            injection h with h
            have hdir := congrArg (fun r => r.1) h
            simp only [DirPtr.live.injEq] at hdir
            obtain ⟨-, -, hdir⟩ := hdir
            rw [hcount] at hdir
            rcases Nat.eq_zero_or_pos n with rfl | hn
            · refine ⟨0, by rw [← hdir], by omega, hlive, ?_⟩
              rw [← hdir]
              rfl
            · have hall : AllServed vol (fat16GetFirstCluster item) 0
                  (n * sizeofFatDirItem) := by
                by_contra hnot
                have hfail := readInternal_fails vol.disk
                  (by simp only [sizeofFatDirItem]; omega) (by rfl) hnot r hr
                rw [not_not.mp hok] at hfail
                exact lt_irrefl (0 : Int) hfail
              refine ⟨n, by rw [← hdir], by omega, hlive, ?_⟩
              rw [readInternal_served vol.disk
                (by simp only [sizeofFatDirItem]; omega) (by rfl) hall] at hr
              have hout := congrArg FatRead.out (Option.some.inj hr)
              have hitems := congrArg FatDir.items hdir
              simp only at hout hitems
              rw [← hitems, ← hout, servedCells, itemsOfBytes_map]
              rfl

-- ====================================================== where directories lie

/-- The directory lies in the root directory's region, at positions a
stream has. -/
structure InRootDir (disk : Image UInt8) (header : FatHeader) (D : Directory) :
    Prop where
  placed : ∀ j ≤ D.last, D.entry j
    = entryAt disk (rootDirPos header + sizeofFatDirItem * (j : Nat))
  fits : D.last ≤ header.rootDirEntries.toNat
  high : rootDirPos header + sizeofFatDirItem * (D.last + 1) ≤ 2147483648

/-- The directory lies in the chain that the file allocation table has
from a cluster on, behind the first sector and at positions a stream
has. -/
def InChain (vol : Volume) (c : Int) (D : Directory) : Prop :=
  ∀ j ≤ D.last, ∃ x,
    walk (dataNext vol) (sizeofFatDirItem * j / vol.clusterBytes) c = some x
      ∧ 0 < clusterPos vol x
      ∧ clusterPos vol x + vol.clusterBytes ≤ 2147483648
      ∧ D.entry j = entryAt vol.disk (clusterPos vol x
        + (sizeofFatDirItem * j % vol.clusterBytes : Nat))

/-- Where a directory is: in the region of the root directory, or in the
chain of a cluster. -/
inductive DirPlace
  | root
  | chain (cluster : Int)

/-- Its first position on the disk, where it is scanned from. -/
def DirPlace.start (vol : Volume) : DirPlace → Int
  | root => rootDirPos vol.header
  | chain cluster => clusterPos vol cluster

/-- The entry that is read as its entry `j` when it is loaded. -/
def DirPlace.readEntry (vol : Volume) : DirPlace → Nat → FatDirItem
  | root => scanned vol.disk (rootDirPos vol.header)
  | chain cluster => servedEntry vol cluster

/-- The cluster lookups for those of a directory's entries that are among
the first `n` follow the file allocation table. -/
def DirPlace.Followed (vol : Volume) (D : Directory) (n : Nat) :
    DirPlace → Prop
  | root => True
  | chain cluster => ∀ j < n, j ≤ D.last →
      FollowsFat vol cluster (sizeofFatDirItem * j : Nat)

/-- A directory, where it is, and what it has been loaded into: as the
root directory, or as a subdirectory. -/
inductive Loaded (vol : Volume) (D : Directory) : DirPlace → FatDir → Prop
  | root {σ : Type} {al : Allocator σ} {s s' : σ} {dir : FatDir}
      (load : fat16GetRootDir al vol.disk vol.header s
        = some (0, some dir, s'))
      (place : InRootDir vol.disk vol.header D) :
      Loaded vol D .root dir
  | sub {σ : Type} {al : Allocator σ} {s s' : σ} {item : FatDirItem}
      {addr items : Addr} {dir : FatDir}
      (load : fat16LoadFatDir al vol item s
        = some (.live addr items dir, s'))
      (place : InChain vol (fat16GetFirstCluster item) D) :
      Loaded vol D (.chain (fat16GetFirstCluster item)) dir

/-- A directory whose entries follow one another on the disk is all that
a scan from its start meets. -/
theorem Directory.endsAfter {D : Directory} {disk : Image UInt8} {start : Int}
    (h : ∀ j ≤ D.last, D.entry j = scanned disk start j) :
    EndsAfter disk start D.last := by
  refine ⟨?_, fun i hi => ?_⟩
  · rw [← h D.last le_rfl]
    exact D.ends
  · rw [← h i hi.le]
    exact D.before i hi

theorem Directory.liveOnDisk {D : Directory} {disk : Image UInt8} {start : Int}
    (h : ∀ j ≤ D.last, D.entry j = scanned disk start j) :
    LiveOnDisk disk start D.liveCount := by
  refine ⟨D.last, Directory.endsAfter h, ?_⟩
  unfold Directory.liveCount
  rw [Nat.count_eq_card_filter_range, Nat.count_eq_card_filter_range]
  congr 1
  refine Finset.filter_congr fun i hi => ?_
  rw [Finset.mem_range] at hi
  rw [← h i hi.le]
  exact ⟨fun hlive => hlive.2, fun hlive => ⟨hi, hlive⟩⟩

/-- In the root directory's region. -/
theorem InRootDir.entry_eq {disk : Image UInt8} {header : FatHeader}
    {D : Directory} (h : InRootDir disk header D) :
    toInt32 (rootDirPos header) = rootDirPos header
      ∧ ∀ j ≤ D.last, D.entry j = scanned disk (rootDirPos header) j := by
  have hhigh := h.high
  have hlow : 0 ≤ rootDirPos header := by
    unfold rootDirPos
    exact_mod_cast Nat.zero_le _
  simp only [sizeofFatDirItem] at hhigh
  refine ⟨toInt32_of_range (by omega) (by omega), fun j hj => ?_⟩
  rw [h.placed j hj]
  unfold scanned
  rw [toInt32_of_range]
  · simp only [sizeofFatDirItem]
    omega
  · simp only [sizeofFatDirItem]
    omega

/-- No entry of a directory reaches over the end of a cluster. -/
theorem entry_in_cluster {vol : Volume} (hC : 0 < vol.clusterBytes) (j : Nat)
    {b : Nat} (hb : b < sizeofFatDirItem) :
    (sizeofFatDirItem * j + b) / vol.clusterBytes
        = sizeofFatDirItem * j / vol.clusterBytes
      ∧ (sizeofFatDirItem * j + b) % vol.clusterBytes
        = sizeofFatDirItem * j % vol.clusterBytes + b
      ∧ sizeofFatDirItem * j % vol.clusterBytes + sizeofFatDirItem
        ≤ vol.clusterBytes := by
  have hdvd : sizeofFatDirItem ∣ vol.clusterBytes :=
    ⟨vol.header.sectorsPerCluster.toNat * 16, by
      simp only [Volume.clusterBytes, benosSectorSize, sizeofFatDirItem]
      omega⟩
  have hrem : sizeofFatDirItem ∣ sizeofFatDirItem * j % vol.clusterBytes :=
    (Nat.dvd_mod_iff hdvd).mpr (Nat.dvd_mul_right _ _)
  have hlt := Nat.mod_lt (sizeofFatDirItem * j) hC
  have hroom : sizeofFatDirItem * j % vol.clusterBytes + sizeofFatDirItem
      ≤ vol.clusterBytes := by
    obtain ⟨k, hk⟩ := hdvd
    obtain ⟨m, hm⟩ := hrem
    rw [hm, hk] at hlt ⊢
    have := Nat.lt_of_mul_lt_mul_left hlt
    rw [← Nat.mul_succ]
    exact Nat.mul_le_mul_left _ this
  have hsplit := Nat.mod_add_div (sizeofFatDirItem * j) vol.clusterBytes
  obtain ⟨hdiv, hmod⟩ := (Nat.div_mod_unique (a := sizeofFatDirItem * j + b)
    (d := sizeofFatDirItem * j / vol.clusterBytes)
    (c := sizeofFatDirItem * j % vol.clusterBytes + b) hC).mpr
    ⟨by omega, by omega⟩
  exact ⟨hdiv, hmod, hroom⟩

/-- The bytes of an entry in a chain are read from its place. -/
theorem servedPos_entry {vol : Volume} (hC : 0 < vol.clusterBytes) {c : Int}
    (hc : 0 ≤ c) {j : Nat}
    (hfound : FollowsFat vol c (sizeofFatDirItem * j : Nat))
    (hshort : j < 67108864) {x : Int}
    (hwalk : walk (dataNext vol) (sizeofFatDirItem * j / vol.clusterBytes) c
      = some x)
    (hlow : 0 < clusterPos vol x)
    (hhigh : clusterPos vol x + vol.clusterBytes ≤ 2147483648) {b : Nat}
    (hb : b < sizeofFatDirItem) :
    servedPos vol c 0 (sizeofFatDirItem * j + b)
      = some (clusterPos vol x
        + (sizeofFatDirItem * j % vol.clusterBytes : Nat) + b) := by
  obtain ⟨hdiv, hmod, -⟩ := entry_in_cluster hC j hb
  have hlookup : fat16GetClusterForOffset vol c
      (0 + ((sizeofFatDirItem * j + b : Nat) : Int)) = some x := by
    rw [← hfound.found x (by
      rw [sizeOfClusterBytes_eq, ← Int.natCast_div, Int.toNat_natCast]
      exact hwalk)]
    refine fat16GetClusterForOffset_congr c ?_
    rw [Int.zero_add, sizeOfClusterBytes_eq,
      Int.tdiv_eq_ediv_of_nonneg (Int.natCast_nonneg _),
      Int.tdiv_eq_ediv_of_nonneg (Int.natCast_nonneg _), ← Int.natCast_div,
      ← Int.natCast_div, hdiv]
  have hassigned : assignedCluster vol c
      (0 + ((sizeofFatDirItem * j + b : Nat) : Int)) = x := by
    unfold assignedCluster
    rw [hlookup, Option.getD_some]
  have hx : 0 ≤ x := by
    rcases Nat.eq_zero_or_pos (sizeofFatDirItem * j / vol.clusterBytes)
      with hzero | hpos
    · rw [hzero, walk_zero] at hwalk
      rwa [← Option.some.inj hwalk]
    · have := (walk_dataNext_isData hpos hwalk).1
      omega
  have hplace : InPlace vol c 0 (sizeofFatDirItem * j + b) := by
    refine ⟨?_, by rw [hassigned]; exact hlow.le, by rwa [hassigned]⟩
    have := Nat.mod_lt (sizeofFatDirItem * j + b) hC
    rw [Int.zero_emod]
    omega
  rw [hplace.servedPos_eq le_rfl (by simp only [sizeofFatDirItem] at hb ⊢; omega)
    ⟨x, hx, hlookup⟩]
  unfold assignedPos
  rw [hassigned, Int.zero_add, ← Int.natCast_mod, hmod]
  congr 1
  omega

/-- An entry whose lookup follows the chain is read from its place. -/
theorem InChain.servedEntry_eq {vol : Volume} {c : Int} {D : Directory}
    (h : InChain vol c D) (hC : 0 < vol.clusterBytes) (hc : 0 ≤ c) {j : Nat}
    (hj : j ≤ D.last) (hfound : FollowsFat vol c (sizeofFatDirItem * j : Nat))
    (hshort : j < 67108864) :
    servedEntry vol c j = D.entry j := by
  obtain ⟨x, hwalk, hlow, hhigh, hentry⟩ := h j hj
  rw [hentry]
  refine congrArg FatDirItem.ofBytes (List.map_congr_left fun b hb => ?_)
  rw [List.mem_range] at hb
  rw [servedPos_entry hC hc hfound hshort hwalk hlow hhigh hb,
    Option.getD_some]
  have hroom := (entry_in_cluster hC j hb).2.2
  rw [toInt32_of_range (by omega) (by omega)]

/-- What a loaded directory holds: as many entries as the scan from its
start counts. They are its own where the lookups for them follow the
chain. -/
theorem Loaded.items_eq {vol : Volume} {D : Directory} {place : DirPlace}
    {dir : FatDir} (h : Loaded vol D place dir) :
    ∃ n : Nat, dir.total = n ∧ LiveOnDisk vol.disk (place.start vol) n
      ∧ n ≤ dir.items.length
      ∧ dir.items.take n = (List.range n).map (place.readEntry vol)
      ∧ (place.Followed vol D n → ∀ j ≤ D.last, j < n →
        dir.items[j]? = some (D.entry j)) := by
  cases h with
  | root load place =>
      obtain ⟨n, htotal, hlive, hitems⟩ := fat16GetRootDir_loaded load
      obtain ⟨hstart, hentry⟩ := place.entry_eq
      rw [hstart] at hlive hitems
      -- the scan ends where the directory does
      have hcount : n ≤ D.last := by
        rw [hlive.unique (Directory.liveOnDisk hentry)]
        exact Nat.count_le _
      have hfits := hcount.trans place.fits
      refine ⟨n, htotal, hlive, ?_, ?_, fun _ j hj hn => ?_⟩
      · rwa [hitems, List.length_map, List.length_range]
      · rw [hitems, ← List.map_take, List.take_range, Nat.min_eq_left hfits]
        rfl
      · rw [hitems, List.getElem?_map, List.getElem?_range (by omega),
          Option.map_some, hentry j hj]
  | @sub σ al s s' item addr items dir load place =>
      have hc : 0 ≤ fat16GetFirstCluster item := by
        unfold fat16GetFirstCluster
        exact Int.natCast_nonneg _
      obtain ⟨x, hwalk, hlow, hhigh, -⟩ := place 0 (Nat.zero_le _)
      rw [Nat.mul_zero, Nat.zero_div, walk_zero] at hwalk
      rw [← Option.some.inj hwalk] at hlow hhigh
      have hC := fat16LoadFatDir_sized load
      have hstart : toInt32 (clusterPos vol (fat16GetFirstCluster item))
          = clusterPos vol (fat16GetFirstCluster item) :=
        toInt32_of_range (by omega) (by omega)
      obtain ⟨n, htotal, hshort, hlive, hitems⟩ :=
        fat16LoadFatDir_loaded load (by rwa [hstart])
      rw [hstart] at hlive
      refine ⟨n, htotal, hlive, ?_, ?_, fun hfollowed j hj hn => ?_⟩
      · rw [hitems, List.length_map, List.length_range]
      · rw [hitems, ← List.map_take, List.take_range, Nat.min_self]
        rfl
      · rw [hitems, List.getElem?_map, List.getElem?_range hn, Option.map_some,
          place.servedEntry_eq hC hc hj (hfollowed j hn hj) (by omega)]

-- ========================================================== directory lookups

/-- Directory lookups: in a directory that has been loaded, a lookup
finds every live entry by its name, and nothing else, if and only if the
following holds of the number of live entries that the scan from where
the directory starts meets. If the cluster lookups for as many entries of
the directory follow the chain: no deleted entry lies before a live one,
and the number is that of the directory's live entries. If they do not:
as many entries, read from where these lookups lead, are the live entries
in some order. -/
theorem dir_lookup_exact {vol : Volume} {D : Directory} {place : DirPlace}
    {dir : FatDir} (h : Loaded vol D place dir) :
    LooksUp vol D dir ↔
      ∃ n, LiveOnDisk vol.disk (place.start vol) n
        ∧ (place.Followed vol D n → Packed D.Live ∧ n = D.liveCount)
        ∧ (¬ place.Followed vol D n →
          ((List.range n).map (place.readEntry vol)).Perm D.liveEntries) := by
  obtain ⟨n, htotal, hlive, hlen, htake, hitems⟩ := h.items_eq
  have hn : dir.total.toNat = n := by rw [htotal, Int.toNat_natCast]
  rw [← hn] at hlen htake hlive hitems
  have hpacked : place.Followed vol D dir.total.toNat →
      (LooksUp vol D dir
        ↔ Packed D.Live ∧ dir.total.toNat = D.liveCount) := fun hfollowed => by
    rw [looksUp_iff (hitems hfollowed)]
    exact packed_iff fun _ hi => hi.1
  have hread : LooksUp vol D dir
      ↔ ((List.range dir.total.toNat).map (place.readEntry vol)).Perm
        D.liveEntries := by
    rw [← htake]
    exact looksUp_iff_perm hlen
  constructor
  · intro hright
    exact ⟨_, hlive, fun hfollowed => (hpacked hfollowed).mp hright,
      fun _ => hread.mp hright⟩
  · rintro ⟨m, hm, hown, hother⟩
    obtain rfl := hlive.unique hm
    by_cases hfollowed : place.Followed vol D dir.total.toNat
    · exact (hpacked hfollowed).mpr (hown hfollowed)
    · exact hread.mpr (hother hfollowed)

/-- In the root directory being packed is enough. -/
theorem dir_lookup_root {vol : Volume} {D : Directory} {dir : FatDir}
    (hload : Loaded vol D .root dir) (hplace : InRootDir vol.disk vol.header D) :
    LooksUp vol D dir ↔ Packed D.Live := by
  obtain ⟨n, htotal, hlive, -, -, hitems⟩ := hload.items_eq
  have hn : dir.total.toNat = n := by rw [htotal, Int.toNat_natCast]
  rw [← hn] at hlive hitems
  rw [looksUp_iff (hitems trivial), packed_iff fun _ hi => hi.1]
  exact and_iff_left (hlive.unique (Directory.liveOnDisk hplace.entry_eq.2))

/-- A volume whose root directory, in sector 2, has a deleted entry and
then one with the name "B". -/
def oneDeleted : Volume where
  disk := fun lba i =>
    if lba = 2#32 then
      if i = 0 then 0xE5 else if i = 32 then 0x42 else 0
    else 0
  header :=
    { sectorsPerCluster := 1, reservedSectors := 1, fatCopies := 1
      rootDirEntries := 16, sectorsPerFat := 1 }
  rootDir := { items := [], total := 0, sectorPos := 2, endingSectorPos := 3 }

/-- Its root directory. -/
def oneDeletedDir : Directory where
  entry := fun j => entryAt oneDeleted.disk (1024 + sizeofFatDirItem * (j : Nat))
  last := 2
  ends := by decide
  before := by decide
  distinct := by
    have honly : ∀ i < 2, ¬ (entryAt oneDeleted.disk
        (1024 + sizeofFatDirItem * (i : Nat))).Deleted → i = 1 := by decide
    intro i hi j hj hlive hlive' _ _ _
    rw [honly i hi hlive, honly j hj hlive']
  named := by decide

theorem oneDeleted_loads : ∃ dir, dir.total = 1
    ∧ Loaded oneDeleted oneDeletedDir .root dir := by
  have hload : (fat16GetRootDir plenty oneDeleted.disk oneDeleted.header
      ()).map (fun r => (r.1, r.2.1.map FatDir.total)) = some (0, some 1) := by
    decide +kernel
  obtain ⟨⟨res, dir, s⟩, hdir, hres⟩ := Option.map_eq_some_iff.mp hload
  simp only [Prod.mk.injEq, Option.map_eq_some_iff] at hres
  obtain ⟨rfl, dir, rfl, htotal⟩ := hres
  refine ⟨dir, htotal, ?_⟩
  exact @Loaded.root oneDeleted _ _ _ _ _ _ hdir
    ⟨fun _ _ => rfl, by decide, by decide⟩

/-- A volume with a directory of sixteen entries, "A" to "P", that fill
cluster 2; what ends it is in cluster 3. -/
def sixteenEntries : Volume where
  disk := fun lba i =>
    if lba = 1#32 then
      if i = 4 then 0x03 else if i = 6 ∨ i = 7 then 0xFF else 0
    else if lba = 3#32 then
      if i % 32 = 0 then 0x41 + UInt8.ofNat (i / 32) else 0
    else 0
  header := oneDeleted.header
  rootDir := oneDeleted.rootDir

/-- The entry of the directory. -/
def sixteenEntriesItem : FatDirItem :=
  { FatDirItem.ofBytes [] with
    attributes := fatFileSubdirectory, low16BitsFirstCluster := 2 }

/-- The name of one of its entries starts with the entry's letter. -/
theorem sixteenEntries_letter {i : Nat} (hi : i < 16) {name : List UInt8}
    (h : nameMatches (entryAt sixteenEntries.disk
      (1536 + sizeofFatDirItem * (i : Nat))) name = true) :
    tolower (name.headD 0) = 0x61 + UInt8.ofNat i := by
  have hletter : ∀ i < 16,
      tolower ((fat16GetFullRelativeFilename (entryAt sixteenEntries.disk
        (1536 + sizeofFatDirItem * (i : Nat)))).headD 0)
        = 0x61 + UInt8.ofNat i := by decide +kernel
  rw [← hletter i hi]
  by_contra hne
  exact @istrncmp_first _ _ (benosMaxPath - 1) (fun heq => hne heq.symm)
    (beq_iff_eq.mp h)

/-- The directory. -/
def sixteenEntriesDir : Directory where
  entry := fun j =>
    entryAt sixteenEntries.disk (1536 + sizeofFatDirItem * (j : Nat))
  last := 16
  ends := by decide +kernel
  before := by decide +kernel
  distinct := by
    intro i hi j hj _ _ name hname hname'
    have hletter := sixteenEntries_letter hi hname
    rw [sixteenEntries_letter hj hname'] at hletter
    have hsame : ∀ i < 16, ∀ j < 16,
        (0x61 : UInt8) + UInt8.ofNat j = 0x61 + UInt8.ofNat i → i = j := by
      decide
    exact hsame i hi j hj hletter
  named := by decide +kernel

/-- A directory has been loaded. -/
def DirPtr.isLive : DirPtr → Bool
  | .live .. => true
  | .null => false
  | .freed _ => false

theorem sixteenEntries_loads :
    ∃ dir, Loaded sixteenEntries sixteenEntriesDir (.chain 2) dir := by
  have hload : (fat16LoadFatDir plenty sixteenEntries sixteenEntriesItem
      ()).any (fun r => r.1.isLive) = true := by decide +kernel
  have hplace : InChain sixteenEntries 2 sixteenEntriesDir := by
    have hwalk : walk (dataNext sixteenEntries) 1 2 = some 3 := by
      decide +kernel
    intro j hj
    rcases Nat.lt_or_ge j 16 with hlt | hge
    · have hdiv : sizeofFatDirItem * j / sixteenEntries.clusterBytes = 0 :=
        Nat.div_eq_of_lt (show 32 * j < 512 by omega)
      have hmod : sizeofFatDirItem * j % sixteenEntries.clusterBytes
          = sizeofFatDirItem * j :=
        Nat.mod_eq_of_lt (show 32 * j < 512 by omega)
      refine ⟨2, by rw [hdiv, walk_zero], by decide, by decide, ?_⟩
      rw [hmod]
      rfl
    · obtain rfl : j = 16 := Nat.le_antisymm hj hge
      exact ⟨3, hwalk, by decide, by decide, rfl⟩
  cases hcase : fat16LoadFatDir plenty sixteenEntries sixteenEntriesItem () with
  | none =>
      rw [hcase] at hload
      cases hload
  | some r =>
      obtain ⟨ptr, s⟩ := r
      cases ptr with
      | null =>
          rw [hcase] at hload
          cases hload
      | freed addr =>
          rw [hcase] at hload
          cases hload
      | live addr items dir => exact ⟨dir, Loaded.sub hcase hplace⟩

/-- The entries behind a deleted one, and a directory that fills its first
cluster: there the lookups are right, and the cluster of the end mark is
never looked up. -/
theorem dir_lookup_exact_two_clusters :
    (∃ dir, Loaded oneDeleted oneDeletedDir .root dir
      ∧ ¬ LooksUp oneDeleted oneDeletedDir dir)
    ∧ ∃ dir, Loaded sixteenEntries sixteenEntriesDir (.chain 2) dir
      ∧ LooksUp sixteenEntries sixteenEntriesDir dir := by
  constructor
  · obtain ⟨dir, -, h⟩ := oneDeleted_loads
    refine ⟨dir, h, fun hright => ?_⟩
    obtain ⟨n, -, hpacked, -⟩ := (dir_lookup_exact h).mp hright
    have hlive : oneDeletedDir.Live 1 := ⟨by decide, by decide⟩
    exact absurd ((hpacked trivial).1 0 1 (by decide) hlive).2 (by decide)
  · obtain ⟨dir, h⟩ := sixteenEntries_loads
    have hlive : ∀ i < 16, sixteenEntriesDir.Live i := by decide +kernel
    have hcount : sixteenEntriesDir.liveCount = 16 := by
      unfold Directory.liveCount
      exact Nat.count_iff_forall.mpr hlive
    have hscan : ∀ j ≤ sixteenEntriesDir.last, sixteenEntriesDir.entry j
        = scanned sixteenEntries.disk 1536 j := by
      intro j hj
      have hj : j ≤ 16 := hj
      unfold scanned
      rw [toInt32_of_range (by simp only [sizeofFatDirItem]; omega)
        (by simp only [sizeofFatDirItem]; omega)]
      rfl
    have hondisk := Directory.liveOnDisk hscan
    rw [hcount] at hondisk
    refine ⟨dir, h, (dir_lookup_exact h).mpr ⟨16, hondisk,
      fun _ => ⟨fun i j hij hj => hlive i ?_, hcount.symm⟩, fun hnot => ?_⟩⟩
    · exact hij.trans hj.1
    · -- the sixteen entries are looked up in the first cluster
      have hlookup : ∀ j < 16, fat16GetClusterForOffset sixteenEntries 2
          (sizeofFatDirItem * j : Nat) = some 2 := by decide +kernel
      have hindex : ∀ j < 16, (((sizeofFatDirItem * j : Nat) : Int)
          / sixteenEntries.sizeOfClusterBytes).toNat = 0 := by decide
      refine absurd (fun j hj _ => ⟨fun x hx => ?_, fun i hi => ?_⟩) hnot
      · rw [hindex j hj, walk_zero] at hx
        rw [hlookup j hj, Option.some.inj hx]
      · rw [hindex j hj] at hi
        exact absurd hi (Nat.not_lt_zero i)

/-- The entry behind the deleted one is not found. -/
theorem dir_lookup_misses_entry :
    ¬ ∀ (vol : Volume) (D : Directory) (place : DirPlace) (dir : FatDir),
      Loaded vol D place dir → LooksUp vol D dir := by
  intro hall
  obtain ⟨dir, htotal, h⟩ := oneDeleted_loads
  have hlookup := ((hall _ _ _ _ h).found [0x42] 1 ⟨by decide, by decide⟩
    (by decide)).2 plenty ()
  obtain ⟨n, hn, -, hlen, htake, -⟩ := h.items_eq
  obtain rfl : n = 1 := Int.ofNat_inj.mp (hn.symm.trans htotal)
  -- only the deleted entry is compared
  have hnone : dir.answering [0x42] = [] := by
    unfold FatDir.answering
    rw [htotal, show Int.toNat 1 = 1 from rfl, htake]
    decide
  rw [fat16FindItemInDir_none plenty oneDeleted [0x42]
    (by rw [htotal]; exact hlen) hnone] at hlookup
  exact fat16NewFatItemForDirItem_ne_null oneDeleted plenty_answers _ () ()
    hlookup.symm

end BenOS.Fat
