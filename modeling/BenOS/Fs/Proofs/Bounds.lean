/-
Reading against the size of a file: how many items `fread` says it read,
and from which places of the disk it took them.

The code is run over an image whose cells are their own places
(`places`), so that what a read delivers is where it came from. A read is
in bounds (`ReadsInFile`) when it counts the whole items the file has
from the position on, delivers just those, and takes every byte from a
place of the file.

`fat16_read` never looks at the size of the file: it delivers every item
asked for or fails. So a read is in bounds exactly when it is asked for
no more than the file has, every byte is served, and the bytes that run
over the end of a cluster come from the file all the same
(`fread_in_file_exact`).
-/
import BenOS.Fat.Proofs.Read
import BenOS.Fs.Proofs.Position

namespace BenOS.Fs

open Lib Disk Fat

variable {β : Type} {vol : Volume}

-- ======================================================= what is required

/-- A place of the disk: a block and a byte of it. -/
abbrev Place := BitVec 32 × Nat

/-- The disk whose cells are their own places. -/
def places : Image Place := fun lba i => (lba, i)

/-- A place that holds one of the bytes the directory entry says the file
has, in the cluster assigned to it. -/
def FilePlace (vol : Volume) (item : FatDirItem) (p : Place) : Prop :=
  ∃ j : Nat, j < item.fileSize.toNat ∧ j < 2147483648
    ∧ (∃ cl, 0 ≤ cl ∧ fat16GetClusterForOffset vol
        (fat16GetFirstCluster item) j = some cl)
    ∧ p = cellAt places (assignedPos vol (fat16GetFirstCluster item) j)

/-- The whole items of a size that a file has from a position on, at most
as many as are asked for. -/
def wholeItems (item : FatDirItem) (pos size nmemb : UInt32) : Nat :=
  min nmemb.toNat ((item.fileSize.toNat - pos.toNat) / size.toNat)

/-- The read counts the whole items that lie in the file, delivers as
many, and takes every byte from the file. -/
def ReadsInFile (vol : Volume) (table : FileDescriptors) (fd : Int)
    (item : FatDirItem) (pos size nmemb : UInt32) : Prop :=
  ∃ r, fread vol places table size nmemb fd = some r
    ∧ r.res = wholeItems item pos size nmemb
    ∧ r.out.length = wholeItems item pos size nmemb * size.toNat
    ∧ ∀ p ∈ r.out, FilePlace vol item p

/-- All the items asked for are counted where they lie in the file. -/
theorem wholeItems_eq_iff {item : FatDirItem} {pos size nmemb : UInt32}
    (hsize : 0 < size.toNat) :
    wholeItems item pos size nmemb = nmemb.toNat
      ↔ size.toNat * nmemb.toNat ≤ item.fileSize.toNat - pos.toNat := by
  unfold wholeItems
  rw [min_eq_left_iff, Nat.le_div_iff_mul_le hsize, Nat.mul_comm]

/-- A request for nothing is refused. -/
theorem ReadsInFile.asks {vol : Volume} {table : FileDescriptors} {fd : Int}
    {item : FatDirItem} {pos size nmemb : UInt32}
    (h : ReadsInFile vol table fd item pos size nmemb) :
    0 < size.toNat ∧ 0 < nmemb.toNat := by
  obtain ⟨r, hr, hres, -⟩ := h
  by_contra hzero
  have hzero' : size = 0 ∨ nmemb = 0 := by
    rw [← UInt32.toNat_inj, ← UInt32.toNat_inj (b := 0)]
    simp only [UInt32.toNat_zero]
    omega
  unfold fread at hr
  rw [if_pos hzero'] at hr
  injection hr with hr
  rw [← hr] at hres
  simp only [einvarg] at hres
  omega

-- ==================================================== what the places stand for

/-- The loop of `fat16_read` looks at no cell it delivers. -/
theorem fat16ReadLoop_map {γ : Type} (f : β → γ) (image : Image β)
    (item : FatDirItem) (size nmemb : UInt32) :
    ∀ (k : Nat) (offset : Int),
      fat16ReadLoop vol (image.map f) item size nmemb k offset
        = (fat16ReadLoop vol image item size nmemb k offset).map
            (FatRead.map f) := by
  intro k
  induction k with
  | zero => intro _; rfl
  | succ k ih =>
      intro offset
      rw [fat16ReadLoop, fat16ReadLoop, fat16ReadInternal_map]
      cases fat16ReadInternal vol image _ offset _ with
      | none => rfl
      | some r =>
          simp only [Option.map_some, Option.bind_eq_bind, Option.bind_some,
            ih]
          by_cases hneg : r.res < 0
          · simp [FatRead.map, hneg]
          · simp only [FatRead.map, hneg, if_false]
            cases fat16ReadLoop vol image item size nmemb k _ with
            | none => rfl
            | some rest => simp [FatRead.map]

/-- What `fread` delivers from a disk is what the disk has at the places
it delivers from the disk of places. -/
theorem fread_places (image : Image β) (table : FileDescriptors)
    (size nmemb : UInt32) (fd : Int) :
    fread vol image table size nmemb fd
      = (fread vol places table size nmemb fd).map
          (FatRead.map fun p => image p.1 p.2) := by
  have himage : image = places.map fun p => image p.1 p.2 := rfl
  unfold fread
  split
  · rfl
  · cases fileGetDescriptor table fd with
    | none => rfl
    | some desc =>
        simp only [fat16Read]
        cases desc.dirItem with
        | none => rfl
        | some item =>
            simp only [Option.bind_eq_bind, Option.bind_some]
            conv_lhs => rw [himage]
            exact fat16ReadLoop_map _ places item size nmemb _ _

-- ==================================================================== the items

/-- The offset of an item of a read. -/
def itemOffset (offset : Int) (size : UInt32) (k : Nat) : Int :=
  toInt32 (offset + (k * size.toNat : Nat))

/-- The request asks for something, in numbers an `int` holds, and for no
more than the file has; every item is served; and a byte whose piece has
run over the end of its cluster, or lies past the positions of a stream,
comes from the file all the same. -/
structure AsksInside (vol : Volume) (item : FatDirItem)
    (pos size nmemb : UInt32) : Prop where
  asked : 0 < size.toNat ∧ 0 < nmemb.toNat
  counted : size.toNat < 2147483648 ∧ nmemb.toNat < 2147483648
  inside : pos.toNat + size.toNat * nmemb.toNat ≤ item.fileSize.toNat
  served : ∀ k < nmemb.toNat, AllServed vol (fat16GetFirstCluster item)
    (itemOffset pos.toNat size k) size.toNat
  taken : ∀ k < nmemb.toNat, ∀ j < size.toNat,
    (pos.toNat + k * size.toNat + j < 2147483648
      ∧ InPlace vol (fat16GetFirstCluster item)
        (itemOffset pos.toNat size k) j)
    ∨ ∃ p, servedPos vol (fat16GetFirstCluster item)
        (itemOffset pos.toNat size k) j = some p
      ∧ FilePlace vol item (cellAt places p)

/-- The items behind the first. -/
theorem itemOffset_succ (offset : Int) (size : UInt32) (k : Nat) :
    itemOffset (toInt32 (offset + size.toNat)) size k
      = itemOffset offset size (k + 1) := by
  unfold itemOffset
  rw [toInt32_add_left, Nat.succ_mul]
  congr 1
  omega

theorem itemOffset_zero {offset : Int} (hoff : toInt32 offset = offset)
    (size : UInt32) : itemOffset offset size 0 = offset := by
  unfold itemOffset
  simpa using hoff

/-- A read of a negative number of bytes delivers none. -/
theorem readInternal_neg (image : Image β) {cluster offset total : Int}
    (hneg : total < 0) (hge : -2147483648 ≤ total) {r : FatRead β}
    (h : fat16ReadInternal vol image cluster offset total = some r) :
    r.res < 0 ∨ r.out = [] := by
  unfold fat16ReadInternal at h
  rw [fat16ReadInternalFromStream] at h
  split at h
  · cases h
  · split at h
    · next hcl =>
        injection h with h
        rw [← h]
        exact .inl hcl
    · have hsize : ¬ total > vol.sizeOfClusterBytes := by
        rw [sizeOfClusterBytes_eq]
        omega
      simp only [if_neg hsize] at h
      rcases diskstreamerRead_nonpos image (fat16StartingPos vol _ offset)
        hge hneg.le with hnone | hsome
      · rw [hnone] at h
        cases h
      · rw [hsome] at h
        simp only [ne_eq, not_true_eq_false, if_false, sub_self,
          gt_iff_lt, lt_irrefl, Option.some.injEq] at h
        rw [← h]
        exact .inr rfl

/-- The loop over items whose size is no `int` delivers nothing, if it
succeeds. -/
theorem readLoop_neg (image : Image β) (item : FatDirItem)
    {size nmemb : UInt32} (hsize : 2147483648 ≤ size.toNat) :
    ∀ (k : Nat) (offset : Int) (r : FatRead β),
      fat16ReadLoop vol image item size nmemb k offset = some r →
      0 ≤ r.res → r = { res := toInt32 nmemb.toNat, out := [] } := by
  have hlt := size.toNat_lt
  intro k
  induction k with
  | zero =>
      intro offset r h _
      rw [fat16ReadLoop] at h
      exact (Option.some.inj h).symm
  | succ k ih =>
      intro offset r h hres
      rw [fat16ReadLoop] at h
      obtain ⟨r₀, hr₀, h⟩ := Option.bind_eq_some_iff.mp h
      split at h
      · next hneg =>
          injection h with h
          rw [h] at hneg
          omega
      · next hnonneg =>
          obtain ⟨rest, hrest, h⟩ := Option.bind_eq_some_iff.mp h
          injection h with h
          rw [← h] at hres ⊢
          rcases readInternal_neg image (by unfold toInt32; omega)
            (toInt32_ge _) hr₀ with hneg | hnil
          · exact absurd hneg hnonneg
          · rw [ih _ _ hrest hres, hnil]
            rfl

/-- The loop over the items of a read: where every item is served it
delivers them all, and otherwise it fails. -/
theorem readLoop_items (image : Image β) (item : FatDirItem)
    {size : UInt32} (nmemb : UInt32) (hpos : 0 < size.toNat)
    (hint : size.toNat < 2147483648) :
    ∀ (k : Nat) (offset : Int), toInt32 offset = offset →
      ((∀ i < k, AllServed vol (fat16GetFirstCluster item)
          (itemOffset offset size i) size.toNat) →
        fat16ReadLoop vol image item size nmemb k offset
          = some
            { res := toInt32 nmemb.toNat
              out := (List.range k).flatMap fun i =>
                servedCells vol image (fat16GetFirstCluster item)
                  (itemOffset offset size i) size.toNat })
        ∧ ((∃ i < k, ¬ AllServed vol (fat16GetFirstCluster item)
            (itemOffset offset size i) size.toNat) →
          Fails (fat16ReadLoop vol image item size nmemb k offset)) := by
  have hlen : toInt32 size.toNat = ((size.toNat : Nat) : Int) :=
    toInt32_of_range (by omega) (by omega)
  intro k
  induction k with
  | zero =>
      intro offset _
      exact ⟨fun _ => rfl, fun ⟨i, hi, _⟩ => absurd hi (Nat.not_lt_zero i)⟩
  | succ k ih =>
      intro offset hoff
      obtain ⟨hall, hfail⟩ := ih (toInt32 (offset + size.toNat))
        (toInt32_toInt32 _)
      simp only [itemOffset_succ] at hall hfail
      rw [fat16ReadLoop, hlen]
      by_cases hfirst : AllServed vol (fat16GetFirstCluster item) offset
          size.toNat
      · rw [readInternal_served image hpos hoff hfirst]
        simp only [Option.bind_eq_bind, Option.bind_some, lt_irrefl, if_false]
        constructor
        · intro hitems
          rw [hall fun i hi => hitems (i + 1) (by omega)]
          simp only [Option.bind_some, Option.some.injEq, FatRead.mk.injEq,
            true_and]
          rw [List.range_succ_eq_map, List.flatMap_cons, List.flatMap_map,
            itemOffset_zero hoff]
        · intro h r hr
          obtain ⟨i, hi, hnot⟩ := h
          obtain ⟨i, rfl⟩ : ∃ i', i = i' + 1 := by
            refine ⟨i - 1, ?_⟩
            rcases Nat.eq_zero_or_pos i with rfl | hpos
            · rw [itemOffset_zero hoff] at hnot
              exact absurd hfirst hnot
            · omega
          obtain ⟨rest, hrest, hr⟩ := Option.bind_eq_some_iff.mp hr
          injection hr with hr
          rw [← hr]
          exact hfail ⟨i, by omega, hnot⟩ rest hrest
      · have hnot := readInternal_fails image hpos hoff hfirst
        constructor
        · intro hitems
          have h0 := hitems 0 (Nat.succ_pos k)
          rw [itemOffset_zero hoff] at h0
          exact absurd h0 hfirst
        · rintro - r hr
          obtain ⟨r₀, hr₀, hr⟩ := Option.bind_eq_some_iff.mp hr
          rw [if_pos (hnot r₀ hr₀)] at hr
          injection hr with hr
          rw [← hr]
          exact hnot r₀ hr₀

/-- A read of one item writes no more than its size, and nothing where
the size is no `int`. -/
theorem fread_one_length (image : Image β) {table : FileDescriptors}
    {size : UInt32} {fd : Int} {r : FatRead β}
    (h : fread vol image table size 1 fd = some r) :
    r.out.length ≤ (toInt32 size.toNat).toNat := by
  unfold fread at h
  split at h
  · rw [← Option.some.inj h]
    exact Nat.zero_le _
  · split at h
    · rw [← Option.some.inj h]
      exact Nat.zero_le _
    · unfold fat16Read at h
      obtain ⟨item, -, h⟩ := Option.bind_eq_some_iff.mp h
      rw [show (1 : UInt32).toNat = 1 from rfl, fat16ReadLoop] at h
      obtain ⟨r₀, hr₀, h⟩ := Option.bind_eq_some_iff.mp h
      have hlen := readInternal_length image (toInt32_ge _) hr₀
      split at h
      · rw [← Option.some.inj h]
        exact hlen
      · obtain ⟨rest, hrest, h⟩ := Option.bind_eq_some_iff.mp h
        rw [fat16ReadLoop] at hrest
        rw [← Option.some.inj h, ← Option.some.inj hrest]
        simpa using hlen

-- ============================================================ reads in bounds

/-- A call with something to read, on a file. -/
theorem fread_eq (image : Image β) {table : FileDescriptors} {fd : Int}
    {desc : FatFileDescriptor} {item : FatDirItem}
    (hopen : fileGetDescriptor table fd = some desc)
    (hitem : desc.dirItem = some item) {size nmemb : UInt32}
    (hsize : 0 < size.toNat) (hnmemb : 0 < nmemb.toNat) :
    fread vol image table size nmemb fd
      = fat16ReadLoop vol image item size nmemb nmemb.toNat
          (toInt32 desc.pos.toNat) := by
  have hne : ¬ (size = 0 ∨ nmemb = 0) := by
    rintro (rfl | rfl)
    · exact absurd hsize (by decide)
    · exact absurd hnmemb (by decide)
  unfold fread
  rw [if_neg hne, hopen]
  simp only [fat16Read, hitem, Option.bind_eq_bind, Option.bind_some]

/-- The offsets of the items, from the position. -/
theorem itemOffset_toInt32 (pos : Nat) (size : UInt32) (k : Nat) :
    itemOffset (toInt32 pos) size k = itemOffset pos size k := by
  unfold itemOffset
  rw [toInt32_add_left]

/-- The cells of a read, item by item. -/
theorem mem_items {image : Image β} {c : Int} {off : Nat → Int} {n total : Nat}
    {x : β} :
    (x ∈ (List.range n).flatMap fun k => servedCells vol image c (off k) total)
      ↔ ∃ k < n, ∃ j < total,
        cellAt image ((servedPos vol c (off k) j).getD 0) = x := by
  simp only [List.mem_flatMap, List.mem_range, servedCells, List.mem_map]

/-- As many cells as there are items of the size. -/
theorem length_items (image : Image β) (c : Int) (off : Nat → Int)
    (n total : Nat) :
    ((List.range n).flatMap fun k =>
      servedCells vol image c (off k) total).length = n * total := by
  simp [List.length_flatMap, servedCells]

/-- A byte of item `k` lies before the end of the last item. -/
theorem item_byte_lt {k n j size : Nat} (hk : k < n) (hj : j < size) :
    k * size + j < size * n := by
  have hle : (k + 1) * size ≤ n * size := Nat.mul_le_mul_right size hk
  rw [Nat.succ_mul, Nat.mul_comm n] at hle
  omega

/-- A request inside the file is read in bounds. -/
theorem AsksInside.readsInFile {table : FileDescriptors} {fd : Int}
    {desc : FatFileDescriptor} {item : FatDirItem} {size nmemb : UInt32}
    (h : AsksInside vol item desc.pos size nmemb)
    (hopen : fileGetDescriptor table fd = some desc)
    (hitem : desc.dirItem = some item) :
    ReadsInFile vol table fd item desc.pos size nmemb := by
  obtain ⟨⟨hsize, hnmemb⟩, ⟨hsint, hnint⟩, hinside, hserved, htaken⟩ := h
  have hwhole : wholeItems item desc.pos size nmemb = nmemb.toNat :=
    (wholeItems_eq_iff hsize).mpr (by omega)
  have hread := (readLoop_items places item nmemb hsize hsint
    nmemb.toNat (toInt32 desc.pos.toNat) (toInt32_toInt32 _)).1
    fun i hi => by
      rw [itemOffset_toInt32]
      exact hserved i hi
  rw [toInt32_of_range (x := nmemb.toNat) (by omega) (by omega)] at hread
  refine ⟨_, (fread_eq places hopen hitem hsize hnmemb).trans hread,
    by rw [hwhole], by rw [hwhole, length_items], ?_⟩
  intro p hp
  obtain ⟨k, hk, j, hj, rfl⟩ := mem_items.mp hp
  rw [itemOffset_toInt32]
  rcases htaken k hk j hj with ⟨hlow, hplace⟩ | ⟨q, hq, hfile⟩
  · have hoff : itemOffset desc.pos.toNat size k
        = (desc.pos.toNat + k * size.toNat : Nat) := by
      unfold itemOffset
      rw [toInt32_of_range (by omega) (by omega)]
      omega
    obtain ⟨q, hq⟩ := hserved k hk j hj
    rw [hoff] at hplace hq ⊢
    have hlook := hplace.lookup (by omega) (by omega) hq
    rw [hplace.servedPos_eq (by omega) (by omega) hlook, Option.getD_some]
    have hbyte := item_byte_lt hk hj
    exact ⟨desc.pos.toNat + k * size.toNat + j, by omega, hlow,
      by exact_mod_cast hlook, by push_cast; rfl⟩
  · rw [hq, Option.getD_some]
    exact hfile

/-- A byte that has run over the end of its piece's cluster comes from the
file where the file goes on in the cluster behind. -/
theorem filePlace_of_runsOver {item : FatDirItem} {offset cl : Int}
    {j b : Nat} (h : RunsOver vol (fat16GetFirstCluster item) offset j cl)
    (hoff : 0 ≤ offset) (hb : offset + j = (b : Int))
    (hlow : b < 2147483648) (hfile : b < item.fileSize.toNat)
    (hnext : fat16GetClusterForOffset vol (fat16GetFirstCluster item) b
      = some (cl + 1)) :
    ∃ p, servedPos vol (fat16GetFirstCluster item) offset j = some p
      ∧ FilePlace vol item (cellAt places p) := by
  have hcl := h.cluster
  refine ⟨_, h.servedPos_eq hoff (by omega), b, hfile, hlow,
    ⟨cl + 1, by omega, hnext⟩, ?_⟩
  rw [hb]
  unfold assignedPos assignedCluster
  rw [hnext, Option.getD_some]

/-- A request for bytes that are in place, or run over into the cluster the
file goes on in, is read in bounds. -/
theorem readsInFile_of_follow {table : FileDescriptors} {fd : Int}
    {desc : FatFileDescriptor} {item : FatDirItem} {size nmemb : UInt32}
    (hopen : fileGetDescriptor table fd = some desc)
    (hitem : desc.dirItem = some item)
    (hasked : 0 < size.toNat ∧ 0 < nmemb.toNat)
    (hcounted : size.toNat < 2147483648 ∧ nmemb.toNat < 2147483648)
    (hinside : desc.pos.toNat + size.toNat * nmemb.toNat
      ≤ item.fileSize.toNat)
    (hlow : desc.pos.toNat + size.toNat * nmemb.toNat ≤ 2147483648)
    (hserved : ∀ k < nmemb.toNat, AllServed vol (fat16GetFirstCluster item)
      (itemOffset desc.pos.toNat size k) size.toNat)
    (hfollow : ∀ k < nmemb.toNat, ∀ j < size.toNat,
      InPlace vol (fat16GetFirstCluster item)
          (itemOffset desc.pos.toNat size k) j
        ∨ ∃ cl, RunsOver vol (fat16GetFirstCluster item)
            (itemOffset desc.pos.toNat size k) j cl
          ∧ fat16GetClusterForOffset vol (fat16GetFirstCluster item)
              (desc.pos.toNat + k * size.toNat + j : Nat) = some (cl + 1)) :
    ReadsInFile vol table fd item desc.pos size nmemb := by
  refine AsksInside.readsInFile
    ⟨hasked, hcounted, hinside, hserved, fun k hk j hj => ?_⟩ hopen hitem
  have hbyte := item_byte_lt hk hj
  rcases hfollow k hk j hj with hplace | ⟨cl, hover, hnext⟩
  · exact .inl ⟨by omega, hplace⟩
  · have hoff : itemOffset desc.pos.toNat size k
        = (desc.pos.toNat + k * size.toNat : Nat) := by
      unfold itemOffset
      rw [toInt32_of_range (by omega) (by omega)]
      omega
    refine .inr (filePlace_of_runsOver hover ?_ ?_ ?_ ?_ hnext)
    · rw [hoff]
      omega
    · rw [hoff]
      omega
    · omega
    · omega

/-- Reads in bounds: for any request on an open file, `fread` counts and
delivers just the whole items the file has from its position on, all of
them from places of the file, if and only if the request asks for
something, within the file, every byte of which is served and in its
place or at another of the file's. -/
theorem fread_in_file_exact (vol : Volume) (table : FileDescriptors) (fd : Int)
    (desc : FatFileDescriptor) (item : FatDirItem)
    (hopen : fileGetDescriptor table fd = some desc)
    (hitem : desc.dirItem = some item) (size nmemb : UInt32) :
    ReadsInFile vol table fd item desc.pos size nmemb ↔
      AsksInside vol item desc.pos size nmemb := by
  refine ⟨?_, fun h => h.readsInFile hopen hitem⟩
  intro h
  obtain ⟨hsize, hnmemb⟩ := h.asks
  obtain ⟨r, hr, hres, hlen, hfile⟩ := h
  have hnlt := nmemb.toNat_lt
  rw [fread_eq places hopen hitem hsize hnmemb] at hr
  have hsint : size.toNat < 2147483648 := by
    by_contra hbig
    have hnil := readLoop_neg places item (by omega) _ _ r hr (by omega)
    rw [hnil] at hres hlen
    simp only [List.length_nil] at hlen
    have hnone : wholeItems item desc.pos size nmemb = 0 := by
      rcases Nat.mul_eq_zero.mp hlen.symm with h | h
      · exact h
      · omega
    rw [hnone] at hres
    simp only [toInt32] at hres
    omega
  obtain ⟨hall, hfail⟩ := @readLoop_items _ vol places item
    size nmemb hsize hsint nmemb.toNat (toInt32 desc.pos.toNat)
    (toInt32_toInt32 _)
  simp only [itemOffset_toInt32] at hall hfail
  have hserved : ∀ k < nmemb.toNat, AllServed vol (fat16GetFirstCluster item)
      (itemOffset desc.pos.toNat size k) size.toNat := by
    intro k hk
    by_contra hnot
    have hneg := hfail ⟨k, hk, hnot⟩ r hr
    omega
  rw [hall hserved] at hr
  injection hr with hr
  subst hr
  simp only at hres hlen hfile
  have hwhole : wholeItems item desc.pos size nmemb ≤ nmemb.toNat :=
    Nat.min_le_left _ _
  have hn : nmemb.toNat < 2147483648
      ∧ nmemb.toNat = wholeItems item desc.pos size nmemb := by
    unfold toInt32 at hres
    omega
  have hinside := (wholeItems_eq_iff hsize).mp hn.2.symm
  have hpos := Nat.mul_pos hsize hnmemb
  refine ⟨⟨hsize, hnmemb⟩, ⟨hsint, hn.1⟩, by omega, hserved, ?_⟩
  intro k hk j hj
  obtain ⟨q, hq⟩ := hserved k hk j hj
  refine .inr ⟨q, hq, hfile _ (mem_items.mpr ⟨k, hk, j, hj, ?_⟩)⟩
  rw [hq, Option.getD_some]

theorem fread_in_file_exact_one_file :
    fileGetDescriptor oneOpen 1 = some oneFile
      ∧ oneFile.dirItem = some oneItem
      ∧ (ReadsInFile oneCluster oneOpen 1 oneItem oneFile.pos 1 5 ↔
        AsksInside oneCluster oneItem oneFile.pos 1 5) :=
  ⟨rfl, rfl, fread_in_file_exact oneCluster oneOpen 1 oneFile oneItem
    rfl rfl 1 5⟩

/-- Ten bytes asked of the five are all counted as read. -/
theorem fread_past_the_end :
    ¬ ∀ (vol : Volume) (table : FileDescriptors) (fd : Int)
      (desc : FatFileDescriptor) (item : FatDirItem),
      fileGetDescriptor table fd = some desc → desc.dirItem = some item →
      ∀ size nmemb : UInt32, 0 < size → 0 < nmemb →
        ReadsInFile vol table fd item desc.pos size nmemb := by
  intro hall
  obtain ⟨r, hr, hres, -⟩ := hall oneCluster oneOpen 1 oneFile oneItem
    rfl rfl 1 10 (by decide) (by decide)
  have hcount : (fread oneCluster places oneOpen 1 10 1).map FatRead.res
      = some 10 := by decide +kernel
  rw [hr, Option.map_some, hres] at hcount
  exact absurd hcount (by decide)

end BenOS.Fs
