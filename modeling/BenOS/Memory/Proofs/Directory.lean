/-
A page directory in memory, and the directory it stands for.

In memory a directory is a word at the chunk, which points to 1024
words, which point to 1024 tables. `DirOk` fixes where these are, and
`DirApart` says that no table lies over another, over the directory or
over the chunk. Then `paging_set` is an update of the entries
(`chunkSet_view`) that touches nothing outside the tables, and so are
the mapping calls over it (`pagingMapTo_view`): what is proved of them
on a `PageDir` is true of them in memory.
-/
import BenOS.Memory.Proofs.Mapping

namespace BenOS.Memory

open Lib

-- ============================================================ refinement

section Simulation

variable {σ τ : Type} {set : Addr → BitVec 32 → σ → Int × σ}
  {set' : Addr → BitVec 32 → τ → Int × τ} {R : σ → τ → Prop}

/-- Two results agree, and lead to related states. -/
def Agree (R : σ → τ → Prop) (r : Int × σ) (r' : Int × τ) : Prop :=
  r.1 = r'.1 ∧ R r.2 r'.2

variable (hset : ∀ virt val s t, R s t →
  Agree R (set virt val s) (set' virt val t))

include hset

theorem pagingMap_sim (virt phys : Addr) (flags : BitVec 32) {s : σ} {t : τ}
    (h : R s t) :
    Agree R (pagingMap set virt phys flags s)
      (pagingMap set' virt phys flags t) := by
  unfold pagingMap
  split
  · exact ⟨rfl, h⟩
  · exact hset _ _ _ _ h

theorem pagingMapRangeLoop_sim (flags : BitVec 32) (count : Nat) :
    ∀ (virt phys : Addr) (res : Int) {s : σ} {t : τ}, R s t →
      Agree R (pagingMapRangeLoop set flags count virt phys res s)
        (pagingMapRangeLoop set' flags count virt phys res t) := by
  induction count with
  | zero => intro _ _ _ _ _ h; exact ⟨rfl, h⟩
  | succ count ih =>
      intro virt phys res s t h
      obtain ⟨hres, hR⟩ := pagingMap_sim hset virt phys flags h
      unfold pagingMapRangeLoop
      simp only
      rw [hres]
      split
      · exact ⟨hres, hR⟩
      · exact ih _ _ _ hR

/-- Calls of `paging_map_to` agree where `paging_set` does. -/
theorem pagingMapTo_sim (virt phys physEnd : Addr) (flags : BitVec 32)
    {s : σ} {t : τ} (h : R s t) :
    Agree R (pagingMapTo set virt phys physEnd flags s)
      (pagingMapTo set' virt phys physEnd flags t) := by
  unfold pagingMapTo
  split
  · exact ⟨rfl, h⟩
  · split
    · exact ⟨rfl, h⟩
    · split
      · exact ⟨rfl, h⟩
      · split
        · exact ⟨rfl, h⟩
        · exact pagingMapRangeLoop_sim hset flags _ _ _ _ h

end Simulation

-- ============================================================= well-formed

/-- Where a directory has its parts. -/
structure DirParts where
  chunk : Addr
  dir : Addr
  table : Nat → Addr

/-- The words of the chunk and the directory point to those parts. -/
structure DirOk (p : DirParts) (m : Bytes) : Prop where
  dir : load32 m p.chunk = p.dir
  table : ∀ i < pagingTotalEntriesPerTable,
    tableAddress (load32 m (p.dir + BitVec.ofNat 32 (4 * i))) = p.table i

/-- No table lies over another part. -/
structure DirApart (p : DirParts) : Prop where
  tables : ∀ i < pagingTotalEntriesPerTable,
    ∀ j < pagingTotalEntriesPerTable, i ≠ j →
      SpansApart (p.table i) pagingPageSize (p.table j) pagingPageSize
  dir : ∀ i < pagingTotalEntriesPerTable,
    SpansApart (p.table i) pagingPageSize p.dir pagingPageSize
  chunk : ∀ i < pagingTotalEntriesPerTable,
    SpansApart (p.table i) pagingPageSize p.chunk 4

/-- An address lies in one of the tables. -/
def InTables (p : DirParts) (x : Addr) : Prop :=
  ∃ i < pagingTotalEntriesPerTable, InSpan (p.table i) pagingPageSize x

/-- The entries a directory in memory has. -/
def dirView (m : Bytes) (dir : Addr) : PageDir :=
  fun v => pagingGet m dir (pageAddress v)

/-- `paging_set(chunk->directory_entry, virt, val)`, in memory. -/
def chunkSet (chunk virt : Addr) (val : BitVec 32) (m : Bytes) : Int × Bytes :=
  pagingSet (load32 m chunk) virt val m

-- ================================================================== entries

/-- Where the entry of a page is kept. -/
def DirParts.entryAddress (p : DirParts) (v : BitVec 20) : Addr :=
  p.table (v.toNat / pagingTotalEntriesPerTable)
    + BitVec.ofNat 32 (4 * (v.toNat % pagingTotalEntriesPerTable))

variable {p : DirParts} {m : Bytes}

theorem pagingEntryAddress_eq (h : DirOk p m) (v : BitVec 20) :
    pagingEntryAddress m p.dir (pageAddress v) = p.entryAddress v := by
  have hv := v.isLt
  have hi : (pageAddress v).toNat / (pagingTotalEntriesPerTable * pagingPageSize)
      = v.toNat / pagingTotalEntriesPerTable := by
    rw [toNat_pageAddress, Nat.mul_comm pagingTotalEntriesPerTable,
      Nat.mul_comm v.toNat]
    exact Nat.mul_div_mul_left _ _ (by decide)
  have hj : (pageAddress v).toNat % (pagingTotalEntriesPerTable * pagingPageSize)
      / pagingPageSize = v.toNat % pagingTotalEntriesPerTable := by
    rw [toNat_pageAddress]
    simp only [pagingTotalEntriesPerTable, pagingPageSize]
    omega
  unfold pagingEntryAddress pagingGetIndexes
  simp only
  rw [hi, hj, h.table _ (by
    simp only [pagingTotalEntriesPerTable]
    omega)]
  rfl

/-- The word of an entry lies in its table. -/
theorem entryAddress_part (n : Nat) :
    (BitVec.ofNat 32 (4 * (n % pagingTotalEntriesPerTable))).toNat + 4
      ≤ pagingPageSize := by
  rw [BitVec.toNat_ofNat]
  simp only [pagingTotalEntriesPerTable, pagingPageSize]
  omega

theorem entryTable_lt (v : BitVec 20) :
    v.toNat / pagingTotalEntriesPerTable < pagingTotalEntriesPerTable := by
  have := v.isLt
  simp only [pagingTotalEntriesPerTable]
  omega

/-- The entries of different pages are different words. -/
theorem entryAddress_apart (h : DirApart p) {v w : BitVec 20} (hne : v ≠ w) :
    SpansApart (p.entryAddress v) 4 (p.entryAddress w) 4 := by
  have hne' : v.toNat ≠ w.toNat := fun heq => hne (BitVec.eq_of_toNat_eq heq)
  unfold DirParts.entryAddress
  by_cases htable : v.toNat / pagingTotalEntriesPerTable
      = w.toNat / pagingTotalEntriesPerTable
  · rw [htable]
    simp only [pagingTotalEntriesPerTable] at *
    refine spansApart_fields _ ?_ ?_ <;>
      simp only [BitVec.toNat_sub, BitVec.toNat_ofNat] <;> omega
  · exact (h.tables _ (entryTable_lt v) _ (entryTable_lt w) htable).parts
      (entryAddress_part _) (entryAddress_part _)

/-- The word of an entry lies in its page. -/
theorem dirWord_part {i : Nat} (hi : i < pagingTotalEntriesPerTable) :
    (BitVec.ofNat 32 (4 * i)).toNat + 4 ≤ pagingPageSize := by
  rw [BitVec.toNat_ofNat]
  simp only [pagingTotalEntriesPerTable, pagingPageSize] at *
  omega

-- ============================================================== paging_set

/-- A store to an entry leaves everything outside the tables alone. -/
theorem store_entry_outside (v : BitVec 20) (val : BitVec 32) {x : Addr}
    (hx : ¬ InTables p x) : store32 m (p.entryAddress v) val x = m x := by
  refine writeBytes_of_not_inSpan m _ fun hin => hx ?_
  exact ⟨_, entryTable_lt v, InSpan.of_part hin (entryAddress_part _)⟩

/-- The chunk and the directory decide where the parts are. -/
theorem DirOk.sameOn (h : DirOk p m) {m' : Bytes}
    (hchunk : SameOn p.chunk 4 m m') (hdir : SameOn p.dir pagingPageSize m m') :
    DirOk p m' := by
  refine ⟨(load32_congr hchunk).trans h.dir, fun i hi => ?_⟩
  rw [load32_congr (hdir.part (dirWord_part hi))]
  exact h.table i hi

/-- A memory that is the same outside the tables has its directory where
it was. -/
theorem DirOk.congr (h : DirOk p m) (hsep : DirApart p) {m' : Bytes}
    (hout : ∀ x, ¬ InTables p x → m' x = m x) : DirOk p m' := by
  have hchunk : SameOn p.chunk 4 m m' := fun x hx =>
    hout x fun ⟨i, hi, hin⟩ => hsep.chunk i hi x hin hx
  have hdir : SameOn p.dir pagingPageSize m m' := fun x hx =>
    hout x fun ⟨i, hi, hin⟩ => hsep.dir i hi x hin hx
  exact h.sameOn hchunk hdir

/-- The entries read after a store to one of them. -/
theorem dirView_store (h : DirOk p m) (hsep : DirApart p) (v : BitVec 20)
    (val : BitVec 32) :
    dirView (store32 m (p.entryAddress v) val) p.dir
      = Function.update (dirView m p.dir) v val := by
  have hok := h.congr hsep (fun x hx => store_entry_outside v val hx)
  funext w
  unfold dirView pagingGet
  rw [pagingEntryAddress_eq hok]
  by_cases heq : w = v
  · rw [heq, Function.update_self, load32_store32]
  · rw [Function.update_of_ne heq, pagingEntryAddress_eq h,
      load32_store32_apart m val (entryAddress_apart hsep (Ne.symm heq))]

/-- A memory whose directory stands for `d`, and which is `m₀` outside
the tables. -/
structure Views (p : DirParts) (m₀ m : Bytes) (d : PageDir) : Prop where
  ok : DirOk p m
  view : dirView m p.dir = d
  outside : ∀ x, ¬ InTables p x → m x = m₀ x

/-- `paging_set` in memory is `paging_set` on the directory it stands
for. -/
theorem chunkSet_view (hsep : DirApart p) {m₀ : Bytes} (virt : Addr)
    (val : BitVec 32) (m : Bytes) (d : PageDir) (h : Views p m₀ m d) :
    Agree (Views p m₀) (chunkSet p.chunk virt val m)
      (PageDir.set virt val d) := by
  obtain ⟨hok, hview, hout⟩ := h
  unfold chunkSet pagingSet PageDir.set
  rw [hok.dir]
  by_cases hal : pagingIsAlligned virt = true
  · have hvirt : pageAddress (pageOf virt) = virt :=
      pageAddress_pageOf (beq_iff_eq.mp hal)
    have haddr := pagingEntryAddress_eq hok (pageOf virt)
    rw [hvirt] at haddr
    rw [hal, haddr]
    refine ⟨rfl, ?_, ?_, ?_⟩
    · exact hok.congr hsep fun x hx => store_entry_outside _ val hx
    · rw [← hview]
      exact dirView_store hok hsep _ val
    · intro x hx
      exact (store_entry_outside _ val hx).trans (hout x hx)
  · rw [Bool.not_eq_true] at hal
    rw [hal]
    exact ⟨rfl, hok, hview, hout⟩

/-- `paging_map_to` in memory is `paging_map_to` on the directory it
stands for. -/
theorem pagingMapTo_view (hsep : DirApart p) (h : DirOk p m)
    (virt phys physEnd : Addr) (flags : BitVec 32) :
    Agree (Views p m) (pagingMapTo (chunkSet p.chunk) virt phys physEnd flags m)
      (pagingMapTo PageDir.set virt phys physEnd flags (dirView m p.dir)) :=
  pagingMapTo_sim (chunkSet_view hsep) virt phys physEnd flags
    ⟨h, rfl, fun _ _ => rfl⟩

end BenOS.Memory
