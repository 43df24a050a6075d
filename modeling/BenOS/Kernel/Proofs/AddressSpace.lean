/-
A fresh address space is the identity, and goes back to the heap whole.

`SpaceMade` is what `paging_new_4gb` leaves where the blocks it is given
are different pages: the directory and its tables lie in those blocks,
and the tables read as the identity with the flags. Nothing is asked of
the heap for that. A clean heap answers with different pages
(`newBlocks_pages`), and has them all marked as lent; later mapping calls
store to entries of the tables only, so `paging_free_4gb` finds the same
blocks in the directory and gives each back once.
-/
import BenOS.Kernel.AddressSpace
import BenOS.Kernel.Proofs.MapTo
import BenOS.Memory.Proofs.Lent
import Mathlib.Data.List.Nodup
import Mathlib.Data.Finset.Card
import Mathlib.Data.Finset.Range

namespace BenOS.Kernel

open Lib Memory Loader

variable {r r' : Ram} {dir entry flags : Addr}

-- ========================================================= the running offset

theorem ofInt_toInt32 (x : Int) :
    BitVec.ofInt 32 (toInt32 x) = BitVec.ofInt 32 x := by
  apply BitVec.eq_of_toNat_eq
  simp only [BitVec.toNat_ofInt]
  unfold toInt32
  omega

/-- The inner loop fills the table alike from the `int` and from the word
it is. -/
theorem fillTableInt_eq (entry flags : Addr) {offset : Int} {word : Addr}
    (h : BitVec.ofInt 32 offset = word) (m : Bytes) (n : Nat) :
    fillTableInt entry offset flags n m = fillTable entry word flags n m := by
  induction n with
  | zero => rfl
  | succ n ih =>
      have hword : BitVec.ofInt 32 (toInt32 (offset + n * pagingPageSize))
          = word + BitVec.ofNat 32 (n * pagingPageSize) := by
        rw [ofInt_toInt32, BitVec.ofInt_add, h, ← Nat.cast_mul,
          BitVec.ofInt_natCast]
      rw [fillTableInt, fillTable, ih, hword]

/-- After some rounds the offset is where the next table starts, round
the end of the `int`s. -/
theorem newTablesInt_eq (dir flags : Addr) (r : Ram) (n : Nat) :
    newTablesInt dir flags n r
      = (newTables dir flags n r).map fun r' =>
          (toInt32 ((n * tableBytes : Nat) : Int), r') := by
  induction n with
  | zero =>
      rw [Nat.zero_mul]
      rfl
  | succ n ih =>
      rw [newTablesInt, newTables, ih]
      cases newTables dir flags n r with
      | none => rfl
      | some r₁ =>
          have hword : BitVec.ofInt 32 (toInt32 ((n * tableBytes : Nat) : Int))
              = BitVec.ofNat 32 (n * tableBytes) := by
            rw [ofInt_toInt32, BitVec.ofInt_natCast]
          have hnext : toInt32 (toInt32 ((n * tableBytes : Nat) : Int)
                + pagingTotalEntriesPerTable * pagingPageSize)
              = toInt32 (((n + 1) * tableBytes : Nat) : Int) := by
            rw [toInt32_add_left, Nat.succ_mul, Int.natCast_add]
            rfl
          simp only [Option.map_some, Option.bind_eq_bind, Option.bind_some]
          unfold newTable
          simp only
          rw [fillTableInt_eq _ _ hword, hnext]
          split
          · rfl
          · rfl

/-- The flags of an entry are below the address of its page. -/
theorem flagsWord_lt (flags : UInt8) :
    (flags.toBitVec.setWidth 32 : Addr).toNat < 2 ^ 12 := by
  rw [BitVec.toNat_setWidth]
  have := flags.toBitVec.isLt
  omega

/-- `paging_new_4gb` is the same with the offset as an `int`. -/
theorem pagingNew4gbInt_eq (flags : UInt8) (r : Ram) :
    pagingNew4gbInt flags r
      = pagingNew4gb (flags.toBitVec.setWidth 32) r := by
  unfold pagingNew4gbInt pagingNew4gb
  simp only [newTablesInt_eq]
  split
  · rfl
  · cases newTables (kzalloc (4 * pagingTotalEntriesPerTable) r).1
      (flags.toBitVec.setWidth 32) pagingTotalEntriesPerTable
      (kzalloc (4 * pagingTotalEntriesPerTable) r).2 with
    | none => rfl
    | some r₁ => rfl

-- ==================================================================== a table

/-- Different pages share no byte. -/
theorem pages_spansApart {a b : Addr} (ha : a.toNat % pagingPageSize = 0)
    (hb : b.toNat % pagingPageSize = 0) (hne : a ≠ b) :
    SpansApart a pagingPageSize b pagingPageSize := by
  have hne' : a.toNat ≠ b.toNat := fun h => hne (BitVec.eq_of_toNat_eq h)
  have := a.isLt
  have := b.isLt
  simp only [pagingPageSize] at *
  apply spansApart_of_dist
  · rw [BitVec.toNat_sub]
    omega
  · rw [BitVec.toNat_sub]
    omega

-- ==================================================================== the loop

/-- The block round `i` is given, in a loop that starts with `r`. -/
def roundBlock (dir flags : Addr) (r : Ram) (i : Nat) : Addr :=
  (newTables dir flags i r).elim 0#32 fun r =>
    (kzalloc (4 * pagingTotalEntriesPerTable) r).1

theorem roundBlock_eq {n : Nat} {r₁ : Ram}
    (h : newTables dir flags n r = some r₁) :
    roundBlock dir flags r n
      = (kzalloc (4 * pagingTotalEntriesPerTable) r₁).1 := by
  unfold roundBlock
  rw [h]
  rfl

/-- The chunk is given the block behind those of the loop. -/
theorem chunkBlock_eq {r₁ : Ram}
    (h : newTables (kzalloc (4 * pagingTotalEntriesPerTable) r).1 flags
      pagingTotalEntriesPerTable
      (kzalloc (4 * pagingTotalEntriesPerTable) r).2 = some r₁) :
    chunkBlock flags r = (kzalloc sizeofChunk r₁).1 := by
  unfold chunkBlock dirBlock
  rw [h]
  rfl

/-- After `n` rounds: the first entries name the blocks of the rounds,
and those read as the identity. -/
def RoundsMade (dir flags : Addr) (r : Ram) (n : Nat) (m : Bytes) : Prop :=
  ∀ i < n, tableAt m dir i = roundBlock dir flags r i
    ∧ Filled m (roundBlock dir flags r i) flags i

theorem roundsMade_step (hflags : flags.toNat < 2 ^ 12)
    (hdir : dir.toNat % pagingPageSize = 0) {n : Nat}
    (hn : n < pagingTotalEntriesPerTable)
    (hpages : ∀ i < n + 1,
      (roundBlock dir flags r i).toNat % pagingPageSize = 0
        ∧ roundBlock dir flags r i ≠ dir)
    (hdistinct : ∀ i < n + 1, ∀ j < n + 1, i ≠ j →
      roundBlock dir flags r i ≠ roundBlock dir flags r j)
    {r₁ : Ram} (hr₁ : newTables dir flags n r = some r₁)
    (h : RoundsMade dir flags r n r₁.mem)
    (hstep : newTable dir flags n r₁ = some r') :
    RoundsMade dir flags r (n + 1) r'.mem := by
  obtain ⟨entry, hround⟩ := newTable_round hstep
  have hentry : roundBlock dir flags r n = entry :=
    (roundBlock_eq hr₁).trans hround.given
  obtain ⟨hpage, hne⟩ := hpages n (by omega)
  rw [hentry] at hpage hne
  have hentryDir := pages_spansApart hpage hdir hne
  intro i hi
  by_cases heq : i = n
  · rw [heq, hentry]
    refine ⟨?_, hround.filled (hentryDir.symm.part (dirWord_part hn))⟩
    unfold tableAt
    rw [hround.word]
    exact tableAddress_page hpage hflags
  · -- a round before this one: its entry and its table are left alone
    obtain ⟨hword, hfilled⟩ := h i (by omega)
    obtain ⟨hpage', hne'⟩ := hpages i hi
    have hsep := hdistinct n (by omega) i hi (Ne.symm heq)
    rw [hentry] at hsep
    refine ⟨?_, hfilled.congr ?_⟩
    · rw [← hword]
      unfold tableAt
      congr 1
      apply load32_congr
      apply hround.frame
      · exact (hentryDir.symm.part (dirWord_part (by omega))).symm
      · simp only [pagingTotalEntriesPerTable] at hn
        refine spansApart_fields dir ?_ ?_ <;>
          simp only [BitVec.toNat_sub, BitVec.toNat_ofNat] <;> omega
    · apply hround.frame
      · exact pages_spansApart hpage hpage' hsep
      · exact (pages_spansApart hdir hpage' (Ne.symm hne')).part
          (dirWord_part hn)

theorem roundsMade_loop (hflags : flags.toNat < 2 ^ 12)
    (hdir : dir.toNat % pagingPageSize = 0) (n : Nat) :
    n ≤ pagingTotalEntriesPerTable →
    (∀ i < n, (roundBlock dir flags r i).toNat % pagingPageSize = 0
      ∧ roundBlock dir flags r i ≠ dir) →
    (∀ i < n, ∀ j < n, i ≠ j →
      roundBlock dir flags r i ≠ roundBlock dir flags r j) →
    ∀ {r'}, newTables dir flags n r = some r' →
      RoundsMade dir flags r n r'.mem := by
  induction n with
  | zero => intro _ _ _ r' _ i hi; omega
  | succ n ih =>
      intro hn hpages hdistinct r' hloop
      obtain ⟨r₁, hr₁, hstep⟩ := Option.bind_eq_some_iff.mp hloop
      refine roundsMade_step hflags hdir hn hpages hdistinct hr₁ ?_ hstep
      exact ih (by omega) (fun i hi => hpages i (by omega))
        (fun i hi j hj => hdistinct i (by omega) j (by omega)) hr₁

-- ================================================================== the space

/-- What `paging_new_4gb` leaves: the parts of a directory, apart from
each other, in the blocks it was given, and the tables read as the
identity. -/
structure SpaceMade (flags : Addr) (r : Ram) (chunk : Addr) (p : DirParts)
    (r' : Ram) : Prop where
  chunk : p.chunk = chunk
  ok : DirOk p r'.mem
  apart : DirApart p
  view : dirView r'.mem p.dir = pagingNew4gbDir flags
  blocks : newBlocks flags r
    = p.dir :: (List.range pagingTotalEntriesPerTable).map p.table ++ [p.chunk]

/-- The blocks are different pages. -/
def DifferentPages (blocks : List Addr) : Prop :=
  blocks.Nodup ∧ ∀ a ∈ blocks, a.toNat % pagingPageSize = 0

/-- What the parts of a list of different pages are. -/
theorem differentPages_parts {dir chunk : Addr} {table : Nat → Addr} {n : Nat}
    (h : DifferentPages (dir :: (List.range n).map table ++ [chunk])) :
    dir.toNat % pagingPageSize = 0 ∧ chunk.toNat % pagingPageSize = 0
      ∧ dir ≠ chunk
      ∧ (∀ i < n, (table i).toNat % pagingPageSize = 0 ∧ table i ≠ dir
        ∧ table i ≠ chunk)
      ∧ ∀ i < n, ∀ j < n, i ≠ j → table i ≠ table j := by
  obtain ⟨hnodup, hpage⟩ := h
  rw [List.cons_append, List.nodup_cons, List.nodup_append] at hnodup
  obtain ⟨hdir, htables, -, hchunk⟩ := hnodup
  have hmem : ∀ {i : Nat}, i < n → table i ∈ (List.range n).map table :=
    fun hi => List.mem_map.mpr ⟨_, List.mem_range.mpr hi, rfl⟩
  refine ⟨hpage dir (by simp), hpage chunk (by simp), ?_, fun i hi => ⟨?_, ?_, ?_⟩,
    fun i hi j hj hij heq => ?_⟩
  · intro heq
    exact hdir (by rw [heq]; simp)
  · exact hpage _ (by simp; exact Or.inr (Or.inl ⟨i, hi, rfl⟩))
  · intro heq
    exact hdir (by rw [← heq]; simp; exact Or.inl ⟨i, hi, rfl⟩)
  · exact hchunk _ (hmem hi) _ List.mem_cons_self
  · exact hij (List.inj_on_of_nodup_map htables (List.mem_range.mpr hi)
      (List.mem_range.mpr hj) heq)

/-- A page is as many tables and pages behind the first as its number
says. -/
theorem pageAddress_split (v : BitVec 20) :
    BitVec.ofNat 32 (v.toNat / pagingTotalEntriesPerTable * tableBytes)
        + BitVec.ofNat 32 (v.toNat % pagingTotalEntriesPerTable * pagingPageSize)
      = pageAddress v := by
  apply BitVec.eq_of_toNat_eq
  rw [BitVec.toNat_add, BitVec.toNat_ofNat, BitVec.toNat_ofNat,
    toNat_pageAddress]
  have := v.isLt
  simp only [tableBytes, pagingTotalEntriesPerTable, pagingPageSize]
  omega

/-- What `paging_new_4gb` leaves in different pages. -/
theorem pagingNew4gb_space {chunk : Addr} (hflags : flags.toNat < 2 ^ 12)
    (hpages : DifferentPages (newBlocks flags r))
    (h : pagingNew4gb flags r = some (chunk, r')) :
    ∃ p, SpaceMade flags r chunk p r' := by
  obtain ⟨hdirPage, hchunkPage, hdirChunk, htables, hdistinct⟩ :=
    differentPages_parts hpages
  obtain ⟨r₁, -, hloop, -, hchunk', hr'⟩ := pagingNew4gb_inv h
  have hchunk := chunkBlock_eq hloop
  have hmade := roundsMade_loop hflags hdirPage
    pagingTotalEntriesPerTable (Nat.le_refl _)
    (fun i hi => ⟨(htables i hi).1, (htables i hi).2.1⟩)
    hdistinct hloop
  -- the last request and the store are seen in the chunk only
  have hlast : ∀ {a : Addr}, a.toNat % pagingPageSize = 0 →
      a ≠ chunkBlock flags r → SameOn a pagingPageSize r₁.mem r'.mem := by
    intro a ha hac
    have hap := pages_spansApart hchunkPage ha (Ne.symm hac)
    rw [hchunk] at hap
    have hword : SpansApart (kzalloc sizeofChunk r₁).1 sizeofChunk a
        pagingPageSize := fun x hx => hap x (Nat.lt_trans hx (by decide))
    rw [hr', hchunk']
    exact (kzalloc_sameOn hword).trans
      (writeBytes_sameOn _ _ hword)
  have hdirSame := hlast hdirPage hdirChunk
  have htable : ∀ i < pagingTotalEntriesPerTable,
      tableAt r'.mem (dirBlock r) i = tableBlock flags r i := by
    intro i hi
    unfold tableAt
    rw [load32_congr (hdirSame.part (dirWord_part hi))]
    exact (hmade i hi).1
  have hfilled : ∀ i < pagingTotalEntriesPerTable,
      Filled r'.mem (tableBlock flags r i) flags i := by
    intro i hi
    obtain ⟨hpage, -, hac⟩ := htables i hi
    exact (hmade i hi).2.congr (hlast hpage hac)
  have hok : DirOk ⟨chunkBlock flags r, dirBlock r, tableBlock flags r⟩
      r'.mem := by
    refine ⟨?_, htable⟩
    rw [hr', hchunk', hchunk]
    exact load32_store32 _ _ _
  have heq : chunkBlock flags r = chunk := by
    rw [hchunk]
    exact hchunk'.symm
  have hblocks : newBlocks flags r = dirBlock r
      :: (List.range pagingTotalEntriesPerTable).map (tableBlock flags r)
        ++ [chunkBlock flags r] := rfl
  generalize chunkBlock flags r = c at *
  generalize tableBlock flags r = table at *
  refine ⟨⟨c, dirBlock r, table⟩, heq, hok,
    ⟨fun i hi j hj hij => ?_, fun i hi => ?_, fun i hi x hx hx' => ?_⟩,
    funext fun v => ?_, hblocks⟩
  · exact pages_spansApart (htables i hi).1 (htables j hj).1
      (hdistinct i hi j hj hij)
  · exact pages_spansApart (htables i hi).1 hdirPage (htables i hi).2.1
  · exact pages_spansApart (htables i hi).1 hchunkPage (htables i hi).2.2 x
      hx (Nat.lt_trans hx' (by decide))
  · have hentry := hfilled _ (entryTable_lt v)
      (v.toNat % pagingTotalEntriesPerTable) (Nat.mod_lt _ (by decide))
    rw [pageAddress_split] at hentry
    unfold dirView pagingGet
    rw [pagingEntryAddress_eq hok]
    exact hentry

-- =================================================================== the heap

variable {heap₀ : Heap} {own : List (Addr × Nat)}

/-- Allocations of a block each. -/
abbrev singles (ptrs : List Addr) : List (Addr × Nat) := ptrs.map fun a => (a, 1)

theorem singles_append (ps qs : List Addr) :
    singles (ps ++ qs) = singles ps ++ singles qs := List.map_append

/-- Each round is lent its block. -/
theorem newTables_lent (h : Lent heap₀ r.heap own) (h₀ : Clean heap₀) (n : Nat) :
    ∀ {r'}, newTables dir flags n r = some r' →
      Lent heap₀ r'.heap
        (singles ((List.range n).map (roundBlock dir flags r)) ++ own) := by
  induction n with
  | zero =>
      intro r' hloop
      rw [← Option.some.inj hloop]
      exact h
  | succ n ih =>
      intro r' hloop
      obtain ⟨r₁, hr₁, hstep⟩ := Option.bind_eq_some_iff.mp hloop
      obtain ⟨entry, hround⟩ := newTable_round hstep
      have hentry : roundBlock dir flags r n = entry :=
        (roundBlock_eq hr₁).trans hround.given
      have hne : (kzalloc (4 * pagingTotalEntriesPerTable) r₁).1 ≠ 0#32 := by
        rw [hround.given]
        exact hround.nonnull
      have hlent := (ih hr₁).kzalloc_block h₀ (by decide) (by decide) hne
      rw [hround.heap]
      refine hlent.perm ?_
      rw [hround.given, List.range_succ, List.map_append, singles_append,
        List.append_assoc, List.map_singleton, hentry]
      exact List.perm_middle.symm

/-- Every block of the space is lent. -/
theorem pagingNew4gb_lent {chunk : Addr} (h₀ : Clean r.heap)
    (h : pagingNew4gb flags r = some (chunk, r')) :
    Lent r.heap r'.heap (singles (newBlocks flags r)) := by
  obtain ⟨r₁, hdir, hloop, hne, -, rfl⟩ := pagingNew4gb_inv h
  have hchunk := chunkBlock_eq hloop
  have hlent := ((newTables_lent ((Lent.refl r.heap).kzalloc_block h₀
    (by decide) (by decide) hdir) h₀ _ hloop).kzalloc_block h₀ (by decide)
      (show sizeofChunk ≤ benosHeapBlockSize by decide) hne)
  refine hlent.perm ?_
  rw [← hchunk]
  show ((chunkBlock flags r, 1)
    :: (singles ((List.range pagingTotalEntriesPerTable).map
      (tableBlock flags r)) ++ [(dirBlock r, 1)])).Perm _
  unfold newBlocks
  rw [singles_append]
  generalize (List.range pagingTotalEntriesPerTable).map
    (tableBlock flags r) = tables
  have hswap : ((chunkBlock flags r, 1)
      :: ([(dirBlock r, 1)] ++ singles tables)).Perm
        ([(dirBlock r, 1)] ++ singles tables
          ++ singles [chunkBlock flags r]) :=
    (List.perm_append_singleton _ _).symm
  exact (List.perm_append_comm.cons _).trans hswap

/-- What is lent are different pages. -/
theorem differentPages_of_lent {heap : Heap} {ptrs : List Addr}
    (h : Lent heap₀ heap (singles ptrs)) (h₀ : Clean heap₀) :
    DifferentPages ptrs := by
  have htotal := h₀.total
  simp only [kernelHeapBlocks] at htotal
  have hplace : ∀ a ∈ ptrs, ∃ b < 2 ^ 16, a = blockAddress b
      ∧ lentRun (a, 1) = ⟨b, 1⟩ := by
    intro a ha
    obtain ⟨haddr, -, hin⟩ := h.inside (a, 1) (List.mem_map_of_mem ha)
    simp only at haddr hin
    refine ⟨(lentRun (a, 1)).start, by omega, haddr, rfl⟩
  refine ⟨?_, fun a ha => ?_⟩
  · have hapart := h.apart
    rw [List.map_map, List.pairwise_map] at hapart
    refine hapart.imp_of_mem fun {a c} ha _ hap heq => ?_
    -- a run is not apart from itself
    obtain ⟨b, -, -, hrun⟩ := hplace a ha
    refine hap b ?_ ?_
    · show (lentRun (a, 1)).Covers b
      rw [hrun]
      exact ⟨Nat.le_refl _, Nat.lt_succ_self b⟩
    · show (lentRun (c, 1)).Covers b
      rw [← heq, hrun]
      exact ⟨Nat.le_refl _, Nat.lt_succ_self b⟩
  · obtain ⟨b, hb, haddr, -⟩ := hplace a ha
    rw [haddr, toNat_blockAddress hb]
    have hhead : benosHeadAddress.toNat = 0x01000000 := rfl
    simp only [benosHeapBlockSize, pagingPageSize]
    omega

/-- What is lent are runs of the heap, none of them null. -/
theorem lent_ownsRun {heap : Heap} {a : Addr × Nat} (h : Lent heap₀ heap own)
    (h₀ : Clean heap₀) (ha : a ∈ own) : OwnsRun heap a ∧ a.1 ≠ 0#32 := by
  obtain ⟨haddr, hpos, hin⟩ := h.inside a ha
  have htotal := h₀.total
  simp only [kernelHeapBlocks] at htotal
  refine ⟨⟨(lentRun a).start, ?_, ?_, fun i hi hi' =>
    (h.chain a ha i ⟨hi, hi'⟩).1⟩, ?_⟩
  · rw [heapBlockToAddress_eq heap (h.saddr.trans h₀.saddr)]
    exact haddr
  · rw [h.total]
    exact hin
  · rw [haddr]
    exact blockAddress_ne_null (by omega)

/-- A clean heap makes an address space of different pages. -/
theorem newBlocks_pages {chunk : Addr} (h₀ : Clean r.heap)
    (h : pagingNew4gb flags r = some (chunk, r')) :
    DifferentPages (newBlocks flags r) :=
  differentPages_of_lent (pagingNew4gb_lent h₀ h) h₀

-- ================================================================ the identity

/-- A fresh address space is the identity: whatever the flags byte, where
the blocks it is made of are different pages every address is translated
to itself, and the entry of its page is the page with the flags. -/
theorem fresh_space_identity (flags : UInt8) {chunk : Addr}
    (hpages : DifferentPages (newBlocks (flags.toBitVec.setWidth 32) r))
    (h : pagingNew4gbInt flags r = some (chunk, r')) (v : Addr) :
    pagingGetPhysAddr r'.mem (load32 r'.mem chunk) v = v
      ∧ pagingGet r'.mem (load32 r'.mem chunk) (pagingAlignToLowerPage v)
        = pagingAlignToLowerPage v ||| flags.toBitVec.setWidth 32 := by
  have hflags := flagsWord_lt flags
  rw [pagingNew4gbInt_eq] at h
  obtain ⟨p, hmade⟩ := pagingNew4gb_space hflags hpages h
  have hentry : pagingGet r'.mem (load32 r'.mem chunk)
      (pageAddress (pageOf v))
      = pageAddress (pageOf v) ||| flags.toBitVec.setWidth 32 := by
    rw [← hmade.chunk, hmade.ok.dir]
    exact congrFun hmade.view (pageOf v)
  refine ⟨?_, ?_⟩
  · rw [pagingGetPhysAddr_entry _ hflags hentry, BitVec.add_comm,
      BitVec.sub_add_cancel]
  · rw [pagingAlignToLowerPage_eq]
    exact hentry

/-- The kernel's heap with nothing taken makes the identity. -/
theorem fresh_space_identity_empty :
    ∃ chunk r', pagingNew4gbInt 7 ⟨emptyHeap, fun _ => 0x00, true⟩
        = some (chunk, r')
      ∧ pagingGetPhysAddr r'.mem (load32 r'.mem chunk) 0x80000123#32
        = 0x80000123#32
      ∧ pagingGet r'.mem (load32 r'.mem chunk)
          (pagingAlignToLowerPage 0x80000123#32)
        = pagingAlignToLowerPage 0x80000123#32
          ||| (7 : UInt8).toBitVec.setWidth 32 := by
  obtain ⟨chunk, r', hnew, -⟩ := pagingNew4gb_room
    ((7 : UInt8).toBitVec.setWidth 32) (room_empty (fun _ => 0x00) true)
    (by decide)
  have hclean := (ramOk_empty (fun _ => 0x00) true).clean
  have hint := hnew
  rw [← pagingNew4gbInt_eq] at hint
  exact ⟨chunk, r', hint,
    fresh_space_identity 7 (newBlocks_pages hclean hnew) hint 0x80000123#32⟩

-- ================================================================= the release

theorem kfreeAll_append (ps qs : List Addr) (r : Ram) :
    kfreeAll (ps ++ qs) r = kfreeAll qs (kfreeAll ps r) := List.foldl_append

@[simp] theorem kfreeAll_mem (ptrs : List Addr) (r : Ram) :
    (kfreeAll ptrs r).mem = r.mem := by
  induction ptrs generalizing r with
  | nil => rfl
  | cons ptr ptrs ih => exact (ih (kfree ptr r)).trans rfl

@[simp] theorem kfreeAll_served (ptrs : List Addr) (r : Ram) :
    (kfreeAll ptrs r).served = r.served := by
  induction ptrs generalizing r with
  | nil => rfl
  | cons ptr ptrs ih => exact (ih (kfree ptr r)).trans rfl

/-- The loop of `paging_free_4gb` gives back the tables the directory
names. -/
theorem freeTables_eq (dir : Addr) (n : Nat) (r : Ram) :
    freeTables dir n r
      = kfreeAll ((List.range n).map fun i =>
          tableAddress (load32 r.mem (dir + BitVec.ofNat 32 (4 * i)))) r := by
  induction n with
  | zero => rfl
  | succ n ih =>
      rw [freeTables, ih, List.range_succ, List.map_append, kfreeAll_append]
      simp only [kfreeAll_mem]
      rfl

/-- `paging_free_4gb` gives back its blocks one by one. -/
theorem pagingFree4gb_eq {chunk : Addr} (r : Ram) (hchunk : chunk ≠ 0#32)
    (hdir : load32 r.mem chunk ≠ 0#32) :
    pagingFree4gb chunk r = some (kfreeAll (freedBlocks r.mem chunk) r) := by
  unfold pagingFree4gb
  simp only
  rw [if_neg hchunk, if_neg hdir, freeTables_eq]
  unfold freedBlocks
  rw [kfreeAll_append]
  rfl

/-- Whatever the order, what is lent goes back. -/
theorem kfreeAll_lent (h₀ : Clean heap₀) (ptrs : List Addr) :
    ∀ {r : Ram}, Lent heap₀ r.heap (singles ptrs ++ own) →
      Lent heap₀ (kfreeAll ptrs r).heap own := by
  induction ptrs with
  | nil => intro r h; exact h
  | cons ptr ptrs ih =>
      intro r h
      exact ih (r := kfree ptr r) (h.heapFree h₀)

/-- What `paging_free_4gb` finds in a directory that is in order are the
blocks it was made of. -/
theorem freedBlocks_eq {p : DirParts} {m : Bytes} (hok : DirOk p m) :
    freedBlocks m p.chunk
      = (List.range pagingTotalEntriesPerTable).map p.table
        ++ [p.dir, p.chunk] := by
  have htables := List.map_congr_left fun i
    (hi : i ∈ List.range pagingTotalEntriesPerTable) =>
      hok.table i (List.mem_range.mp hi)
  unfold freedBlocks
  rw [hok.dir, htables]

-- ============================================================= enough room

/-- The free blocks of a heap. -/
def freeBlocks (heap : Heap) : Finset Nat :=
  (Finset.range heap.table.total).filter fun i => IsFree heap.table i

/-- A block is found where one is free, and is one free block less. -/
theorem kzalloc_freeBlocks {size : Nat} (htotal : r.heap.table.total
      ≤ kernelHeapBlocks) (hsaddr : r.heap.saddr = benosHeadAddress)
    (hlo : 1 ≤ size) (hsize : size ≤ benosHeapBlockSize)
    (hfree : 1 ≤ (freeBlocks r.heap).card) :
    (kzalloc size r).1 ≠ 0#32
      ∧ (freeBlocks (kzalloc size r).2.heap).card
        = (freeBlocks r.heap).card - 1 := by
  have hone : blocksFor size = 1 := by
    simp only [blocksFor, benosHeapBlockSize] at *
    omega
  have hserves : Serves r.heap size := by
    obtain ⟨b, hb⟩ := Finset.card_pos.mp hfree
    obtain ⟨hlt, hbfree⟩ := Finset.mem_filter.mp hb
    unfold Serves
    rw [hone]
    refine ⟨b, Finset.mem_range.mp hlt, fun i hi hi' => ?_⟩
    rwa [show i = b by omega]
  obtain ⟨-, b, hfit, heq⟩ := heapMalloc_of_serves hlo htotal hserves
  have hin := hfit.inside
  have hbfree : IsFree r.heap.table b := hfit.run b (Nat.le_refl _) (by omega)
  have hne : (heapMalloc r.heap size).1 ≠ 0#32 := by
    rw [heq]
    simp only
    rw [heapBlockToAddress_eq r.heap hsaddr]
    simp only [kernelHeapBlocks] at htotal
    exact blockAddress_ne_null (by omega)
  rw [kzalloc_of_ne_null hne]
  refine ⟨hne, ?_⟩
  have hset : freeBlocks (heapMalloc r.heap size).2
      = (freeBlocks r.heap).erase b := by
    rw [heq]
    ext i
    unfold freeBlocks
    rw [Finset.mem_erase, Finset.mem_filter, Finset.mem_filter,
      Finset.mem_range, Finset.mem_range, isFree_heapMarkBlocksTaken]
    constructor
    · intro h
      obtain ⟨hit, hfree, hout⟩ := h
      exact ⟨by omega, hit, hfree⟩
    · intro h
      obtain ⟨hib, hit, hfree⟩ := h
      exact ⟨hit, hfree, by omega⟩
  rw [hset, Finset.card_erase_of_mem]
  exact Finset.mem_filter.mpr ⟨Finset.mem_range.mpr (by omega), hbfree⟩

theorem newTables_free (dir flags : Addr) (h₀ : Clean heap₀)
    (h : Lent heap₀ r.heap own) (n : Nat) :
    n ≤ (freeBlocks r.heap).card → ∃ r', newTables dir flags n r = some r'
      ∧ (freeBlocks r'.heap).card = (freeBlocks r.heap).card - n := by
  induction n with
  | zero => intro _; exact ⟨r, rfl, rfl⟩
  | succ n ih =>
      intro hn
      obtain ⟨r₁, hr₁, hcard⟩ := ih (by omega)
      have hclean := (newTables_lent h h₀ n hr₁).clean h₀
      obtain ⟨hne, hcard'⟩ := kzalloc_freeBlocks hclean.total hclean.saddr
        (show 1 ≤ 4 * pagingTotalEntriesPerTable by decide) (by decide)
        (by omega)
      have hround : ∃ r', newTable dir flags n r₁ = some r'
          ∧ r'.heap = (kzalloc (4 * pagingTotalEntriesPerTable) r₁).2.heap := by
        unfold newTable
        simp only
        rw [if_neg hne]
        exact ⟨_, rfl, rfl⟩
      obtain ⟨r', hr', hheap⟩ := hround
      refine ⟨r', Option.bind_eq_some_iff.mpr ⟨r₁, hr₁, hr'⟩, ?_⟩
      rw [hheap, hcard']
      omega

/-- 1026 free blocks are enough for an address space. -/
theorem pagingNew4gb_free (flags : Addr) (h₀ : Clean r.heap)
    (hfree : 1026 ≤ (freeBlocks r.heap).card) :
    ∃ chunk r', pagingNew4gb flags r = some (chunk, r') := by
  obtain ⟨hdir, hcard⟩ := kzalloc_freeBlocks h₀.total h₀.saddr
    (show 1 ≤ 4 * pagingTotalEntriesPerTable by decide) (by decide)
    (by omega)
  have hlent := (Lent.refl r.heap).kzalloc_block h₀ (by decide) (by decide) hdir
  obtain ⟨r₁, hr₁, hcard₁⟩ := newTables_free (dirBlock r) flags h₀ hlent
    pagingTotalEntriesPerTable (by
      simp only [pagingTotalEntriesPerTable] at *
      omega)
  have hclean := (newTables_lent hlent h₀ _ hr₁).clean h₀
  obtain ⟨hchunk, -⟩ := kzalloc_freeBlocks hclean.total hclean.saddr
    (show 1 ≤ sizeofChunk by decide) (by decide) (by
      simp only [pagingTotalEntriesPerTable] at *
      omega)
  unfold pagingNew4gb
  simp only
  rw [if_neg hdir]
  refine ⟨(kzalloc sizeofChunk r₁).1, (kzalloc sizeofChunk r₁).2.store
    (kzalloc sizeofChunk r₁).1 (dirBlock r),
    Option.bind_eq_some_iff.mpr ⟨r₁, hr₁, ?_⟩⟩
  rw [if_neg hchunk]
  rfl

-- =============================================================== the round trip

/-- What `paging_free_4gb` does with an address space made in `r`, in a
memory it was used in since: each block that was asked for is freed, and
once, and the heap is what it was. -/
structure Released (flags : Addr) (r : Ram) (chunk : Addr) (r' : Ram) : Prop
    where
  blocks : (newBlocks flags r).length = 1026
  runs : ∀ a ∈ newBlocks flags r, OwnsRun r'.heap (a, 1)
  each : (freedBlocks r'.mem chunk).Perm (newBlocks flags r)
  once : (freedBlocks r'.mem chunk).Nodup
  restored : ∃ r'', pagingFree4gb chunk r' = some r''
    ∧ r'' = kfreeAll (freedBlocks r'.mem chunk) r' ∧ r''.heap = r.heap

/-- An address space that is made, mapped into by any sequence of calls
and freed leaves the heap as it was, whatever its flags byte: exactly the
1026 blocks it was made of are freed, each once. -/
theorem address_space_released (flags : UInt8) (h₀ : Clean r.heap)
    (hfree : 1026 ≤ (freeBlocks r.heap).card) (calls : List PagingCall) :
    ∃ chunk r', pagingNew4gbInt flags r = some (chunk, r')
      ∧ Released (flags.toBitVec.setWidth 32) r chunk
        { r' with mem := pagingCalls chunk calls r'.mem } := by
  have hflags := flagsWord_lt flags
  rw [pagingNew4gbInt_eq]
  generalize flags.toBitVec.setWidth 32 = flags at hflags
  obtain ⟨chunk, r', hnew⟩ := pagingNew4gb_free flags h₀ hfree
  have hlent := pagingNew4gb_lent h₀ hnew
  have hpages := newBlocks_pages h₀ hnew
  obtain ⟨p, hmade⟩ := pagingNew4gb_space hflags hpages hnew
  obtain rfl := hmade.chunk
  have hok := dirOk_calls hmade.apart calls hmade.ok
  have hblocks := hmade.blocks
  have hperm : (freedBlocks (pagingCalls p.chunk calls r'.mem) p.chunk).Perm
      (newBlocks flags r) := by
    rw [freedBlocks_eq hok, hblocks, List.cons_append]
    exact List.perm_middle
  have hruns : ∀ a ∈ newBlocks flags r, OwnsRun r'.heap (a, 1) ∧ a ≠ 0#32 :=
    fun a ha => lent_ownsRun hlent h₀ (List.mem_map_of_mem ha)
  have hchunk : p.chunk ≠ 0#32 := (hruns _ (by rw [hblocks]; simp)).2
  have hdir : load32 (pagingCalls p.chunk calls r'.mem) p.chunk ≠ 0#32 := by
    rw [hok.dir]
    exact (hruns _ (by rw [hblocks]; simp)).2
  refine ⟨p.chunk, r', hnew, ?_, fun a ha => (hruns a ha).1, hperm,
    hperm.nodup_iff.mpr hpages.1, _, pagingFree4gb_eq _ hchunk hdir, rfl, ?_⟩
  · rw [hblocks]
    simp
  · have hlent' : Lent r.heap r'.heap (singles (freedBlocks
        (pagingCalls p.chunk calls r'.mem) p.chunk) ++ []) := by
      rw [List.append_nil]
      exact hlent.perm (hperm.symm.map _)
    exact (kfreeAll_lent h₀ _ (r := { r' with
      mem := pagingCalls p.chunk calls r'.mem }) hlent').settled

theorem freeBlocks_empty : (freeBlocks emptyHeap).card = kernelHeapBlocks := by
  have hall : freeBlocks emptyHeap = Finset.range kernelHeapBlocks :=
    Finset.filter_true_of_mem fun i _ => by
      show heapGetEntryType 0x00 = heapBlockTableEntryFree
      rfl
  rw [hall, Finset.card_range]

/-- The kernel's heap with nothing taken has all its blocks back. -/
theorem address_space_released_empty :
    ∃ chunk r', pagingNew4gbInt 7 ⟨emptyHeap, fun _ => 0x00, true⟩
        = some (chunk, r')
      ∧ Released ((7 : UInt8).toBitVec.setWidth 32)
          ⟨emptyHeap, fun _ => 0x00, true⟩ chunk
          { r' with
            mem := pagingCalls chunk [.set 0#32 0xFFFFFFFF#32] r'.mem } := by
  have hclean := (ramOk_empty (fun _ => 0x00) true).clean
  refine address_space_released 7 hclean ?_ _
  show 1026 ≤ (freeBlocks emptyHeap).card
  rw [freeBlocks_empty]
  decide

end BenOS.Kernel
