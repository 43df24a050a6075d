/-
A page directory made: `paging_new_4gb` in the memory of the kernel.

The 1026 requests are served one behind the other, so each block is
outside of all that were taken before, its own among them: no table lies
over another, over the directory or over the chunk, and what was taken
before the call is spared. `TablesMade` is what holds after some rounds
of the outer loop, `ChunkMade` what holds at the end.
-/
import BenOS.Kernel.Task
import BenOS.Memory.Proofs.Directory
import BenOS.Memory.Proofs.Spares

namespace BenOS.Kernel

open Lib Memory Loader

-- ================================================================== a table

/-- Filling a table is seen in the table only. -/
theorem fillTable_sameOn {entry a : Addr} {n : Nat}
    (h : SpansApart entry pagingPageSize a n) (offset flags : Addr) (m : Bytes)
    (b : Nat) : b ≤ pagingTotalEntriesPerTable →
      SameOn a n m (fillTable entry offset flags b m) := by
  induction b with
  | zero => intro _; exact SameOn.refl _ _ _
  | succ b ih =>
      intro hb
      apply (ih (by omega)).trans
      apply writeBytes_sameOn
      apply h.part
      rw [BitVec.toNat_ofNat]
      simp only [pagingTotalEntriesPerTable, pagingPageSize] at *
      omega

section

variable {r r' : Ram} {dir entry flags : Addr}

/-- The bytes a table covers. -/
abbrev tableBytes : Nat := pagingTotalEntriesPerTable * pagingPageSize

/-- What the inner loop has filled in. -/
theorem load32_fillTable (offset : Addr) (m : Bytes) (n : Nat) :
    n ≤ pagingTotalEntriesPerTable → ∀ b < n,
      load32 (fillTable entry offset flags n m) (entry + BitVec.ofNat 32 (4 * b))
        = (offset + BitVec.ofNat 32 (b * pagingPageSize)) ||| flags := by
  induction n with
  | zero => intro _ b hb; omega
  | succ n ih =>
      intro hn b hb
      rw [fillTable]
      by_cases heq : b = n
      · rw [heq, load32_store32]
      · rw [load32_store32_apart, ih (by omega) b (by omega)]
        simp only [pagingTotalEntriesPerTable] at hn
        refine spansApart_fields entry ?_ ?_ <;>
          simp only [BitVec.toNat_sub, BitVec.toNat_ofNat] <;> omega

/-- The table at `entry` reads as the identity from page `i * 1024` on. -/
def Filled (m : Bytes) (entry flags : Addr) (i : Nat) : Prop :=
  ∀ b < pagingTotalEntriesPerTable,
    load32 m (entry + BitVec.ofNat 32 (4 * b))
      = (BitVec.ofNat 32 (i * tableBytes)
        + BitVec.ofNat 32 (b * pagingPageSize)) ||| flags

theorem Filled.congr {m m' : Bytes} {i : Nat} (h : Filled m entry flags i)
    (hsame : SameOn entry pagingPageSize m m') : Filled m' entry flags i := by
  intro b hb
  rw [load32_congr (hsame.part (dirWord_part hb))]
  exact h b hb

/-- What one round of the outer loop does with the block it is given. -/
structure RoundMade (dir flags : Addr) (i : Nat) (r : Ram) (entry : Addr)
    (r' : Ram) : Prop where
  given : (kzalloc (4 * pagingTotalEntriesPerTable) r).1 = entry
  nonnull : entry ≠ 0#32
  heap : r'.heap = (kzalloc (4 * pagingTotalEntriesPerTable) r).2.heap
  word : load32 r'.mem (dir + BitVec.ofNat 32 (4 * i))
    = entry ||| flags ||| pagingIsWritable
  filled : SpansApart (dir + BitVec.ofNat 32 (4 * i)) 4 entry pagingPageSize →
    Filled r'.mem entry flags i
  frame : ∀ (a : Addr) (n : Nat), SpansApart entry pagingPageSize a n →
    SpansApart (dir + BitVec.ofNat 32 (4 * i)) 4 a n → SameOn a n r.mem r'.mem

theorem newTable_round {i : Nat} (h : newTable dir flags i r = some r') :
    ∃ entry, RoundMade dir flags i r entry r' := by
  have hsize : 4 * pagingTotalEntriesPerTable = pagingPageSize := rfl
  unfold newTable at h
  simp only at h
  split at h
  case isTrue => cases h
  case isFalse hne =>
    have hsame : ∀ (a : Addr) (n : Nat),
        SpansApart (kzalloc (4 * pagingTotalEntriesPerTable) r).1
          pagingPageSize a n →
        SameOn a n r.mem (kzalloc (4 * pagingTotalEntriesPerTable) r).2.mem :=
      fun _ _ hap => kzalloc_sameOn hap
    generalize hq : kzalloc (4 * pagingTotalEntriesPerTable) r = q at *
    obtain ⟨entry, r₁⟩ := q
    rw [← Option.some.inj h]
    simp only at *
    refine ⟨entry, by rw [hq], hne, by rw [hq], load32_store32 _ _ _,
      fun hword b hb => ?_, fun a n hap hword => ?_⟩
    · have hsame' := writeBytes_sameOn (fillTable entry (BitVec.ofNat 32
        (i * tableBytes)) flags pagingTotalEntriesPerTable r₁.mem)
        (byteOf (entry ||| flags ||| pagingIsWritable)) hword
      apply (load32_congr (hsame'.part (dirWord_part hb))).trans
      exact load32_fillTable _ _ _ (Nat.le_refl _) b hb
    · apply (hsame a n hap).trans
      apply (fillTable_sameOn hap _ _ _ _ (Nat.le_refl _)).trans
      exact writeBytes_sameOn _ _ hword

/-- An entry made from the address of a page names the page. -/
theorem tableAddress_page (hpage : entry.toNat % pagingPageSize = 0)
    (hflags : flags.toNat < 2 ^ 12) :
    tableAddress (entry ||| flags ||| pagingIsWritable) = entry := by
  rw [BitVec.or_assoc, ← pageAddress_pageOf hpage]
  apply tableAddress_or
  rw [BitVec.toNat_or]
  exact Nat.or_lt_two_pow hflags (by decide)

/-- An entry made from the address of a block names the block. -/
theorem tableAddress_block {b : Nat} (hb : b < 2 ^ 16)
    (hflags : flags.toNat < 2 ^ 12) :
    tableAddress (blockAddress b ||| flags ||| pagingIsWritable)
      = blockAddress b := by
  refine tableAddress_page ?_ hflags
  rw [toNat_blockAddress hb]
  have hhead : benosHeadAddress.toNat = 0x01000000 := rfl
  simp only [benosHeapBlockSize, pagingPageSize]
  omega

/-- One round: a new table, and the entry of the directory that names
it. -/
structure TableMade (dir : Addr) (i : Nat) (r : Ram) (entry : Addr) (r' : Ram) :
    Prop where
  kernelHeap : KernelHeap r'
  heap : r'.heap = (kzalloc pagingPageSize r).2.heap
  outside : Outside r entry pagingPageSize
  taken : ∃ b, entry = blockAddress b ∧ Taken b 1 r'
  word : tableAddress (load32 r'.mem (dir + BitVec.ofNat 32 (4 * i))) = entry
  frame : ∀ (a : Addr) (n : Nat), SpansApart entry pagingPageSize a n →
    SpansApart (dir + BitVec.ofNat 32 (4 * i)) 4 a n → SameOn a n r.mem r'.mem

/-- The block of a round is one that was not taken before, and the
directory names it. -/
theorem newTable_spec (hflags : flags.toNat < 2 ^ 12) {i : Nat}
    (hkernel : KernelHeap r) (h : newTable dir flags i r = some r') :
    ∃ entry, TableMade dir i r entry r' := by
  obtain ⟨entry, hround⟩ := newTable_round h
  have hgiven : (kzalloc pagingPageSize r).1 = entry := hround.given
  have hne : (kzalloc pagingPageSize r).1 ≠ 0#32 := by
    rw [hgiven]
    exact hround.nonnull
  have hheap : r'.heap = (kzalloc pagingPageSize r).2.heap := hround.heap
  obtain ⟨b, haddr, htaken⟩ :=
    taken_kzalloc_block hkernel (by decide) (by decide) hne
  have hout := outside_kzalloc (by decide) hne
  rw [hgiven] at haddr hout
  have hlt := htaken.lt
  have htotal := htaken.total
  simp only [kernelHeapBlocks] at htotal
  refine ⟨entry, (kernelHeap_kzalloc hkernel pagingPageSize).of_heap hheap,
    hheap, hout, ⟨b, haddr, htaken.of_heap hheap⟩, ?_, hround.frame⟩
  rw [hround.word, haddr]
  exact tableAddress_block (by omega) hflags

end

-- ==================================================================== the loop

/-- The table a directory in memory names in an entry. -/
def tableAt (m : Bytes) (dir : Addr) (i : Nat) : Addr :=
  tableAddress (load32 m (dir + BitVec.ofNat 32 (4 * i)))

/-- After `n` rounds: the directory and its first tables are taken, apart
from each other and outside of what was taken in `r₀`, before the
directory was made. -/
structure TablesMade (r₀ : Ram) (dir : Addr) (n : Nat) (r : Ram) : Prop where
  kernelHeap : KernelHeap r
  spares : Spares r₀ r
  dirTaken : ∃ b, dir = blockAddress b ∧ Taken b 1 r
  taken : ∀ i < n, ∃ b, tableAt r.mem dir i = blockAddress b ∧ Taken b 1 r
  apart : ∀ i < n, ∀ j < n, i ≠ j →
    SpansApart (tableAt r.mem dir i) pagingPageSize (tableAt r.mem dir j)
      pagingPageSize
  dirApart : ∀ i < n,
    SpansApart (tableAt r.mem dir i) pagingPageSize dir pagingPageSize
  outside : ∀ i < n, Outside r₀ (tableAt r.mem dir i) pagingPageSize

variable {r₀ r r' : Ram} {dir flags : Addr}

/-- A block that is taken takes in the span of a page. -/
theorem page_apart {entry : Addr} {b : Nat} (hout : Outside r entry pagingPageSize)
    (htaken : Taken b 1 r) :
    SpansApart entry pagingPageSize (blockAddress b) pagingPageSize :=
  hout b 1 (by decide) htaken

theorem tablesMade_step (hflags : flags.toNat < 2 ^ 12) {n : Nat}
    (hn : n < pagingTotalEntriesPerTable)
    (hdir : Outside r₀ dir pagingPageSize) (h : TablesMade r₀ dir n r)
    (hstep : newTable dir flags n r = some r') :
    TablesMade r₀ dir (n + 1) r' := by
  obtain ⟨entry, hmade⟩ := newTable_spec hflags h.kernelHeap hstep
  obtain ⟨bd, hbd, htakenDir⟩ := h.dirTaken
  have hentryDir : SpansApart entry pagingPageSize dir pagingPageSize := by
    rw [hbd]
    exact page_apart hmade.outside htakenDir
  -- taken blocks stay taken, those outside of the directory keep their bytes
  have htaken : ∀ b l, Taken b l r → Taken b l r' := fun b l hb =>
    ((taken_kzalloc hb pagingPageSize).1).of_heap hmade.heap
  have hword : ∀ i < n, tableAt r'.mem dir i = tableAt r.mem dir i := by
    intro i hi
    have hlt : i < pagingTotalEntriesPerTable := by omega
    unfold tableAt
    rw [load32_congr (hmade.frame _ 4 ?_ ?_)]
    · exact (hentryDir.symm.part (dirWord_part hlt)).symm
    · refine spansApart_fields dir ?_ ?_ <;>
        simp only [BitVec.toNat_sub, BitVec.toNat_ofNat,
          pagingTotalEntriesPerTable] at * <;> omega
  have hlast : tableAt r'.mem dir n = entry := hmade.word
  have htable : ∀ i < n,
      SpansApart entry pagingPageSize (tableAt r.mem dir i) pagingPageSize := by
    intro i hi
    obtain ⟨b, hb, htakenTable⟩ := h.taken i hi
    rw [hb]
    exact page_apart hmade.outside htakenTable
  have hcases : ∀ i < n + 1, i < n ∨ i = n := fun i hi => by omega
  refine ⟨hmade.kernelHeap, ⟨?_, ?_⟩, ⟨bd, hbd, htaken bd 1 htakenDir⟩,
    fun i hi => ?_, fun i hi j hj hij => ?_, fun i hi => ?_, fun i hi => ?_⟩
  · intro b l hl hb
    obtain ⟨hb', hsame⟩ := h.spares.taken b l hl hb
    refine ⟨htaken b l hb', hsame.trans (hmade.frame _ _ ?_ ?_)⟩
    · exact hmade.outside b l hl hb'
    · exact (hdir b l hl hb).part (dirWord_part hn)
  · intro b l hb
    exact ((held_kzalloc (h.spares.held b l hb) pagingPageSize).1).of_heap
      hmade.heap
  · rcases hcases i hi with hi | hi
    · rw [hword i hi]
      obtain ⟨b, hb, htakenTable⟩ := h.taken i hi
      exact ⟨b, hb, htaken b 1 htakenTable⟩
    · rw [hi, hlast]
      exact hmade.taken
  · rcases hcases i hi with hi | hi
    · rcases hcases j hj with hj | hj
      · rw [hword i hi, hword j hj]
        exact h.apart i hi j hj hij
      · rw [hword i hi, hj, hlast]
        exact (htable i hi).symm
    · rcases hcases j hj with hj | hj
      · rw [hi, hlast, hword j hj]
        exact htable j hj
      · exact absurd (hi.trans hj.symm) hij
  · rcases hcases i hi with hi | hi
    · rw [hword i hi]
      exact h.dirApart i hi
    · rw [hi, hlast]
      exact hentryDir
  · rcases hcases i hi with hi | hi
    · rw [hword i hi]
      exact h.outside i hi
    · rw [hi, hlast]
      exact h.spares.outside hmade.outside

theorem tablesMade_loop (hflags : flags.toNat < 2 ^ 12)
    (hdir : Outside r₀ dir pagingPageSize) (h : TablesMade r₀ dir 0 r)
    (n : Nat) :
    n ≤ pagingTotalEntriesPerTable → ∀ {r'}, newTables dir flags n r = some r' →
      TablesMade r₀ dir n r' := by
  induction n with
  | zero =>
      intro _ r' hloop
      rw [← Option.some.inj hloop]
      exact h
  | succ n ih =>
      intro hn r' hloop
      obtain ⟨r₁, hr₁, hstep⟩ := Option.bind_eq_some_iff.mp hloop
      exact tablesMade_step hflags (by omega) hdir (ih (by omega) hr₁) hstep

-- =============================================================== the directory

/-- The parts of a new page directory: they are where the memory says,
apart from each other and outside of what was taken before the call. -/
structure ChunkMade (r₀ : Ram) (p : DirParts) (r : Ram) : Prop where
  spares : Spares r₀ r
  ok : DirOk p r.mem
  apart : DirApart p
  chunkOutside : Outside r₀ p.chunk pagingPageSize
  dirOutside : Outside r₀ p.dir pagingPageSize
  tableOutside : ∀ i < pagingTotalEntriesPerTable,
    Outside r₀ (p.table i) pagingPageSize

/-- A directory that is made took the blocks of the directory, of the
rounds and of the chunk, in this order. -/
theorem pagingNew4gb_inv {chunk : Addr}
    (h : pagingNew4gb flags r = some (chunk, r')) :
    ∃ r₁, (kzalloc (4 * pagingTotalEntriesPerTable) r).1 ≠ 0#32
      ∧ newTables (kzalloc (4 * pagingTotalEntriesPerTable) r).1 flags
          pagingTotalEntriesPerTable
          (kzalloc (4 * pagingTotalEntriesPerTable) r).2 = some r₁
      ∧ (kzalloc sizeofChunk r₁).1 ≠ 0#32
      ∧ chunk = (kzalloc sizeofChunk r₁).1
      ∧ r' = (kzalloc sizeofChunk r₁).2.store chunk
          (kzalloc (4 * pagingTotalEntriesPerTable) r).1 := by
  unfold pagingNew4gb at h
  simp only at h
  split at h
  case isTrue => cases h
  case isFalse hdir =>
    obtain ⟨r₁, hloop, h⟩ := Option.bind_eq_some_iff.mp h
    split at h
    case isTrue => cases h
    case isFalse hchunk =>
      obtain ⟨rfl, rfl⟩ := Prod.mk.inj (Option.some.inj h)
      exact ⟨r₁, hdir, hloop, hchunk, rfl, rfl⟩

theorem pagingNew4gb_spec (hflags : flags.toNat < 2 ^ 12) {chunk : Addr}
    (hkernel : KernelHeap r) (h : pagingNew4gb flags r = some (chunk, r')) :
    ∃ p, p.chunk = chunk ∧ ChunkMade r p r' := by
  obtain ⟨r₂, hdir, hloop, hchunk, rfl, rfl⟩ := pagingNew4gb_inv h
  have hsize : 4 * pagingTotalEntriesPerTable = pagingPageSize := rfl
  rw [hsize] at hdir hloop ⊢
  have hdirOut := outside_kzalloc (r := r) (by decide) hdir
  have hmade₀ : TablesMade r (kzalloc pagingPageSize r).1 0
      (kzalloc pagingPageSize r).2 := by
    have hnone : ∀ i : Nat, ¬ i < 0 := fun i => Nat.not_lt_zero i
    exact ⟨kernelHeap_kzalloc hkernel _, spares_kzalloc r (by decide),
      taken_kzalloc_block hkernel (by decide) (by decide) hdir,
      fun i hi => absurd hi (hnone i), fun i hi => absurd hi (hnone i),
      fun i hi => absurd hi (hnone i), fun i hi => absurd hi (hnone i)⟩
  generalize kzalloc pagingPageSize r = q at *
  obtain ⟨dir, r₁⟩ := q
  have hmade := tablesMade_loop hflags hdirOut hmade₀ _ (Nat.le_refl _) hloop
  simp only at hdir hdirOut hmade
  have hout : Outside r₂ (kzalloc sizeofChunk r₂).1 pagingPageSize :=
    outside_kzalloc_block (by decide) (by decide) hchunk
  have hspares := spares_kzalloc r₂ (show sizeofChunk ≤ 0x80000000 by decide)
  generalize kzalloc sizeofChunk r₂ = q at *
  obtain ⟨chunk', r₃⟩ := q
  simp only at *
  obtain ⟨bd, hbd, hdirTaken⟩ := hmade.dirTaken
  -- the directory keeps its words through the last request and store
  obtain ⟨-, hdirSame⟩ := hspares.taken bd 1 (by decide) hdirTaken
  have hword : SpansApart chunk' pagingPageSize dir pagingPageSize := by
    rw [hbd]
    exact page_apart hout hdirTaken
  have hchunkWord : ∀ {a : Addr} {n : Nat},
      SpansApart chunk' pagingPageSize a n → SpansApart chunk' 4 a n :=
    fun hap x hx => hap x (Nat.lt_trans hx (by decide))
  have hsame : SameOn dir pagingPageSize r₂.mem
      (r₃.store chunk' dir).mem := by
    rw [hbd] at hword ⊢
    apply hdirSame.trans
    exact writeBytes_sameOn _ _ (hchunkWord hword)
  have htable : ∀ i < pagingTotalEntriesPerTable,
      tableAt (r₃.store chunk' dir).mem dir i = tableAt r₂.mem dir i := by
    intro i hi
    unfold tableAt
    rw [load32_congr (hsame.part (dirWord_part hi))]
  have hchunkOut := hmade.spares.outside hout
  refine ⟨⟨chunk', dir, tableAt r₂.mem dir⟩, rfl, ?_,
    ⟨load32_store32 _ _ _, htable⟩,
    ⟨hmade.apart, hmade.dirApart, fun i hi => ?_⟩, hchunkOut, hdirOut,
    hmade.outside⟩
  · apply (hmade.spares.trans hspares).write
    exact fun b l hl hb => hchunkWord (hchunkOut b l hl hb)
  · obtain ⟨b, hb, htableTaken⟩ := hmade.taken i hi
    simp only
    rw [hb]
    exact (hchunkWord (page_apart hout htableTaken)).symm

-- ====================================================================== room

/-- One more table fits into a free block. -/
theorem newTable_room (dir flags : Addr) {k : Nat} (i : Nat) (h : Room r k)
    (hroom : k + 1 ≤ r.heap.table.total) :
    ∃ r', newTable dir flags i r = some r' ∧ Room r' (k + 1)
      ∧ r'.heap.table.total = r.heap.table.total := by
  have hblocks : blocksFor (4 * pagingTotalEntriesPerTable) = 1 := by decide
  obtain ⟨hne, hroom', htotal, -⟩ :=
    h.kzalloc (show 1 ≤ 4 * pagingTotalEntriesPerTable by decide)
      (by rw [hblocks]; exact hroom)
  unfold newTable
  simp only
  rw [if_neg hne]
  exact ⟨_, rfl, hroom'.of_heap rfl, htotal⟩

theorem newTables_room (dir flags : Addr) {k : Nat} (h : Room r k) (n : Nat) :
    k + n ≤ r.heap.table.total →
      ∃ r', newTables dir flags n r = some r' ∧ Room r' (k + n)
        ∧ r'.heap.table.total = r.heap.table.total := by
  induction n with
  | zero => intro _; exact ⟨r, rfl, h, rfl⟩
  | succ n ih =>
      intro hn
      obtain ⟨r₁, hr₁, hroom, htotal⟩ := ih (by omega)
      obtain ⟨r₂, hr₂, hroom', htotal'⟩ :=
        newTable_room dir flags n hroom (by omega)
      refine ⟨r₂, ?_, hroom', htotal'.trans htotal⟩
      exact Option.bind_eq_some_iff.mpr ⟨r₁, hr₁, hr₂⟩

/-- A page directory fits into 1026 blocks. -/
theorem pagingNew4gb_room (flags : Addr) {k : Nat} (h : Room r k)
    (hroom : k + 1026 ≤ r.heap.table.total) :
    ∃ chunk r', pagingNew4gb flags r = some (chunk, r') ∧ Room r' (k + 1026)
      ∧ r'.heap.table.total = r.heap.table.total := by
  have hblocks : blocksFor (4 * pagingTotalEntriesPerTable) = 1 := by decide
  obtain ⟨hne, hroom₁, htotal₁, -⟩ :=
    h.kzalloc (show 1 ≤ 4 * pagingTotalEntriesPerTable by decide)
      (by omega)
  rw [hblocks] at hroom₁
  obtain ⟨r₂, hr₂, hroom₂, htotal₂⟩ :=
    newTables_room (kzalloc (4 * pagingTotalEntriesPerTable) r).1 flags
      hroom₁ pagingTotalEntriesPerTable (by
        simp only [pagingTotalEntriesPerTable] at *
        omega)
  have hblocks' : blocksFor sizeofChunk = 1 := by decide
  obtain ⟨hne', hroom₃, htotal₃, -⟩ :=
    hroom₂.kzalloc (show 1 ≤ sizeofChunk by decide) (by
      simp only [pagingTotalEntriesPerTable] at *
      omega)
  refine ⟨(kzalloc sizeofChunk r₂).1,
    (kzalloc sizeofChunk r₂).2.store (kzalloc sizeofChunk r₂).1
      (kzalloc (4 * pagingTotalEntriesPerTable) r).1, ?_,
    hroom₃.of_heap rfl, htotal₃.trans (htotal₂.trans htotal₁)⟩
  unfold pagingNew4gb
  simp only
  rw [if_neg hne]
  refine Option.bind_eq_some_iff.mpr ⟨r₂, hr₂, ?_⟩
  rw [if_neg hne']

end BenOS.Kernel
