/-
What `copy_string_from_task` reads, and what it leaves.

The call copies twice. The first copy goes to the bounce page, under the
directory of the task, the second to the buffer of the caller, and between
them the table entry of the bounce page gets back what it was (`restored`).
The bounce page is a free block of the heap, so nothing of the task lies on
it (`FreeBlock.apart`), and the heap has it back at the end.

# The string

The string is the bytes the directory of the task shows before the call
(`UserString`). One word of what the directory shows is not the same while
it is copied: the table entry of the bounce page. A string that lies
across this word is read wrong (`copy_string_reads_entry`); all others are
copied as they are (`copy_string_from_task_exact`).
-/
import BenOS.Kernel.Proofs.Strncpy
import BenOS.Kernel.Proofs.Fresh
import BenOS.Memory.Proofs.Lent

namespace BenOS.Kernel

open Lib Memory

-- ============================================================ the directory

/-- A block of the kernel heap that is taken. -/
def TakenBlock (heap : Heap) (a : Addr) : Prop :=
  ∃ b, b < heap.table.total ∧ a = blockAddress b ∧ ¬ IsFree heap.table b

/-- The task has the page directory `p`: the memory points from the task to
its parts, which are taken blocks, the tables apart from all the rest, and
every table is there for the processor. -/
structure TaskDir (r : Ram) (task : Addr) (p : DirParts) : Prop where
  chunk : taskPageDirectory r.mem task = p.chunk
  ok : DirOk p r.mem
  present : ∀ i < pagingTotalEntriesPerTable,
    entryPresent (load32 r.mem (p.dir + BitVec.ofNat 32 (4 * i))) = true
  apart : DirApart p
  taskApart : ∀ i < pagingTotalEntriesPerTable,
    SpansApart (p.table i) pagingPageSize task pagingPageSize
  taskTaken : TakenBlock r.heap task
  chunkTaken : TakenBlock r.heap p.chunk
  dirTaken : TakenBlock r.heap p.dir
  tableTaken : ∀ i < pagingTotalEntriesPerTable, TakenBlock r.heap (p.table i)

/-- The task and the directory of a process as the kernel loads it are of
that kind. -/
theorem taskDir_objects {r : Ram} {o : Objects} {rest : List (Addr × Nat)}
    (hram : RamOk r (o.owned ++ rest)) (hlinks : o.Links r.mem)
    (hpresent : ∀ i < pagingTotalEntriesPerTable, entryPresent
      (load32 r.mem (o.parts.dir + BitVec.ofNat 32 (4 * i))) = true) :
    TaskDir r o.task o.parts := by
  have hapart := Objects.owned_apart hram
  have htaken : ∀ a ∈ o.owned, TakenBlock r.heap a.1 := by
    intro a ha
    obtain ⟨b, haddr, hin, hchain⟩ :=
      hram.ownsRun (List.mem_append_left rest ha)
    obtain ⟨-, -, hpos, -⟩ := hram.place (List.mem_append_left rest ha)
    refine ⟨b, by omega, haddr.trans (heapBlockToAddress_eq _ hram.saddr b),
      fun hfree => ?_⟩
    unfold IsFree at hfree
    rw [hchain b (Nat.le_refl _) (by omega)] at hfree
    exact entryType_chainEntry _ _ hfree
  unfold Objects.owned at htaken
  refine ⟨hlinks.chunk, hlinks.dirOk, hpresent, hapart.dir, fun i hi =>
    (hapart.task_table i hi).symm, ?_, ?_, ?_, fun i hi => ?_⟩
  · exact htaken (o.task, 1) (List.mem_cons_of_mem _ List.mem_cons_self)
  · exact htaken (o.parts.chunk, 1) (List.mem_cons_of_mem _
      (List.mem_cons_of_mem _ List.mem_cons_self))
  · exact htaken (o.parts.dir, 1) (List.mem_cons_of_mem _
      (List.mem_cons_of_mem _ (List.mem_cons_of_mem _ List.mem_cons_self)))
  · exact htaken (o.parts.table i, 1) (List.mem_cons_of_mem _
      (List.mem_cons_of_mem _ (List.mem_cons_of_mem _
        (List.mem_cons_of_mem _ (Objects.mem_tables hi)))))

-- ================================================================= the walk

/-- The directory `p` of a memory has these entries, and every table of it
is there for the processor. -/
structure Tabled (p : DirParts) (m : Bytes) (view : PageDir) : Prop where
  ok : DirOk p m
  present : ∀ i < pagingTotalEntriesPerTable,
    entryPresent (load32 m (p.dir + BitVec.ofNat 32 (4 * i))) = true
  view : dirView m p.dir = view

section Tabled

variable {p : DirParts} {m m' : Bytes} {view : PageDir}

/-- Memories that agree on a directory have the same entries in it. -/
theorem Tabled.congr (h : Tabled p m view) (hchunk : SameOn p.chunk 4 m m')
    (hdir : SameOn p.dir pagingPageSize m m')
    (htable : ∀ i < pagingTotalEntriesPerTable,
      SameOn (p.table i) pagingPageSize m m') : Tabled p m' view := by
  have hword : ∀ i < pagingTotalEntriesPerTable,
      load32 m' (p.dir + BitVec.ofNat 32 (4 * i))
        = load32 m (p.dir + BitVec.ofNat 32 (4 * i)) := fun i hi =>
    load32_congr (hdir.part (dirWord_part hi))
  have hok : DirOk p m' := ⟨(load32_congr hchunk).trans h.ok.dir,
    fun i hi => by rw [hword i hi]; exact h.ok.table i hi⟩
  refine ⟨hok, fun i hi => by rw [hword i hi]; exact h.present i hi, ?_⟩
  rw [← h.view]
  funext v
  unfold dirView pagingGet
  rw [pagingEntryAddress_eq hok, pagingEntryAddress_eq h.ok]
  exact load32_congr ((htable _ (entryTable_lt v)).part (entryAddress_part _))

/-- A store to an entry is the update of it. -/
theorem Tabled.store (h : Tabled p m view) (hsep : DirApart p)
    (v : BitVec 20) (val : BitVec 32) :
    Tabled p (store32 m (p.entryAddress v) val)
      (Function.update view v val) := by
  have hout : ∀ x, ¬ InTables p x → store32 m (p.entryAddress v) val x = m x :=
    fun x hx => store_entry_outside v val hx
  refine ⟨h.ok.congr hsep hout, fun i hi => ?_, ?_⟩
  · have hdir : SameOn p.dir pagingPageSize m
        (store32 m (p.entryAddress v) val) := fun x hx =>
      hout x fun ⟨j, hj, hin⟩ => hsep.dir j hj x hin hx
    rw [load32_congr (hdir.part (dirWord_part hi))]
    exact h.present i hi
  · rw [dirView_store h.ok hsep, h.view]

/-- The processor finds a byte by the entry of its page. -/
theorem Tabled.pageWalk (h : Tabled p m view) (a : Addr) :
    Kernel.pageWalk p.dir m a
      = if entryPresent (view (pageOf a)) then
          some (pageAddress (entryFrame (view (pageOf a)))
            + (a - pageAddress (pageOf a)))
        else none := by
  have hindex : (pagingGetIndexes (pageAddress (pageOf a))).1
      < pagingTotalEntriesPerTable := by
    have := (pageAddress (pageOf a)).isLt
    unfold pagingGetIndexes
    simp only [pagingTotalEntriesPerTable, pagingPageSize]
    omega
  have hview : pagingGet m p.dir (pageAddress (pageOf a)) = view (pageOf a) :=
    congrFun h.view (pageOf a)
  unfold Kernel.pageWalk
  rw [pagingAlignToLowerPage_eq]
  simp only
  rw [hview, h.present _ hindex, Bool.true_and]

end Tabled

-- ========================================================= the bounce page

/-- The bounce page the call would be given. -/
def bouncePage (r : Ram) (max : Int) : Addr := (kzalloc (toUint32 max).toNat r).1

/-- The page at `tmp` is a free block of the heap. -/
def FreeBlock (heap : Heap) (tmp : Addr) : Prop :=
  ∃ b, b < heap.table.total ∧ tmp = blockAddress b ∧ IsFree heap.table b

/-- A free block is apart from all that are taken. -/
theorem FreeBlock.apart {heap : Heap} (hclean : Clean heap) {tmp a : Addr}
    (h : FreeBlock heap tmp) (ha : TakenBlock heap a) :
    SpansApart tmp pagingPageSize a pagingPageSize := by
  obtain ⟨b, hb, rfl, hfree⟩ := h
  obtain ⟨c, hc, rfl, htaken⟩ := ha
  have hne : b ≠ c := fun heq => htaken (heq ▸ hfree)
  have htotal := hclean.total
  have hhead : benosHeadAddress.toNat = 0x01000000 := rfl
  simp only [kernelHeapBlocks] at htotal
  refine spansApart_of_dist ?_ ?_ <;>
    rw [BitVec.toNat_sub, toNat_blockAddress (by omega),
      toNat_blockAddress (by omega), hhead] <;>
    simp only [benosHeapBlockSize, pagingPageSize] <;>
    omega

theorem FreeBlock.aligned {heap : Heap} (hclean : Clean heap) {tmp : Addr}
    (h : FreeBlock heap tmp) : tmp.toNat % pagingPageSize = 0 := by
  obtain ⟨b, hb, rfl, -⟩ := h
  have htotal := hclean.total
  have hhead : benosHeadAddress.toNat = 0x01000000 := rfl
  simp only [kernelHeapBlocks] at htotal
  rw [toNat_blockAddress (by omega), hhead]
  simp only [benosHeapBlockSize, pagingPageSize]
  omega

theorem kzalloc_mem_outside (size : Nat) (r : Ram) (hsize : size ≤ n) :
    SameOutside (kzalloc size r).1 n r.mem (kzalloc size r).2.mem := by
  intro x hx
  unfold kzalloc at hx ⊢
  by_cases hnull : (kmalloc size r).1 = 0#32
  · rw [if_pos hnull]
    rfl
  · rw [if_neg hnull] at hx ⊢
    have hout : ¬ InSpan (kmalloc size r).1 size x := fun hin =>
      hx (Nat.lt_of_lt_of_le hin hsize)
    exact writeBytes_of_not_inSpan (kmalloc size r).2.mem (fun _ => 0x00) hout

/-- The bounce page is a free block, and given back the heap is what it
was. -/
theorem kzalloc_bounce {size : Nat} {r : Ram} (hclean : Clean r.heap)
    (hlo : 1 ≤ size) (hsize : size ≤ benosHeapBlockSize)
    (hne : (kzalloc size r).1 ≠ 0#32) :
    FreeBlock r.heap (kzalloc size r).1
      ∧ heapFree (kzalloc size r).2.heap (kzalloc size r).1 = r.heap := by
  have hlent := (Lent.refl r.heap).kzalloc_block hclean hlo hsize hne
  obtain ⟨haddr, -, hin⟩ := hlent.inside _ List.mem_cons_self
  obtain ⟨-, hblank⟩ := hlent.chain _ List.mem_cons_self
    (lentRun ((kzalloc size r).1, 1)).start ⟨Nat.le_refl _, Nat.lt_succ_self _⟩
  refine ⟨⟨_, hin, haddr, ?_⟩, (hlent.heapFree hclean).settled⟩
  unfold IsFree
  rw [hblank]
  rfl

-- ================================================================ the call

/-- What is in memory at a page that nothing of the task lies on. -/
structure BounceApart (p : DirParts) (task tmp : Addr) : Prop where
  aligned : tmp.toNat % pagingPageSize = 0
  task : SpansApart tmp pagingPageSize task pagingPageSize
  chunk : SpansApart tmp pagingPageSize p.chunk pagingPageSize
  dir : SpansApart tmp pagingPageSize p.dir pagingPageSize
  table : ∀ i < pagingTotalEntriesPerTable,
    SpansApart tmp pagingPageSize (p.table i) pagingPageSize

theorem FreeBlock.bounceApart {r : Ram} {task tmp : Addr} {p : DirParts}
    (h : FreeBlock r.heap tmp) (hclean : Clean r.heap) (hdir : TaskDir r task p) :
    BounceApart p task tmp :=
  ⟨h.aligned hclean, h.apart hclean hdir.taskTaken,
    h.apart hclean hdir.chunkTaken, h.apart hclean hdir.dirTaken,
    fun i hi => h.apart hclean (hdir.tableTaken i hi)⟩

/-- The entry the bounce page has while the string is copied to it. -/
abbrev bounceEntry (tmp : Addr) : BitVec 32 := tmp ||| bounceFlags

section Copy

variable {p : DirParts} {task tmp phys : Addr} {m₀ m m' : Bytes}
  {view : PageDir}

/-- What is written to the bounce page is not seen in the directory. -/
theorem BounceApart.tabled (hb : BounceApart p task tmp)
    (h : Tabled p m view) (hsame : SameOutside tmp pagingPageSize m m') :
    Tabled p m' view := by
  refine h.congr (hsame.sameOn fun x hx hx' => hb.chunk x hx ?_)
    (hsame.sameOn hb.dir) fun i hi => hsame.sameOn (hb.table i hi)
  exact Nat.lt_trans hx' (by decide)

/-- The entry of the bounce page does not lie on it. -/
theorem BounceApart.entry (hb : BounceApart p task tmp) (v : BitVec 20) :
    SpansApart tmp pagingPageSize (p.entryAddress v) 4 :=
  ((hb.table _ (entryTable_lt v)).symm.part (entryAddress_part _)).symm

/-- `paging_set`, at an address on a page boundary. -/
theorem Tabled.pagingSet (h : Tabled p m view)
    (hal : tmp.toNat % pagingPageSize = 0) (val : BitVec 32) :
    Memory.pagingSet p.dir tmp val m
      = (0, store32 m (p.entryAddress (pageOf tmp)) val) := by
  have haddr := pagingEntryAddress_eq h.ok (pageOf tmp)
  rw [pageAddress_pageOf hal] at haddr
  have halign : pagingIsAlligned tmp = true := beq_iff_eq.mpr hal
  unfold Memory.pagingSet
  rw [halign, haddr]
  rfl

theorem Tabled.pagingGet (h : Tabled p m view)
    (hal : tmp.toNat % pagingPageSize = 0) :
    Memory.pagingGet m p.dir tmp = load32 m (p.entryAddress (pageOf tmp)) := by
  have haddr := pagingEntryAddress_eq h.ok (pageOf tmp)
  rw [pageAddress_pageOf hal] at haddr
  unfold Memory.pagingGet
  rw [haddr]

/-- With its entry set the bounce page is where it is. -/
theorem Tabled.bounce (h : Tabled p m view)
    (hentry : view (pageOf tmp) = bounceEntry tmp)
    (hal : tmp.toNat % pagingPageSize = 0) {i : Nat} (hi : i < pagingPageSize) :
    Kernel.pageWalk p.dir m (tmp + BitVec.ofNat 32 i)
      = some (tmp + BitVec.ofNat 32 i) := by
  have hpage : pageOf (tmp + BitVec.ofNat 32 i) = pageOf tmp := by
    apply BitVec.eq_of_toNat_eq
    rw [toNat_pageOf, toNat_pageOf, BitVec.toNat_add, BitVec.toNat_ofNat]
    have := tmp.isLt
    simp only [pagingPageSize] at *
    omega
  have hval : bounceEntry tmp = pageAddress (pageOf tmp) ||| bounceFlags := by
    rw [pageAddress_pageOf hal]
  have hframe : entryFrame (bounceEntry tmp) = pageOf tmp := by
    rw [hval]
    exact entryFrame_or _ (by decide)
  have hpresent : entryPresent (bounceEntry tmp) = true := by
    unfold entryPresent bounceEntry
    rw [BitVec.getLsbD_or]
    exact Bool.or_true _
  rw [h.pageWalk, hpage, hentry, if_pos hpresent, hframe,
    pageAddress_pageOf hal]
  rw [BitVec.add_comm tmp (BitVec.ofNat 32 i), BitVec.add_sub_cancel,
    BitVec.add_comm]

/-- The memory before the copy: the directory stands for the entries of
the memory of `r`, and nothing but the bounce page is new. -/
structure Bounced (r : Ram) (p : DirParts) (task tmp : Addr) (m₀ : Bytes) :
    Prop where
  apart : BounceApart p task tmp
  same : SameOutside tmp pagingPageSize r.mem m₀
  tabled : Tabled p m₀ (dirView r.mem p.dir)
  chunk : taskPageDirectory m₀ task = p.chunk

theorem bounced_kzalloc {r : Ram} {size : Nat} (hclean : Clean r.heap)
    (hdir : TaskDir r task p) (hlo : 1 ≤ size) (hsize : size ≤ pagingPageSize)
    (hne : (kzalloc size r).1 ≠ 0#32) :
    Bounced r p task (kzalloc size r).1 (kzalloc size r).2.mem := by
  obtain ⟨hfree, -⟩ := kzalloc_bounce hclean hlo hsize hne
  have hapart := hfree.bounceApart hclean hdir
  have hsame := kzalloc_mem_outside size r hsize
  have htabled : Tabled p r.mem (dirView r.mem p.dir) :=
    ⟨hdir.ok, hdir.present, rfl⟩
  refine ⟨hapart, hsame, hapart.tabled htabled hsame, ?_⟩
  rw [← hdir.chunk]
  refine load32_congr (hsame.sameOn fun x hx hx' => hapart.task x hx ?_)
  rw [show task + offPageDirectory = task from BitVec.add_zero task] at hx'
  exact Nat.lt_trans hx' (by decide)

section Bounced

variable {r : Ram}

/-- The memory with the entry of the bounce page set. -/
abbrev bounceMemory (p : DirParts) (tmp : Addr) (m₀ : Bytes) : Bytes :=
  store32 m₀ (p.entryAddress (pageOf tmp)) (bounceEntry tmp)

/-- `paging_map`, of the bounce page. -/
theorem pagingMap_bounce (hb : Bounced r p task tmp m₀) :
    (pagingMap (chunkSet p.chunk) tmp tmp bounceFlags m₀).2
      = bounceMemory p tmp m₀ := by
  have hal := hb.apart.aligned
  unfold pagingMap
  rw [if_neg (by omega)]
  unfold chunkSet
  rw [hb.tabled.ok.dir, hb.tabled.pagingSet hal]

variable (hdir : TaskDir r task p) (hb : Bounced r p task tmp m₀)

include hdir hb

theorem tabled_bounceMemory : Tabled p (bounceMemory p tmp m₀)
    (Function.update (dirView r.mem p.dir) (pageOf tmp) (bounceEntry tmp)) :=
  hb.tabled.store hdir.apart _ _

theorem chunk_bounceMemory :
    taskPageDirectory (bounceMemory p tmp m₀) task = p.chunk := by
  rw [← hb.chunk]
  refine load32_congr fun x hx => ?_
  refine store_entry_outside _ _ fun ⟨i, hi, hin⟩ => ?_
  refine hdir.taskApart i hi x hin ?_
  rw [show task + offPageDirectory = task from BitVec.add_zero task] at hx
  exact Nat.lt_trans hx (by decide)

/-- The bounce page is where it is while the string is copied. -/
theorem lands_bounce {n : Nat} (hn : n ≤ pagingPageSize) :
    Lands (pageWalk p.dir) (bounceMemory p tmp m₀) tmp tmp n := by
  intro m hsame i hi
  have htabled := hb.apart.tabled (tabled_bounceMemory hdir hb)
    (hsame.mono hn)
  exact htabled.bounce (Function.update_self _ _ _) hb.apart.aligned
    (Nat.lt_of_lt_of_le hi hn)

/-- After the copy the entry is put back, and nothing but the bounce page
is new. -/
theorem restored {n : Nat} (hn : n ≤ pagingPageSize)
    (hsame : SameOutside tmp n (bounceMemory p tmp m₀) m) :
    let m₃ := store32 m (p.entryAddress (pageOf tmp))
      (load32 m₀ (p.entryAddress (pageOf tmp)))
    pagingSet p.dir tmp (load32 m₀ (p.entryAddress (pageOf tmp))) m = (0, m₃)
      ∧ Tabled p m₃ (dirView r.mem p.dir)
      ∧ SameOutside tmp pagingPageSize r.mem m₃ := by
  intro m₃
  have hsame' := hsame.mono hn
  have htabled := hb.apart.tabled (tabled_bounceMemory hdir hb) hsame'
  have hout : SameOutside tmp pagingPageSize r.mem m₃ := by
    intro x hx
    by_cases hin : InSpan (p.entryAddress (pageOf tmp)) 4 x
    · -- the old word is written over the new one
      have hx' : (x - p.entryAddress (pageOf tmp)).toNat < 4 := hin
      show writeBytes _ _ _ _ x = _
      unfold writeBytes
      rw [if_pos hx', byteOf_load32 _ _ hx', BitVec.ofNat_toNat,
        BitVec.setWidth_eq, BitVec.add_comm, BitVec.sub_add_cancel]
      exact hb.same x hx
    · calc m₃ x = m x := writeBytes_of_not_inSpan m _ hin
        _ = bounceMemory p tmp m₀ x := hsame' x hx
        _ = m₀ x := writeBytes_of_not_inSpan m₀ _ hin
        _ = r.mem x := hb.same x hx
  refine ⟨htabled.pagingSet hb.apart.aligned _, ?_, hout⟩
  have htabled₀ : Tabled p r.mem (dirView r.mem p.dir) :=
    ⟨hdir.ok, hdir.present, rfl⟩
  exact hb.apart.tabled htabled₀ hout

end Bounced

/-- The call, once it has its bounce page: the copy to it, the entry put
back, and the copy to the buffer. -/
theorem copyStringFromTask_eq {r : Ram} (hclean : Clean r.heap)
    (hdir : TaskDir r task p) {n : Nat} (hlo : 1 ≤ n) (hhi : n < pagingPageSize)
    (hne : (kzalloc n r).1 ≠ 0#32) (virt phys : Addr) :
    let tmp := (kzalloc n r).1
    let m₀ := (kzalloc n r).2.mem
    copyStringFromTask task virt phys n r
      = (Space.strncpy (pageWalk p.dir) tmp virt n (bounceMemory p tmp m₀)).bind
          fun m => (kernelSpace.strncpy phys tmp n
            (store32 m (p.entryAddress (pageOf tmp))
              (load32 m₀ (p.entryAddress (pageOf tmp))))).bind
            fun m' => some (0, ⟨r.heap, m', (kzalloc n r).2.served⟩) := by
  intro tmp m₀
  have hb := bounced_kzalloc hclean hdir hlo (Nat.le_of_lt hhi) hne
  obtain ⟨-, hheap⟩ := kzalloc_bounce hclean hlo (Nat.le_of_lt hhi) hne
  have hsize : (toUint32 (n : Int)).toNat = n :=
    toNat_toUint32 (Nat.lt_trans hhi (by decide))
  unfold copyStringFromTask
  rw [if_neg (by omega), hsize]
  simp only
  rw [if_neg hne, hb.chunk, hb.tabled.ok.dir, hb.tabled.pagingGet
    hb.apart.aligned, pagingMap_bounce hb, chunk_bounceMemory hdir hb,
    (tabled_bounceMemory hdir hb).ok.dir]
  refine Option.bind_congr fun m hm => ?_
  have hsame := strncpy_frame (Nat.le_of_lt (Nat.lt_trans hhi (by decide))) hlo
    (lands_bounce hdir hb (Nat.le_of_lt hhi)) (fun _ _ => rfl) hm
  obtain ⟨hset, -, -⟩ := restored hdir hb (Nat.le_of_lt hhi) hsame
  rw [hset]
  simp only
  rw [if_neg (by decide)]
  refine Option.bind_congr fun m' _ => ?_
  unfold kfree
  simp only
  rw [hheap]

end Copy

-- ============================================================== the results

/-- What the directory at `dir` shows from `virt` on begins with the bytes
`cs`, none of them 0, and a 0 is behind them, unless there are `k` of
them: no more are looked at. -/
structure UserString (m : Bytes) (dir virt : Addr) (k : Nat)
    (cs : List UInt8) : Prop where
  le : cs.length ≤ k
  nonzero : ∀ c ∈ cs, c ≠ 0x00
  byte : ∀ i ≤ cs.length, i < k →
    ∃ a, pageWalk dir m (virt + BitVec.ofNat 32 i) = some a
      ∧ m a = cs.getD i 0x00

/-- The string is not on the page at `tmp`, neither by the addresses the
task knows it by nor by those it is at. -/
def ClearOfPage (m : Bytes) (dir virt : Addr) (k : Nat) (cs : List UInt8)
    (tmp : Addr) : Prop :=
  ∀ i ≤ cs.length, i < k → pageOf (virt + BitVec.ofNat 32 i) ≠ pageOf tmp
    ∧ ∀ a, pageWalk dir m (virt + BitVec.ofNat 32 i) = some a →
      ¬ InSpan tmp pagingPageSize a

/-- No byte of the string is in the word at `w`. -/
def ClearOfWord (m : Bytes) (dir virt : Addr) (k : Nat) (cs : List UInt8)
    (w : Addr) : Prop :=
  ∀ i ≤ cs.length, i < k → ∀ a,
    pageWalk dir m (virt + BitVec.ofNat 32 i) = some a → ¬ InSpan w 4 a

/-- The buffer is no free memory and no part of the directory. -/
structure BufferApart (r : Ram) (p : DirParts) (phys : Addr) (n : Nat) :
    Prop where
  free : ∀ tmp, FreeBlock r.heap tmp → SpansApart phys n tmp pagingPageSize
  chunk : SpansApart phys n p.chunk 4
  dir : SpansApart phys n p.dir pagingPageSize
  table : ∀ i < pagingTotalEntriesPerTable,
    SpansApart phys n (p.table i) pagingPageSize

/-- The call leaves the heap and the entries of the directory as they
were, and writes `n` bytes at `phys` and what was free memory at most. -/
structure PureRead (p : DirParts) (phys : Addr) (n : Nat) (r r' : Ram) :
    Prop where
  heap : r'.heap = r.heap
  entries : dirView r'.mem p.dir = dirView r.mem p.dir
  bytes : ∀ x, r'.mem x ≠ r.mem x → InSpan phys n x
    ∨ ∃ tmp, FreeBlock r.heap tmp ∧ InSpan tmp pagingPageSize x

section Results

variable {r r' : Ram} {task virt phys tmp : Addr} {p : DirParts} {n : Nat}
  {m₀ m : Bytes} {cs : List UInt8} {res : Int}

/-- The string is shown while it is copied to the bounce page. -/
theorem shows_bounce (hdir : TaskDir r task p) (hb : Bounced r p task tmp m₀)
    (hn : n ≤ pagingPageSize) {k : Nat} (h : UserString r.mem p.dir virt k cs)
    (hpage : ClearOfPage r.mem p.dir virt k cs tmp)
    (hword : ClearOfWord r.mem p.dir virt k cs (p.entryAddress (pageOf tmp))) :
    Shows (pageWalk p.dir) (bounceMemory p tmp m₀) virt tmp n k cs := by
  refine ⟨h.le, h.nonzero, fun i hi hik m hsame => ?_⟩
  obtain ⟨a, hwalk, hbyte⟩ := h.byte i hi hik
  obtain ⟨hne, hapart⟩ := hpage i hi hik
  have hin := hapart a hwalk
  have htabled₀ : Tabled p r.mem (dirView r.mem p.dir) :=
    ⟨hdir.ok, hdir.present, rfl⟩
  have hsame' := hsame.mono hn
  have htabled := hb.apart.tabled (tabled_bounceMemory hdir hb) hsame'
  refine ⟨a, ?_, ?_⟩
  · rw [htabled₀.pageWalk] at hwalk
    rw [htabled.pageWalk, Function.update_of_ne hne]
    exact hwalk
  · calc m a = bounceMemory p tmp m₀ a := hsame' a hin
      _ = m₀ a := writeBytes_of_not_inSpan m₀ _ (hword i hi hik a hwalk)
      _ = r.mem a := hb.same a hin
      _ = cs.getD i 0x00 := hbyte

/-- Copied, the string is shown on the bounce page. -/
theorem shows_copied (hbuf : SpansApart phys n tmp pagingPageSize)
    (hn : n ≤ pagingPageSize) (hlen : cs.length < n)
    (hnonzero : ∀ c ∈ cs, c ≠ 0x00)
    (hcopied : HoldsBytes m tmp (cs ++ [0x00])) :
    Shows kernelSpace m tmp phys n (n - 1) cs := by
  refine ⟨by omega, hnonzero, fun i hi _ m' hsame => ⟨_, rfl, ?_⟩⟩
  have hin : InSpan tmp pagingPageSize (tmp + BitVec.ofNat 32 i) :=
    inSpan_add (Nat.lt_of_le_of_lt hi (Nat.lt_of_lt_of_le hlen hn)) (by decide)
  rw [hsame _ fun hx => hbuf _ hx hin, hcopied i (by
    rw [List.length_append, List.length_singleton]
    omega)]
  rcases Nat.lt_or_eq_of_le hi with hlt | heq
  · exact List.getD_append _ _ _ _ hlt
  · rw [heq, List.getD_append_right _ _ _ _ (Nat.le_refl _), Nat.sub_self,
      List.getD_eq_default _ _ (Nat.le_refl _)]
    rfl

/-- An address on a page lies in its span. -/
theorem inSpan_of_pageOf {tmp a : Addr} (hal : tmp.toNat % pagingPageSize = 0)
    (h : pageOf a = pageOf tmp) : InSpan tmp pagingPageSize a := by
  have hnat := congrArg BitVec.toNat h
  rw [toNat_pageOf, toNat_pageOf] at hnat
  unfold InSpan
  rw [BitVec.toNat_sub]
  have := a.isLt
  have := tmp.isLt
  simp only [pagingPageSize] at *
  omega

/-- The low byte of an entry holds flags only. -/
theorem byteOf_entry (v : BitVec 20) (flags : BitVec 32) :
    byteOf (pageAddress v ||| flags) 0 = byteOf flags 0 := by
  apply UInt8.eq_of_toBitVec_eq
  show (pageAddress v ||| flags).extractLsb' (8 * 0) 8
    = flags.extractLsb' (8 * 0) 8
  have hzero : (pageAddress v).extractLsb' (8 * 0) 8 = 0#8 := by
    apply BitVec.eq_of_toNat_eq
    rw [BitVec.extractLsb'_toNat, toNat_pageAddress]
    simp only [pagingPageSize, Nat.mul_zero, Nat.shiftRight_zero,
      BitVec.toNat_ofNat]
    omega
  rw [BitVec.extractLsb'_or, hzero, BitVec.zero_or]

/-- What is shown of the entry of the bounce page, where the directory
shows it, is the entry as it is while the page is mapped. -/
theorem shows_entry (hdir : TaskDir r task p) (hb : Bounced r p task tmp m₀)
    (hwalk : pageWalk p.dir r.mem (p.entryAddress (pageOf tmp))
      = some (p.entryAddress (pageOf tmp))) :
    Shows (pageWalk p.dir) (bounceMemory p tmp m₀)
      (p.entryAddress (pageOf tmp)) tmp 2 1 [0x07] := by
  have hin : InSpan (p.entryAddress (pageOf tmp)) 4
      (p.entryAddress (pageOf tmp)) := by
    unfold InSpan
    rw [BitVec.sub_self]
    decide
  have hout : ¬ InSpan tmp pagingPageSize (p.entryAddress (pageOf tmp)) :=
    fun h => hb.apart.entry _ _ h hin
  have htabled₀ : Tabled p r.mem (dirView r.mem p.dir) :=
    ⟨hdir.ok, hdir.present, rfl⟩
  refine ⟨Nat.le_refl 1, by simp, fun i _ hik m hsame =>
    ⟨p.entryAddress (pageOf tmp), ?_, ?_⟩⟩
  · have htabled := hb.apart.tabled (tabled_bounceMemory hdir hb)
      (hsame.mono (show 2 ≤ pagingPageSize by decide))
    rw [htabled₀.pageWalk] at hwalk
    rw [show i = 0 by omega, BitVec.add_zero, htabled.pageWalk,
      Function.update_of_ne fun heq =>
        hout (inSpan_of_pageOf hb.apart.aligned heq)]
    exact hwalk
  · rw [hsame _ fun h => hout (Nat.lt_trans h (by decide)),
      show i = 0 by omega]
    show writeBytes _ _ 4 _ _ = _
    unfold writeBytes
    rw [BitVec.sub_self, if_pos (by decide)]
    show byteOf (bounceEntry tmp) 0 = 0x07
    unfold bounceEntry
    rw [← pageAddress_pageOf hb.apart.aligned]
    exact byteOf_entry _ _

/-- Whatever is copied, the call reads only. -/
theorem copyStringFromTask_pure (hclean : Clean r.heap)
    (hdir : TaskDir r task p) (hlo : 1 ≤ n) (hhi : n < pagingPageSize)
    (hbuf : BufferApart r p phys n)
    (hres : copyStringFromTask task virt phys n r = some (res, r')) :
    PureRead p phys n r r' := by
  by_cases hne : (kzalloc n r).1 = 0#32
  · -- there is no bounce page, and nothing is done
    obtain ⟨hheap, hmem⟩ := kzalloc_refused hclean hne
    have hsize : (toUint32 (n : Int)).toNat = n :=
      toNat_toUint32 (Nat.lt_trans hhi (by decide))
    unfold copyStringFromTask at hres
    rw [if_neg (by omega), hsize] at hres
    simp only at hres
    rw [if_pos hne] at hres
    obtain ⟨-, rfl⟩ := Prod.mk.inj (Option.some.inj hres)
    refine ⟨hheap, by rw [hmem], fun x hx => ?_⟩
    rw [hmem] at hx
    exact absurd rfl hx
  · obtain ⟨hfree, -⟩ := kzalloc_bounce hclean hlo (Nat.le_of_lt hhi) hne
    have hb := bounced_kzalloc hclean hdir hlo (Nat.le_of_lt hhi) hne
    have hn : n ≤ 2 ^ 32 := Nat.le_of_lt (Nat.lt_trans hhi (by decide))
    rw [copyStringFromTask_eq hclean hdir hlo hhi hne] at hres
    obtain ⟨m, hm, hres⟩ := Option.bind_eq_some_iff.mp hres
    obtain ⟨m', hm', hres⟩ := Option.bind_eq_some_iff.mp hres
    obtain ⟨-, rfl⟩ := Prod.mk.inj (Option.some.inj hres)
    have hsame := strncpy_frame hn hlo (lands_bounce hdir hb (Nat.le_of_lt hhi))
      (fun _ _ => rfl) hm
    obtain ⟨-, htabled, hout⟩ := restored hdir hb (Nat.le_of_lt hhi) hsame
    have hcopy :=
      strncpy_frame hn hlo (lands_kernel _ phys n) (fun _ _ => rfl) hm'
    have hview := htabled.congr (hcopy.sameOn hbuf.chunk)
      (hcopy.sameOn hbuf.dir) fun i hi => hcopy.sameOn (hbuf.table i hi)
    refine ⟨rfl, hview.view, fun x hx => ?_⟩
    by_cases hphys : InSpan phys n x
    · exact Or.inl hphys
    · refine Or.inr ⟨_, hfree, ?_⟩
      by_contra htmp
      exact hx ((hcopy x hphys).trans (hout x htmp))

/-- What is shown with the entry of the bounce page set is copied. -/
theorem copyStringFromTask_shows (hclean : Clean r.heap)
    (hdir : TaskDir r task p) (hlo : 1 ≤ n) (hhi : n < pagingPageSize)
    (hbuf : BufferApart r p phys n) (hne : (kzalloc n r).1 ≠ 0#32)
    (h : Shows (pageWalk p.dir)
      (bounceMemory p (kzalloc n r).1 (kzalloc n r).2.mem) virt (kzalloc n r).1
        n (n - 1) cs) :
    ∃ r', copyStringFromTask task virt phys n r = some (benosAllOk, r')
      ∧ HoldsBytes r'.mem phys (cs ++ [0x00]) := by
  have hle := h.le
  obtain ⟨hfree, -⟩ := kzalloc_bounce hclean hlo (Nat.le_of_lt hhi) hne
  have hb := bounced_kzalloc hclean hdir hlo (Nat.le_of_lt hhi) hne
  have hn : n ≤ 2 ^ 32 := Nat.le_of_lt (Nat.lt_trans hhi (by decide))
  have hlands := lands_bounce hdir hb (Nat.le_of_lt hhi)
  have hfirst := strncpy_shows hn hlo hlands h
  have hlen : (cs ++ [(0x00 : UInt8)]).length ≤ n := by
    rw [List.length_append, List.length_singleton]
    omega
  -- the copy stays on the bounce page when its entry is put back
  have hheld : HoldsBytes (store32 (writeList
      (bounceMemory p (kzalloc n r).1 (kzalloc n r).2.mem) (kzalloc n r).1
        (cs ++ [0x00])) (p.entryAddress (pageOf (kzalloc n r).1))
      (load32 (kzalloc n r).2.mem (p.entryAddress (pageOf (kzalloc n r).1))))
      (kzalloc n r).1 (cs ++ [0x00]) := by
    refine (holdsBytes_writeList _ _ (Nat.le_trans hlen hn)).congr
      (writeBytes_sameOn _ _ (hb.apart.entry _).symm)
      (Nat.le_trans hlen (Nat.le_of_lt hhi)) (Nat.le_trans hlen hn)
  have hsecond := strncpy_shows hn hlo (lands_kernel _ phys n)
    (shows_copied (hbuf.free _ hfree) (Nat.le_of_lt hhi) (by omega)
      h.nonzero hheld)
  have hrun := copyStringFromTask_eq hclean hdir hlo hhi hne virt phys
  simp only at hrun
  rw [hfirst, Option.bind_some, hsecond, Option.bind_some] at hrun
  exact ⟨_, hrun, holdsBytes_writeList _ _ (Nat.le_trans hlen hn)⟩

/-- A string that is clear of the bounce page and of its table entry is in
the buffer when the call succeeds: what it answers otherwise is that there
is no bounce page. -/
theorem copyStringFromTask_copies (hclean : Clean r.heap)
    (hdir : TaskDir r task p) (hlo : 1 ≤ n) (hhi : n < pagingPageSize)
    (hbuf : BufferApart r p phys n)
    (h : UserString r.mem p.dir virt (n - 1) cs)
    (hpage : ClearOfPage r.mem p.dir virt (n - 1) cs (kzalloc n r).1)
    (hword : ClearOfWord r.mem p.dir virt (n - 1) cs
      (p.entryAddress (pageOf (kzalloc n r).1))) :
    ∃ r', (copyStringFromTask task virt phys n r = some (benosAllOk, r')
        ∧ HoldsBytes r'.mem phys (cs ++ [0x00]))
      ∨ (copyStringFromTask task virt phys n r = some (-enomem, r')
        ∧ (kzalloc n r).1 = 0#32) := by
  have hsize : (toUint32 (n : Int)).toNat = n :=
    toNat_toUint32 (Nat.lt_trans hhi (by decide))
  by_cases hne : (kzalloc n r).1 = 0#32
  · refine ⟨(kzalloc n r).2, Or.inr ⟨?_, hne⟩⟩
    unfold copyStringFromTask
    rw [if_neg (by omega), hsize]
    simp only
    rw [if_pos hne]
  · have hb := bounced_kzalloc hclean hdir hlo (Nat.le_of_lt hhi) hne
    obtain ⟨r', hrun, hholds⟩ := copyStringFromTask_shows hclean hdir
      hlo hhi hbuf hne (shows_bounce hdir hb (Nat.le_of_lt hhi) h hpage hword)
    exact ⟨r', Or.inl ⟨hrun, hholds⟩⟩

/-- The call reads only, on success and on failure; and a string that is
clear of the bounce page and of its table entry is in the buffer when the
call succeeds: what it answers otherwise is that there is no bounce page. -/
theorem copy_string_from_task_exact (virt : Addr) {max : Int}
    (hclean : Clean r.heap) (hdir : TaskDir r task p) (hlo : 1 ≤ max)
    (hhi : max ≤ 4095)
    (hbuf : BufferApart r p phys max.toNat) :
    (∀ res r', copyStringFromTask task virt phys max r = some (res, r') →
      PureRead p phys max.toNat r r')
    ∧ ∀ cs, UserString r.mem p.dir virt (max - 1).toNat cs →
      ClearOfPage r.mem p.dir virt (max - 1).toNat cs (bouncePage r max) →
      ClearOfWord r.mem p.dir virt (max - 1).toNat cs
        (p.entryAddress (pageOf (bouncePage r max))) →
      ∃ r', (copyStringFromTask task virt phys max r = some (benosAllOk, r')
          ∧ HoldsBytes r'.mem phys (cs ++ [0x00]))
        ∨ (copyStringFromTask task virt phys max r = some (-enomem, r')
          ∧ bouncePage r max = 0#32) := by
  obtain ⟨n, rfl⟩ : ∃ n : Nat, max = n := ⟨max.toNat, by omega⟩
  have hsize : (toUint32 (n : Int)).toNat = n := toNat_toUint32 (by omega)
  have hk : ((n : Int) - 1).toNat = n - 1 := by omega
  have hn : n < pagingPageSize := by
    simp only [pagingPageSize]
    omega
  unfold bouncePage
  rw [Int.toNat_natCast] at hbuf
  rw [hsize, hk, Int.toNat_natCast]
  exact ⟨fun res r' hres => copyStringFromTask_pure hclean hdir (by omega) hn
    hbuf hres, fun cs h hpage hword => copyStringFromTask_copies hclean hdir
      (by omega) hn hbuf h hpage hword⟩

end Results

-- ================================================================= one task

/-- Word `k` of a memory with a task whose directory maps every page to
itself. Behind the tables every word is the string `ok`. -/
def oneTaskWord (k : Nat) : BitVec 32 :=
  if k < (0x1000 + 6) * 1024 then objectWord 0 k
  else if k < (0x1000 + 1030) * 1024 then
    pageAddress (BitVec.ofNat 20 (k - (0x1000 + 6) * 1024)) ||| 5#32
  else 0x00006B6F#32

abbrev oneTaskMemory : Bytes := wordMemory oneTaskWord

/-- That memory, with a heap beside it. -/
def oneTask (heap : Heap) : Ram := ⟨heap, oneTaskMemory, true⟩

/-- A memory of words with that task. -/
def HasTask (w : Nat → BitVec 32) : Prop :=
  ∀ k, 0x1000 * 1024 ≤ k → k < (0x1000 + 1030) * 1024 → w k = oneTaskWord k

section HasTask

variable {w : Nat → BitVec 32} (hw : HasTask w)

include hw

theorem links_oneTask : (objectsAt 0).Links (wordMemory w) :=
  links_objectsAt (show 0 < 2 ^ 15 by decide) fun k hlo hhi =>
    (hw k hlo (by omega)).trans (if_pos (by omega))

/-- The directory is the one of `paging_new_4gb`. -/
theorem tabled_oneTask : Tabled (objectsAt 0).parts (wordMemory w)
    (pagingNew4gbDir (pagingIsPresent ||| pagingAccessFromAll)) := by
  refine ⟨(links_oneTask hw).dirOk, fun i hi => ?_, ?_⟩
  · simp only [pagingTotalEntriesPerTable] at hi
    -- a directory entry is a block's address with the flags below it
    have hentry : oneTaskWord ((0x1000 + 5) * 1024 + i)
        = blockAddress (6 + i) ||| 7#32 := by
      unfold oneTaskWord objectWord
      simp only
      rw [if_pos (by omega), if_neg (by omega), if_neg (by omega),
        if_neg (by omega), if_pos (by omega),
        show ((0x1000 + 5) * 1024 + i) % 1024 = i by omega]
    have hword : load32 (wordMemory w)
        (blockAddress 5 + BitVec.ofNat 32 (4 * i))
          = blockAddress (6 + i) ||| 7#32 :=
      (load32_block w (by decide) (by omega)).trans
        ((hw _ (by omega) (by omega)).trans hentry)
    show entryPresent (load32 (wordMemory w)
      (blockAddress 5 + BitVec.ofNat 32 (4 * i))) = true
    unfold entryPresent
    rw [hword, BitVec.getLsbD_or]
    exact Bool.or_true _
  · funext v
    have hv := v.isLt
    unfold dirView pagingGet
    rw [pagingEntryAddress_eq (links_oneTask hw).dirOk]
    show load32 (wordMemory w) (blockAddress
      (0 + 6 + v.toNat / pagingTotalEntriesPerTable)
        + BitVec.ofNat 32 (4 * (v.toNat % pagingTotalEntriesPerTable))) = _
    simp only [pagingTotalEntriesPerTable]
    rw [load32_block w (by omega) (by omega), hw _ (by omega) (by omega)]
    unfold oneTaskWord
    rw [if_neg (by omega), if_pos (by omega),
      show (0x1000 + (0 + 6 + v.toNat / 1024)) * 1024 + v.toNat % 1024
        - (0x1000 + 6) * 1024 = v.toNat by omega, BitVec.ofNat_toNat,
      BitVec.setWidth_eq]
    rfl

/-- Every byte is where its address says. -/
theorem pageWalk_oneTask (a : Addr) :
    pageWalk (objectsAt 0).parts.dir (wordMemory w) a = some a := by
  have hpresent : entryPresent (pagingNew4gbDir
      (pagingIsPresent ||| pagingAccessFromAll) (pageOf a)) = true := by
    unfold entryPresent pagingNew4gbDir
    rw [BitVec.getLsbD_or]
    exact Bool.or_true _
  rw [(tabled_oneTask hw).pageWalk, if_pos hpresent]
  unfold pagingNew4gbDir
  rw [entryFrame_or _ (by decide), BitVec.add_comm, BitVec.sub_add_cancel]

/-- A string is on a page by its addresses and by those it is at, or by
neither. -/
theorem clearOfPage_oneTask {tmp virt : Addr} {k : Nat} {cs : List UInt8}
    (hal : tmp.toNat % pagingPageSize = 0)
    (h : ∀ i ≤ cs.length, i < k →
      ¬ InSpan tmp pagingPageSize (virt + BitVec.ofNat 32 i)) :
    ClearOfPage (wordMemory w) (objectsAt 0).parts.dir virt k cs tmp := by
  refine fun i hi hik => ⟨fun heq => ?_, fun a ha hin => ?_⟩
  · exact h i hi hik (inSpan_of_pageOf hal heq)
  · rw [pageWalk_oneTask hw] at ha
    rw [← Option.some.inj ha] at hin
    exact h i hi hik hin

end HasTask

theorem hasTask_oneTask : HasTask oneTaskWord := fun _ _ _ => rfl

/-- The blocks lie in the heap's part of the memory. -/
theorem blockAddress_bounds {b : Nat} (hb : b < kernelHeapBlocks) :
    0x01000000 ≤ (blockAddress b).toNat
      ∧ (blockAddress b).toNat + pagingPageSize ≤ 0x07400000 := by
  have hhead : benosHeadAddress.toNat = 0x01000000 := rfl
  simp only [kernelHeapBlocks] at hb
  rw [toNat_blockAddress (by omega), hhead]
  simp only [benosHeapBlockSize, pagingPageSize]
  omega

/-- What ends below the heap is apart from its blocks. -/
theorem spansApart_block {a : Addr} {n b : Nat}
    (ha : a.toNat + n < 0x01000000) (hb : b < kernelHeapBlocks) :
    SpansApart a n (blockAddress b) pagingPageSize := by
  obtain ⟨hlo, hhi⟩ := blockAddress_bounds hb
  simp only [pagingPageSize] at *
  refine spansApart_of_dist ?_ ?_ <;> rw [BitVec.toNat_sub] <;> omega

theorem bouncePage_eq (r : Ram) {n : Nat} (hn : n < pagingPageSize) :
    bouncePage r n = (kzalloc n r).1 := by
  unfold bouncePage
  rw [toNat_toUint32 (Nat.lt_trans hn (by decide))]

section OneTask

variable {r : Ram}
  (hram : RamOk r ((objectsAt 0).owned ++ (objectsAt 1030).owned))

include hram

theorem taskDir_oneTask {w : Nat → BitVec 32} (hw : HasTask w)
    (hmem : r.mem = wordMemory w) :
    TaskDir r (objectsAt 0).task (objectsAt 0).parts := by
  refine taskDir_objects hram ?_ ?_
  · rw [hmem]
    exact links_oneTask hw
  · rw [hmem]
    exact (tabled_oneTask hw).present

/-- A request of a block is served. -/
theorem bounce_oneTask (hserves : ∀ size, blocksFor size ≤ 20000 →
      Serves r.heap size) {n : Nat} (hlo : 1 ≤ n) (hhi : n < pagingPageSize) :
    (kzalloc n r).1 ≠ 0#32 ∧ FreeBlock r.heap (kzalloc n r).1 := by
  have hone : blocksFor n ≤ 20000 := by
    simp only [pagingPageSize] at hhi
    simp only [blocksFor, benosHeapBlockSize]
    omega
  have hne := ((Lent.refl r.heap).kzalloc (r := r) hram.clean hlo
    (hserves n hone)).1
  exact ⟨hne, (kzalloc_bounce hram.clean hlo (Nat.le_of_lt hhi) hne).1⟩

/-- A buffer on the stack of the kernel, below the heap. -/
theorem bufferApart_oneTask {n : Nat} (hn : n < pagingPageSize) :
    BufferApart r (objectsAt 0).parts 0x00050000#32 n := by
  have hblock : ∀ b < kernelHeapBlocks,
      SpansApart 0x00050000#32 n (blockAddress b) pagingPageSize := by
    intro b hb
    have hphys : (0x00050000#32).toNat = 0x00050000 := rfl
    simp only [pagingPageSize] at hn
    exact spansApart_block (by omega) hb
  refine ⟨?_, fun x hx hx' => ?_, hblock 5 (by decide), fun i hi => ?_⟩
  · rintro tmp ⟨b, hb, rfl, -⟩
    exact hblock b (Nat.lt_of_lt_of_le hb hram.clean.total)
  · exact hblock 4 (by decide) x hx (Nat.lt_trans hx' (by decide))
  · refine hblock (0 + 6 + i) ?_
    simp only [pagingTotalEntriesPerTable, kernelHeapBlocks] at *
    omega

end OneTask

theorem toNat_beyond {i : Nat} (hi : i ≤ 4096) :
    ((0x08000000#32 : Addr) + BitVec.ofNat 32 i).toNat = 0x08000000 + i := by
  simp only [BitVec.toNat_add, BitVec.toNat_ofNat]
  omega

/-- A string beyond the heap is on no block of it, and in no table. -/
theorem clear_oneTask {w : Nat → BitVec 32} (hw : HasTask w) {b : Nat}
    (hb : b < kernelHeapBlocks)
    (hal : (blockAddress b).toNat % pagingPageSize = 0)
    {cs : List UInt8} (hlen : cs.length ≤ 4096) (k : Nat) :
    ClearOfPage (wordMemory w) (objectsAt 0).parts.dir 0x08000000#32 k cs
        (blockAddress b)
      ∧ ClearOfWord (wordMemory w) (objectsAt 0).parts.dir 0x08000000#32 k cs
        ((objectsAt 0).parts.entryAddress (pageOf (blockAddress b))) := by
  obtain ⟨hlo, hhi⟩ := blockAddress_bounds hb
  constructor
  · refine clearOfPage_oneTask hw hal fun i hi _ hin => ?_
    unfold InSpan at hin
    rw [BitVec.toNat_sub, toNat_beyond (by omega)] at hin
    simp only [pagingPageSize] at *
    omega
  · intro i hi _ a ha hin
    rw [pageWalk_oneTask hw] at ha
    rw [← Option.some.inj ha] at hin
    have hin' : InSpan (blockAddress (0 + 6
        + (pageOf (blockAddress b)).toNat / pagingTotalEntriesPerTable))
        pagingPageSize _ := hin.of_part (entryAddress_part _)
    have htable := entryTable_lt (pageOf (blockAddress b))
    simp only [pagingTotalEntriesPerTable] at htable hin'
    obtain ⟨hlo', hhi'⟩ := blockAddress_bounds (show 0 + 6
      + (pageOf (blockAddress b)).toNat / 1024 < kernelHeapBlocks by
        simp only [kernelHeapBlocks]
        omega)
    unfold InSpan at hin'
    rw [BitVec.toNat_sub, toNat_beyond (by omega)] at hin'
    simp only [pagingPageSize] at *
    omega

/-- The string `ok` beyond the heap is copied. -/
theorem copy_string_from_task_exact_ok :
    (∀ res r', copyStringFromTask (objectsAt 0).task 0x08000000#32
        0x00050000#32 8 (oneTask twoFresh.heap) = some (res, r') →
      PureRead (objectsAt 0).parts 0x00050000#32 8 (oneTask twoFresh.heap) r')
    ∧ ∃ r', copyStringFromTask (objectsAt 0).task 0x08000000#32
        0x00050000#32 8 (oneTask twoFresh.heap) = some (benosAllOk, r')
      ∧ HoldsBytes r'.mem 0x00050000#32 [0x6F, 0x6B, 0x00] := by
  have hserves := serves_twoFresh
  have hok := ramOk_twoFresh.1
  generalize twoFresh = fresh at hserves hok
  have hram : RamOk (oneTask fresh.heap) _ := hok.of_heap rfl
  generalize fresh.heap = heap at hram hserves
  obtain ⟨hne, hfree⟩ := bounce_oneTask hram hserves
    (show 1 ≤ 8 by decide) (show 8 < pagingPageSize by decide)
  have htmp := bouncePage_eq (oneTask heap) (show 8 < pagingPageSize by decide)
  rw [← htmp] at hne hfree
  obtain ⟨hpure, hcopy⟩ := copy_string_from_task_exact 0x08000000#32
    hram.clean (taskDir_oneTask hram hasTask_oneTask rfl)
    (show (1 : Int) ≤ 8 by decide)
    (show (8 : Int) ≤ 4095 by decide)
    (bufferApart_oneTask hram
      (show (8 : Int).toNat < pagingPageSize by decide))
  refine ⟨hpure, ?_⟩
  rw [show ((8 : Nat) : Int) = 8 from rfl] at hne hfree
  generalize bouncePage (oneTask heap) 8 = tmp at hne hfree hcopy
  have hal := hfree.aligned hram.clean
  obtain ⟨b, hb, rfl, -⟩ := hfree
  have hstring : UserString oneTaskMemory (objectsAt 0).parts.dir
      0x08000000#32 7 [0x6F, 0x6B] := by
    refine ⟨by decide, by simp, fun i hi _ =>
      ⟨_, pageWalk_oneTask hasTask_oneTask _, ?_⟩⟩
    have hi' : i ≤ 2 := hi
    show byteOf (oneTaskWord (_ / 4)) (_ % 4) = _
    rw [toNat_beyond (by omega),
      show (0x08000000 + i) / 4 = 0x02000000 by omega,
      show (0x08000000 + i) % 4 = i by omega]
    unfold oneTaskWord
    rw [if_neg (by decide), if_neg (by decide)]
    have hcases : i = 0 ∨ i = 1 ∨ i = 2 := by omega
    rcases hcases with rfl | rfl | rfl <;> rfl
  obtain ⟨hpage, hword⟩ := clear_oneTask hasTask_oneTask
    (Nat.lt_of_lt_of_le hb hram.clean.total) hal
    (show [0x6F, 0x6B].length ≤ 4096 by decide) 7
  obtain ⟨r', ⟨hrun, hholds⟩ | ⟨-, hnull⟩⟩ := hcopy [0x6F, 0x6B] hstring hpage
    hword
  · exact ⟨r', hrun, hholds⟩
  · exact absurd hnull hne

/-- The one byte of the entry of the bounce page is a string of the task,
5, but what is copied is 7, the entry as it is while the page is mapped. -/
theorem copy_string_reads_entry :
    let r := oneTask twoFresh.heap
    let p := (objectsAt 0).parts
    let virt := p.entryAddress (pageOf (bouncePage r 2))
    Clean r.heap ∧ TaskDir r (objectsAt 0).task p
      ∧ BufferApart r p 0x00050000#32 2
      ∧ UserString r.mem p.dir virt 1 [0x05]
      ∧ ClearOfPage r.mem p.dir virt 1 [0x05] (bouncePage r 2)
      ∧ ∃ r', copyStringFromTask (objectsAt 0).task virt 0x00050000#32 2 r
          = some (benosAllOk, r')
        ∧ ¬ HoldsBytes r'.mem 0x00050000#32 ([0x05] ++ [0x00]) := by
  have hserves := serves_twoFresh
  have hok := ramOk_twoFresh.1
  generalize twoFresh = fresh at hserves hok
  have hram : RamOk (oneTask fresh.heap) _ := hok.of_heap rfl
  generalize fresh.heap = heap at hram hserves
  obtain ⟨hne, hfree⟩ := bounce_oneTask hram hserves
    (show 1 ≤ 2 by decide) (show 2 < pagingPageSize by decide)
  have hdir := taskDir_oneTask hram hasTask_oneTask rfl
  have hbuf := bufferApart_oneTask hram (show 2 < pagingPageSize by decide)
  have hb := bounced_kzalloc hram.clean hdir (show 1 ≤ 2 by decide)
    (show 2 ≤ pagingPageSize by decide) hne
  obtain ⟨r', hrun, hholds⟩ := copyStringFromTask_shows hram.clean hdir
    (show 1 ≤ 2 by decide) (show 2 < pagingPageSize by decide) hbuf hne
    (shows_entry hdir hb (pageWalk_oneTask hasTask_oneTask _))
  have htmp := bouncePage_eq (oneTask heap) (show 2 < pagingPageSize by decide)
  rw [← htmp] at hne hfree hb hrun
  rw [show ((2 : Nat) : Int) = 2 from rfl] at hne hfree hb hrun
  intro r p virt
  have hzero : ∀ i ≤ 1, i < 1 → virt + BitVec.ofNat 32 i = virt := by
    intro i _ hi
    rw [show i = 0 by omega]
    exact BitVec.add_zero virt
  have hold : oneTaskMemory virt = 0x05 := by
    have hload : load32 oneTaskMemory virt = pagingNew4gbDir
        (pagingIsPresent ||| pagingAccessFromAll) (pageOf (bouncePage r 2)) := by
      rw [← (tabled_oneTask hasTask_oneTask).view]
      unfold dirView pagingGet
      rw [pagingEntryAddress_eq (links_oneTask hasTask_oneTask).dirOk]
    have hbyte := byteOf_load32 oneTaskMemory virt (show 0 < 4 by decide)
    rw [hload, hzero 0 (by decide) (by decide)] at hbyte
    rw [← hbyte]
    exact byteOf_entry _ _
  refine ⟨hram.clean, hdir, hbuf, ⟨Nat.le_refl 1, by simp, fun i hi hik =>
    ⟨_, pageWalk_oneTask hasTask_oneTask _, ?_⟩⟩, ?_, r', hrun,
    fun hclaim => ?_⟩
  · rw [hzero i hi hik, show i = 0 by omega]
    exact hold
  · refine clearOfPage_oneTask hasTask_oneTask
      (hfree.aligned hram.clean) fun i hi hik hin => ?_
    rw [hzero i hi hik] at hin
    refine hb.apart.entry (pageOf (bouncePage r 2)) virt hin ?_
    unfold InSpan
    rw [BitVec.sub_self]
    decide
  · have hseven := hholds 0 (by decide)
    rw [hclaim 0 (by decide)] at hseven
    exact absurd hseven (by decide)

end BenOS.Kernel
