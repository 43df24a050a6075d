/-
Mapping a range in memory: `paging_map_to` on a directory that
`paging_new_4gb` made and any calls of the mapping functions followed.

Such a directory has its parts where its words say, and apart
(`ChunkMade`), and each of the calls leaves it so (`dirOk_calls`): a
call stores to entries only, and no entry lies over another part. Then
`paging_map_to` is what it is on the directory the tables stand for
(`pagingMapTo_view`), and there it is one patch of the entries
(`pagingMapTo_dir`). What is left is to read physical addresses off the
patched entries (`MapsExactly`).
-/
import BenOS.Kernel.Proofs.NewTables

namespace BenOS.Kernel

open Lib Memory

-- ============================================================== later calls

/-- A call of a function that changes page-table entries. -/
inductive PagingCall
  | set (virt : Addr) (val : BitVec 32)
  | map (virt phys : Addr) (flags : BitVec 32)
  | mapRange (virt phys : Addr) (count : Nat) (flags : BitVec 32)
  | mapTo (virt phys physEnd : Addr) (flags : BitVec 32)

/-- The call, on the directory of a chunk. -/
def PagingCall.run (chunk : Addr) (m : Bytes) : PagingCall → Int × Bytes
  | .set virt val => chunkSet chunk virt val m
  | .map virt phys flags => pagingMap (chunkSet chunk) virt phys flags m
  | .mapRange virt phys count flags =>
      pagingMapRange (chunkSet chunk) virt phys count flags m
  | .mapTo virt phys physEnd flags =>
      pagingMapTo (chunkSet chunk) virt phys physEnd flags m

/-- The memory after some calls. -/
def pagingCalls (chunk : Addr) : List PagingCall → Bytes → Bytes
  | [], m => m
  | c :: calls, m => pagingCalls chunk calls (c.run chunk m).2

/-- A call leaves the directory where it is. -/
theorem dirOk_call {p : DirParts} {m : Bytes} (hsep : DirApart p)
    (h : DirOk p m) (c : PagingCall) : DirOk p (c.run p.chunk m).2 := by
  have hviews : Views p m m (dirView m p.dir) := ⟨h, rfl, fun _ _ => rfl⟩
  cases c with
  | set virt val =>
      exact (chunkSet_view hsep virt val m _ hviews).2.ok
  | map virt phys flags =>
      exact (pagingMap_sim (chunkSet_view hsep) virt phys flags hviews).2.ok
  | mapRange virt phys count flags =>
      exact (pagingMapRangeLoop_sim (chunkSet_view hsep) flags count virt phys
        0 hviews).2.ok
  | mapTo virt phys physEnd flags =>
      exact (pagingMapTo_view hsep h virt phys physEnd flags).2.ok

theorem dirOk_calls {p : DirParts} (hsep : DirApart p)
    (calls : List PagingCall) : ∀ {m : Bytes}, DirOk p m →
      DirOk p (pagingCalls p.chunk calls m) := by
  induction calls with
  | nil => intro m h; exact h
  | cons c calls ih => intro m h; exact ih (dirOk_call hsep h c)

-- ======================================================= what is required

/-- `paging_map_to` has nothing to map: an address is not the first of
its page, or the range ends before it starts. -/
def MapRefused (virt phys physEnd : Addr) : Prop :=
  virt.toNat % pagingPageSize ≠ 0 ∨ phys.toNat % pagingPageSize ≠ 0
    ∨ physEnd.toNat % pagingPageSize ≠ 0 ∨ physEnd.toNat ≤ phys.toNat

/-- The entry of a page, in the directory of a chunk. -/
def chunkEntry (m : Bytes) (chunk : Addr) (v : BitVec 20) : BitVec 32 :=
  pagingGet m (load32 m chunk) (pageAddress v)

/-- `paging_map_to` either answers with an error and changes nothing, or
answers 0 and maps the bytes of the range one behind the other, with the
flags, and changes no other entry. -/
structure MapsExactly (chunk virt phys physEnd : Addr) (flags : BitVec 32)
    (m : Bytes) (res : Int) (m' : Bytes) : Prop where
  refused : MapRefused virt phys physEnd → res < 0 ∧ m' = m
  done : ¬ MapRefused virt phys physEnd → res = 0
    ∧ (∀ d < (physEnd - phys).toNat,
        pagingGetPhysAddr m' (load32 m' chunk) (virt + BitVec.ofNat 32 d)
            = phys + BitVec.ofNat 32 d
          ∧ chunkEntry m' chunk (pageOf (virt + BitVec.ofNat 32 d))
              &&& 0xFFF#32 = flags)
    ∧ ∀ v, (∀ d < (physEnd - phys).toNat,
        pageOf (virt + BitVec.ofNat 32 d) ≠ v) →
        chunkEntry m' chunk v = chunkEntry m chunk v

-- ================================================================= one call

variable {p : DirParts} {m : Bytes}

/-- A byte of the range lies in the page that many pages behind the
first. -/
theorem pageOf_range {virt : Addr} (h : virt.toNat % pagingPageSize = 0)
    (δ : Addr) : pageOf (virt + δ) = pageOf virt + pageOf δ := by
  rw [BitVec.add_comm virt, pageOf_add h, BitVec.add_comm]

/-- A physical address, read off an entry made from a page and flags. -/
theorem pagingGetPhysAddr_entry (q : BitVec 20) {flags : BitVec 32}
    (hflags : flags.toNat < 2 ^ 12) {dir x : Addr}
    (hentry : pagingGet m dir (pageAddress (pageOf x))
      = pageAddress q ||| flags) :
    pagingGetPhysAddr m dir x
      = pageAddress q + (x - pageAddress (pageOf x)) := by
  unfold pagingGetPhysAddr
  simp only
  rw [pagingAlignToLowerPage_eq, hentry, tableAddress_or q hflags]

/-- One call, on a directory whose parts are in order and apart. -/
theorem mapsExactly (hsep : DirApart p) (hok : DirOk p m)
    (virt phys physEnd : Addr) {flags : BitVec 32}
    (hflags : flags.toNat < 2 ^ 12) :
    MapsExactly p.chunk virt phys physEnd flags m
      (pagingMapTo (chunkSet p.chunk) virt phys physEnd flags m).1
      (pagingMapTo (chunkSet p.chunk) virt phys physEnd flags m).2 := by
  constructor
  · intro href
    have hsame : pagingMapTo (chunkSet p.chunk) virt phys physEnd flags m
        = (-einvarg, m) := by
      unfold pagingMapTo
      unfold MapRefused at href
      split
      · rfl
      · split
        · rfl
        · split
          · rfl
          · rw [if_pos (by omega)]
    rw [hsame]
    exact ⟨(by decide : -einvarg < 0), rfl⟩
  · intro hgo
    unfold MapRefused at hgo
    obtain ⟨hres, hviews⟩ :=
      pagingMapTo_view hsep hok virt phys physEnd flags
    have hvirt : virt.toNat % pagingPageSize = 0 := by omega
    have hphys : phys.toNat % pagingPageSize = 0 := by omega
    have hdir := pagingMapTo_dir (pageOf virt) (pageOf phys) flags
      (dirView m p.dir) (show physEnd.toNat % pagingPageSize = 0 by omega)
    rw [pageAddress_pageOf hvirt, pageAddress_pageOf hphys,
      if_neg (by omega)] at hdir
    rw [hdir] at hres hviews
    generalize pagingMapTo (chunkSet p.chunk) virt phys physEnd flags m = r
      at hres hviews
    obtain ⟨res, m'⟩ := r
    have hentry : ∀ v, chunkEntry m' p.chunk v
        = patch MapReq.covers MapReq.value ⟨pageOf virt, pageOf phys,
            (physEnd - phys).toNat / pagingPageSize, flags⟩
            (dirView m p.dir) v := by
      intro v
      refine (?_ : _ = dirView m' p.dir v).trans (congrFun hviews.view v)
      rw [← hviews.ok.dir]
      rfl
    have hlen : (physEnd - phys).toNat = physEnd.toNat - phys.toNat := by
      rw [BitVec.toNat_sub]
      have := physEnd.isLt
      omega
    refine ⟨hres, fun d hd => ?_, fun v hv => ?_⟩
    · -- the entry of the page of byte `d`
      have hδ : (BitVec.ofNat 32 d).toNat = d := by
        rw [BitVec.toNat_ofNat]
        have := (physEnd - phys).isLt
        omega
      generalize BitVec.ofNat 32 d = δ at hδ
      have hpage := pageOf_range hvirt δ
      have hback : pageOf virt + pageOf δ - pageOf virt = pageOf δ := by
        rw [BitVec.add_comm, BitVec.add_sub_cancel]
      have hvalue : chunkEntry m' p.chunk (pageOf (virt + δ))
          = pageAddress (pageOf phys + pageOf δ) ||| flags := by
        rw [hentry, patch, hpage]
        unfold MapReq.covers MapReq.value MapReq.frame
        simp only
        rw [hback, if_pos]
        apply decide_eq_true
        rw [toNat_pageOf, hδ]
        simp only [pagingPageSize] at *
        omega
      refine ⟨?_, ?_⟩
      · rw [pagingGetPhysAddr_entry _ hflags hvalue, hpage, pageAddress_add,
          pageAddress_add, pageAddress_pageOf hvirt, pageAddress_pageOf hphys]
        grind
      · rw [hvalue]
        exact entry_flags _ hflags
    · -- a page that no byte of the range lies in
      rw [hentry, patch, if_neg]
      · show pagingGet m p.dir (pageAddress v) = _
        rw [← hok.dir]
        rfl
      · unfold MapReq.covers
        simp only
        intro hcov
        have hcov' := of_decide_eq_true hcov
        refine hv (pageAddress (v - pageOf virt)).toNat ?_ ?_
        · rw [toNat_pageAddress]
          simp only [pagingPageSize] at *
          omega
        · rw [BitVec.ofNat_toNat, BitVec.setWidth_eq, pageOf_range hvirt,
            pageOf_pageAddress, BitVec.add_comm, BitVec.sub_add_cancel]

-- =========================================================== new directories

/-- A directory made in a heap that is in order has its parts in order
and apart. -/
theorem pagingNew4gb_parts {r r' : Ram} {live : List (Addr × Nat)}
    (h : RamOk r live) {flags : Addr} (hflags : flags.toNat < 2 ^ 12)
    {chunk : Addr} (hnew : pagingNew4gb flags r = some (chunk, r')) :
    ∃ p : DirParts, p.chunk = chunk ∧ DirApart p ∧ DirOk p r'.mem := by
  obtain ⟨p, hp, hmade⟩ :=
    pagingNew4gb_spec hflags ⟨h.saddr, h.total⟩ hnew
  exact ⟨p, hp, hmade.apart, hmade.ok⟩

-- ================================================================= every call

/-- On every page directory that `paging_new_4gb` made, and whatever has
been mapped there since, `paging_map_to` is exact and atomic. -/
theorem paging_map_to_exact {r r' : Ram} {live : List (Addr × Nat)}
    (h : RamOk r live) (dirFlags : BitVec 8) {chunk : Addr}
    (hnew : pagingNew4gb (dirFlags.setWidth 32) r = some (chunk, r'))
    (calls : List PagingCall) (virt phys physEnd : Addr) {flags : BitVec 32}
    (hflags : flags.toNat < 0x1000) :
    MapsExactly chunk virt phys physEnd flags (pagingCalls chunk calls r'.mem)
      (pagingMapTo (chunkSet chunk) virt phys physEnd flags
        (pagingCalls chunk calls r'.mem)).1
      (pagingMapTo (chunkSet chunk) virt phys physEnd flags
        (pagingCalls chunk calls r'.mem)).2 := by
  have hdirFlags : (dirFlags.setWidth 32).toNat < 2 ^ 12 := by
    rw [BitVec.toNat_setWidth]
    have := dirFlags.isLt
    omega
  obtain ⟨p, rfl, hsep, hok⟩ := pagingNew4gb_parts h hdirFlags hnew
  exact mapsExactly hsep (dirOk_calls hsep calls hok) virt phys physEnd hflags

/-- The kernel's heap with nothing taken makes a directory; two pages are
mapped into it, round the end of the memory and over a page that was
mapped before. -/
theorem paging_map_to_exact_fresh :
    ∃ chunk r', pagingNew4gb (BitVec.setWidth 32 1#8)
        ⟨emptyHeap, fun _ => 0x00, true⟩ = some (chunk, r')
      ∧ MapsExactly chunk 0xFFFFF000#32 0x00400000#32 0x00402000#32 7#32
          (pagingCalls chunk [.mapTo 0#32 0x1000#32 0x3000#32 1#32] r'.mem)
          (pagingMapTo (chunkSet chunk) 0xFFFFF000#32 0x00400000#32
            0x00402000#32 7#32
            (pagingCalls chunk [.mapTo 0#32 0x1000#32 0x3000#32 1#32]
              r'.mem)).1
          (pagingMapTo (chunkSet chunk) 0xFFFFF000#32 0x00400000#32
            0x00402000#32 7#32
            (pagingCalls chunk [.mapTo 0#32 0x1000#32 0x3000#32 1#32]
              r'.mem)).2 := by
  obtain ⟨chunk, r', hnew, -⟩ := pagingNew4gb_room (BitVec.setWidth 32 1#8)
    (room_empty (fun _ => 0x00) true) (by decide)
  exact ⟨chunk, r', hnew, paging_map_to_exact
    (ramOk_empty (fun _ => 0x00) true) 1#8 hnew _ _ _ _ (by decide)⟩

end BenOS.Kernel
