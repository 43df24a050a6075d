/-
What a mapping call does to a page directory: it writes one request over
it.

`MapReq` is a request in pages: so many virtual pages from a first one
on, each to the physical page as far behind a first one. Page numbers
wrap, as the source's addresses do. `pagingMapTo_dir` says that
`paging_map_to` either refuses its arguments or writes their request
over the directory, and `entryFrame_value` and its companions read the
entries written.
-/
import BenOS.Memory.Paging
import BenOS.Lib.Overlay

namespace BenOS.Memory

open Lib

-- =============================================================== requests

/-- A stretch of virtual pages, mapped to a stretch of physical ones. -/
structure MapReq where
  virt : BitVec 20
  phys : BitVec 20
  pages : Nat
  flags : BitVec 32
deriving DecidableEq

/-- The request has a virtual page in its stretch. -/
def MapReq.covers (r : MapReq) (v : BitVec 20) : Bool :=
  (v - r.virt).toNat < r.pages

/-- The physical page a virtual page is mapped to. -/
def MapReq.frame (r : MapReq) (v : BitVec 20) : BitVec 20 :=
  r.phys + (v - r.virt)

/-- The entry a virtual page is given. -/
def MapReq.value (r : MapReq) (v : BitVec 20) : BitVec 32 :=
  pageAddress (r.frame v) ||| r.flags

/-- The directory with the requests written over it. -/
abbrev mapped (rs : List MapReq) (d : PageDir) : PageDir :=
  overlay MapReq.covers MapReq.value rs d

/-- The last of the requests to cover a page. -/
abbrev lastRequest (rs : List MapReq) (v : BitVec 20) : Option MapReq :=
  lastCover MapReq.covers rs v

-- ================================================================== pages

theorem toNat_pageOf (a : Addr) :
    (pageOf a).toNat = a.toNat / pagingPageSize := by
  unfold pageOf
  rw [BitVec.extractLsb'_toNat, Nat.shiftRight_eq_div_pow]
  have := a.isLt
  simp only [pagingPageSize]
  omega

theorem toNat_pageAddress (p : BitVec 20) :
    (pageAddress p).toNat = p.toNat * pagingPageSize := by
  unfold pageAddress
  rw [BitVec.toNat_append, BitVec.toNat_ofNat, Nat.zero_mod, Nat.or_zero,
    Nat.shiftLeft_eq]

@[simp] theorem pageOf_pageAddress (p : BitVec 20) :
    pageOf (pageAddress p) = p := by
  apply BitVec.eq_of_toNat_eq
  rw [toNat_pageOf, toNat_pageAddress]
  exact Nat.mul_div_cancel _ (by decide)

/-- An aligned address is the first of its page. -/
theorem pageAddress_pageOf {a : Addr} (h : a.toNat % pagingPageSize = 0) :
    pageAddress (pageOf a) = a := by
  apply BitVec.eq_of_toNat_eq
  rw [toNat_pageAddress, toNat_pageOf]
  simp only [pagingPageSize] at *
  omega

theorem pageAddress_aligned (p : BitVec 20) :
    (pageAddress p).toNat % pagingPageSize = 0 := by
  rw [toNat_pageAddress]
  exact Nat.mul_mod_left _ _

/-- The page behind a page. -/
theorem pageAddress_succ (p : BitVec 20) :
    pageAddress p + BitVec.ofNat 32 pagingPageSize = pageAddress (p + 1#20) := by
  apply BitVec.eq_of_toNat_eq
  rw [BitVec.toNat_add, toNat_pageAddress, toNat_pageAddress, BitVec.toNat_add]
  simp only [pagingPageSize, BitVec.toNat_ofNat]
  have := p.isLt
  omega

theorem pageAddress_add (p q : BitVec 20) :
    pageAddress (p + q) = pageAddress p + pageAddress q := by
  apply BitVec.eq_of_toNat_eq
  rw [BitVec.toNat_add, toNat_pageAddress, toNat_pageAddress,
    toNat_pageAddress, BitVec.toNat_add]
  simp only [pagingPageSize]
  omega

/-- Moving an address by whole pages moves its page. -/
theorem pageOf_add {a δ : Addr} (h : δ.toNat % pagingPageSize = 0) :
    pageOf (a + δ) = pageOf a + pageOf δ := by
  apply BitVec.eq_of_toNat_eq
  rw [BitVec.toNat_add, toNat_pageOf, toNat_pageOf, toNat_pageOf,
    BitVec.toNat_add]
  simp only [pagingPageSize] at *
  omega

/-- The lower page boundary is where the page starts. -/
theorem pagingAlignToLowerPage_eq (a : Addr) :
    pagingAlignToLowerPage a = pageAddress (pageOf a) := by
  apply BitVec.eq_of_toNat_eq
  unfold pagingAlignToLowerPage
  rw [toNat_pageAddress, toNat_pageOf, BitVec.toNat_sub, BitVec.toNat_ofNat]
  simp only [pagingPageSize]
  have := a.isLt
  omega

theorem pagingAlignAddress_aligned (a : Addr) :
    (pagingAlignAddress a).toNat % pagingPageSize = 0 := by
  unfold pagingAlignAddress
  split
  · simp only [BitVec.toNat_sub, BitVec.toNat_add, BitVec.toNat_ofNat,
      pagingPageSize] at *
    omega
  · omega

/-- Any other goes up to the next one. -/
theorem toNat_pagingAlignAddress {a : Addr}
    (h : a.toNat + pagingPageSize ≤ 2 ^ 32) :
    (pagingAlignAddress a).toNat
      = (a.toNat + (pagingPageSize - 1)) / pagingPageSize * pagingPageSize := by
  unfold pagingAlignAddress
  simp only [pagingPageSize] at *
  split
  · rw [BitVec.toNat_sub, BitVec.toNat_add]
    simp only [BitVec.toNat_ofNat]
    omega
  · omega

/-- An address on a page boundary is where it is. -/
theorem pagingAlignAddress_of_aligned {a : Addr}
    (h : a.toNat % pagingPageSize = 0) : pagingAlignAddress a = a := by
  unfold pagingAlignAddress
  rw [if_neg (by omega)]

-- ================================================================ mapping

/-- One page is mapped. -/
theorem pagingMap_dir (v p : BitVec 20) (flags : BitVec 32) (d : PageDir) :
    pagingMap PageDir.set (pageAddress v) (pageAddress p) flags d
      = (0, Function.update d v (pageAddress p ||| flags)) := by
  have hv := pageAddress_aligned v
  have hp := pageAddress_aligned p
  unfold pagingMap PageDir.set
  rw [if_neg (by omega), pageOf_pageAddress]
  have hal : pagingIsAlligned (pageAddress v) = true := by
    unfold pagingIsAlligned
    rw [hv]
    rfl
  rw [hal]
  rfl

/-- A stretch of pages is mapped: the request is written over the
directory. -/
theorem pagingMapRange_dir (flags : BitVec 32) (count : Nat) :
    ∀ (v p : BitVec 20) (d : PageDir), count ≤ 2 ^ 20 →
      pagingMapRangeLoop PageDir.set flags count (pageAddress v)
          (pageAddress p) 0 d
        = (0, patch MapReq.covers MapReq.value ⟨v, p, count, flags⟩ d) := by
  induction count with
  | zero =>
      intro v p d _
      refine Prod.ext rfl (funext fun k => ?_)
      show d k = patch MapReq.covers MapReq.value ⟨v, p, 0, flags⟩ d k
      unfold patch MapReq.covers
      rw [if_neg (by simp)]
  | succ count ih =>
      intro v p d hle
      unfold pagingMapRangeLoop
      rw [pagingMap_dir]
      show pagingMapRangeLoop PageDir.set flags count _ _ 0 _ = _
      rw [pageAddress_succ, pageAddress_succ, ih _ _ _ (by omega)]
      refine Prod.ext rfl (funext fun k => ?_)
      simp only [patch, MapReq.covers, MapReq.value, MapReq.frame,
        decide_eq_true_eq]
      by_cases hk : k = v
      · -- the first page is not mapped again by the pages behind it
        subst hk
        have hlast : (k - (k + 1#20)).toNat = 2 ^ 20 - 1 := by
          rw [BitVec.toNat_sub, BitVec.toNat_add]
          simp only [BitVec.toNat_ofNat]
          have := k.isLt
          omega
        rw [if_neg (by omega), Function.update_self, BitVec.sub_self,
          if_pos (by simp), BitVec.add_zero]
      · have hstep : (k - v).toNat = (k - (v + 1#20)).toNat + 1 := by
          have hne : k.toNat ≠ v.toNat := fun h => hk (BitVec.eq_of_toNat_eq h)
          rw [BitVec.toNat_sub, BitVec.toNat_sub, BitVec.toNat_add]
          simp only [BitVec.toNat_ofNat]
          have := k.isLt
          have := v.isLt
          omega
        have hframe : p + 1#20 + (k - (v + 1#20)) = p + (k - v) := by
          rw [BitVec.add_assoc]
          congr 1
          apply BitVec.eq_of_toNat_eq
          rw [BitVec.toNat_add, hstep]
          simp only [BitVec.toNat_ofNat]
          have := (k - v).isLt
          omega
        rw [hstep, Function.update_of_ne hk, hframe]
        by_cases hlt : (k - (v + 1#20)).toNat < count
        · rw [if_pos hlt, if_pos (by omega)]
        · rw [if_neg hlt, if_neg (by omega)]

/-- `paging_map_to` on aligned arguments: the end is not behind the
start, or the request is written over the directory. -/
theorem pagingMapTo_dir (v p : BitVec 20) {physEnd : Addr} (flags : BitVec 32)
    (d : PageDir) (hend : physEnd.toNat % pagingPageSize = 0) :
    pagingMapTo PageDir.set (pageAddress v) (pageAddress p) physEnd flags d
      = if physEnd.toNat ≤ (pageAddress p).toNat then (-einvarg, d)
        else
          (0, patch MapReq.covers MapReq.value
            ⟨v, p, (physEnd - pageAddress p).toNat / pagingPageSize, flags⟩
            d) := by
  have hv := pageAddress_aligned v
  have hp := pageAddress_aligned p
  unfold pagingMapTo
  rw [if_neg (by omega), if_neg (by omega), if_neg (by omega)]
  by_cases hle : physEnd.toNat ≤ (pageAddress p).toNat
  · rw [if_pos hle, if_pos hle]
  · rw [if_neg hle, if_neg hle]
    refine pagingMapRange_dir flags _ v p d ?_
    have := (physEnd - pageAddress p).isLt
    simp only [pagingPageSize]
    omega

-- ================================================================ entries

/-- An entry put together from a page and flags names that page. -/
theorem entryFrame_or (p : BitVec 20) {flags : BitVec 32}
    (h : flags.extractLsb' 12 20 = 0#20) :
    entryFrame (pageAddress p ||| flags) = p := by
  unfold entryFrame
  rw [BitVec.extractLsb'_or, h, BitVec.or_zero]
  exact pageOf_pageAddress p

/-- The low bits of such an entry are those of the flags. -/
theorem getLsbD_entry (p : BitVec 20) (flags : BitVec 32) {i : Nat}
    (hi : i < 12) :
    (pageAddress p ||| flags).getLsbD i = flags.getLsbD i := by
  unfold pageAddress
  rw [BitVec.getLsbD_or, BitVec.getLsbD_append, if_pos hi, BitVec.getLsbD_zero,
    Bool.false_or]

/-- The table an entry of the directory names does not depend on its
flags. -/
theorem tableAddress_or (p : BitVec 20) {flags : BitVec 32}
    (h : flags.toNat < 2 ^ 12) :
    tableAddress (pageAddress p ||| flags) = pageAddress p := by
  have hmask : ∀ i : Fin 32,
      (0xFFFFF000#32).getLsbD i = decide (12 ≤ i.val) := by decide
  unfold tableAddress
  apply BitVec.eq_of_getLsbD_eq
  intro i hi
  rw [BitVec.getLsbD_and, hmask ⟨i, hi⟩, BitVec.getLsbD_or]
  by_cases hlow : i < 12
  · unfold pageAddress
    rw [BitVec.getLsbD_append, if_pos hlow, decide_eq_false (by simp only; omega),
      BitVec.getLsbD_zero, Bool.and_false]
  · have hflag : flags.getLsbD i = false :=
      Nat.testBit_lt_two_pow (Nat.lt_of_lt_of_le h
        (Nat.pow_le_pow_right (by decide) (by omega)))
    rw [hflag, Bool.or_false, decide_eq_true (by simp only; omega),
      Bool.and_true]

/-- The flags of an entry made from a page and flags. -/
theorem entry_flags (p : BitVec 20) {flags : BitVec 32}
    (h : flags.toNat < 2 ^ 12) :
    (pageAddress p ||| flags) &&& 0xFFF#32 = flags := by
  have hmask : ∀ i : Fin 32,
      (0xFFF#32).getLsbD i = decide (i.val < 12) := by decide
  apply BitVec.eq_of_getLsbD_eq
  intro i hi
  rw [BitVec.getLsbD_and, hmask ⟨i, hi⟩]
  by_cases hlow : i < 12
  · rw [getLsbD_entry p flags hlow, decide_eq_true hlow, Bool.and_true]
  · have hflag : flags.getLsbD i = false :=
      Nat.testBit_lt_two_pow (Nat.lt_of_lt_of_le h
        (Nat.pow_le_pow_right (by decide) (by omega)))
    rw [hflag, decide_eq_false hlow, Bool.and_false]

end BenOS.Memory
