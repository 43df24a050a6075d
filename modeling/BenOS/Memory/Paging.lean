/-
Page directories: `memory/paging/paging.c`.

`paging_map`, `paging_map_range` and `paging_map_to` reach the page
tables through `paging_set` alone, so they are written over a parameter
`set`: what `paging_set(dir->directory_entry, virt, val)` does to
whatever holds the tables of `dir`. Two things do:

- the memory itself (`pagingSet`), where the directory and its tables
  are words at addresses, and nothing keeps a table from lying across
  something else;
- a `PageDir`, the entry of every virtual page, which is what a
  directory means to the processor. `Memory/Proofs/Directory` shows that
  the first comes to the second where the directory is well formed.
-/
import Mathlib.Logic.Function.Basic
import BenOS.Config
import BenOS.Lib.Bytes

namespace BenOS.Memory

open Lib

-- ============================================================== constants

/-- `PAGING_ACCESS_FROM_ALL` -/
abbrev pagingAccessFromAll : BitVec 32 := 0b00000100

/-- `PAGING_IS_WRITABLE` -/
abbrev pagingIsWritable : BitVec 32 := 0b00000010

/-- `PAGING_IS_PRESENT` -/
abbrev pagingIsPresent : BitVec 32 := 0b00000001

/-- `PAGING_TOTAL_ENTRIES_PER_TABLE` -/
abbrev pagingTotalEntriesPerTable : Nat := 1024

/-- `PAGING_PAGE_SIZE` -/
abbrev pagingPageSize : Nat := 4096

-- ============================================================== alignment

/-- `paging_is_alligned` -/
def pagingIsAlligned (addr : Addr) : Bool := addr.toNat % pagingPageSize == 0

/-- `paging_align_address` -/
def pagingAlignAddress (ptr : Addr) : Addr :=
  if ptr.toNat % pagingPageSize ≠ 0 then
    ptr + BitVec.ofNat 32 pagingPageSize
      - BitVec.ofNat 32 (ptr.toNat % pagingPageSize)
  else ptr

/-- `paging_align_to_lower_page` -/
def pagingAlignToLowerPage (addr : Addr) : Addr :=
  addr - BitVec.ofNat 32 (addr.toNat % pagingPageSize)

/-- `paging_get_indexes`, where the address is aligned: the index into
the directory and the index into the table. -/
def pagingGetIndexes (vAddress : Addr) : Nat × Nat :=
  let covered := pagingTotalEntriesPerTable * pagingPageSize
  (vAddress.toNat / covered, vAddress.toNat % covered / pagingPageSize)

-- ================================================================ mapping

section Mapping

variable {σ : Type} (set : Addr → BitVec 32 → σ → Int × σ)

/-- `paging_map` -/
def pagingMap (virt phys : Addr) (flags : BitVec 32) (s : σ) : Int × σ :=
  if virt.toNat % pagingPageSize ≠ 0 ∨ phys.toNat % pagingPageSize ≠ 0 then
    (-einvarg, s)
  else set virt (phys ||| flags) s

/-- The loop of `paging_map_range` over the pages left, with the result
of the page before. -/
def pagingMapRangeLoop (flags : BitVec 32) :
    Nat → Addr → Addr → Int → σ → Int × σ
  | 0, _, _, res, s => (res, s)
  | count + 1, virt, phys, _, s =>
      let r := pagingMap set virt phys flags s
      if r.1 < 0 then r
      else
        pagingMapRangeLoop flags count (virt + BitVec.ofNat 32 pagingPageSize)
          (phys + BitVec.ofNat 32 pagingPageSize) r.1 r.2

/-- `paging_map_range` -/
def pagingMapRange (virt phys : Addr) (count : Nat) (flags : BitVec 32)
    (s : σ) : Int × σ :=
  pagingMapRangeLoop set flags count virt phys 0 s

/-- `paging_map_to` -/
def pagingMapTo (virt phys physEnd : Addr) (flags : BitVec 32) (s : σ) :
    Int × σ :=
  if virt.toNat % pagingPageSize ≠ 0 then (-einvarg, s)
  else if phys.toNat % pagingPageSize ≠ 0 then (-einvarg, s)
  else if physEnd.toNat % pagingPageSize ≠ 0 then (-einvarg, s)
  else if physEnd.toNat ≤ phys.toNat then (-einvarg, s)
  else
    let totalBytes := (physEnd - phys).toNat
    let totalPages := totalBytes / pagingPageSize
    pagingMapRange set virt phys totalPages flags s

end Mapping

-- ============================================================= in memory

/-- The address of a table: the part of a directory entry without the
flags. -/
def tableAddress (entry : BitVec 32) : Addr := entry &&& 0xFFFFF000#32

/-- Where the directory at `dir` keeps the table entry of a virtual
address. -/
def pagingEntryAddress (m : Bytes) (dir virt : Addr) : Addr :=
  let i := pagingGetIndexes virt
  let entry := load32 m (dir + BitVec.ofNat 32 (4 * i.1))
  tableAddress entry + BitVec.ofNat 32 (4 * i.2)

/-- `paging_set` -/
def pagingSet (dir virt : Addr) (val : BitVec 32) (m : Bytes) : Int × Bytes :=
  if !pagingIsAlligned virt then (-einvarg, m)
  else (0, store32 m (pagingEntryAddress m dir virt) val)

/-- `paging_get` -/
def pagingGet (m : Bytes) (dir virt : Addr) : BitVec 32 :=
  load32 m (pagingEntryAddress m dir virt)

/-- `paging_get_phys_addr` -/
def pagingGetPhysAddr (m : Bytes) (dir virt : Addr) : Addr :=
  let virtAddrNew := pagingAlignToLowerPage virt
  let diff := virt - virtAddrNew
  tableAddress (pagingGet m dir virtAddrNew) + diff

-- ============================================================== directories

/-- The number of the page an address lies in. -/
def pageOf (a : Addr) : BitVec 20 := a.extractLsb' 12 20

/-- What a page directory says: the table entry of every virtual page. -/
abbrev PageDir := BitVec 20 → BitVec 32

/-- `paging_set`, on the directory it stands for. -/
def PageDir.set (virt : Addr) (val : BitVec 32) (d : PageDir) :
    Int × PageDir :=
  if !pagingIsAlligned virt then (-einvarg, d)
  else (0, Function.update d (pageOf virt) val)

/-- The first address of a page. -/
def pageAddress (p : BitVec 20) : Addr := p ++ 0#12

/-- What `paging_new_4gb` fills its tables with: every page is mapped to
itself. -/
def pagingNew4gbDir (flags : BitVec 32) : PageDir :=
  fun p => pageAddress p ||| flags

/-- The physical page an entry names. -/
def entryFrame (entry : BitVec 32) : BitVec 20 := entry.extractLsb' 12 20

/-- The entry is there. -/
def entryPresent (entry : BitVec 32) : Bool := entry.getLsbD 0

/-- The entry lets its page be written. -/
def entryWritable (entry : BitVec 32) : Bool := entry.getLsbD 1

/-- The entry lets user code at its page. -/
def entryUser (entry : BitVec 32) : Bool := entry.getLsbD 2

end BenOS.Memory
