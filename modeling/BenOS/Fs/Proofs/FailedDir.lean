/-
What `fat16_load_fat_dir` answers where the contents of an entry cannot be
read as a directory.

It gives back all it has allocated, but then answers with the address of
the `struct fat_dir` it has freed, and not with null, unless it has not
come to allocate one (`failed_load_seen`).
-/
import BenOS.Fat.Proofs.DirLoad
import BenOS.Fs.Open
import BenOS.Memory.Proofs.Lent

namespace BenOS.Fs

open Lib Disk Fat Memory

-- ================================================================= what is asked

/-- The bytes of the array for the entries of a directory. -/
def itemsSize (totalItems : Int) : Int :=
  toInt32 (totalItems * sizeofFatDirItem)

/-- The number of entries of a directory, as its scan counts them. -/
def entryCount (vol : Volume) (item : FatDirItem) : Option Int :=
  fat16GetTotalItemsForDir vol.disk
    (fat16ClusterToSector vol (fat16GetFirstCluster item))

/-- Why the contents of an entry cannot be had as a directory: it is none,
there is no memory for the directory or its entries, or reading them
fails. -/
inductive LoadFailure (vol : Volume) (item : FatDirItem) (r : Ram) : Prop
  | notDir (h : item.attributes &&& fatFileSubdirectory = 0)
  | noDir (h : (kzalloc sizeofFatDir r).1 = 0#32)
  | noItems {n : Int} (count : entryCount vol item = some n)
      (h : (kzalloc (toUint32 (itemsSize n)).toNat
        (kzalloc sizeofFatDir r).2).1 = 0#32)
  | unreadable {n : Int} {read : FatRead UInt8}
      (count : entryCount vol item = some n)
      (h : fat16ReadInternal vol vol.disk (fat16GetFirstCluster item) 0x00
        (itemsSize n) = some read)
      (res : read.res ≠ benosAllOk)

/-- An item whose directory has been freed. -/
def StaleItem : FatItem → Prop
  | .dir _ (.freed _) => True
  | _ => False

/-- A failed load of an entry is one that a caller sees: null is answered,
every block is free again, and what is made of it for the callers has no
directory that is gone, and can be freed. -/
structure FailureSeen (vol : Volume) (item : FatDirItem) (r : Ram)
    (dir : DirPtr) (r' : Ram) : Prop where
  null : dir = .null
  free : SameTable r.heap r'.heap
  callers : ∀ r₀ r₁ fItem, (kzalloc sizeofFatItem r₀).2 = r →
    fat16NewFatItemForDirItem kernelAllocator vol item r₀
      = some (some fItem, r₁) →
    ¬ StaleItem fItem
      ∧ ∀ k, fat16FatItemFree kernelAllocator fItem k ≠ none

variable {vol : Volume} {item : FatDirItem} {r r' : Ram}

/-- A walk that goes on from a directory that is gone reads freed
memory. -/
theorem walk_stale {fItem : FatItem} (h : StaleItem fItem) (part : List UInt8)
    (parts : List (List UInt8)) (k : Ram) :
    fat16WalkLoop kernelAllocator vol (part :: parts) (some fItem) k = none := by
  cases fItem with
  | file addr item => exact h.elim
  | dir addr dir =>
      cases dir with
      | null => exact h.elim
      | live _ _ _ => exact h.elim
      | freed _ => rfl

/-- To free its item is to free it again. -/
theorem free_stale {fItem : FatItem} (h : StaleItem fItem) (k : Ram) :
    fat16FatItemFree kernelAllocator fItem k = none := by
  cases fItem with
  | file addr item => exact h.elim
  | dir addr dir =>
      cases dir with
      | null => exact h.elim
      | live _ _ _ => exact h.elim
      | freed _ => rfl

-- ================================================================== the outcomes

/-- What the kernel heap answers a file system. -/
theorem kernelAllocator_kzalloc (n : Nat) (r : Ram) :
    kernelAllocator.kzalloc n r
      = (if (kzalloc n r).1 = 0#32 then none else some (kzalloc n r).1,
          (kzalloc n r).2) := rfl

theorem kernelAllocator_kfree (ptr : Addr) (r : Ram) :
    kernelAllocator.kfree (some ptr) r = kfree ptr r := rfl

theorem heapFree_saddr (heap : Heap) (ptr : Addr) :
    (heapFree heap ptr).saddr = heap.saddr := rfl

/-- Without a directory, or memory for one, null is answered. -/
theorem loadFatDir_null (vol : Volume) (hclean : Clean r.heap)
    (h : item.attributes &&& fatFileSubdirectory = 0
      ∨ (kzalloc sizeofFatDir r).1 = 0#32) :
    ∃ r', fat16LoadFatDir kernelAllocator vol item r = some (.null, r')
      ∧ SameTable r.heap r'.heap := by
  unfold fat16LoadFatDir
  by_cases hdir : item.attributes &&& fatFileSubdirectory = 0
  · rw [if_pos hdir]
    exact ⟨r, rfl, SameTable.refl r.heap⟩
  · have hnull := h.resolve_left hdir
    rw [if_neg hdir, kernelAllocator_kzalloc, if_pos hnull]
    refine ⟨_, rfl, ?_⟩
    rw [(kzalloc_refused hclean hnull).1]
    exact SameTable.refl r.heap

/-- With both, a failure answers what has been freed. -/
theorem loadFatDir_freed (hclean : Clean r.heap)
    (hdir : item.attributes &&& fatFileSubdirectory ≠ 0)
    (hne : (kzalloc sizeofFatDir r).1 ≠ 0#32) (h : LoadFailure vol item r) :
    ∃ addr r', fat16LoadFatDir kernelAllocator vol item r
        = some (.freed addr, r')
      ∧ SameTable r.heap r'.heap := by
  have hlent := (Lent.refl r.heap).kzalloc_block hclean (by decide)
    (show sizeofFatDir ≤ benosHeapBlockSize by decide) hne
  have hclean₁ := hlent.clean hclean
  have hback : ∀ {r' : Ram}, SameTable (kzalloc sizeofFatDir r).2.heap r'.heap →
      r'.heap.saddr = benosHeadAddress →
      SameTable r.heap (kfree (kzalloc sizeofFatDir r).1 r').heap := fun h =>
    sameTable_kfree_block hclean (by decide) (by decide) hne h
  obtain ⟨n, hcount, hcase⟩ : ∃ n, entryCount vol item = some n
      ∧ ((kzalloc (toUint32 (itemsSize n)).toNat
          (kzalloc sizeofFatDir r).2).1 = 0#32
        ∨ ∃ read, fat16ReadInternal vol vol.disk (fat16GetFirstCluster item)
            0x00 (itemsSize n) = some read ∧ read.res ≠ benosAllOk) := by
    cases h with
    | notDir h => exact absurd h hdir
    | noDir h => exact absurd h hne
    | noItems count h => exact ⟨_, count, Or.inl h⟩
    | unreadable count h res => exact ⟨_, count, Or.inr ⟨_, h, res⟩⟩
  unfold entryCount at hcount
  unfold itemsSize at hcase
  unfold fat16LoadFatDir
  rw [if_neg hdir, kernelAllocator_kzalloc, if_neg hne]
  simp only [hcount, Option.bind_eq_bind, Option.bind_some]
  generalize hsize : (toUint32 (toInt32 (n * sizeofFatDirItem))).toNat = size
    at hcase ⊢
  rw [kernelAllocator_kzalloc]
  by_cases hitems : (kzalloc size (kzalloc sizeofFatDir r).2).1 = 0#32
  · rw [if_pos hitems]
    refine ⟨_, _, rfl, hback ?_ ?_⟩
    · rw [(kzalloc_refused hclean₁ hitems).1]
      exact SameTable.refl _
    · rw [(kzalloc_refused hclean₁ hitems).1]
      exact hclean₁.saddr
  · obtain ⟨read, hread, hres⟩ := hcase.resolve_left hitems
    rw [if_neg hitems]
    simp only [hread, Option.bind_some, if_pos hres, kernelAllocator_kfree]
    have hsaddr : (kzalloc size (kzalloc sizeofFatDir r).2).2.heap.saddr
        = benosHeadAddress := by
      rw [kzalloc_heap, (heapMalloc_saddr _ _).1]
      exact hclean₁.saddr
    have hsame := hback (sameTable_kfree_kzalloc hclean₁ hitems) (by
      rw [kfree_heap, heapFree_saddr]
      exact hsaddr)
    exact ⟨_, _, rfl, hsame⟩

/-- The item that is made of null has no directory, and can be freed. -/
theorem callers_of_null (hclean : Clean r.heap)
    (h : item.attributes &&& fatFileSubdirectory = 0
      ∨ (kzalloc sizeofFatDir r).1 = 0#32)
    {r₀ r₁ : Ram} {fItem : FatItem} (hr : (kzalloc sizeofFatItem r₀).2 = r)
    (hnew : fat16NewFatItemForDirItem kernelAllocator vol item r₀
      = some (some fItem, r₁)) :
    ¬ StaleItem fItem
      ∧ ∀ k, fat16FatItemFree kernelAllocator fItem k ≠ none := by
  unfold fat16NewFatItemForDirItem at hnew
  rw [kernelAllocator_kzalloc, hr] at hnew
  split at hnew
  · cases hnew
  · next heq =>
      obtain ⟨-, rfl⟩ := Prod.mk.inj heq
      split at hnew
      · obtain ⟨r₂, hload, -⟩ := loadFatDir_null vol hclean h
        rw [hload] at hnew
        obtain rfl := Option.some.inj (Prod.mk.inj (Option.some.inj hnew)).1
        exact ⟨id, fun k hk => by cases hk⟩
      · obtain rfl := Option.some.inj (Prod.mk.inj (Option.some.inj hnew)).1
        exact ⟨id, fun k hk => by cases hk⟩

/-- On every heap the kernel can have, a failed load gives back what it
has allocated; and it is seen as one exactly when it has not come to
allocate a directory. -/
theorem failed_load_seen (hclean : Clean r.heap)
    (hfail : LoadFailure vol item r) :
    ∃ dir r', fat16LoadFatDir kernelAllocator vol item r = some (dir, r')
      ∧ SameTable r.heap r'.heap
      ∧ (FailureSeen vol item r dir r'
        ↔ item.attributes &&& fatFileSubdirectory = 0
          ∨ (kzalloc sizeofFatDir r).1 = 0#32) := by
  by_cases h : item.attributes &&& fatFileSubdirectory = 0
      ∨ (kzalloc sizeofFatDir r).1 = 0#32
  · obtain ⟨r', hload, hsame⟩ := loadFatDir_null vol hclean h
    refine ⟨.null, r', hload, hsame, fun _ => h, fun _ => ⟨rfl, hsame, ?_⟩⟩
    exact fun r₀ r₁ fItem hr hnew => callers_of_null hclean h hr hnew
  · obtain ⟨hdir, hne⟩ := not_or.mp h
    obtain ⟨addr, r', hload, hsame⟩ := loadFatDir_freed hclean hdir hne hfail
    refine ⟨.freed addr, r', hload, hsame, fun hseen => ?_, fun hc => ?_⟩
    · cases hseen.null
    · exact absurd hc h

/-- A volume with a subdirectory of 17 entries, in clusters of 16, whose
chain ends with its first cluster. -/
def shortChain : Volume where
  disk := fun lba i =>
    if lba = 4#32 then if i = 0 then 0xFF else if i = 1 then 0x0F else 0
    else if lba = 8#32 ∨ (lba = 9#32 ∧ i = 0) then 0x41
    else 0
  header := oneDeleted.header
  rootDir := { items := [], total := 0, sectorPos := 2, endingSectorPos := 8 }

/-- Its entry. -/
def shortChainDir : FatDirItem :=
  { FatDirItem.ofBytes [] with
    attributes := fatFileSubdirectory
    low16BitsFirstCluster := 2 }

/-- Its chain ends before its entries do. -/
theorem shortChain_fails : LoadFailure shortChain shortChainDir
    ⟨emptyHeap, fun _ => 0, true⟩ := by
  have hcount : entryCount shortChain shortChainDir = some 17 := by
    decide +kernel
  have hread : (fat16ReadInternal shortChain shortChain.disk
      (fat16GetFirstCluster shortChainDir) 0x00 (itemsSize 17)).map FatRead.res
        = some (-eio) := by
    decide +kernel
  obtain ⟨read, hread, hres⟩ := Option.map_eq_some_iff.mp hread
  exact .unreadable hcount hread (by rw [hres]; decide)

theorem failed_load_seen_short_chain :
    ∃ dir r', fat16LoadFatDir kernelAllocator shortChain shortChainDir
        ⟨emptyHeap, fun _ => 0, true⟩ = some (dir, r')
      ∧ SameTable emptyHeap r'.heap
      ∧ (FailureSeen shortChain shortChainDir ⟨emptyHeap, fun _ => 0, true⟩
          dir r'
        ↔ shortChainDir.attributes &&& fatFileSubdirectory = 0
          ∨ (kzalloc sizeofFatDir ⟨emptyHeap, fun _ => 0, true⟩).1 = 0#32) :=
  failed_load_seen (ramOk_empty _ true).clean shortChain_fails

/-- Loading it answers the address of a directory that has been freed. -/
theorem failed_load_dangles :
    ∃ addr r', LoadFailure shortChain shortChainDir
        ⟨emptyHeap, fun _ => 0, true⟩
      ∧ fat16LoadFatDir kernelAllocator shortChain shortChainDir
        ⟨emptyHeap, fun _ => 0, true⟩ = some (.freed addr, r')
      ∧ ¬ FailureSeen shortChain shortChainDir ⟨emptyHeap, fun _ => 0, true⟩
        (.freed addr) r' := by
  have hne := ((room_empty (fun _ => 0) true).kzalloc
    (show 1 ≤ sizeofFatDir by decide) (by decide)).1
  obtain ⟨addr, r', hload, -⟩ := loadFatDir_freed (ramOk_empty _ true).clean
    (by decide) hne shortChain_fails
  exact ⟨addr, r', shortChain_fails, hload, fun hseen => by cases hseen.null⟩

end BenOS.Fs
