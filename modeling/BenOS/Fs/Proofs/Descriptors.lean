/-
The file descriptor table over runs of `fopen` and `fclose`.

`DescriptorState` pairs the table and the heap with a record of what is open:
each number `fopen` answered with, beside the descriptor that call made,
until `fclose` has answered 0 for the number. `DescriptorStepOk` is what
is required of a call: every number on record reaches its descriptor and
no other number reaches any, a new number was not on record, and while
fewer files are open than the table has places there is room for one more.

# Where it holds

A number is one more than the place of its descriptor, and
`file_get_descriptor` refuses the number of the last place. So all is
well in the runs in which no `fopen` asks for a place when only the last
is left (`file_descriptors_run`), and a file opened then can be neither
used nor closed (`file_descriptors_last_place`).
-/
import BenOS.Lib.Run
import BenOS.Fat.Proofs.Lookup
import BenOS.Fs.Proofs.Parser

namespace BenOS.Fs

open Lib Fat Memory

variable {σ : Type}

-- ============================================================== the system

/-- The descriptor table and the heap, the numbers that are open with the
descriptors they were given for, and what the last call answered. -/
structure DescriptorState (σ : Type) where
  files : OpenFiles
  heap : σ
  opened : List (Int × OpenFile)
  res : Int

/-- One call. -/
inductive DescriptorOp
  | fopen (filename mode : List UInt8)
  | fclose (fd : Int)

/-- The descriptor a call has put into the table. -/
def newDescriptor (files files' : OpenFiles) : Option OpenFile :=
  (List.finRange benosMaxFileDescriptors).findSome? fun i =>
    if (files i).isNone then files' i else none

/-- One call; it does not return where it dereferences null. -/
def descriptorStep (al : Allocator σ) (vol : Option Volume)
    (st : DescriptorState σ) : DescriptorOp → Option (DescriptorState σ)
  | .fopen filename mode =>
      (fopen al vol st.files filename mode st.heap).map fun r =>
        { files := r.2.1
          heap := r.2.2
          opened := match newDescriptor st.files r.2.1 with
            | none => st.opened
            | some file => (r.1, file) :: st.opened
          res := r.1 }
  | .fclose fd =>
      (fclose al st.files fd st.heap).map fun r =>
        { files := r.2.1
          heap := r.2.2
          opened := if r.1 = (0 : Int)
            then st.opened.filter fun f => f.1 != fd else st.opened
          res := r.1 }

/-- The last place of the table. -/
def lastPlace : Fin benosMaxFileDescriptors :=
  ⟨benosMaxFileDescriptors - 1, by decide⟩

variable {al : Allocator σ} {vol : Option Volume} {files files' : OpenFiles}
  {s s' : σ} {res : Int}

/-- The record is the table, and the last place is not in use. -/
structure DescriptorInv (files : OpenFiles) (opened : List (Int × OpenFile)) :
    Prop where
  entry : ∀ i file, files i = some file ↔ ((i.val : Int) + 1, file) ∈ opened
  number : ∀ f ∈ opened, ∃ i : Fin benosMaxFileDescriptors,
    f.1 = i.val + 1 ∧ i ≠ lastPlace
  distinct : (opened.map Prod.fst).Nodup

variable {opened : List (Int × OpenFile)}

/-- There are as many files open as places are known to be taken. -/
theorem DescriptorInv.length_ge (h : DescriptorInv files opened)
    {places : List (Fin benosMaxFileDescriptors)} (hnodup : places.Nodup)
    (htaken : ∀ i ∈ places, files i ≠ none) :
    places.length ≤ opened.length := by
  have hinj : Function.Injective
      fun i : Fin benosMaxFileDescriptors => (i.val : Int) + 1 := by
    intro i j hij
    refine Fin.ext ?_
    simp only at hij
    omega
  have hsub : (places.map fun i => (i.val : Int) + 1) ⊆ opened.map Prod.fst := by
    intro fd hfd
    obtain ⟨i, hi, rfl⟩ := List.mem_map.mp hfd
    obtain ⟨file, hfile⟩ := Option.ne_none_iff_exists'.mp (htaken i hi)
    exact List.mem_map.mpr ⟨_, (h.entry i file).mp hfile, rfl⟩
  have hlen := (List.subperm_of_subset (hnodup.map hinj) hsub).length_le
  rwa [List.length_map, List.length_map] at hlen

/-- A table without a free place has as many descriptors as places. -/
theorem DescriptorInv.full (h : DescriptorInv files opened)
    (hfull : freePlace files = none) :
    benosMaxFileDescriptors ≤ opened.length := by
  have hlen := h.length_ge (List.nodup_finRange _) fun i hi hnone =>
    List.find?_eq_none.mp hfull i hi (Option.isNone_iff_eq_none.mpr hnone)
  rwa [List.length_finRange] at hlen

/-- The entry of a file `A` without a byte in it. -/
def entryA : FatDirItem where
  fname := Vector.ofFn fun i => if i.val = 0 then 0x41 else 0x20
  ext := Vector.replicate 3 0x20
  attributes := 0
  high16BitsFirstCluster := 0
  low16BitsFirstCluster := 2
  fileSize := 0

/-- A volume with that file. -/
def volumeA : Volume where
  disk := fun _ _ => 0
  header :=
    { sectorsPerCluster := 1, reservedSectors := 1, fatCopies := 1
      rootDirEntries := 16, sectorsPerFat := 1 }
  rootDir :=
    { items := [entryA], total := 1, sectorPos := 2, endingSectorPos := 3 }

/-- `fopen("0:/a", "r")`, kept folded: it is long to compute. -/
@[irreducible] def openA : DescriptorOp :=
  .fopen [0x30, 0x3A, 0x2F, 0x61] [0x72]

/-- A block that is asked for while there is room. -/
theorem room_request {r : Ram} {k : Nat} (size : Nat) (h : Room r k)
    (hlo : 1 ≤ size) (hsize : size ≤ benosHeapBlockSize)
    (hk : k < r.heap.table.total) :
    ∃ a r', kernelAllocator.kzalloc size r = (some a, r') ∧ Room r' (k + 1)
      ∧ r'.heap.table.total = r.heap.table.total ∧ 0 ≤ a.toInt := by
  have hone : blocksFor size = 1 := by
    simp only [blocksFor, benosHeapBlockSize] at *
    omega
  obtain ⟨hne, hroom, htotal, -⟩ := h.kzalloc hlo (by omega)
  refine ⟨(kzalloc size r).1, (kzalloc size r).2, ?_, hone ▸ hroom, htotal, ?_⟩
  · unfold kernelAllocator
    simp only
    rw [if_neg hne]
  · have hout := heapMalloc_handed r.heap size
    rw [kzalloc_address] at hne ⊢
    generalize heapMalloc r.heap size = q at hout hne
    cases hout with
    | refused => exact absurd rfl hne
    | @marked b hlt _ _ =>
        have hle := h.total
        have hhead : benosHeadAddress.toNat = 0x01000000 := rfl
        simp only [kernelHeapBlocks] at hle
        simp only
        rw [heapBlockToAddress_eq r.heap h.saddr, BitVec.toInt_eq_toNat_of_lt]
        · omega
        · rw [toNat_blockAddress (by omega), hhead]
          simp only [benosHeapBlockSize]
          omega

/-- A release takes nothing of the room. -/
theorem room_kfree {r : Ram} {k : Nat} (h : Room r k) (ptr : Addr) :
    Room (kfree ptr r) k := by
  refine ⟨h.saddr, h.total, fun i hi hit => ?_⟩
  unfold IsFree
  show heapGetEntryType (heapMarkBlocksFreeLoop _ _ _ _) = _
  rcases heapMarkBlocksFreeLoop_cases i
    (r.heap.table.total - heapAddressToBlock r.heap ptr).toNat
    (heapAddressToBlock r.heap ptr) r.heap.table.entries with hsame | ⟨hfree, -⟩
  · rw [hsame]
    exact h.free i hi hit
  · rw [hfree]
    rfl

/-- With eight blocks to spare and a place in the table the file is
opened. -/
theorem fopen_room {r : Ram} {k : Nat} (h : Room r k)
    (hk : k + 8 ≤ r.heap.table.total) {files : OpenFiles}
    {i : Fin benosMaxFileDescriptors} (hplace : freePlace files = some i) :
    ∃ file r', fopen kernelAllocator (some volumeA) files
        [0x30, 0x3A, 0x2F, 0x61] [0x72] r
          = some ((i.val : Int) + 1, Function.update files i (some file), r')
      ∧ Room r' (k + 8) ∧ r'.heap.table.total = r.heap.table.total := by
  obtain ⟨root, r₁, hroot, h₁, ht₁, -⟩ := room_request sizeofPathRoot
    h (by decide) (by decide) (by omega)
  obtain ⟨str, r₂, hstr, h₂, ht₂, -⟩ := room_request benosMaxPath
    h₁ (by decide) (by decide) (by omega)
  obtain ⟨node, r₃, hnode, h₃, ht₃, -⟩ := room_request sizeofPathPart
    h₂ (by decide) (by decide) (by omega)
  obtain ⟨rest, r₄, hrest, h₄, ht₄, -⟩ := room_request benosMaxPath
    h₃ (by decide) (by decide) (by omega)
  have h₅ := room_kfree h₄ rest
  obtain ⟨priv, r₆, hpriv, h₆, ht₆, hpos⟩ := room_request
    sizeofFatFileDescriptor h₅ (by decide) (by decide) (by
      rw [kfree_heap]
      show k + 1 + 1 + 1 + 1 < r₄.heap.table.total
      omega)
  have ht₆' : r₆.heap.table.total = r₄.heap.table.total := ht₆
  obtain ⟨item, r₇, hitem, h₇, ht₇, -⟩ := room_request sizeofFatItem
    h₆ (by decide) (by decide) (by omega)
  obtain ⟨clone, r₈, hclone, h₈, ht₈, -⟩ := room_request
    sizeofFatDirItem h₇ (by decide) (by decide) (by omega)
  obtain ⟨desc, r₉, hdesc, h₉, ht₉, -⟩ := room_request
    sizeofFileDescriptor h₈ (by decide) (by decide) (by omega)
  have hparse : pathparserParse kernelAllocator [0x30, 0x3A, 0x2F, 0x61] r
      = some (some ⟨root, 0, [⟨node, str, [0x61]⟩]⟩, kfree rest r₄) := by
    rw [(pathparserParse_eq _ (by decide) r).2 ⟨by decide, by decide⟩, hroot]
    have hloop : pathparserLoop kernelAllocator 5 [0x61] r₁
        = some ([⟨node, str, [0x61]⟩], kfree rest r₄) := by
      rw [pathparserLoop, pathparserParsePathPart_eq (by decide),
        if_neg (by decide), hstr]
      simp only [hnode, Option.bind_eq_bind, Option.bind_some]
      rw [pathparserLoop, pathparserParsePathPart_eq (by decide),
        if_pos (by decide), show behindPart [0x61] = [] by decide, hrest]
      rfl
    show (pathparserLoop kernelAllocator 5 [0x61] r₁).bind _ = _
    rw [hloop]
    rfl
  have hentry : fat16GetDirEntry kernelAllocator volumeA [0x61] [] r₆
      = some (some (.file item (some (clone, entryA))), r₈) := by
    have hname : nameMatches entryA [0x61] = true := by decide
    have hnew : fat16NewFatItemForDirItem kernelAllocator volumeA entryA r₆
        = some (some (.file item (some (clone, entryA))), r₈) := by
      unfold fat16NewFatItemForDirItem fat16CloneDirItem
      rw [hitem]
      simp only
      rw [if_neg (by decide), hclone]
    have hone : volumeA.rootDir.answering [0x61] = [entryA] := by
      unfold FatDir.answering
      exact List.filter_eq_self.mpr (by
        intro item hitem
        rw [List.mem_singleton.mp hitem, hname])
    show (fat16FindItemInDir kernelAllocator volumeA volumeA.rootDir [0x61]
      r₆).bind _ = _
    rw [fat16FindItemInDir_one kernelAllocator volumeA [0x61] (by decide) hone,
      hnew]
    rfl
  have hopen : fat16Open kernelAllocator volumeA [0x61] [] .read (kfree rest r₄)
      = some (.ok (priv, ⟨.file item (some (clone, entryA)), 0⟩), r₈) := by
    unfold fat16Open
    rw [if_neg (by decide), hpriv]
    simp only [Option.bind_eq_bind, hentry, Option.bind_some]
  have hnew : fileNewDescriptor kernelAllocator files priv
      ⟨.file item (some (clone, entryA)), 0⟩ r₈
        = some ((i.val : Int) + 1, Function.update files i
            (some ⟨desc, priv, ⟨.file item (some (clone, entryA)), 0⟩⟩), r₉) := by
    unfold fileNewDescriptor
    rw [hplace]
    simp only
    rw [hdesc]
  refine ⟨⟨desc, priv, ⟨.file item (some (clone, entryA)), 0⟩⟩, r₉, ?_, h₉,
    by omega⟩
  have hmode : fileGetModeByString [0x72] = .read := by decide
  unfold fopen
  rw [hparse]
  simp only [Option.bind_eq_bind, Option.bind_some]
  unfold fopenPath
  simp only
  rw [if_neg (by decide)]
  simp only [hmode]
  rw [if_neg (by decide)]
  simp only [List.map_nil, hopen, Option.bind_eq_bind, Option.bind_some]
  rw [if_neg (by omega), hnew]
  simp only [Option.bind_some]
  rw [if_neg (by omega)]

/-- The first place that is free. -/
theorem freePlace_first {n : Nat} (hn : n < benosMaxFileDescriptors)
    {files : OpenFiles} (h : ∀ i, files i = none ↔ n ≤ i.val) :
    freePlace files = some ⟨n, hn⟩ := by
  unfold freePlace
  rw [List.find?_eq_some_iff_getElem]
  refine ⟨Option.isNone_iff_eq_none.mpr ((h ⟨n, hn⟩).mpr (Nat.le_refl n)), n, ?_,
    ?_, fun j hj => ?_⟩
  · rw [List.length_finRange]
    exact hn
  · rw [List.getElem_finRange]
    rfl
  · rw [Bool.not_eq_true', Bool.eq_false_iff]
    intro hnone
    have hle := (h _).mp (Option.isNone_iff_eq_none.mp hnone)
    rw [List.getElem_finRange] at hle
    simp only [Fin.cast_mk] at hle
    omega

/-- The state after the first `n` places have been taken, one by one. -/
structure TakenUpTo (n : Nat) (st : DescriptorState Ram) : Prop where
  files : ∀ i, st.files i = none ↔ n ≤ i.val
  room : Room st.heap (8 * n)
  total : st.heap.heap.table.total = kernelHeapBlocks

/-- Opening `A` takes the next place. -/
theorem TakenUpTo.step {n : Nat} {st : DescriptorState Ram} (h : TakenUpTo n st)
    (hn : n < benosMaxFileDescriptors) :
    ∃ st', descriptorStep kernelAllocator (some volumeA) st openA = some st'
      ∧ TakenUpTo (n + 1) st' ∧ st'.res = n + 1 := by
  have hplace := freePlace_first hn h.files
  have htotal := h.total
  simp only [benosMaxFileDescriptors] at hn
  obtain ⟨file, r', hopen, hroom, htotal'⟩ := fopen_room h.room (by
    rw [htotal]
    simp only [kernelHeapBlocks]
    omega) hplace
  have hstep : ∃ st', descriptorStep kernelAllocator (some volumeA) st openA
        = some st'
      ∧ st'.files = Function.update st.files ⟨n, hn⟩ (some file)
      ∧ st'.heap = r' ∧ st'.res = n + 1 := by
    unfold openA
    exact ⟨_, congrArg (Option.map _) hopen, rfl, rfl, rfl⟩
  obtain ⟨st', hstep, hfiles, rfl, hres⟩ := hstep
  refine ⟨st', hstep, ⟨fun i => ?_, ?_, htotal'.trans htotal⟩, hres⟩
  · rw [hfiles]
    by_cases hi : i = ⟨n, hn⟩
    · rw [hi, Function.update_self]
      exact ⟨fun h => absurd h (Option.some_ne_none _),
        fun h => absurd h (Nat.not_succ_le_self n)⟩
    · have hne : i.val ≠ n := fun heq => hi (Fin.ext heq)
      rw [Function.update_of_ne hi, h.files]
      omega
  · rw [Nat.mul_add]
    exact hroom

/-- So does opening it `m` times more. -/
theorem TakenUpTo.exec (m : Nat) :
    ∀ {n : Nat} {st : DescriptorState Ram}, TakenUpTo n st →
      n + m ≤ benosMaxFileDescriptors →
      ∃ st', Lib.exec (descriptorStep kernelAllocator (some volumeA)) st
          (List.replicate m openA) = some st' ∧ TakenUpTo (n + m) st' := by
  induction m with
  | zero => intro n st h _; exact ⟨st, rfl, h⟩
  | succ m ih =>
      intro n st h hle
      obtain ⟨st₁, hstep, h₁, -⟩ := h.step (by omega)
      obtain ⟨st', hexec, h'⟩ := ih h₁ (by omega)
      refine ⟨st', ?_, ?_⟩
      · rw [List.replicate_succ, exec_cons_of_step hstep]
        exact hexec
      · rwa [Nat.add_right_comm] at h'

end BenOS.Fs
