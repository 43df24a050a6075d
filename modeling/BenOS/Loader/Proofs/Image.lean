/-
The page directory of a loaded ELF program, as its program headers make
it.

`LoadedElf` is what `process_load_for_slot` hands to `process_map_memory`
once a file has been taken for an ELF: a memory with the file in it, and
a program whose image, `struct elf_file` and stack are blocks of the
kernel heap. `elf_directory` is the whole of the mapping: the requests of
the program headers up to the first one that is refused, and behind them
the stack, written over the identity.
-/
import BenOS.Loader.Proofs.Bounds
import BenOS.Memory.Proofs.Mapping

namespace BenOS.Loader

open Lib Memory Traced

-- ======================================================== loaded programs

/-- An ELF program before its memory is mapped. -/
structure LoadedElf where
  mem : Bytes
  program : Program
  fileSize : Nat
  isElf : program.filetype = Tasks.processFiletypeElf
  valid : Accepted mem program.elfMem
  imagePage : program.elfMem.toNat % pagingPageSize = 0
  filePage : program.ptr.toNat % pagingPageSize = 0
  noBinary : program.size = 0#32
  stackPage : program.stack.toNat % pagingPageSize = 0
  stackFits : program.stack.toNat + benosUserProgramStackSize < 2 ^ 32

namespace LoadedElf

variable (L : LoadedElf)

/-- A field of program header `i`. -/
def field (i : Nat) (f : Addr) : BitVec 32 :=
  load32 L.mem
    (phdrAddress (L.program.elfMem + ePhoff L.mem L.program.elfMem) i + f)

/-- The number of program headers. -/
abbrev phnum : Nat := ePhnum L.mem L.program.elfMem

/-- Where the contents of segment `i` are said to start. -/
def physStart (i : Nat) : Addr := L.program.elfMem + L.field i offPOffset

/-- Where the mapping of segment `i` is to end. -/
def physEnd (i : Nat) : Addr :=
  pagingAlignAddress (L.physStart i + L.field i offPMemsz)

/-- Segment `i` asks to be written. -/
def Writable (i : Nat) : Prop := L.field i offPFlags &&& pfW ≠ 0#32

instance (i : Nat) : Decidable (L.Writable i) :=
  inferInstanceAs (Decidable (¬ _))

/-- The end of segment `i` is behind its start, as 32-bit addresses go:
`paging_map_to` takes it. -/
def Taken (i : Nat) : Prop :=
  (pageAddress (pageOf (L.physStart i))).toNat < (L.physEnd i).toNat

instance (i : Nat) : Decidable (L.Taken i) :=
  inferInstanceAs (Decidable (_ < _))

/-- What `process_map_elf` asks for segment `i`. -/
def request (i : Nat) : MapReq where
  virt := pageOf (L.field i offPVaddr)
  phys := pageOf (L.physStart i)
  pages := (L.physEnd i - pageAddress (pageOf (L.physStart i))).toNat
    / pagingPageSize
  flags := if L.Writable i then userFlags ||| pagingIsWritable else userFlags

/-- The segments that are mapped: all before the first one refused. -/
def segments : List Nat :=
  (List.range L.phnum).takeWhile fun i => decide (L.Taken i)

/-- What `process_map_memory` asks for the stack. -/
def stackRequest : MapReq where
  virt := pageOf benosProgramVirtualStackAddressEnd
  phys := pageOf L.program.stack
  pages := benosUserProgramStackSize / pagingPageSize
  flags := userFlags ||| pagingIsWritable

/-- Everything that is mapped, in order. -/
def requests : List MapReq := L.segments.map L.request ++ [L.stackRequest]

/-- The directory `process_map_memory` leaves, with its result. -/
def mapMemory : Option (Int × PageDir) :=
  (processMapMemory (dirPager L.mem) L.program
    (pagingNew4gbDir userFlags)).map Traced.val

-- ================================================================ mapping

/-- One round of `process_map_elf`. -/
theorem processMapPhdr_val (i : Nat) (d : PageDir) :
    (processMapPhdr (dirPager L.mem) L.program.elfMem
        (phdrAddress (L.program.elfMem + ePhoff L.mem L.program.elfMem) i)
        d).val
      = if L.Taken i then
          (0, patch MapReq.covers MapReq.value (L.request i) d)
        else (-einvarg, d) := by
  have hend : (L.physEnd i).toNat % pagingPageSize = 0 :=
    pagingAlignAddress_aligned _
  have hmap := pagingMapTo_dir (pageOf (L.field i offPVaddr))
    (pageOf (L.physStart i)) (L.request i).flags d hend
  have hval : (processMapPhdr (dirPager L.mem) L.program.elfMem
      (phdrAddress (L.program.elfMem + ePhoff L.mem L.program.elfMem) i)
      d).val
        = pagingMapTo PageDir.set
            (pagingAlignToLowerPage (L.field i offPVaddr))
            (pagingAlignToLowerPage (L.physStart i)) (L.physEnd i)
            (L.request i).flags d := rfl
  rw [hval, pagingAlignToLowerPage_eq, pagingAlignToLowerPage_eq, hmap]
  by_cases ht : L.Taken i
  · rw [if_pos ht, if_neg (Nat.not_le.mpr ht)]
    rfl
  · rw [if_neg ht, if_pos (Nat.not_lt.mp ht)]

/-- The indices from `i` on, the first of them and the others. -/
theorem range'_from {i n : Nat} (hi : i < n) :
    List.range' i (n - i) = i :: List.range' (i + 1) (n - (i + 1)) := by
  have hlen : n - i = (n - (i + 1)) + 1 := by omega
  rw [hlen]
  rfl

/-- The loop of `process_map_elf` writes the segments from an index on up
to the first one refused. -/
theorem processMapElfLoop_dir (fuel : Nat) :
    ∀ (i : Nat) (d : PageDir), L.phnum ≤ i + fuel →
      (processMapElfLoop (dirPager L.mem) L.program.elfMem
          (L.program.elfMem + ePhoff L.mem L.program.elfMem) fuel i 0 d).val.2
        = mapped (((List.range' i (L.phnum - i)).takeWhile
            fun i => decide (L.Taken i)).map L.request) d := by
  induction fuel with
  | zero =>
      intro i d hle
      rw [Nat.sub_eq_zero_of_le (by omega)]
      rfl
  | succ fuel ih =>
      intro i d hle
      have hnum : (read16 ((dirPager L.mem).bytes d)
          (L.program.elfMem + offEPhnum)).val.toNat = L.phnum := rfl
      unfold processMapElfLoop
      rw [val_bind, val_ite, hnum]
      by_cases hi : i < L.phnum
      · have hcons := range'_from hi
        rw [if_pos hi, val_bind, val_ite, processMapPhdr_val, hcons]
        by_cases ht : L.Taken i
        · rw [if_pos ht, if_neg (Int.lt_irrefl 0), List.takeWhile_cons,
            decide_eq_true ht, if_pos rfl]
          exact ih _ _ (by omega)
        · rw [if_neg ht, if_pos (by show -einvarg < 0; decide),
            List.takeWhile_cons, decide_eq_false ht]
          rfl
      · rw [if_neg hi, Nat.sub_eq_zero_of_le (by omega)]
        rfl

/-- `process_map_elf` writes the segments up to the first one refused. -/
theorem processMapElf_dir (d : PageDir) :
    (processMapElf (dirPager L.mem) L.program.elfMem d).val.2
      = mapped (L.segments.map L.request) d := by
  have hphdrs : (elfPheader L.mem L.program.elfMem).val
      = L.program.elfMem + ePhoff L.mem L.program.elfMem :=
    if_neg (accepted_iff.mp L.valid).2
  unfold processMapElf segments
  rw [val_bind, List.range_eq_range']
  show (processMapElfLoop (dirPager L.mem) L.program.elfMem
    (elfPheader L.mem L.program.elfMem).val phnumLimit 0 0 d).val.2 = _
  rw [hphdrs, processMapElfLoop_dir L phnumLimit 0 d ?_]
  · rfl
  · have := (load16 L.mem (L.program.elfMem + offEPhnum)).isLt
    simp only [phnumLimit, ePhnum]
    omega

/-- The pointer of an ELF program spans no bytes, so mapping it as a
binary is refused. -/
theorem mapBinary_dir (d : PageDir) :
    pagingMapTo PageDir.set benosProgramVirtualAddress L.program.ptr
        (pagingAlignAddress (L.program.ptr + L.program.size))
        (userFlags ||| pagingIsWritable) d = (-einvarg, d) := by
  have hptr : pagingAlignAddress (L.program.ptr + L.program.size)
      = L.program.ptr := by
    rw [L.noBinary, BitVec.add_zero, pagingAlignAddress_of_aligned L.filePage]
  have hpage := L.filePage
  unfold pagingMapTo
  rw [hptr, if_neg (by decide), if_neg (by omega), if_neg (by omega),
    if_pos (Nat.le_refl _)]

/-- Nobody hears of it. -/
theorem processMapBinary_dir (d : PageDir) :
    processMapBinary (dirPager L.mem) L.program d = (0, d) :=
  congrArg (fun r : Int × PageDir => ((0 : Int), r.2)) (L.mapBinary_dir d)

/-- The stack is mapped. -/
theorem mapStack_dir (d : PageDir) :
    pagingMapTo PageDir.set benosProgramVirtualStackAddressEnd
        L.program.stack
        (pagingAlignAddress
          (L.program.stack + BitVec.ofNat 32 benosUserProgramStackSize))
        (userFlags ||| pagingIsWritable) d
      = (0, patch MapReq.covers MapReq.value L.stackRequest d) := by
  have hpage := L.stackPage
  have hfits := L.stackFits
  have hsum : (L.program.stack
      + BitVec.ofNat 32 benosUserProgramStackSize).toNat
        = L.program.stack.toNat + benosUserProgramStackSize := by
    rw [BitVec.toNat_add, BitVec.toNat_ofNat]
    simp only [benosUserProgramStackSize] at *
    omega
  have hend : (L.program.stack
      + BitVec.ofNat 32 benosUserProgramStackSize).toNat
        % pagingPageSize = 0 := by
    rw [hsum]
    simp only [benosUserProgramStackSize, pagingPageSize] at *
    omega
  have hmap := pagingMapTo_dir (pageOf benosProgramVirtualStackAddressEnd)
    (pageOf L.program.stack) (userFlags ||| pagingIsWritable) d hend
  rw [pageAddress_pageOf (a := benosProgramVirtualStackAddressEnd) (by decide),
    pageAddress_pageOf hpage] at hmap
  rw [pagingAlignAddress_of_aligned hend, hmap,
    if_neg (by rw [hsum]; simp only [benosUserProgramStackSize]; omega)]
  have hpages : (L.program.stack + BitVec.ofNat 32 benosUserProgramStackSize
      - L.program.stack).toNat / pagingPageSize
        = benosUserProgramStackSize / pagingPageSize := by
    rw [BitVec.add_comm, BitVec.add_sub_cancel]
    rfl
  rw [hpages]
  rfl

/-- `process_map_memory` takes every ELF program, and its directory is
the requests written over the identity. -/
theorem elf_directory :
    L.mapMemory = some (0, mapped L.requests (pagingNew4gbDir userFlags)) := by
  have himage : processMapImage (dirPager L.mem) L.program
      (pagingNew4gbDir userFlags)
        = some (processMapElf (dirPager L.mem) L.program.elfMem
            (pagingNew4gbDir userFlags)) := by
    unfold processMapImage
    rw [if_pos L.isElf]
  unfold mapMemory processMapMemory
  rw [himage, Option.bind_eq_bind, Option.bind_some, Option.map_some, val_bind,
    processMapBinary_dir, if_neg (Int.lt_irrefl 0), val_pure]
  simp only
  rw [processMapElf_dir]
  show some ((0 : Int), (pagingMapTo PageDir.set _ _ _ _ _).2) = _
  rw [mapStack_dir]
  exact congrArg (fun d => some ((0 : Int), d)) (overlay_snoc _ _ _ _ _).symm

/-- There is no other directory it could leave. -/
theorem eq_of_mapMemory {d : PageDir} (h : L.mapMemory = some (0, d)) :
    d = mapped L.requests (pagingNew4gbDir userFlags) := by
  rw [elf_directory] at h
  exact (Prod.mk.inj (Option.some.inj h)).2.symm

/-- So what holds of the directory holds of the one it leaves. -/
theorem exists_mapMemory_iff {P : PageDir → Prop} :
    (∃ d, L.mapMemory = some (0, d) ∧ P d)
      ↔ P (mapped L.requests (pagingNew4gbDir userFlags)) := by
  constructor
  · rintro ⟨d, hd, hP⟩
    rwa [L.eq_of_mapMemory hd] at hP
  · exact fun hP => ⟨_, L.elf_directory, hP⟩

/-- What the directory says about a page. -/
theorem elf_directory_apply (v : BitVec 20) :
    mapped L.requests (pagingNew4gbDir userFlags) v
      = (lastRequest L.requests v).elim (pageAddress v ||| userFlags)
          fun r => r.value v :=
  overlay_apply MapReq.covers MapReq.value L.requests
    (pagingNew4gbDir userFlags) v

/-- The flags of every request are the user's, with or without the right
to write. -/
theorem flags_of_mem {r : MapReq} (hr : r ∈ L.requests) :
    r.flags = userFlags ||| pagingIsWritable ∨ r.flags = userFlags := by
  rcases List.mem_append.mp hr with hr | hr
  · obtain ⟨i, -, rfl⟩ := List.mem_map.mp hr
    unfold request
    by_cases hw : L.Writable i
    · exact Or.inl (if_pos hw)
    · exact Or.inr (if_neg hw)
  · rw [List.mem_singleton.mp hr]
    exact Or.inl rfl

end LoadedElf

-- ============================================================ small files

/-- A word in memory order. -/
def wordBytes (v : BitVec 32) : List UInt8 := (List.range 4).map (byteOf v)

/-- An ELF file with one program header, and nothing behind it. -/
def oneSegmentFile (phdr : List (BitVec 32)) : List UInt8 :=
  [0x7F, 0x45, 0x4C, 0x46, 1, 1] ++ List.replicate 22 0 ++ wordBytes 52#32
    ++ List.replicate 12 0 ++ [1, 0] ++ List.replicate 6 0
    ++ phdr.flatMap wordBytes

/-- A memory that holds the file at 0x01010000 and is zero elsewhere. -/
def oneSegmentMem (phdr : List (BitVec 32)) : Bytes :=
  fun a => (oneSegmentFile phdr).getD (a - 0x01010000#32).toNat 0

/-- That file, loaded. -/
def oneSegment (phdr : List (BitVec 32))
    (h : Accepted (oneSegmentMem phdr) 0x01010000#32) : LoadedElf where
  mem := oneSegmentMem phdr
  program :=
    { filetype := Tasks.processFiletypeElf, ptr := 0x0100F000#32
      elfMem := 0x01010000#32, size := 0#32, stack := 0x01020000#32 }
  fileSize := 84
  isElf := rfl
  valid := h
  imagePage := by decide
  filePage := by decide
  noBinary := rfl
  stackPage := by decide
  stackFits := by decide

end BenOS.Loader
