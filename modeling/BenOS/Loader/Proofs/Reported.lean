/-
What `process_map_memory` says of the mappings it makes.

It answers 0 for every ELF program: the result of the headers is
overwritten by that of a second `process_map_binary`, which answers 0
whatever its own call did, and the stack's is not looked at. So it is
exact what is mapped: the headers up to the first one that `paging_map_to`
does not take, which is also one that occupies no memory if its contents
start on a page. `mapCalls_eq` has every call in order; the rest reads off
it.
-/
import BenOS.Loader.Calls
import BenOS.Loader.Proofs.Image

namespace BenOS.Loader

open Lib Memory Traced

-- ================================================================= the record

section Erase

variable {σ : Type}

/-- Without the record, the loop is that of `process_map_elf`. -/
theorem processMapElfLoop_erase (pg : Pager σ) (elfMem phdrs : Addr)
    (fuel : Nat) : ∀ (i : Nat) (res : Int) (calls : List MapCall) (s : σ),
      (fun r : Recorded σ => (r.1, r.2.1))
          (processMapElfLoopRecorded pg elfMem phdrs fuel i res calls s).val
        = (processMapElfLoop pg elfMem phdrs fuel i res s).val := by
  induction fuel with
  | zero => intro i res calls s; rfl
  | succ fuel ih =>
      intro i res calls s
      unfold processMapElfLoopRecorded processMapElfLoop
      rw [val_bind, val_bind, val_ite, val_ite]
      by_cases hi : i < (read16 (pg.bytes s) (elfMem + offEPhnum)).val.toNat
      · rw [if_pos hi, if_pos hi, val_bind, val_bind]
        simp only [val_ite]
        by_cases hneg : (processMapPhdr pg elfMem (phdrAddress phdrs i) s).val.1
            < 0
        · rw [if_pos hneg, if_pos hneg]
          rfl
        · rw [if_neg hneg, if_neg hneg]
          exact ih _ _ _ _
      · rw [if_neg hi, if_neg hi]
        rfl

/-- Without the record, `process_map_memory` is what it was. -/
theorem processMapMemory_erase (pg : Pager σ) (program : Program) (s : σ) :
    (processMapMemoryRecorded pg program s).map
        (fun t => (t.val.1, t.val.2.1))
      = (processMapMemory pg program s).map Traced.val := by
  have hlast : ∀ (image : Traced Span (Recorded σ))
      (image' : Traced Span (Int × σ)), image.val.2.1 = image'.val.2 →
      (processMapBinaryRecorded pg program image.val.2.2 image.val.2.1).2.1
        = (processMapBinary pg program image'.val.2).2 := by
    intro image image' h
    rw [← h]
    rfl
  unfold processMapMemoryRecorded processMapMemory processMapImageRecorded
    processMapImage
  split
  · have herase := processMapElfLoop_erase pg program.elfMem
      (elfPheader (pg.bytes s) program.elfMem).val phnumLimit 0 0 [] s
    have hstate := congrArg Prod.snd herase
    have hbin := hlast (processMapElfRecorded pg program.elfMem s)
      (processMapElf pg program.elfMem s) hstate
    simp only [Option.bind_eq_bind, Option.bind_some, Option.map_some,
      val_bind, val_ite, val_pure]
    unfold processMapBinaryRecorded processMapBinary at *
    simp only at hbin ⊢
    rw [if_neg (Int.lt_irrefl 0), if_neg (Int.lt_irrefl 0), hbin]
  · split
    · rfl
    · rfl

end Erase

namespace LoadedElf

variable (L : LoadedElf)

/-- What `process_map_memory` answers for a program, and the calls it
makes. -/
def mapCalls : Option (Int × List MapCall) :=
  (processMapMemoryRecorded (dirPager L.mem) L.program
    (pagingNew4gbDir userFlags)).map fun t => (t.val.1, t.val.2.2)

-- ================================================================== the calls

/-- The calls for some program headers in order: up to the first one that
is refused, and that one. -/
def headerCalls : List Nat → List MapCall
  | [] => []
  | i :: is =>
      if L.Taken i then ⟨.phdr i, 0⟩ :: headerCalls is
      else [⟨.phdr i, -einvarg⟩]

/-- The loop of `process_map_elf` makes the calls of the headers from an
index on. -/
theorem processMapElfLoopRecorded_calls (fuel : Nat) :
    ∀ (i : Nat) (calls : List MapCall) (d : PageDir), L.phnum ≤ i + fuel →
      (processMapElfLoopRecorded (dirPager L.mem) L.program.elfMem
          (L.program.elfMem + ePhoff L.mem L.program.elfMem) fuel i 0 calls
          d).val.2.2
        = calls ++ L.headerCalls (List.range' i (L.phnum - i)) := by
  induction fuel with
  | zero =>
      intro i calls d hle
      rw [Nat.sub_eq_zero_of_le (by omega)]
      exact (List.append_nil calls).symm
  | succ fuel ih =>
      intro i calls d hle
      have hnum : (read16 ((dirPager L.mem).bytes d)
          (L.program.elfMem + offEPhnum)).val.toNat = L.phnum := rfl
      unfold processMapElfLoopRecorded
      rw [val_bind, val_ite, hnum]
      by_cases hi : i < L.phnum
      · have hcons := range'_from hi
        rw [if_pos hi, val_bind, processMapPhdr_val, hcons]
        unfold headerCalls
        by_cases ht : L.Taken i
        · rw [if_pos ht, if_pos ht, val_ite, if_neg (Int.lt_irrefl 0),
            ih _ _ _ (by omega), List.append_assoc]
          rfl
        · rw [if_neg ht, if_neg ht, val_ite,
            if_pos (by show -einvarg < 0; decide)]
          rfl
      · rw [if_neg hi, Nat.sub_eq_zero_of_le (by omega)]
        exact (List.append_nil calls).symm

/-- The calls of `process_map_elf`. -/
theorem processMapElfRecorded_calls (d : PageDir) :
    (processMapElfRecorded (dirPager L.mem) L.program.elfMem d).val.2.2
      = L.headerCalls (List.range L.phnum) := by
  have hphdrs : (elfPheader L.mem L.program.elfMem).val
      = L.program.elfMem + ePhoff L.mem L.program.elfMem :=
    if_neg (accepted_iff.mp L.valid).2
  have hlimit : L.phnum ≤ 0 + phnumLimit := by
    have := (load16 L.mem (L.program.elfMem + offEPhnum)).isLt
    simp only [phnumLimit, ePhnum]
    omega
  unfold processMapElfRecorded
  rw [val_bind, List.range_eq_range']
  show (processMapElfLoopRecorded (dirPager L.mem) L.program.elfMem
    (elfPheader L.mem L.program.elfMem).val phnumLimit 0 0 [] d).val.2.2 = _
  rw [hphdrs]
  exact processMapElfLoopRecorded_calls L phnumLimit 0 [] d hlimit

/-- `process_map_memory` answers 0, having mapped the headers up to the
first one refused, failed at the second `process_map_binary` and mapped
the stack. -/
theorem mapCalls_eq :
    L.mapCalls = some (0, L.headerCalls (List.range L.phnum)
      ++ [⟨.binary, -einvarg⟩, ⟨.stack, 0⟩]) := by
  have himage : processMapImageRecorded (dirPager L.mem) L.program
      (pagingNew4gbDir userFlags)
        = some (processMapElfRecorded (dirPager L.mem) L.program.elfMem
            (pagingNew4gbDir userFlags)) := by
    unfold processMapImageRecorded
    rw [if_pos L.isElf]
  have hbinary : ∀ (calls : List MapCall) (d : PageDir),
      processMapBinaryRecorded (dirPager L.mem) L.program calls d
        = (0, d, calls ++ [⟨.binary, -einvarg⟩]) := fun calls d =>
    congrArg (fun r : Int × PageDir =>
      ((0 : Int), r.2, calls ++ [⟨.binary, r.1⟩])) (L.mapBinary_dir d)
  unfold mapCalls processMapMemoryRecorded
  rw [himage, Option.bind_eq_bind, Option.bind_some, Option.map_some, val_bind,
    hbinary, if_neg (Int.lt_irrefl 0), val_pure]
  simp only
  rw [processMapElfRecorded_calls]
  show some ((0 : Int), _ ++ [MapCall.mk _ (pagingMapTo PageDir.set _ _ _ _
    _).1]) = _
  rw [mapStack_dir, List.append_assoc]
  rfl

/-- A call made for a header is one whose earlier headers are taken. -/
theorem mem_headerCalls {c : MapCall} (n : Nat) : ∀ (a : Nat),
    c ∈ L.headerCalls (List.range' a n)
      ↔ ∃ i, a ≤ i ∧ i < a + n ∧ (∀ k, a ≤ k → k < i → L.Taken k)
          ∧ c = ⟨.phdr i, if L.Taken i then 0 else -einvarg⟩ := by
  induction n with
  | zero =>
      intro a
      refine ⟨fun h => ?_, fun ⟨i, hle, hlt, _⟩ => by omega⟩
      cases h
  | succ n ih =>
      intro a
      show c ∈ L.headerCalls (a :: List.range' (a + 1) n) ↔ _
      unfold headerCalls
      by_cases ht : L.Taken a
      · rw [if_pos ht, List.mem_cons, ih]
        constructor
        · rintro (rfl | ⟨i, hle, hlt, hall, rfl⟩)
          · exact ⟨a, Nat.le_refl a, by omega, fun k _ _ => by omega,
              by rw [if_pos ht]⟩
          · refine ⟨i, by omega, by omega, fun k hk hki => ?_, rfl⟩
            rcases Nat.eq_or_lt_of_le hk with rfl | hk
            · exact ht
            · exact hall k hk hki
        · rintro ⟨i, hle, hlt, hall, rfl⟩
          rcases Nat.eq_or_lt_of_le hle with rfl | hle
          · exact Or.inl (by rw [if_pos ht])
          · exact Or.inr ⟨i, hle, by omega,
              fun k hk hki => hall k (by omega) hki, rfl⟩
      · rw [if_neg ht, List.mem_singleton]
        constructor
        · rintro rfl
          exact ⟨a, Nat.le_refl a, by omega, fun k _ _ => by omega,
            by rw [if_neg ht]⟩
        · rintro ⟨i, hle, hlt, hall, rfl⟩
          rcases Nat.eq_or_lt_of_le hle with rfl | hle
          · rw [if_neg ht]
          · exact absurd (hall a (Nat.le_refl a) hle) ht

-- ================================================================== failures

/-- Header `i` is of a segment to load. -/
def Loads (i : Nat) : Prop := L.field i offPType = ptLoad

/-- Header `i` occupies memory. -/
def Occupies (i : Nat) : Prop := L.field i offPMemsz ≠ 0#32

instance (i : Nat) : Decidable (L.Loads i) :=
  inferInstanceAs (Decidable (_ = _))

instance (i : Nat) : Decidable (L.Occupies i) :=
  inferInstanceAs (Decidable (¬ _))

end LoadedElf

/-- A statement's mapping was made. -/
def Mapped (calls : List MapCall) (site : MapSite) : Prop :=
  ∃ c ∈ calls, c.site = site ∧ 0 ≤ c.res

namespace LoadedElf

variable (L : LoadedElf)

/-- An answer reports the failures among some calls. -/
structure Reported (res : Int) (calls : List MapCall) : Prop where
  success : res = 0 →
    (∀ i, i < L.phnum → L.Loads i → L.Occupies i → Mapped calls (.phdr i))
      ∧ Mapped calls .stack
  empty : ∀ j, j < L.phnum → L.Loads j →
    (∀ i, i < j → L.Occupies i → Mapped calls (.phdr i)) →
    ∃ c ∈ calls, c.site = .phdr j
  failed : ∀ c ∈ calls, c.res < 0 → res < 0

/-- The calls for the program headers and for the stack. -/
def programCalls (calls : List MapCall) : List MapCall :=
  calls.filter fun c => c.site ≠ .binary

/-- What `process_map_memory` asks for an ELF program itself. -/
theorem mem_programCalls {c : MapCall} :
    c ∈ programCalls (L.headerCalls (List.range L.phnum)
        ++ [⟨.binary, -einvarg⟩, ⟨.stack, 0⟩])
      ↔ (∃ i, i < L.phnum ∧ (∀ k, k < i → L.Taken k)
          ∧ c = ⟨.phdr i, if L.Taken i then 0 else -einvarg⟩)
        ∨ c = ⟨.stack, 0⟩ := by
  unfold programCalls
  rw [List.mem_filter, List.mem_append, List.range_eq_range', mem_headerCalls,
    List.mem_cons, List.mem_singleton]
  constructor
  · rintro ⟨⟨i, -, hi, hall, rfl⟩ | rfl | rfl, hsite⟩
    · exact Or.inl ⟨i, by omega, fun k hk => hall k (Nat.zero_le k) hk, rfl⟩
    · exact absurd hsite (by decide)
    · exact Or.inr rfl
  · rintro (⟨i, hi, hall, rfl⟩ | rfl)
    · refine ⟨Or.inl ⟨i, Nat.zero_le i, by omega, fun k _ hk => hall k hk,
        rfl⟩, ?_⟩
      exact decide_eq_true (by simp)
    · exact ⟨Or.inr (Or.inr rfl), by decide⟩

/-- Of these the answer 0 is true if no header is refused. -/
theorem reported_of_taken (h : ∀ i, i < L.phnum → L.Taken i) :
    L.Reported 0 (programCalls (L.headerCalls (List.range L.phnum)
      ++ [⟨.binary, -einvarg⟩, ⟨.stack, 0⟩])) := by
  have hcall : ∀ i, i < L.phnum → MapCall.mk (.phdr i) 0
      ∈ programCalls (L.headerCalls (List.range L.phnum)
        ++ [⟨.binary, -einvarg⟩, ⟨.stack, 0⟩]) := fun i hi =>
    L.mem_programCalls.mpr (Or.inl
      ⟨i, hi, fun k hk => h k (by omega), by rw [if_pos (h i hi)]⟩)
  refine ⟨fun _ => ⟨fun i hi _ _ => ?_, ?_⟩, fun j hj _ _ => ?_,
    fun c hc hneg => ?_⟩
  · exact ⟨_, hcall i hi, rfl, Int.le_refl 0⟩
  · exact ⟨_, L.mem_programCalls.mpr (Or.inr rfl), rfl, Int.le_refl 0⟩
  · exact ⟨_, hcall j hj, rfl⟩
  · rcases L.mem_programCalls.mp hc with ⟨i, hi, -, rfl⟩ | rfl
    · rw [if_pos (h i hi)] at hneg
      exact absurd hneg (Int.lt_irrefl 0)
    · exact absurd hneg (Int.lt_irrefl 0)

/-- And only then: the first header refused would have to be reported. -/
theorem taken_of_reported
    (h : L.Reported 0 (programCalls (L.headerCalls (List.range L.phnum)
      ++ [⟨.binary, -einvarg⟩, ⟨.stack, 0⟩]))) :
    ∀ i, i < L.phnum → L.Taken i := by
  intro i
  induction i using Nat.strong_induction_on with
  | _ i ih =>
      intro hi
      by_contra ht
      have hcall := L.mem_programCalls.mpr (Or.inl
        ⟨i, hi, fun k hk => ih k hk (by omega), rfl⟩)
      rw [if_neg ht] at hcall
      have hneg := h.failed _ hcall (by show -einvarg < 0; decide)
      exact absurd hneg (Int.lt_irrefl 0)

/-- `process_map_memory` never reports the failures of its calls, for one
of them always fails and it answers 0. What it says of the headers and
the stack is right exactly for the files whose headers are all taken. -/
theorem mapping_failures :
    ∃ res calls, L.mapCalls = some (res, calls)
      ∧ ¬ L.Reported res calls
      ∧ (L.Reported res (programCalls calls)
          ↔ ∀ i, i < L.phnum → L.Taken i) := by
  refine ⟨_, _, L.mapCalls_eq, fun h => ?_,
    L.taken_of_reported, L.reported_of_taken⟩
  have hbinary := h.failed ⟨.binary, -einvarg⟩
    (List.mem_append_right _ (by simp)) (by decide)
  exact absurd hbinary (Int.lt_irrefl 0)

-- ============================================================= a small file

/-- A memory with an ELF file of two program headers at 0x01030000. -/
def twoSegmentMem (phdrs : List (BitVec 32)) : Bytes :=
  let file := [0x7F, 0x45, 0x4C, 0x46, 1, 1] ++ List.replicate 22 0
    ++ wordBytes 52#32 ++ List.replicate 12 0 ++ [2, 0]
    ++ List.replicate 6 0 ++ phdrs.flatMap wordBytes
  fun a => file.getD (a - 0x01030000#32).toNat 0

/-- That file, loaded. -/
def twoSegments (phdrs : List (BitVec 32))
    (h : Accepted (twoSegmentMem phdrs) 0x01030000#32) : LoadedElf where
  mem := twoSegmentMem phdrs
  program :=
    { filetype := Tasks.processFiletypeElf, ptr := 0x0102F000#32
      elfMem := 0x01030000#32, size := 0#32, stack := 0x01040000#32 }
  fileSize := 116
  isElf := rfl
  valid := h
  imagePage := by decide
  filePage := by decide
  noBinary := rfl
  stackPage := by decide
  stackFits := by decide

/-- A file whose first header occupies no memory and whose second one
does. -/
def emptyFirst : LoadedElf :=
  twoSegments
    [1, 0, 0x400000, 0, 0, 0, 4, 0x1000, 1, 0, 0x401000, 0, 4, 4, 4, 0x1000]
    (by decide +kernel)

/-- The first header of such a file keeps the second from being mapped,
and the answer is 0. -/
theorem empty_header_unreported :
    emptyFirst.mapCalls = some (0, [⟨.phdr 0, -einvarg⟩, ⟨.binary, -einvarg⟩,
        ⟨.stack, 0⟩])
      ∧ emptyFirst.Loads 1 ∧ emptyFirst.Occupies 1
      ∧ ¬ ∃ res calls, emptyFirst.mapCalls = some (res, calls)
          ∧ emptyFirst.Reported res (programCalls calls) := by
  have hcalls : emptyFirst.mapCalls = some (0, [⟨.phdr 0, -einvarg⟩,
      ⟨.binary, -einvarg⟩, ⟨.stack, 0⟩]) := by
    rw [mapCalls_eq]
    decide +kernel
  have hloads : emptyFirst.Loads 1 := by decide +kernel
  have hoccupies : emptyFirst.Occupies 1 := by decide +kernel
  refine ⟨hcalls, hloads, hoccupies, fun ⟨res, calls, heq, h⟩ => ?_⟩
  rw [hcalls] at heq
  obtain ⟨rfl, rfl⟩ := Prod.mk.inj (Option.some.inj heq)
  obtain ⟨c, hc, hsite, -⟩ :=
    (h.success rfl).1 1 (by decide +kernel) hloads hoccupies
  have hmem : c = ⟨.phdr 0, -einvarg⟩ ∨ c = ⟨.stack, 0⟩ := by
    simpa [programCalls] using hc
  rcases hmem with rfl | rfl
  · exact absurd hsite (by decide)
  · exact absurd hsite (by decide)

end LoadedElf

end BenOS.Loader
