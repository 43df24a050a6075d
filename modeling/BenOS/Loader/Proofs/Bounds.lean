/-
Where the loader reads in a file.

`elf_validate_loaded` tests the front of the buffer byte by byte and
stops at the first test that fails, so it looks at `elfFront` bytes. No
test compares anything with the size of the file: `e_phoff` and
`e_phnum` are taken as they come, by `elf_process_pheaders` and again by
`process_map_elf`, and `e_entry` by `task_init`.

A file that is turned away stops nobody: `elf_load` answers 0 all the
same and leaves null for the `struct elf_file`, so `task_init` and
`process_map_elf` look for the ELF header behind the word that lies at
`elf_mem` from null on (`headerRead`).

# What is exact about it

`reads_inside_exact`: every read lies in the file, and a file without
room for its headers is turned away before they are read, exactly when
the front that is looked at is there, a file that passes has room for
the header and for the table it names, and for a file that does not pass
the header found through null, and the program headers behind it up to
the first that is not mapped, happen to lie in the file.
-/
import BenOS.Loader.Map
import BenOS.Memory.Proofs.Mapping

namespace BenOS.Loader

open Lib Memory Traced

variable {m : Bytes} {base : Addr} {n : Nat}

-- ======================================================= what is required

/-- A read lies in the `n` bytes from `base` on. -/
def InBuffer (base : Addr) (n : Nat) (s : Span) : Prop :=
  (s.addr - base).toNat + s.len ≤ n

/-- `e_phoff` -/
def ePhoff (m : Bytes) (base : Addr) : BitVec 32 := load32 m (base + offEPhoff)

/-- `e_phnum` -/
def ePhnum (m : Bytes) (base : Addr) : Nat :=
  (load16 m (base + offEPhnum)).toNat

/-- A file of `n` bytes has room for the ELF header, and for the program
headers where that header says they are. -/
structure TableInside (m : Bytes) (base : Addr) (n : Nat) : Prop where
  header : sizeofElfHeader ≤ n
  start : 0 ≤ (ePhoff m base).toInt
  table : (ePhoff m base).toInt + (sizeofElfPhdr * ePhnum m base : Nat) ≤ n

/-- `elf_process_loaded` takes the file. -/
def Accepted (m : Bytes) (base : Addr) : Prop :=
  ¬ (elfProcessLoaded m (ElfFile.ofMem base)).val.1 < 0

instance (m : Bytes) (base : Addr) : Decidable (Accepted m base) :=
  inferInstanceAs (Decidable (¬ _))

/-- The ELF header `task_init` and `process_map_elf` go by:
`elf_header(process->elf)`. That is the image of a file that was taken;
behind one that was not, `process->elf` is null. -/
def headerRead (m : Bytes) (base : Addr) : Addr :=
  if Accepted m base then base else elfHeader m 0#32

/-- Every read of a header lies in the file, and a file without room for
its headers is turned away with nothing but the tests of the front
made. -/
structure ReadsInside (m : Bytes) (base : Addr) (n : Nat) : Prop where
  loaded : Logs (InBuffer base n) (elfProcessLoaded m (ElfFile.ofMem base))
  entry : Logs (InBuffer base n) (elfEntry m (headerRead m base))
  mapped : ∀ d : PageDir,
    Logs (InBuffer base n)
      (processMapElf (dirPager m) (headerRead m base) d)
  rejected : ¬ TableInside m base n →
    (elfProcessLoaded m (ElfFile.ofMem base)).val.1 < 0
      ∧ (elfProcessLoaded m (ElfFile.ofMem base)).log
        = (elfValidateLoaded m base).log

/-- How many bytes from an address on agree with the given ones. -/
def matched (m : Bytes) : Addr → List UInt8 → Nat
  | _, [] => 0
  | a, c :: cs => if m a = c then matched m (a + 1#32) cs + 1 else 0

/-- A byte of `e_ident` is one the kernel takes: the class none or 32
bits, the encoding none or little-endian. -/
def IdentOk (m : Bytes) (base off : Addr) : Prop :=
  m (base + off) = 0 ∨ m (base + off) = 1

instance (m : Bytes) (base off : Addr) : Decidable (IdentOk m base off) :=
  inferInstanceAs (Decidable (_ ∨ _))

/-- The number of bytes at the front of the file that
`elf_validate_loaded` looks at. -/
def elfFront (m : Bytes) (base : Addr) : Nat :=
  if matched m base elfSignature < elfSignature.length then
    matched m base elfSignature + 1
  else if ¬ IdentOk m base eiClass then 5
  else if ¬ IdentOk m base eiData then 6
  else 32

/-- Where the program headers behind an ELF header start. -/
def phdrTable (m : Bytes) (header : Addr) : Addr :=
  if ePhoff m header = 0#32 then 0#32 else header + ePhoff m header

/-- A program header is mapped: its contents do not end before they
start, so `paging_map_to` takes it. -/
def HeaderTaken (m : Bytes) (header : Addr) (i : Nat) : Prop :=
  let phdr := phdrAddress (phdrTable m header) i
  let phys := header + load32 m (phdr + offPOffset)
  (pagingAlignToLowerPage phys).toNat
    < (pagingAlignAddress (phys + load32 m (phdr + offPMemsz))).toNat

/-- The fields of a program header that are looked at to map it lie in the
file. -/
def PhdrInside (base : Addr) (n : Nat) (phdr : Addr) : Prop :=
  ∀ f ∈ [offPOffset, offPFlags, offPVaddr, offPMemsz],
    InBuffer base n ⟨phdr + f, 4⟩

/-- An ELF header lies in the file, in the fields that are looked at
behind the load, and so do the program headers behind it up to the first
that is not mapped. -/
structure HeadersInside (m : Bytes) (base : Addr) (n : Nat) (header : Addr) :
    Prop where
  entry : InBuffer base n ⟨header + offEEntry, 4⟩
  phoff : InBuffer base n ⟨header + offEPhoff, 4⟩
  phnum : InBuffer base n ⟨header + offEPhnum, 2⟩
  phdr : ∀ i < ePhnum m header, (∀ j < i, HeaderTaken m header j) →
    PhdrInside base n (phdrAddress (phdrTable m header) i)

-- ============================================================== one read

theorem inBuffer_add {off : Addr} {k : Nat} :
    InBuffer base n ⟨base + off, k⟩ ↔ off.toNat + k ≤ n := by
  unfold InBuffer
  rw [BitVec.add_comm, BitVec.add_sub_cancel]

theorem logs_read {off : Addr} {k : Nat} {α : Type} {a : α}
    (h : off.toNat + k ≤ n) :
    Logs (InBuffer base n) (look ⟨base + off, k⟩ a) :=
  logs_look (inBuffer_add.mpr h) a

/-- A field of a program header in the table lies in the file. -/
theorem inBuffer_phdr (h : TableInside m base n) {i : Nat}
    (hi : i < ePhnum m base) {f : Addr} (hf : f.toNat + 4 ≤ sizeofElfPhdr) :
    InBuffer base n
      ⟨phdrAddress (base + ePhoff m base) i + f, 4⟩ := by
  obtain ⟨-, hstart, htable⟩ := h
  have hnum : ePhnum m base < 2 ^ 16 := (load16 m (base + offEPhnum)).isLt
  have hoff := BitVec.toInt_eq_toNat_cond (ePhoff m base)
  have hlt := (ePhoff m base).isLt
  have haddr : phdrAddress (base + ePhoff m base) i + f
      = base + (ePhoff m base + BitVec.ofNat 32 (sizeofElfPhdr * i) + f) := by
    unfold phdrAddress
    rw [BitVec.add_assoc, BitVec.add_assoc, BitVec.add_assoc]
  rw [haddr, inBuffer_add]
  simp only [BitVec.toNat_add, BitVec.toNat_ofNat, sizeofElfPhdr] at *
  split at hoff
  · omega
  · omega

-- ============================================================== validation

theorem matched_le (a : Addr) (cs : List UInt8) :
    matched m a cs ≤ cs.length := by
  induction cs generalizing a with
  | nil => exact Nat.le_refl _
  | cons c cs ih =>
      unfold matched
      split
      · exact Nat.succ_le_succ (ih _)
      · exact Nat.zero_le _

/-- `memcmp` answers 0 where all bytes agree. -/
theorem memcmp_val (a : Addr) (cs : List UInt8) :
    (memcmp m a cs).val = 0 ↔ matched m a cs = cs.length := by
  induction cs generalizing a with
  | nil => exact iff_of_true rfl rfl
  | cons c cs ih =>
      unfold memcmp matched
      simp only [val_bind, val_ite, val_pure]
      by_cases hc : m a = c
      · have hread : (read8 m a).val = c := hc
        rw [if_neg (by rw [hread]; exact not_not.mpr rfl), if_pos hc, ih]
        simp only [List.length_cons]
        omega
      · have hread : (read8 m a).val ≠ c := hc
        rw [if_pos hread, if_neg hc]
        simp only [List.length_cons]
        split <;> omega

/-- `memcmp` reads up to the first byte that differs. -/
theorem memcmp_logs (cs : List UInt8) :
    ∀ off : Addr, cs ≠ [] → off.toNat + cs.length < 2 ^ 32 →
      (Logs (InBuffer base n) (memcmp m (base + off) cs)
        ↔ off.toNat + min (matched m (base + off) cs + 1) cs.length ≤ n) := by
  induction cs with
  | nil => intro _ hne _; exact absurd rfl hne
  | cons c cs ih =>
      intro off _ hlt
      have hread : (read8 m (base + off)).val = m (base + off) := rfl
      have hfirst : Logs (InBuffer base n) (read8 m (base + off))
          ↔ off.toNat + 1 ≤ n :=
        ⟨fun h => inBuffer_add.mp (h _ (List.mem_singleton.mpr rfl)), logs_read⟩
      unfold memcmp matched
      rw [logs_bind_iff, hfirst, hread]
      simp only [List.length_cons] at hlt ⊢
      by_cases hc : m (base + off) = c
      · rw [if_neg (not_not.mpr hc), if_pos hc]
        have hnext : (off + 1#32).toNat = off.toNat + 1 := by
          rw [BitVec.toNat_add]
          simp only [BitVec.toNat_ofNat]
          omega
        rw [BitVec.add_assoc]
        cases cs with
        | nil =>
            refine ⟨fun h => ?_, fun h => ⟨?_, logs_pure _⟩⟩
            · exact Nat.le_trans (by simp) h.1
            · simp only [matched, List.length_nil] at h
              omega
        | cons c' cs =>
            rw [ih (off + 1#32) (List.cons_ne_nil _ _) (by omega), hnext]
            simp only [List.length_cons]
            omega
      · rw [if_pos hc, if_neg hc]
        exact ⟨fun h => by omega, fun h => ⟨by omega, logs_pure _⟩⟩

/-- The signature test passes where the four bytes are there. -/
theorem elfValidSignature_val :
    (elfValidSignature m base).val
      = decide (matched m base elfSignature = elfSignature.length) := by
  unfold elfValidSignature
  rw [val_bind, val_pure, Bool.eq_iff_iff, beq_iff_eq, memcmp_val,
    decide_eq_true_iff]

theorem elfValidClass_val :
    (elfValidClass m base).val = decide (IdentOk m base eiClass) := by
  show ((_ == _) || (_ == _)) = _
  rw [Bool.eq_iff_iff, Bool.or_eq_true, beq_iff_eq, beq_iff_eq,
    decide_eq_true_iff]
  rfl

theorem elfValidEncoding_val :
    (elfValidEncoding m base).val = decide (IdentOk m base eiData) := by
  show ((_ == _) || (_ == _)) = _
  rw [Bool.eq_iff_iff, Bool.or_eq_true, beq_iff_eq, beq_iff_eq,
    decide_eq_true_iff]
  rfl

theorem elfHasProgramHeader_val :
    (elfHasProgramHeader m base).val = decide (ePhoff m base ≠ 0#32) := by
  show (_ != _) = _
  rw [Bool.eq_iff_iff, bne_iff_ne, decide_eq_true_iff]
  rfl

/-- The verdict of `elf_validate_loaded`. -/
theorem elfValidateLoaded_val :
    (elfValidateLoaded m base).val
      = if elfFront m base = 32 ∧ ePhoff m base ≠ 0#32 then benosAllOk
        else -einformat := by
  have hle := matched_le (m := m) base elfSignature
  have hlen : elfSignature.length = 4 := rfl
  unfold elfValidateLoaded elfFront
  rw [val_bind, val_ite, elfValidSignature_val]
  by_cases hsig : matched m base elfSignature = elfSignature.length
  · by_cases hcls : IdentOk m base eiClass
    · by_cases henc : IdentOk m base eiData
      · simp [elfValidClass_val, elfValidEncoding_val, elfHasProgramHeader_val,
          hsig, hcls, henc]
      · simp [elfValidClass_val, elfValidEncoding_val, hsig, hcls, henc]
    · simp [elfValidClass_val, hsig, hcls]
  · have hlt : matched m base elfSignature < elfSignature.length := by omega
    have hne : matched m base elfSignature + 1 ≠ 32 := by omega
    simp [hsig, hlt, hne]

theorem elfValidSignature_logs :
    Logs (InBuffer base n) (elfValidSignature m base)
      ↔ min (matched m base elfSignature + 1) elfSignature.length ≤ n := by
  have hmem : Logs (InBuffer base n) (memcmp m (base + 0#32) elfSignature)
      ↔ _ := memcmp_logs elfSignature 0#32 (List.cons_ne_nil _ _) (by decide)
  rw [BitVec.add_zero, BitVec.toNat_zero, Nat.zero_add] at hmem
  unfold elfValidSignature
  rw [logs_bind_iff, hmem]
  exact and_iff_left (logs_pure _)

/-- The one read that a test of a single field makes. -/
theorem logs_field {α β : Type} {off : Addr} {k : Nat} (a : α) (f : α → β) :
    Logs (InBuffer base n) (look ⟨base + off, k⟩ a >>= fun x => pure (f x))
      ↔ off.toNat + k ≤ n := by
  rw [logs_bind_iff]
  constructor
  · intro h
    exact inBuffer_add.mp (h.1 _ (List.mem_singleton.mpr rfl))
  · intro h
    exact ⟨logs_read h, logs_pure _⟩

/-- Its reads are inside where the front it looks at is. -/
theorem elfValidateLoaded_logs :
    Logs (InBuffer base n) (elfValidateLoaded m base)
      ↔ elfFront m base ≤ n := by
  have hle := matched_le (m := m) base elfSignature
  have hlen : elfSignature.length = 4 := rfl
  have hcl : Logs (InBuffer base n) (elfValidClass m base) ↔ 5 ≤ n :=
    logs_field _ _
  have hen : Logs (InBuffer base n) (elfValidEncoding m base) ↔ 6 ≤ n :=
    logs_field _ _
  have hph : Logs (InBuffer base n) (elfHasProgramHeader m base) ↔ 32 ≤ n :=
    logs_field _ _
  unfold elfValidateLoaded elfFront
  rw [logs_bind_iff, elfValidSignature_logs, elfValidSignature_val]
  by_cases hsig : matched m base elfSignature = elfSignature.length
  · by_cases hcls : IdentOk m base eiClass
    · by_cases henc : IdentOk m base eiData
      · simp [elfValidClass_val, elfValidEncoding_val, logs_bind_iff, hcl, hen,
          hph, logs_pure, hsig, hcls, henc, hlen]
        omega
      · simp [elfValidClass_val, elfValidEncoding_val, logs_bind_iff, hcl, hen,
          logs_pure, hsig, hcls, henc, hlen]
        omega
    · simp [elfValidClass_val, logs_bind_iff, hcl, logs_pure, hsig, hcls, hlen]
      omega
  · have hlt : matched m base elfSignature < elfSignature.length := by omega
    rw [if_pos hlt, decide_eq_false hsig, if_pos (by decide),
      and_iff_left (logs_pure _)]
    omega

-- ======================================================== program headers

/-- Taking account of a program header never fails. -/
theorem elfProcessPheader_val (file : ElfFile) (phdr : Addr) :
    (elfProcessPheader m file phdr).val.1 = 0 := by
  unfold elfProcessPheader
  rw [val_bind, val_ite]
  split
  · rfl
  · rfl

theorem elfProcessPheadersLoop_val (header : Addr) (fuel : Nat) :
    ∀ (i : Nat) (file : ElfFile),
      (elfProcessPheadersLoop m header fuel i 0 file).val.1 = 0 := by
  induction fuel with
  | zero => intro _ _; rfl
  | succ fuel ih =>
      intro i file
      unfold elfProcessPheadersLoop
      rw [val_bind, val_ite]
      split
      · rw [val_bind, val_bind, val_ite, elfProcessPheader_val,
          if_neg (by decide)]
        exact ih _ _
      · rfl

/-- A file that passes goes on to its program headers. -/
theorem elfProcessLoaded_valid
    (h : elfFront m base = 32 ∧ ePhoff m base ≠ 0#32) :
    elfProcessLoaded m (ElfFile.ofMem base)
      = elfValidateLoaded m base >>= fun _ =>
          elfProcessPheaders m (ElfFile.ofMem base) := by
  have hval : (elfValidateLoaded m base).val = 0 := by
    rw [elfValidateLoaded_val, if_pos h]
  show (⟨_, _⟩ : Traced Span (Int × ElfFile)) = ⟨_, _⟩
  simp only [ElfFile.ofMem, hval]
  rfl

/-- A file that does not is turned away there. -/
theorem elfProcessLoaded_invalid
    (h : ¬ (elfFront m base = 32 ∧ ePhoff m base ≠ 0#32)) :
    elfProcessLoaded m (ElfFile.ofMem base)
      = elfValidateLoaded m base >>= fun res =>
          pure (res, ElfFile.ofMem base) := by
  have hval : (elfValidateLoaded m base).val = -einformat := by
    rw [elfValidateLoaded_val, if_neg h]
  show (⟨_, _⟩ : Traced Span (Int × ElfFile)) = ⟨_, _⟩
  simp only [ElfFile.ofMem, hval]
  rfl

/-- `elf_process_loaded` takes exactly what `elf_validate_loaded`
passes. -/
theorem accepted_iff :
    Accepted m base ↔ elfFront m base = 32 ∧ ePhoff m base ≠ 0#32 := by
  unfold Accepted
  by_cases h : elfFront m base = 32 ∧ ePhoff m base ≠ 0#32
  · rw [elfProcessLoaded_valid h, val_bind]
    unfold elfProcessPheaders
    rw [elfProcessPheadersLoop_val]
    exact iff_of_true (by decide) h
  · rw [elfProcessLoaded_invalid h, val_bind, val_pure, elfValidateLoaded_val,
      if_neg h]
    exact iff_of_false (fun hacc => hacc (by show -einformat < 0; decide)) h

-- ============================================================ inside reads

section Inside

variable (h : TableInside m base n)

include h

/-- `elf_pheader` reads inside. -/
theorem elfPheader_logs : Logs (InBuffer base n) (elfPheader m base) := by
  have := h.header
  refine logs_bind (logs_read ?_) (logs_pure _)
  simp only [sizeofElfHeader] at this
  show 28 + 4 ≤ n
  omega

/-- `e_phnum` lies inside. -/
theorem phnum_logs : Logs (InBuffer base n) (read16 m (base + offEPhnum)) := by
  have := h.header
  simp only [sizeofElfHeader] at this
  refine logs_read ?_
  show 44 + 2 ≤ n
  omega

/-- A field of a header of the table lies inside. -/
theorem phdrField_logs {i : Nat} (hi : i < ePhnum m base) {f : Addr}
    (hf : f.toNat + 4 ≤ sizeofElfPhdr) :
    Logs (InBuffer base n)
      (read32 m (phdrAddress (base + ePhoff m base) i + f)) :=
  logs_look (inBuffer_phdr h hi hf) _

/-- Where the contents of a segment lie is read inside. -/
theorem elfPhdrPhysAddress_logs {i : Nat} (hi : i < ePhnum m base)
    (elfMem : Addr) :
    Logs (InBuffer base n)
      (elfPhdrPhysAddress m elfMem
        (phdrAddress (base + ePhoff m base) i)) :=
  logs_bind (phdrField_logs h hi (by decide)) (logs_pure _)

/-- Taking account of a header of the table reads inside. -/
theorem elfProcessPheader_logs {i : Nat} (hi : i < ePhnum m base)
    (file : ElfFile) :
    Logs (InBuffer base n)
      (elfProcessPheader m file (phdrAddress (base + ePhoff m base) i)) := by
  have hlower : ∀ (file : ElfFile) (vaddr : Addr), Logs (InBuffer base n)
      (elfLowerBase m file (phdrAddress (base + ePhoff m base) i) vaddr) := by
    intro file vaddr
    unfold elfLowerBase
    split
    · exact logs_bind (elfPhdrPhysAddress_logs h hi _) (logs_pure _)
    · exact logs_pure _
  have hraise : ∀ (file : ElfFile) (e filesz : Addr), Logs (InBuffer base n)
      (elfRaiseEnd m file (phdrAddress (base + ePhoff m base) i) e filesz) := by
    intro file e filesz
    unfold elfRaiseEnd
    split
    · exact logs_bind (elfPhdrPhysAddress_logs h hi _) (logs_pure _)
    · exact logs_pure _
  unfold elfProcessPheader
  refine logs_bind (phdrField_logs h hi (by decide)) ?_
  split
  · exact logs_bind (phdrField_logs h hi (by decide)) (logs_bind (hlower _ _)
      (logs_bind (phdrField_logs h hi (by decide)) (logs_bind (hraise _ _ _)
        (logs_pure _))))
  · exact logs_pure _

/-- The loop of `elf_process_pheaders` reads inside. -/
theorem elfProcessPheadersLoop_logs (hoff : ePhoff m base ≠ 0#32)
    (fuel : Nat) : ∀ (i : Nat) (res : Int) (file : ElfFile),
      Logs (InBuffer base n)
        (elfProcessPheadersLoop m base fuel i res file) := by
  have hphdrs : (elfPheader m base).val = base + ePhoff m base := if_neg hoff
  induction fuel with
  | zero => intro _ _ _; exact logs_pure _
  | succ fuel ih =>
      intro i res file
      unfold elfProcessPheadersLoop
      refine logs_bind (phnum_logs h) ?_
      split
      case isTrue hi =>
        have hphdr : (elfProgramHeader m base i).val
            = phdrAddress (base + ePhoff m base) i := by
          unfold elfProgramHeader
          rw [val_bind, val_pure, hphdrs]
        refine logs_bind (logs_bind (elfPheader_logs h) (logs_pure _)) ?_
        rw [hphdr]
        refine logs_bind (elfProcessPheader_logs h hi file) ?_
        split
        · exact logs_pure _
        · exact ih _ _ _
      case isFalse => exact logs_pure _

/-- The headers of a file that passes lie inside. -/
theorem headersInside_base (hoff : ePhoff m base ≠ 0#32) :
    HeadersInside m base n base := by
  have hheader := h.header
  simp only [sizeofElfHeader] at hheader
  refine ⟨inBuffer_add.mpr ?_, inBuffer_add.mpr ?_, inBuffer_add.mpr ?_, ?_⟩
  · show 24 + 4 ≤ n
    omega
  · show 28 + 4 ≤ n
    omega
  · show 44 + 2 ≤ n
    omega
  · intro i hi _ f hf
    have htable : phdrTable m base = base + ePhoff m base := if_neg hoff
    rw [htable]
    refine inBuffer_phdr h hi ?_
    simp only [List.mem_cons, List.not_mem_nil, or_false] at hf
    rcases hf with rfl | rfl | rfl | rfl <;> decide

end Inside

-- ========================================================= behind the load

/-- Mapping a program header reads its four fields. -/
theorem processMapPhdr_logs {header phdr : Addr} {d : PageDir} :
    Logs (InBuffer base n) (processMapPhdr (dirPager m) header phdr d)
      ↔ PhdrInside base n phdr := by
  have hphys : Logs (InBuffer base n)
      (elfPhdrPhysAddress (m := m) header phdr)
        ↔ InBuffer base n ⟨phdr + offPOffset, 4⟩ := by
    unfold elfPhdrPhysAddress read32
    rw [logs_bind_iff, logs_look_iff]
    exact and_iff_left (logs_pure _)
  unfold processMapPhdr
  simp only [logs_bind_iff, read32, logs_look_iff]
  rw [show (dirPager m).bytes d = m from rfl, hphys]
  unfold PhdrInside
  simp only [List.forall_mem_cons, List.not_mem_nil, false_implies,
    forall_const, logs_pure, and_true]

/-- Whether a program header is mapped does not depend on the
directory. -/
theorem processMapPhdr_neg {header : Addr} {i : Nat} {d : PageDir} :
    (processMapPhdr (dirPager m) header (phdrAddress (phdrTable m header) i)
        d).val.1 < 0 ↔ ¬ HeaderTaken m header i := by
  unfold HeaderTaken
  simp only
  generalize phdrAddress (phdrTable m header) i = phdr
  generalize hphys : header + load32 m (phdr + offPOffset) = phys
  have hsame : ∃ flags, (processMapPhdr (dirPager m) header phdr d).val
      = pagingMapTo PageDir.set
          (pagingAlignToLowerPage (load32 m (phdr + offPVaddr)))
          (pagingAlignToLowerPage phys)
          (pagingAlignAddress (phys + load32 m (phdr + offPMemsz))) flags d := by
    rw [← hphys]
    exact ⟨_, rfl⟩
  obtain ⟨flags, hsame⟩ := hsame
  rw [hsame, pagingAlignToLowerPage_eq, pagingAlignToLowerPage_eq,
    pagingMapTo_dir _ _ _ _ (pagingAlignAddress_aligned _), Nat.not_lt]
  split
  case isTrue hle => exact iff_of_true (show -einvarg < 0 by decide) hle
  case isFalse hlt => exact iff_of_false (Int.lt_irrefl 0) hlt

/-- One round of the loop of `process_map_elf`. -/
theorem processMapElfLoop_succ (header phdrs : Addr) (fuel i : Nat) (res : Int)
    (d : PageDir) :
    processMapElfLoop (dirPager m) header phdrs (fuel + 1) i res d
      = look ⟨header + offEPhnum, 2⟩ (ePhnum m header) >>= fun phnum =>
          if i < phnum then
            processMapPhdr (dirPager m) header (phdrAddress phdrs i) d
              >>= fun r =>
                if r.1 < 0 then pure r
                else
                  processMapElfLoop (dirPager m) header phdrs fuel (i + 1) r.1
                    r.2
          else pure (res, d) := rfl

/-- The loop of `process_map_elf` reads `e_phnum`, and the program headers
from its index on up to the first that is not mapped. -/
theorem processMapElfLoop_logs (header : Addr) (fuel : Nat) :
    ∀ (i : Nat) (res : Int) (d : PageDir), ePhnum m header ≤ i + fuel →
      (Logs (InBuffer base n)
          (processMapElfLoop (dirPager m) header (phdrTable m header)
            (fuel + 1) i res d)
        ↔ InBuffer base n ⟨header + offEPhnum, 2⟩
          ∧ ∀ k, i ≤ k → k < ePhnum m header →
            (∀ j, i ≤ j → j < k → HeaderTaken m header j) →
            PhdrInside base n (phdrAddress (phdrTable m header) k)) := by
  induction fuel with
  | zero =>
      intro i res d hle
      rw [processMapElfLoop_succ, logs_bind_iff, logs_look_iff]
      refine and_congr_right fun _ => ?_
      rw [val_look, if_neg (by omega)]
      exact iff_of_true (logs_pure _) fun k hk hlt => by omega
  | succ fuel ih =>
      intro i res d hle
      rw [processMapElfLoop_succ, logs_bind_iff, logs_look_iff]
      refine and_congr_right fun hphnum => ?_
      rw [val_look]
      by_cases hi : i < ePhnum m header
      · rw [if_pos hi, logs_bind_iff, processMapPhdr_logs]
        -- the header at `i`, and if it is mapped the ones behind it
        by_cases htaken : HeaderTaken m header i
        · rw [if_neg (fun hneg => processMapPhdr_neg.mp hneg htaken),
            ih (i + 1) _ _ (by omega), and_iff_right hphnum]
          constructor
          · rintro ⟨hfirst, hrest⟩ k hk hlt hall
            rcases Nat.eq_or_lt_of_le hk with rfl | hk
            · exact hfirst
            · exact hrest k hk hlt fun j hj => hall j (by omega)
          · intro hall
            refine ⟨hall i (Nat.le_refl i) hi fun j hj hlt => by omega,
              fun k hk hlt hmapped => hall k (by omega) hlt fun j hj hjk => ?_⟩
            rcases Nat.eq_or_lt_of_le hj with rfl | hj
            · exact htaken
            · exact hmapped j hj hjk
        · rw [if_pos (processMapPhdr_neg.mpr htaken), and_iff_left (logs_pure _)]
          constructor
          · intro hfirst k hk hlt hall
            rcases Nat.eq_or_lt_of_le hk with rfl | hk
            · exact hfirst
            · exact absurd (hall i (Nat.le_refl i) hk) htaken
          · intro hall
            exact hall i (Nat.le_refl i) hi fun j hj hlt => by omega
      · rw [if_neg hi]
        exact iff_of_true (logs_pure _) fun k hk hlt => by omega

/-- What `task_init` and `process_map_elf` read behind the ELF header they
go by. -/
theorem headersInside_iff (header : Addr) :
    HeadersInside m base n header
      ↔ Logs (InBuffer base n) (elfEntry m header)
        ∧ ∀ d : PageDir,
          Logs (InBuffer base n) (processMapElf (dirPager m) header d) := by
  have hentry : Logs (InBuffer base n) (elfEntry m header)
      ↔ InBuffer base n ⟨header + offEEntry, 4⟩ := logs_look_iff
  have hnum : ePhnum m header ≤ 0 + 65535 := by
    have : ePhnum m header < 2 ^ 16 := (load16 m (header + offEPhnum)).isLt
    omega
  have hphoff : Logs (InBuffer base n) (elfPheader m header)
      ↔ InBuffer base n ⟨header + offEPhoff, 4⟩ := by
    unfold elfPheader read32
    rw [logs_bind_iff, logs_look_iff]
    exact and_iff_left (logs_pure _)
  have hmap : ∀ d : PageDir,
      Logs (InBuffer base n) (processMapElf (dirPager m) header d)
        ↔ InBuffer base n ⟨header + offEPhoff, 4⟩
          ∧ InBuffer base n ⟨header + offEPhnum, 2⟩
          ∧ ∀ k, 0 ≤ k → k < ePhnum m header →
            (∀ j, 0 ≤ j → j < k → HeaderTaken m header j) →
            PhdrInside base n (phdrAddress (phdrTable m header) k) := by
    intro d
    unfold processMapElf
    rw [logs_bind_iff]
    exact and_congr hphoff (processMapElfLoop_logs header 65535 0 0 d hnum)
  constructor
  · intro h
    refine ⟨hentry.mpr h.entry, fun d => (hmap d).mpr ⟨h.phoff, h.phnum, ?_⟩⟩
    intro k _ hk hall
    exact h.phdr k hk fun j hj => hall j (Nat.zero_le j) hj
  · rintro ⟨hfirst, hall⟩
    obtain ⟨hoff, hcount, hrest⟩ := (hmap (pagingNew4gbDir 0#32)).mp (hall _)
    refine ⟨hentry.mp hfirst, hoff, hcount, fun k hk hmapped => ?_⟩
    exact hrest k (Nat.zero_le k) hk fun j _ hj => hmapped j hj

-- ======================================================== all of the reads

/-- Every read of a header of a file of `n` bytes lies inside, and a file
without room for its headers is turned away, exactly when the file has
the front that `elf_validate_loaded` looks at; if it passes, room for the
header and the program headers; and if it does not, the headers found
through null lie in it. -/
theorem reads_inside_exact (m : Bytes) (base : Addr) (n : Nat) :
    ReadsInside m base n
      ↔ elfFront m base ≤ n
        ∧ (elfFront m base = 32 ∧ ePhoff m base ≠ 0#32 →
            TableInside m base n)
        ∧ (¬ (elfFront m base = 32 ∧ ePhoff m base ≠ 0#32) →
            HeadersInside m base n (elfHeader m 0#32)) := by
  have hread : ∀ header, headerRead m base = header →
      (HeadersInside m base n header
        ↔ Logs (InBuffer base n) (elfEntry m (headerRead m base))
          ∧ ∀ d : PageDir, Logs (InBuffer base n)
            (processMapElf (dirPager m) (headerRead m base) d)) := by
    rintro header rfl
    exact headersInside_iff _
  constructor
  · intro h
    refine ⟨?_, ?_, ?_⟩
    · rw [← elfValidateLoaded_logs]
      have hall := h.loaded
      by_cases hvalid : elfFront m base = 32 ∧ ePhoff m base ≠ 0#32
      · rw [elfProcessLoaded_valid hvalid, logs_bind_iff] at hall
        exact hall.1
      · rw [elfProcessLoaded_invalid hvalid, logs_bind_iff] at hall
        exact hall.1
    · intro hvalid
      by_contra hout
      exact accepted_iff.mpr hvalid (h.rejected hout).1
    · intro hvalid
      have hnull : headerRead m base = elfHeader m 0#32 :=
        if_neg fun hacc => hvalid (accepted_iff.mp hacc)
      exact (hread _ hnull).mpr ⟨h.entry, h.mapped⟩
  · rintro ⟨hfront, htable, hnull⟩
    have hfront' := elfValidateLoaded_logs.mpr hfront
    have hlater : Logs (InBuffer base n) (elfEntry m (headerRead m base))
        ∧ ∀ d : PageDir, Logs (InBuffer base n)
          (processMapElf (dirPager m) (headerRead m base) d) := by
      by_cases hvalid : elfFront m base = 32 ∧ ePhoff m base ≠ 0#32
      · exact (hread base (if_pos (accepted_iff.mpr hvalid))).mp
          (headersInside_base (htable hvalid) hvalid.2)
      · exact (hread _ (if_neg fun hacc => hvalid (accepted_iff.mp hacc))).mp
          (hnull hvalid)
    refine ⟨?_, hlater.1, hlater.2, ?_⟩
    · by_cases hvalid : elfFront m base = 32 ∧ ePhoff m base ≠ 0#32
      · rw [elfProcessLoaded_valid hvalid]
        exact logs_bind hfront'
          (elfProcessPheadersLoop_logs (htable hvalid) hvalid.2 _ _ _ _)
      · rw [elfProcessLoaded_invalid hvalid]
        exact logs_bind hfront' (logs_pure _)
    · intro hout
      have hvalid : ¬ (elfFront m base = 32 ∧ ePhoff m base ≠ 0#32) :=
        fun hv => hout (htable hv)
      refine ⟨?_, ?_⟩
      · by_contra hacc
        exact hvalid (accepted_iff.mp hacc)
      · rw [elfProcessLoaded_invalid hvalid, log_bind, log_pure,
          List.append_nil]

/-- A file of 52 bytes whose one program header lies behind its end. -/
def headerOnly : Bytes := fun a =>
  if a = 0#32 then 0x7F
  else if a = 1#32 then 0x45
  else if a = 2#32 then 0x4C
  else if a = 3#32 then 0x46
  else if a = 28#32 then 52
  else if a = 44#32 then 1
  else 0

/-- It is not so that every file is read inside: one that consists of an
ELF header alone is taken with the program header behind its end. -/
theorem reads_past_the_file :
    ¬ ∀ (m : Bytes) (base : Addr) (n : Nat), 1 ≤ n → ReadsInside m base n := by
  intro hall
  have hout : ¬ TableInside headerOnly 0#32 52 := by
    intro h
    have := h.table
    exact absurd this (by decide)
  have hrej := ((hall headerOnly 0#32 52 (by decide)).rejected hout).1
  have hacc : ¬ (elfProcessLoaded headerOnly (ElfFile.ofMem 0#32)).val.1 < 0 := by
    decide +kernel
  exact hacc hrej

end BenOS.Loader
