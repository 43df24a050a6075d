/-
ELF files as `loader/formats/elfloader.c` reads them.

A loaded file is memory from some address on; the functions read it by
address and know no length. Each of them is `Traced`: beside its result
it gives the spans of memory it reads, in order. A field that the source
reads twice in a row, from memory nothing changes in between, is read
once here.
-/
import BenOS.Config
import BenOS.Lib.Bytes
import BenOS.Lib.Traced

namespace BenOS.Loader

open Lib

-- =============================================================== reading

/-- A read: the first address and the number of bytes. -/
structure Span where
  addr : Addr
  len : Nat
deriving DecidableEq

/-- Read a byte. -/
def read8 (m : Bytes) (a : Addr) : Traced Span UInt8 :=
  Traced.look ⟨a, 1⟩ (m a)

/-- Read a 16-bit word. -/
def read16 (m : Bytes) (a : Addr) : Traced Span (BitVec 16) :=
  Traced.look ⟨a, 2⟩ (load16 m a)

/-- Read a 32-bit word. -/
def read32 (m : Bytes) (a : Addr) : Traced Span (BitVec 32) :=
  Traced.look ⟨a, 4⟩ (load32 m a)

/-- `memcmp` with the bytes of a constant. -/
def memcmp (m : Bytes) : Addr → List UInt8 → Traced Span Int
  | _, [] => pure 0
  | s1, c2 :: s2 => do
      let c1 ← read8 m s1
      if c1 ≠ c2 then pure (if c1.toInt8 < c2.toInt8 then -1 else 1)
      else memcmp m (s1 + 1#32) s2

-- ================================================================= layout

/-- `PF_W` -/
def pfW : BitVec 32 := 0x02#32

/-- `PT_LOAD` -/
def ptLoad : BitVec 32 := 1#32

/-- Where `e_ident[EI_CLASS]` lies in a `struct elf_header`. -/
abbrev eiClass : Addr := 4#32

/-- Where `e_ident[EI_DATA]` lies in it. -/
abbrev eiData : Addr := 5#32

/-- Where `e_entry` lies in it. -/
abbrev offEEntry : Addr := 24#32

/-- Where `e_phoff` lies in it. -/
abbrev offEPhoff : Addr := 28#32

/-- Where `e_phnum` lies in it. -/
abbrev offEPhnum : Addr := 44#32

/-- `sizeof(struct elf_header)` -/
abbrev sizeofElfHeader : Nat := 52

/-- Where `p_type` lies in a `struct elf32_phdr`. -/
abbrev offPType : Addr := 0#32

/-- Where `p_offset` lies in it. -/
abbrev offPOffset : Addr := 4#32

/-- Where `p_vaddr` lies in it. -/
abbrev offPVaddr : Addr := 8#32

/-- Where `p_filesz` lies in it. -/
abbrev offPFilesz : Addr := 16#32

/-- Where `p_memsz` lies in it. -/
abbrev offPMemsz : Addr := 20#32

/-- Where `p_flags` lies in it. -/
abbrev offPFlags : Addr := 24#32

/-- `sizeof(struct elf32_phdr)` -/
abbrev sizeofElfPhdr : Nat := 32

/-- Where `elf_mem` lies in a `struct elf_file`. -/
abbrev offElfMem : Addr := 112#32

/-- `struct elf_file`, without the name and the size nothing sets. -/
structure ElfFile where
  elfMem : Addr
  virtBaseAddress : Addr
  virtEndAddress : Addr
  physBaseAddress : Addr
  physEndAddress : Addr
deriving DecidableEq

/-- A `struct elf_file` fresh from `kzalloc`, with its image set. -/
def ElfFile.ofMem (elfMem : Addr) : ElfFile := ⟨elfMem, 0#32, 0#32, 0#32, 0#32⟩

-- ============================================================= validation

/-- `elf_signature` -/
def elfSignature : List UInt8 := [0x7F, 0x45, 0x4C, 0x46]

/-- `elf_valid_signature` -/
def elfValidSignature (m : Bytes) (buffer : Addr) : Traced Span Bool := do
  let r ← memcmp m buffer elfSignature
  pure (r == 0)

/-- `elf_valid_class`: none, or 32 bits. -/
def elfValidClass (m : Bytes) (header : Addr) : Traced Span Bool := do
  let c ← read8 m (header + eiClass)
  pure (c == 0 || c == 1)

/-- `elf_valid_encoding`: none, or little-endian. -/
def elfValidEncoding (m : Bytes) (header : Addr) : Traced Span Bool := do
  let d ← read8 m (header + eiData)
  pure (d == 0 || d == 1)

/-- `elf_has_program_header` -/
def elfHasProgramHeader (m : Bytes) (header : Addr) : Traced Span Bool := do
  let off ← read32 m (header + offEPhoff)
  pure (off != 0#32)

/-- `elf_validate_loaded`: each test is made when those before it have
passed. -/
def elfValidateLoaded (m : Bytes) (header : Addr) : Traced Span Int := do
  let sig ← elfValidSignature m header
  if !sig then pure (-einformat)
  else do
    let cls ← elfValidClass m header
    if !cls then pure (-einformat)
    else do
      let enc ← elfValidEncoding m header
      if !enc then pure (-einformat)
      else do
        let phdr ← elfHasProgramHeader m header
        pure (if phdr then benosAllOk else -einformat)

-- ======================================================== program headers

/-- `elf_header`, of the `struct elf_file` at an address. -/
def elfHeader (m : Bytes) (file : Addr) : Addr := load32 m (file + offElfMem)

/-- `elf_pheader` -/
def elfPheader (m : Bytes) (header : Addr) : Traced Span Addr := do
  let off ← read32 m (header + offEPhoff)
  pure (if off = 0#32 then 0#32 else header + off)

/-- The header at an index of a table of program headers. -/
def phdrAddress (phdrs : Addr) (index : Nat) : Addr :=
  phdrs + BitVec.ofNat 32 (sizeofElfPhdr * index)

/-- `elf_program_header` -/
def elfProgramHeader (m : Bytes) (header : Addr) (index : Nat) :
    Traced Span Addr := do
  let phdrs ← elfPheader m header
  pure (phdrAddress phdrs index)

/-- `elf_phdr_phys_address` -/
def elfPhdrPhysAddress (m : Bytes) (elfMem phdr : Addr) : Traced Span Addr := do
  let off ← read32 m (phdr + offPOffset)
  pure (elfMem + off)

/-- `elf_process_phdr_pt_load`, the base: the lowest address so far. -/
def elfLowerBase (m : Bytes) (file : ElfFile) (phdr vaddr : Addr) :
    Traced Span ElfFile :=
  if file.virtBaseAddress.toNat ≥ vaddr.toNat
      ∨ file.virtBaseAddress = 0#32 then do
    let phys ← elfPhdrPhysAddress m file.elfMem phdr
    pure { file with virtBaseAddress := vaddr, physBaseAddress := phys }
  else pure file

/-- `elf_process_phdr_pt_load`, the end: the highest address so far. -/
def elfRaiseEnd (m : Bytes) (file : ElfFile) (phdr endVirtAddress filesz : Addr) :
    Traced Span ElfFile :=
  if file.virtEndAddress.toNat ≤ endVirtAddress.toNat
      ∨ file.virtEndAddress = 0#32 then do
    let phys ← elfPhdrPhysAddress m file.elfMem phdr
    pure { file with
      virtEndAddress := endVirtAddress, physEndAddress := phys + filesz }
  else pure file

/-- `elf_process_phdr_pt_load` -/
def elfProcessPhdrPtLoad (m : Bytes) (file : ElfFile) (phdr : Addr) :
    Traced Span (Int × ElfFile) := do
  let vaddr ← read32 m (phdr + offPVaddr)
  let file ← elfLowerBase m file phdr vaddr
  let filesz ← read32 m (phdr + offPFilesz)
  let endVirtAddress := vaddr + filesz
  let file ← elfRaiseEnd m file phdr endVirtAddress filesz
  pure (0, file)

/-- `elf_process_pheader` -/
def elfProcessPheader (m : Bytes) (file : ElfFile) (phdr : Addr) :
    Traced Span (Int × ElfFile) := do
  let type ← read32 m (phdr + offPType)
  if type = ptLoad then elfProcessPhdrPtLoad m file phdr
  else pure (0, file)

/-- The loop of `elf_process_pheaders` from index `i` on, with the result
of the header before. `e_phnum` has 16 bits, so 65536 rounds are never
used up. -/
def elfProcessPheadersLoop (m : Bytes) (header : Addr) :
    Nat → Nat → Int → ElfFile → Traced Span (Int × ElfFile)
  | 0, _, res, file => pure (res, file)
  | fuel + 1, i, res, file => do
      let phnum ← read16 m (header + offEPhnum)
      if i < phnum.toNat then do
        let phdr ← elfProgramHeader m header i
        let r ← elfProcessPheader m file phdr
        if r.1 < 0 then pure r
        else elfProcessPheadersLoop m header fuel (i + 1) r.1 r.2
      else pure (res, file)

/-- The rounds a loop over the program headers can take. -/
abbrev phnumLimit : Nat := 65536

/-- `elf_process_pheaders` -/
def elfProcessPheaders (m : Bytes) (file : ElfFile) :
    Traced Span (Int × ElfFile) :=
  elfProcessPheadersLoop m file.elfMem phnumLimit 0 0 file

/-- `elf_process_loaded` -/
def elfProcessLoaded (m : Bytes) (file : ElfFile) :
    Traced Span (Int × ElfFile) := do
  let res ← elfValidateLoaded m file.elfMem
  if res < 0 then pure (res, file)
  else elfProcessPheaders m file

/-- `elf_header(process->elf)->e_entry`, as `task_init` takes it. -/
def elfEntry (m : Bytes) (header : Addr) : Traced Span (BitVec 32) :=
  read32 m (header + offEEntry)

end BenOS.Loader
