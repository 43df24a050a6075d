/-
Which way the file of a program is loaded.

`SelectsRight` is what is asked of `process_load_data`: an ELF program
only from a file that `elf_validate_loaded` passes, a raw binary from any
other, and an error where there is no reading the file; and that
`elf_load` answers 0 where it has stored an image, and only there. But
`elf_load` answers 0 whatever happens, so a failure reaches nobody and
the fallback is never taken: `process_load_data_exact` says that all is
well exactly where nothing fails.

That an image, once stored, is still there when `process_load_data` comes
back is due to the heap: the buffer, the `struct elf_file` and the
process share no byte (`Held.spansApart`).
-/
import BenOS.Fs.Proofs.Bounds
import BenOS.Fs.Proofs.OpenLeak
import BenOS.Kernel.Image
import BenOS.Loader.Proofs.Bounds

namespace BenOS.Kernel

open Lib Memory Fat Fs Loader Traced

-- ======================================================= what is required

/-- A memory with nothing but the contents of a file in it. -/
def contentMemory (bytes : List UInt8) : Bytes := fun a => bytes.getD a.toNat 0

/-- The contents of a file pass `elf_validate_loaded`. -/
def Passes (bytes : List UInt8) : Prop :=
  (elfValidateLoaded (contentMemory bytes) 0#32).val = benosAllOk

instance (bytes : List UInt8) : Decidable (Passes bytes) :=
  inferInstanceAs (Decidable (_ = _))

/-- The file is opened as descriptor `fd`, `fstat` gives its size and
`fread` its bytes. -/
structure Reads (vol : Option Volume) (fname : List UInt8)
    (k k' : KernelState) (fd : Int) (size : UInt32) (bytes : List UInt8) :
    Prop where
  opened : k.fopen vol fname modeRead = some (fd, k')
  positive : 0 < fd
  stat : ∃ stat, k'.fstat fd = some (0, some stat) ∧ stat.size = size
  read : ∃ v res, vol = some v
    ∧ Fs.fread v v.disk k'.files.descriptors size 1 fd = some ⟨res, bytes⟩
    ∧ 0 ≤ res

/-- A `struct elf_file` that has the bytes of a file as its image, and the
image passes. -/
structure LoadedImage (m : Bytes) (file : Addr) (bytes : List UInt8) :
    Prop where
  nonnull : file ≠ 0#32
  image : load32 m (file + offElfMem) ≠ 0#32
  holds : HoldsBytes m (load32 m (file + offElfMem)) bytes
  valid : (elfValidateLoaded m (load32 m (file + offElfMem))).val = benosAllOk

/-- What is required of `process_load_data` where it answers `res` and
leaves `k'`. The file is what can be read in `k₀`, when `elf_load` opens
it. -/
structure DataLoaded (vol : Option Volume) (fname : List UInt8)
    (process : Addr) (k₀ : KernelState) (res : Int) (k' : KernelState) :
    Prop where
  elf : res = 0 →
    k'.ram.mem (process + offFiletype) = Tasks.processFiletypeElf →
    ∃ k₁ fd size bytes, Reads vol fname k₀ k₁ fd size bytes ∧ Passes bytes
      ∧ LoadedImage k'.ram.mem (load32 k'.ram.mem (process + offImage)) bytes
  binary : ∀ k₁ fd size bytes, Reads vol fname k₀ k₁ fd size bytes →
    bytes ≠ [] → ¬ Passes bytes →
    res = 0
      ∧ k'.ram.mem (process + offFiletype) = Tasks.processFiletypeBinary
      ∧ HoldsBytes k'.ram.mem (load32 k'.ram.mem (process + offImage)) bytes
      ∧ (load32 k'.ram.mem (process + offSize)).toNat = bytes.length
  error : (∀ k₁ fd size bytes, ¬ Reads vol fname k₀ k₁ fd size bytes) → res < 0

/-- What is required of the loader. -/
structure SelectsRight (vol : Option Volume) (fname : List UInt8)
    (process : Addr) (k : KernelState) : Prop where
  data : ∃ res k', processLoadData vol fname process k = some (res, k')
    ∧ DataLoaded vol fname process (k.kzalloc sizeofElfFile).2 res k'
  elfLoad : ∃ res fileOut k', elfLoad vol fname k = some (res, fileOut, k')
    ∧ (res = 0 ↔
      ∃ file bytes, fileOut = some file ∧ LoadedImage k'.ram.mem file bytes)

/-- Nothing fails: there is memory for the `struct elf_file` and for the
contents of the file, and the file can be read and passes. -/
def Loadable (vol : Option Volume) (fname : List UInt8) (k : KernelState) :
    Prop :=
  (k.kzalloc sizeofElfFile).1 ≠ 0#32
    ∧ ∃ k₁ fd size bytes,
      Reads vol fname (k.kzalloc sizeofElfFile).2 k₁ fd size bytes
        ∧ (k₁.kzalloc size.toNat).1 ≠ 0#32 ∧ Passes bytes

-- ================================================================ contents

theorem matched_congr {m m' : Bytes} (cs : List UInt8) :
    ∀ a a' : Addr, (∀ i < cs.length, m' (a' + BitVec.ofNat 32 i)
        = m (a + BitVec.ofNat 32 i)) →
      matched m' a' cs = matched m a cs := by
  induction cs with
  | nil => intro _ _ _; rfl
  | cons c cs ih =>
      intro a a' h
      have hfirst := h 0 (Nat.succ_pos _)
      rw [BitVec.add_zero, BitVec.add_zero] at hfirst
      unfold matched
      rw [hfirst, ih (a + 1#32) (a' + 1#32) fun i hi => ?_]
      have hnext := h (i + 1) (Nat.succ_lt_succ hi)
      rwa [Nat.add_comm i 1, BitVec.ofNat_add, ← BitVec.add_assoc,
        ← BitVec.add_assoc] at hnext

/-- What `elf_validate_loaded` looks at, but for the last word. -/
theorem elfFront_congr {m m' : Bytes} {a a' : Addr}
    (h : ∀ i < 6, m' (a' + BitVec.ofNat 32 i) = m (a + BitVec.ofNat 32 i)) :
    elfFront m' a' = elfFront m a := by
  have hlen : elfSignature.length = 4 := rfl
  have hclass : m' (a' + eiClass) = m (a + eiClass) := h 4 (by decide)
  have hdata : m' (a' + eiData) = m (a + eiData) := h 5 (by decide)
  have hident : (IdentOk m' a' eiClass ↔ IdentOk m a eiClass)
      ∧ (IdentOk m' a' eiData ↔ IdentOk m a eiData) := by
    unfold IdentOk
    rw [hclass, hdata]
    exact ⟨Iff.rfl, Iff.rfl⟩
  unfold elfFront
  rw [matched_congr elfSignature a a' fun i hi => h i (by omega)]
  simp only [hident.1, hident.2]

/-- Contents that pass have their first 29 bytes, with one in the word
`e_phoff` that is not zero. -/
theorem passes_length {bytes : List UInt8} (h : Passes bytes) :
    ∃ j < 4, bytes.getD (28 + j) 0 ≠ 0 ∧ 28 + j < bytes.length := by
  unfold Passes at h
  rw [elfValidateLoaded_val] at h
  split at h
  case isFalse => exact absurd h (by decide)
  case isTrue hok =>
    by_contra hno
    push Not at hno
    refine hok.2 (load32_zero fun x hx => ?_)
    unfold InSpan at hx
    show bytes.getD x.toNat 0 = 0
    have hx' : x.toNat = 28 + (x - (0#32 + offEPhoff)).toNat := by
      rw [BitVec.toNat_sub] at hx ⊢
      simp only [BitVec.zero_add, BitVec.toNat_ofNat] at hx ⊢
      have := x.isLt
      omega
    rw [hx']
    by_contra hne
    have hge := hno _ hx hne
    rw [List.getD_eq_getElem?_getD, List.getElem?_eq_none hge] at hne
    exact hne rfl

/-- Contents that pass do so wherever they lie. -/
theorem passes_loaded {bytes : List UInt8} (h : Passes bytes) {m : Bytes}
    {a : Addr} (hlen : bytes.length ≤ 2 ^ 32) (hm : HoldsBytes m a bytes) :
    (elfValidateLoaded m a).val = benosAllOk := by
  obtain ⟨j, hj, hne, hlt⟩ := passes_length h
  have hbyte : ∀ i < bytes.length, m (a + BitVec.ofNat 32 i)
      = contentMemory bytes (0#32 + BitVec.ofNat 32 i) := by
    intro i hi
    unfold contentMemory
    rw [hm i hi, BitVec.zero_add, BitVec.toNat_ofNat,
      Nat.mod_eq_of_lt (by omega)]
  have hfront := elfFront_congr fun i hi => hbyte i (by omega)
  unfold Passes at h
  rw [elfValidateLoaded_val] at h ⊢
  split at h
  case isFalse => exact absurd h (by decide)
  case isTrue hok =>
    refine if_pos ⟨hfront.trans hok.1, fun hzero => hne ?_⟩
    have hword := byteOf_load32 m (a + offEPhoff) hj
    have hzero' : load32 m (a + offEPhoff) = 0#32 := hzero
    rw [hzero', BitVec.add_assoc,
      show offEPhoff + BitVec.ofNat 32 j = BitVec.ofNat 32 (28 + j) by
        rw [BitVec.ofNat_add], hm (28 + j) hlt] at hword
    rw [← hword]
    unfold byteOf
    rw [BitVec.extractLsb'_zero]
    rfl

/-- `elf_process_loaded` answers what `elf_validate_loaded` does. -/
theorem elfProcessLoaded_res (m : Bytes) (f : ElfFile) :
    (elfProcessLoaded m f).val.1 = (elfValidateLoaded m f.elfMem).val := by
  unfold elfProcessLoaded
  rw [val_bind, val_ite]
  split
  case isTrue => rfl
  case isFalse hok =>
    rw [elfValidateLoaded_val] at hok ⊢
    unfold elfProcessPheaders
    rw [elfProcessPheadersLoop_val]
    split
    case isTrue => rfl
    case isFalse hbad =>
      rw [if_neg hbad] at hok
      exact absurd (by decide) hok

-- =============================================================== the calls

variable {vol : Option Volume} {k k' : KernelState} {fd : Int}

@[simp]
theorem setMem_mem (m : Bytes) : (k.setMem m).ram.mem = m := rfl

/-- `fopen` of the kernel is that of the files over the heap. -/
theorem fopen_cases {fname mode : List UInt8} {res : Int}
    (h : k.fopen vol fname mode = some (res, k')) :
    Fs.fopen kernelAllocator vol k.files fname mode k.ram
        = some (res, k'.files, k'.ram)
      ∧ k' = { k with ram := k'.ram, files := k'.files } := by
  unfold KernelState.fopen at h
  obtain ⟨q, hq, h⟩ := Option.bind_eq_some_iff.mp h
  obtain ⟨res', files, ram⟩ := q
  obtain ⟨rfl, rfl⟩ := Prod.mk.inj (Option.some.inj h)
  exact ⟨hq, rfl⟩

/-- Blocks that are held stay held while a file is opened. -/
theorem held_fopen {b n : Nat} {fname mode : List UInt8} {res : Int}
    (hheld : Held b n k.ram) (h : k.fopen vol fname mode = some (res, k')) :
    Held b n k'.ram :=
  (keeps_fopen (keeps_held b n) hheld (fopen_cases h).1).1

/-- `fread` into memory. -/
theorem fread_some {v : Volume} {ptr : Addr} {size nmemb : UInt32} {res : Int}
    {bytes : List UInt8} (hvol : vol = some v)
    (h : Fs.fread v v.disk k.files.descriptors size nmemb fd
      = some ⟨res, bytes⟩) (hptr : ptr ≠ 0#32) :
    k.fread vol ptr size nmemb fd
      = some (res, k.setMem (writeList k.ram.mem ptr bytes)) := by
  unfold KernelState.fread
  rw [hvol]
  simp only [Option.bind_eq_bind, Option.bind_some]
  rw [h, Option.bind_some, if_neg fun hno => hptr hno.1]

/-- `fread` that comes back. -/
theorem fread_cases {ptr : Addr} {size nmemb : UInt32} {res : Int}
    (h : k.fread vol ptr size nmemb fd = some (res, k')) :
    ∃ v r, vol = some v
      ∧ Fs.fread v v.disk k.files.descriptors size nmemb fd = some r
      ∧ r.res = res ∧ (ptr = 0#32 → r.out = [])
      ∧ k' = k.setMem (writeList k.ram.mem ptr r.out) := by
  unfold KernelState.fread at h
  obtain ⟨v, hv, h⟩ := Option.bind_eq_some_iff.mp h
  obtain ⟨r, hr, h⟩ := Option.bind_eq_some_iff.mp h
  split at h
  case isTrue => cases h
  case isFalse hno =>
    obtain ⟨hres, hk⟩ := Prod.mk.inj (Option.some.inj h)
    refine ⟨v, r, hv, hr, hres, fun hz => ?_, hk.symm⟩
    by_contra hne
    exact hno ⟨hz, hne⟩

/-- `fstat` gives a size where it answers 0. -/
theorem fstat_some {res : Int} {stat : FileStat}
    (h : k.fstat fd = some (res, some stat)) : res = 0 := by
  unfold KernelState.fstat Fs.fstat at h
  split at h
  · cases h
  · unfold fat16Stat at h
    split at h
    · cases h
    · cases h
    · exact ((Prod.mk.inj (Option.some.inj h)).1).symm

/-- A file that `fstat` knows is closed. -/
theorem fclose_of_fstat {stat : FileStat}
    (h : k.fstat fd = some (0, some stat)) :
    ∃ k', k.fclose fd = some (0, k') ∧ k'.ram.mem = k.ram.mem := by
  unfold KernelState.fstat Fs.fstat fileGetDescriptor at h
  unfold KernelState.fclose Fs.fclose
  cases hidx : fileDescriptorIndex fd with
  | none =>
      rw [hidx] at h
      cases h
  | some i =>
      rw [hidx] at h
      unfold OpenFiles.descriptors at h
      simp only at h ⊢
      cases hf : k.files i with
      | none =>
          rw [hf] at h
          cases h
      | some file =>
          rw [hf] at h
          simp only [Option.map_some] at h
          unfold fat16Stat at h
          unfold fat16Close
          cases hitem : file.fat.item with
          | dir addr dir =>
              rw [hitem] at h
              cases h
          | file addr item =>
              simp only [hitem]
              exact ⟨_, rfl, rfl⟩

-- ================================================================ elf_load

/-- Setting the addresses of a `struct elf_file` leaves what does not
overlap it alone. -/
theorem setElfFile_sameOn {a : Addr} {n : Nat} (m : Bytes) {file : Addr}
    (f : ElfFile) (h : SpansApart file sizeofElfFile a n) :
    SameOn a n m (setElfFile m file f) := by
  have hpart : ∀ (o : Addr) (m : Bytes) (v : Addr),
      o.toNat + 4 ≤ sizeofElfFile →
      SameOn a n m (store32 m (file + o) v) := fun o m v ho =>
    writeBytes_sameOn m _ (h.part ho)
  unfold setElfFile
  simp only
  apply (hpart offVirtBaseAddress m f.virtBaseAddress (by decide)).trans
  apply (hpart offVirtEndAddress _ f.virtEndAddress (by decide)).trans
  apply (hpart offPhysBaseAddress _ f.physBaseAddress (by decide)).trans
  exact hpart offPhysEndAddress _ f.physEndAddress (by decide)

/-- The image is another field. -/
theorem load32_setElfFile (m : Bytes) (file : Addr) (f : ElfFile) :
    load32 (setElfFile m file f) (file + offElfMem)
      = load32 m (file + offElfMem) := by
  have hapart : ∀ {o : Addr} (m : Bytes) (v : Addr),
      4 ≤ (offElfMem - o).toNat → 4 ≤ (o - offElfMem).toNat →
      load32 (store32 m (file + o) v) (file + offElfMem)
        = load32 m (file + offElfMem) := fun m v hn hk =>
    load32_store32_apart m v (spansApart_fields file hn hk)
  unfold setElfFile
  simp only
  rw [hapart _ _ (by decide) (by decide), hapart _ _ (by decide) (by decide),
    hapart _ _ (by decide) (by decide)]
  exact hapart _ _ (by decide) (by decide)

/-- Blocks that an image stands on. -/
structure ImageApart (m : Bytes) (file : Addr) (bytes : List UInt8)
    (a : Addr) (n : Nat) : Prop where
  elfFile : SpansApart file sizeofElfFile a n
  image : SpansApart (load32 m (file + offElfMem)) bytes.length a n

/-- An image stays loaded where only other memory is written. -/
theorem LoadedImage.congr {m m' : Bytes} {file : Addr} {bytes : List UInt8}
    (h : LoadedImage m file bytes) (hpass : Passes bytes)
    (hlen : bytes.length ≤ 2 ^ 32) (hfile : SameOn file sizeofElfFile m m')
    (himage : SameOn (load32 m (file + offElfMem)) bytes.length m m') :
    LoadedImage m' file bytes := by
  have hword := load32_congr (hfile.part (o := offElfMem) (by decide))
  have hholds := h.holds.congr himage (Nat.le_refl _) hlen
  refine ⟨h.nonnull, ?_, ?_, ?_⟩
  · rw [hword]
    exact h.image
  · rw [hword]
    exact hholds
  · rw [hword]
    exact passes_loaded hpass hlen hholds

/-- An image is stored where it passes. -/
theorem elfLoadImage_eq (file : Addr) (k : KernelState)
    (hne : load32 k.ram.mem (file + offElfMem) ≠ 0#32) :
    ∃ f, elfLoadImage file k
      = some (if (elfValidateLoaded k.ram.mem
            (load32 k.ram.mem (file + offElfMem))).val < 0 then none
          else some file, k.setMem (setElfFile k.ram.mem file f)) := by
  have hres := elfProcessLoaded_res k.ram.mem (elfFileAt k.ram.mem file)
  refine ⟨(elfProcessLoaded k.ram.mem (elfFileAt k.ram.mem file)).val.2, ?_⟩
  unfold elfLoadImage
  simp only
  rw [if_neg (show ¬ (elfFileAt k.ram.mem file).elfMem = 0#32 from hne), hres]
  rfl

/-- What is read into a buffer apart from the `struct elf_file`, and
passes, is stored as its image. -/
theorem elfLoadFile_loadable {file elfMem : Addr} {k₂ : KernelState}
    {stat : FileStat} {v : Volume} {res : Int} {bytes : List UInt8}
    (hfile : file ≠ 0#32) (hfd : 0 < fd)
    (hstat : k.fstat fd = some (0, some stat))
    (hbuf : k.kzalloc stat.size.toNat = (elfMem, k₂)) (hne : elfMem ≠ 0#32)
    (hvol : vol = some v)
    (hread : Fs.fread v v.disk k.files.descriptors stat.size 1 fd
      = some ⟨res, bytes⟩)
    (hres : 0 ≤ res) (hpass : Passes bytes) (hlen : bytes.length ≤ 2 ^ 31)
    (hapart : SpansApart elfMem bytes.length file sizeofElfFile) :
    ∃ k', elfLoadFile vol file fd k = some (some file, k')
      ∧ k'.fstat fd = some (0, some stat)
      ∧ LoadedImage k'.ram.mem file bytes
      ∧ load32 k'.ram.mem (file + offElfMem) = elfMem := by
  have hfiles : k₂.files = k.files := by
    rw [← (Prod.mk.inj hbuf).2]
  have hread' := fread_some (k := k₂.store (file + offElfMem) elfMem) hvol
    (show Fs.fread v v.disk k₂.files.descriptors stat.size 1 fd = _ by
      rw [hfiles]
      exact hread) hne
  -- the image, and the field that points to it
  have hword : load32 (writeList (store32 k₂.ram.mem (file + offElfMem) elfMem)
      elfMem bytes) (file + offElfMem) = elfMem := by
    have hsame := writeBytes_sameOn
      (store32 k₂.ram.mem (file + offElfMem) elfMem)
      (fun i => bytes.getD i 0) hapart
    have hfield := hsame.part (o := offElfMem) (l := 4) (by decide)
    exact (load32_congr hfield).trans (load32_store32 _ _ _)
  have hholds : HoldsBytes (writeList
      (store32 k₂.ram.mem (file + offElfMem) elfMem) elfMem bytes) elfMem bytes :=
    holdsBytes_writeList _ _ (by omega)
  generalize hk₃ : (k₂.store (file + offElfMem) elfMem).setMem
    (writeList (k₂.store (file + offElfMem) elfMem).ram.mem elfMem bytes) = k₃
    at hread'
  have hmem : k₃.ram.mem = writeList
      (store32 k₂.ram.mem (file + offElfMem) elfMem) elfMem bytes := by
    rw [← hk₃]
    rfl
  have hfiles₃ : k₃.files = k.files := by
    rw [← hk₃]
    exact hfiles
  rw [← hmem] at hword hholds
  have hvalid := passes_loaded hpass (by omega) hholds
  obtain ⟨f, himage⟩ := elfLoadImage_eq file k₃ (hword.symm ▸ hne)
  rw [hword, hvalid, if_neg (Int.lt_irrefl 0)] at himage
  refine ⟨k₃.setMem (setElfFile k₃.ram.mem file f), ?_, ?_, ?_, ?_⟩
  · unfold elfLoadFile
    rw [if_neg (by omega), hstat]
    simp only [Option.bind_eq_bind, Option.bind_some]
    rw [if_neg (Int.lt_irrefl 0), hbuf, if_neg hfile]
    simp only
    rw [hread', Option.bind_some, if_neg (Int.not_lt.mpr hres)]
    exact himage
  · show Fs.fstat k₃.files.descriptors fd = _
    rw [hfiles₃]
    exact hstat
  · have hsame := setElfFile_sameOn k₃.ram.mem f hapart.symm
    have hword' := (load32_setElfFile k₃.ram.mem file f).trans hword
    have hholds' := hholds.congr hsame (Nat.le_refl _) (by omega)
    show LoadedImage (setElfFile k₃.ram.mem file f) file bytes
    refine ⟨hfile, ?_, ?_, ?_⟩
    · rw [hword']
      exact hne
    · rw [hword']
      exact hholds'
    · rw [hword']
      exact passes_loaded hpass (by omega) hholds'
  · exact (load32_setElfFile k₃.ram.mem file f).trans hword

/-- A load that nothing fails in stores an image, in blocks that were
free. -/
theorem elfLoad_loadable (h : Tidy k.ram) {fname : List UInt8}
    (hload : Loadable vol fname k) :
    ∃ k₁ fd size bytes file k', elfLoad vol fname k = some (0, some file, k')
      ∧ Reads vol fname (k.kzalloc sizeofElfFile).2 k₁ fd size bytes
      ∧ Passes bytes ∧ bytes.length ≤ 0x80000000
      ∧ LoadedImage k'.ram.mem file bytes
      ∧ ∀ b n, n ≤ kernelHeapBlocks → Held b n k.ram →
        ImageApart k'.ram.mem file bytes (blockAddress b) (blockBytes n) := by
  obtain ⟨hfile, k₁, fd, size, bytes, hreads, hbuf, hpass⟩ := hload
  obtain ⟨hopen, hpos, ⟨stat, hstat, hsize⟩, v, res, hvol, hread, hres⟩ :=
    id hreads
  -- the sizes are small: nothing is read where they are not
  have hlen := fread_one_length v.disk hread
  obtain ⟨j, -, -, hj⟩ := passes_length hpass
  simp only at hlen
  have hlt := size.toNat_lt
  have hint : size.toNat ≤ 0x80000000 ∧ bytes.length ≤ size.toNat := by
    unfold toInt32 at hlen
    omega
  -- the blocks taken so far, through the opening of the file
  obtain ⟨bf, -, -, hbf, hheld⟩ := held_of_kzalloc h (by decide)
    (by decide) hfile
  have hone : blocksFor sizeofElfFile = 1 := rfl
  rw [hone] at hheld
  have hfree : SpansApart (k₁.kzalloc size.toNat).1 size.toNat
      (k.kzalloc sizeofElfFile).1 (blockBytes 1) := by
    rw [show (k.kzalloc sizeofElfFile).1 = blockAddress bf from hbf]
    exact (held_fopen hheld hopen).spansApart (by decide) hint.1 hbuf
  have hapart : ∀ b n, n ≤ kernelHeapBlocks → Held b n k.ram →
      SpansApart (k.kzalloc sizeofElfFile).1 sizeofElfFile (blockAddress b)
          (blockBytes n)
        ∧ SpansApart (k₁.kzalloc size.toNat).1 size.toNat (blockAddress b)
          (blockBytes n) := by
    intro b n hn hb
    refine ⟨hb.spansApart hn (by decide) hfile, ?_⟩
    exact (held_fopen (held_kzalloc hb _).1 hopen).spansApart hn hint.1 hbuf
  generalize hk₀ : k.kzalloc sizeofElfFile = q at *
  obtain ⟨file, k₀⟩ := q
  generalize hk₂ : k₁.kzalloc size.toNat = q at *
  obtain ⟨elfMem, k₂⟩ := q
  simp only at *
  subst hsize
  have hfileApart : SpansApart elfMem bytes.length file sizeofElfFile := by
    intro x hx hx'
    have hpage : InSpan file (blockBytes 1) x :=
      Nat.lt_trans hx' (by decide : sizeofElfFile < blockBytes 1)
    exact hfree x (Nat.lt_of_lt_of_le hx hint.2) hpage
  obtain ⟨k₃, hfileLoad, hstat₃, himage, hword⟩ := elfLoadFile_loadable hfile
    hpos hstat hk₂ hbuf hvol hread hres hpass (by omega) hfileApart
  obtain ⟨k₄, hclose, hmem⟩ := fclose_of_fstat hstat₃
  refine ⟨k₁, fd, stat.size, bytes, file, k₄, ?_, hreads, hpass, by omega,
    ?_, fun b n hn hb => ?_⟩
  · unfold elfLoad
    rw [hk₀]
    simp only [Option.bind_eq_bind]
    rw [hopen, Option.bind_some, hfileLoad, Option.bind_some,
      if_neg (by omega), hclose]
    rfl
  · rw [hmem]
    exact himage
  · obtain ⟨hapart₁, hapart₂⟩ := hapart b n hn hb
    rw [hmem]
    refine ⟨hapart₁, ?_⟩
    rw [hword]
    exact fun x hx => hapart₂ x (Nat.lt_of_lt_of_le hx hint.2)

-- ======================================================== process_load_data

/-- What `process_load_elf` stores in the process. -/
def setElf (m : Bytes) (process file : Addr) : Bytes :=
  store32 (writeBytes m (process + offFiletype) 1 fun _ =>
    Tasks.processFiletypeElf) (process + offImage) file

theorem setElf_filetype (m : Bytes) (process file : Addr) :
    setElf m process file (process + offFiletype)
      = Tasks.processFiletypeElf := by
  have hin : InSpan (process + offFiletype) 1 (process + offFiletype) := by
    unfold InSpan
    rw [BitVec.sub_self]
    decide
  have hapart : SpansApart (process + offImage) 4 (process + offFiletype) 1 :=
    spansApart_fields process (by decide) (by decide)
  unfold setElf store32
  rw [writeBytes_of_not_inSpan _ _ (hapart.symm _ hin)]
  exact if_pos hin

theorem setElf_image (m : Bytes) (process file : Addr) :
    load32 (setElf m process file) (process + offImage) = file :=
  load32_store32 _ _ _

/-- What does not overlap the process is left alone. -/
theorem setElf_sameOn {a : Addr} {n : Nat} (m : Bytes) {process : Addr}
    (file : Addr) (h : SpansApart process (blockBytes 3) a n) :
    SameOn a n m (setElf m process file) := by
  apply (writeBytes_sameOn m _
    (h.part (o := offFiletype) (l := 1) (by decide))).trans
  exact writeBytes_sameOn _ _ (h.part (o := offImage) (by decide))

/-- `elf_load` that comes back has been through all its calls, and answers
0 whatever they did. -/
theorem elfLoad_some {fname : List UInt8} {res : Int} {fileOut : Option Addr}
    (h : elfLoad vol fname k = some (res, fileOut, k')) :
    res = 0 ∧ ∃ fd k₁ k₂ c,
      (k.kzalloc sizeofElfFile).2.fopen vol fname modeRead = some (fd, k₁)
        ∧ elfLoadFile vol (k.kzalloc sizeofElfFile).1 fd k₁
          = some (fileOut, k₂)
        ∧ k₂.fclose (if fd ≤ 0 then 0 else fd) = some (c, k') := by
  unfold elfLoad at h
  obtain ⟨⟨fd, k₁⟩, hopen, h⟩ := Option.bind_eq_some_iff.mp h
  obtain ⟨⟨fileOut', k₂⟩, hfile, h⟩ := Option.bind_eq_some_iff.mp h
  obtain ⟨⟨c, k₃⟩, hclose, h⟩ := Option.bind_eq_some_iff.mp h
  obtain ⟨hres, hrest⟩ := Prod.mk.inj (Option.some.inj h)
  obtain ⟨hout, hk⟩ := Prod.mk.inj hrest
  rw [hout] at hfile
  rw [hk] at hclose
  exact ⟨hres.symm, fd, k₁, k₂, c, hopen, hfile, hclose⟩

/-- `process_load_data` ends where `process_load_elf` does, which takes
what `elf_load` leaves for an ELF file. -/
theorem processLoadData_eq (vol : Option Volume) (fname : List UInt8)
    (process : Addr) (k : KernelState) :
    processLoadData vol fname process k
      = (elfLoad vol fname k).map fun a =>
        (0, a.2.2.setMem
          (setElf a.2.2.ram.mem process (a.2.1.getD 0#32))) := by
  unfold processLoadData processLoadElf
  cases hload : elfLoad vol fname k with
  | none => rfl
  | some a =>
      obtain ⟨res, fileOut, k'⟩ := a
      obtain ⟨hres, -⟩ := elfLoad_some hload
      subst hres
      rfl

/-- A file is read in one way only. -/
theorem Reads.unique {fname : List UInt8} {k₁ k₂ : KernelState} {fd' : Int}
    {size size' : UInt32} {bytes bytes' : List UInt8}
    (h : Reads vol fname k k₁ fd size bytes)
    (h' : Reads vol fname k k₂ fd' size' bytes') :
    k₂ = k₁ ∧ size' = size ∧ bytes' = bytes := by
  obtain ⟨hopen, -, ⟨stat, hstat, hsize⟩, v, res, hvol, hread, -⟩ := h
  obtain ⟨hopen', -, ⟨stat', hstat', hsize'⟩, v', res', hvol', hread', -⟩ := h'
  rw [hopen] at hopen'
  obtain ⟨rfl, rfl⟩ := Prod.mk.inj (Option.some.inj hopen')
  rw [hstat] at hstat'
  have hstateq := Option.some.inj (Prod.mk.inj (Option.some.inj hstat')).2
  rw [hstateq] at hsize
  subst hsize hsize'
  rw [hvol] at hvol'
  have hv := Option.some.inj hvol'
  subst hv
  rw [hread] at hread'
  exact ⟨rfl, rfl, ((FatRead.mk.inj (Option.some.inj hread')).2).symm⟩

/-- A null image would be dereferenced. -/
theorem elfLoadImage_nonnull {file : Addr} {a : Option Addr × KernelState}
    (h : elfLoadImage file k = some a) :
    load32 k.ram.mem (file + offElfMem) ≠ 0#32 := by
  intro hz
  unfold elfLoadImage at h
  simp only at h
  rw [if_pos (show (elfFileAt k.ram.mem file).elfMem = 0#32 from hz)] at h
  cases h

/-- `elf_load` behind `fopen` stops before it reads the file, or reads it
and goes on where that worked. -/
theorem elfLoadFile_cases {file : Addr} {fd : Int} {out : Option Addr}
    (h : elfLoadFile vol file fd k = some (out, k')) :
    (out = none ∧ k' = k)
      ∨ ∃ res stat n k₁, 0 < fd ∧ k.fstat fd = some (res, some stat) ∧ 0 ≤ res
        ∧ file ≠ 0#32
        ∧ ((k.kzalloc stat.size.toNat).2.store (file + offElfMem)
            (k.kzalloc stat.size.toNat).1).fread vol
              (k.kzalloc stat.size.toNat).1 stat.size 1 fd = some (n, k₁)
        ∧ ((n < 0 ∧ out = none ∧ k' = k₁)
          ∨ 0 ≤ n ∧ elfLoadImage file k₁ = some (out, k')) := by
  unfold elfLoadFile at h
  split at h
  case isTrue =>
    obtain ⟨hout, hk⟩ := Prod.mk.inj (Option.some.inj h)
    exact .inl ⟨hout.symm, hk.symm⟩
  case isFalse hpos =>
    obtain ⟨⟨res, stat⟩, hstat, h⟩ := Option.bind_eq_some_iff.mp h
    simp only at h
    split at h
    case isTrue =>
      obtain ⟨hout, hk⟩ := Prod.mk.inj (Option.some.inj h)
      exact .inl ⟨hout.symm, hk.symm⟩
    case isFalse hres =>
      cases stat with
      | none => cases h
      | some stat =>
          simp only [Option.bind_eq_bind, Option.bind_some] at h
          split at h
          case isTrue => cases h
          case isFalse hne =>
            obtain ⟨⟨n, k₁⟩, hread, h⟩ := Option.bind_eq_some_iff.mp h
            refine .inr
              ⟨res, stat, n, k₁, by omega, hstat, by omega, hne, hread, ?_⟩
            simp only at h
            split at h
            case isTrue hneg =>
              obtain ⟨hout, hk⟩ := Prod.mk.inj (Option.some.inj h)
              exact .inl ⟨hneg, hout.symm, hk.symm⟩
            case isFalse hnn => exact .inr ⟨by omega, h⟩

/-- Where `elf_load` stores something, it has been through all its
steps. -/
theorem elfLoadFile_stored {file elfFile : Addr}
    (h : elfLoadFile vol elfFile fd k = some (some file, k')) :
    elfFile ≠ 0#32 ∧ 0 < fd ∧ ∃ stat v r, k.fstat fd = some (0, some stat)
      ∧ vol = some v
      ∧ Fs.fread v v.disk k.files.descriptors stat.size 1 fd = some r
      ∧ 0 ≤ r.res ∧ (k.kzalloc stat.size.toNat).1 ≠ 0#32 := by
  rcases elfLoadFile_cases h with
    ⟨hout, -⟩ | ⟨res, stat, n, k₁, hpos, hstat, -, hne, hread, hrest⟩
  · cases hout
  · obtain ⟨v, r, hvol, hr, hn, hout, hk₁⟩ := fread_cases hread
    obtain rfl := fstat_some hstat
    rcases hrest with ⟨-, hnone, -⟩ | ⟨hnn, himage⟩
    · cases hnone
    · refine ⟨hne, hpos, stat, v, r, hstat, hvol, hr, by omega, ?_⟩
      -- nothing is read into a null buffer, which stays the image
      intro hnull
      apply elfLoadImage_nonnull himage
      rw [hk₁, hout hnull]
      show load32 (writeList (store32 _ _ _)
        (k.kzalloc stat.size.toNat).1 []) _ = _
      rw [writeList_nil, load32_store32]
      exact hnull

theorem elfLoad_stored {fname : List UInt8} {res : Int} {file : Addr}
    (h : elfLoad vol fname k = some (res, some file, k')) :
    (k.kzalloc sizeofElfFile).1 ≠ 0#32
      ∧ ∃ k₁ fd size bytes,
        Reads vol fname (k.kzalloc sizeofElfFile).2 k₁ fd size bytes
          ∧ (k₁.kzalloc size.toNat).1 ≠ 0#32 := by
  obtain ⟨-, fd, k₁, _, _, hopen, hfile, -⟩ := elfLoad_some h
  obtain ⟨hne, hpos, stat, v, r, hstat, hvol, hr, hres, hbuf⟩ :=
    elfLoadFile_stored hfile
  exact ⟨hne, k₁, fd, stat.size, r.out,
    ⟨hopen, hpos, ⟨stat, hstat, rfl⟩, v, r.res, hvol, hr, hres⟩, hbuf⟩

/-- Where `elf_load` and `process_load_data` are right, nothing has
failed. -/
theorem SelectsRight.loadable {process : Addr} {fname : List UInt8}
    (h : SelectsRight vol fname process k) : Loadable vol fname k := by
  obtain ⟨res, fileOut, k', hload, hiff⟩ := h.elfLoad
  obtain ⟨file, _, rfl, -⟩ := hiff.mp (elfLoad_some hload).1
  obtain ⟨hfile, k₁, fd, size, bytes, hreads, hbuf⟩ := elfLoad_stored hload
  refine ⟨hfile, k₁, fd, size, bytes, hreads, hbuf, ?_⟩
  -- the process is an ELF program now, so its file had to pass
  obtain ⟨res', k'', hdata, hok⟩ := h.data
  rw [processLoadData_eq, hload, Option.map_some] at hdata
  simp only [Option.getD_some] at hdata
  obtain ⟨rfl, rfl⟩ := Prod.mk.inj (Option.some.inj hdata)
  have htype : (k'.setMem (setElf k'.ram.mem process file)).ram.mem
      (process + offFiletype) = Tasks.processFiletypeElf := by
    rw [setMem_mem]
    exact setElf_filetype k'.ram.mem process file
  obtain ⟨k₂, fd', size', bytes', hreads', hpass, -⟩ := hok.elf rfl htype
  obtain ⟨-, -, rfl⟩ := hreads.unique hreads'
  exact hpass

/-- Where nothing fails, they are right. -/
theorem Loadable.selectsRight {live : List (Addr × Nat)} {process : Addr}
    {fname : List UInt8} (h : Loadable vol fname k) (hram : RamOk k.ram live)
    (hnull : NullSafe k.ram.heap) (hlive : (process, 3) ∈ live) :
    SelectsRight vol fname process k := by
  obtain ⟨k₁, fd, size, bytes, file, k', hload, hreads, hpass, hlen, himage,
    hapart⟩ := elfLoad_loadable (hram.tidy hnull) h
  obtain ⟨b, hb, hheld⟩ := hram.held hnull hlive
  obtain ⟨hapart₁, hapart₂⟩ := hapart b 3 (by decide) hheld
  simp only at hb
  rw [← hb] at hapart₁ hapart₂
  have hdata := processLoadData_eq vol fname process k
  rw [hload, Option.map_some] at hdata
  refine ⟨⟨0, _, hdata, fun _ _ => ?_, ?_, ?_⟩, 0, some file, k', hload,
    fun _ => ⟨file, bytes, rfl, himage⟩, fun _ => rfl⟩
  · refine ⟨k₁, fd, size, bytes, hreads, hpass, ?_⟩
    show LoadedImage (setElf _ process file)
      (load32 (setElf _ process file) _) bytes
    rw [setElf_image]
    exact himage.congr hpass (by omega) (setElf_sameOn _ _ hapart₁.symm)
      (setElf_sameOn _ _ hapart₂.symm)
  · intro k₂ fd' size' bytes' hreads' _ hno
    obtain ⟨-, -, rfl⟩ := hreads.unique hreads'
    exact absurd hpass hno
  · intro hno
    exact absurd hreads (hno k₁ fd size bytes)

-- ================================================================== deciding

/-- `Loadable`, computed. -/
def loads (vol : Option Volume) (fname : List UInt8) (k : KernelState) : Bool :=
  let file := k.kzalloc sizeofElfFile
  file.1 != 0#32 && (file.2.fopen vol fname modeRead).any fun opened =>
    decide (0 < opened.1) && (opened.2.fstat opened.1).any fun a =>
      a.1 == 0 && a.2.any fun stat => vol.any fun v =>
        (Fs.fread v v.disk opened.2.files.descriptors stat.size 1
          opened.1).any fun r =>
            decide (0 ≤ r.res) && (opened.2.kzalloc stat.size.toNat).1 != 0#32
              && decide (Passes r.out)

theorem loads_iff {fname : List UInt8} :
    loads vol fname k = true ↔ Loadable vol fname k := by
  unfold loads
  simp only [Bool.and_eq_true, bne_iff_ne, ne_eq, Option.any_eq_true,
    decide_eq_true_eq, beq_iff_eq]
  constructor
  · rintro ⟨hfile, ⟨fd, k₁⟩, hopen, hpos, ⟨_, _⟩, hstat, rfl, stat, rfl, v, hvol,
      r, hread, ⟨hres, hbuf⟩, hpass⟩
    exact ⟨hfile, k₁, fd, stat.size, r.out, ⟨hopen, hpos, ⟨stat, hstat, rfl⟩,
      v, r.res, hvol, hread, hres⟩, hbuf, hpass⟩
  · rintro ⟨hfile, k₁, fd, size, bytes, ⟨hopen, hpos, ⟨stat, hstat, rfl⟩,
      v, res, hvol, hread, hres⟩, hbuf, hpass⟩
    exact ⟨hfile, (fd, k₁), hopen, hpos, (0, some stat), hstat, rfl, stat, rfl,
      v, hvol, ⟨res, bytes⟩, hread, ⟨hres, hbuf⟩, hpass⟩

instance (fname : List UInt8) : Decidable (Loadable vol fname k) :=
  decidable_of_iff _ loads_iff

-- ================================================================ the outcome

/-- `process_load_data` and `elf_load` are right exactly where nothing
fails. -/
theorem process_load_data_exact {live : List (Addr × Nat)} {process : Addr}
    (fname : List UInt8) (hram : RamOk k.ram live)
    (hnull : NullSafe k.ram.heap) (hlive : (process, 3) ∈ live) :
    SelectsRight vol fname process k ↔ Loadable vol fname k :=
  ⟨SelectsRight.loadable, fun h => h.selectsRight hram hnull hlive⟩

/-- An ELF file with no program headers behind its own. -/
def noSegments : List UInt8 :=
  [0x7F, 0x45, 0x4C, 0x46, 0x01, 0x01, 0x01] ++ List.replicate 21 0
    ++ [0x34] ++ List.replicate 23 0

/-- A volume of one-sector clusters with it as its one file, `A`, in
sector 3. -/
def oneProgram : Volume where
  disk := fun lba i => if lba = 3#32 then noSegments.getD i 0 else 0
  header :=
    { sectorsPerCluster := 1, reservedSectors := 1, fatCopies := 1
      rootDirEntries := 16, sectorsPerFat := 1 }
  rootDir :=
    { items :=
        [{ fname := #v[0x41, 0x20, 0x20, 0x20, 0x20, 0x20, 0x20, 0x20]
           ext := #v[0x20, 0x20, 0x20]
           attributes := 0
           high16BitsFirstCluster := 0
           low16BitsFirstCluster := 2
           fileSize := 52 }]
      total := 1, sectorPos := 2, endingSectorPos := 3 }

/-- A kernel that has made the struct of a process and nothing else. -/
def oneStruct : KernelState where
  ram := ⟨takenFrom 0 [3] emptyHeap, fun _ => 0, true⟩
  files := fun _ => none
  taskHead := 0#32
  taskTail := 0#32
  currentTask := 0#32
  processes := fun _ => 0#32
  currProcess := 0#32

theorem ramOk_oneStruct : RamOk oneStruct.ram [(blockAddress 0, 3)] := by
  have hempty := ramOk_empty (fun _ => 0) true
  have hpos : ∀ n ∈ [3], 1 ≤ n := by simp
  exact (hempty.takenFrom hpos (b := 0)
    (by show 0 + 3 ≤ kernelHeapBlocks; decide) (by
      intro i _
      show heapGetEntryType 0x00 = heapBlockTableEntryFree
      rfl)).1

theorem nullSafe_oneStruct : NullSafe oneStruct.ram.heap := by
  refine ⟨-1, by decide, by decide, ?_⟩
  show oneStruct.ram.heap.table.entries (-1) &&& heapBlockHasNext = 0
  decide

/-- The one program of a volume is loaded as it should be. -/
theorem process_load_data_exact_no_segments :
    SelectsRight (some oneProgram) [0x30, 0x3A, 0x2F, 0x61] (blockAddress 0)
      oneStruct :=
  (process_load_data_exact [0x30, 0x3A, 0x2F, 0x61] ramOk_oneStruct
    nullSafe_oneStruct (by simp)).mpr (by decide +kernel)

/-- A program that is not on the volume is loaded too: `0:/b` is an ELF
program without an image, and the answer is 0. -/
theorem process_load_data_no_file :
    ¬ SelectsRight (some oneProgram) [0x30, 0x3A, 0x2F, 0x62] (blockAddress 0)
      oneStruct := by
  intro h
  have hload : ¬ Loadable (some oneProgram) [0x30, 0x3A, 0x2F, 0x62]
      oneStruct := by
    decide +kernel
  exact hload h.loadable

end BenOS.Kernel
