/-
The paths of the programs that are started, byte by byte.

Behind `0:/` both system calls copy the name with no regard to the three
bytes in front of it: `strcpy` writes as many bytes as it finds, which are
107 and a NUL at most, and `strncpy` is given the size of the whole buffer.
So a name of up to 104 characters is written as it should be
(`strcpy_short`, `strncpyFrom_short`), and with any other the byte behind
the buffer is written as well (`copyLoop_reaches`).
-/
import BenOS.Kernel.Proofs.CopyString
import BenOS.Kernel.StartPath

namespace BenOS.Kernel

open Lib Memory Traced

-- ============================================================ what is required

/-- The longest name a path has room for. -/
def pathRoom : Nat := 104

/-- The path of a program is built: nothing but its buffer is written, and
this holds `0:/`, the longest prefix of the name it has room for, and a
NUL. -/
structure BuildsPath (path : Addr) (name : List UInt8) (log : List Addr)
    (val : Option Bytes) : Prop where
  inside : ∀ a ∈ log, InSpan path benosMaxPath a
  holds : ∃ m, val = some m
    ∧ HoldsBytes m path (pathRoot ++ name.take pathRoom ++ [0x00])

/-- A name with its NUL is in memory at `src`, apart from the buffer. -/
structure NameAt (m : Bytes) (path src : Addr) (name : List UInt8) :
    Prop where
  nonzero : ∀ c ∈ name, c ≠ 0x00
  byte : ∀ i ≤ name.length, m (src + BitVec.ofNat 32 i) = name.getD i 0x00
  apart : ∀ i ≤ name.length,
    ¬ InSpan path benosMaxPath (src + BitVec.ofNat 32 i)

theorem NameAt.frame {m m' : Bytes} {path src : Addr} {name : List UInt8}
    (h : NameAt m path src name) (hsame : SameOutside path benosMaxPath m m') :
    NameAt m' path src name :=
  ⟨h.nonzero, fun i hi => (hsame _ (h.apart i hi)).trans (h.byte i hi),
    h.apart⟩

-- ================================================================== the loops

variable {path src dest : Addr} {m : Bytes} {name : List UInt8}

/-- What may be copied in two goes. -/
theorem copyLoop_add (j k : Nat) :
    ∀ (i : Nat) (m : Bytes), copyLoop dest src (j + k) i m
      = copyLoop dest src j i m >>= fun r => copyLoop dest src k r.1 r.2 := by
  induction j with
  | zero =>
      intro i m
      rw [Nat.zero_add]
      rfl
  | succ j ih =>
      intro i m
      rw [Nat.add_right_comm, copyLoop, copyLoop]
      by_cases hc : m (src + BitVec.ofNat 32 i) = 0x00
      · rw [if_pos hc, if_pos hc, lawfulMonad.pure_bind]
        cases k with
        | zero => rfl
        | succ k => rw [copyLoop, if_pos hc]
      · rw [if_neg hc, if_neg hc]
        simp only [ih]
        exact (lawfulMonad.bind_assoc _ _ _).symm

/-- As many bytes as the loop may copy, none of them 0 and none where it
writes: it copies them all. -/
theorem copyLoop_chars {n : Nat} (hn : n ≤ 2 ^ 32) (cs : List UInt8)
    (hlen : cs.length ≤ n)
    (hbyte : ∀ i < cs.length, m (src + BitVec.ofNat 32 i) = cs.getD i 0x00
      ∧ cs.getD i 0x00 ≠ 0x00 ∧ ¬ InSpan dest n (src + BitVec.ofNat 32 i)) :
    copyLoop dest src cs.length 0 m
      = ⟨(cs.length, writeList m dest cs),
        (List.range cs.length).map fun i => dest + BitVec.ofNat 32 i⟩ := by
  induction cs using List.reverseRecOn with
  | nil =>
      rw [writeList_nil]
      rfl
  | append_singleton cs c ih =>
      rw [List.length_append, List.length_singleton] at hlen hbyte ⊢
      have hbefore := ih (by omega) fun i hi => by
        obtain ⟨hm, hne, hout⟩ := hbyte i (by omega)
        rw [List.getD_append _ _ _ _ hi] at hm hne
        exact ⟨hm, hne, hout⟩
      obtain ⟨hlast, hne, hout⟩ := hbyte cs.length (Nat.lt_succ_self _)
      rw [List.getD_append_right _ _ _ _ (Nat.le_refl _), Nat.sub_self,
        List.getD_cons_zero] at hlast hne
      have hsame := writeList_sameOutside m dest (show cs.length ≤ n by omega)
      have hkept : writeList m dest cs (src + BitVec.ofNat 32 cs.length) = c :=
        (hsame _ hout).trans hlast
      rw [copyLoop_add, hbefore]
      show (⟨_, _⟩ : Traced Addr (Nat × Bytes)) = _
      simp only [copyLoop, hkept, if_neg hne]
      rw [← writeList_snoc m dest cs c (by omega), List.range_succ,
        List.map_append]
      rfl

/-- The bytes at `dest`, behind the root of the path. -/
theorem inSpan_root {i : Nat} (hi : i < 105) :
    InSpan path benosMaxPath (path + 3#32 + BitVec.ofNat 32 i) := by
  have hoff : path + 3#32 + BitVec.ofNat 32 i
      = path + BitVec.ofNat 32 (3 + i) := by
    rw [BitVec.add_assoc, BitVec.ofNat_add]
  rw [hoff]
  exact inSpan_add (by simp only [benosMaxPath]; omega) (by decide)

theorem inSpan_of_root {x : Addr} (h : InSpan (path + 3#32) 105 x) :
    InSpan path benosMaxPath x :=
  h.of_part (by decide)

/-- A name is copied as far as the loop may go and the buffer has room. -/
theorem NameAt.copyLoop (h : NameAt m path src name) {j : Nat}
    (hj : j ≤ name.length) (hroom : j ≤ 105) :
    Kernel.copyLoop (path + 3#32) src j 0 m
      = ⟨(j, writeList m (path + 3#32) (name.take j)),
        (List.range j).map fun i => path + 3#32 + BitVec.ofNat 32 i⟩ := by
  have hlen : (name.take j).length = j := by
    rw [List.length_take, Nat.min_eq_left hj]
  have hchars := @copyLoop_chars src (path + 3#32) m 105 (by decide)
    (name.take j) (by omega) fun i hi => ?_
  · rwa [hlen] at hchars
  · rw [hlen] at hi
    have hget : (name.take j).getD i 0x00 = name.getD i 0x00 := by
      rw [List.getD_eq_getElem?_getD, List.getD_eq_getElem?_getD,
        List.getElem?_take_of_lt hi]
    have hmem : name.getD i 0x00 ∈ name := by
      rw [List.getD_eq_getElem _ _ (by omega)]
      exact List.getElem_mem _
    rw [hget]
    exact ⟨h.byte i (by omega), h.nonzero _ hmem, fun hin =>
      h.apart i (by omega) (inSpan_of_root hin)⟩

/-- Behind a short name the loop stops. -/
theorem NameAt.copyLoop_short (h : NameAt m path src name)
    (hshort : name.length ≤ pathRoom) {k : Nat} (hk : name.length ≤ k) :
    Kernel.copyLoop (path + 3#32) src k 0 m
      = ⟨(name.length, writeList m (path + 3#32) name),
        (List.range name.length).map fun i =>
          path + 3#32 + BitVec.ofNat 32 i⟩ := by
  obtain ⟨j, rfl⟩ := Nat.exists_eq_add_of_le hk
  have hroom : name.length ≤ 105 := Nat.le_trans hshort (by decide)
  have hsame : SameOutside path benosMaxPath m
      (writeList m (path + 3#32) name) := fun x hx =>
    writeList_sameOutside m _ hroom x fun hin => hx (inSpan_of_root hin)
  have hend := (h.frame hsame).byte name.length (Nat.le_refl _)
  rw [List.getD_eq_default _ _ (Nat.le_refl _)] at hend
  rw [copyLoop_add, h.copyLoop (Nat.le_refl _) hroom, List.take_length]
  show (⟨_, _⟩ : Traced Addr (Nat × Bytes)) = _
  cases j with
  | zero => simp [Kernel.copyLoop]
  | succ j => simp [Kernel.copyLoop, hend]

/-- With a long name the byte behind the buffer is written, or the loop
stops there, at the NUL. -/
theorem NameAt.copyLoop_reaches (h : NameAt m path src name)
    (hlong : pathRoom < name.length) {k : Nat} (hk : 105 < k) :
    path + 3#32 + 105#32 ∈ (Kernel.copyLoop (path + 3#32) src k 0 m).log
      ∨ (Kernel.copyLoop (path + 3#32) src k 0 m).val.1 = 105
        ∧ (Kernel.copyLoop (path + 3#32) src k 0 m).val.2 (src + 105#32)
          = 0x00 := by
  obtain ⟨j, rfl⟩ := Nat.exists_eq_add_of_lt hk
  have hroom := h.copyLoop (j := 105) hlong (Nat.le_refl _)
  rw [Nat.add_assoc, copyLoop_add, log_bind, val_bind, hroom]
  simp only [Kernel.copyLoop]
  split
  case isTrue hend => exact Or.inr ⟨rfl, hend⟩
  case isFalse =>
    rw [log_bind, log_look]
    refine Or.inl (List.mem_append_right _ ?_)
    exact List.mem_append_left _ (List.mem_singleton_self _)

-- ================================================================== the paths

/-- The root of the path is written inside the buffer. -/
theorem strcpyConst_root (m : Bytes) (path : Addr) :
    (∀ a ∈ (strcpyConst m path pathRoot).log, InSpan path benosMaxPath a)
      ∧ SameOutside path benosMaxPath m (strcpyConst m path pathRoot).val := by
  constructor
  · intro a ha
    obtain ⟨i, hi, rfl⟩ := List.mem_map.mp ha
    have hlt : i < 4 := List.mem_range.mp hi
    exact inSpan_add (by simp only [benosMaxPath]; omega) (by decide)
  · exact writeList_sameOutside m path (by decide)

/-- The name behind the root. -/
theorem holdsBytes_path (m : Bytes) (path : Addr) {name : List UInt8}
    (hshort : name.length ≤ pathRoom) :
    HoldsBytes (writeList (strcpyConst m path pathRoot).val (path + 3#32)
      (name ++ [0x00])) path (pathRoot ++ name.take pathRoom ++ [0x00]) := by
  have hlen : (name ++ [(0x00 : UInt8)]).length ≤ 105 := by
    rw [List.length_append, List.length_singleton]
    unfold pathRoom at hshort
    omega
  rw [List.take_of_length_le hshort, List.append_assoc]
  intro i hi
  rw [List.length_append] at hi
  by_cases hroot : i < 3
  · -- the root lies in front of what is copied
    have hout : ¬ InSpan (path + 3#32) (name ++ [(0x00 : UInt8)]).length
        (path + BitVec.ofNat 32 i) := by
      unfold InSpan
      rw [BitVec.toNat_sub, BitVec.toNat_add, BitVec.toNat_add,
        BitVec.toNat_ofNat, BitVec.toNat_ofNat]
      omega
    have hheld := @holdsBytes_writeList m path (pathRoot ++ [0x00]) (by decide)
      i (Nat.lt_of_lt_of_le hroot (by decide))
    rw [List.getD_append _ _ _ _ hroot] at hheld ⊢
    exact (writeBytes_of_not_inSpan _ _ hout).trans hheld
  · obtain ⟨j, rfl⟩ := Nat.exists_eq_add_of_le (Nat.le_of_not_lt hroot)
    have hj : j < (name ++ [(0x00 : UInt8)]).length := by
      have hthree : pathRoot.length = 3 := rfl
      omega
    have hheld := holdsBytes_writeList (strcpyConst m path pathRoot).val
      (path + 3#32) (Nat.le_trans hlen (by decide)) j hj
    rw [List.getD_append_right _ _ _ _ (Nat.le_of_not_lt hroot),
      ← BitVec.ofNat_add_ofNat, ← BitVec.add_assoc]
    have hindex : 3 + j - pathRoot.length = j := by
      show 3 + j - 3 = j
      omega
    rw [hindex]
    exact hheld

/-- The name of a path is written inside the buffer, with its NUL. -/
theorem log_short {log : List Addr} (hshort : name.length ≤ pathRoom)
    (h : log = (List.range (name.length + 1)).map fun i =>
      path + 3#32 + BitVec.ofNat 32 i) :
    ∀ a ∈ log, InSpan path benosMaxPath a := by
  intro a ha
  rw [h] at ha
  obtain ⟨i, hi, rfl⟩ := List.mem_map.mp ha
  have hlt := List.mem_range.mp hi
  unfold pathRoom at hshort
  exact inSpan_root (by omega)

theorem not_inSpan_behind (path : Addr) :
    ¬ InSpan path benosMaxPath (path + 3#32 + 105#32) := by
  unfold InSpan
  have hoff : path + 3#32 + 105#32 = path + BitVec.ofNat 32 108 := by
    rw [BitVec.add_assoc]
    rfl
  rw [hoff, add_ofNat_sub path (by decide)]
  exact Nat.lt_irrefl _

/-- The NUL behind a short name. -/
theorem written_short (m : Bytes) (hshort : name.length ≤ pathRoom) :
    Function.update (writeList m (path + 3#32) name)
        (path + 3#32 + BitVec.ofNat 32 name.length) 0x00
      = writeList m (path + 3#32) (name ++ [0x00]) := by
  refine writeList_snoc m _ name 0x00 ?_
  unfold pathRoom at hshort
  omega

/-- A short name and its NUL are copied. -/
theorem NameAt.strcpy_short (h : NameAt m path src name)
    (hshort : name.length ≤ pathRoom) :
    strcpy m (path + 3#32) src
      = ⟨some (writeList m (path + 3#32) (name ++ [0x00])),
        (List.range (name.length + 1)).map fun i =>
          path + 3#32 + BitVec.ofNat 32 i⟩ := by
  have hloop := h.copyLoop_short hshort (k := 2 ^ 32) (by
    unfold pathRoom at hshort
    omega)
  have hroom : name.length ≤ 105 := Nat.le_trans hshort (by decide)
  have hsame : SameOutside path benosMaxPath m
      (writeList m (path + 3#32) name) := fun x hx =>
    writeList_sameOutside m _ hroom x fun hin => hx (inSpan_of_root hin)
  have hend := (h.frame hsame).byte name.length (Nat.le_refl _)
  rw [List.getD_eq_default _ _ (Nat.le_refl _)] at hend
  rw [strcpy, hloop, List.range_succ, List.map_append]
  show (⟨_, _⟩ : Traced Addr (Option Bytes)) = _
  simp only [hend, if_pos, val_look, log_look, written_short m hshort]
  rfl

theorem NameAt.strcpy_long (h : NameAt m path src name)
    (hlong : pathRoom < name.length) :
    path + 3#32 + 105#32 ∈ (strcpy m (path + 3#32) src).log := by
  rw [strcpy, log_bind]
  rcases h.copyLoop_reaches hlong (k := 2 ^ 32) (by omega) with
    hin | ⟨hstop, hend⟩
  · exact List.mem_append_left _ hin
  · refine List.mem_append_right _ ?_
    simp only [hstop]
    rw [if_pos hend]
    exact List.mem_singleton_self _

/-- So does `strncpy` with them. -/
theorem NameAt.strncpyFrom_short (h : NameAt m path src name)
    (hshort : name.length ≤ pathRoom) :
    strncpyFrom m (path + 3#32) src benosMaxPath
      = ⟨writeList m (path + 3#32) (name ++ [0x00]),
        (List.range (name.length + 1)).map fun i =>
          path + 3#32 + BitVec.ofNat 32 i⟩ := by
  have hloop := h.copyLoop_short hshort (k := 107) (by
    unfold pathRoom at hshort
    omega)
  have hcount : ((benosMaxPath : Int) - 1).toNat = 107 := rfl
  rw [strncpyFrom, hcount, hloop, List.range_succ, List.map_append]
  show (⟨_, _⟩ : Traced Addr Bytes) = _
  simp only [val_look, log_look, written_short m hshort]
  rfl

theorem NameAt.strncpyFrom_long (h : NameAt m path src name)
    (hlong : pathRoom < name.length) :
    path + 3#32 + 105#32
      ∈ (strncpyFrom m (path + 3#32) src benosMaxPath).log := by
  have hcount : ((benosMaxPath : Int) - 1).toNat = 107 := rfl
  rw [strncpyFrom, hcount, log_bind]
  rcases h.copyLoop_reaches hlong (k := 107) (by decide) with
    hin | ⟨hstop, -⟩
  · exact List.mem_append_left _ hin
  · refine List.mem_append_right _ ?_
    simp only [hstop, log_look]
    exact List.mem_singleton_self _

/-- Behind the root, a copy builds the path where it writes a short name
and its NUL, and where it writes behind the buffer with a long one. -/
theorem buildsPath_iff {log : List Addr} {val : Option Bytes}
    (hshort : name.length ≤ pathRoom →
      val = some (writeList (strcpyConst m path pathRoot).val (path + 3#32)
          (name ++ [0x00]))
        ∧ log = (List.range (name.length + 1)).map fun i =>
          path + 3#32 + BitVec.ofNat 32 i)
    (hlong : pathRoom < name.length → path + 3#32 + 105#32 ∈ log) :
    BuildsPath path name ((strcpyConst m path pathRoot).log ++ log) val
      ↔ name.length ≤ pathRoom := by
  obtain ⟨hroot, -⟩ := strcpyConst_root m path
  constructor
  · rintro ⟨hinside, -⟩
    by_contra hnot
    have hbehind := hlong (Nat.lt_of_not_le hnot)
    exact not_inSpan_behind path
      (hinside _ (List.mem_append_right _ hbehind))
  · intro hle
    obtain ⟨hval, hlog⟩ := hshort hle
    refine ⟨fun a ha => ?_, _, hval, holdsBytes_path m path hle⟩
    rcases List.mem_append.mp ha with ha | ha
    · exact hroot a ha
    · exact log_short hle hlog a ha

/-- The path of the first system call. -/
theorem startPath_iff {fname : Addr} (h : NameAt m path fname name) :
    BuildsPath path name (startPath path fname m).log
        (startPath path fname m).val
      ↔ name.length ≤ pathRoom := by
  have hframe := h.frame (strcpyConst_root m path).2
  refine buildsPath_iff (fun hshort => ?_) hframe.strcpy_long
  have hcopy := hframe.strcpy_short hshort
  exact ⟨congrArg Traced.val hcopy, congrArg Traced.log hcopy⟩

/-- The path of the second. -/
theorem invokePath_iff {programName : Addr}
    (h : NameAt m path programName name) :
    BuildsPath path name (invokePath path programName m).log
        (some (invokePath path programName m).val)
      ↔ name.length ≤ pathRoom := by
  have hframe := h.frame (strcpyConst_root m path).2
  refine buildsPath_iff (fun hshort => ?_) hframe.strncpyFrom_long
  have hcopy := hframe.strncpyFrom_short hshort
  exact ⟨congrArg (fun x => some x.val) hcopy, congrArg Traced.log hcopy⟩

-- ============================================================ the system calls

/-- The state in which the first system call finds a name in the memory of
the task, as `copy_string_from_task` reads it. -/
structure NameCopied (r : Ram) (task : Addr) (p : DirParts)
    (fname path : Addr) (name : List UInt8) : Prop where
  clean : Clean r.heap
  dir : TaskDir r task p
  buffer : BufferApart r p fname benosMaxPath
  apart : SpansApart path benosMaxPath fname benosMaxPath
  string : ∀ virt, taskGetStackItem r.mem task 0 = some virt →
    UserString r.mem p.dir virt (benosMaxPath - 1)
        (name.take (benosMaxPath - 1))
      ∧ ClearOfPage r.mem p.dir virt (benosMaxPath - 1)
        (name.take (benosMaxPath - 1)) (kzalloc benosMaxPath r).1
      ∧ ClearOfWord r.mem p.dir virt (benosMaxPath - 1)
        (name.take (benosMaxPath - 1))
        (p.entryAddress (pageOf (kzalloc benosMaxPath r).1))

/-- The state in which the second finds it, in the struct of the first
argument. -/
def NamePassed (m : Bytes) (task path : Addr) (name : List UInt8) : Prop :=
  ∀ ptr, taskGetStackItem m task 0 = some ptr →
    NameAt m path (taskVirtAddrToPhys m task ptr) name

/-- The path has room for no more than what is copied of a name. -/
theorem buildsPath_take {log : List Addr} {val : Option Bytes} :
    BuildsPath path (name.take (benosMaxPath - 1)) log val
      ↔ BuildsPath path name log val := by
  have htake : (name.take (benosMaxPath - 1)).take pathRoom
      = name.take pathRoom := List.take_take
  constructor
  · rintro ⟨hinside, hholds⟩
    rw [htake] at hholds
    exact ⟨hinside, hholds⟩
  · rintro ⟨hinside, hholds⟩
    rw [← htake] at hholds
    exact ⟨hinside, hholds⟩

/-- What is in the buffer of the first system call when it builds its
path. -/
theorem NameCopied.built {r : Ram} {task : Addr} {p : DirParts}
    {fname : Addr} (h : NameCopied r task p fname path name)
    {built : Traced Addr (Option Bytes)}
    (hrun : processLoadStartPath task fname path r = some (some built)) :
    ∃ m, built = startPath path fname m
      ∧ NameAt m path fname (name.take (benosMaxPath - 1)) := by
  unfold processLoadStartPath at hrun
  obtain ⟨virt, hvirt, hrun⟩ := Option.bind_eq_some_iff.mp hrun
  obtain ⟨⟨res, r'⟩, hcopy, hrun⟩ := Option.bind_eq_some_iff.mp hrun
  obtain ⟨hstring, hpage, hword⟩ := h.string virt hvirt
  obtain ⟨r₁, ⟨hok, hholds⟩ | ⟨hfail, -⟩⟩ := copyStringFromTask_copies h.clean
    h.dir (by decide) (by decide) h.buffer hstring hpage hword
  · obtain ⟨rfl, rfl⟩ := Prod.mk.inj (Option.some.inj (hok.symm.trans hcopy))
    simp only at hrun
    rw [if_neg (by decide)] at hrun
    have hle := hstring.le
    refine ⟨r₁.mem, (Option.some.inj (Option.some.inj hrun)).symm,
      hstring.nonzero, fun i hi => ?_, fun i hi hin => ?_⟩
    · rw [hholds i (by rw [List.length_append, List.length_singleton]; omega)]
      rcases Nat.lt_or_eq_of_le hi with hlt | rfl
      · exact List.getD_append _ _ _ _ hlt
      · rw [List.getD_append_right _ _ _ _ (Nat.le_refl _), Nat.sub_self,
          List.getD_eq_default _ _ (Nat.le_refl _)]
        rfl
    · have hlt : benosMaxPath - 1 < benosMaxPath := by decide
      exact h.apart _ hin (inSpan_add (by omega) (by decide))
  · -- without a bounce page there is no path
    obtain ⟨rfl, rfl⟩ := Prod.mk.inj (Option.some.inj (hfail.symm.trans hcopy))
    simp only at hrun
    rw [if_pos (by decide)] at hrun
    cases Option.some.inj hrun

/-- The path of the first system call, from its argument on. -/
theorem NameCopied.iff {r : Ram} {task : Addr} {p : DirParts} {fname : Addr}
    (h : NameCopied r task p fname path name)
    {built : Traced Addr (Option Bytes)}
    (hrun : processLoadStartPath task fname path r = some (some built)) :
    BuildsPath path name built.log built.val ↔ name.length ≤ pathRoom := by
  obtain ⟨m, rfl, hname⟩ := h.built hrun
  rw [← buildsPath_take, startPath_iff hname, List.length_take]
  simp only [benosMaxPath, pathRoom]
  omega

/-- The path of the second. -/
theorem NamePassed.iff {task : Addr} (h : NamePassed m task path name)
    {built : Traced Addr Bytes}
    (hrun : invokeSystemCommandPath task path m = some (some built)) :
    BuildsPath path name built.log (some built.val)
      ↔ name.length ≤ pathRoom := by
  unfold invokeSystemCommandPath at hrun
  obtain ⟨ptr, hptr, hrun⟩ := Option.bind_eq_some_iff.mp hrun
  simp only at hrun
  split at hrun
  case isTrue => cases Option.some.inj hrun
  case isFalse =>
    obtain ⟨len, -, hrun⟩ := Option.bind_eq_some_iff.mp hrun
    split at hrun
    case isTrue => cases Option.some.inj hrun
    case isFalse =>
      obtain rfl := Option.some.inj (Option.some.inj hrun)
      exact invokePath_iff (h ptr hptr)

-- ================================================================ one name

/-- Word `k` of a memory with one task. On its stack, which is at the very
start, lies a pointer to a name of `4 * t` letters. -/
def startWord (t k : Nat) : BitVec 32 :=
  if k = 0 then 0x08000000#32
  else if k < 0x02000000 then oneTaskWord k
  else if k < 0x02000000 + t then 0x61616161#32
  else 0#32

/-- That memory. -/
abbrev startMemory (t : Nat) : Bytes := wordMemory (startWord t)

/-- The name. -/
def letters (t : Nat) : List UInt8 := List.replicate (4 * t) 0x61

theorem hasTask_startWord (t : Nat) : HasTask (startWord t) := by
  intro k hlo hhi
  unfold startWord
  rw [if_neg (by omega), if_pos (by omega)]

section OneName

variable {t : Nat} (ht : t ≤ 1000)

include ht

/-- The letters, and the NUL behind them. -/
theorem startMemory_letters {i : Nat} (hi : i ≤ 4 * t) :
    startMemory t (0x08000000#32 + BitVec.ofNat 32 i)
      = (letters t).getD i 0x00 := by
  show byteOf (startWord t (_ / 4)) (_ % 4) = _
  rw [toNat_beyond (by omega)]
  unfold startWord letters
  rw [if_neg (by omega), if_neg (by omega)]
  by_cases hlt : i < 4 * t
  · rw [if_pos (by omega), List.getD_replicate _ hlt]
    have hcases : (0x08000000 + i) % 4 = 0 ∨ (0x08000000 + i) % 4 = 1
      ∨ (0x08000000 + i) % 4 = 2 ∨ (0x08000000 + i) % 4 = 3 := by omega
    rcases hcases with h | h | h | h <;> rw [h] <;> rfl
  · rw [if_neg (by omega), List.getD_eq_default _ _ (by
      rw [List.length_replicate]; omega)]
    have hzero : (0x08000000 + i) % 4 = 0 := by omega
    rw [hzero]
    rfl

/-- The second system call finds the name. -/
theorem namePassed_letters
    (hitem : taskGetStackItem (startMemory t) (objectsAt 0).task 0
      = some 0x08000000#32)
    (hphys : taskVirtAddrToPhys (startMemory t) (objectsAt 0).task
      0x08000000#32 = 0x08000000#32) :
    NamePassed (startMemory t) (objectsAt 0).task 0x00050080#32
      (letters t) := by
  intro ptr hptr
  obtain rfl := Option.some.inj (hitem.symm.trans hptr)
  rw [hphys]
  refine ⟨fun c hc => ?_, fun i hi => ?_, fun i hi hin => ?_⟩
  · rw [List.eq_of_mem_replicate hc]
    decide
  · rw [letters, List.length_replicate] at hi
    exact startMemory_letters ht hi
  · rw [letters, List.length_replicate] at hi
    have hpath : (0x00050080#32).toNat = 0x00050080 := rfl
    unfold InSpan at hin
    rw [BitVec.toNat_sub, toNat_beyond (by omega), hpath] at hin
    simp only [benosMaxPath] at hin
    omega

/-- The first system call copies it. -/
theorem nameCopied_letters {heap : Heap}
    (hram : RamOk ⟨heap, startMemory t, true⟩
      ((objectsAt 0).owned ++ (objectsAt 1030).owned))
    (hserves : ∀ size, blocksFor size ≤ 20000 → Serves heap size)
    (hitem : taskGetStackItem (startMemory t) (objectsAt 0).task 0
      = some 0x08000000#32) :
    NameCopied ⟨heap, startMemory t, true⟩ (objectsAt 0).task
        (objectsAt 0).parts 0x00050000#32 0x00050080#32 (letters t)
      ∧ ∃ start, processLoadStartPath (objectsAt 0).task 0x00050000#32
        0x00050080#32 ⟨heap, startMemory t, true⟩ = some (some start) := by
  have hw := hasTask_startWord t
  obtain ⟨hne, hfree⟩ := bounce_oneTask hram hserves
    (show 1 ≤ benosMaxPath by decide)
    (show benosMaxPath < pagingPageSize by decide)
  have hdir := taskDir_oneTask hram hw rfl
  have hbuf := bufferApart_oneTask hram
    (show benosMaxPath < pagingPageSize by decide)
  have hstring : UserString (startMemory t) (objectsAt 0).parts.dir
      0x08000000#32 (benosMaxPath - 1)
      ((letters t).take (benosMaxPath - 1)) := by
    refine ⟨List.length_take_le _ _, fun c hc => ?_, fun i hi hlt =>
      ⟨_, pageWalk_oneTask hw _, ?_⟩⟩
    · rw [List.eq_of_mem_replicate (List.mem_of_mem_take hc)]
      decide
    · rw [List.length_take, letters, List.length_replicate] at hi
      rw [startMemory_letters ht (by omega), List.getD_eq_getElem?_getD,
        List.getD_eq_getElem?_getD, List.getElem?_take_of_lt hlt]
  have hclear : ClearOfPage (startMemory t) (objectsAt 0).parts.dir
        0x08000000#32 (benosMaxPath - 1)
        ((letters t).take (benosMaxPath - 1))
        (kzalloc benosMaxPath ⟨heap, startMemory t, true⟩).1
      ∧ ClearOfWord (startMemory t) (objectsAt 0).parts.dir
        0x08000000#32 (benosMaxPath - 1)
        ((letters t).take (benosMaxPath - 1))
        ((objectsAt 0).parts.entryAddress (pageOf
          (kzalloc benosMaxPath ⟨heap, startMemory t, true⟩).1)) := by
    have hal := hfree.aligned hram.clean
    obtain ⟨b, hb, heq, -⟩ := hfree
    rw [heq] at hal ⊢
    refine clear_oneTask hw (Nat.lt_of_lt_of_le hb hram.clean.total) hal ?_ _
    exact Nat.le_trans (List.length_take_le _ _) (by decide)
  refine ⟨⟨hram.clean, hdir, hbuf, ?_, fun virt hvirt => ?_⟩, ?_⟩
  · exact spansApart_of_dist (by decide) (by decide)
  · obtain rfl := Option.some.inj (hitem.symm.trans hvirt)
    exact ⟨hstring, hclear⟩
  · obtain ⟨r', ⟨hrun, -⟩ | ⟨-, hnull⟩⟩ := copyStringFromTask_copies
      hram.clean hdir (by decide) (by decide) hbuf hstring hclear.1 hclear.2
    · refine ⟨startPath 0x00050080#32 0x00050000#32 r'.mem, ?_⟩
      unfold processLoadStartPath
      rw [hitem]
      simp only [Option.bind_eq_bind, Option.bind_some, hrun]
      exact if_neg (by decide)
    · exact absurd hnull hne

omit ht in
/-- The second builds its path. -/
theorem invoke_letters {len : Nat}
    (hitem : taskGetStackItem (startMemory t) (objectsAt 0).task 0
      = some 0x08000000#32)
    (hphys : taskVirtAddrToPhys (startMemory t) (objectsAt 0).task
      0x08000000#32 = 0x08000000#32)
    (hlen : strlen (startMemory t) 0x08000000#32 = some (len + 1)) :
    invokeSystemCommandPath (objectsAt 0).task 0x00050080#32 (startMemory t)
      = some (some (invokePath 0x00050080#32 0x08000000#32
        (startMemory t))) := by
  unfold invokeSystemCommandPath
  rw [hitem]
  simp only [Option.bind_eq_bind, Option.bind_some, hphys, hlen]
  rfl

end OneName

/-- For every name, whatever its length, the two system calls build its
path inside their buffers, and agree on it, exactly where the name has 104
characters at most. -/
theorem start_paths_exact {r : Ram} {task : Addr} {p : DirParts}
    {fname : Addr} (hcopied : NameCopied r task p fname path name)
    {start : Traced Addr (Option Bytes)}
    (hstart : processLoadStartPath task fname path r = some (some start))
    {task' path' : Addr} (hpassed : NamePassed m task' path' name)
    {invoke : Traced Addr Bytes}
    (hinvoke : invokeSystemCommandPath task' path' m = some (some invoke)) :
    (BuildsPath path name start.log start.val
        ∧ BuildsPath path' name invoke.log (some invoke.val))
      ↔ name.length ≤ pathRoom := by
  rw [hcopied.iff hstart, hpassed.iff hinvoke]
  exact and_self_iff

/-- A name of four letters. -/
theorem start_paths_exact_four :
    ∃ start invoke, processLoadStartPath (objectsAt 0).task 0x00050000#32
        0x00050080#32 ⟨twoFresh.heap, startMemory 1, true⟩
        = some (some start)
      ∧ invokeSystemCommandPath (objectsAt 0).task 0x00050080#32
        (startMemory 1) = some (some invoke)
      ∧ BuildsPath 0x00050080#32 (letters 1) start.log start.val
      ∧ BuildsPath 0x00050080#32 (letters 1) invoke.log
        (some invoke.val) := by
  have hserves := serves_twoFresh
  have hok := ramOk_twoFresh.1
  generalize twoFresh = fresh at hserves hok
  have hram : RamOk ⟨fresh.heap, startMemory 1, true⟩ _ := hok.of_heap rfl
  have hitem : taskGetStackItem (startMemory 1) (objectsAt 0).task 0
      = some 0x08000000#32 := by decide +kernel
  have hphys : taskVirtAddrToPhys (startMemory 1) (objectsAt 0).task
      0x08000000#32 = 0x08000000#32 := by decide +kernel
  have hlen : strlen (startMemory 1) 0x08000000#32 = some 4 := by
    decide +kernel
  obtain ⟨hcopied, start, hstart⟩ :=
    nameCopied_letters (by decide) hram hserves hitem
  have hpassed := namePassed_letters (by decide) hitem hphys
  have hinvoke := invoke_letters hitem hphys hlen
  refine ⟨start, _, hstart, hinvoke, ?_⟩
  exact (start_paths_exact hcopied hstart hpassed hinvoke).mpr (by decide)

/-- With a name of 108 letters both write behind their buffers. -/
theorem start_paths_overflow :
    ∃ start invoke, processLoadStartPath (objectsAt 0).task 0x00050000#32
        0x00050080#32 ⟨twoFresh.heap, startMemory 27, true⟩
        = some (some start)
      ∧ invokeSystemCommandPath (objectsAt 0).task 0x00050080#32
        (startMemory 27) = some (some invoke)
      ∧ NameCopied ⟨twoFresh.heap, startMemory 27, true⟩ (objectsAt 0).task
        (objectsAt 0).parts 0x00050000#32 0x00050080#32 (letters 27)
      ∧ NamePassed (startMemory 27) (objectsAt 0).task 0x00050080#32
        (letters 27)
      ∧ ¬ BuildsPath 0x00050080#32 (letters 27) start.log start.val
      ∧ ¬ BuildsPath 0x00050080#32 (letters 27) invoke.log
        (some invoke.val) := by
  have hserves := serves_twoFresh
  have hok := ramOk_twoFresh.1
  generalize twoFresh = fresh at hserves hok
  have hram : RamOk ⟨fresh.heap, startMemory 27, true⟩ _ := hok.of_heap rfl
  have hitem : taskGetStackItem (startMemory 27) (objectsAt 0).task 0
      = some 0x08000000#32 := by decide +kernel
  have hphys : taskVirtAddrToPhys (startMemory 27) (objectsAt 0).task
      0x08000000#32 = 0x08000000#32 := by decide +kernel
  have hlen : strlen (startMemory 27) 0x08000000#32 = some 108 := by
    decide +kernel
  obtain ⟨hcopied, start, hstart⟩ :=
    nameCopied_letters (by decide) hram hserves hitem
  have hpassed := namePassed_letters (by decide) hitem hphys
  have hinvoke := invoke_letters hitem hphys hlen
  have hlong : ¬ (letters 27).length ≤ pathRoom := by decide
  refine ⟨start, _, hstart, hinvoke, hcopied, hpassed, ?_, ?_⟩
  · exact fun h => hlong ((hcopied.iff hstart).mp h)
  · exact fun h => hlong ((hpassed.iff hinvoke).mp h)

end BenOS.Kernel
