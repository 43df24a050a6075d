/-
What opening and closing a file leaves on the kernel heap.

`HeapNeutral` is what is asked of one path: a failing `fopen` leaves the
block table as it was, and a successful one is undone by `fclose`,
whatever is done with the descriptor in between. Nothing ever frees the
root of a parsed path, so a path that gets as far as having one costs a
block: from its allocation on that block is held, through all that is
allocated and freed later. `fopen_neutral_exact` says that the paths
that do not get so far are the only ones that cost nothing.
-/
import BenOS.Fat.Proofs.Keeps
import BenOS.Fs.Open
import BenOS.Memory.Proofs.Held

namespace BenOS.Fs

open Fat Memory

variable {σ : Type}

-- ======================================================= what is required

/-- A call on an open file that neither opens nor closes it. -/
inductive FileCall
  | fstat
  | fseek (offset : UInt32) (whence : Nat)
  | fread (size nmemb : UInt32)

/-- What such a call leaves of the table of open files. -/
def fileCall (vol : Option Volume) (fd : Int) (files : OpenFiles) :
    FileCall → Option OpenFiles
  | .fstat => (Fs.fstat files.descriptors fd).map fun _ => files
  | .fseek offset whence => (files.fseek fd offset whence).map Prod.snd
  | .fread size nmemb => do
      let vol ← vol
      let _ ← Fs.fread vol vol.disk files.descriptors size nmemb fd
      some files

/-- A failing `fopen` leaves the block table as it was, and after a
successful one, and any calls on the descriptor that come back, so does
`fclose`. -/
def HeapNeutral (vol : Option Volume) (filename mode : List UInt8)
    (files : OpenFiles) (r : Ram) : Prop :=
  ∃ res files' r', fopen kernelAllocator vol files filename mode r
      = some (res, files', r')
    ∧ (res = 0 → SameTable r.heap r'.heap)
    ∧ (res ≠ 0 → ∀ (calls : List FileCall) files'',
        calls.foldlM (fileCall vol res) files' = some files'' →
        ∃ out files''' r'', fclose kernelAllocator files'' res r'
            = some (out, files''', r'')
          ∧ SameTable r.heap r''.heap)

/-- The parser gives up on a path before it has allocated anything: the
path is too long, or does not start with a digit, a colon and a slash. -/
def RejectedPath (filename : List UInt8) : Prop :=
  strlen filename > benosMaxPath
    ∨ pathparserPathValidFormat filename = false

-- ================================================================ the parser

section

variable {al : Allocator σ} {I : σ → Prop} {C : Addr → Prop} {s s' : σ}
  (h : Keeps al I C)

include h

theorem keeps_pathPart {path path' : List UInt8}
    {part : Option PathPart} (hI : I s)
    (hres : pathparserParsePathPart al path s = some (part, path', s')) :
    I s' := by
  unfold pathparserParsePathPart pathparserGetPathPart at hres
  obtain ⟨hI₁, hC₁⟩ := h.kzalloc benosMaxPath s hI
  generalize al.kzalloc benosMaxPath s = q at hres hI₁ hC₁
  obtain ⟨ptr, s₁⟩ := q
  obtain ⟨r, hstr, hres⟩ := Option.bind_eq_some_iff.mp hres
  obtain ⟨str, path₁, s₂⟩ := r
  simp only at hstr hI₁ hC₁
  split at hstr
  case isTrue =>
    obtain ⟨rfl, heq⟩ := Prod.mk.inj (Option.some.inj hstr)
    obtain ⟨rfl, rfl⟩ := Prod.mk.inj heq
    obtain ⟨-, heq⟩ := Prod.mk.inj (Option.some.inj hres)
    rw [← (Prod.mk.inj heq).2]
    exact h.kfree ptr s₁ hI₁ hC₁
  case isFalse =>
    cases ptr with
    | none => cases hstr
    | some a =>
        obtain ⟨rfl, heq⟩ := Prod.mk.inj (Option.some.inj hstr)
        obtain ⟨rfl, rfl⟩ := Prod.mk.inj heq
        obtain ⟨hI₂, -⟩ := h.kzalloc sizeofPathPart s₁ hI₁
        simp only at hres
        generalize al.kzalloc sizeofPathPart s₁ = q at hres hI₂
        obtain ⟨ptr, s₂⟩ := q
        cases ptr with
        | none => cases hres
        | some node =>
            obtain ⟨-, heq⟩ := Prod.mk.inj (Option.some.inj hres)
            rw [← (Prod.mk.inj heq).2]
            exact hI₂

theorem keeps_pathLoop (fuel : Nat) :
    ∀ {path : List UInt8} {parts : List PathPart} {s s' : σ}, I s →
      pathparserLoop al fuel path s = some (parts, s') → I s' := by
  induction fuel with
  | zero => intro path parts s s' _ hres; cases hres
  | succ fuel ih =>
      intro path parts s s' hI hres
      rw [pathparserLoop] at hres
      obtain ⟨r, hpart, hres⟩ := Option.bind_eq_some_iff.mp hres
      obtain ⟨part, path₁, s₁⟩ := r
      have hI₁ := keeps_pathPart h hI hpart
      cases part with
      | none =>
          rw [← (Prod.mk.inj (Option.some.inj hres)).2]
          exact hI₁
      | some part =>
          obtain ⟨r, hloop, hres⟩ := Option.bind_eq_some_iff.mp hres
          obtain ⟨parts', s₂⟩ := r
          rw [← (Prod.mk.inj (Option.some.inj hres)).2]
          exact ih hI₁ hloop

theorem keeps_parse {path : List UInt8} {root : Option PathRoot} (hI : I s)
    (hres : pathparserParse al path s = some (root, s')) : I s' := by
  unfold pathparserParse at hres
  split at hres
  · rw [← (Prod.mk.inj (Option.some.inj hres)).2]
    exact hI
  · simp only at hres
    split at hres
    · rw [← (Prod.mk.inj (Option.some.inj hres)).2]
      exact hI
    · obtain ⟨hI₁, -⟩ := h.kzalloc sizeofPathRoot s hI
      generalize al.kzalloc sizeofPathRoot s = q at hres hI₁
      obtain ⟨ptr, s₁⟩ := q
      cases ptr with
      | none => cases hres
      | some addr =>
          obtain ⟨q, hloop, hres⟩ := Option.bind_eq_some_iff.mp hres
          obtain ⟨parts, s₂⟩ := q
          rw [← (Prod.mk.inj (Option.some.inj hres)).2]
          exact keeps_pathLoop h _ hI₁ hloop

-- ================================================================= the files

/-- The blocks of an open file have a property. -/
def OpenFile.All (C : Addr → Prop) (file : OpenFile) : Prop :=
  C file.desc ∧ C file.priv ∧ file.fat.item.All C

theorem keeps_fat16Open {vol : Volume} {part : List UInt8}
    {next : List (List UInt8)} {mode : FileMode}
    {out : Except Int (Addr × FatFileDescriptor)} (hI : I s)
    (hres : fat16Open al vol part next mode s = some (out, s')) :
    I s' ∧ (∀ e, out = .error e → e < 0)
      ∧ ∀ priv fat, out = .ok (priv, fat) → C priv ∧ fat.item.All C := by
  unfold fat16Open at hres
  split at hres
  case isTrue =>
    obtain ⟨rfl, rfl⟩ := Prod.mk.inj (Option.some.inj hres)
    refine ⟨hI, fun e he => ?_, fun priv fat hok => by cases hok⟩
    rw [← Except.error.inj he]
    decide
  case isFalse =>
    obtain ⟨hI₁, hC₁⟩ := h.kzalloc sizeofFatFileDescriptor s hI
    generalize al.kzalloc sizeofFatFileDescriptor s = q at hres hI₁ hC₁
    obtain ⟨ptr, s₁⟩ := q
    cases ptr with
    | none =>
        obtain ⟨rfl, rfl⟩ := Prod.mk.inj (Option.some.inj hres)
        refine ⟨hI₁, fun e he => ?_, fun priv fat hok => by cases hok⟩
        rw [← Except.error.inj he]
        decide
    | some descriptor =>
        simp only at hres hI₁ hC₁
        obtain ⟨r, hentry, hres⟩ := Option.bind_eq_some_iff.mp hres
        obtain ⟨found, s₂⟩ := r
        obtain ⟨hI₂, hC₂⟩ := h.getDirEntry hI₁ hentry
        have hdesc := hC₁ descriptor rfl
        cases found with
        | none =>
            obtain ⟨rfl, rfl⟩ := Prod.mk.inj (Option.some.inj hres)
            refine ⟨h.kfree_some hI₂ hdesc, fun e he => ?_,
              fun priv fat hok => by cases hok⟩
            rw [← Except.error.inj he]
            decide
        | some item =>
            obtain ⟨rfl, rfl⟩ := Prod.mk.inj (Option.some.inj hres)
            refine ⟨hI₂, fun e he => (by cases he), fun priv fat hok => ?_⟩
            obtain ⟨rfl, rfl⟩ := Prod.mk.inj (Except.ok.inj hok)
            exact ⟨hdesc, hC₂ item rfl⟩

/-- Behind the parser, `fopen` keeps what the allocator keeps, and a file
it opens is at the place its answer names. -/
theorem keeps_fopenPath {vol : Option Volume} {files files' : OpenFiles}
    {root : PathRoot} {mode : List UInt8} {res : Int} (hI : I s)
    (hres : fopenPath al vol files root mode s = some (res, files', s')) :
    I s' ∧ (0 < res → ∃ i file, res = (i : Fin benosMaxFileDescriptors).val + 1
      ∧ files' = Function.update files i (some file)
      ∧ OpenFile.All C file) := by
  have herr : ∀ {e : Int} {files₁ : OpenFiles} {s₁ : σ}, e < 0 → I s₁ →
      some (e, files₁, s₁) = some (res, files', s') →
      I s' ∧ (0 < res →
        ∃ i file, res = (i : Fin benosMaxFileDescriptors).val + 1
          ∧ files' = Function.update files i (some file)
          ∧ OpenFile.All C file) := by
    intro e files₁ s₁ he hI₁ heq
    obtain ⟨hres', hrest⟩ := Prod.mk.inj (Option.some.inj heq)
    rw [← (Prod.mk.inj hrest).2, ← hres']
    exact ⟨hI₁, fun hpos => absurd hpos (by omega)⟩
  unfold fopenPath at hres
  split at hres
  · exact herr (by decide) hI hres
  · split at hres
    · exact herr (by decide) hI hres
    · split at hres
      · exact herr (by decide) hI hres
      · simp only at hres
        split at hres
        · exact herr (by decide) hI hres
        · obtain ⟨r, hopen, hres⟩ := Option.bind_eq_some_iff.mp hres
          obtain ⟨out, s₁⟩ := r
          obtain ⟨hI₁, hneg, hC₁⟩ := keeps_fat16Open h hI hopen
          cases out with
          | error e => exact herr (hneg e rfl) hI₁ hres
          | ok d =>
              obtain ⟨priv, fat⟩ := d
              obtain ⟨hpriv, hfat⟩ := hC₁ priv fat rfl
              simp only at hres
              split at hres
              case isTrue hbad => exact herr hbad hI₁ hres
              case isFalse =>
                unfold fileNewDescriptor at hres
                split at hres
                · exact herr (by decide) hI₁ hres
                · obtain ⟨hI₂, hC₂⟩ := h.kzalloc sizeofFileDescriptor s₁ hI₁
                  generalize al.kzalloc sizeofFileDescriptor s₁ = q
                    at hres hI₂ hC₂
                  obtain ⟨ptr, s₂⟩ := q
                  cases ptr with
                  | none => cases hres
                  | some desc =>
                      obtain ⟨hval, hrest⟩ := Prod.mk.inj (Option.some.inj hres)
                      obtain ⟨hfiles, hs⟩ := Prod.mk.inj hrest
                      rw [← hs]
                      exact ⟨hI₂, fun _ => ⟨_, _, hval.symm, hfiles.symm,
                        hC₂ desc rfl, hpriv, hfat⟩⟩

/-- `fopen` keeps what the allocator keeps. -/
theorem keeps_fopen {vol : Option Volume} {files files' : OpenFiles}
    {filename mode : List UInt8} {res : Int} (hI : I s)
    (hres : fopen al vol files filename mode s = some (res, files', s')) :
    I s' ∧ 0 ≤ res
      ∧ (0 < res → ∃ i file, res = (i : Fin benosMaxFileDescriptors).val + 1
        ∧ files' = Function.update files i (some file)
        ∧ OpenFile.All C file) := by
  unfold fopen at hres
  obtain ⟨q, hparse, hres⟩ := Option.bind_eq_some_iff.mp hres
  obtain ⟨root, s₁⟩ := q
  have hI₁ := keeps_parse h hI hparse
  cases root with
  | none =>
      obtain ⟨hval, hrest⟩ := Prod.mk.inj (Option.some.inj hres)
      rw [← (Prod.mk.inj hrest).2, ← hval]
      exact ⟨hI₁, Int.le_refl 0, fun hpos => absurd hpos (Int.lt_irrefl 0)⟩
  | some root =>
      obtain ⟨q, hopen, hres⟩ := Option.bind_eq_some_iff.mp hres
      obtain ⟨res₁, files₁, s₂⟩ := q
      obtain ⟨hI₂, hfile⟩ := keeps_fopenPath h hI₁ hopen
      obtain ⟨hval, hrest⟩ := Prod.mk.inj (Option.some.inj hres)
      obtain ⟨hfiles, hs⟩ := Prod.mk.inj hrest
      rw [← hs, ← hval, ← hfiles]
      refine ⟨hI₂, ?_, ?_⟩
      · split
        · exact Int.le_refl 0
        · omega
      · split
        case isTrue => intro hpos; exact absurd hpos (Int.lt_irrefl 0)
        case isFalse => exact hfile

/-- Closing a file whose blocks have the property keeps it. -/
theorem keeps_fclose {files files' : OpenFiles} {fd out : Int} (hI : I s)
    (hfile : ∀ i file, fileDescriptorIndex fd = some i → files i = some file →
      OpenFile.All C file)
    (hres : fclose al files fd s = some (out, files', s')) : I s' := by
  unfold fclose at hres
  cases hidx : fileDescriptorIndex fd with
  | none =>
      rw [hidx] at hres
      obtain ⟨-, hrest⟩ := Prod.mk.inj (Option.some.inj hres)
      rw [← (Prod.mk.inj hrest).2]
      exact hI
  | some i =>
      rw [hidx] at hres
      simp only at hres
      cases hf : files i with
      | none =>
          rw [hf] at hres
          obtain ⟨-, hrest⟩ := Prod.mk.inj (Option.some.inj hres)
          rw [← (Prod.mk.inj hrest).2]
          exact hI
      | some file =>
          rw [hf] at hres
          obtain ⟨hdesc, hpriv, hitem⟩ := hfile i file hidx hf
          obtain ⟨s₁, hclose, hres⟩ := Option.bind_eq_some_iff.mp hres
          obtain ⟨s₂, hfree, hclose⟩ := Option.bind_eq_some_iff.mp hclose
          obtain ⟨-, hrest⟩ := Prod.mk.inj (Option.some.inj hres)
          rw [← (Prod.mk.inj hrest).2, ← Option.some.inj hclose]
          exact h.kfree_some
            (h.kfree_some (h.itemFree hI hitem hfree) hpriv) hdesc

end

-- ================================================================== the leak

/-- The kernel heap keeps a held block held. -/
theorem keeps_held (b n : Nat) :
    Keeps kernelAllocator (Held b n) (Clear b n) := by
  constructor
  · intro size r h
    obtain ⟨hheld, hclear⟩ := held_kzalloc h size
    refine ⟨hheld, fun a ha => ?_⟩
    unfold kernelAllocator at ha
    simp only at ha
    split at ha
    · cases ha
    · rw [← Option.some.inj ha]
      exact hclear
  · intro p r h hp
    refine held_kfree h ?_
    cases p with
    | none => exact Or.inl rfl
    | some a => exact hp a rfl

/-- The place a number in the table is looked up at is the one below. -/
theorem fileDescriptorIndex_succ {i i' : Fin benosMaxFileDescriptors}
    (h : fileDescriptorIndex ((i.val : Int) + 1) = some i') : i' = i := by
  unfold fileDescriptorIndex at h
  split at h
  · cases h
  · have hval := congrArg Fin.val (Option.some.inj h)
    simp only at hval
    apply Fin.ext
    omega

/-- A rejected path costs nothing. -/
theorem fopen_rejected {filename : List UInt8} (h : RejectedPath filename)
    (al : Allocator σ) (vol : Option Volume) (mode : List UInt8)
    (files : OpenFiles) (s : σ) :
    fopen al vol files filename mode s = some (0, files, s) := by
  have hparse : pathparserParse al filename s = some (none, s) := by
    unfold pathparserParse
    split
    case isTrue => rfl
    case isFalse hlen =>
      rcases h with hlong | hformat
      · exact absurd hlong hlen
      · unfold pathparserGetDriveByPath
        rw [hformat]
        rfl
  unfold fopen
  rw [hparse]
  rfl

/-- Where a path has a root, its block is held at the end. -/
theorem held_of_fopen {r : Ram} (h : Tidy r) {vol : Option Volume}
    {filename mode : List UInt8} {files files' : OpenFiles} {res : Int}
    {r' : Ram} (hpath : ¬ RejectedPath filename)
    (hres : fopen kernelAllocator vol files filename mode r
      = some (res, files', r')) :
    ∃ b, b < r.heap.table.total ∧ IsFree r.heap.table b ∧ Held b 1 r'
      ∧ (res ≠ 0 → ∃ i file, res = (i : Fin benosMaxFileDescriptors).val + 1
        ∧ files' = Function.update files i (some file)
        ∧ OpenFile.All (Clear b 1) file) := by
  unfold RejectedPath at hpath
  obtain ⟨hlen, hformat⟩ := not_or.mp hpath
  rw [Bool.not_eq_false] at hformat
  have hdigit : 0 ≤ tonum (filename.getD 0 0) := by
    unfold pathparserPathValidFormat isdigit at hformat
    simp only [Bool.and_eq_true, decide_eq_true_eq] at hformat
    have hlo := UInt8.le_iff_toNat_le.mp hformat.1.1.2.1
    unfold tonum
    have h48 : (48 : UInt8).toNat = 48 := rfl
    omega
  unfold fopen at hres
  obtain ⟨q, hparse, hres⟩ := Option.bind_eq_some_iff.mp hres
  obtain ⟨root, r₁⟩ := q
  unfold pathparserParse pathparserGetDriveByPath at hparse
  rw [if_neg hlen, hformat] at hparse
  simp only [Bool.not_true, Bool.false_eq_true, if_false] at hparse
  rw [if_neg (by omega)] at hparse
  unfold kernelAllocator at hparse
  simp only at hparse
  by_cases hnull : (kzalloc sizeofPathRoot r).1 = 0#32
  · rw [if_pos hnull] at hparse
    cases hparse
  · rw [if_neg hnull] at hparse
    obtain ⟨b, hlt, hfree, -, hheld⟩ := held_of_kzalloc h (by decide)
      (by decide) hnull
    have hone : blocksFor sizeofPathRoot = 1 := rfl
    rw [hone] at hheld
    obtain ⟨q, hloop, hparse⟩ := Option.bind_eq_some_iff.mp hparse
    obtain ⟨parts, r₂⟩ := q
    have hheld₁ := keeps_pathLoop (keeps_held b 1) _ hheld hloop
    obtain ⟨hroot, hr⟩ := Prod.mk.inj (Option.some.inj hparse)
    rw [← hroot] at hres
    rw [show r₂ = r₁ from hr] at hheld₁
    obtain ⟨q, hopen, hres⟩ := Option.bind_eq_some_iff.mp hres
    obtain ⟨res₁, files₁, r₃⟩ := q
    obtain ⟨hheld₂, hfile⟩ := keeps_fopenPath (keeps_held b 1) hheld₁ hopen
    obtain ⟨hval, hrest⟩ := Prod.mk.inj (Option.some.inj hres)
    obtain ⟨hfiles, hr'⟩ := Prod.mk.inj hrest
    rw [show r₃ = r' from hr'] at hheld₂
    refine ⟨b, hlt, hfree, hheld₂, fun hne => ?_⟩
    rw [← hval] at hne ⊢
    rw [← hfiles]
    split at hne
    case isTrue => exact absurd rfl hne
    case isFalse hnn =>
      rw [if_neg hnn]
      exact hfile (by omega)

/-- An opening that costs nothing is of a rejected path: of any other a
block stays taken. -/
theorem HeapNeutral.rejected {vol : Option Volume} {filename mode : List UInt8}
    {files : OpenFiles} {r : Ram} {live : List (Addr × Nat)}
    (hneutral : HeapNeutral vol filename mode files r) (h : RamOk r live)
    (hnull : NullSafe r.heap) : RejectedPath filename := by
  by_contra hpath
  obtain ⟨res, files', r', hopen, hfail, hopened⟩ := hneutral
  obtain ⟨b, hlt, hfree, hheld, hfile⟩ :=
    held_of_fopen (h.tidy hnull) hpath hopen
  by_cases hres : res = 0
  · exact not_sameTable_of_held hlt hfree hheld (hfail hres)
  · obtain ⟨out, files₂, r₂, hclose, hsame⟩ := hopened hres [] files' rfl
    obtain ⟨i, file, hval, hfiles, hall⟩ := hfile hres
    -- what is closed is the file that was opened
    have hheld' := keeps_fclose (keeps_held b 1) hheld (fun i' file' hidx hf => by
      rw [hval] at hidx
      rw [fileDescriptorIndex_succ hidx, hfiles, Function.update_self] at hf
      rw [← Option.some.inj hf]
      exact hall) hclose
    exact not_sameTable_of_held hlt hfree hheld' hsame

/-- On a heap in order, opening a path costs nothing exactly when the
parser rejects the path before it has allocated anything. -/
theorem fopen_neutral_exact {r : Ram} {live : List (Addr × Nat)}
    (h : RamOk r live) (hnull : NullSafe r.heap) (vol : Option Volume)
    (filename mode : List UInt8) (files : OpenFiles) :
    HeapNeutral vol filename mode files r ↔ RejectedPath filename := by
  constructor
  · intro hneutral
    exact hneutral.rejected h hnull
  · intro hpath
    refine ⟨0, files, r, fopen_rejected hpath _ vol mode files r,
      fun _ => ⟨rfl, fun _ _ => rfl⟩, fun hne => absurd rfl hne⟩

/-- A path without a drive, on a disk without a file system. -/
theorem fopen_neutral_exact_no_drive :
    HeapNeutral none [0x61] [0x72] (fun _ => none)
      ⟨emptyHeap, fun _ => 0, true⟩ :=
  (fopen_neutral_exact (ramOk_empty _ true) nullSafe_empty none [0x61] [0x72]
    fun _ => none).mpr (Or.inr (by decide))

/-- A volume with no files. -/
def noFiles : Volume where
  disk := fun _ _ => 0
  header := ⟨1, 1, 2, 32, 32⟩
  rootDir := { items := [], total := 0, sectorPos := 65, endingSectorPos := 67 }

/-- It is not so that opening is heap-neutral: `0:/a` is looked for on a
volume with no files, and the root of the parsed path stays behind. -/
theorem fopen_leaks_root :
    ¬ HeapNeutral (some noFiles) [0x30, 0x3A, 0x2F, 0x61] [0x72]
      (fun _ => none) ⟨emptyHeap, fun _ => 0, true⟩ := by
  intro hneutral
  have hpath := hneutral.rejected (ramOk_empty _ true) nullSafe_empty
  unfold RejectedPath at hpath
  exact absurd hpath (by decide)

end BenOS.Fs
