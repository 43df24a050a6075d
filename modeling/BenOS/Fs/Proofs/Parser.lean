/-
The path parser against the printed path.

What the parser reads behind the drive are the `leading` segments of the
path: it takes the null that stands for an empty segment for the end. The
result is a function of the path alone (`pathparserParse_parts`); that
there is one is a matter of the blocks the parser asks for, which
`parseRequests` lists in their order (`pathparserParse_total`).

# What is exact about it

A path printed from parts that are not empty is read back, and
`pathparser_free` gives back what reading it took
(`pathparser_inverts_printing`). A path that has a segment behind an empty
one loses it, and all that follow (`pathparser_whole_exact`).
-/
import Mathlib.Data.List.TakeWhile
import BenOS.Lib.Segments
import BenOS.Memory.Proofs.Lent
import BenOS.Fs.Open

namespace BenOS.Fs

open Lib Fat Memory

variable {σ : Type}

-- ========================================================= what is required

/-- The path is as long as it may be, and a digit, a colon and a slash
stand before its segments. -/
structure PathForm (path : List UInt8) : Prop where
  short : path.length ≤ benosMaxPath
  drive : ∃ d, isdigit d = true ∧ path = d :: 0x3A :: 0x2F :: path.drop 3

/-- Nothing of the path is left out: its parts are the segments behind the
drive that are not empty. -/
structure ParsedWhole (path : List UInt8) (root : PathRoot) : Prop extends
    PathForm path where
  parts : root.parts.map PathPart.part
    = ((path.drop 3).splitOn 0x2F).filter fun c => !c.isEmpty

/-- No segment behind an empty one but is empty. -/
def NoGap (path : List UInt8) : Prop :=
  (path.splitOn 0x2F).Pairwise fun c c' => c = [] → c' = []

/-- The bytes of a part with its terminator are in its buffer, and the
copying loop leaves them there whatever it comes to behind the part. -/
def Terminated (part : List UInt8) : Prop :=
  part.length < benosMaxPath ∧ ∀ rest, endsPart (rest.headD 0) = true →
    pathparserCopyPart (part ++ rest) 0 (List.replicate benosMaxPath 0)
      = some (part ++ List.replicate (benosMaxPath - part.length) 0)

/-- `d:/c1/c2/.../cn` -/
def printPath (d : Fin 10) (cs : List (List UInt8)) : List UInt8 :=
  (48 + d.val.toUInt8) :: 0x3A :: 0x2F :: [0x2F].intercalate cs

-- ================================================================= requests

/-- Requests of these sizes, one after the other, are all answered. -/
def Grants (al : Allocator σ) : List Nat → σ → Prop
  | [], _ => True
  | n :: ns, s => (al.kzalloc n s).1 ≠ none ∧ Grants al ns (al.kzalloc n s).2

/-- What the parser asks for behind the drive, in a path of `n` parts: a
string and a node a part, and a string for the part that is not there. -/
def partRequests : Nat → List Nat
  | 0 => [benosMaxPath]
  | n + 1 => benosMaxPath :: sizeofPathPart :: partRequests n

/-- What `pathparser_parse` asks for. -/
def parseRequests (n : Nat) : List Nat := sizeofPathRoot :: partRequests n

-- ================================================================= one part

/-- What `pathparser_get_path_part` reads. -/
def firstPart (path : List UInt8) : List UInt8 :=
  path.takeWhile fun c => c != 0x2F

/-- The path it leaves. -/
def behindPart (path : List UInt8) : List UInt8 :=
  (path.dropWhile fun c => c != 0x2F).tail

/-- In a string without a terminator a part ends at a slash. -/
theorem endsPart_eq {path : List UInt8} (h : 0x00 ∉ path) :
    ∀ c ∈ path, endsPart c = (c == 0x2F) := by
  intro c hc
  have hne : (c == 0x00) = false :=
    beq_eq_false_iff_ne.mpr fun heq => h (heq ▸ hc)
  unfold endsPart
  rw [hne, Bool.or_false]

theorem takeWhile_endsPart {path : List UInt8} (h : 0x00 ∉ path) :
    (path.takeWhile fun c => !endsPart c) = firstPart path := by
  induction path with
  | nil => rfl
  | cons c path ih =>
      have hc := endsPart_eq h c List.mem_cons_self
      have ih' := ih fun hm => h (List.mem_cons_of_mem c hm)
      unfold firstPart at ih' ⊢
      rw [List.takeWhile_cons, List.takeWhile_cons, hc, ih']
      rfl

theorem dropWhile_endsPart {path : List UInt8} (h : 0x00 ∉ path) :
    (path.dropWhile fun c => !endsPart c)
      = path.dropWhile fun c => c != 0x2F := by
  induction path with
  | nil => rfl
  | cons c path ih =>
      have hc := endsPart_eq h c List.mem_cons_self
      have ih' := ih fun hm => h (List.mem_cons_of_mem c hm)
      rw [List.dropWhile_cons, List.dropWhile_cons, hc, ih']
      rfl

/-- The slash behind the part is skipped. -/
theorem skipSlash (path : List UInt8) :
    (if (path.dropWhile fun c => c != 0x2F).headD 0 = 0x2F
      then (path.dropWhile fun c => c != 0x2F).tail
      else path.dropWhile fun c => c != 0x2F) = behindPart path := by
  unfold behindPart
  cases hd : path.dropWhile fun c => c != 0x2F with
  | nil => rfl
  | cons c rest =>
      have hc := List.head?_dropWhile_not (fun c => c != 0x2F) path
      rw [hd] at hc
      simp only [List.head?_cons] at hc
      have hslash : c = 0x2F := by simpa using hc
      rw [List.headD_cons, if_pos hslash]

theorem mem_behindPart {path : List UInt8} {c : UInt8}
    (h : c ∈ behindPart path) : c ∈ path :=
  (List.dropWhile_sublist _).subset (List.mem_of_mem_tail h)

theorem behindPart_length {path : List UInt8} (h : firstPart path ≠ []) :
    (behindPart path).length < path.length := by
  have hsplit := congrArg List.length
    (List.takeWhile_append_dropWhile (p := fun c => c != 0x2F) (l := path))
  rw [List.length_append] at hsplit
  have hpos : 0 < (firstPart path).length := List.length_pos_iff.mpr h
  unfold behindPart
  unfold firstPart at hpos
  rw [List.length_tail]
  omega

/-- The leading segments, read off by the parser's steps. -/
theorem leading_parts (path : List UInt8) :
    leading 0x2F path = if firstPart path = [] then []
      else firstPart path :: leading 0x2F (behindPart path) :=
  leading_eq 0x2F path

variable {al : Allocator σ} {path : List UInt8} {s s' : σ}

/-- `pathparser_parse_path_part` on a string without a terminator. -/
theorem pathparserParsePathPart_eq (h : 0x00 ∉ path) (s : σ) :
    pathparserParsePathPart al path s =
      if firstPart path = [] then
        some (none, behindPart path,
          al.kfree (al.kzalloc benosMaxPath s).1 (al.kzalloc benosMaxPath s).2)
      else
        match al.kzalloc benosMaxPath s with
        | (none, _) => none
        | (some str, s) =>
            match al.kzalloc sizeofPathPart s with
            | (none, _) => none
            | (some addr, s) =>
                some (some ⟨addr, str, firstPart path⟩, behindPart path, s) := by
  unfold pathparserParsePathPart pathparserGetPathPart
  simp only
  rw [takeWhile_endsPart h, dropWhile_endsPart h, skipSlash]
  by_cases he : firstPart path = []
  · rw [if_pos he, if_pos he]
    rfl
  · rw [if_neg he, if_neg he]
    generalize al.kzalloc benosMaxPath s = q
    obtain ⟨str, s₁⟩ := q
    cases str with
    | none => rfl
    | some str => rfl

/-- A part that was parsed, and the requests made for it. -/
theorem parsed_part (h : 0x00 ∉ path) (hne : firstPart path ≠ [])
    {part : Option PathPart} {path' : List UInt8}
    (hres : pathparserParsePathPart al path s = some (part, path', s')) :
    ∃ str addr s₁, al.kzalloc benosMaxPath s = (some str, s₁)
      ∧ al.kzalloc sizeofPathPart s₁ = (some addr, s')
      ∧ part = some ⟨addr, str, firstPart path⟩ ∧ path' = behindPart path := by
  rw [pathparserParsePathPart_eq h, if_neg hne] at hres
  generalize al.kzalloc benosMaxPath s = q at hres
  obtain ⟨str, s₁⟩ := q
  cases str with
  | none => cases hres
  | some str =>
      simp only at hres
      refine ⟨str, ?_⟩
      generalize hq : al.kzalloc sizeofPathPart s₁ = q at hres
      obtain ⟨addr, s₂⟩ := q
      cases addr with
      | none => cases hres
      | some addr =>
          obtain ⟨rfl, hrest⟩ := Prod.mk.inj (Option.some.inj hres)
          obtain ⟨rfl, rfl⟩ := Prod.mk.inj hrest
          exact ⟨addr, s₁, rfl, hq, rfl, rfl⟩

-- ================================================================= the loop

/-- What the loop returns are the leading segments. -/
theorem pathparserLoop_parts (fuel : Nat) :
    ∀ {path : List UInt8} {parts : List PathPart} {s s' : σ}, 0x00 ∉ path →
      pathparserLoop al fuel path s = some (parts, s') →
      parts.map PathPart.part = leading 0x2F path := by
  induction fuel with
  | zero => intro path parts s s' _ hres; cases hres
  | succ fuel ih =>
      intro path parts s s' h hres
      rw [leading_parts]
      rw [pathparserLoop] at hres
      obtain ⟨⟨part, path', s₁⟩, hpart, hres⟩ :=
        Option.bind_eq_some_iff.mp hres
      by_cases he : firstPart path = []
      · rw [pathparserParsePathPart_eq h, if_pos he] at hpart
        obtain ⟨rfl, -⟩ := Prod.mk.inj (Option.some.inj hpart)
        obtain ⟨rfl, -⟩ := Prod.mk.inj (Option.some.inj hres)
        rw [if_pos he]
        rfl
      · obtain ⟨str, addr, s₂, -, -, rfl, rfl⟩ := parsed_part h he hpart
        obtain ⟨⟨parts', s₃⟩, hloop, hres⟩ := Option.bind_eq_some_iff.mp hres
        obtain ⟨rfl, rfl⟩ := Prod.mk.inj (Option.some.inj hres)
        rw [if_neg he, List.map_cons,
          ih (fun hm => h (mem_behindPart hm)) hloop]

/-- With its requests answered it returns. -/
theorem pathparserLoop_total (fuel : Nat) :
    ∀ {path : List UInt8} {s : σ}, 0x00 ∉ path → path.length < fuel →
      Grants al (partRequests (leading 0x2F path).length) s →
      pathparserLoop al fuel path s ≠ none := by
  induction fuel with
  | zero => intro path s _ hlt; omega
  | succ fuel ih =>
      intro path s h hlt hgrants
      rw [leading_parts] at hgrants
      rw [pathparserLoop, pathparserParsePathPart_eq h]
      by_cases he : firstPart path = []
      · rw [if_pos he]
        exact Option.some_ne_none _
      · rw [if_neg he] at hgrants ⊢
        rw [List.length_cons, partRequests] at hgrants
        obtain ⟨hstr, hgrants⟩ := hgrants
        generalize al.kzalloc benosMaxPath s = q at hstr hgrants
        obtain ⟨str, s₁⟩ := q
        cases str with
        | none => exact absurd rfl hstr
        | some str =>
            obtain ⟨haddr, hgrants⟩ := hgrants
            simp only at haddr hgrants ⊢
            generalize al.kzalloc sizeofPathPart s₁ = q at haddr hgrants
            obtain ⟨addr, s₂⟩ := q
            cases addr with
            | none => exact absurd rfl haddr
            | some addr =>
                have hlen := behindPart_length he
                have hrest := ih (fun hm => h (mem_behindPart hm))
                  (by omega) hgrants
                obtain ⟨r, hr⟩ := Option.ne_none_iff_exists'.mp hrest
                simp only [Option.bind_eq_bind, Option.bind_some, hr]
                exact Option.some_ne_none _

-- =================================================================== buffers

/-- The copying loop from byte `i` of a buffer the part still fits into. -/
theorem pathparserCopyPart_eq {part rest : List UInt8}
    (hpart : ∀ c ∈ part, endsPart c = false)
    (hrest : endsPart (rest.headD 0) = true) :
    ∀ {i : Nat} {buf : List UInt8}, i + part.length ≤ buf.length →
      pathparserCopyPart (part ++ rest) i buf
        = some (buf.take i ++ part ++ buf.drop (i + part.length)) := by
  induction part with
  | nil =>
      intro i buf _
      rw [List.append_nil, List.length_nil, Nat.add_zero, List.take_append_drop]
      cases rest with
      | nil => rfl
      | cons c rest => exact if_pos hrest
  | cons c part ih =>
      intro i buf hfit
      rw [List.length_cons] at hfit
      have hc := hpart c List.mem_cons_self
      have hi : i < buf.length := by omega
      rw [List.cons_append, pathparserCopyPart, hc, if_neg Bool.false_ne_true,
        if_pos hi, ih (fun x hx => hpart x (List.mem_cons_of_mem _ hx)) (by
          rw [List.length_set]
          omega)]
      have htake : (buf.set i c).take (i + 1) = buf.take i ++ [c] := by
        rw [List.take_succ_eq_append_getElem (by rw [List.length_set]; exact hi),
          List.getElem_set_self, List.take_set_of_le (Nat.le_refl i)]
      have hdrop : (buf.set i c).drop (i + 1 + part.length)
          = buf.drop (i + (c :: part).length) := by
        rw [List.length_cons, List.drop_set_of_lt (by omega)]
        congr 1
        omega
      rw [htake, hdrop, List.append_assoc, List.append_assoc, List.append_assoc]
      rfl

/-- A part shorter than the buffer is terminated in it. -/
theorem terminated_of_length {part : List UInt8}
    (hpart : ∀ c ∈ part, endsPart c = false)
    (hlen : part.length < benosMaxPath) : Terminated part := by
  refine ⟨hlen, fun rest hrest => ?_⟩
  rw [pathparserCopyPart_eq hpart hrest (by
    rw [List.length_replicate]
    omega), List.drop_replicate, Nat.zero_add]
  rfl

-- ================================================================== the path

theorem strlen_eq {path : List UInt8} (h : 0x00 ∉ path) :
    strlen path = path.length := by
  have hall : path.takeWhile (fun c => c != 0) = path :=
    List.takeWhile_eq_self_iff.mpr fun c hc =>
      bne_iff_ne.mpr fun heq => h (heq ▸ hc)
  unfold strlen
  rw [hall]

/-- The format check is that of the first three bytes. -/
theorem pathForm_of_valid (h : 0x00 ∉ path) (hlen : path.length ≤ benosMaxPath)
    (hvalid : pathparserPathValidFormat path = true) : PathForm path := by
  unfold pathparserPathValidFormat strnlen at hvalid
  rw [strlen_eq h] at hvalid
  simp only [Bool.and_eq_true, decide_eq_true_eq, beq_iff_eq] at hvalid
  obtain ⟨⟨⟨hthree, hdigit⟩, hcolon⟩, hslash⟩ := hvalid
  refine ⟨hlen, path.getD 0 0, hdigit, ?_⟩
  match path, hthree with
  | [], hthree => simp at hthree
  | [_], hthree => simp at hthree
  | [_, _], hthree => simp at hthree
  | d :: c :: e :: rest, _ =>
      have hc : c = 0x3A := hcolon
      have he : e = 0x2F := hslash
      rw [hc, he]
      rfl

/-- A path the parser does not reject. -/
def Accepted (path : List UInt8) : Prop :=
  path.length ≤ benosMaxPath ∧ pathparserPathValidFormat path = true

/-- A digit is a drive number. -/
theorem tonum_nonneg {c : UInt8} (h : isdigit c = true) : 0 ≤ tonum c := by
  unfold isdigit at h
  rw [Bool.and_eq_true, decide_eq_true_eq] at h
  have hlo : 48 ≤ c.toNat := h.1
  unfold tonum
  omega

/-- `pathparser_parse` on a string without a terminator. -/
theorem pathparserParse_eq (al : Allocator σ) (h : 0x00 ∉ path) (s : σ) :
    (¬ Accepted path → pathparserParse al path s = some (none, s))
      ∧ (Accepted path → pathparserParse al path s =
          match al.kzalloc sizeofPathRoot s with
          | (none, _) => none
          | (some addr, s) => do
              let (parts, s) ← pathparserLoop al (path.length + 1)
                (path.drop 3) s
              some (some ⟨addr, tonum (path.getD 0 0), parts⟩, s)) := by
  unfold pathparserParse pathparserGetDriveByPath
  rw [strlen_eq h]
  constructor
  · intro hno
    by_cases hlen : path.length > benosMaxPath
    · rw [if_pos hlen]
    · have hvalid : pathparserPathValidFormat path = false :=
        Bool.not_eq_true _ ▸ fun hv => hno ⟨by omega, hv⟩
      rw [if_neg hlen, hvalid]
      rfl
  · rintro ⟨hlen, hvalid⟩
    have hdigit : isdigit (path.getD 0 0) = true := by
      unfold pathparserPathValidFormat at hvalid
      rw [Bool.and_eq_true, Bool.and_eq_true, Bool.and_eq_true] at hvalid
      exact hvalid.1.1.2
    have hdrive := tonum_nonneg hdigit
    rw [if_neg (by omega), hvalid]
    simp only [Bool.not_true, Bool.false_eq_true, if_false]
    exact if_neg (by omega)

/-- A root stands for an accepted path, and its parts are the leading
segments. -/
theorem pathparserParse_parts (h : 0x00 ∉ path) {root : PathRoot}
    (hres : pathparserParse al path s = some (some root, s')) :
    Accepted path ∧ root.driveNo = tonum (path.getD 0 0)
      ∧ root.parts.map PathPart.part = leading 0x2F (path.drop 3) := by
  obtain ⟨hno, hyes⟩ := pathparserParse_eq al h s
  by_cases hacc : Accepted path
  · rw [hyes hacc] at hres
    generalize al.kzalloc sizeofPathRoot s = q at hres
    obtain ⟨addr, s₁⟩ := q
    cases addr with
    | none => cases hres
    | some addr =>
        obtain ⟨⟨parts, s₂⟩, hloop, hres⟩ := Option.bind_eq_some_iff.mp hres
        obtain ⟨heq, -⟩ := Prod.mk.inj (Option.some.inj hres)
        obtain rfl := Option.some.inj heq
        exact ⟨hacc, rfl, pathparserLoop_parts _
          (fun hm => h (List.mem_of_mem_drop hm)) hloop⟩
  · rw [hno hacc] at hres
    cases hres

/-- With its requests answered, an accepted path is parsed. -/
theorem pathparserParse_total (h : 0x00 ∉ path) (hacc : Accepted path)
    (hgrants : Grants al (parseRequests (leading 0x2F (path.drop 3)).length) s) :
    ∃ root s', pathparserParse al path s = some (some root, s') := by
  obtain ⟨-, hyes⟩ := pathparserParse_eq al h s
  rw [hyes hacc]
  obtain ⟨hroot, hgrants⟩ := hgrants
  generalize al.kzalloc sizeofPathRoot s = q at hroot hgrants
  obtain ⟨addr, s₁⟩ := q
  cases addr with
  | none => exact absurd rfl hroot
  | some addr =>
      have hloop := pathparserLoop_total (path.length + 1)
        (fun hm => h (List.mem_of_mem_drop hm)) (by
          rw [List.length_drop]
          omega) hgrants
      obtain ⟨⟨parts, s₂⟩, hr⟩ := Option.ne_none_iff_exists'.mp hloop
      refine ⟨⟨addr, tonum (path.getD 0 0), parts⟩, s₂, ?_⟩
      simp only [Option.bind_eq_bind, hr, Option.bind_some]

-- ============================================================ on the kernel heap

variable {r r' : Ram} {heap₀ : Heap} {own : List (Addr × Nat)}

/-- The blocks a part stands on. -/
def PathPart.blocks (part : PathPart) : List (Addr × Nat) :=
  [(part.str, 1), (part.addr, 1)]

/-- A request for a block that is answered is lent the block. -/
theorem lent_request (h₀ : Clean heap₀) (h : Lent heap₀ r.heap own) {size : Nat}
    (hlo : 1 ≤ size) (hsize : size ≤ benosHeapBlockSize) {a : Addr}
    (hres : kernelAllocator.kzalloc size r = (some a, r')) :
    Lent heap₀ r'.heap ((a, 1) :: own) := by
  have hptr := congrArg Prod.fst hres
  have hram : (kzalloc size r).2 = r' := congrArg Prod.snd hres
  unfold kernelAllocator at hptr
  simp only at hptr
  split at hptr
  case isTrue => cases hptr
  case isFalse hne =>
    obtain rfl := Option.some.inj hptr
    rw [← hram]
    exact h.kzalloc_block h₀ hlo hsize hne

/-- The loop is lent the blocks of its parts. -/
theorem pathparserLoop_lent (h₀ : Clean heap₀) (fuel : Nat) :
    ∀ {path : List UInt8} {parts : List PathPart} {r r' : Ram}
      {own : List (Addr × Nat)}, 0x00 ∉ path → Lent heap₀ r.heap own →
      Grants kernelAllocator (partRequests (leading 0x2F path).length) r →
      pathparserLoop kernelAllocator fuel path r = some (parts, r') →
      Lent heap₀ r'.heap (parts.flatMap PathPart.blocks ++ own) := by
  induction fuel with
  | zero => intro path parts r r' own _ _ _ hres; cases hres
  | succ fuel ih =>
      intro path parts r r' own h hlent hgrants hres
      rw [leading_parts] at hgrants
      rw [pathparserLoop] at hres
      obtain ⟨⟨part, path', r₁⟩, hpart, hres⟩ :=
        Option.bind_eq_some_iff.mp hres
      by_cases he : firstPart path = []
      · -- the block for the part that is not there is given back
        rw [if_pos he] at hgrants
        obtain ⟨hanswer, -⟩ := hgrants
        rw [pathparserParsePathPart_eq h, if_pos he] at hpart
        generalize hq : kernelAllocator.kzalloc benosMaxPath r = q
          at hpart hanswer
        obtain ⟨ptr, r₂⟩ := q
        cases ptr with
        | none => exact absurd rfl hanswer
        | some a =>
            obtain ⟨rfl, hrest⟩ := Prod.mk.inj (Option.some.inj hpart)
            obtain ⟨-, rfl⟩ := Prod.mk.inj hrest
            obtain ⟨rfl, rfl⟩ := Prod.mk.inj (Option.some.inj hres)
            have hlent' := lent_request h₀ hlent (by decide) (by decide) hq
            exact hlent'.heapFree h₀
      · obtain ⟨str, addr, r₂, hstr, haddr, rfl, rfl⟩ := parsed_part h he hpart
        obtain ⟨⟨parts', r₃⟩, hloop, hres⟩ := Option.bind_eq_some_iff.mp hres
        obtain ⟨rfl, rfl⟩ := Prod.mk.inj (Option.some.inj hres)
        rw [if_neg he, List.length_cons, partRequests] at hgrants
        obtain ⟨-, -, hgrants⟩ := hgrants
        rw [hstr] at hgrants
        simp only at hgrants
        rw [haddr] at hgrants
        have hlent₂ := lent_request h₀
          (lent_request h₀ hlent (by decide) (by decide) hstr)
          (by decide) (by decide) haddr
        refine (ih (fun hm => h (mem_behindPart hm)) hlent₂ hgrants
          hloop).perm ?_
        -- the order of the list plays no part
        rw [List.flatMap_cons]
        refine List.perm_append_comm.trans ?_
        rw [List.append_assoc]
        refine List.Perm.trans ?_ ((List.Perm.swap _ _ []).append_right _)
        exact List.Perm.cons _ (List.Perm.cons _ List.perm_append_comm)

/-- Freeing the parts gives their blocks back. -/
theorem pathparserFreeLoop_lent (h₀ : Clean heap₀) (parts : List PathPart) :
    ∀ {r : Ram}, Lent heap₀ r.heap (parts.flatMap PathPart.blocks ++ own) →
      Lent heap₀ (pathparserFreeLoop kernelAllocator parts r).heap own := by
  induction parts with
  | nil => intro r h; exact h
  | cons part parts ih =>
      intro r h
      exact ih ((h.heapFree h₀).heapFree h₀)

/-- `pathparser_free` gives back what `pathparser_parse` was lent. -/
theorem pathparserFree_undoes (hclean : Clean r.heap) (h : 0x00 ∉ path)
    {root : PathRoot}
    (hgrants : Grants kernelAllocator
      (parseRequests (leading 0x2F (path.drop 3)).length) r)
    (hres : pathparserParse kernelAllocator path r = some (some root, r')) :
    (pathparserFree kernelAllocator root r').heap = r.heap := by
  obtain ⟨hacc, -⟩ := pathparserParse_parts h hres
  rw [(pathparserParse_eq _ h r).2 hacc] at hres
  obtain ⟨hroot, hgrants⟩ := hgrants
  generalize hq : kernelAllocator.kzalloc sizeofPathRoot r = q
    at hres hroot hgrants
  obtain ⟨addr, r₁⟩ := q
  cases addr with
  | none => cases hres
  | some addr =>
      obtain ⟨⟨parts, r₂⟩, hloop, hres⟩ := Option.bind_eq_some_iff.mp hres
      obtain ⟨heq, rfl⟩ := Prod.mk.inj (Option.some.inj hres)
      obtain rfl := Option.some.inj heq
      have hlent := pathparserLoop_lent hclean _
        (fun hm => h (List.mem_of_mem_drop hm))
        (lent_request hclean (Lent.refl r.heap) (by decide) (by decide) hq)
        hgrants hloop
      exact Lent.settled
        ((pathparserFreeLoop_lent hclean parts hlent).heapFree hclean)

/-- Requests for a block each are answered while there is room. -/
theorem grants_of_room (ns : List Nat) :
    ∀ {r : Ram} {k : Nat}, Room r k → k + ns.length ≤ r.heap.table.total →
      (∀ n ∈ ns, 1 ≤ n ∧ n ≤ benosHeapBlockSize) →
      Grants kernelAllocator ns r := by
  induction ns with
  | nil => intro r k _ _ _; trivial
  | cons n ns ih =>
      intro r k hroom hlen hns
      rw [List.length_cons] at hlen
      obtain ⟨hlo, hhi⟩ := hns n List.mem_cons_self
      have hone : blocksFor n = 1 := by
        simp only [blocksFor, benosHeapBlockSize] at *
        omega
      obtain ⟨hne, hroom', htotal, -⟩ := hroom.kzalloc hlo (by omega)
      refine ⟨?_, ih (hone ▸ hroom') (by
        show k + 1 + ns.length ≤ (kzalloc n r).2.heap.table.total
        omega) fun m hm => hns m (List.mem_cons_of_mem _ hm)⟩
      unfold kernelAllocator
      simp only
      rw [if_neg hne]
      exact Option.some_ne_none _

-- ============================================================ printed paths

section

variable {d : Fin 10} {cs : List (List UInt8)}

/-- A printed path has no terminator in it. -/
theorem zero_not_mem_printPath (hcs : ∀ c ∈ cs, 0x00 ∉ c) :
    0x00 ∉ printPath d cs := by
  have hdigit : ∀ d : Fin 10, (0x00 : UInt8) ≠ 48 + d.val.toUInt8 := by decide
  intro hm
  rcases List.mem_cons.mp hm with hm | hm
  · exact hdigit d hm
  · rcases List.mem_cons.mp hm with hm | hm
    · cases hm
    · rcases List.mem_cons.mp hm with hm | hm
      · cases hm
      · rcases mem_of_mem_intercalate 0x2F hm with hm | ⟨c, hc, hm⟩
        · cases hm
        · exact hcs c hc hm

/-- Its segments are what it was printed from. -/
theorem leading_printPath (hne : cs ≠ [])
    (hcs : ∀ c ∈ cs, c ≠ [] ∧ 0x2F ∉ c) :
    leading 0x2F ((printPath d cs).drop 3) = cs := by
  show leading 0x2F ([0x2F].intercalate cs) = cs
  unfold leading
  rw [List.splitOn_intercalate 0x2F (fun c hc => (hcs c hc).2) hne]
  refine List.takeWhile_eq_self_iff.mpr fun c hc => ?_
  rw [Bool.not_eq_true', List.isEmpty_eq_false_iff]
  exact (hcs c hc).1

/-- It has the form the parser asks for. -/
theorem accepted_printPath (hcs : ∀ c ∈ cs, 0x00 ∉ c)
    (hlen : (printPath d cs).length ≤ benosMaxPath) :
    Accepted (printPath d cs) := by
  have hdigit : ∀ d : Fin 10, isdigit (48 + d.val.toUInt8) = true := by decide
  refine ⟨hlen, ?_⟩
  unfold pathparserPathValidFormat strnlen
  rw [strlen_eq (zero_not_mem_printPath hcs)]
  have hthree : 3 ≤ min (printPath d cs).length benosMaxPath := by
    refine Nat.le_min.mpr ⟨?_, by decide⟩
    unfold printPath
    rw [List.length_cons, List.length_cons, List.length_cons]
    omega
  rw [decide_eq_true hthree]
  unfold printPath
  simp only [List.getD_cons_zero, hdigit d, Bool.true_and]
  rfl

/-- Each of its parts is shorter than the buffer it is copied to. -/
theorem length_lt_of_printPath (hlen : (printPath d cs).length ≤ benosMaxPath)
    {c : List UInt8} (hc : c ∈ cs) : c.length < benosMaxPath := by
  have hle := length_le_intercalate 0x2F hc
  unfold printPath at hlen
  rw [List.length_cons, List.length_cons, List.length_cons] at hlen
  omega

end

/-- For every drive digit and all parts that are not empty and have no
slash in them, the printed path, where it is no longer than a path may
be, is parsed to the drive and the parts, each terminated in its buffer;
and `pathparser_free` leaves the heap as the parser found it. -/
theorem pathparser_inverts_printing {r : Ram} (hclean : Clean r.heap)
    (d : Fin 10) {cs : List (List UInt8)} (hne : cs ≠ [])
    (hcs : ∀ c ∈ cs, c ≠ [] ∧ 0x2F ∉ c ∧ 0x00 ∉ c)
    (hlen : (printPath d cs).length ≤ benosMaxPath)
    (hgrants : Grants kernelAllocator (parseRequests cs.length) r) :
    ∃ root r', pathparserParse kernelAllocator (printPath d cs) r
        = some (some root, r')
      ∧ root.driveNo = d.val
      ∧ root.parts.map PathPart.part = cs
      ∧ (∀ part ∈ root.parts, Terminated part.part)
      ∧ (pathparserFree kernelAllocator root r').heap = r.heap := by
  have hzero : 0x00 ∉ printPath d cs :=
    zero_not_mem_printPath fun c hc => (hcs c hc).2.2
  have hleading : leading 0x2F ((printPath d cs).drop 3) = cs :=
    leading_printPath hne fun c hc => ⟨(hcs c hc).1, (hcs c hc).2.1⟩
  have hacc : Accepted (printPath d cs) :=
    accepted_printPath (fun c hc => (hcs c hc).2.2) hlen
  rw [← hleading] at hgrants
  obtain ⟨root, r', hres⟩ := pathparserParse_total hzero hacc hgrants
  obtain ⟨-, hdrive, hparts⟩ := pathparserParse_parts hzero hres
  rw [hleading] at hparts
  refine ⟨root, r', hres, ?_, hparts, fun part hpart => ?_,
    pathparserFree_undoes hclean hzero hgrants hres⟩
  · have hdigit : ∀ d : Fin 10, tonum (48 + d.val.toUInt8) = d.val := by decide
    rw [hdrive]
    exact hdigit d
  · have hc : part.part ∈ cs := hparts ▸ List.mem_map_of_mem hpart
    obtain ⟨-, hslash, hnul⟩ := hcs _ hc
    refine terminated_of_length (fun x hx => ?_)
      (length_lt_of_printPath hlen hc)
    unfold endsPart
    rw [Bool.or_eq_false_iff, beq_eq_false_iff_ne, beq_eq_false_iff_ne]
    exact ⟨fun heq => hslash (heq ▸ hx), fun heq => hnul (heq ▸ hx)⟩

/-- The memory with nothing handed out. -/
def freshRam : Ram := ⟨emptyHeap, fun _ => 0, true⟩

theorem room_fresh : Room freshRam 0 := room_empty _ _

/-- `0:/ab/c`, on a heap with nothing handed out. -/
theorem pathparser_inverts_printing_two_parts :
    ∃ root r', pathparserParse kernelAllocator
        (printPath 0 [[0x61, 0x62], [0x63]]) freshRam = some (some root, r')
      ∧ root.driveNo = (0 : Fin 10).val
      ∧ root.parts.map PathPart.part = [[0x61, 0x62], [0x63]]
      ∧ (∀ part ∈ root.parts, Terminated part.part)
      ∧ (pathparserFree kernelAllocator root r').heap = freshRam.heap :=
  pathparser_inverts_printing (ramOk_empty _ _).clean 0 (by decide) (by decide)
    (by decide) (grants_of_room _ room_fresh (by decide) (by decide))

-- ============================================================== what is lost

/-- The leading segments are all that are not empty where there is no
gap. -/
theorem leading_eq_filter_iff (path : List UInt8) :
    leading 0x2F path = (path.splitOn 0x2F).filter (fun c => !c.isEmpty)
      ↔ NoGap path := by
  unfold leading NoGap
  rw [takeWhile_eq_filter_iff]
  simp only [Bool.not_eq_false', List.isEmpty_iff]

/-- The parser keeps all of a path it accepts, for all roots it returns,
exactly when no segment of the path stands behind an empty one. -/
theorem pathparser_whole_exact (h : 0x00 ∉ path)
    (hres : pathparserParse al path s ≠ none) :
    (∀ root s', pathparserParse al path s = some (some root, s') →
        ParsedWhole path root)
      ↔ (Accepted path → NoGap (path.drop 3)) := by
  constructor
  · intro hwhole hacc
    obtain ⟨⟨root, s'⟩, heq⟩ := Option.ne_none_iff_exists'.mp hres
    cases root with
    | none =>
        -- an accepted path has a root, or a request of it was refused
        rw [(pathparserParse_eq _ h s).2 hacc] at heq
        generalize al.kzalloc sizeofPathRoot s = q at heq
        obtain ⟨addr, s₁⟩ := q
        cases addr with
        | none => cases heq
        | some addr =>
            obtain ⟨_, -, heq⟩ := Option.bind_eq_some_iff.mp heq
            cases (Prod.mk.inj (Option.some.inj heq)).1
    | some root =>
        obtain ⟨-, -, hparts⟩ := pathparserParse_parts h heq
        have hall := (hwhole root s' heq).parts
        rw [hparts] at hall
        exact (leading_eq_filter_iff _).mp hall
  · intro hgap root s' heq
    obtain ⟨hacc, -, hparts⟩ := pathparserParse_parts h heq
    refine ⟨pathForm_of_valid h hacc.1 hacc.2, ?_⟩
    rw [hparts]
    exact (leading_eq_filter_iff _).mpr (hgap hacc)

/-- `0:/a/b/`, on a heap with nothing handed out. -/
theorem pathparser_whole_exact_two_parts :
    (∀ root s', pathparserParse kernelAllocator
        [0x30, 0x3A, 0x2F, 0x61, 0x2F, 0x62, 0x2F] freshRam
          = some (some root, s') →
        ParsedWhole [0x30, 0x3A, 0x2F, 0x61, 0x2F, 0x62, 0x2F] root)
      ↔ (Accepted [0x30, 0x3A, 0x2F, 0x61, 0x2F, 0x62, 0x2F] →
          NoGap [0x61, 0x2F, 0x62, 0x2F]) := by
  have hparsed := pathparserParse_total (s := freshRam)
    (show (0x00 : UInt8) ∉ [0x30, 0x3A, 0x2F, 0x61, 0x2F, 0x62, 0x2F] by decide)
    ⟨by decide, by decide⟩
    (grants_of_room _ room_fresh (by decide) (by decide))
  refine pathparser_whole_exact (by decide) ?_
  obtain ⟨root, s', heq⟩ := hparsed
  rw [heq]
  exact Option.some_ne_none _

/-- It is not so that nothing of an accepted path is left out: `0:/a//b`
is parsed to the one part `a`. -/
theorem pathparser_drops_part :
    ¬ ∀ (path : List UInt8) (r : Ram) (root : PathRoot) (r' : Ram),
        0x00 ∉ path →
        pathparserParse kernelAllocator path r = some (some root, r') →
        ParsedWhole path root := by
  intro hall
  have hzero : (0x00 : UInt8) ∉ [0x30, 0x3A, 0x2F, 0x61, 0x2F, 0x2F, 0x62] := by
    decide
  obtain ⟨root, r', heq⟩ := pathparserParse_total (s := freshRam) hzero
    ⟨by decide, by decide⟩
    (grants_of_room _ room_fresh (by decide) (by decide))
  have hparts := (hall _ _ _ _ hzero heq).parts
  rw [(pathparserParse_parts hzero heq).2.2] at hparts
  exact absurd hparts (by decide)

end BenOS.Fs
