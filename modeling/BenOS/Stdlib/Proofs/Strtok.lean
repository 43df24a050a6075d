/-
What `strncpy` and `strtok` make of a string.

`IsStr mem p cs` says that the bytes from `p` on are the characters `cs`
and a NUL. `strncpy` makes a string of the first `count - 1` characters
(`strncpy_isStr`). `strtok` takes the first run of characters that are no
delimiters and leaves what is behind it to the next call
(`strtok_spec`): call after call it gives the runs of the string.
-/
import BenOS.Lib.Segments
import BenOS.Stdlib.String

namespace BenOS.Stdlib

open Lib

/-- A NUL-terminated string from `p` on. -/
def IsStr (mem : Nat → UInt8) : Nat → List UInt8 → Prop
  | p, [] => mem p = 0x00
  | p, c :: cs => c ≠ 0x00 ∧ mem p = c ∧ IsStr mem (p + 1) cs

theorem IsStr.nil_iff {mem : Nat → UInt8} {p : Nat} {cs : List UInt8}
    (h : IsStr mem p cs) : mem p = 0x00 ↔ cs = [] := by
  cases cs with
  | nil => exact iff_of_true h rfl
  | cons c cs =>
      obtain ⟨hc, hp, -⟩ := h
      rw [hp]
      exact iff_of_false hc (List.cons_ne_nil c cs)

/-- A string seen from a pointer into the buffer. -/
theorem IsStr.shift {mem : Nat → UInt8} {t : Nat} (cs : List UInt8) :
    ∀ {p : Nat}, IsStr mem (t + p) cs → IsStr (fun i => mem (t + i)) p cs := by
  induction cs with
  | nil => exact fun h => h
  | cons c cs ih =>
      rintro p ⟨hc, hp, hrest⟩
      exact ⟨hc, hp, ih hrest⟩

/-- A string has one spelling. -/
theorem IsStr.unique {mem : Nat → UInt8} (cs : List UInt8) :
    ∀ {p : Nat} {cs' : List UInt8}, IsStr mem p cs → IsStr mem p cs' →
      cs = cs' := by
  induction cs with
  | nil =>
      intro p cs' h h'
      exact (h'.nil_iff.mp h).symm
  | cons c cs ih =>
      rintro p cs' ⟨hc, hp, hrest⟩ h'
      cases cs' with
      | nil => exact absurd (hp.symm.trans h') hc
      | cons c' cs' =>
          obtain ⟨-, hp', hrest'⟩ := h'
          rw [← hp, ← hp', ih hrest hrest']

/-- A string stays where its bytes do. -/
theorem IsStr.frame {mem mem' : Nat → UInt8} (cs : List UInt8) :
    ∀ {p : Nat}, (∀ i, p ≤ i → i ≤ p + cs.length → mem' i = mem i) →
      IsStr mem p cs → IsStr mem' p cs := by
  induction cs with
  | nil =>
      intro p hsame h
      exact (hsame p (Nat.le_refl p) (Nat.le_refl p)).trans h
  | cons c cs ih =>
      rintro p hsame ⟨hc, hp, hrest⟩
      rw [List.length_cons] at hsame
      refine ⟨hc, (hsame p (Nat.le_refl p) (by omega)).trans hp, ih ?_ hrest⟩
      exact fun i hi hle => hsame i (by omega) (by omega)

/-- A string stays where the bytes from its start on do. -/
theorem IsStr.congr {mem mem' : Nat → UInt8} (cs : List UInt8) {p : Nat}
    (hsame : ∀ i, p ≤ i → mem' i = mem i) (h : IsStr mem p cs) :
    IsStr mem' p cs :=
  IsStr.frame cs (fun i hi _ => hsame i hi) h

-- ==================================================================== strncpy

/-- The loop leaves what is before its index alone, and makes a string of
the characters it has turns for. -/
theorem strncpyLoop_isStr {src : Nat → UInt8} (k : Nat) :
    ∀ {i : Nat} {dest : Nat → UInt8} {cs : List UInt8}, IsStr src i cs →
      (∀ j, j < i → (Function.update (strncpyLoop src k i dest).2
        (strncpyLoop src k i dest).1 0x00) j = dest j)
      ∧ IsStr (Function.update (strncpyLoop src k i dest).2
        (strncpyLoop src k i dest).1 0x00) i (cs.take k) := by
  induction k with
  | zero =>
      intro i dest cs _
      refine ⟨fun j hj => ?_, ?_⟩
      · exact Function.update_of_ne (Nat.ne_of_lt hj) _ _
      · exact Function.update_self _ _ _
  | succ k ih =>
      intro i dest cs h
      rw [strncpyLoop]
      cases cs with
      | nil =>
          have hend : src i = 0x00 := h
          rw [if_pos hend]
          refine ⟨fun j hj => ?_, ?_⟩
          · exact Function.update_of_ne (Nat.ne_of_lt hj) _ _
          · exact Function.update_self _ _ _
      | cons c cs =>
          obtain ⟨hc, hi, hrest⟩ := h
          rw [hi, if_neg hc]
          obtain ⟨hsame, hstr⟩ := @ih (i + 1) (Function.update dest i c) cs hrest
          refine ⟨fun j hj => ?_, hc, ?_, hstr⟩
          · rw [hsame j (Nat.lt_succ_of_lt hj)]
            exact Function.update_of_ne (Nat.ne_of_lt hj) _ _
          · rw [hsame i (Nat.lt_succ_self i)]
            exact Function.update_self _ _ _

/-- `strncpy` copies as many characters as there is room for, and ends
them with a NUL. -/
theorem strncpy_isStr {src : Nat → UInt8} {cs : List UInt8}
    (h : IsStr src 0 cs) (dest : Nat → UInt8) (count : Nat) :
    IsStr (strncpy dest src count) 0 (cs.take (count - 1)) :=
  (strncpyLoop_isStr (count - 1) h).2

-- ===================================================================== strtok

variable {mem : Nat → UInt8} {ds : List UInt8}

/-- A character is one of the delimiters. -/
abbrev delim (ds : List UInt8) (c : UInt8) : Bool := decide (c ∈ ds)

/-- The first loop of `strtok` passes over the delimiters. -/
theorem strtokSkip_spec (hd : 0x00 ∉ ds) (cs : List UInt8) :
    ∀ {p k : Nat}, IsStr mem p cs → cs.length < k →
      ∃ q, strtokSkip mem ds k p = some q
        ∧ IsStr mem q (cs.dropWhile (delim ds))
        ∧ q + (cs.dropWhile (delim ds)).length = p + cs.length := by
  induction cs with
  | nil =>
      intro p k h hk
      obtain ⟨k, rfl⟩ := Nat.exists_eq_succ_of_ne_zero (Nat.ne_of_gt hk)
      have hnot : mem p ∉ ds := by
        rw [show mem p = 0x00 from h]
        exact hd
      exact ⟨p, if_neg hnot, h, rfl⟩
  | cons c cs ih =>
      intro p k h hk
      have hlen : cs.length + 1 < k := hk
      obtain ⟨k, rfl⟩ := Nat.exists_eq_succ_of_ne_zero (Nat.ne_of_gt
        (Nat.lt_of_le_of_lt (Nat.zero_le _) hlen))
      have hp : mem p = c := h.2.1
      rw [strtokSkip, hp, List.dropWhile_cons]
      by_cases hc : c ∈ ds
      · obtain ⟨q, hq, hstr, hend⟩ := ih h.2.2 (Nat.lt_of_succ_lt_succ hlen)
        rw [if_pos hc, if_pos (decide_eq_true hc)]
        refine ⟨q, hq, hstr, ?_⟩
        rw [hend, List.length_cons]
        omega
      · rw [if_neg hc, if_neg fun h => hc (of_decide_eq_true h)]
        exact ⟨p, rfl, h, rfl⟩

/-- The second loop ends the token where the first delimiter was, and
leaves what is behind it. -/
theorem strtokEnd_spec (cs : List UInt8) :
    ∀ {p k : Nat}, IsStr mem p cs → cs.length < k →
      ∃ mem' q, strtokEnd ds k p mem = some (mem', q)
        ∧ IsStr mem' p (cs.takeWhile fun c => !delim ds c)
        ∧ IsStr mem' q (cs.dropWhile fun c => !delim ds c).tail
        ∧ q + (cs.dropWhile fun c => !delim ds c).tail.length = p + cs.length
        ∧ (∀ i, i ≠ p + (cs.takeWhile fun c => !delim ds c).length →
            mem' i = mem i)
        ∧ ∀ i, mem' i = mem i ∨ mem i ∈ ds := by
  induction cs with
  | nil =>
      intro p k h hk
      obtain ⟨k, rfl⟩ := Nat.exists_eq_succ_of_ne_zero (Nat.ne_of_gt hk)
      exact ⟨mem, p, if_pos h, h, h, rfl, fun i _ => rfl, fun i => Or.inl rfl⟩
  | cons c cs ih =>
      intro p k h hk
      have hlen : cs.length + 1 < k := hk
      obtain ⟨k, rfl⟩ := Nat.exists_eq_succ_of_ne_zero (Nat.ne_of_gt
        (Nat.lt_of_le_of_lt (Nat.zero_le _) hlen))
      obtain ⟨hne, hp, hrest⟩ := h
      rw [strtokEnd, hp, if_neg hne, List.takeWhile_cons, List.dropWhile_cons]
      by_cases hc : c ∈ ds
      · have hdelim : (!delim ds c) = false := by
          rw [delim, decide_eq_true hc, Bool.not_true]
        rw [if_pos hc, hdelim]
        refine ⟨_, _, rfl, Function.update_self _ _ _, ?_, ?_, ?_, ?_⟩
        · apply IsStr.congr cs _ hrest
          intro i hi
          exact Function.update_of_ne (Nat.ne_of_gt hi) _ _
        · rw [if_neg Bool.false_ne_true, List.tail_cons, List.length_cons]
          omega
        · exact fun i hi => Function.update_of_ne hi _ _
        · intro i
          by_cases hi : i = p
          · rw [hi, hp]
            exact Or.inr hc
          · exact Or.inl (Function.update_of_ne hi _ _)
      · have hdelim : (!delim ds c) = true := by
          rw [delim, decide_eq_false hc, Bool.not_false]
        rw [if_neg hc, hdelim, if_pos rfl, if_pos rfl]
        obtain ⟨mem', q, hq, htoken, hbehind, hend, hsame, hwritten⟩ :=
          ih hrest (Nat.lt_of_succ_lt_succ hlen)
        refine ⟨mem', q, hq, ⟨hne, ?_, htoken⟩, hbehind, ?_, fun i hi => ?_,
          hwritten⟩
        · rw [hsame p (by omega), hp]
        · rw [hend, List.length_cons]
          omega
        · rw [List.length_cons] at hi
          exact hsame i (by omega)

/-- A token that a call takes from the string `cs` at `p`: the first run
`w` of the string, at `t`, and the string `rest` behind it, at `q`, which
the next call will find. Behind the token a delimiter gives way to a
NUL. -/
structure TokenAt (ds cs : List UInt8) (p : Nat) (mem : Nat → UInt8)
    (t q : Nat) (mem' : Nat → UInt8) (w rest : List UInt8) : Prop where
  runs : runsBy (delim ds) cs = w :: runsBy (delim ds) rest
  token : IsStr mem' t w
  behind : IsStr mem' q rest
  last : q + rest.length = p + cs.length
  first : p ≤ t
  order : t + w.length ≤ q
  shorter : rest.length < cs.length
  before : ∀ i, i ≤ t → mem' i = mem i
  written : ∀ i, mem' i = mem i ∨ mem i ∈ ds

/-- `strtok` takes the first run of what is in front of it, or stops the
tokenization where there is none. -/
theorem strtok_token (hd : 0x00 ∉ ds) (size : Nat) (str : Option Nat)
    {s : Tok} {p : Nat} {cs : List UInt8} (hp : s.sp.or str = some p)
    (h : IsStr s.mem p cs) (hsize : p + cs.length < size) :
    (runsBy (delim ds) cs = []
        ∧ strtok size str ds s = some (none, ⟨s.mem, none⟩))
      ∨ ∃ t q mem' w rest, TokenAt ds cs p s.mem t q mem' w rest
        ∧ strtok size str ds s = some (some t, ⟨mem', some q⟩) := by
  obtain ⟨t, hskip, hstr, hend⟩ :=
    strtokSkip_spec (k := size - p) hd cs h (by omega)
  have hle := (List.dropWhile_suffix (l := cs) (delim ds)).length_le
  rw [strtok, hp]
  simp only [hskip, Option.bind_eq_bind, Option.bind_some]
  rw [← runsBy_dropWhile]
  cases hrest : cs.dropWhile (delim ds) with
  | nil =>
      rw [hrest] at hstr
      rw [if_pos (hstr.nil_iff.mpr rfl), runsBy_nil]
      exact Or.inl ⟨rfl, rfl⟩
  | cons c rest =>
      rw [hrest] at hstr hend hle
      rw [List.length_cons] at hend hle
      have hc : delim ds c = false := by
        have hnil : cs.dropWhile (delim ds) ≠ [] := by
          rw [hrest]
          exact List.cons_ne_nil c rest
        have hhead := List.head_dropWhile_not (delim ds) hnil
        simpa [hrest] using hhead
      have hne : ¬ s.mem t = 0x00 := fun hzero =>
        List.cons_ne_nil c rest (hstr.nil_iff.mp hzero)
      obtain ⟨mem', q, hq, htoken, hbehind, hlast, hsame, hwritten⟩ :=
        @strtokEnd_spec s.mem ds (c :: rest) t (size - t) hstr
          (by rw [List.length_cons]; omega)
      rw [if_neg hne, hq]
      have hwlen : 0 < ((c :: rest).takeWhile fun c => !delim ds c).length := by
        rw [List.takeWhile_cons, hc]
        exact Nat.succ_pos _
      have hsplit := congrArg List.length (List.takeWhile_append_dropWhile
        (p := fun c => !delim ds c) (l := c :: rest))
      rw [List.length_append, List.length_cons] at hsplit
      rw [List.length_tail, List.length_cons] at hlast
      refine Or.inr ⟨t, q, mem', _, _, ⟨?_, htoken, hbehind, ?_, by omega,
        by omega, ?_, fun i hi => hsame i (by omega), hwritten⟩, rfl⟩
      · rw [← runsBy_dropWhile, hrest]
        exact runsBy_cons _ hc rest
      · rw [List.length_tail]
        omega
      · rw [List.length_tail]
        omega

-- ============================================================== one delimiter

variable {delimiter : UInt8}

/-- A token, and what the next calls will find: `token` is the first of
the runs `ws` and `sp` is in front of the others, with fewer than `n`
characters; where there is none, no tokenization is in progress. -/
def Holding (size n : Nat) (delimiter : UInt8) (token : Option Nat) (s : Tok)
    (ws : List (List UInt8)) : Prop :=
  match token with
  | none => ws = [] ∧ s.sp = none
  | some t => ∃ w q rest, ws = w :: runs delimiter rest ∧ IsStr s.mem t w
      ∧ s.sp = some q ∧ IsStr s.mem q rest ∧ q + rest.length < size
      ∧ rest.length < n

theorem Holding.mono {size n m : Nat} {token : Option Nat} {s : Tok}
    {ws : List (List UInt8)} (h : Holding size n delimiter token s ws)
    (hnm : n ≤ m) : Holding size m delimiter token s ws := by
  cases token with
  | none => exact h
  | some t =>
      obtain ⟨w, q, rest, hws, hw, hsp, hrest, hsize, hn⟩ := h
      exact ⟨w, q, rest, hws, hw, hsp, hrest, hsize, Nat.lt_of_lt_of_le hn hnm⟩

theorem runsBy_singleton (cs : List UInt8) :
    runsBy (delim [delimiter]) cs = runs delimiter cs := by
  rw [runs_eq_runsBy]
  congr 1
  funext c
  simp [delim, beq_eq_decide]

/-- `strtok` with a single delimiter. -/
theorem strtok_spec (hd : delimiter ≠ 0x00) (size : Nat) (str : Option Nat)
    {s : Tok} {p : Nat} {cs : List UInt8} (hp : s.sp.or str = some p)
    (h : IsStr s.mem p cs) (hsize : p + cs.length < size) :
    ∃ token s', strtok size str [delimiter] s = some (token, s')
      ∧ Holding size cs.length delimiter token s' (runs delimiter cs) := by
  have hds : (0x00 : UInt8) ∉ [delimiter] := by
    rw [List.mem_singleton]
    exact hd.symm
  rw [← runsBy_singleton]
  rcases strtok_token hds size str hp h hsize with
    ⟨hnil, hcall⟩ | ⟨t, q, mem', w, rest, htok, hcall⟩
  · exact ⟨none, _, hcall, hnil, rfl⟩
  · refine ⟨some t, _, hcall, w, q, rest, ?_, htok.token, rfl, htok.behind, ?_,
      htok.shorter⟩
    · rw [htok.runs, runsBy_singleton]
    · rw [htok.last]
      exact hsize

end BenOS.Stdlib
