/-
What line a program reads.

`editLine` is line editing as it should be: a backspace deletes the last
held character, and has no effect on an empty line. `codeLine` is line
editing as the loop of `benos_terminal_readline` does it, where a
backspace on an empty line is held like any other character; the loop is
shown to compute it (`readlineLoop_reads`), with `out` holding what is held.

Between the two stands one stray backspace at the start of the line: it
appears when a backspace comes on an empty line, and the next such
backspace deletes it. So the line is the right one exactly where no stray
one is there when the line ends (`readline_exact`).
-/
import BenOS.Stdlib.Readline

namespace BenOS.Stdlib

open Lib Traced

-- =============================================================== line editing

/-- The keys of a sequence of polls. -/
def keysOf (polls : List UInt8) : List UInt8 := polls.filter (· ≠ 0)

/-- The line that keys make of the held characters, up to a carriage
return or until `n` characters are held; `none` where neither comes. -/
def editLine (n : Nat) (held : List UInt8) : List UInt8 → Option (List UInt8)
  | [] => if n ≤ held.length then some held else none
  | key :: keys =>
      if n ≤ held.length then some held
      else if key = 13 then some held
      else if key = 0x08 then editLine n held.dropLast keys
      else editLine n (held ++ [key]) keys

/-- The same, but a backspace on an empty line is a character. -/
def codeLine (n : Nat) (held : List UInt8) : List UInt8 → Option (List UInt8)
  | [] => if n ≤ held.length then some held else none
  | key :: keys =>
      if n ≤ held.length then some held
      else if key = 13 then some held
      else if key = 0x08 ∧ held ≠ [] then codeLine n held.dropLast keys
      else codeLine n (held ++ [key]) keys

/-- When the line ends, the backspaces that came on an empty line were
even in number. `odd` says whether they were odd so far; a line with one
too many ends one character early. -/
def StraysPaired (n : Nat) (odd : Bool) (held : List UInt8) :
    List UInt8 → Prop
  | [] => n ≤ held.length + odd.toNat → odd = false
  | key :: keys =>
      if n ≤ held.length + odd.toNat then odd = false
      else if key = 13 then odd = false
      else if key = 0x08 then
        StraysPaired n (if held = [] then !odd else odd) held.dropLast keys
      else StraysPaired n odd (held ++ [key]) keys

-- ============================================================ the requirement

/-- `out` holds the characters of a line from its start on. -/
def Holds (out : Int → UInt8) (chars : List UInt8) : Prop :=
  ∀ (j : Nat) (hj : j < chars.length), out j = chars[j]

/-- A write inside `out[0..max-1]`. -/
def WritesInside (max : Int) : LineEffect → Prop
  | .write i => 0 ≤ i ∧ i ≤ max - 1
  | .putchar _ => True

/-- What is required of reading a line: `out` is the edited line and NUL,
without a backspace in it; the call waits only where the line has not
ended; and every write is inside the buffer. -/
structure ReadsLine (polls : List UInt8) (out : Int → UInt8) (max : Int)
    (outWhileTyping : Bool) : Prop where
  line : ∀ out₁,
    (benosTerminalReadline polls out max outWhileTyping).val = some out₁ →
    ∃ line, editLine (max - 1).toNat [] (keysOf polls) = some line
      ∧ Holds out₁ line ∧ out₁ line.length = 0 ∧ 0x08 ∉ line
  waits : (benosTerminalReadline polls out max outWhileTyping).val = none →
    editLine (max - 1).toNat [] (keysOf polls) = none
  inside : Logs (WritesInside max)
    (benosTerminalReadline polls out max outWhileTyping)

-- ================================================================== the polls

theorem benosGetkeyblock_none {polls : List UInt8}
    (h : benosGetkeyblock polls = none) : keysOf polls = [] := by
  induction polls with
  | nil => rfl
  | cons val polls ih =>
      rw [benosGetkeyblock] at h
      split at h
      case isTrue hzero =>
          rw [keysOf, List.filter_cons_of_neg (by simp [hzero])]
          exact ih h
      case isFalse => cases h

theorem benosGetkeyblock_some {polls rest : List UInt8} {key : UInt8}
    (h : benosGetkeyblock polls = some (key, rest)) :
    keysOf polls = key :: keysOf rest ∧ key ≠ 0 := by
  induction polls with
  | nil => cases h
  | cons val polls ih =>
      rw [benosGetkeyblock] at h
      split at h
      case isTrue hzero =>
          rw [keysOf, List.filter_cons_of_neg (by simp [hzero])]
          exact ih h
      case isFalse hne =>
          cases h
          rw [keysOf, List.filter_cons_of_pos (by simp [hne])]
          exact ⟨rfl, hne⟩

-- =================================================================== the loop

theorem Holds.dropLast {out : Int → UInt8} {line : List UInt8}
    (h : Holds out line) (c : UInt8) :
    Holds (Function.update out ((line.length : Int) - 1) c)
      line.dropLast := by
  intro j hj
  rw [List.length_dropLast] at hj
  rw [Function.update_of_ne (by omega), List.getElem_dropLast]
  exact h j (by omega)

theorem Holds.snoc {out : Int → UInt8} {line : List UInt8}
    (h : Holds out line) (c : UInt8) :
    Holds (Function.update out (line.length : Int) c) (line ++ [c]) := by
  intro j hj
  rw [List.length_append, List.length_singleton] at hj
  by_cases hlast : j = line.length
  · subst hlast
    rw [Function.update_self, List.getElem_concat_length rfl]
  · rw [Function.update_of_ne (by omega),
      List.getElem_append_left (by omega)]
    exact h j (by omega)

/-- A line that is full has ended. -/
theorem codeLine_full {n : Nat} {held : List UInt8} (h : n ≤ held.length)
    (keys : List UInt8) : codeLine n held keys = some held := by
  cases keys with
  | nil => exact if_pos h
  | cons key keys => exact if_pos h

/-- The loop does what `codeLine` says: it ends where that has a line,
with the line in `out` and its length for the index. -/
structure LoopReads (max : Int) (n : Nat)
    (x : Traced LineEffect (Option (Int × (Int → UInt8))))
    (coded : Option (List UInt8)) : Prop where
  ends : ∀ line, coded = some line → line.length ≤ n ∧ ∃ out,
    x.val = some ((line.length : Int), out) ∧ Holds out line
  waits : coded = none → x.val = none
  inside : Logs (WritesInside max) x

/-- A line that has ended is in `out`. -/
theorem LoopReads.ended {max : Int} {n : Nat} {held : List UInt8}
    {out : Int → UInt8} (hlen : held.length ≤ n) (h : Holds out held) :
    LoopReads max n (pure (some ((held.length : Int), out))) (some held) := by
  refine ⟨fun line heq => ?_, fun heq => ?_, logs_pure _⟩
  · cases heq
    exact ⟨hlen, out, rfl, h⟩
  · cases heq

/-- Behind an echo and a store inside the buffer the loop goes on. -/
theorem LoopReads.behind {max : Int} {n : Nat} {flag : Bool} {key c : UInt8}
    {i : Int} {out : Int → UInt8}
    {f : (Int → UInt8) → Traced LineEffect (Option (Int × (Int → UInt8)))}
    {coded : Option (List UInt8)} (hi : 0 ≤ i ∧ i ≤ max - 1)
    (h : LoopReads max n (f (Function.update out i c)) coded) :
    LoopReads max n
      (echo flag key >>= fun _ => storeOut out i c >>= f) coded := by
  refine ⟨h.ends, h.waits, logs_bind ?_ (logs_bind ?_ h.inside)⟩
  · unfold echo
    split
    · apply logs_look
      trivial
    · exact logs_pure _
  · unfold storeOut
    apply logs_look
    exact hi

/-- The induction is on the polls that are left; the held characters are
in `out`, and the index is their number. -/
theorem readlineLoop_reads {max : Int} {n : Nat} (hmax : max - 1 = n)
    (flag : Bool) (k : Nat) :
    ∀ (polls held : List UInt8) (out : Int → UInt8),
      polls.length < k → held.length ≤ n → Holds out held →
      LoopReads max n (readlineLoop max flag polls held.length out)
        (codeLine n held (keysOf polls)) := by
  induction k with
  | zero => exact fun _ _ _ hk => absurd hk (Nat.not_lt_zero _)
  | succ k ih =>
      intro polls held out hk hlen hholds
      rw [readlineLoop]
      by_cases hfull : (held.length : Int) < max - 1
      · have hopen : ¬ n ≤ held.length := by omega
        rw [if_pos hfull]
        split
        case h_1 hblock =>
          rw [benosGetkeyblock_none hblock, codeLine, if_neg hopen]
          exact ⟨fun _ h => absurd h (Option.some_ne_none _).symm,
            fun _ => rfl, logs_pure _⟩
        case h_2 key rest hblock =>
          obtain ⟨hkeys, -⟩ := benosGetkeyblock_some hblock
          have hrest := benosGetkeyblock_length hblock
          rw [hkeys, codeLine, if_neg hopen]
          by_cases hcr : key = 13
          · rw [if_pos hcr, if_pos hcr]
            exact LoopReads.ended hlen hholds
          · rw [if_neg hcr, if_neg hcr]
            by_cases hback : key = 0x08 ∧ held ≠ []
            · -- the last held character goes
              have hpos : 1 ≤ held.length := List.length_pos_iff.mpr hback.2
              rw [if_pos hback]
              simp only [hback.1, true_and]
              rw [if_pos (by omega)]
              apply LoopReads.behind ⟨by omega, by omega⟩
              have hnext := ih rest held.dropLast _ (by omega)
                (by rw [List.length_dropLast]; omega) (hholds.dropLast 0x00)
              rw [List.length_dropLast] at hnext
              rwa [show (held.length : Int) - 2 + 1
                = ((held.length - 1 : Nat) : Int) by omega]
            · -- the key is held
              have hstore : ¬ (key = 0x08 ∧ (held.length : Int) ≥ 1) := by
                rintro ⟨hbs, hpos⟩
                apply hback
                refine ⟨hbs, List.length_pos_iff.mp (by omega)⟩
              rw [if_neg hback, if_neg hstore]
              apply LoopReads.behind ⟨by omega, by omega⟩
              have hnext := ih rest (held ++ [key]) _ (by omega)
                (by rw [List.length_append, List.length_singleton]; omega)
                (hholds.snoc key)
              rw [List.length_append, List.length_singleton] at hnext
              exact hnext
      · rw [if_neg hfull, codeLine_full (by omega)]
        exact LoopReads.ended hlen hholds

-- ====================================================== the two ways to edit

/-- A character of the edited line was held or is a key, and no
backspace. -/
theorem editLine_mem {n : Nat} {line : List UInt8} (keys : List UInt8) :
    ∀ {held : List UInt8}, editLine n held keys = some line →
      ∀ c ∈ line, c ∈ held ∨ (c ∈ keys ∧ c ≠ 0x08) := by
  induction keys with
  | nil =>
      intro held h c hc
      rw [editLine] at h
      split at h <;> cases h
      exact Or.inl hc
  | cons key keys ih =>
      intro held h c hc
      rw [editLine] at h
      split at h
      · cases h
        exact Or.inl hc
      · split at h
        · cases h
          exact Or.inl hc
        · split at h
          · rcases ih h c hc with hheld | ⟨hkey, hne⟩
            · exact Or.inl (List.mem_of_mem_dropLast hheld)
            · exact Or.inr ⟨List.mem_cons_of_mem _ hkey, hne⟩
          · next hbs =>
              rcases ih h c hc with hheld | ⟨hkey, hne⟩
              · rcases List.mem_append.mp hheld with hheld | hlast
                · exact Or.inl hheld
                · obtain rfl := List.mem_singleton.mp hlast
                  exact Or.inr ⟨List.mem_cons_self, hbs⟩
              · exact Or.inr ⟨List.mem_cons_of_mem _ hkey, hne⟩

/-- A character of the line as the code makes it was held or is a key. -/
theorem codeLine_mem {n : Nat} {line : List UInt8} (keys : List UInt8) :
    ∀ {held : List UInt8}, codeLine n held keys = some line →
      ∀ c ∈ line, c ∈ held ∨ c ∈ keys := by
  induction keys with
  | nil =>
      intro held h c hc
      rw [codeLine] at h
      split at h <;> cases h
      exact Or.inl hc
  | cons key keys ih =>
      intro held h c hc
      rw [codeLine] at h
      split at h
      · cases h
        exact Or.inl hc
      · split at h
        · cases h
          exact Or.inl hc
        · split at h
          · rcases ih h c hc with hheld | hkey
            · exact Or.inl (List.mem_of_mem_dropLast hheld)
            · exact Or.inr (List.mem_cons_of_mem _ hkey)
          · rcases ih h c hc with hheld | hkey
            · rcases List.mem_append.mp hheld with hheld | hlast
              · exact Or.inl hheld
              · obtain rfl := List.mem_singleton.mp hlast
                exact Or.inr List.mem_cons_self
            · exact Or.inr (List.mem_cons_of_mem _ hkey)

/-- What the code holds: the characters that are held, behind a stray
backspace or not. -/
def withStray (odd : Bool) (held : List UInt8) : List UInt8 :=
  if odd then 0x08 :: held else held

theorem length_withStray (odd : Bool) (held : List UInt8) :
    (withStray odd held).length = held.length + odd.toNat := by
  cases odd <;> rfl

/-- The two ways to edit come to the same line exactly where no stray
backspace is held at its end. -/
theorem codeLine_eq_editLine_iff {n : Nat} (keys : List UInt8) :
    ∀ {held : List UInt8} {odd : Bool}, 0x08 ∉ held →
      (codeLine n (withStray odd held) keys = editLine n held keys
        ↔ StraysPaired n odd held keys) := by
  induction keys with
  | nil =>
      intro held odd hheld
      rw [codeLine, editLine, StraysPaired, length_withStray]
      cases odd with
      | false => exact iff_of_true rfl fun _ => rfl
      | true =>
          by_cases hfull : n ≤ held.length + true.toNat
          · rw [if_pos hfull]
            refine iff_of_false (fun h => ?_) fun h => ?_
            · split at h
              · have hlen := congrArg List.length (Option.some.inj h)
                rw [length_withStray] at hlen
                exact absurd hlen (by simp)
              · cases h
            · exact absurd (h hfull) Bool.noConfusion
          · have hopen : ¬ n ≤ held.length := fun h => hfull (by omega)
            rw [if_neg hfull, if_neg hopen]
            exact iff_of_true rfl fun h => absurd h hfull
  | cons key keys ih =>
      intro held odd hheld
      rw [codeLine, StraysPaired, length_withStray]
      by_cases hfull : n ≤ held.length + odd.toNat
      · -- the code's line has ended
        rw [if_pos hfull, if_pos hfull]
        cases odd with
        | false =>
            have hfull' : n ≤ held.length := hfull
            rw [editLine, if_pos hfull']
            exact iff_of_true rfl rfl
        | true =>
            refine iff_of_false (fun h => ?_) Bool.noConfusion
            have hmem := editLine_mem _ h.symm 0x08 List.mem_cons_self
            rcases hmem with hmem | ⟨-, hne⟩
            · exact hheld hmem
            · exact hne rfl
      · have hopen : ¬ n ≤ held.length := fun h => hfull (by omega)
        rw [if_neg hfull, if_neg hfull, editLine, if_neg hopen]
        by_cases hcr : key = 13
        · rw [if_pos hcr, if_pos hcr, if_pos hcr]
          cases odd with
          | false => exact iff_of_true rfl rfl
          | true =>
              refine iff_of_false (fun h => ?_) Bool.noConfusion
              have hlen := congrArg List.length (Option.some.inj h)
              rw [length_withStray] at hlen
              exact absurd hlen (by simp)
        · rw [if_neg hcr, if_neg hcr, if_neg hcr]
          by_cases hbs : key = 0x08
          · subst hbs
            rw [if_pos rfl, if_pos rfl]
            have hdrop : 0x08 ∉ held.dropLast := fun h =>
              hheld (List.mem_of_mem_dropLast h)
            rw [← ih hdrop]
            by_cases hempty : held = []
            · -- on an empty line the stray one comes or goes
              subst hempty
              cases odd <;> rfl
            · have hne : withStray odd held ≠ [] := by
                cases odd with
                | false => exact hempty
                | true => exact List.cons_ne_nil _ _
              have hlast : (withStray odd held).dropLast
                  = withStray odd held.dropLast := by
                cases odd with
                | false => rfl
                | true => exact List.dropLast_cons_of_ne_nil hempty
              rw [if_pos ⟨rfl, hne⟩, if_neg hempty, hlast]
          · have hsnoc : 0x08 ∉ held ++ [key] := by
              intro h
              rcases List.mem_append.mp h with h | h
              · exact hheld h
              · exact hbs (List.mem_singleton.mp h).symm
            have hlast : withStray odd held ++ [key]
                = withStray odd (held ++ [key]) := by
              cases odd <;> rfl
            rw [if_neg (fun h => hbs h.1), if_neg hbs, if_neg hbs, hlast]
            exact ih hsnoc

-- ==================================================================== the call

/-- A buffer holds one line without a NUL in it before its NUL. -/
theorem Holds.unique {out : Int → UInt8} {line line₁ : List UInt8}
    (h : Holds out line) (hend : out line.length = 0) (hne : 0 ∉ line)
    (h₁ : Holds out line₁) (hend₁ : out line₁.length = 0) (hne₁ : 0 ∉ line₁) :
    line = line₁ := by
  have hlen : line.length = line₁.length := by
    rcases Nat.lt_trichotomy line.length line₁.length with hlt | heq | hlt
    · have hzero := h₁ _ hlt
      rw [hend] at hzero
      exact absurd (hzero ▸ List.getElem_mem hlt) hne₁
    · exact heq
    · have hzero := h _ hlt
      rw [hend₁] at hzero
      exact absurd (hzero ▸ List.getElem_mem hlt) hne
  refine List.ext_getElem hlen fun j hj hj' => ?_
  rw [← h j hj, ← h₁ j hj']

theorem zero_notMem_keysOf (polls : List UInt8) : 0 ∉ keysOf polls := by
  intro h
  have hne := (List.mem_filter.mp h).2
  simp at hne

/-- The call leaves the line the code edits, and NUL. -/
theorem benosTerminalReadline_reads {max : Int} (hmax : 2 ≤ max)
    (flag : Bool) (polls : List UInt8) (out : Int → UInt8) :
    (∀ line, codeLine (max - 1).toNat [] (keysOf polls) = some line →
      ∃ out₁, (benosTerminalReadline polls out max flag).val = some out₁
        ∧ Holds out₁ line ∧ out₁ line.length = 0 ∧ 0 ∉ line)
    ∧ (codeLine (max - 1).toNat [] (keysOf polls) = none →
      (benosTerminalReadline polls out max flag).val = none)
    ∧ Logs (WritesInside max) (benosTerminalReadline polls out max flag) := by
  have hlast : max - 1 = ((max - 1).toNat : Int) := by omega
  have hloop := readlineLoop_reads hlast flag (polls.length + 1) polls [] out
    (by omega) (Nat.zero_le _) (fun j hj => absurd hj (Nat.not_lt_zero j))
  have hcases := hloop.inside
  unfold benosTerminalReadline
  cases hcode : codeLine (max - 1).toNat [] (keysOf polls) with
  | none =>
      have hwaits := hloop.waits hcode
      refine ⟨fun _ h => absurd h (Option.some_ne_none _).symm, fun _ => ?_,
        logs_bind hcases ?_⟩
      · rw [val_bind]
        simp only [List.length_nil, Nat.cast_zero] at hwaits
        rw [hwaits]
        rfl
      · simp only [List.length_nil, Nat.cast_zero] at hwaits
        rw [hwaits]
        exact logs_pure _
  | some line =>
      obtain ⟨hlen, out₁, hval, hholds⟩ := hloop.ends line hcode
      simp only [List.length_nil, Nat.cast_zero] at hval
      refine ⟨fun line₁ h => ?_, fun h => (by cases h), logs_bind hcases ?_⟩
      · cases h
        refine ⟨Function.update out₁ line.length 0x00, ?_, ?_, ?_, ?_⟩
        · rw [val_bind, hval]
          rfl
        · intro j hj
          rw [Function.update_of_ne (by omega)]
          exact hholds j hj
        · exact Function.update_self _ _ _
        · intro hzero
          rcases codeLine_mem _ hcode 0 hzero with h | h
          · cases h
          · exact zero_notMem_keysOf polls h
      · rw [hval]
        apply logs_bind
        · unfold storeOut
          apply logs_look
          exact ⟨by omega, by omega⟩
        · exact logs_pure _

/-- Reading a line gives the edited line exactly where the backspaces that
come on an empty line are paired: for every sequence of polls, and every
size of the buffer from 2 on. -/
theorem readline_exact {max : Int} (hmax : 2 ≤ max) (polls : List UInt8)
    (out : Int → UInt8) (outWhileTyping : Bool) :
    ReadsLine polls out max outWhileTyping
      ↔ StraysPaired (max - 1).toNat false [] (keysOf polls) := by
  obtain ⟨hends, hwaits, hinside⟩ :=
    benosTerminalReadline_reads hmax outWhileTyping polls out
  have hsame : codeLine (max - 1).toNat (withStray false []) (keysOf polls)
      = editLine (max - 1).toNat [] (keysOf polls)
        ↔ StraysPaired (max - 1).toNat false [] (keysOf polls) :=
    codeLine_eq_editLine_iff (keysOf polls) List.not_mem_nil
  have hheld : withStray false [] = [] := rfl
  rw [hheld] at hsame
  rw [← hsame]
  constructor
  · intro h
    cases hcode : codeLine (max - 1).toNat [] (keysOf polls) with
    | none => exact (h.waits (hwaits hcode)).symm
    | some line =>
        obtain ⟨out₁, hval, hholds, hend, hne⟩ := hends line hcode
        obtain ⟨line₁, hedit, hholds₁, hend₁, -⟩ := h.line out₁ hval
        have hne₁ : 0 ∉ line₁ := by
          intro hzero
          rcases editLine_mem _ hedit 0 hzero with hmem | ⟨hmem, -⟩
          · cases hmem
          · exact zero_notMem_keysOf polls hmem
        rw [hedit, hholds.unique hend hne hholds₁ hend₁ hne₁]
  · intro heq
    refine ⟨fun out₁ hval => ?_, fun hval => ?_, hinside⟩
    · cases hcode : codeLine (max - 1).toNat [] (keysOf polls) with
      | none =>
          rw [hwaits hcode] at hval
          cases hval
      | some line =>
          obtain ⟨out₂, hval₂, hholds, hend, -⟩ := hends line hcode
          rw [hval] at hval₂
          cases hval₂
          have hedit := heq.symm.trans hcode
          refine ⟨line, hedit, hholds, hend, fun hbs => ?_⟩
          rcases editLine_mem _ hedit 0x08 hbs with hmem | ⟨-, hne⟩
          · cases hmem
          · exact hne rfl
    · cases hcode : codeLine (max - 1).toNat [] (keysOf polls) with
      | none => rw [← heq, hcode]
      | some line =>
          obtain ⟨out₁, hval₁, -⟩ := hends line hcode
          rw [hval] at hval₁
          cases hval₁

/-- Two letters, a backspace and a carriage return: one letter. -/
theorem readline_exact_one_deleted :
    ReadsLine [0x61, 0, 0x62, 0x08, 13] (fun _ => 0xFF) 1024 true := by
  apply (readline_exact (by omega) _ _ _).mpr
  simp [keysOf, StraysPaired]

/-- It is not so for every sequence of keys: a backspace on an empty line
is kept in it. -/
theorem readline_keeps_backspace :
    ¬ ∀ (polls : List UInt8) (out : Int → UInt8) (max : Int) (flag : Bool),
        2 ≤ max → ReadsLine polls out max flag := by
  intro hall
  have hreads := hall [0x08, 13] (fun _ => 0) 1024 false (by omega)
  obtain ⟨hends, -, -⟩ :=
    benosTerminalReadline_reads (show (2 : Int) ≤ 1024 by omega) false
      [0x08, 13] (fun _ => 0)
  obtain ⟨out₁, hval, hholds, hend, -⟩ := hends [0x08] (by
    simp [keysOf, codeLine])
  obtain ⟨line, hedit, -, hend₁, -⟩ := hreads.line out₁ hval
  have hempty : line = [] := by
    simpa [keysOf, editLine] using hedit.symm
  subst hempty
  have hfirst := hholds 0 Nat.one_pos
  rw [List.getElem_cons_zero] at hfirst
  simp only [List.length_nil] at hend₁
  rw [hend₁] at hfirst
  cases hfirst

end BenOS.Stdlib
