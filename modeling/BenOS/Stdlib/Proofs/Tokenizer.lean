/-
The calls of `strtok` that take a string apart.

A call looks at the bytes in front of it only, up to the NUL of the
string, and writes one byte behind its token (`strtokLogged_within`). What
the calls before it have left is the string behind the last token. So with
no tokenization in progress the calls give the runs of the string one by
one, then null, and are then where they began (`strtok_runs`, by
induction on the runs).
-/
import BenOS.Stdlib.Proofs.Strtok
import BenOS.Stdlib.Tokenizer

namespace BenOS.Stdlib

open Lib Traced

-- =================================================================== erasure

theorem val_strtokSkipLogged (mem : Nat → UInt8) (delimiters : List UInt8)
    (k : Nat) :
    ∀ p, (strtokSkipLogged mem delimiters k p).val
      = strtokSkip mem delimiters k p := by
  induction k with
  | zero => exact fun _ => rfl
  | succ k ih =>
      intro p
      rw [strtokSkipLogged, strtokSkip, val_bind, val_look, val_ite, ih]
      rfl

theorem val_strtokEndLogged (delimiters : List UInt8) (k : Nat) :
    ∀ sp mem, (strtokEndLogged delimiters k sp mem).val
      = strtokEnd delimiters k sp mem := by
  induction k with
  | zero => exact fun _ _ => rfl
  | succ k ih =>
      intro sp mem
      rw [strtokEndLogged, strtokEnd, val_bind, val_look, val_ite, val_ite, ih]
      rfl

/-- Forgetting what it touches gives `strtok` back. -/
theorem val_strtokLogged (size : Nat) (str : Option Nat)
    (delimiters : List UInt8) (s : Tok) :
    (strtokLogged size str delimiters s).val
      = strtok size str delimiters s := by
  unfold strtokLogged strtok
  cases s.sp.or str with
  | none => rfl
  | some sp =>
      simp only [val_bind, val_strtokSkipLogged, Option.bind_eq_bind]
      cases strtokSkip s.mem delimiters (size - sp) sp with
      | none => rfl
      | some pStart =>
          rw [val_bind, val_look, Option.bind_some]
          by_cases hend : s.mem pStart = 0x00
          · rw [if_pos hend, if_pos hend]
            rfl
          · rw [if_neg hend, if_neg hend, val_bind, val_strtokEndLogged]
            cases strtokEnd delimiters (size - pStart) pStart s.mem with
            | none => rfl
            | some r => rfl

-- ==================================================================== touches

/-- Between two places. -/
def Within (first last : Nat) (b : Touch) : Prop :=
  first ≤ b.place ∧ b.place ≤ last

theorem Within.mono {α : Type} {first last first' last' : Nat}
    {x : Traced Touch α} (h : Logs (Within first last) x)
    (hfirst : first' ≤ first) (hlast : last ≤ last') :
    Logs (Within first' last') x := by
  intro b hb
  obtain ⟨hle, hge⟩ := h b hb
  exact ⟨Nat.le_trans hfirst hle, Nat.le_trans hge hlast⟩

variable {mem : Nat → UInt8} {ds : List UInt8}

/-- The first loop stays in the string. -/
theorem strtokSkipLogged_within (hd : 0x00 ∉ ds) (cs : List UInt8) :
    ∀ {p k : Nat}, IsStr mem p cs →
      Logs (Within p (p + cs.length)) (strtokSkipLogged mem ds k p) := by
  induction cs with
  | nil =>
      intro p k h
      cases k with
      | zero => exact logs_pure none
      | succ k =>
          have hnot : mem p ∉ ds := by
            rw [show mem p = 0x00 from h]
            exact hd
          rw [strtokSkipLogged]
          refine logs_bind (logs_look ⟨Nat.le_refl p, Nat.le_refl p⟩ _) ?_
          rw [val_look, if_neg hnot]
          exact logs_pure _
  | cons c cs ih =>
      intro p k h
      obtain ⟨-, -, hrest⟩ := h
      cases k with
      | zero => exact logs_pure none
      | succ k =>
          rw [strtokSkipLogged]
          have hhere : Within p (p + (c :: cs).length) (.read p) :=
            ⟨Nat.le_refl p, Nat.le_add_right _ _⟩
          refine logs_bind (logs_look hhere _) ?_
          rw [val_look, List.length_cons]
          split
          case isTrue =>
            exact Within.mono (ih hrest) (Nat.le_succ p) (by omega)
          case isFalse => exact logs_pure _

/-- The second loop stays in the string. -/
theorem strtokEndLogged_within (cs : List UInt8) :
    ∀ {p k : Nat}, IsStr mem p cs →
      Logs (Within p (p + cs.length)) (strtokEndLogged ds k p mem) := by
  induction cs with
  | nil =>
      intro p k h
      cases k with
      | zero => exact logs_pure none
      | succ k =>
          have hend : mem p = 0x00 := h
          rw [strtokEndLogged]
          refine logs_bind (logs_look ⟨Nat.le_refl p, Nat.le_refl p⟩ _) ?_
          rw [val_look, if_pos hend]
          exact logs_pure _
  | cons c cs ih =>
      intro p k h
      obtain ⟨hne, hp, hrest⟩ := h
      cases k with
      | zero => exact logs_pure none
      | succ k =>
          rw [strtokEndLogged]
          have hhere : ∀ b : Touch, b.place = p →
              Within p (p + (c :: cs).length) b := fun b hb =>
            ⟨Nat.le_of_eq hb.symm, hb ▸ Nat.le_add_right _ _⟩
          refine logs_bind (logs_look (hhere (.read p) rfl) _) ?_
          rw [val_look, hp, if_neg hne]
          split
          case isTrue => exact logs_look (hhere (.write p) rfl) _
          case isFalse =>
            rw [List.length_cons]
            exact Within.mono (ih hrest) (Nat.le_succ p) (by omega)

/-- A call touches nothing but the string in front of it. -/
theorem strtokLogged_within (hd : 0x00 ∉ ds) (size : Nat) (str : Option Nat)
    {s : Tok} {p : Nat} {cs : List UInt8} (hp : s.sp.or str = some p)
    (h : IsStr s.mem p cs) (hsize : p + cs.length < size) :
    Logs (Within p (p + cs.length)) (strtokLogged size str ds s) := by
  obtain ⟨t, hskip, hstr, hend⟩ :=
    strtokSkip_spec (k := size - p) hd cs h (by omega)
  have hle := (List.dropWhile_suffix (l := cs) (delim ds)).length_le
  have hpt : p ≤ t := by omega
  unfold strtokLogged
  rw [hp]
  refine logs_bind (strtokSkipLogged_within hd cs h) ?_
  rw [val_strtokSkipLogged, hskip]
  refine logs_bind (logs_look ⟨hpt, by rw [Touch.place]; omega⟩ _) ?_
  rw [val_look]
  split
  case isTrue => exact logs_pure _
  case isFalse =>
    refine logs_bind ?_ ?_
    · exact Within.mono (strtokEndLogged_within _ hstr) hpt (by omega)
    · split
      · exact logs_pure _
      · exact logs_pure _

-- ===================================================================== a call

/-- `k` calls, the first one set apart. -/
theorem strtokCalls_succ {size k : Nat} {str token : Option Nat} {s s' : Tok}
    (h : strtok size str ds s = some (token, s')) :
    (strtokCalls size ds (k + 1) str s).val
        = (strtokCalls size ds k none s').val.map
            (fun r => (token :: r.1, r.2))
      ∧ (strtokCalls size ds (k + 1) str s).log
        = (strtokLogged size str ds s).log
          ++ (strtokCalls size ds k none s').log := by
  rw [← val_strtokLogged] at h
  rw [strtokCalls, val_bind, log_bind, h]
  simp only [val_bind, log_bind]
  cases (strtokCalls size ds k none s').val with
  | none => exact ⟨rfl, congrArg _ (List.append_nil _)⟩
  | some r => exact ⟨rfl, congrArg _ (List.append_nil _)⟩

-- ================================================================== the calls

/-- The tokens are the words, one behind the other, between two places. -/
def Enumerates (mem : Nat → UInt8) (last : Nat) :
    Nat → List Nat → List (List UInt8) → Prop
  | _, [], [] => True
  | first, t :: tokens, w :: ws =>
      first ≤ t ∧ IsStr mem t w ∧ t + w.length ≤ last
        ∧ Enumerates mem last (t + w.length) tokens ws
  | _, _, _ => False

theorem Enumerates.mono {last first first' : Nat} {tokens : List Nat}
    {ws : List (List UInt8)} (h : Enumerates mem last first tokens ws)
    (hfirst : first' ≤ first) : Enumerates mem last first' tokens ws := by
  cases tokens with
  | nil => cases ws with
    | nil => trivial
    | cons w ws => exact h
  | cons t tokens => cases ws with
    | nil => exact h
    | cons w ws =>
        obtain ⟨ht, hrest⟩ := h
        exact ⟨Nat.le_trans hfirst ht, hrest⟩

/-- What the calls that take apart the string at `p` give: its runs, then
null. Of the bytes they write none but delimiters, behind `p`. -/
structure TakesApart (ds cs : List UInt8) (p : Nat) (mem : Nat → UInt8)
    (calls : Traced Touch (Option (List (Option Nat) × Tok)))
    (tokens : List Nat) (s : Tok) : Prop where
  returns : calls.val = some (tokens.map some ++ [none], s)
  idle : s.sp = none
  runs : Enumerates s.mem (p + cs.length) p tokens (runsBy (delim ds) cs)
  within : Logs (Within p (p + cs.length)) calls
  before : ∀ i, i ≤ p → s.mem i = mem i
  written : ∀ i, s.mem i = mem i ∨ mem i ∈ ds

/-- Along the calls: the string in front of them gives its runs, then
null. -/
theorem strtokCalls_takesApart (hd : 0x00 ∉ ds) {size : Nat}
    (ws : List (List UInt8)) :
    ∀ {str : Option Nat} {s : Tok} {p : Nat} {cs : List UInt8},
      runsBy (delim ds) cs = ws → s.sp.or str = some p → IsStr s.mem p cs →
      p + cs.length < size →
      ∃ tokens s', TakesApart ds cs p s.mem
        (strtokCalls size ds (ws.length + 1) str s) tokens s' := by
  induction ws with
  | nil =>
      intro str s p cs hruns hp h hsize
      rcases strtok_token hd size str hp h hsize with
        ⟨-, hcall⟩ | ⟨t, q, mem', w, rest, htok, -⟩
      · obtain ⟨hval, hlog⟩ := strtokCalls_succ (k := 0) hcall
        refine ⟨[], ⟨s.mem, none⟩, hval, rfl, ?_, ?_, fun _ _ => rfl,
          fun _ => Or.inl rfl⟩
        · rw [hruns]
          trivial
        · have hfirst := strtokLogged_within hd size str hp h hsize
          intro b hb
          refine hfirst b ?_
          rw [List.length_nil, hlog] at hb
          simpa [strtokCalls] using hb
      · have hcons := htok.runs
        rw [hruns] at hcons
        cases hcons
  | cons w ws ih =>
      intro str s p cs hruns hp h hsize
      rcases strtok_token hd size str hp h hsize with
        ⟨hnil, -⟩ | ⟨t, q, mem', w', rest, htok, hcall⟩
      · rw [hruns] at hnil
        cases hnil
      · have hcons := htok.runs
        rw [hruns] at hcons
        obtain ⟨rfl, hrest⟩ := List.cons.inj hcons
        have hlast := htok.last
        have hfirst := htok.first
        have horder := htok.order
        obtain ⟨tokens, s', hcalls⟩ :=
          @ih none ⟨mem', some q⟩ q rest hrest.symm rfl htok.behind
            (by rw [hlast]; exact hsize)
        obtain ⟨hval, hlog⟩ := strtokCalls_succ (k := ws.length + 1) hcall
        have htoken : IsStr s'.mem t w := by
          apply IsStr.frame w _ htok.token
          exact fun i _ hi => hcalls.before i (by omega)
        have hruns' := hcalls.runs
        rw [← hrest, hlast] at hruns'
        refine ⟨t :: tokens, s', ?_, hcalls.idle, ?_, ?_, ?_, ?_⟩
        · rw [List.length_cons, hval, hcalls.returns]
          rfl
        · rw [hruns]
          exact ⟨hfirst, htoken, by omega, hruns'.mono horder⟩
        · rw [List.length_cons]
          intro b hb
          rw [hlog] at hb
          rcases List.mem_append.mp hb with hb | hb
          · exact strtokLogged_within hd size str hp h hsize b hb
          · have hwithin := hcalls.within
            rw [hlast] at hwithin
            exact Within.mono hwithin (by omega) (Nat.le_refl _) b hb
        · intro i hi
          rw [hcalls.before i (by omega)]
          exact htok.before i (by omega)
        · intro i
          rcases hcalls.written i with hi | hi
          · rw [hi]
            exact htok.written i
          · rcases htok.written i with hi' | hi'
            · exact Or.inr (hi' ▸ hi)
            · exact Or.inr hi'

-- ================================================================ from nothing

/-- For every string and every list of delimiters, with no tokenization in
progress: as many calls as the string has runs, and one more, return the
runs in order and then null, touch nothing outside the string and its NUL,
and leave no tokenization in progress. -/
theorem strtok_runs {cs : List UInt8} {p : Nat} {s : Tok}
    (hd : 0x00 ∉ ds) (hidle : s.sp = none) (h : IsStr s.mem p cs)
    (hend : p + cs.length < memorySize) :
    ∃ tokens s', TakesApart ds cs p s.mem
      (strtokCalls memorySize ds ((runsBy (delim ds) cs).length + 1) (some p)
        s) tokens s' := by
  refine strtokCalls_takesApart hd _ rfl ?_ h hend
  rw [hidle]
  rfl

/-- Two runs between delimiters of two kinds. -/
theorem strtok_runs_two :
    ∃ tokens s', TakesApart [0x20, 0x2C] [0x20, 0x61, 0x2C, 0x20, 0x62, 0x20]
      1 (fun i => [0x00, 0x20, 0x61, 0x2C, 0x20, 0x62, 0x20].getD i 0x00)
      (strtokCalls memorySize [0x20, 0x2C] ((runsBy (delim [0x20, 0x2C])
        [0x20, 0x61, 0x2C, 0x20, 0x62, 0x20]).length + 1) (some 1)
        ⟨fun i => [0x00, 0x20, 0x61, 0x2C, 0x20, 0x62, 0x20].getD i 0x00,
          none⟩) tokens s' := by
  have hstr : IsStr
      (fun i => [0x00, 0x20, 0x61, 0x2C, 0x20, 0x62, 0x20].getD i 0x00) 1
      [0x20, 0x61, 0x2C, 0x20, 0x62, 0x20] := by
    simp [IsStr]
  apply strtok_runs (s := ⟨_, none⟩) _ rfl hstr
  · simp [memorySize]
  · decide

end BenOS.Stdlib
