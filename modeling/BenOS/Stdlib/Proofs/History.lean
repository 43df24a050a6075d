/-
What an earlier tokenization does to a later one.

A call of `strtok` with a string of its own begins at the static `sp`
where that is not null (`startsAt_iff`). So along a history the calls
begin at their own strings, and `benos_parse_command` lists words of its
own command only, exactly as long as no tokenization is in progress at any
such call, or one that stands at the very string
(`tokenization_own_string_iff`). A parse in which `benos_malloc` fails
leaves one in progress.
-/
import BenOS.Lib.Run
import BenOS.Stdlib.Proofs.Seen

namespace BenOS.Stdlib

open Lib Traced

-- ======================================================= where a call begins

/-- A call of `strtok` with the string at `str` begins there. -/
def StartsAt (str : Nat) (delimiters : List UInt8) (s : Tok) : Prop :=
  (strtokLogged memorySize (some str) delimiters s).log.head?
    = some (.read str)

instance (str : Nat) (delimiters : List UInt8) (s : Tok) :
    Decidable (StartsAt str delimiters s) :=
  inferInstanceAs (Decidable (_ = _))

/-- A call looks first at where it goes on, if that is in the memory. -/
theorem strtokLogged_head {str : Option Nat} {p : Nat} {s : Tok}
    (hp : s.sp.or str = some p) (delimiters : List UInt8) :
    (strtokLogged memorySize str delimiters s).log.head?
      = if p < memorySize then some (.read p) else none := by
  unfold strtokLogged
  rw [hp]
  simp only [log_bind]
  by_cases hlt : p < memorySize
  · obtain ⟨k, hk⟩ : ∃ k, memorySize - p = k + 1 :=
      ⟨memorySize - p - 1, by omega⟩
    rw [hk, if_pos hlt, strtokSkipLogged]
    rfl
  · rw [Nat.sub_eq_zero_of_le (Nat.not_lt.mp hlt), if_neg hlt]
    rfl

/-- It begins at its string exactly where no tokenization is in progress,
or one that stands there. -/
theorem startsAt_iff {str : Nat} (hstr : str < memorySize)
    (delimiters : List UInt8) (s : Tok) :
    StartsAt str delimiters s ↔ s.sp = none ∨ s.sp = some str := by
  unfold StartsAt
  cases hsp : s.sp with
  | none =>
      rw [strtokLogged_head (p := str) (by rw [hsp]; rfl), if_pos hstr]
      exact iff_of_true rfl (Or.inl rfl)
  | some q =>
      rw [strtokLogged_head (p := q) (by rw [hsp]; rfl)]
      by_cases hq : q < memorySize
      · rw [if_pos hq]
        constructor
        · intro h
          have hread := Option.some.inj h
          rw [Touch.read.inj hread]
          exact Or.inr rfl
        · rintro (h | h)
          · cases h
          · rw [Option.some.inj h]
      · rw [if_neg hq]
        refine iff_of_false (Option.some_ne_none _).symm ?_
        rintro (h | h)
        · cases h
        · exact hq (Option.some.inj h ▸ hstr)

-- ==================================================================== a parse

/-- Of `m` calls of `benos_malloc` the first ones succeed, up to one that
fails. -/
theorem exists_first_failure (malloc : Nat → Option UInt32) (m : Nat) :
    ∃ j, j ≤ m ∧ (∀ i, i < j → malloc i ≠ none)
      ∧ (j < m → malloc j = none) := by
  induction m with
  | zero =>
      exact ⟨0, Nat.le_refl 0, fun i hi => absurd hi (Nat.not_lt_zero i),
        fun h => absurd h (Nat.lt_irrefl 0)⟩
  | succ m ih =>
      obtain ⟨j, hj, hbefore, hfails⟩ := ih
      by_cases hnext : j = m ∧ malloc m ≠ none
      · obtain ⟨rfl, hm⟩ := hnext
        refine ⟨j + 1, Nat.le_refl _, fun i hi => ?_, fun h => ?_⟩
        · rcases Nat.lt_succ_iff_lt_or_eq.mp hi with hlt | rfl
          · exact hbefore i hlt
          · exact hm
        · exact absurd h (Nat.lt_irrefl _)
      · refine ⟨j, Nat.le_succ_of_le hj, hbefore, fun _ => ?_⟩
        by_cases hlt : j < m
        · exact hfails hlt
        · have heq : j = m := by omega
          rw [heq]
          by_contra hm
          exact hnext ⟨heq, hm⟩

/-- The calls of `benos_malloc` that succeed give memory of their own. -/
def Distinct (malloc : Nat → Option UInt32) : Prop :=
  ∀ i j, malloc i ≠ none → malloc i = malloc j → i = j

/-- A parse that begins at its own buffer returns a list of the words of
its command: of the first ones, where `benos_malloc` fails. -/
theorem benosParseCommandIn_words {malloc : Nat → Option UInt32}
    {scommand command : Nat} {max : Int} {s : Tok} {cs : List UInt8}
    (hmalloc : Distinct malloc) (hmax : max < scommandSize)
    (hsp : s.sp = none ∨ s.sp = some scommand)
    (hfit : scommand + scommandSize ≤ memorySize)
    (h : IsStr s.mem command cs)
    (hapart : command + cs.length < scommand
      ∨ scommand + scommandSize ≤ command) (nodes : Nodes) :
    ∃ j root nodes' s', benosParseCommandIn malloc scommand command max nodes s
        = some (root, nodes', s')
      ∧ HoldsWords nodes' root ((commandWords cs).take j) := by
  obtain ⟨j, hj, hgives, hfails⟩ :=
    exists_first_failure malloc (commandWords cs).length
  have hmallocs : Mallocs malloc 0 j :=
    ⟨fun i _ => hgives i, fun i i' _ hi _ _ => hmalloc i i' (hgives i hi)⟩
  obtain ⟨sp, hseen, hor⟩ : ∃ sp : Option Nat,
      s.sp = sp.map (scommand + ·) ∧ sp.or (some 0) = some 0 := by
    rcases hsp with hsp | hsp
    · exact ⟨none, hsp, rfl⟩
    · exact ⟨some 0, hsp, rfl⟩
  obtain ⟨root, nodes', sp', hcall, hwords, -, -⟩ :=
    benosParseCommand_words (IsStr.shift (p := 0) cs h) hmax hor hj hfails
      hmallocs (fun i => s.mem (scommand + i)) nodes
  obtain ⟨s', hcall', -⟩ :=
    benosParseCommandIn_seen hseen hfit h hapart hcall
  exact ⟨j, root, nodes', s', hcall', hwords⟩

-- ================================================================== histories

/-- What the program may pass: strings that are not null, a buffer apart
from the command, and allocations with memory of their own. -/
def WellFormed (s : TokRun) : TokOp → TokRun → Prop
  | .strtok (some str) _, _ => 0 < str ∧ str < memorySize
  | .parse malloc scommand command _, _ =>
      0 < scommand ∧ scommand + scommandSize ≤ memorySize
        ∧ (∀ cs, IsStr s.tok.mem command cs →
            command + cs.length < scommand
              ∨ scommand + scommandSize ≤ command)
        ∧ Distinct malloc
  | _, _ => True

/-- The call tokenizes its own string: `strtok` begins at `str`, and
`benos_parse_command` in its buffer, so that its list holds words of the
command and no others. -/
def OwnString (s : TokRun) : TokOp → TokRun → Prop
  | .strtok (some str) delimiters, _ => StartsAt str delimiters s.tok
  | .parse _ scommand command max, s' =>
      max < scommandSize →
        StartsAt scommand [0x20]
            { s.tok with
              mem := strncpyIn s.tok.mem scommand command scommandSize }
          ∧ ∀ cs, IsStr s.tok.mem command cs →
            ∃ j, HoldsWords s'.nodes s'.root ((commandWords cs).take j)
  | _, _ => True

/-- No tokenization is in progress where a call has a string of its own, or
it stands at that string. -/
def Unhindered (s : TokRun) : TokOp → TokRun → Prop
  | .strtok (some str) _, _ => s.tok.sp = none ∨ s.tok.sp = some str
  | .parse _ scommand _ max, _ =>
      max < scommandSize → s.tok.sp = none ∨ s.tok.sp = some scommand
  | _, _ => True

/-- One call. -/
theorem ownString_iff {s s' : TokRun} {op : TokOp}
    (hstep : tokStep s op = some s') (hop : WellFormed s op s') :
    OwnString s op s' ↔ Unhindered s op s' := by
  cases op with
  | strtok str delimiters =>
      cases str with
      | none => exact Iff.rfl
      | some str => exact startsAt_iff hop.2 delimiters s.tok
  | parse malloc scommand command max =>
      obtain ⟨-, hfit, hapart, hmalloc⟩ := hop
      have hlt : scommand < memorySize := by
        unfold scommandSize at hfit
        omega
      refine forall_congr' fun hmax => ?_
      rw [startsAt_iff hlt]
      refine and_iff_left_of_imp fun hsp cs hcs => ?_
      obtain ⟨j, root, nodes', tok', hcall, hwords⟩ :=
        benosParseCommandIn_words (s := s.tok) hmalloc hmax hsp hfit hcs
          (hapart cs hcs) s.nodes
      rw [tokStep, hcall] at hstep
      obtain rfl := Option.some.inj hstep
      exact ⟨j, hwords⟩
  | write mem nodes => exact Iff.rfl

/-- A memory with the command "a b c" at 1 and the command "d" at 7. -/
def twoCommands : TokRun where
  tok := ⟨fun i =>
    [0x00, 0x61, 0x20, 0x62, 0x20, 0x63, 0x00, 0x64, 0x00].getD i 0x00, none⟩
  nodes := fun _ => ⟨fun _ => 0xFF, none⟩
  root := none

/-- Along a history the calls tokenize their own strings exactly as long as
none meets a tokenization in progress elsewhere. -/
theorem tokenization_own_string_iff {s : TokRun} {ops : List TokOp}
    (hops : Along tokStep WellFormed s ops) :
    Along tokStep OwnString s ops ↔ Along tokStep Unhindered s ops := by
  apply along_iff_of_inv (I := fun _ => True) (A := WellFormed)
  · exact fun _ _ _ _ _ _ _ => trivial
  · exact fun _ _ _ _ hstep hop => ownString_iff hstep hop
  · trivial
  · exact hops

/-- The first command is parsed, and then the second. -/
def twoParses (malloc : Nat → Option UInt32) : List TokOp :=
  [.parse malloc 16 1 5, .parse malloc 16 7 1]

/-- The calls are made as they should be, where the first leaves the second
command alone. -/
theorem twoParses_wellFormed {malloc : Nat → Option UInt32} {s₁ : TokRun}
    (hmalloc : Distinct malloc)
    (hstep : tokStep twoCommands (.parse malloc 16 1 5) = some s₁)
    (hd : IsStr s₁.tok.mem 7 [0x64]) :
    Along tokStep WellFormed twoCommands (twoParses malloc) := by
  have hop : ∀ {s s' : TokRun} {command : Nat} {max : Int}
      {cs : List UInt8}, IsStr s.tok.mem command cs →
      command + cs.length < 16 →
      WellFormed s (.parse malloc 16 command max) s' := by
    intro s s' command max cs hcs hlt
    have hfit : 16 + scommandSize ≤ memorySize := by
      unfold scommandSize memorySize
      omega
    refine ⟨by omega, hfit, fun cs' hcs' => ?_, hmalloc⟩
    rw [← IsStr.unique cs hcs hcs']
    exact Or.inl hlt
  refine (along_cons_of_step hstep).mpr ⟨?_, ?_⟩
  · have hcommand : IsStr twoCommands.tok.mem 1
        [0x61, 0x20, 0x62, 0x20, 0x63] := by
      simp [twoCommands, IsStr]
    apply hop hcommand
    simp
  · cases hstep' : tokStep s₁ (.parse malloc 16 7 1) with
    | none => exact along_cons_of_none hstep'
    | some s₂ =>
        refine (along_cons_of_step hstep').mpr ⟨hop hd ?_, trivial⟩
        simp

/-- `benos_malloc` with room for three nodes. -/
def mallocThree (k : Nat) : Option UInt32 :=
  [0x01400000, 0x01401000, 0x01402000][k]?

theorem mallocThree_distinct : Distinct mallocThree := by
  intro i j hi heq
  have hlt : i < 3 := by
    by_contra hle
    exact hi (List.getElem?_eq_none (Nat.not_lt.mp hle))
  exact (List.getElem?_inj hlt (by decide)).mp heq

/-- Both commands are parsed to their ends, the second behind the first. -/
theorem tokenization_own_string_iff_two :
    Along tokStep OwnString twoCommands (twoParses mallocThree)
      ∧ ∃ s, exec tokStep twoCommands (twoParses mallocThree) = some s
        ∧ s.root = some 0x01400000
        ∧ IsStr (s.nodes 0x01400000).arg 0 [0x64] := by
  have hfirst : (tokStep twoCommands (.parse mallocThree 16 1 5)).map
      (fun s => (s.tok.mem 7, s.tok.mem 8, s.tok.sp))
      = some (0x64, 0x00, none) := by
    decide +kernel
  obtain ⟨s₁, hstep, hs₁⟩ := Option.map_eq_some_iff.mp hfirst
  simp only [Prod.mk.injEq] at hs₁
  obtain ⟨hchar, hnul, hsp⟩ := hs₁
  have hboth : (exec tokStep twoCommands (twoParses mallocThree)).map
      (fun s => (s.root, (s.nodes 0x01400000).arg 0,
        (s.nodes 0x01400000).arg 1))
      = some (some 0x01400000, 0x64, 0x00) := by
    decide +kernel
  obtain ⟨s₂, hexec, hs₂⟩ := Option.map_eq_some_iff.mp hboth
  simp only [Prod.mk.injEq] at hs₂
  obtain ⟨hroot, hword, hend⟩ := hs₂
  refine ⟨?_, s₂, hexec, hroot, by decide, hword, hend⟩
  refine (tokenization_own_string_iff (twoParses_wellFormed
    mallocThree_distinct hstep ⟨by decide, hchar, hnul⟩)).mpr ?_
  refine (along_cons_of_step hstep).mpr ⟨fun _ => Or.inl rfl, ?_⟩
  cases hstep' : tokStep s₁ (.parse mallocThree 16 7 1) with
  | none => exact along_cons_of_none hstep'
  | some s =>
      exact (along_cons_of_step hstep').mpr ⟨fun _ => Or.inl hsp, trivial⟩

-- ========================================================== what goes wrong

/-- `benos_malloc` with room for one node only. -/
def mallocOnce (k : Nat) : Option UInt32 :=
  if k = 0 then some 0x01400000 else none

/-- The first command is given up at its second word. The list of the
second command then holds "c". -/
def secondParse : List TokOp := twoParses mallocOnce

theorem mallocOnce_distinct : Distinct mallocOnce := by
  have hzero : ∀ i, mallocOnce i ≠ none → i = 0 := by
    intro i hi
    by_contra hne
    exact hi (if_neg hne)
  intro i j hi heq
  rw [hzero i hi, hzero j (heq ▸ hi)]

/-- What the first parse leaves. -/
theorem secondParse_first :
    ∃ s₁, tokStep twoCommands (.parse mallocOnce 16 1 5) = some s₁
      ∧ IsStr s₁.tok.mem 7 [0x64] ∧ s₁.tok.sp = some 20 := by
  have heval : (tokStep twoCommands (.parse mallocOnce 16 1 5)).map
      (fun s => (s.tok.mem 7, s.tok.mem 8, s.tok.sp))
      = some (0x64, 0x00, some 20) := by
    decide +kernel
  obtain ⟨s₁, hstep, hs₁⟩ := Option.map_eq_some_iff.mp heval
  simp only [Prod.mk.injEq] at hs₁
  obtain ⟨hchar, hnul, hsp⟩ := hs₁
  exact ⟨s₁, hstep, ⟨by decide, hchar, hnul⟩, hsp⟩

theorem secondParse_wellFormed :
    Along tokStep WellFormed twoCommands secondParse := by
  obtain ⟨s₁, hstep, hd, -⟩ := secondParse_first
  exact twoParses_wellFormed mallocOnce_distinct hstep hd

/-- The second command is "d", and its list holds "c". -/
theorem secondParse_other_word :
    Along tokStep WellFormed twoCommands secondParse
      ∧ ¬ Along tokStep OwnString twoCommands secondParse
      ∧ ∃ s, exec tokStep twoCommands secondParse = some s
        ∧ s.root = some 0x01400000
        ∧ IsStr (s.nodes 0x01400000).arg 0 [0x63] := by
  have heval : (exec tokStep twoCommands secondParse).map
      (fun s => (s.root, (s.nodes 0x01400000).arg 0,
        (s.nodes 0x01400000).arg 1))
      = some (some 0x01400000, 0x63, 0x00) := by
    decide +kernel
  obtain ⟨s, hexec, hs⟩ := Option.map_eq_some_iff.mp heval
  simp only [Prod.mk.injEq] at hs
  obtain ⟨hroot, hchar, hnul⟩ := hs
  refine ⟨secondParse_wellFormed, ?_, s, hexec, hroot, by decide, hchar, hnul⟩
  intro hown
  obtain ⟨s₁, hstep, -, hsp⟩ := secondParse_first
  have hrest := ((along_cons_of_step hstep).mp hown).2
  rw [secondParse, twoParses, exec_cons_of_step hstep] at hexec
  cases hstep' : tokStep s₁ (.parse mallocOnce 16 7 1) with
  | none =>
      rw [exec, hstep'] at hexec
      cases hexec
  | some s₂ =>
      have hparse := ((along_cons_of_step hstep').mp hrest).1
      obtain ⟨hstarts, -⟩ := hparse (by unfold scommandSize; omega)
      rcases (startsAt_iff (by unfold memorySize; omega) _ _).mp hstarts with
        hnone | hsome
      · rw [hsp] at hnone
        cases hnone
      · rw [hsp] at hsome
        cases hsome

end BenOS.Stdlib
