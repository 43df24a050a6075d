/-
What list `benos_parse_command` makes of a command.

`HoldsWords nodes first ws` says that the nodes from `first` on are as
many as the words `ws` and then null, and that each holds its word, cut
off behind 511 characters, and a NUL. A turn of the loop takes the first
word that is left into a new node and links it in; what is behind the node
that was last before is then the words that were left, or the first of
them where `benos_malloc` fails (`parseLoopIn_holds`, by induction on the
turns).
-/
import BenOS.Lib.Dll
import BenOS.Stdlib.Proofs.Strtok
import BenOS.Stdlib.Tokenizer

namespace BenOS.Stdlib

open Lib

/-- The `next` links of the nodes. -/
def nextOf (nodes : Nodes) (node : UInt32) : Option UInt32 := (nodes node).next

/-- A null-terminated list of nodes that hold the words. -/
def HoldsWords (nodes : Nodes) (first : Option UInt32)
    (ws : List (List UInt8)) : Prop :=
  List.Forall₂ (fun node w => IsStr (nodes node).arg 0 (w.take 511))
    (follow (nextOf nodes) (ws.length + 1) first) ws

/-- The calls of `benos_malloc` number `k` to `n - 1` succeed, each with
memory of its own. -/
structure Mallocs (malloc : Nat → Option UInt32) (k n : Nat) : Prop where
  gives : ∀ i, k ≤ i → i < n → malloc i ≠ none
  apart : ∀ i j, k ≤ i → i < n → k ≤ j → j < n → malloc i = malloc j → i = j

theorem Mallocs.later {malloc : Nat → Option UInt32} {k n : Nat}
    (h : Mallocs malloc k n) : Mallocs malloc (k + 1) n :=
  ⟨fun i hi => h.gives i (by omega),
    fun i j hi hi' hj => h.apart i j (by omega) hi' (by omega)⟩

-- ================================================================== the nodes

section Nodes

variable (nodes : Nodes) (s : Tok) (t : Nat)

theorem fillNode_self (node : UInt32) :
    fillNode nodes node s t node
      = ⟨strncpy (nodes node).arg (fun i => s.mem (t + i)) argSize, none⟩ :=
  Function.update_self _ _ _

theorem fillNode_of_ne {node other : UInt32} (h : other ≠ node) :
    fillNode nodes node s t other = nodes other :=
  Function.update_of_ne h _ _

theorem linkNode_self (current newCommand : UInt32) :
    linkNode nodes current newCommand current
      = { nodes current with next := some newCommand } :=
  Function.update_self _ _ _

theorem linkNode_of_ne {current newCommand other : UInt32}
    (h : other ≠ current) :
    linkNode nodes current newCommand other = nodes other :=
  Function.update_of_ne h _ _

end Nodes

/-- A node that is filled with a token holds it. -/
theorem fillNode_holds {s : Tok} {t : Nat} {w : List UInt8}
    (h : IsStr s.mem t w) (nodes : Nodes) (node : UInt32) :
    IsStr (fillNode nodes node s t node).arg 0 (w.take 511) := by
  rw [fillNode_self]
  exact strncpy_isStr h.shift _ argSize

-- =================================================================== the loop

theorem space_ne_zero : (0x20 : UInt8) ≠ 0x00 := by decide

/-- What the loop makes of the nodes behind `current`, `ws` being the words
that are left: nodes that the calls of `benos_malloc` from `k` to `n - 1`
gave hold them, and the others are as they were. -/
structure Appends (malloc : Nat → Option UInt32) (k n : Nat)
    (current : UInt32) (ws : List (List UInt8)) (nodes nodes' : Nodes) :
    Prop where
  holds : HoldsWords nodes' (nextOf nodes' current) ws
  arg : (nodes' current).arg = (nodes current).arg
  others : ∀ node, node ≠ current →
    (∀ i, k ≤ i → i < n → malloc i ≠ some node) → nodes' node = nodes node

/-- One more word, in front of what the rest of the loop appends. -/
theorem Appends.cons {malloc : Nat → Option UInt32} {k n : Nat}
    {current newCommand : UInt32} {ws : List (List UInt8)} {w : List UInt8}
    {s : Tok} {t : Nat} {nodes nodes' : Nodes} (hkn : k < n)
    (hnew : malloc k = some newCommand)
    (hcur : ∀ i, k ≤ i → i < n → malloc i ≠ some current)
    (hw : IsStr s.mem t w)
    (h : Appends malloc (k + 1) n newCommand ws
      (linkNode (fillNode nodes newCommand s t) current newCommand) nodes') :
    Appends malloc k n current (w :: ws) nodes nodes' := by
  have hne : current ≠ newCommand := fun heq =>
    hcur k (Nat.le_refl k) hkn (heq ▸ hnew)
  have hkeep : nodes' current
      = { nodes current with next := some newCommand } := by
    rw [h.others current hne fun i hi => hcur i (by omega), linkNode_self,
      fillNode_of_ne nodes s t hne]
  refine ⟨?_, ?_, ?_⟩
  · unfold HoldsWords
    rw [nextOf, hkeep, List.length_cons, follow]
    refine List.Forall₂.cons ?_ h.holds
    rw [h.arg, linkNode_of_ne _ hne.symm]
    exact fillNode_holds hw nodes newCommand
  · rw [hkeep]
  · intro node hcurrent hnode
    have hother : node ≠ newCommand := fun heq =>
      hnode k (Nat.le_refl k) hkn (heq ▸ hnew)
    rw [h.others node hother fun i hi => hnode i (by omega),
      linkNode_of_ne _ hcurrent, fillNode_of_ne nodes s t hother]

/-- The loop in a memory of the buffer's size. -/
theorem parseLoop_eq (malloc : Nat → Option UInt32) (turns : Nat) :
    ∀ (k : Nat) (token : Option Nat) (current : UInt32) (nodes : Nodes)
      (s : Tok), parseLoop malloc turns k token current nodes s
        = parseLoopIn scommandSize malloc turns k token current nodes s := by
  induction turns with
  | zero => exact fun _ _ _ _ _ => rfl
  | succ turns ih =>
      intro k token current nodes s
      cases token with
      | none => rfl
      | some token =>
          rw [parseLoop, parseLoopIn]
          cases malloc k with
          | none => rfl
          | some newCommand => simp only [ih]

/-- With `j` calls of `benos_malloc` that succeed, and none where a word is
left behind them, the loop appends the first `j` of the words. Where these
are all it stops with no tokenization in progress. -/
theorem parseLoopIn_holds {size : Nat} {malloc : Nat → Option UInt32}
    {n : Nat} (turns : Nat) :
    ∀ {k j : Nat} {token : Option Nat} {current : UInt32} {nodes : Nodes}
      {s : Tok} {ws : List (List UInt8)},
      Holding size turns 0x20 token s ws →
      k + j = n → j ≤ ws.length → (j < ws.length → malloc n = none) →
      Mallocs malloc k n → (∀ i, k ≤ i → i < n → malloc i ≠ some current) →
      (nodes current).next = none →
      ∃ nodes' s', parseLoopIn size malloc (turns + 1) k token current nodes s
          = some (nodes', s')
        ∧ (j = ws.length → s'.sp = none)
        ∧ Appends malloc k n current (ws.take j) nodes nodes' := by
  have hstop : ∀ {k : Nat} {current : UInt32} {nodes : Nodes},
      (nodes current).next = none →
      Appends malloc k n current [] nodes nodes := by
    intro k current nodes hlast
    refine ⟨?_, rfl, fun _ _ _ => rfl⟩
    unfold HoldsWords
    rw [nextOf, hlast]
    exact List.Forall₂.nil
  induction turns with
  | zero =>
      intro k j token current nodes s ws hs _ hj _ _ _ hlast
      cases token with
      | none =>
          obtain ⟨rfl, hsp⟩ := hs
          rw [List.take_nil]
          exact ⟨nodes, s, rfl, fun _ => hsp, hstop hlast⟩
      | some t =>
          obtain ⟨w, q, rest, -, -, -, -, -, hturns⟩ := hs
          exact absurd hturns (Nat.not_lt_zero _)
  | succ turns ih =>
      intro k j token current nodes s ws hs hn hj hnone hm hcur hlast
      cases token with
      | none =>
          obtain ⟨rfl, hsp⟩ := hs
          rw [List.take_nil]
          exact ⟨nodes, s, rfl, fun _ => hsp, hstop hlast⟩
      | some t =>
          obtain ⟨w, q, rest, rfl, hw, hsp, hrest, hsize, hturns⟩ := hs
          rw [List.length_cons] at hj hnone ⊢
          cases j with
          | zero =>
              -- the word is left over
              obtain rfl : k = n := hn
              have hk := hnone (Nat.succ_pos _)
              refine ⟨nodes, s, ?_, fun h => absurd h (Nat.succ_ne_zero _).symm,
                hstop hlast⟩
              rw [parseLoopIn, hk]
          | succ j =>
              have hkn : k < n := by omega
              obtain ⟨newCommand, hnew⟩ : ∃ a, malloc k = some a :=
                Option.ne_none_iff_exists'.mp (hm.gives k (Nat.le_refl k) hkn)
              have hne : current ≠ newCommand := fun heq =>
                hcur k (Nat.le_refl k) hkn (heq ▸ hnew)
              obtain ⟨token, s', htok, hs'⟩ :=
                strtok_spec space_ne_zero size none (by rw [hsp]; rfl) hrest
                  hsize
              have hnewcur : ∀ i, k + 1 ≤ i → i < n →
                  malloc i ≠ some newCommand := by
                intro i hi hin heq
                have hik := hm.apart i k (by omega) hin (Nat.le_refl k) hkn
                  (heq.trans hnew.symm)
                omega
              have hend : (linkNode (fillNode nodes newCommand s t) current
                  newCommand newCommand).next = none := by
                rw [linkNode_of_ne _ hne.symm, fillNode_self]
              obtain ⟨nodes', s'', hloop, hsp', happ⟩ :=
                ih (hs'.mono (Nat.le_of_lt_succ hturns)) (by omega)
                  (Nat.le_of_succ_le_succ hj) (fun h => hnone (by omega))
                  hm.later hnewcur hend
              refine ⟨nodes', s'', ?_, fun h => hsp' (Nat.succ.inj h),
                happ.cons hkn hnew hcur hw⟩
              rw [parseLoopIn, hnew]
              simp only [htok, Option.bind_eq_bind, Option.bind_some]
              exact hloop

/-- From the first token on: the list holds as many of the words as there
are calls of `benos_malloc` that succeed. -/
theorem parseTokens_words {size turns j : Nat} {malloc : Nat → Option UInt32}
    {token : Option Nat} {s : Tok} {ws : List (List UInt8)}
    (hs : Holding size (turns + 1) 0x20 token s ws) (hj : j ≤ ws.length)
    (hnone : j < ws.length → malloc j = none) (hm : Mallocs malloc 0 j)
    (nodes : Nodes) :
    ∃ root nodes' s', parseTokens size (turns + 1) malloc token nodes s
        = some (root, nodes', s')
      ∧ HoldsWords nodes' root (ws.take j) ∧ (root = none ↔ ws.take j = [])
      ∧ (j = ws.length → s'.sp = none) := by
  cases token with
  | none =>
      obtain ⟨rfl, hsp⟩ := hs
      rw [List.take_nil]
      exact ⟨none, nodes, s, rfl, List.Forall₂.nil, iff_of_true rfl rfl,
        fun _ => hsp⟩
  | some t =>
      obtain ⟨w, q, rest, rfl, hw, hsp, hrest, hsize, hturns⟩ := hs
      rw [List.length_cons] at hj hnone ⊢
      cases j with
      | zero =>
          refine ⟨none, nodes, s, ?_, List.Forall₂.nil, iff_of_true rfl rfl,
            fun h => absurd h (Nat.succ_ne_zero _).symm⟩
          rw [parseTokens, hnone (Nat.succ_pos _)]
      | succ j =>
          obtain ⟨root, hroot⟩ : ∃ a, malloc 0 = some a :=
            Option.ne_none_iff_exists'.mp
              (hm.gives 0 (Nat.le_refl 0) (Nat.succ_pos _))
          obtain ⟨token, s', htok, hs'⟩ :=
            strtok_spec space_ne_zero size none (by rw [hsp]; rfl) hrest hsize
          have hcur : ∀ i, 1 ≤ i → i < j + 1 → malloc i ≠ some root := by
            intro i hi hin heq
            have hzero := hm.apart i 0 (by omega) hin (Nat.le_refl 0)
              (Nat.succ_pos _) (heq.trans hroot.symm)
            omega
          have hend : (fillNode nodes root s t root).next = none := by
            rw [fillNode_self]
          obtain ⟨nodes', s'', hloop, hsp', happ⟩ :=
            parseLoopIn_holds turns (hs'.mono (Nat.le_of_lt_succ hturns))
              (Nat.add_comm 1 j) (Nat.le_of_succ_le_succ hj)
              (fun h => hnone (by omega)) hm.later hcur hend
          refine ⟨some root, nodes', s'', ?_, ?_, ?_,
            fun h => hsp' (Nat.succ.inj h)⟩
          · rw [parseTokens, hroot]
            simp only [htok, hloop, Option.bind_eq_bind, Option.bind_some]
          · refine List.Forall₂.cons ?_ happ.holds
            rw [happ.arg]
            exact fillNode_holds hw nodes root
          · exact iff_of_false (Option.some_ne_none root)
              (List.cons_ne_nil _ _)

-- =================================================================== the call

/-- The call, with what comes behind its first token named. -/
theorem benosParseCommand_eq (malloc : Nat → Option UInt32)
    (scommand command : Nat → UInt8) {max : Int} (hmax : max < scommandSize)
    (nodes : Nodes) (sp : Option Nat) :
    benosParseCommand malloc scommand command max nodes sp
      = (strtok scommandSize (some 0) [0x20]
          ⟨strncpy scommand command scommandSize, sp⟩).bind fun r =>
            (parseTokens scommandSize scommandSize malloc r.1 nodes r.2).map
              fun q => (q.1, q.2.1, q.2.2.sp) := by
  rw [benosParseCommand, if_neg (Int.not_le.mpr hmax)]
  refine congrArg (Option.bind _) (funext fun r => ?_)
  obtain ⟨token, s⟩ := r
  unfold parseTokens
  cases token with
  | none => rfl
  | some token =>
      cases malloc 0 with
      | none => rfl
      | some root =>
          simp only [parseLoop_eq]
          cases strtok scommandSize none [0x20] s with
          | none => rfl
          | some r =>
              simp only [Option.bind_eq_bind, Option.bind_some]
              cases parseLoopIn scommandSize malloc scommandSize 1 r.1 root
                  (fillNode nodes root s token) r.2 with
              | none => rfl
              | some q => rfl

/-- The words of a command: the runs without a space in its first 1024
characters. -/
def commandWords (command : List UInt8) : List (List UInt8) :=
  runs 0x20 (command.take 1024)

/-- Where no tokenization is in progress, or one that stands at the buffer,
and the first `j` calls of `benos_malloc` succeed, and no other where a
word is left, the list holds the first `j` words of the command. -/
theorem benosParseCommand_words {malloc : Nat → Option UInt32}
    {command : Nat → UInt8} {cs : List UInt8} {max : Int} {sp : Option Nat}
    {j : Nat} (hcommand : IsStr command 0 cs) (hmax : max < scommandSize)
    (hsp : sp.or (some 0) = some 0) (hj : j ≤ (commandWords cs).length)
    (hnone : j < (commandWords cs).length → malloc j = none)
    (hmalloc : Mallocs malloc 0 j) (scommand : Nat → UInt8) (nodes : Nodes) :
    ∃ root nodes' sp', benosParseCommand malloc scommand command max nodes sp
        = some (root, nodes', sp')
      ∧ HoldsWords nodes' root ((commandWords cs).take j)
      ∧ (root = none ↔ (commandWords cs).take j = [])
      ∧ (j = (commandWords cs).length → sp' = none) := by
  have hstr : IsStr (strncpy scommand command scommandSize) 0 (cs.take 1024) :=
    strncpy_isStr hcommand scommand scommandSize
  have hlen : (cs.take 1024).length ≤ 1024 := List.length_take_le _ _
  obtain ⟨token, s, htok, hs⟩ :=
    strtok_spec (s := ⟨strncpy scommand command scommandSize, sp⟩)
      space_ne_zero scommandSize (some 0) hsp hstr
      (by unfold scommandSize; omega)
  have hholding : Holding scommandSize (1024 + 1) 0x20 token s
      (runs 0x20 (cs.take 1024)) := hs.mono (by omega)
  obtain ⟨root, nodes', s', htokens, hwords, hnull, hdone⟩ :=
    parseTokens_words hholding hj hnone hmalloc nodes
  rw [benosParseCommand_eq malloc scommand command hmax, htok,
    Option.bind_some]
  exact ⟨root, nodes', s'.sp, congrArg (Option.map _) htokens, hwords, hnull,
    hdone⟩

/-- What is required of parsing a command: the list holds its words, it is
null exactly where there is none, and no tokenization is in progress
afterwards. -/
def ParsesCommand (command : List UInt8)
    (result : Option UInt32 × Nodes × Option Nat) : Prop :=
  let (root, nodes, sp) := result
  HoldsWords nodes root (commandWords command)
    ∧ (root = none ↔ commandWords command = []) ∧ sp = none

/-- For every command and every `max` below 1025 the call returns the list
of its words, where no tokenization is in progress and the calls of
`benos_malloc` succeed. -/
theorem benos_parse_command_words {malloc : Nat → Option UInt32}
    {command : Nat → UInt8} {cs : List UInt8} {max : Int}
    (hcommand : IsStr command 0 cs) (hmax : max < 1025)
    (hmalloc : Mallocs malloc 0 (commandWords cs).length)
    (scommand : Nat → UInt8) (nodes : Nodes) :
    ∃ result, benosParseCommand malloc scommand command max nodes none
        = some result ∧ ParsesCommand cs result := by
  obtain ⟨root, nodes', sp', hcall, hwords, hnull, hdone⟩ :=
    benosParseCommand_words hcommand hmax
      (rfl : (none : Option Nat).or (some 0) = some 0) (Nat.le_refl _)
      (fun h => absurd h (Nat.lt_irrefl _)) hmalloc scommand nodes
  rw [List.take_length] at hwords hnull
  exact ⟨(root, nodes', sp'), hcall, hwords, hnull, hdone rfl⟩

/-- Two words between three stretches of spaces: two nodes. -/
theorem benos_parse_command_words_two :
    ∃ result, benosParseCommand
        (fun k => some (if k = 0 then 0x01400000 else 0x01401000))
        (fun _ => 0xFF)
        (fun i => [0x20, 0x61, 0x62, 0x20, 0x20, 0x63, 0x20].getD i 0x00) 1024
        (fun _ => ⟨fun _ => 0xFF, some 0⟩) none = some result
      ∧ ParsesCommand [0x20, 0x61, 0x62, 0x20, 0x20, 0x63, 0x20] result := by
  refine benos_parse_command_words ?_ (by omega) ⟨?_, ?_⟩ _ _
  · simp [IsStr]
  · exact fun i _ _ => Option.some_ne_none _
  · have htwo : (commandWords [0x20, 0x61, 0x62, 0x20, 0x20, 0x63, 0x20]).length
        = 2 := by decide
    rw [htwo]
    intro i j _ hi _ hj heq
    have hcases : ∀ i, i < 2 → i = 0 ∨ i = 1 := fun i hi => by omega
    rcases hcases i hi with rfl | rfl <;> rcases hcases j hj with rfl | rfl
    · rfl
    · cases heq
    · cases heq
    · rfl

end BenOS.Stdlib
