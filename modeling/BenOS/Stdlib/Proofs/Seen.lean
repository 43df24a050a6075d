/-
A tokenization in the memory, seen from its buffer.

`SeenFrom t s b` says that the buffer `b` lies at `t` in the memory of `s`,
with `sp` at the same byte. Where a call has a result in the buffer it has
the same one in the memory, `t` further on (`strtok_seen`), and so has the
whole of `benos_parse_command` (`benosParseCommandIn_seen`): the function
in a memory of its own is the one in the memory of the program.
-/
import BenOS.Stdlib.Proofs.ParseCommand

namespace BenOS.Stdlib

/-- The memory `s` shows the buffer `b` at `t`, with the same `sp`. -/
structure SeenFrom (t : Nat) (s b : Tok) : Prop where
  mem : ∀ i, s.mem (t + i) = b.mem i
  sp : s.sp = b.sp.map (t + ·)

-- ==================================================================== strncpy

/-- The loop does between two places what it does between two buffers, as
long as it does not write over the string it has yet to copy. -/
theorem strncpyInLoop_seen {dest src : Nat} {source : Nat → UInt8} (k : Nat) :
    ∀ {i : Nat} {mem buf : Nat → UInt8} {cs : List UInt8},
      IsStr mem (src + i) cs → IsStr source i cs →
      src + cs.length < dest ∨ dest + k < src →
      (∀ x, mem (dest + x) = buf x) →
      (strncpyInLoop dest src k i mem).1 = (strncpyLoop source k i buf).1
      ∧ ∀ x, (strncpyInLoop dest src k i mem).2 (dest + x)
        = (strncpyLoop source k i buf).2 x := by
  induction k with
  | zero => exact fun _ _ _ hbuf => ⟨rfl, hbuf⟩
  | succ k ih =>
      intro i mem buf cs h hsource hapart hbuf
      rw [strncpyInLoop, strncpyLoop]
      cases cs with
      | nil =>
          have hend : mem (src + i) = 0x00 := h
          have hstop : source i = 0x00 := hsource
          rw [if_pos hend, if_pos hstop]
          exact ⟨rfl, hbuf⟩
      | cons c cs =>
          obtain ⟨hc, hi, hrest⟩ := h
          obtain ⟨-, hi', hrest'⟩ := hsource
          rw [hi, hi', if_neg hc, if_neg hc]
          rw [List.length_cons] at hapart
          have hlater : IsStr (Function.update mem (dest + i) c)
              (src + (i + 1)) cs := by
            apply IsStr.frame cs _ hrest
            exact fun x hx hle => Function.update_of_ne (by omega) _ _
          refine ih hlater hrest' (by omega) fun x => ?_
          by_cases hx : x = i
          · rw [hx, Function.update_self, Function.update_self]
          · rw [Function.update_of_ne hx,
              Function.update_of_ne fun h => hx (Nat.add_left_cancel h)]
            exact hbuf x

/-- So does `strncpy`. -/
theorem strncpyIn_seen {mem : Nat → UInt8} {dest src count : Nat}
    {cs : List UInt8} (h : IsStr mem src cs)
    (hapart : src + cs.length < dest ∨ dest + (count - 1) < src) (x : Nat) :
    strncpyIn mem dest src count (dest + x)
      = strncpy (fun i => mem (dest + i)) (fun i => mem (src + i)) count x := by
  obtain ⟨hstop, hsame⟩ :=
    strncpyInLoop_seen (i := 0) (count - 1) h (IsStr.shift cs h) hapart
      fun _ => rfl
  unfold strncpyIn strncpy
  simp only [hstop]
  by_cases hx : x = (strncpyLoop (fun i => mem (src + i)) (count - 1) 0
      fun i => mem (dest + i)).1
  · rw [hx, Function.update_self, Function.update_self]
  · rw [Function.update_of_ne hx,
      Function.update_of_ne fun h => hx (Nat.add_left_cancel h)]
    exact hsame x

-- ===================================================================== strtok

/-- The first loop of `strtok` stops at the same byte. -/
theorem strtokSkip_seen {mem buf : Nat → UInt8} {t : Nat}
    (hbuf : ∀ i, mem (t + i) = buf i) (delimiters : List UInt8) (k : Nat) :
    ∀ {size p q : Nat}, strtokSkip buf delimiters k p = some q → k ≤ size →
      strtokSkip mem delimiters size (t + p) = some (t + q) := by
  induction k with
  | zero => exact fun h => absurd h.symm (Option.some_ne_none _)
  | succ k ih =>
      intro size p q h hk
      obtain ⟨size, rfl⟩ := Nat.exists_eq_succ_of_ne_zero (by omega : size ≠ 0)
      rw [strtokSkip, hbuf p]
      rw [strtokSkip] at h
      by_cases hp : buf p ∈ delimiters
      · rw [if_pos hp] at h ⊢
        exact ih h (Nat.le_of_succ_le_succ hk)
      · rw [if_neg hp] at h ⊢
        rw [Option.some.inj h]

/-- The second one writes the same NUL. -/
theorem strtokEnd_seen {t : Nat} (delimiters : List UInt8) (k : Nat) :
    ∀ {size p q : Nat} {mem buf buf' : Nat → UInt8},
      (∀ i, mem (t + i) = buf i) →
      strtokEnd delimiters k p buf = some (buf', q) → k ≤ size →
      ∃ mem', strtokEnd delimiters size (t + p) mem = some (mem', t + q)
        ∧ ∀ i, mem' (t + i) = buf' i := by
  induction k with
  | zero => exact fun _ h => absurd h.symm (Option.some_ne_none _)
  | succ k ih =>
      intro size p q mem buf buf' hbuf h hk
      obtain ⟨size, rfl⟩ := Nat.exists_eq_succ_of_ne_zero (by omega : size ≠ 0)
      rw [strtokEnd, hbuf p]
      rw [strtokEnd] at h
      by_cases hnul : buf p = 0x00
      · rw [if_pos hnul] at h ⊢
        obtain ⟨rfl, rfl⟩ := Prod.mk.inj (Option.some.inj h)
        exact ⟨mem, rfl, hbuf⟩
      · rw [if_neg hnul] at h ⊢
        by_cases hp : buf p ∈ delimiters
        · rw [if_pos hp] at h ⊢
          obtain ⟨rfl, rfl⟩ := Prod.mk.inj (Option.some.inj h)
          refine ⟨_, rfl, fun i => ?_⟩
          by_cases hi : i = p
          · rw [hi, Function.update_self, Function.update_self]
          · rw [Function.update_of_ne hi,
              Function.update_of_ne fun h => hi (Nat.add_left_cancel h)]
            exact hbuf i
        · rw [if_neg hp] at h ⊢
          exact ih hbuf h (Nat.le_of_succ_le_succ hk)

/-- A call that has a result in the buffer has the same in the memory. -/
theorem strtok_seen {t size memory : Nat} {str token : Option Nat}
    {delimiters : List UInt8} {s b b' : Tok} (h : SeenFrom t s b)
    (hfit : t + size ≤ memory)
    (hres : strtok size str delimiters b = some (token, b')) :
    ∃ s', strtok memory (str.map (t + ·)) delimiters s
        = some (token.map (t + ·), s') ∧ SeenFrom t s' b' := by
  have hor : s.sp.or (str.map (t + ·)) = (b.sp.or str).map (t + ·) := by
    rw [h.sp]
    cases b.sp with
    | none => rfl
    | some p => rfl
  unfold strtok at hres ⊢
  rw [hor]
  cases hp : b.sp.or str with
  | none =>
      rw [hp] at hres
      obtain ⟨rfl, rfl⟩ := Prod.mk.inj (Option.some.inj hres)
      exact ⟨s, rfl, h⟩
  | some p =>
      simp only [hp, Option.bind_eq_bind, Option.bind_eq_some_iff] at hres
      obtain ⟨q, hskip, hres⟩ := hres
      have hskip' : strtokSkip s.mem delimiters (memory - (t + p)) (t + p)
          = some (t + q) :=
        strtokSkip_seen h.mem delimiters _ hskip (by omega)
      simp only [Option.map_some, hskip', Option.bind_eq_bind,
        Option.bind_some, h.mem]
      by_cases hnul : b.mem q = 0x00
      · rw [if_pos hnul] at hres ⊢
        obtain ⟨rfl, rfl⟩ := Prod.mk.inj (Option.some.inj hres)
        exact ⟨_, rfl, h.mem, rfl⟩
      · rw [if_neg hnul, Option.bind_eq_some_iff] at hres
        obtain ⟨⟨buf', e⟩, hend, hres⟩ := hres
        obtain ⟨rfl, rfl⟩ := Prod.mk.inj (Option.some.inj hres)
        obtain ⟨mem', hend', hmem'⟩ : ∃ mem', strtokEnd delimiters
              (memory - (t + q)) (t + q) s.mem = some (mem', t + e)
            ∧ ∀ i, mem' (t + i) = buf' i :=
          strtokEnd_seen delimiters _ h.mem hend (by omega)
        rw [if_neg hnul, hend']
        exact ⟨_, rfl, hmem', rfl⟩

-- =============================================================== the commands

/-- A token fills a node with the same characters. -/
theorem fillNode_seen {t : Nat} {s b : Tok} (h : SeenFrom t s b)
    (nodes : Nodes) (node : UInt32) (token : Nat) :
    fillNode nodes node s (t + token) = fillNode nodes node b token := by
  have hsame : (fun i => s.mem (t + token + i)) = fun i => b.mem (token + i) :=
    funext fun i => by rw [Nat.add_assoc, h.mem]
  unfold fillNode
  rw [hsame]

/-- The loop of `benos_parse_command` makes the same list. -/
theorem parseLoopIn_seen {t size memory : Nat} (hfit : t + size ≤ memory)
    (malloc : Nat → Option UInt32) (turns : Nat) :
    ∀ {turns' k : Nat} {token : Option Nat} {current : UInt32}
      {nodes nodes' : Nodes} {s b b' : Tok}, SeenFrom t s b →
      turns ≤ turns' →
      parseLoopIn size malloc turns k token current nodes b
        = some (nodes', b') →
      ∃ s', parseLoopIn memory malloc turns' k (token.map (t + ·)) current
          nodes s = some (nodes', s') ∧ SeenFrom t s' b' := by
  induction turns with
  | zero => exact fun _ _ h => absurd h.symm (Option.some_ne_none _)
  | succ turns ih =>
      intro turns' k token current nodes nodes' s b b' h hturns hres
      obtain ⟨turns', rfl⟩ :=
        Nat.exists_eq_succ_of_ne_zero (by omega : turns' ≠ 0)
      cases token with
      | none =>
          obtain ⟨rfl, rfl⟩ := Prod.mk.inj (Option.some.inj hres)
          exact ⟨s, rfl, h⟩
      | some token =>
          rw [parseLoopIn] at hres
          rw [Option.map_some, parseLoopIn]
          cases hnew : malloc k with
          | none =>
              rw [hnew] at hres
              obtain ⟨rfl, rfl⟩ := Prod.mk.inj (Option.some.inj hres)
              exact ⟨s, rfl, h⟩
          | some newCommand =>
              simp only [hnew, Option.bind_eq_bind,
                Option.bind_eq_some_iff] at hres
              obtain ⟨⟨next, b₁⟩, htok, hloop⟩ := hres
              obtain ⟨s₁, htok', h₁⟩ := strtok_seen h hfit htok
              obtain ⟨s', hloop', h'⟩ :=
                ih h₁ (Nat.le_of_succ_le_succ hturns) hloop
              refine ⟨s', ?_, h'⟩
              rw [Option.map_none] at htok'
              simp only [fillNode_seen h, htok', Option.bind_eq_bind,
                Option.bind_some]
              exact hloop'

/-- So does what comes behind the first token. -/
theorem parseTokens_seen {t size memory turns turns' : Nat}
    (hfit : t + size ≤ memory) (hturns : turns ≤ turns')
    {malloc : Nat → Option UInt32} {token : Option Nat} {nodes nodes' : Nodes}
    {root : Option UInt32} {s b b' : Tok} (h : SeenFrom t s b)
    (hres : parseTokens size turns malloc token nodes b
      = some (root, nodes', b')) :
    ∃ s', parseTokens memory turns' malloc (token.map (t + ·)) nodes s
        = some (root, nodes', s') ∧ SeenFrom t s' b' := by
  unfold parseTokens at hres ⊢
  cases token with
  | none =>
      simp only [Option.some.injEq, Prod.mk.injEq] at hres
      obtain ⟨rfl, rfl, rfl⟩ := hres
      exact ⟨s, rfl, h⟩
  | some token =>
      rw [Option.map_some]
      cases hroot : malloc 0 with
      | none =>
          simp only [hroot, Option.some.injEq, Prod.mk.injEq] at hres
          obtain ⟨rfl, rfl, rfl⟩ := hres
          exact ⟨s, rfl, h⟩
      | some first =>
          simp only [hroot, Option.bind_eq_bind,
            Option.bind_eq_some_iff] at hres
          obtain ⟨⟨next, b₁⟩, htok, ⟨nodes₁, b₂⟩, hloop, hres⟩ := hres
          simp only [Option.some.injEq, Prod.mk.injEq] at hres
          obtain ⟨rfl, rfl, rfl⟩ := hres
          obtain ⟨s₁, htok', h₁⟩ := strtok_seen h hfit htok
          obtain ⟨s', hloop', h'⟩ :=
            parseLoopIn_seen hfit malloc turns h₁ hturns hloop
          refine ⟨s', ?_, h'⟩
          rw [Option.map_none] at htok'
          simp only [fillNode_seen h, htok', hloop', Option.bind_eq_bind,
            Option.bind_some]

/-- The whole of `benos_parse_command` does with a buffer and a command
somewhere in the memory what it does with them on their own. -/
theorem benosParseCommandIn_seen {malloc : Nat → Option UInt32}
    {scommand command : Nat} {max : Int} {s : Tok} {sp sp' : Option Nat}
    {cs : List UInt8} {nodes nodes' : Nodes} {root : Option UInt32}
    (hsp : s.sp = sp.map (scommand + ·))
    (hfit : scommand + scommandSize ≤ memorySize) (h : IsStr s.mem command cs)
    (hapart : command + cs.length < scommand
      ∨ scommand + scommandSize ≤ command)
    (hres : benosParseCommand malloc (fun i => s.mem (scommand + i))
      (fun i => s.mem (command + i)) max nodes sp
        = some (root, nodes', sp')) :
    ∃ s', benosParseCommandIn malloc scommand command max nodes s
        = some (root, nodes', s') ∧ s'.sp = sp'.map (scommand + ·) := by
  by_cases hmax : max < scommandSize
  · rw [benosParseCommand_eq malloc _ _ hmax,
      Option.bind_eq_some_iff] at hres
    obtain ⟨⟨token, b⟩, htok, hres⟩ := hres
    obtain ⟨⟨root', nodes₁, b'⟩, htokens, hres⟩ :=
      Option.map_eq_some_iff.mp hres
    simp only [Prod.mk.injEq] at hres
    obtain ⟨rfl, rfl, rfl⟩ := hres
    have hsize : scommandSize = 1025 := rfl
    have hcopy : ∀ x, strncpyIn s.mem scommand command scommandSize
          (scommand + x)
        = strncpy (fun i => s.mem (scommand + i))
          (fun i => s.mem (command + i)) scommandSize x :=
      fun x => strncpyIn_seen h (by omega) x
    have hcopied : SeenFrom scommand
        { s with mem := strncpyIn s.mem scommand command scommandSize }
        ⟨strncpy (fun i => s.mem (scommand + i))
          (fun i => s.mem (command + i)) scommandSize, sp⟩ := ⟨hcopy, hsp⟩
    obtain ⟨s₁, htok', h₁⟩ := strtok_seen hcopied hfit htok
    obtain ⟨s', htokens', h'⟩ :=
      parseTokens_seen hfit (Nat.le_of_add_left_le hfit) h₁ htokens
    refine ⟨s', ?_, h'.sp⟩
    rw [benosParseCommandIn, if_neg (Int.not_le.mpr hmax)]
    rw [Option.map_some, Nat.add_zero] at htok'
    simp only [htok', Option.bind_eq_bind, Option.bind_some]
    exact htokens'
  · rw [benosParseCommand, if_pos (Int.not_lt.mp hmax)] at hres
    simp only [Option.some.injEq, Prod.mk.injEq] at hres
    obtain ⟨rfl, rfl, rfl⟩ := hres
    refine ⟨s, ?_, hsp⟩
    rw [benosParseCommandIn, if_pos (Int.not_lt.mp hmax)]

end BenOS.Stdlib
