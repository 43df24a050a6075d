/-
What `printf` emits.

The format is a list of directives (`directives`), and what is asked of a
call is one piece for each (`Asks`). The loop reads the directives in the
memory as the conversions before them have left it: it emits the pieces and
stays in the format exactly where they are spelt there still
(`FormatKept`), and so are the strings (`printf_exact`). A format apart from
the buffer of `itoa` is, unless a `%` ends it: behind that the loop steps
over the terminator and reads on (`formatKept_apart`).
-/
import BenOS.Lib.Decimal
import BenOS.Stdlib.Printf
import BenOS.Stdlib.Proofs.Itoa

namespace BenOS.Stdlib

open Lib Traced

-- ============================================================ the requirement

/-- What stands in a format; `lone` is a `%` that ends it. -/
inductive Directive
  | literal (c : UInt8)
  | int
  | str
  | other (c : UInt8)
  | lone
  deriving DecidableEq

/-- The directives of a format. -/
def directives : List UInt8 → List Directive
  | [] => []
  | [c] => if c ≠ 0x25 then [.literal c] else [.lone]
  | c :: d :: cs =>
      if c ≠ 0x25 then .literal c :: directives (d :: cs)
      else if d = 0x69 then .int :: directives cs
      else if d = 0x73 then .str :: directives cs
      else .other d :: directives cs

/-- The pieces that are asked for: the literal characters, the numeral of
each `int`, each string as it is at the call, and the character of any
other directive. Arguments may be left over. -/
inductive Asks (mem : Nat → UInt8) :
    List Directive → List PrintfArg → List Emitted → Prop
  | nil (args) : Asks mem [] args []
  | lone (args) : Asks mem [.lone] args []
  | literal {c ds args es} : Asks mem ds args es →
      Asks mem (.literal c :: ds) args (.putchar c :: es)
  | other {c ds args es} : Asks mem ds args es →
      Asks mem (.other c :: ds) args (.putchar c :: es)
  | int {i ds args es} : -2147483648 ≤ i → i < 2147483648 →
      Asks mem ds args es →
      Asks mem (.int :: ds) (.int i :: args) (.print (decimal i) :: es)
  | str {s cs ds args es} : IsStr mem s cs → s + cs.length < memorySize →
      Asks mem ds args es →
      Asks mem (.str :: ds) (.str s :: args) (.print cs :: es)

/-- Each string that is asked for is, when its turn comes, what it was at
the call, in spite of the conversions before it. -/
def StringsKept (text : Nat) (mem₀ : Nat → UInt8) :
    List Directive → List PrintfArg → (Nat → UInt8) → Prop
  | .int :: ds, .int i :: args, mem =>
      ∀ r, itoaIn text i mem = some r → StringsKept text mem₀ ds args r.2
  | .str :: ds, .str s :: args, mem =>
      (∀ cs, IsStr mem₀ s cs → IsStr mem s cs)
        ∧ StringsKept text mem₀ ds args mem
  | .int :: _, _, _ => True
  | .str :: _, _, _ => True
  | _ :: ds, args, mem => StringsKept text mem₀ ds args mem
  | [], _, _ => True

/-- The character `c` is spelt at `p`, by itself or behind a `%`, and `q`
is behind it. -/
def Spelt (mem : Nat → UInt8) (p : Nat) (c : UInt8) (q : Nat) : Prop :=
  (mem p = c ∧ c ≠ 0x00 ∧ c ≠ 0x25 ∧ q = p + 1)
    ∨ (mem p = 0x25 ∧ mem (p + 1) = c ∧ c ≠ 0x69 ∧ c ≠ 0x73 ∧ q = p + 2)

/-- Each directive is, when its turn comes, spelt in the format, in spite
of the conversions before it; and behind the last, or in place of a `%`
that would end it, the format ends, at `stop` at most. -/
def FormatKept (text stop : Nat) :
    List Directive → List PrintfArg → Nat → (Nat → UInt8) → Prop
  | .int :: ds, .int i :: args, p, mem =>
      mem p = 0x25 ∧ mem (p + 1) = 0x69
        ∧ ∀ r, itoaIn text i mem = some r →
          FormatKept text stop ds args (p + 2) r.2
  | .str :: ds, .str _ :: args, p, mem =>
      mem p = 0x25 ∧ mem (p + 1) = 0x73
        ∧ FormatKept text stop ds args (p + 2) mem
  | .int :: _, _, _, _ => True
  | .str :: _, _, _, _ => True
  | .literal c :: ds, args, p, mem =>
      ∃ q, Spelt mem p c q ∧ FormatKept text stop ds args q mem
  | .other c :: ds, args, p, mem =>
      ∃ q, Spelt mem p c q ∧ FormatKept text stop ds args q mem
  | .lone :: _, _, p, mem => mem p = 0x00 ∧ p ≤ stop
  | [], _, p, mem => mem p = 0x00 ∧ p ≤ stop

section Kept

variable {text stop p : Nat} {c : UInt8} {ds : List Directive}
  {args : List PrintfArg} {mem mem₀ : Nat → UInt8}

theorem formatKept_literal : FormatKept text stop (.literal c :: ds) args p mem
    ↔ ∃ q, Spelt mem p c q ∧ FormatKept text stop ds args q mem := Iff.rfl

theorem formatKept_other : FormatKept text stop (.other c :: ds) args p mem
    ↔ ∃ q, Spelt mem p c q ∧ FormatKept text stop ds args q mem := Iff.rfl

theorem stringsKept_literal : StringsKept text mem₀ (.literal c :: ds) args mem
    ↔ StringsKept text mem₀ ds args mem := Iff.rfl

theorem stringsKept_other : StringsKept text mem₀ (.other c :: ds) args mem
    ↔ StringsKept text mem₀ ds args mem := Iff.rfl

end Kept

/-- The pieces are emitted, and the format is read up to its terminator at
most. -/
structure Prints (fmt : Nat) (cs : List UInt8) (es : List Emitted)
    (x : Traced Nat (Option (List Emitted))) : Prop where
  emits : x.val = some es
  inside : ∀ a ∈ x.log, a ≤ fmt + cs.length

-- ================================================================== the pieces

/-- A string that ends in the memory is found. -/
theorem stringAt_eq {mem : Nat → UInt8} (cs : List UInt8) :
    ∀ {k s : Nat}, IsStr mem s cs → cs.length < k →
      stringAt mem k s = some cs := by
  induction cs with
  | nil =>
      intro k s h hk
      obtain ⟨k, rfl⟩ := Nat.exists_eq_succ_of_ne_zero (Nat.ne_of_gt hk)
      exact if_pos h
  | cons c cs ih =>
      rintro k s ⟨hc, hs, hrest⟩ hk
      rw [List.length_cons] at hk
      obtain ⟨k, rfl⟩ := Nat.exists_eq_succ_of_ne_zero (Nat.ne_of_gt
        (Nat.lt_of_le_of_lt (Nat.zero_le _) hk))
      rw [stringAt, hs, if_neg hc, ih hrest (Nat.lt_of_succ_lt_succ hk)]
      rfl

/-- What is found is the string. -/
theorem isStr_of_stringAt {mem : Nat → UInt8} (k : Nat) :
    ∀ {s : Nat} {cs : List UInt8}, stringAt mem k s = some cs →
      IsStr mem s cs := by
  induction k with
  | zero =>
      intro s cs h
      cases h
  | succ k ih =>
      intro s cs h
      rw [stringAt] at h
      split at h
      case isTrue hend =>
        obtain rfl := Option.some.inj h
        exact hend
      case isFalse hc =>
        obtain ⟨cs', hcs', rfl⟩ := Option.map_eq_some_iff.mp h
        exact ⟨hc, rfl, ih hcs'⟩

theorem print_eq {mem : Nat → UInt8} {s : Nat} {cs : List UInt8}
    (h : IsStr mem s cs) (hend : s + cs.length < memorySize) :
    print mem s = some (.print cs) := by
  rw [print, stringAt_eq cs h (by omega)]
  rfl

theorem isStr_of_print {mem : Nat → UInt8} {s : Nat} {cs : List UInt8}
    (h : print mem s = some (.print cs)) : IsStr mem s cs := by
  obtain ⟨cs', hcs', heq⟩ := Option.map_eq_some_iff.mp h
  rw [← Emitted.print.inj heq]
  exact isStr_of_stringAt _ hcs'

/-- A string seen from the start of the memory. -/
theorem IsStr.unshift {mem : Nat → UInt8} {t : Nat} (cs : List UInt8) :
    ∀ {p : Nat}, IsStr (fun i => mem (t + i)) p cs →
      IsStr mem (t + p) cs := by
  induction cs with
  | nil => exact fun h => h
  | cons c cs ih =>
      rintro p ⟨hc, hp, hrest⟩
      exact ⟨hc, hp, ih hrest⟩

/-- A conversion writes its numeral into the buffer, and nothing else. -/
theorem itoaIn_decimal (text : Nat) {i : Int} (hge : -2147483648 ≤ i)
    (hlt : i < 2147483648) (mem : Nat → UInt8) :
    ∃ s mem', itoaIn text i mem = some (s, mem') ∧ IsStr mem' s (decimal i)
      ∧ s + (decimal i).length < text + textSize
      ∧ ∀ a, a < text ∨ text + textSize ≤ a → mem' a = mem a := by
  obtain ⟨loc, t, hcall, hspells⟩ :=
    itoa_decimal hge hlt fun j => mem (text + j)
  have hinside := hspells.inside
  refine ⟨text + loc, fun a => if a < text then mem a else t (a - text), ?_, ?_,
    by omega, fun a ha => ?_⟩
  · rw [itoaIn, hcall]
    rfl
  · apply IsStr.unshift
    have hview : (fun j => (fun a => if a < text then mem a
        else t (a - text)) (text + j)) = t := by
      funext j
      simp only
      rw [if_neg (by omega), Nat.add_sub_cancel_left]
    rw [hview]
    exact hspells.string
  · by_cases hlow : a < text
    · exact if_pos hlow
    · simp only
      rw [if_neg hlow, hspells.outside (a - text) (by omega)]
      congr 1
      omega

-- ================================================================== the format

theorem directives_literal {c : UInt8} (hc : c ≠ 0x25) (cs : List UInt8) :
    directives (c :: cs) = .literal c :: directives cs := by
  cases cs with
  | nil => exact if_pos hc
  | cons d cs => rw [directives, if_pos hc]

theorem directives_percent (d : UInt8) (cs : List UInt8) :
    directives (0x25 :: d :: cs)
      = (if d = 0x69 then .int else if d = 0x73 then .str else .other d)
        :: directives cs := by
  rw [directives, if_neg (fun h => h rfl)]
  split
  · rfl
  · split
    · rfl
    · rfl

@[simp] theorem val_emitThen (e : Emitted)
    (rest : Traced Nat (Option (List Emitted))) :
    (emitThen e rest).val = rest.val.map (e :: ·) := rfl

@[simp] theorem log_emitThen (e : Emitted)
    (rest : Traced Nat (Option (List Emitted))) :
    (emitThen e rest).log = rest.log :=
  List.append_nil _

-- ==================================================================== the loop

section Turns

variable {text turns p : Nat} {args : List PrintfArg} {mem : Nat → UInt8}

theorem printfLoop_end (h : mem p = 0x00) :
    printfLoop text (turns + 1) p args mem = ⟨some [], [p]⟩ := by
  rw [printfLoop, h]
  rfl

/-- A literal character. -/
theorem printfLoop_literal {c : UInt8} (hp : mem p = c) (hzero : c ≠ 0x00)
    (hc : c ≠ 0x25) :
    (printfLoop text (turns + 1) p args mem).val
        = (printfLoop text turns (p + 1) args mem).val.map (.putchar c :: ·)
      ∧ (printfLoop text (turns + 1) p args mem).log
        = [p] ++ (printfLoop text turns (p + 1) args mem).log := by
  rw [printfLoop, hp, val_bind, log_bind, val_look, if_neg hzero, if_pos hc,
    val_emitThen, log_emitThen]
  exact ⟨rfl, rfl⟩

/-- The character behind a `%` decides. -/
theorem printfLoop_percent {d : UInt8} (hp : mem p = 0x25)
    (hd : mem (p + 1) = d) {e : Emitted} {args' : List PrintfArg}
    {mem' : Nat → UInt8}
    (hswitch : printfSwitch text d args mem = some (e, args', mem')) :
    (printfLoop text (turns + 1) p args mem).val
        = (printfLoop text turns (p + 2) args' mem').val.map (e :: ·)
      ∧ (printfLoop text (turns + 1) p args mem).log
        = [p, p + 1] ++ (printfLoop text turns (p + 2) args' mem').log := by
  rw [printfLoop, hp, val_bind, log_bind, val_look, if_neg (by decide),
    if_neg (fun h => h rfl), val_bind, log_bind, val_look, hd, hswitch]
  simp only [val_emitThen, log_emitThen, log_look, List.cons_append,
    List.nil_append, and_self]

/-- Where the switch has no result, the call has none. -/
theorem printfLoop_none {d : UInt8} (hp : mem p = 0x25)
    (hd : mem (p + 1) = d) (hswitch : printfSwitch text d args mem = none) :
    (printfLoop text (turns + 1) p args mem).val = none := by
  rw [printfLoop, hp, val_bind, val_look, if_neg (by decide),
    if_neg (fun h => h rfl), val_bind, val_look, hd, hswitch]
  rfl

end Turns

-- ================================================================== the switch

section Switch

variable {text : Nat} {d : UInt8} {args args' : List PrintfArg}
  {mem mem' : Nat → UInt8}

theorem printfSwitch_putchar {c : UInt8}
    (h : printfSwitch text d args mem = some (.putchar c, args', mem')) :
    d ≠ 0x69 ∧ d ≠ 0x73 ∧ d = c ∧ args' = args ∧ mem' = mem := by
  unfold printfSwitch at h
  split at h
  case isTrue =>
    split at h
    case h_2 => cases h
    simp only [Option.bind_eq_bind, Option.bind_eq_some_iff] at h
    obtain ⟨r, -, e, hprint, heq⟩ := h
    obtain ⟨rfl, -⟩ := Prod.mk.inj (Option.some.inj heq)
    obtain ⟨cs, -, hcs⟩ := Option.map_eq_some_iff.mp hprint
    cases hcs
  case isFalse hi =>
    split at h
    case isTrue =>
      split at h
      case h_2 => cases h
      simp only [Option.bind_eq_bind, Option.bind_eq_some_iff] at h
      obtain ⟨e, hprint, heq⟩ := h
      obtain ⟨rfl, -⟩ := Prod.mk.inj (Option.some.inj heq)
      obtain ⟨cs, -, hcs⟩ := Option.map_eq_some_iff.mp hprint
      cases hcs
    case isFalse hs =>
      obtain ⟨hc, hpair⟩ := Prod.mk.inj (Option.some.inj h)
      obtain ⟨rfl, rfl⟩ := Prod.mk.inj hpair
      exact ⟨hi, hs, Emitted.putchar.inj hc, rfl, rfl⟩

/-- Where the next argument is an `int`, a string comes of `%i` alone. -/
theorem printfSwitch_int {i : Int} {cs : List UInt8}
    (h : printfSwitch text d (.int i :: args) mem
      = some (.print cs, args', mem')) :
    d = 0x69 ∧ args' = args
      ∧ ∃ s, itoaIn text i mem = some (s, mem') := by
  unfold printfSwitch at h
  split at h
  case isTrue hi =>
    simp only [Option.bind_eq_bind, Option.bind_eq_some_iff] at h
    obtain ⟨⟨s, m⟩, hitoa, e, -, heq⟩ := h
    obtain ⟨-, hpair⟩ := Prod.mk.inj (Option.some.inj heq)
    obtain ⟨rfl, rfl⟩ := Prod.mk.inj hpair
    exact ⟨hi, rfl, s, hitoa⟩
  case isFalse =>
    split at h
    case isTrue => cases h
    case isFalse => cases h

/-- Where it is a string, of `%s` alone. -/
theorem printfSwitch_str {s : Nat} {cs : List UInt8}
    (h : printfSwitch text d (.str s :: args) mem
      = some (.print cs, args', mem')) :
    d = 0x73 ∧ args' = args ∧ mem' = mem ∧ IsStr mem s cs := by
  unfold printfSwitch at h
  split at h
  case isTrue => cases h
  case isFalse =>
    split at h
    case isTrue hs =>
      simp only [Option.bind_eq_bind, Option.bind_eq_some_iff] at h
      obtain ⟨e, hprint, heq⟩ := h
      obtain ⟨rfl, hpair⟩ := Prod.mk.inj (Option.some.inj heq)
      obtain ⟨rfl, rfl⟩ := Prod.mk.inj hpair
      exact ⟨hs, rfl, rfl, isStr_of_print hprint⟩
    case isFalse => cases h

end Switch

-- ==================================================================== a piece

section Pieces

variable {text turns p fmt : Nat} {cs : List UInt8} {args : List PrintfArg}
  {es : List Emitted} {mem : Nat → UInt8}

/-- What is printed from `p` on ends behind it. -/
theorem Prints.start_le
    (h : Prints fmt cs es (printfLoop text turns p args mem)) :
    p ≤ fmt + cs.length := by
  cases turns with
  | zero => cases h.emits
  | succ turns =>
      refine h.inside p ?_
      rw [printfLoop, log_bind, log_look]
      exact List.mem_append_left _ (List.mem_singleton.mpr rfl)

/-- A piece that is emitted, and the rest behind it. -/
theorem prints_cons_iff {x : Traced Nat (Option (List Emitted))}
    {e e' : Emitted} {l : List Nat}
    (hval : x.val = (printfLoop text turns p args mem).val.map (e' :: ·))
    (hlog : x.log = l ++ (printfLoop text turns p args mem).log)
    (hl : ∀ a ∈ l, a ≤ p) :
    Prints fmt cs (e :: es) x
      ↔ e' = e ∧ Prints fmt cs es (printfLoop text turns p args mem) := by
  constructor
  · rintro ⟨hemits, hinside⟩
    rw [hval] at hemits
    obtain ⟨es', hes', heq⟩ := Option.map_eq_some_iff.mp hemits
    obtain ⟨rfl, rfl⟩ := List.cons.inj heq
    exact ⟨rfl, hes', fun a ha => hinside a
      (hlog ▸ List.mem_append_right _ ha)⟩
  · rintro ⟨rfl, hrest⟩
    refine ⟨by rw [hval, hrest.emits]; rfl, fun a ha => ?_⟩
    rw [hlog] at ha
    rcases List.mem_append.mp ha with ha | ha
    · exact (hl a ha).trans hrest.start_le
    · exact hrest.inside a ha

/-- At the terminator nothing more is emitted, and only there. -/
theorem prints_nil_iff :
    Prints fmt cs [] (printfLoop text (turns + 1) p args mem)
      ↔ mem p = 0x00 ∧ p ≤ fmt + cs.length := by
  constructor
  · intro h
    refine ⟨?_, h.start_le⟩
    by_contra hzero
    have hemits := h.emits
    by_cases hc : mem p = 0x25
    · cases hswitch : printfSwitch text (mem (p + 1)) args mem with
      | none =>
          rw [printfLoop_none hc rfl hswitch] at hemits
          cases hemits
      | some r =>
          rw [(printfLoop_percent hc rfl hswitch).1] at hemits
          obtain ⟨es', -, heq⟩ := Option.map_eq_some_iff.mp hemits
          cases heq
    · rw [(printfLoop_literal rfl hzero hc).1] at hemits
      obtain ⟨es', -, heq⟩ := Option.map_eq_some_iff.mp hemits
      cases heq
  · rintro ⟨hend, hle⟩
    rw [printfLoop_end hend]
    refine ⟨rfl, fun a ha => ?_⟩
    rw [List.mem_singleton.mp ha]
    exact hle

/-- Elsewhere it is the literal character that is emitted, or at a `%` what
the switch makes of the next. -/
theorem prints_turn_iff {e : Emitted} :
    Prints fmt cs (e :: es) (printfLoop text (turns + 1) p args mem)
      ↔ (mem p ≠ 0x00 ∧ mem p ≠ 0x25 ∧ .putchar (mem p) = e
          ∧ Prints fmt cs es (printfLoop text turns (p + 1) args mem))
        ∨ (mem p = 0x25 ∧ ∃ args' mem',
            printfSwitch text (mem (p + 1)) args mem = some (e, args', mem')
            ∧ Prints fmt cs es (printfLoop text turns (p + 2) args' mem')) := by
  by_cases hzero : mem p = 0x00
  · refine iff_of_false (fun h => ?_) ?_
    · have hemits := h.emits
      rw [printfLoop_end hzero] at hemits
      cases hemits
    · rintro (⟨hne, -⟩ | ⟨hc, -⟩)
      · exact hne hzero
      · rw [hzero] at hc
        cases hc
  by_cases hc : mem p = 0x25
  · have hno : ∀ {q : Prop}, (mem p ≠ 0x00 ∧ mem p ≠ 0x25 ∧ q) → False :=
      fun h => h.2.1 hc
    rw [or_iff_right hno]
    cases hswitch : printfSwitch text (mem (p + 1)) args mem with
    | none =>
        refine iff_of_false (fun h => ?_) (fun h => ?_)
        · have hemits := h.emits
          rw [printfLoop_none hc rfl hswitch] at hemits
          cases hemits
        · obtain ⟨-, args', mem', heq, -⟩ := h
          cases heq
    | some r =>
        obtain ⟨e', args', mem'⟩ := r
        obtain ⟨hval, hlog⟩ :=
          @printfLoop_percent text turns p args mem _ hc rfl _ _ _ hswitch
        rw [prints_cons_iff hval hlog ?_]
        · constructor
          · rintro ⟨rfl, hrest⟩
            exact ⟨hc, args', mem', rfl, hrest⟩
          · rintro ⟨-, args'', mem'', heq, hrest⟩
            obtain ⟨rfl, hpair⟩ := Prod.mk.inj (Option.some.inj heq)
            obtain ⟨rfl, rfl⟩ := Prod.mk.inj hpair
            exact ⟨rfl, hrest⟩
        · intro a ha
          simp only [List.mem_cons, List.not_mem_nil, or_false] at ha
          omega
  · obtain ⟨hval, hlog⟩ := @printfLoop_literal text turns p args mem _ rfl
      hzero hc
    rw [or_iff_left (fun h => hc h.1), prints_cons_iff hval hlog ?_]
    · exact ⟨fun h => ⟨hzero, hc, h⟩, fun h => h.2.2⟩
    · intro a ha
      rw [List.mem_singleton.mp ha]
      exact Nat.le_succ p

/-- A character is emitted where it is spelt. -/
theorem prints_putchar_iff {c : UInt8} :
    Prints fmt cs (.putchar c :: es) (printfLoop text (turns + 1) p args mem)
      ↔ ∃ q, Spelt mem p c q
        ∧ Prints fmt cs es (printfLoop text turns q args mem) := by
  rw [prints_turn_iff]
  constructor
  · rintro (⟨hzero, hc, heq, hrest⟩ | ⟨hc, args', mem', hswitch, hrest⟩)
    · obtain rfl := Emitted.putchar.inj heq
      exact ⟨p + 1, .inl ⟨rfl, hzero, hc, rfl⟩, hrest⟩
    · obtain ⟨hi, hs, heq, rfl, rfl⟩ := printfSwitch_putchar hswitch
      exact ⟨p + 2, .inr ⟨hc, heq, heq ▸ hi, heq ▸ hs, rfl⟩, hrest⟩
  · rintro ⟨q, ⟨rfl, hzero, hc, rfl⟩ | ⟨hc, rfl, hi, hs, rfl⟩, hrest⟩
    · exact .inl ⟨hzero, hc, rfl, hrest⟩
    · refine .inr ⟨hc, args, mem, ?_, hrest⟩
      unfold printfSwitch
      rw [if_neg hi, if_neg hs]

/-- A numeral is emitted at a `%i`, with the buffer as that leaves it. -/
theorem prints_int_iff (htext : text + textSize ≤ memorySize) {i : Int}
    (hge : -2147483648 ≤ i) (hlt : i < 2147483648) :
    Prints fmt cs (.print (decimal i) :: es)
        (printfLoop text (turns + 1) p (.int i :: args) mem)
      ↔ mem p = 0x25 ∧ mem (p + 1) = 0x69
        ∧ ∀ r, itoaIn text i mem = some r →
          Prints fmt cs es (printfLoop text turns (p + 2) args r.2) := by
  obtain ⟨s, mem', hitoa, hnumeral, hend, -⟩ :=
    itoaIn_decimal text hge hlt mem
  rw [prints_turn_iff]
  constructor
  · rintro (⟨-, -, heq, -⟩ | ⟨hc, args', mem'', hswitch, hrest⟩)
    · cases heq
    · obtain ⟨hi, rfl, s', hitoa'⟩ := printfSwitch_int hswitch
      refine ⟨hc, hi, fun r hr => ?_⟩
      rw [hitoa'] at hr
      obtain rfl := Option.some.inj hr
      exact hrest
  · rintro ⟨hc, hi, hrest⟩
    refine .inr ⟨hc, args, mem', ?_, hrest _ hitoa⟩
    unfold printfSwitch
    rw [if_pos hi]
    simp only [hitoa, print_eq hnumeral (by omega), Option.bind_eq_bind,
      Option.bind_some]

/-- A string is emitted at a `%s` if it is the one at its address. -/
theorem prints_str_iff {s : Nat} {cs₀ : List UInt8}
    (hend : s + cs₀.length < memorySize) :
    Prints fmt cs (.print cs₀ :: es)
        (printfLoop text (turns + 1) p (.str s :: args) mem)
      ↔ mem p = 0x25 ∧ mem (p + 1) = 0x73 ∧ IsStr mem s cs₀
        ∧ Prints fmt cs es (printfLoop text turns (p + 2) args mem) := by
  rw [prints_turn_iff]
  constructor
  · rintro (⟨-, -, heq, -⟩ | ⟨hc, args', mem', hswitch, hrest⟩)
    · cases heq
    · obtain ⟨hs, rfl, rfl, hstr⟩ := printfSwitch_str hswitch
      exact ⟨hc, hs, hstr, hrest⟩
  · rintro ⟨hc, hs, hstr, hrest⟩
    refine .inr ⟨hc, args, mem, ?_, hrest⟩
    unfold printfSwitch
    rw [if_neg (by rw [hs]; decide), if_pos hs]
    simp only [print_eq hstr hend, Option.bind_eq_bind, Option.bind_some]

end Pieces

-- ==================================================================== the loop

/-- Directive by directive: what is asked for is printed exactly where the
format and the strings are kept. -/
theorem prints_iff {text fmt : Nat} (htext : text + textSize ≤ memorySize)
    {mem₀ : Nat → UInt8} {cs : List UInt8} {ds : List Directive}
    {args : List PrintfArg} {es : List Emitted} (h : Asks mem₀ ds args es) :
    ∀ {turns p : Nat} {mem : Nat → UInt8}, ds.length < turns →
      (Prints fmt cs es (printfLoop text turns p args mem)
        ↔ FormatKept text (fmt + cs.length) ds args p mem
          ∧ StringsKept text mem₀ ds args mem) := by
  induction h with
  | nil args =>
      intro turns p mem hturns
      obtain ⟨turns, rfl⟩ := Nat.exists_eq_succ_of_ne_zero (Nat.ne_of_gt hturns)
      rw [prints_nil_iff]
      exact (and_iff_left trivial).symm
  | lone args =>
      intro turns p mem hturns
      obtain ⟨turns, rfl⟩ := Nat.exists_eq_succ_of_ne_zero
        (Nat.ne_of_gt (Nat.zero_lt_of_lt hturns))
      rw [prints_nil_iff]
      exact (and_iff_left trivial).symm
  | literal _ ih =>
      intro turns p mem hturns
      rw [List.length_cons] at hturns
      obtain ⟨turns, rfl⟩ : ∃ k, turns = k + 1 := ⟨turns - 1, by omega⟩
      rw [prints_putchar_iff, formatKept_literal, stringsKept_literal,
        ← exists_and_right]
      refine exists_congr fun q => ?_
      rw [ih (by omega), and_assoc]
  | other _ ih =>
      intro turns p mem hturns
      rw [List.length_cons] at hturns
      obtain ⟨turns, rfl⟩ : ∃ k, turns = k + 1 := ⟨turns - 1, by omega⟩
      rw [prints_putchar_iff, formatKept_other, stringsKept_other,
        ← exists_and_right]
      refine exists_congr fun q => ?_
      rw [ih (by omega), and_assoc]
  | @int i ds args es hge hlt _ ih =>
      intro turns p mem hturns
      rw [List.length_cons] at hturns
      obtain ⟨turns, rfl⟩ : ∃ k, turns = k + 1 := ⟨turns - 1, by omega⟩
      obtain ⟨s, mem', hitoa, -⟩ := itoaIn_decimal text hge hlt mem
      have honly : ∀ {P : Nat × (Nat → UInt8) → Prop},
          (∀ r, itoaIn text i mem = some r → P r) ↔ P (s, mem') := by
        intro P
        rw [hitoa]
        exact ⟨fun h => h _ rfl, fun h r hr => Option.some.inj hr ▸ h⟩
      rw [prints_int_iff htext hge hlt, FormatKept, StringsKept, honly, honly,
        honly, ih (by omega), and_assoc, and_assoc]
  | @str s cs₀ ds args es hcs₀ hend _ ih =>
      intro turns p mem hturns
      rw [List.length_cons] at hturns
      obtain ⟨turns, rfl⟩ : ∃ k, turns = k + 1 := ⟨turns - 1, by omega⟩
      have hsame : (∀ cs', IsStr mem₀ s cs' → IsStr mem s cs')
          ↔ IsStr mem s cs₀ :=
        ⟨fun hall => hall cs₀ hcs₀,
          fun hstr cs' hcs' => IsStr.unique _ hcs₀ hcs' ▸ hstr⟩
      rw [prints_str_iff hend, FormatKept, StringsKept, hsame, ih (by omega)]
      constructor
      · rintro ⟨hc, hs, hstr, hformat, hstrings⟩
        exact ⟨⟨hc, hs, hformat⟩, hstr, hstrings⟩
      · rintro ⟨⟨hc, hs, hformat⟩, hstr, hstrings⟩
        exact ⟨hc, hs, hstr, hformat, hstrings⟩

-- ================================================================ the format

section Format

variable {text stop p q : Nat} {c d : UInt8} {mem : Nat → UInt8}

theorem spelt_literal (hp : mem p = c) (hzero : c ≠ 0x00) (hc : c ≠ 0x25) :
    Spelt mem p c q ↔ q = p + 1 := by
  constructor
  · rintro (⟨-, -, -, hq⟩ | ⟨hpercent, -⟩)
    · exact hq
    · exact absurd (hp.symm.trans hpercent) hc
  · exact fun hq => .inl ⟨hp, hzero, hc, hq⟩

theorem spelt_percent (hp : mem p = 0x25) (hd : mem (p + 1) = d)
    (hi : d ≠ 0x69) (hs : d ≠ 0x73) : Spelt mem p d q ↔ q = p + 2 := by
  constructor
  · rintro (⟨hc, -, hne, -⟩ | ⟨-, -, -, -, hq⟩)
    · exact absurd (hc.symm.trans hp) hne
    · exact hq
  · exact fun hq => .inr ⟨hp, hd, hi, hs, hq⟩

theorem length_directives_le (cs : List UInt8) :
    (directives cs).length ≤ cs.length := by
  induction cs using directives.induct with
  | case1 => exact Nat.le_refl 0
  | case2 c hc => rw [directives, if_pos hc]; exact Nat.le_refl 1
  | case3 c hc => rw [directives, if_neg hc]; exact Nat.le_refl 1
  | case4 c d cs hc ih =>
      rw [directives, if_pos hc]
      exact Nat.succ_le_succ ih
  | case5 c cs hc ih =>
      rw [directives, if_neg hc, if_pos rfl]
      exact Nat.succ_le_succ (ih.trans (Nat.le_succ _))
  | case6 c cs hc hi ih =>
      rw [directives, if_neg hc, if_neg hi, if_pos rfl]
      exact Nat.succ_le_succ (ih.trans (Nat.le_succ _))
  | case7 c d cs hc hi hs ih =>
      rw [directives, if_neg hc, if_neg hi, if_neg hs]
      exact Nat.succ_le_succ (ih.trans (Nat.le_succ _))

/-- A format apart from the buffer of `itoa` is kept, unless a `%` ends
it. -/
theorem formatKept_apart {mem₀ : Nat → UInt8} (cs : List UInt8) :
    ∀ {p : Nat} {args : List PrintfArg} {es : List Emitted}
      {mem : Nat → UInt8}, IsStr mem p cs →
      (p + cs.length < text ∨ text + textSize ≤ p) → p + cs.length ≤ stop →
      Asks mem₀ (directives cs) args es →
      (FormatKept text stop (directives cs) args p mem
        ↔ .lone ∉ directives cs) := by
  -- a character by itself, in front of what is left
  have hliteral : ∀ {c : UInt8} {cs : List UInt8} {p : Nat}
      {args : List PrintfArg} {mem : Nat → UInt8}, c ≠ 0x25 →
      mem p = c → c ≠ 0x00 →
      (FormatKept text stop (directives cs) args (p + 1) mem
        ↔ .lone ∉ directives cs) →
      (FormatKept text stop (.literal c :: directives cs) args p mem
        ↔ .lone ∉ .literal c :: directives cs) := by
    intro c cs p args mem hc hp hzero hrest
    rw [formatKept_literal]
    simp only [spelt_literal hp hzero hc, exists_eq_left, hrest]
    simp
  induction cs using directives.induct with
  | case1 =>
      intro p args es mem hstr _ hstop _
      exact iff_of_true ⟨hstr, hstop⟩ List.not_mem_nil
  | case2 c hc =>
      intro p args es mem hstr _ hstop _
      obtain ⟨hzero, hp, hend⟩ := hstr
      rw [directives_literal hc]
      exact hliteral hc hp hzero
        (iff_of_true ⟨hend, hstop⟩ List.not_mem_nil)
  | case3 c hc =>
      intro p args es mem hstr _ _ _
      obtain ⟨hzero, hp, -⟩ := hstr
      rw [directives, if_neg hc]
      refine iff_of_false (fun h => hzero (hp.symm.trans h.1)) (fun h => ?_)
      exact h (List.mem_singleton.mpr rfl)
  | case4 c d cs hc ih =>
      intro p args es mem hstr hapart hstop hasks
      obtain ⟨hzero, hp, hrest⟩ := hstr
      rw [directives_literal hc] at hasks ⊢
      rw [List.length_cons] at hapart hstop
      cases hasks with
      | literal hasks =>
          exact hliteral hc hp hzero
            (ih hrest (by omega) (by omega) hasks)
  | case5 c cs hc ih =>
      intro p args es mem hstr hapart hstop hasks
      obtain rfl := not_not.mp hc
      obtain ⟨-, hp, -, hd, hrest⟩ := hstr
      rw [directives_percent, if_pos rfl] at hasks ⊢
      rw [List.length_cons, List.length_cons] at hapart hstop
      cases hasks with
      | @int i _ args _ hge hlt hasks =>
          obtain ⟨s, mem', hitoa, -, -, hsame⟩ :=
            itoaIn_decimal text hge hlt mem
          -- the conversion leaves the format alone
          have hrest' : IsStr mem' (p + 2) cs :=
            IsStr.frame cs (fun a ha hle => hsame a (by omega)) hrest
          have hih := ih hrest' (by omega) (by omega) hasks
          rw [FormatKept, hitoa]
          constructor
          · intro h
            have hnot := hih.mp (h.2.2 _ rfl)
            simpa using hnot
          · intro h
            refine ⟨hp, hd, fun r hr => Option.some.inj hr ▸ hih.mpr ?_⟩
            simpa using h
  | case6 c cs hc _ ih =>
      intro p args es mem hstr hapart hstop hasks
      obtain rfl := not_not.mp hc
      obtain ⟨-, hp, -, hd, hrest⟩ := hstr
      rw [directives_percent, if_neg (by decide), if_pos rfl] at hasks ⊢
      rw [List.length_cons, List.length_cons] at hapart hstop
      cases hasks with
      | @str s cs₀ _ args es hcs₀ hend hasks =>
          rw [FormatKept, ih hrest (by omega) (by omega) hasks]
          simp [hp, hd]
  | case7 c d cs hc hi hs ih =>
      intro p args es mem hstr hapart hstop hasks
      obtain rfl := not_not.mp hc
      obtain ⟨-, hp, -, hd, hrest⟩ := hstr
      rw [directives_percent, if_neg hi, if_neg hs] at hasks ⊢
      rw [List.length_cons, List.length_cons] at hapart hstop
      cases hasks with
      | other hasks =>
          rw [formatKept_other]
          simp only [spelt_percent hp hd hi hs, exists_eq_left,
            ih hrest (by omega) (by omega) hasks]
          simp

end Format

-- =================================================================== the call

/-- A call prints what is asked of it, and reads the format up to its
terminator, exactly where the conversions leave the directives and the
strings that are still to come as they were; which they do to a format
apart from the buffer of `itoa` if no `%` ends it. -/
theorem printf_exact {text fmt turns : Nat} {cs : List UInt8}
    {args : List PrintfArg} {es : List Emitted} {mem : Nat → UInt8}
    (htext : text + textSize ≤ memorySize) (hfmt : IsStr mem fmt cs)
    (hargs : Asks mem (directives cs) args es) (hturns : cs.length < turns) :
    (Prints fmt cs es (printf text turns fmt args mem)
      ↔ FormatKept text (fmt + cs.length) (directives cs) args fmt mem
        ∧ StringsKept text mem (directives cs) args mem)
      ∧ ((fmt + cs.length < text ∨ text + textSize ≤ fmt) →
        (FormatKept text (fmt + cs.length) (directives cs) args fmt mem
          ↔ .lone ∉ directives cs)) :=
  ⟨prints_iff htext hargs (Nat.lt_of_le_of_lt (length_directives_le cs) hturns),
    fun hapart => formatKept_apart cs hfmt hapart (Nat.le_refl _) hargs⟩

/-- The bytes of a list from an address on, and zeros. -/
def bytesAt (p : Nat) (cs : List UInt8) (a : Nat) : UInt8 :=
  if a < p then 0x00 else cs.getD (a - p) 0x00

/-- The format `n=%i%%` with the least `int`; the string that `itoa(7)`
answers, as a format; and `%i-%i` at the start of the buffer, which the
first number overwrites. -/
theorem printf_exact_buffer :
    Prints 16 [0x6E, 0x3D, 0x25, 0x69, 0x25, 0x25]
        [.putchar 0x6E, .putchar 0x3D, .print (decimal (-2147483648)),
          .putchar 0x25]
        (printf 0 7 16 [.int (-2147483648)]
          (bytesAt 16 [0x6E, 0x3D, 0x25, 0x69, 0x25, 0x25]))
      ∧ Prints 10 [0x37] [.putchar 0x37] (printf 0 2 10 [] (bytesAt 10 [0x37]))
      ∧ ¬ Prints 0 [0x25, 0x69, 0x2D, 0x25, 0x69]
        [.print (decimal 1234567890), .putchar 0x2D, .print (decimal 2)]
        (printf 0 6 0 [.int 1234567890, .int 2]
          (bytesAt 0 [0x25, 0x69, 0x2D, 0x25, 0x69])) := by
  refine ⟨?_, ?_, fun h => ?_⟩
  · obtain ⟨hprints, hformat⟩ := @printf_exact 0 16 7
      [0x6E, 0x3D, 0x25, 0x69, 0x25, 0x25] [.int (-2147483648)] _
      (bytesAt 16 [0x6E, 0x3D, 0x25, 0x69, 0x25, 0x25])
      (by decide) (by simp [IsStr, bytesAt])
      (.literal (.literal (.int (by decide) (by decide)
        (.other (.nil []))))) (by decide)
    refine hprints.mpr ⟨(hformat (by decide)).mpr (by decide), ?_⟩
    exact fun r _ => trivial
  · refine (printf_exact (by decide) (by simp [IsStr, bytesAt])
      (.literal (.nil [])) (by decide)).1.mpr ⟨?_, trivial⟩
    exact ⟨11, by simp [Spelt, bytesAt], by decide, by decide⟩
  · have hformat := ((printf_exact (by decide) (by simp [IsStr, bytesAt])
      (.int (by decide) (by decide) (.literal (.int (by decide) (by decide)
        (.nil [])))) (by decide)).1.mp h).1
    -- behind the first number stands its second digit
    have hdigit : ((itoaIn 0 1234567890
        (bytesAt 0 [0x25, 0x69, 0x2D, 0x25, 0x69])).map fun r => r.2 2)
        = some 0x32 := by decide +kernel
    obtain ⟨r, hr, htwo⟩ := Option.map_eq_some_iff.mp hdigit
    obtain ⟨q, ⟨hminus, -⟩ | ⟨hpercent, -⟩, -⟩ := hformat.2.2 r hr
    · rw [htwo] at hminus
      exact absurd hminus (by decide)
    · rw [htwo] at hpercent
      exact absurd hpercent (by decide)

/-- The format `%`: the terminator is stepped over. -/
theorem printf_reads_past_terminator :
    ¬ ∀ (text fmt turns : Nat) (cs : List UInt8) (args : List PrintfArg)
        (es : List Emitted) (mem : Nat → UInt8),
      text + textSize ≤ memorySize → IsStr mem fmt cs →
      (fmt + cs.length < text ∨ text + textSize ≤ fmt) →
      Asks mem (directives cs) args es → cs.length < turns →
      Prints fmt cs es (printf text turns fmt args mem) := by
  intro h
  have hprints := h 0 16 2 [0x25] [] [] (bytesAt 16 [0x25])
    (by decide) (by simp [IsStr, bytesAt]) (by decide) (.lone []) (by decide)
  have hnull : bytesAt 16 [0x25] 16 = 0x00 ∧ 16 ≤ 16 + [0x25].length :=
    ((@prints_iff 0 16 (by decide) (bytesAt 16 [0x25]) [0x25] _ _ _
      (.lone []) 2 16 _ (by decide)).mp hprints).1
  exact absurd hnull.1 (by decide)

end BenOS.Stdlib
