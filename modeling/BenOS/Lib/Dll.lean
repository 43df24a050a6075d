/-
Doubly linked lists threaded through two link functions.

`next` and `prev` give the links of every node, null being `none`; the
nodes may be anything. `IsDll next prev head tail xs` says that from the
entry points `head` and `tail` they thread exactly the list `xs`, no
node twice. Following the links from an entry point then visits the list
and stops (`follow_next`, `follow_prev`). The two edits at the tail end
are stated by what the new links agree with: `IsDll.snoc` for a node
linked in behind the last one, `IsDll.unsnoc` for the last one linked
out.
-/
import Mathlib.Data.List.Nodup

namespace BenOS.Lib

variable {α : Type}

/-- The nodes met by following `link` from `p`, at most `n` of them. -/
def follow (link : α → Option α) : Nat → Option α → List α
  | 0, _ => []
  | _ + 1, none => []
  | n + 1, some a => a :: follow link n (link a)

/-- A walk that visits a list and stops gives the links along it. -/
theorem links_of_follow {link : α → Option α} {xs : List α} :
    ∀ {p : Option α}, follow link (xs.length + 1) p = xs →
      p = xs.head? ∧ ∀ (i : Nat) (hi : i < xs.length),
        link xs[i] = xs[i + 1]? := by
  induction xs with
  | nil =>
      intro p h
      cases p with
      | none => exact ⟨rfl, fun i hi => absurd hi (Nat.not_lt_zero i)⟩
      | some a => cases h
  | cons a xs ih =>
      intro p h
      cases p with
      | none => cases h
      | some b =>
          obtain ⟨rfl, hrest⟩ := List.cons.inj h
          obtain ⟨hfirst, hlinks⟩ := ih hrest
          refine ⟨rfl, fun i hi => ?_⟩
          cases i with
          | zero =>
              rw [List.getElem_cons_zero, hfirst, List.head?_eq_getElem?]
              rfl
          | succ i => exact hlinks i (by simpa using hi)

/-- The links thread the list `xs` between `head` and `tail`. -/
structure IsDll (next prev : α → Option α) (head tail : Option α)
    (xs : List α) : Prop where
  nodup : xs.Nodup
  head_eq : head = xs.head?
  tail_eq : tail = xs.getLast?
  next_eq : ∀ (i : Nat) (hi : i < xs.length), next xs[i] = xs[i + 1]?
  prev_eq : ∀ (i : Nat) (hi : i + 1 < xs.length), prev xs[i + 1] = some xs[i]
  prev_head : ∀ a, xs.head? = some a → prev a = none

variable {next prev next' prev' : α → Option α} {head tail : Option α}
  {xs : List α}

-- ========================================================== the empty list

/-- Nothing linked. -/
theorem IsDll.nil (next prev : α → Option α) :
    IsDll next prev none none [] := by
  refine ⟨List.nodup_nil, rfl, rfl, ?_, ?_, ?_⟩
  · intro i hi
    exact absurd hi (Nat.not_lt_zero i)
  · intro i hi
    exact absurd hi (Nat.not_lt_zero _)
  · intro a ha
    cases ha

-- ========================================================== reading it off

/-- The links read backwards thread the reversed list. -/
theorem IsDll.reverse (h : IsDll next prev head tail xs) :
    IsDll prev next tail head xs.reverse := by
  obtain ⟨hnodup, hhead, htail, hnext, hprev, hfirst⟩ := h
  refine ⟨List.nodup_reverse.mpr hnodup, by simp [htail], by simp [hhead],
    ?_, ?_, ?_⟩
  · intro i hi
    rw [List.length_reverse] at hi
    rw [List.getElem_reverse]
    by_cases hlast : i + 1 < xs.length
    · rw [List.getElem?_reverse hlast]
      have hp := hprev (xs.length - 1 - (i + 1)) (by omega)
      have hidx : xs.length - 1 - (i + 1) + 1 = xs.length - 1 - i := by omega
      simp only [hidx] at hp
      rw [hp, List.getElem?_eq_getElem]
    · rw [List.getElem?_eq_none (by rw [List.length_reverse]; omega)]
      refine hfirst _ ?_
      have hidx : xs.length - 1 - i = 0 := by omega
      simp only [hidx]
      rw [List.head?_eq_getElem?, List.getElem?_eq_getElem (by omega)]
  · intro i hi
    rw [List.length_reverse] at hi
    simp only [List.getElem_reverse]
    have hn := hnext (xs.length - 1 - (i + 1)) (by omega)
    have hidx : xs.length - 1 - (i + 1) + 1 = xs.length - 1 - i := by omega
    rw [hidx] at hn
    rw [hn, List.getElem?_eq_getElem]
  · intro a ha
    rw [List.head?_reverse, List.getLast?_eq_getElem?] at ha
    have hlt : xs.length - 1 < xs.length := by
      by_contra hge
      rw [List.getElem?_eq_none (by omega)] at ha
      cases ha
    rw [List.getElem?_eq_getElem hlt] at ha
    injection ha with ha
    rw [← ha, hnext _ hlt, List.getElem?_eq_none (by omega)]

/-- Following `next` from inside the list visits what lies behind. -/
theorem IsDll.follow_drop (h : IsDll next prev head tail xs) :
    ∀ (n i : Nat), i + n = xs.length →
      follow next (n + 1) xs[i]? = xs.drop i := by
  intro n
  induction n with
  | zero =>
      intro i hi
      rw [List.getElem?_eq_none (by omega), List.drop_eq_nil_of_le (by omega)]
      rfl
  | succ n ih =>
      intro i hi
      have hlt : i < xs.length := by omega
      rw [List.getElem?_eq_getElem hlt, follow, h.next_eq i hlt,
        ih (i + 1) (by omega), List.drop_eq_getElem_cons hlt]

/-- Following `next` from the head visits the list and stops. -/
theorem IsDll.follow_next (h : IsDll next prev head tail xs) :
    follow next (xs.length + 1) head = xs := by
  have hdrop := h.follow_drop xs.length 0 (by omega)
  rw [h.head_eq, List.head?_eq_getElem?, hdrop, List.drop_zero]

/-- Following `prev` from the tail visits the list in reverse and
stops. -/
theorem IsDll.follow_prev (h : IsDll next prev head tail xs) :
    follow prev (xs.length + 1) tail = xs.reverse := by
  have hrev := h.reverse.follow_next
  rwa [List.length_reverse] at hrev

/-- A link leads to a node of the list. -/
theorem IsDll.next_mem (h : IsDll next prev head tail xs) {a b : α}
    (ha : a ∈ xs) (hab : next a = some b) : b ∈ xs := by
  obtain ⟨i, hi, rfl⟩ := List.mem_iff_getElem.mp ha
  rw [h.next_eq i hi] at hab
  exact List.mem_of_getElem? hab

/-- A back link leads to a node of the list. -/
theorem IsDll.prev_mem (h : IsDll next prev head tail xs) {a b : α}
    (ha : a ∈ xs) (hab : prev a = some b) : b ∈ xs := by
  have hrev := h.reverse.next_mem (List.mem_reverse.mpr ha) hab
  exact List.mem_reverse.mp hrev

/-- A node with a successor is the successor's predecessor. -/
theorem IsDll.prev_of_next (h : IsDll next prev head tail xs) {a b : α}
    (ha : a ∈ xs) (hab : next a = some b) : prev b = some a := by
  obtain ⟨i, hi, rfl⟩ := List.mem_iff_getElem.mp ha
  rw [h.next_eq i hi] at hab
  obtain ⟨hlt, hb⟩ := List.getElem?_eq_some_iff.mp hab
  rw [← hb]
  exact h.prev_eq i hlt

/-- No node is its own successor. -/
theorem IsDll.next_ne (h : IsDll next prev head tail xs) {a : α}
    (ha : a ∈ xs) : next a ≠ some a := by
  obtain ⟨i, hi, rfl⟩ := List.mem_iff_getElem.mp ha
  rw [h.next_eq i hi]
  intro heq
  obtain ⟨hlt, hsame⟩ := List.getElem?_eq_some_iff.mp heq
  have hidx := (List.Nodup.getElem_inj_iff h.nodup).mp hsame
  omega

/-- No node is its own predecessor. -/
theorem IsDll.prev_ne (h : IsDll next prev head tail xs) {a : α}
    (ha : a ∈ xs) : prev a ≠ some a :=
  h.reverse.next_ne (List.mem_reverse.mpr ha)

/-- Only the last node has no successor. -/
theorem IsDll.next_eq_none_iff (h : IsDll next prev head tail xs) {a : α}
    (ha : a ∈ xs) : next a = none ↔ tail = some a := by
  obtain ⟨i, hi, rfl⟩ := List.mem_iff_getElem.mp ha
  rw [h.next_eq i hi, h.tail_eq, List.getLast?_eq_getElem?]
  constructor
  · intro hnone
    have hge : xs.length ≤ i + 1 := List.getElem?_eq_none_iff.mp hnone
    rw [show xs.length - 1 = i by omega, List.getElem?_eq_getElem hi]
  · intro hlast
    rw [List.getElem?_eq_getElem (by omega)] at hlast
    injection hlast with hlast
    have hidx := (List.Nodup.getElem_inj_iff h.nodup).mp hlast
    exact List.getElem?_eq_none (by omega)

-- ==================================================== edits at the tail end

/-- Link in a new node behind the last one. -/
theorem IsDll.snoc (h : IsDll next prev head tail xs) {x : α} (hx : x ∉ xs)
    {head' : Option α} (hhead : head' = head.or (some x))
    (hnext : ∀ a ∈ xs, tail ≠ some a → next' a = next a)
    (hlast : ∀ a, tail = some a → next' a = some x)
    (hnone : next' x = none) (hprev : ∀ a ∈ xs, prev' a = prev a)
    (hback : prev' x = tail) :
    IsDll next' prev' head' (some x) (xs ++ [x]) := by
  refine ⟨?_, ?_, by simp, ?_, ?_, ?_⟩
  · rw [List.nodup_append]
    refine ⟨h.nodup, List.nodup_singleton x, ?_⟩
    intro a ha b hb heq
    rw [List.mem_singleton] at hb
    rw [heq, hb] at ha
    exact hx ha
  · rw [hhead, h.head_eq, List.head?_append, List.head?_singleton]
  · intro i hi
    rw [List.length_append, List.length_singleton] at hi
    by_cases hlt : i < xs.length
    · rw [List.getElem_append_left hlt]
      have hmem : xs[i] ∈ xs := List.getElem_mem hlt
      by_cases hend : i + 1 < xs.length
      · have hne : tail ≠ some xs[i] := by
          intro htail
          have hnull := (h.next_eq_none_iff hmem).mpr htail
          rw [h.next_eq i hlt, List.getElem?_eq_getElem hend] at hnull
          cases hnull
        rw [hnext _ hmem hne, h.next_eq i hlt,
          List.getElem?_append_left hend]
      · have hidx : i + 1 = xs.length := by omega
        have htail : tail = some xs[i] := by
          rw [← h.next_eq_none_iff hmem, h.next_eq i hlt]
          exact List.getElem?_eq_none (by omega)
        rw [hlast _ htail, hidx]
        simp
    · have hidx : i = xs.length := by omega
      subst hidx
      rw [List.getElem_concat_length rfl, hnone,
        List.getElem?_eq_none (by simp)]
  · intro i hi
    rw [List.length_append, List.length_singleton] at hi
    have hlt : i < xs.length := by omega
    by_cases hend : i + 1 < xs.length
    · rw [List.getElem_append_left hend, List.getElem_append_left hlt,
        hprev _ (List.getElem_mem hend), h.prev_eq i hend]
    · have hidx : i + 1 = xs.length := by omega
      rw [List.getElem_append_left hlt,
        List.getElem_append_right (by omega)]
      simp only [List.getElem_singleton]
      rw [hback, h.tail_eq, List.getLast?_eq_getElem?,
        show xs.length - 1 = i by omega, List.getElem?_eq_getElem hlt]
  · intro a ha
    cases xs with
    | nil =>
        rw [List.nil_append, List.head?_cons] at ha
        injection ha with ha
        rw [← ha, hback, h.tail_eq]
        rfl
    | cons b xs =>
        rw [List.cons_append, List.head?_cons] at ha
        injection ha with ha
        rw [← ha, hprev b List.mem_cons_self]
        exact h.prev_head b rfl

/-- Link out the last node. -/
theorem IsDll.unsnoc {x : α} (h : IsDll next prev head tail (xs ++ [x]))
    {head' : Option α} (honly : head = some x → head' = none)
    (hhead : head ≠ some x → head' = head)
    (hnext : ∀ a ∈ xs, prev x ≠ some a → next' a = next a)
    (hlast : ∀ a, prev x = some a → next' a = none)
    (hprev : ∀ a ∈ xs, prev' a = prev a) :
    IsDll next' prev' head' (prev x) xs := by
  have hnodup := h.nodup
  rw [List.nodup_append] at hnodup
  obtain ⟨hxs, -, hout⟩ := hnodup
  have hx : x ∉ xs := fun hmem => hout x hmem x (List.mem_singleton_self x) rfl
  have hlen : (xs ++ [x]).length = xs.length + 1 := by simp
  have hback : prev x = xs.getLast? := by
    cases hxs' : xs.length with
    | zero =>
        have hnil : xs = [] := List.eq_nil_of_length_eq_zero hxs'
        subst hnil
        exact h.prev_head x rfl
    | succ n =>
        have hp := h.prev_eq n (by omega)
        rw [List.getElem_append_right (by omega),
          List.getElem_append_left (by omega)] at hp
        simp only [List.getElem_singleton] at hp
        rw [hp, List.getLast?_eq_getElem?, show xs.length - 1 = n by omega,
          List.getElem?_eq_getElem]
  refine ⟨hxs, ?_, hback, ?_, ?_, ?_⟩
  · have hfirst := h.head_eq
    cases xs with
    | nil => exact honly hfirst
    | cons a xs =>
        have hne : head ≠ some x := by
          rw [hfirst]
          intro heq
          injection heq with heq
          exact hx (heq ▸ List.mem_cons_self)
        rw [hhead hne, hfirst]
        rfl
  · intro i hi
    have hmem : xs[i] ∈ xs := List.getElem_mem hi
    by_cases hend : i + 1 < xs.length
    · have hne : prev x ≠ some xs[i] := by
        rw [hback, List.getLast?_eq_getElem?,
          List.getElem?_eq_getElem (by omega)]
        intro heq
        injection heq with heq
        have hidx := (List.Nodup.getElem_inj_iff hxs).mp heq
        omega
      have hn := h.next_eq i (by omega)
      rw [List.getElem_append_left hi, List.getElem?_append_left hend] at hn
      rw [hnext _ hmem hne, hn]
    · have heq : prev x = some xs[i] := by
        rw [hback, List.getLast?_eq_getElem?,
          show xs.length - 1 = i by omega, List.getElem?_eq_getElem hi]
      rw [hlast _ heq, List.getElem?_eq_none (by omega)]
  · intro i hi
    have hp := h.prev_eq i (by omega)
    rw [List.getElem_append_left hi, List.getElem_append_left] at hp
    rw [hprev _ (List.getElem_mem hi), hp]
  · intro a ha
    rw [hprev a (List.mem_of_head? ha)]
    refine h.prev_head a ?_
    rw [List.head?_append, ha]
    rfl

end BenOS.Lib
