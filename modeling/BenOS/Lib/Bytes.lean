/-
A byte-addressed memory of 32-bit addresses, and what a write to a span
of it leaves alone.

Addresses wrap, so a span is a start and a length going up from it, and
an address lies in it by its distance from the start (`InSpan`). Words
are little-endian.
-/
import Mathlib.Data.BitVec

namespace BenOS.Lib

/-- The memory: a byte at every address. -/
abbrev Bytes := BitVec 32 → UInt8

-- ================================================================= spans

/-- An address lies in the `n` bytes from `a` on. -/
def InSpan (a : BitVec 32) (n : Nat) (x : BitVec 32) : Prop :=
  (x - a).toNat < n

instance (a : BitVec 32) (n : Nat) (x : BitVec 32) : Decidable (InSpan a n x) :=
  inferInstanceAs (Decidable (_ < _))

/-- A part of a span lies in it. -/
theorem InSpan.of_part {a o x : BitVec 32} {n l : Nat}
    (h : InSpan (a + o) l x) (hpart : o.toNat + l ≤ n) : InSpan a n x := by
  unfold InSpan at h ⊢
  have hsplit : x - a = x - (a + o) + o := by
    rw [← sub_sub, sub_add_cancel]
  rw [hsplit, BitVec.toNat_add]
  have := Nat.mod_le ((x - (a + o)).toNat + o.toNat) (2 ^ 32)
  omega

/-- The `n` bytes from `a` on and the `k` bytes from `b` on share none. -/
def SpansApart (a : BitVec 32) (n : Nat) (b : BitVec 32) (k : Nat) : Prop :=
  ∀ x, InSpan a n x → ¬ InSpan b k x

theorem SpansApart.symm {a b : BitVec 32} {n k : Nat}
    (h : SpansApart a n b k) : SpansApart b k a n :=
  fun x hb ha => h x ha hb

/-- Spans are apart where each starts behind the end of the other, going
round. -/
theorem spansApart_of_dist {a b : BitVec 32} {n k : Nat}
    (hab : n ≤ (b - a).toNat) (hba : k ≤ (a - b).toNat) :
    SpansApart a n b k := by
  intro x hx hx'
  unfold InSpan at hx hx'
  simp only [BitVec.toNat_sub] at hab hba hx hx'
  have := a.isLt
  have := b.isLt
  have := x.isLt
  omega

/-- Two fields of one object are apart as their offsets are. -/
theorem spansApart_fields (p : BitVec 32) {o o' : BitVec 32} {n k : Nat}
    (hn : n ≤ (o' - o).toNat) (hk : k ≤ (o - o').toNat) :
    SpansApart (p + o) n (p + o') k := by
  refine spansApart_of_dist ?_ ?_
  · rw [add_sub_add_left_eq_sub]
    exact hn
  · rw [add_sub_add_left_eq_sub]
    exact hk

/-- Parts of spans that are apart are apart. -/
theorem SpansApart.parts {a b o p : BitVec 32} {n k l q : Nat}
    (h : SpansApart a n b k) (hl : o.toNat + l ≤ n) (hq : p.toNat + q ≤ k) :
    SpansApart (a + o) l (b + p) q :=
  fun x ha hb => h x (ha.of_part hl) (hb.of_part hq)

/-- A part of one of two spans that are apart is apart from the other. -/
theorem SpansApart.part {a b o : BitVec 32} {n k l : Nat}
    (h : SpansApart a n b k) (hl : o.toNat + l ≤ n) :
    SpansApart (a + o) l b k :=
  fun x ha hb => h x (ha.of_part hl) hb

/-- Two memories agree on a span. -/
def SameOn (a : BitVec 32) (n : Nat) (m m' : Bytes) : Prop :=
  ∀ x, InSpan a n x → m' x = m x

theorem SameOn.refl (a : BitVec 32) (n : Nat) (m : Bytes) : SameOn a n m m :=
  fun _ _ => rfl

theorem SameOn.trans {a : BitVec 32} {n : Nat} {m m' m'' : Bytes}
    (h : SameOn a n m m') (h' : SameOn a n m' m'') : SameOn a n m m'' :=
  fun x hx => (h' x hx).trans (h x hx)

/-- Memories that agree on a span agree on its parts. -/
theorem SameOn.part {a o : BitVec 32} {n l : Nat} {m m' : Bytes}
    (h : SameOn a n m m') (hl : o.toNat + l ≤ n) : SameOn (a + o) l m m' :=
  fun x hx => h x (hx.of_part hl)

/-- Two memories agree wherever an address is not one of these. -/
def SameBut (S : BitVec 32 → Prop) (m m' : Bytes) : Prop :=
  ∀ x, ¬ S x → m' x = m x

theorem SameBut.refl (S : BitVec 32 → Prop) (m : Bytes) : SameBut S m m :=
  fun _ _ => rfl

theorem SameBut.trans {S : BitVec 32 → Prop} {m m' m'' : Bytes}
    (h : SameBut S m m') (h' : SameBut S m' m'') : SameBut S m m'' :=
  fun x hx => (h' x hx).trans (h x hx)

/-- More addresses may differ. -/
theorem SameBut.mono {S T : BitVec 32 → Prop} {m m' : Bytes}
    (h : SameBut S m m') (hle : ∀ x, S x → T x) : SameBut T m m' :=
  fun x hx => h x fun hS => hx (hle x hS)

/-- They agree on a span that has none of them. -/
theorem SameBut.sameOn {S : BitVec 32 → Prop} {m m' : Bytes}
    (h : SameBut S m m') {a : BitVec 32} {n : Nat}
    (hapart : ∀ x, InSpan a n x → ¬ S x) : SameOn a n m m' :=
  fun x hx => h x (hapart x hx)

-- ================================================================ writing

/-- The `n` bytes from `a` on become `f 0`, `f 1` and so on. -/
def writeBytes (m : Bytes) (a : BitVec 32) (n : Nat) (f : Nat → UInt8) :
    Bytes :=
  fun x => if (x - a).toNat < n then f (x - a).toNat else m x

theorem writeBytes_of_not_inSpan {a x : BitVec 32} {n : Nat} (m : Bytes)
    (f : Nat → UInt8) (hx : ¬ InSpan a n x) : writeBytes m a n f x = m x := by
  unfold InSpan at hx
  unfold writeBytes
  rw [if_neg hx]

/-- A write changes its own bytes at most. -/
theorem writeBytes_sameBut {S : BitVec 32 → Prop} {a : BitVec 32} {n : Nat}
    (m : Bytes) (f : Nat → UInt8) (h : ∀ x, InSpan a n x → S x) :
    SameBut S m (writeBytes m a n f) :=
  fun x hx => writeBytes_of_not_inSpan m f fun hin => hx (h x hin)

/-- A write leaves a span apart from it as it was. -/
theorem writeBytes_sameOn {a b : BitVec 32} {n k : Nat} (m : Bytes)
    (f : Nat → UInt8) (h : SpansApart a n b k) :
    SameOn b k m (writeBytes m a n f) :=
  fun x hx => writeBytes_of_not_inSpan m f (h.symm x hx)

/-- The 16-bit word at an address. -/
def load16 (m : Bytes) (a : BitVec 32) : BitVec 16 :=
  (m (a + 1#32)).toBitVec ++ (m a).toBitVec

/-- The 32-bit word at an address. -/
def load32 (m : Bytes) (a : BitVec 32) : BitVec 32 :=
  (m (a + 3#32)).toBitVec ++ (m (a + 2#32)).toBitVec
    ++ (m (a + 1#32)).toBitVec ++ (m a).toBitVec

/-- Byte `i` of a 32-bit word. -/
def byteOf (v : BitVec 32) (i : Nat) : UInt8 :=
  ⟨v.extractLsb' (8 * i) 8⟩

/-- Store a 32-bit word at an address. -/
def store32 (m : Bytes) (a v : BitVec 32) : Bytes :=
  writeBytes m a 4 (byteOf v)

/-- Store a 16-bit word at an address. -/
def store16 (m : Bytes) (a : BitVec 32) (v : BitVec 16) : Bytes :=
  writeBytes m a 2 fun i => ⟨v.extractLsb' (8 * i) 8⟩

/-- Memories that agree on the four bytes hold the same word. -/
theorem load32_congr {m m' : Bytes} {a : BitVec 32} (h : SameOn a 4 m m') :
    load32 m' a = load32 m a := by
  have hin : ∀ i : BitVec 32, i.toNat < 4 → InSpan a 4 (a + i) := by
    intro i hi
    unfold InSpan
    rw [BitVec.add_comm, BitVec.add_sub_cancel]
    exact hi
  have h0 := h a (by unfold InSpan; rw [BitVec.sub_self]; decide)
  have h1 := h (a + 1#32) (hin _ (by decide))
  have h2 := h (a + 2#32) (hin _ (by decide))
  have h3 := h (a + 3#32) (hin _ (by decide))
  unfold load32
  rw [h0, h1, h2, h3]

/-- The same of two bytes. -/
theorem load16_congr {m m' : Bytes} {a : BitVec 32} (h : SameOn a 2 m m') :
    load16 m' a = load16 m a := by
  have h0 := h a (by unfold InSpan; rw [BitVec.sub_self]; decide)
  have h1 := h (a + 1#32) (by
    unfold InSpan
    rw [BitVec.add_comm, BitVec.add_sub_cancel]
    decide)
  unfold load16
  rw [h0, h1]

/-- A word stored is the word loaded. -/
theorem load32_store32 (m : Bytes) (a v : BitVec 32) :
    load32 (store32 m a v) a = v := by
  have hbyte : ∀ i : BitVec 32, i.toNat < 4 →
      store32 m a v (a + i) = byteOf v i.toNat := by
    intro i hi
    unfold store32 writeBytes
    rw [BitVec.add_comm, BitVec.add_sub_cancel, if_pos hi]
  have h0 : store32 m a v a = byteOf v 0 := by
    have := hbyte 0#32 (by decide)
    rwa [BitVec.add_zero] at this
  have h1 := hbyte 1#32 (by decide)
  have h2 := hbyte 2#32 (by decide)
  have h3 := hbyte 3#32 (by decide)
  unfold load32
  rw [h0, h1, h2, h3]
  unfold byteOf
  ext i hi
  simp only [BitVec.getElem_append, BitVec.getElem_extractLsb']
  split
  · simp [BitVec.getLsbD_eq_getElem (by omega : i < 32)]
  · split
    · rw [← BitVec.getLsbD_eq_getElem (by omega : i < 32)]
      congr 1
      simp
      omega
    · split
      · rw [← BitVec.getLsbD_eq_getElem (by omega : i < 32)]
        congr 1
        simp
        omega
      · rw [← BitVec.getLsbD_eq_getElem (by omega : i < 32)]
        congr 1
        simp
        omega

/-- A word is made of its bytes. -/
theorem byteOf_append (v : BitVec 32) :
    (byteOf v 3).toBitVec ++ (byteOf v 2).toBitVec ++ (byteOf v 1).toBitVec
      ++ (byteOf v 0).toBitVec = v := by
  have hbyte : ∀ i : BitVec 32, i.toNat < 4 →
      store32 (fun _ => 0) 0#32 v i = byteOf v i.toNat := by
    intro i hi
    unfold store32 writeBytes
    rw [BitVec.sub_zero, if_pos hi]
  have hword := load32_store32 (fun _ => 0) 0#32 v
  unfold load32 at hword
  rw [BitVec.zero_add, BitVec.zero_add, BitVec.zero_add, hbyte 3#32 (by decide),
    hbyte 2#32 (by decide), hbyte 1#32 (by decide),
    hbyte 0#32 (by decide)] at hword
  exact hword

/-- A word elsewhere is not changed by a store. -/
theorem load32_store32_apart {a b : BitVec 32} (m : Bytes) (v : BitVec 32)
    (h : SpansApart a 4 b 4) : load32 (store32 m a v) b = load32 m b :=
  load32_congr (writeBytes_sameOn m _ h)

/-- The bytes of a word loaded are those of the memory. -/
theorem byteOf_load32 (m : Bytes) (a : BitVec 32) {i : Nat} (hi : i < 4) :
    byteOf (load32 m a) i = m (a + BitVec.ofNat 32 i) := by
  have hright : ∀ (x : BitVec 24) (y : BitVec 8),
      (x ++ y).extractLsb' 0 8 = y := fun _ _ =>
    BitVec.extractLsb'_append_eq_right
  have hleft : ∀ (x : BitVec 24) (y : BitVec 8) (s : Nat), 8 ≤ s →
      (x ++ y).extractLsb' s 8 = x.extractLsb' (s - 8) 8 := fun _ _ _ hs =>
    BitVec.extractLsb'_append_eq_of_le hs
  have hleft' : ∀ (x : BitVec 16) (y : BitVec 8) (s : Nat), 8 ≤ s →
      (x ++ y).extractLsb' s 8 = x.extractLsb' (s - 8) 8 := fun _ _ _ hs =>
    BitVec.extractLsb'_append_eq_of_le hs
  have hcases : i = 0 ∨ i = 1 ∨ i = 2 ∨ i = 3 := by omega
  apply UInt8.eq_of_toBitVec_eq
  unfold byteOf load32
  rcases hcases with h | h | h | h
  · rw [h, BitVec.add_zero]
    exact hright _ _
  · rw [h]
    refine (hleft _ _ _ (by decide)).trans ?_
    exact BitVec.extractLsb'_append_eq_right
  · rw [h]
    refine (hleft _ _ _ (by decide)).trans ((hleft' _ _ _ (by decide)).trans ?_)
    exact BitVec.extractLsb'_append_eq_right
  · rw [h]
    refine (hleft _ _ _ (by decide)).trans ((hleft' _ _ _ (by decide)).trans ?_)
    exact BitVec.extractLsb'_append_eq_left

/-- A word of zero bytes is zero. -/
theorem load32_zero {m : Bytes} {a : BitVec 32}
    (h : ∀ x, InSpan a 4 x → m x = 0) : load32 m a = 0#32 := by
  have hsame : SameOn a 4 (fun _ => 0) m := h
  rw [load32_congr hsame]
  show (0 : UInt8).toBitVec ++ (0 : UInt8).toBitVec ++ (0 : UInt8).toBitVec
    ++ (0 : UInt8).toBitVec = 0#32
  decide

-- ================================================================== lists

/-- The bytes from `a` on become those of a list. -/
def writeList (m : Bytes) (a : BitVec 32) (bytes : List UInt8) : Bytes :=
  writeBytes m a bytes.length fun i => bytes.getD i 0

@[simp]
theorem writeList_nil (m : Bytes) (a : BitVec 32) : writeList m a [] = m := by
  funext x
  unfold writeList writeBytes
  rw [List.length_nil, if_neg (Nat.not_lt_zero _)]

/-- The bytes of a list lie in memory from `a` on. -/
def HoldsBytes (m : Bytes) (a : BitVec 32) (bytes : List UInt8) : Prop :=
  ∀ i < bytes.length, m (a + BitVec.ofNat 32 i) = bytes.getD i 0

theorem add_ofNat_sub (a : BitVec 32) {i : Nat} (hi : i < 2 ^ 32) :
    (a + BitVec.ofNat 32 i - a).toNat = i := by
  rw [BitVec.add_comm, BitVec.add_sub_cancel, BitVec.toNat_ofNat]
  omega

/-- Bytes written are there. -/
theorem holdsBytes_writeList (m : Bytes) (a : BitVec 32) {bytes : List UInt8}
    (hlen : bytes.length ≤ 2 ^ 32) :
    HoldsBytes (writeList m a bytes) a bytes := by
  intro i hi
  unfold writeList writeBytes
  rw [add_ofNat_sub a (by omega), if_pos hi]

/-- They are there as long as their span is the same. -/
theorem HoldsBytes.congr {m m' : Bytes} {a : BitVec 32} {bytes : List UInt8}
    {n : Nat} (h : HoldsBytes m a bytes) (hsame : SameOn a n m m')
    (hlen : bytes.length ≤ n) (hlt : bytes.length ≤ 2 ^ 32) :
    HoldsBytes m' a bytes := by
  intro i hi
  rw [hsame _ ?_]
  · exact h i hi
  · unfold InSpan
    rw [add_ofNat_sub a (by omega)]
    omega

-- ========================================================= words in a memory

/-- A memory given word by word. -/
def wordMemory (w : Nat → BitVec 32) : Bytes :=
  fun x => byteOf (w (x.toNat / 4)) (x.toNat % 4)

/-- At a multiple of four it holds that word. -/
theorem load32_wordMemory (w : Nat → BitVec 32) {a : BitVec 32} {k : Nat}
    (ha : a.toNat = 4 * k) : load32 (wordMemory w) a = w k := by
  have hlt := a.isLt
  have hsame : SameOn a 4 (store32 (wordMemory w) a (w k)) (wordMemory w) := by
    intro x hx
    unfold store32 writeBytes
    unfold InSpan at hx
    rw [if_pos hx]
    unfold wordMemory
    have hxa : x.toNat = 4 * k + (x - a).toNat := by
      rw [BitVec.toNat_sub] at hx ⊢
      have := x.isLt
      omega
    rw [show x.toNat / 4 = k by omega, show x.toNat % 4 = (x - a).toNat by omega]
  rw [load32_congr hsame, load32_store32]

end BenOS.Lib
