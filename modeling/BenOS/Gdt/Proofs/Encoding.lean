/-
What the processor reads back from a descriptor.

`decodeGdtEntry` is the layout the processor expects, in numbers. An
entry that is accepted holds the bytes of its fields (`entryByte`), each a
quotient and remainder of the field, and putting them together gives the
field back: the limit in bytes where it is 65536 or less, in pages of
4096 bytes where it is not. A table is written entry by entry, and no
entry touches another (`gdt_round_trip`).
-/
import BenOS.Gdt.Gdt
import Mathlib.Data.Nat.Bitwise
import Mathlib.Tactic.IntervalCases

namespace BenOS.Gdt

-- ============================================================ the requirement

/-- The segments `encoded_gdt_entry` takes. -/
def Accepted (source : GdtStructured) : Prop :=
  source.limit ≤ 65536 ∨ source.limit &&& 0xFFF = 0xFFF

instance (source : GdtStructured) : Decidable (Accepted source) :=
  inferInstanceAs (Decidable (_ ∨ _))

/-- The segment eight bytes describe: a limit of 20 bits, scaled where the
granularity bit is set, a base of 32 bits, and the access byte. -/
def decodeGdtEntry (entry : Nat → UInt8) : GdtStructured :=
  let limit := (entry 0).toNat + 2 ^ 8 * (entry 1).toNat
    + 2 ^ 16 * ((entry 6).toNat % 2 ^ 4)
  { base := UInt32.ofNat ((entry 2).toNat + 2 ^ 8 * (entry 3).toNat
      + 2 ^ 16 * (entry 4).toNat + 2 ^ 24 * (entry 7).toNat)
    limit := UInt32.ofNat
      (if (entry 6).toNat.testBit 7 then limit * 4096 + 4095 else limit)
    type := entry 5 }

/-- Entry `i` of the table at `gdt`. -/
def entryOf (mem : Nat → UInt8) (gdt i : Nat) : Nat → UInt8 :=
  fun k => mem (gdt + sizeofGdt * i + k)

-- ================================================================= one entry

/-- The limit in the unit it is stored in. -/
def storedLimit (source : GdtStructured) : UInt32 :=
  if source.limit > 65536 then source.limit >>> 12 else source.limit

/-- The flags: 32-bit, and the unit of the limit. -/
def entryFlags (source : GdtStructured) : UInt8 :=
  if source.limit > 65536 then 0xC0 else 0x40

/-- The bytes of an entry. -/
def entryByte (source : GdtStructured) : Nat → UInt8
  | 0 => (storedLimit source &&& 0xFF).toUInt8
  | 1 => ((storedLimit source >>> 8) &&& 0xFF).toUInt8
  | 2 => (source.base &&& 0xFF).toUInt8
  | 3 => ((source.base >>> 8) &&& 0xFF).toUInt8
  | 4 => ((source.base >>> 16) &&& 0xFF).toUInt8
  | 5 => source.type
  | 6 => entryFlags source ||| ((storedLimit source >>> 16) &&& 0xF).toUInt8
  | _ => ((source.base >>> 24) &&& 0xFF).toUInt8

/-- An entry that is written: its eight bytes, and nothing else. -/
structure Written (target : Nat) (source : GdtStructured)
    (mem mem' : Nat → UInt8) : Prop where
  inside : ∀ k, k < sizeofGdt → mem' (target + k) = entryByte source k
  outside : ∀ x, x < target ∨ target + sizeofGdt ≤ x → mem' x = mem x

/-- The test in front is the one that is documented. -/
theorem accepted_iff (source : GdtStructured) :
    Accepted source
      ↔ ¬ (source.limit > 65536 ∧ source.limit &&& 0xFFF ≠ 0xFFF) := by
  unfold Accepted
  rw [not_and_or, not_not, gt_iff_lt, UInt32.not_lt]

/-- An accepted segment is written; for any other there is no result. -/
theorem encodedGdtEntry_written (target : Nat) {source : GdtStructured}
    (h : Accepted source) (mem : Nat → UInt8) :
    ∃ mem', encodedGdtEntry target source mem = some mem'
      ∧ Written target source mem mem' := by
  unfold encodedGdtEntry
  rw [if_neg ((accepted_iff source).mp h)]
  by_cases hbig : source.limit > 65536
  all_goals
    simp only [hbig, if_true, if_false]
    refine ⟨_, rfl, fun k hk => ?_, fun x hx => ?_⟩
    · unfold sizeofGdt at hk
      interval_cases k
      all_goals
        simp [entryByte, storedLimit, entryFlags, hbig]
    · have hne : ∀ k, k < sizeofGdt → x ≠ target + k := fun k hk => by omega
      have hfirst : x ≠ target := hne 0 (by decide)
      simp only [Function.update_of_ne, hfirst, hne 1 (by decide),
        hne 2 (by decide), hne 3 (by decide), hne 4 (by decide),
        hne 5 (by decide), hne 6 (by decide), hne 7 (by decide), ne_eq,
        not_false_eq_true]

theorem encodedGdtEntry_isSome_iff (target : Nat) (source : GdtStructured)
    (mem : Nat → UInt8) :
    (encodedGdtEntry target source mem).isSome ↔ Accepted source := by
  constructor
  · intro hsome
    rw [accepted_iff]
    intro hrefused
    rw [encodedGdtEntry, if_pos hrefused] at hsome
    exact Bool.false_ne_true hsome
  · intro h
    obtain ⟨mem', hmem, -⟩ := encodedGdtEntry_written target h mem
    rw [hmem]
    rfl

-- ================================================================== the fields

/-- A byte of a word, by its place. -/
theorem toNat_byte (w : UInt32) (n : UInt32) (hn : n.toNat < 32) :
    ((w >>> n) &&& 0xFF).toUInt8.toNat = w.toNat / 2 ^ n.toNat % 2 ^ 8 := by
  have hmask : (0xFF : UInt32).toNat = 2 ^ 8 - 1 := by decide
  rw [UInt32.toNat_toUInt8, UInt32.toNat_and, hmask,
    Nat.and_two_pow_sub_one_eq_mod, Nat.mod_mod, UInt32.toNat_shiftRight,
    Nat.mod_eq_of_lt hn, Nat.shiftRight_eq_div_pow]

theorem toNat_lowByte (w : UInt32) :
    (w &&& 0xFF).toUInt8.toNat = w.toNat % 2 ^ 8 := by
  have hmask : (0xFF : UInt32).toNat = 2 ^ 8 - 1 := by decide
  rw [UInt32.toNat_toUInt8, UInt32.toNat_and, hmask,
    Nat.and_two_pow_sub_one_eq_mod, Nat.mod_mod]

/-- The byte that the flags share with the upper bits of the limit. -/
theorem toNat_flags (source : GdtStructured) :
    (entryByte source 6).toNat % 2 ^ 4
        = (storedLimit source).toNat / 2 ^ 16 % 2 ^ 4
      ∧ (entryByte source 6).toNat.testBit 7
        = decide (source.limit > 65536) := by
  have hmask : (0xF : UInt32).toNat = 2 ^ 4 - 1 := by decide
  have hupper : ((storedLimit source >>> 16) &&& 0xF).toUInt8.toNat
      = (storedLimit source).toNat / 2 ^ 16 % 2 ^ 4 := by
    rw [UInt32.toNat_toUInt8, UInt32.toNat_and, hmask,
      Nat.and_two_pow_sub_one_eq_mod, UInt32.toNat_shiftRight,
      Nat.shiftRight_eq_div_pow]
    exact Nat.mod_eq_of_lt (by omega)
  have hlow : (storedLimit source).toNat / 2 ^ 16 % 2 ^ 4 < 2 ^ 4 :=
    Nat.mod_lt _ (by decide)
  have hor : (entryByte source 6).toNat
      = (entryFlags source).toNat
        ||| ((storedLimit source).toNat / 2 ^ 16 % 2 ^ 4) := by
    rw [entryByte, UInt8.toNat_or, hupper]
  rw [hor]
  generalize (storedLimit source).toNat / 2 ^ 16 % 2 ^ 4 = u at hlow
  unfold entryFlags
  by_cases hbig : source.limit > 65536
  · rw [if_pos hbig, decide_eq_true hbig]
    interval_cases u
    all_goals exact ⟨rfl, rfl⟩
  · rw [if_neg hbig, decide_eq_false hbig]
    interval_cases u
    all_goals exact ⟨rfl, rfl⟩

/-- The limit out of the unit it is stored in. -/
theorem storedLimit_scaled {source : GdtStructured} (h : Accepted source) :
    (storedLimit source).toNat < 2 ^ 20
      ∧ (if source.limit > 65536 then (storedLimit source).toNat * 4096 + 4095
        else (storedLimit source).toNat) = source.limit.toNat := by
  have hlt := source.limit.toNat_lt
  have hword : source.limit > 65536 ↔ 65536 < source.limit.toNat :=
    UInt32.lt_iff_toNat_lt
  unfold storedLimit
  by_cases hbig : source.limit > 65536
  · -- in pages: the bits below are all ones
    rw [if_pos hbig, if_pos hbig, UInt32.toNat_shiftRight]
    have hones : source.limit.toNat % 2 ^ 12 = 2 ^ 12 - 1 := by
      have hmask : (0xFFF : UInt32).toNat = 2 ^ 12 - 1 := by decide
      rcases h with hsmall | hones
      · exact absurd hbig (UInt32.not_lt.mpr hsmall)
      · have hnum := congrArg UInt32.toNat hones
        rw [UInt32.toNat_and, hmask, Nat.and_two_pow_sub_one_eq_mod] at hnum
        exact hnum
    have hshift : (12 : UInt32).toNat % 32 = 12 := by decide
    rw [hshift, Nat.shiftRight_eq_div_pow]
    constructor
    · omega
    · omega
  · rw [if_neg hbig, if_neg hbig]
    rw [hword] at hbig
    exact ⟨by omega, rfl⟩

/-- The bytes of an entry read as the segment they were made of. -/
theorem decodeGdtEntry_eq {entry : Nat → UInt8} {source : GdtStructured}
    (hbyte : ∀ k, k < sizeofGdt → entry k = entryByte source k)
    (h : Accepted source) : decodeGdtEntry entry = source := by
  obtain ⟨hupper, hgran⟩ := toNat_flags source
  obtain ⟨hlimit, hscaled⟩ := storedLimit_scaled h
  have hbase := source.base.toNat_lt
  unfold decodeGdtEntry
  simp only [hbyte 0 (by decide), hbyte 1 (by decide), hbyte 2 (by decide),
    hbyte 3 (by decide), hbyte 4 (by decide), hbyte 5 (by decide),
    hbyte 6 (by decide), hbyte 7 (by decide), hupper, hgran]
  simp only [entryByte, toNat_lowByte, toNat_byte _ 8 (by decide),
    toNat_byte _ 16 (by decide), toNat_byte _ 24 (by decide)]
  have hstored : (storedLimit source).toNat % 2 ^ 8
      + 2 ^ 8 * ((storedLimit source).toNat / 2 ^ 8 % 2 ^ 8)
      + 2 ^ 16 * ((storedLimit source).toNat / 2 ^ 16 % 2 ^ 4)
      = (storedLimit source).toNat := by
    omega
  have hwhole : source.base.toNat % 2 ^ 8
      + 2 ^ 8 * (source.base.toNat / 2 ^ 8 % 2 ^ 8)
      + 2 ^ 16 * (source.base.toNat / 2 ^ 16 % 2 ^ 8)
      + 2 ^ 24 * (source.base.toNat / 2 ^ 24 % 2 ^ 8) = source.base.toNat := by
    omega
  have hplaces : (8 : UInt32).toNat = 8 ∧ (16 : UInt32).toNat = 16
      ∧ (24 : UInt32).toNat = 24 := by decide
  obtain ⟨h8, h16, h24⟩ := hplaces
  rw [h8, h16, h24, hwhole, hstored, UInt32.ofNat_toNat]
  refine GdtStructured.ext rfl ?_ rfl
  simp only [decide_eq_true_eq]
  rw [hscaled, UInt32.ofNat_toNat]

-- ================================================================= the table

/-- An entry leaves the others as they are. -/
theorem Written.entryOf_ne {gdt i j : Nat} {source : GdtStructured}
    {mem mem' : Nat → UInt8}
    (hw : Written (gdt + sizeofGdt * i) source mem mem') (hij : j ≠ i)
    {k : Nat} (hk : k < sizeofGdt) :
    entryOf mem' gdt j k = entryOf mem gdt j k := by
  refine hw.outside _ ?_
  unfold sizeofGdt at hk ⊢
  omega

/-- The loop writes the entries from `i` on, one for each segment, and
nothing else. -/
theorem gdtStructuredLoop_spec (gdt : Nat) (segments : List GdtStructured) :
    ∀ (i : Nat) (mem : Nat → UInt8), (∀ s ∈ segments, Accepted s) →
      ∃ mem', gdtStructuredLoop gdt i segments mem = some mem'
        ∧ (∀ j (hj : j < segments.length),
          decodeGdtEntry (entryOf mem' gdt (i + j)) = segments[j])
        ∧ ∀ x, x < gdt + sizeofGdt * i
            ∨ gdt + sizeofGdt * (i + segments.length) ≤ x →
          mem' x = mem x := by
  induction segments with
  | nil =>
      intro i mem _
      exact ⟨mem, rfl, fun j hj => absurd hj (Nat.not_lt_zero j),
        fun _ _ => rfl⟩
  | cons s rest ih =>
      intro i mem haccepted
      obtain ⟨hs, hrest⟩ := List.forall_mem_cons.mp haccepted
      obtain ⟨mem₁, hmem₁, hw⟩ :=
        encodedGdtEntry_written (gdt + sizeofGdt * i) hs mem
      obtain ⟨mem', hmem', hdecode, hsame⟩ := ih (i + 1) mem₁ hrest
      refine ⟨mem', ?_, fun j hj => ?_, fun x hx => ?_⟩
      · rw [gdtStructuredLoop, hmem₁]
        exact hmem'
      · cases j with
        | zero =>
            -- the entries behind do not touch this one
            refine decodeGdtEntry_eq (fun k hk => ?_) hs
            refine (hsame _ (Or.inl ?_)).trans (hw.inside k hk)
            unfold sizeofGdt at hk ⊢
            omega
        | succ j =>
            rw [List.getElem_cons_succ, ← hdecode j (Nat.lt_of_succ_lt_succ hj)]
            rw [show i + (j + 1) = i + 1 + j by omega]
      · rw [List.length_cons] at hx
        unfold sizeofGdt at hx
        rw [hsame x (by unfold sizeofGdt; omega)]
        refine hw.outside x ?_
        unfold sizeofGdt
        omega

/-- What is required of a table: each entry reads as its segment, nothing
outside the table is written, and writing one entry leaves the others
as they are. -/
structure RoundTrip (gdt : Nat) (segments : List GdtStructured)
    (mem mem' : Nat → UInt8) : Prop where
  decode : ∀ i (hi : i < segments.length),
    decodeGdtEntry (entryOf mem' gdt i) = segments[i]
  outside : ∀ x, x < gdt ∨ gdt + sizeofGdt * segments.length ≤ x →
    mem' x = mem x
  others : ∀ i (hi : i < segments.length) m m',
    encodedGdtEntry (gdt + sizeofGdt * i) segments[i] m = some m' →
    ∀ j, j ≠ i → ∀ k, k < sizeofGdt →
      entryOf m' gdt j k = entryOf m gdt j k

/-- A table of accepted segments is written, and reads as them. -/
theorem gdt_round_trip (gdt : Nat) {segments : List GdtStructured}
    (haccepted : ∀ s ∈ segments, Accepted s) (mem : Nat → UInt8) :
    ∃ mem', gdtStructuredToGdt gdt segments mem = some mem'
      ∧ RoundTrip gdt segments mem mem' := by
  obtain ⟨mem', hmem', hdecode, hsame⟩ :=
    gdtStructuredLoop_spec gdt segments 0 mem haccepted
  refine ⟨mem', hmem', ?_, ?_, ?_⟩
  · intro i hi
    rw [← hdecode i hi, Nat.zero_add]
  · intro x hx
    refine hsame x ?_
    rw [Nat.zero_add]
    exact hx
  · intro i hi m m' hm j hij k hk
    obtain ⟨m'', hm'', hw⟩ := encodedGdtEntry_written
      (gdt + sizeofGdt * i) (haccepted _ (List.getElem_mem hi)) m
    rw [hm] at hm''
    rw [Option.some.inj hm'']
    exact hw.entryOf_ne hij hk

/-- A segment of 64 KiB and one of 4 GiB, on both sides of the bound. -/
theorem gdt_round_trip_two :
    ∃ mem', gdtStructuredToGdt 0 [⟨0x1234, 65536, 0x9A⟩,
        ⟨0, 0xFFFFFFFF, 0x92⟩] (fun _ => 0) = some mem'
      ∧ RoundTrip 0 [⟨0x1234, 65536, 0x9A⟩, ⟨0, 0xFFFFFFFF, 0x92⟩]
          (fun _ => 0) mem' :=
  gdt_round_trip 0 (by decide) (fun _ => 0)

end BenOS.Gdt
