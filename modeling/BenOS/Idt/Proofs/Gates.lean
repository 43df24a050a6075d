/-
What the processor finds behind `idt_init`: for every vector the gate of
its function (`idt_init_gates`).

A descriptor is the eight bytes of its address and attributes
(`idtSet_eq`), it is read back as the gate it was made for
(`gateAt_idtSet`), and it leaves the others as they are.
-/
import BenOS.Idt.Idt

namespace BenOS.Idt

open Lib X86 Tasks

variable {base : Addr} {m : Bytes}

-- ============================================================ one descriptor

/-- The bytes of a descriptor. -/
def descByte (address : Addr) : Nat → UInt8
  | 0 => byteOf address 0
  | 1 => byteOf address 1
  | 2 => 0x08
  | 5 => 0xEE
  | 6 => byteOf address 2
  | 7 => byteOf address 3
  | _ => 0x00

/-- The bytes of `offset_1`. -/
theorem lowByte (address : Addr) {i : Nat} (hi : i < 2) :
    ((address &&& 0x0000FFFF#32).setWidth 16).extractLsb' (8 * i) 8
      = address.extractLsb' (8 * i) 8 := by
  have hmask : ∀ k < 16, (0x0000FFFF#32).getLsbD k = true := by decide
  ext k hk
  rw [BitVec.getElem_extractLsb', BitVec.getElem_extractLsb',
    BitVec.getLsbD_setWidth, BitVec.getLsbD_and, hmask _ (by omega),
    decide_eq_true (show 8 * i + k < 16 by omega), Bool.true_and,
    Bool.and_true]

/-- The bytes of `offset_2`. -/
theorem highByte (address : Addr) {i : Nat} (hi : i < 2) :
    ((address >>> 16).setWidth 16).extractLsb' (8 * i) 8
      = address.extractLsb' (8 * (i + 2)) 8 := by
  ext k hk
  rw [BitVec.getElem_extractLsb', BitVec.getElem_extractLsb',
    BitVec.getLsbD_setWidth, BitVec.getLsbD_ushiftRight,
    decide_eq_true (show 8 * i + k < 16 by omega), Bool.true_and,
    show 16 + (8 * i + k) = 8 * (i + 2) + k by omega]

/-- `idt_set` writes them, and nothing else. -/
theorem idtSet_eq (base : Addr) (n : Nat) (address : Addr) (m : Bytes) :
    idtSet base n address m
      = writeBytes m (idtDescriptor base n) sizeofIdtDesc
          (descByte address) := by
  obtain ⟨desc, hdesc⟩ : ∃ desc, desc = idtDescriptor base n := ⟨_, rfl⟩
  funext x
  obtain ⟨d, rfl⟩ : ∃ d, x = desc + d := ⟨x - desc, by
    rw [add_comm, sub_add_cancel]⟩
  unfold idtSet store16 writeBytes
  rw [← hdesc]
  have hd : ∀ o : BitVec 32, desc + d - (desc + o) = d - o := fun o =>
    add_sub_add_left_eq_sub _ _ _
  have hd₀ : desc + d - desc = d := by rw [add_comm, add_sub_cancel_right]
  have hne : ∀ o : BitVec 32, desc + d = desc + o ↔ d = o := fun o =>
    add_right_inj desc
  simp only [Function.update_apply, hd, hd₀, hne]
  by_cases hlt : d.toNat < sizeofIdtDesc
  · -- inside, byte by byte
    have hcases : d = 0#32 ∨ d = 1#32 ∨ d = 2#32 ∨ d = 3#32 ∨ d = 4#32
        ∨ d = 5#32 ∨ d = 6#32 ∨ d = 7#32 := by
      simp only [sizeofIdtDesc] at hlt
      bv_omega
    rcases hcases with h | h | h | h | h | h | h | h
    · rw [h]
      exact congrArg UInt8.ofBitVec (lowByte address (i := 0) (by decide))
    · rw [h]
      exact congrArg UInt8.ofBitVec (lowByte address (i := 1) (by decide))
    · rw [h]
      rfl
    · rw [h]
      rfl
    · rw [h]
      rfl
    · rw [h]
      rfl
    · rw [h]
      exact congrArg UInt8.ofBitVec (highByte address (i := 0) (by decide))
    · rw [h]
      exact congrArg UInt8.ofBitVec (highByte address (i := 1) (by decide))
  · rw [if_neg hlt]
    simp only [sizeofIdtDesc, not_lt] at hlt
    rw [if_neg (by bv_omega), if_neg (by bv_omega), if_neg (by bv_omega),
      if_neg (by bv_omega), if_neg (by bv_omega)]

/-- A descriptor is read back as the gate it was made for. -/
theorem gateAt_idtSet (base : Addr) (n : Nat) (address : Addr) (m : Bytes) :
    gateAt (idtSet base n address m) (idtDescriptor base n)
      = some (idtGate address) := by
  obtain ⟨desc, hdesc⟩ : ∃ desc, desc = idtDescriptor base n := ⟨_, rfl⟩
  have hbyte : ∀ o : BitVec 32, o.toNat < sizeofIdtDesc →
      idtSet base n address m (desc + o) = descByte address o.toNat := by
    intro o ho
    rw [idtSet_eq, ← hdesc]
    unfold writeBytes
    rw [BitVec.add_comm, BitVec.add_sub_cancel, if_pos ho]
  have hfirst : idtSet base n address m desc = descByte address 0 := by
    have h := hbyte 0#32 (by decide)
    rwa [BitVec.add_zero] at h
  have hdpl : ((descByte address (5#32).toNat).toBitVec.extractLsb' 5 2).toNat
      = 3 :=
    show ((0xEE : UInt8).toBitVec.extractLsb' 5 2).toNat = 3 by decide
  rw [← hdesc]
  unfold gateAt load16
  rw [show desc + 2#32 + 1#32 = desc + 3#32 from add_assoc _ _ _,
    hbyte 2#32 (by decide), hbyte 3#32 (by decide), hbyte 5#32 (by decide),
    hbyte 6#32 (by decide), hbyte 7#32 (by decide), hbyte 1#32 (by decide),
    hfirst]
  have hattr : ((descByte address (5#32).toNat).toBitVec.getLsbD 7
      && (descByte address (5#32).toNat).toBitVec.extractLsb' 0 5
        == 0x0E#5) = true :=
    show ((0xEE : UInt8).toBitVec.getLsbD 7
      && (0xEE : UInt8).toBitVec.extractLsb' 0 5 == 0x0E#5) = true by decide
  have hselector : (descByte address (3#32).toNat).toBitVec
      ++ (descByte address (2#32).toNat).toBitVec = kernelCodeSelector :=
    show (0x00 : UInt8).toBitVec ++ (0x08 : UInt8).toBitVec = 0x08#16 by decide
  simp only
  rw [if_pos hattr, hselector, hdpl]
  exact congrArg (fun offset => some (Gate.mk kernelCodeSelector offset 3))
    (byteOf_append address)

/-- Memories that agree on a descriptor have the same gate there. -/
theorem gateAt_congr {m' : Bytes} {a : Addr} (h : SameOn a sizeofIdtDesc m m') :
    gateAt m' a = gateAt m a := by
  have hin : ∀ i : BitVec 32, i.toNat < sizeofIdtDesc →
      m' (a + i) = m (a + i) := by
    intro i hi
    apply h
    unfold InSpan
    rw [BitVec.add_comm, BitVec.add_sub_cancel]
    exact hi
  have hfirst : m' a = m a := by
    have h := hin 0#32 (by decide)
    rwa [BitVec.add_zero] at h
  have hthird : a + 2#32 + 1#32 = a + 3#32 := add_assoc _ _ _
  unfold gateAt load16
  rw [hthird, hfirst, hin 1#32 (by decide), hin 2#32 (by decide),
    hin 3#32 (by decide), hin 5#32 (by decide), hin 6#32 (by decide),
    hin 7#32 (by decide)]

-- ================================================================ the table

/-- Descriptors of different vectors are apart. -/
theorem idtDescriptor_apart (base : Addr) {i j : Nat}
    (hi : i < benosTotalInterrupts) (hj : j < benosTotalInterrupts)
    (hne : i ≠ j) :
    SpansApart (idtDescriptor base i) sizeofIdtDesc
      (idtDescriptor base j) sizeofIdtDesc := by
  simp only [benosTotalInterrupts] at hi hj
  apply spansApart_fields
  · simp only [sizeofIdtDesc, BitVec.toNat_sub, BitVec.toNat_ofNat]
    omega
  · simp only [sizeofIdtDesc, BitVec.toNat_sub, BitVec.toNat_ofNat]
    omega

/-- `idt_set` leaves the gates of the other vectors as they are. -/
theorem gateAt_idtSet_ne (address : Addr) {i j : Nat}
    (hi : i < benosTotalInterrupts) (hj : j < benosTotalInterrupts)
    (hne : i ≠ j) :
    gateAt (idtSet base i address m) (idtDescriptor base j)
      = gateAt m (idtDescriptor base j) := by
  rw [idtSet_eq]
  exact gateAt_congr
    (writeBytes_sameOn m _ (idtDescriptor_apart base hi hj hne))

/-- A byte outside the table is outside every descriptor. -/
theorem idtSet_outside (address : Addr) {n : Nat}
    (hn : n < benosTotalInterrupts) {x : Addr}
    (hx : ¬ InSpan base (sizeofIdtDesc * benosTotalInterrupts) x) :
    idtSet base n address m x = m x := by
  rw [idtSet_eq]
  refine writeBytes_of_not_inSpan m _ fun hin => hx (hin.of_part ?_)
  simp only [sizeofIdtDesc, benosTotalInterrupts, BitVec.toNat_ofNat] at *
  omega

/-- The loop of `idt_init` has made the gates of the vectors it passed. -/
theorem idtSetLoop_gate (table : Nat → Addr) (n : Nat) :
    n ≤ benosTotalInterrupts → ∀ j < n,
      gateAt (idtSetLoop base table n m) (idtDescriptor base j)
        = some (idtGate (table j)) := by
  induction n with
  | zero => exact fun _ j hj => absurd hj (Nat.not_lt_zero j)
  | succ n ih =>
      intro hn j hj
      unfold idtSetLoop
      rcases Nat.lt_succ_iff_lt_or_eq.mp hj with hlt | rfl
      · rw [gateAt_idtSet_ne (table n) hn (lt_trans hlt hn) (ne_of_gt hlt)]
        exact ih (Nat.le_of_lt hn) j hlt
      · exact gateAt_idtSet base j (table j) _

theorem idtSetLoop_outside (table : Nat → Addr) (n : Nat) {x : Addr}
    (hx : ¬ InSpan base (sizeofIdtDesc * benosTotalInterrupts) x) :
    n ≤ benosTotalInterrupts → idtSetLoop base table n m x = m x := by
  induction n with
  | zero => exact fun _ => rfl
  | succ n ih =>
      intro hn
      unfold idtSetLoop
      rw [idtSet_outside (table n) hn hx]
      exact ih (Nat.le_of_lt hn)

/-- The function of a vector. -/
def vectorFunction (idtZero isr80hWrapper : Addr)
    (interruptPointerTable : Nat → Addr) (n : BitVec 8) : Addr :=
  if n = 0x80#8 then isr80hWrapper
  else if n = 0#8 then idtZero
  else interruptPointerTable n.toNat

variable (idtDescriptors idtZero isr80hWrapper : Addr)
  (interruptPointerTable : Nat → Addr) (s : IdtState)

/-- The table of `idt_init`, written step by step. -/
theorem idtInit_mem :
    (idtInit idtDescriptors idtZero isr80hWrapper interruptPointerTable s).mem
      = idtSet idtDescriptors 0x80 isr80hWrapper
          (idtSet idtDescriptors 0 idtZero (idtSetLoop idtDescriptors
            interruptPointerTable benosTotalInterrupts
            (writeBytes s.mem idtDescriptors
              (sizeofIdtDesc * benosTotalInterrupts) fun _ => 0x00))) := rfl

/-- The gate of a vector behind `idt_init`, as the processor finds it. -/
def idtInitGate (n : BitVec 8) : Option Gate :=
  let s := idtInit idtDescriptors idtZero isr80hWrapper interruptPointerTable s
  gateOf s.mem s.idtrDescriptor n

/-- Behind `idt_init` a vector has the gate of its function. -/
theorem idtInitGate_eq (n : BitVec 8) :
    idtInitGate idtDescriptors idtZero isr80hWrapper interruptPointerTable s n
      = some (idtGate (vectorFunction idtZero isr80hWrapper
        interruptPointerTable n)) := by
  have hlt := n.isLt
  have hn : n.toNat < benosTotalInterrupts :=
    lt_trans hlt (show 2 ^ 8 < 512 by decide)
  have hlimit : sizeofIdtDesc * n.toNat + 7 ≤ (4095#16).toNat := by
    simp only [sizeofIdtDesc, BitVec.toNat_ofNat]
    omega
  unfold idtInitGate gateOf
  simp only
  rw [idtInit_mem]
  refine (if_pos hlimit).trans ?_
  show gateAt _ (idtDescriptor idtDescriptors n.toNat) = _
  unfold vectorFunction
  by_cases h80 : n = 0x80#8
  · rw [if_pos h80, h80]
    exact gateAt_idtSet _ _ _ _
  · have hne80 : 0x80 ≠ n.toNat := fun heq =>
      h80 (BitVec.eq_of_toNat_eq heq.symm)
    rw [if_neg h80]
    refine (gateAt_idtSet_ne isr80hWrapper (by decide) hn hne80).trans ?_
    by_cases h0 : n = 0#8
    · rw [if_pos h0, h0]
      exact gateAt_idtSet _ _ _ _
    · have hne0 : 0 ≠ n.toNat := fun heq =>
        h0 (BitVec.eq_of_toNat_eq heq.symm)
      rw [if_neg h0]
      refine (gateAt_idtSet_ne idtZero (by decide) hn hne0).trans ?_
      exact idtSetLoop_gate interruptPointerTable benosTotalInterrupts le_rfl
        n.toNat hn

-- ============================================================ the callbacks

/-- Registering a callback sets its entry, and no other. -/
theorem idtRegisterInterruptCallback_eq {n : Nat} (hn : n < benosTotalInterrupts)
    (callback : InterruptCallback) (cs : InterruptCallbacks)
    (i : Fin benosTotalInterrupts) :
    (idtRegisterInterruptCallback n callback cs).2 i
      = if i.val = n then some callback else cs i := by
  have hin : ¬ ((n : Int) < 0 ∨ (n : Int) ≥ benosTotalInterrupts) := by
    simp only [benosTotalInterrupts] at hn ⊢
    omega
  unfold idtRegisterInterruptCallback
  rw [dif_neg hin]
  by_cases heq : i.val = n
  · obtain rfl : i = ⟨n, hn⟩ := Fin.ext heq
    rw [if_pos rfl]
    exact Function.update_self _ _ _
  · rw [if_neg heq]
    exact Function.update_of_ne (fun h => heq (congrArg Fin.val h)) _ _

theorem idtExceptionsLoop_eq (cs : InterruptCallbacks) (n : Nat)
    (i : Fin benosTotalInterrupts) : n ≤ benosTotalInterrupts →
    idtExceptionsLoop n cs i
      = if i.val < n then some .idtHandleException else cs i := by
  induction n with
  | zero => exact fun _ => rfl
  | succ n ih =>
      intro hn
      rw [idtExceptionsLoop, idtRegisterInterruptCallback_eq hn,
        ih (Nat.le_of_lt hn)]
      by_cases heq : i.val = n
      · rw [if_pos heq, if_pos (by omega)]
      · rw [if_neg heq]
        by_cases hlt : i.val < n
        · rw [if_pos hlt, if_pos (by omega)]
        · rw [if_neg hlt, if_neg (by omega)]

/-- The exceptions and the clock are registered. -/
theorem idtInitCallbacks_eq (cs : InterruptCallbacks)
    (i : Fin benosTotalInterrupts) :
    idtInitCallbacks cs i
      = if i.val < 0x20 then some .idtHandleException
        else if i.val = 0x20 then some .idtClock else cs i := by
  have hclock := @idtRegisterInterruptCallback_eq 0x20 (by decide) .idtClock
    (idtExceptionsLoop 0x20 cs) i
  refine hclock.trans ?_
  rw [idtExceptionsLoop_eq cs 0x20 i (by decide)]
  by_cases hlt : i.val < 0x20
  · rw [if_pos hlt, if_pos hlt, if_neg (Nat.ne_of_lt hlt)]
  · rw [if_neg hlt, if_neg hlt]

-- ================================================================ idt_init

/-- Behind `idt_init` the processor finds for every vector the gate of its
function, which every ring may use; the exceptions and the clock are
registered, `idtr_descriptor` names the table, and nothing else is
written. -/
theorem idt_init_gates :
    (∀ n : BitVec 8,
      idtInitGate idtDescriptors idtZero isr80hWrapper interruptPointerTable s n
        = some (idtGate (vectorFunction idtZero isr80hWrapper
          interruptPointerTable n)))
      ∧ (idtInit idtDescriptors idtZero isr80hWrapper interruptPointerTable
          s).idtrDescriptor = ⟨4095#16, idtDescriptors⟩
      ∧ (∀ i, (idtInit idtDescriptors idtZero isr80hWrapper
          interruptPointerTable s).interruptCallbacks i
        = if i.val < 0x20 then some .idtHandleException
          else if i.val = 0x20 then some .idtClock
          else s.interruptCallbacks i)
      ∧ ∀ x, ¬ InSpan idtDescriptors (sizeofIdtDesc * benosTotalInterrupts) x →
        (idtInit idtDescriptors idtZero isr80hWrapper interruptPointerTable
          s).mem x = s.mem x := by
  refine ⟨idtInitGate_eq idtDescriptors idtZero isr80hWrapper
    interruptPointerTable s, rfl, idtInitCallbacks_eq s.interruptCallbacks,
    fun x hx => ?_⟩
  rw [idtInit_mem]
  refine (idtSet_outside isr80hWrapper (by decide) hx).trans ?_
  rw [idtSet_outside idtZero (by decide) hx,
    idtSetLoop_outside interruptPointerTable _ hx le_rfl]
  exact writeBytes_of_not_inSpan s.mem _ hx

/-- A processor that looks its gates up in this table takes the interrupts
to the assembly. -/
theorem gated_idt_init {μ : Type} {E : Env μ} {sym : Symbols}
    (hgate : E.gate = idtInitGate idtDescriptors idtZero sym.isr80hWrapper
      sym.interrupt s) : Gated E sym := by
  have hfind := idtInitGate_eq idtDescriptors idtZero sym.isr80hWrapper
    sym.interrupt s
  constructor
  · rw [hgate]
    exact hfind 0x80#8
  · intro n h0 h80
    rw [hgate]
    refine (hfind n).trans ?_
    unfold vectorFunction
    rw [if_neg h80, if_neg h0]

end BenOS.Idt
