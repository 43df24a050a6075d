/-
Where the call for the arguments of a program writes.

The eight bytes lie at the physical address of the first; the processor
would look each of them up on its own. So they are where the program may
write exactly where its first page lets it, and, where they go on to the
next page, that one lets it too and is mapped behind the first
(`get_program_arguments_exact`). The call looks at neither.
-/
import BenOS.Kernel.ProgramArguments
import BenOS.Kernel.Proofs.CopyString

namespace BenOS.Kernel

open Lib Memory Traced

-- ============================================================ the requirement

/-- The entry is there and lets user code write. -/
def entryGrants (entry : BitVec 32) : Bool :=
  entryPresent entry && entryWritable entry && entryUser entry

/-- User code may write to an address: the entry of its table and its own
let it. -/
def userWritable (m : Bytes) (dir a : Addr) : Bool :=
  let page := pagingAlignToLowerPage a
  entryGrants (load32 m (dir + BitVec.ofNat 32 (4 * (pagingGetIndexes page).1)))
    && entryGrants (pagingGet m dir page)

/-- The physical page of an address. -/
def frameOf (m : Bytes) (dir a : Addr) : BitVec 20 :=
  entryFrame (pagingGet m dir (pagingAlignToLowerPage a))

/-- The byte lies in a page that the directory maps for user code to write
to, at one of the eight addresses from `ptr` on. -/
def GrantedAt (m : Bytes) (dir ptr x : Addr) : Prop :=
  ∃ v, InSpan ptr 8 v ∧ userWritable m dir v = true ∧ frameOf m dir v = pageOf x

/-- The page of the pointer may be written to; where the eight bytes go on
to the next page, so may that one, and it is mapped behind the first. -/
def PairGranted (m : Bytes) (dir ptr : Addr) : Prop :=
  userWritable m dir ptr = true ∧ (pageOf (ptr + 7#32) ≠ pageOf ptr →
    userWritable m dir (ptr + 7#32) = true
      ∧ frameOf m dir (ptr + 7#32) = frameOf m dir ptr + 1#20)

-- ================================================================== the pages

/-- The address some way into a page lies in it or in the next. -/
theorem pageOf_near (p : BitVec 20) {d : Nat} (hd : d < 2 * pagingPageSize) :
    pageOf (pageAddress p + BitVec.ofNat 32 d)
      = if d < pagingPageSize then p else p + 1#20 := by
  apply BitVec.eq_of_toNat_eq
  rw [toNat_pageOf, BitVec.toNat_add, toNat_pageAddress, BitVec.toNat_ofNat]
  have hp := p.isLt
  simp only [pagingPageSize] at *
  split
  · omega
  · rw [BitVec.toNat_add]
    simp only [BitVec.toNat_ofNat]
    omega

/-- An address is its page and its way into it. -/
theorem addr_eq (a : Addr) :
    a = pageAddress (pageOf a)
      + BitVec.ofNat 32 (a.toNat % pagingPageSize) := by
  apply BitVec.eq_of_toNat_eq
  rw [BitVec.toNat_add, toNat_pageAddress, toNat_pageOf, BitVec.toNat_ofNat]
  have ha := a.isLt
  simp only [pagingPageSize]
  omega

/-- An address up to eight bytes behind another lies in its page or in the
next. -/
theorem pageOf_behind (a : Addr) {i : Nat} (hi : i < 8) :
    pageOf (a + BitVec.ofNat 32 i)
      = if a.toNat % pagingPageSize + i < pagingPageSize then pageOf a
        else pageOf a + 1#20 := by
  have hd : a.toNat % pagingPageSize + i < 2 * pagingPageSize := by
    simp only [pagingPageSize]
    omega
  rw [← pageOf_near (pageOf a) hd, BitVec.ofNat_add, ← BitVec.add_assoc,
    ← addr_eq a]

/-- The address in an entry is that of its page. -/
theorem tableAddress_eq (entry : BitVec 32) :
    tableAddress entry = pageAddress (entryFrame entry) := by
  have hmask : ∀ i : Fin 32,
      (0xFFFFF000#32).getLsbD i = decide (12 ≤ i.val) := by decide
  unfold tableAddress pageAddress entryFrame
  apply BitVec.eq_of_getLsbD_eq
  intro i hi
  rw [BitVec.getLsbD_and, hmask ⟨i, hi⟩, BitVec.getLsbD_append]
  by_cases hlow : i < 12
  · rw [if_pos hlow, decide_eq_false (by simp only; omega), Bool.and_false,
      BitVec.getLsbD_zero]
  · rw [if_neg hlow, decide_eq_true (by simp only; omega), Bool.and_true,
      BitVec.getLsbD_extractLsb', decide_eq_true (by omega), Bool.true_and,
      show 12 + (i - 12) = i by omega]

/-- What the directory says of an address it says of its page. -/
theorem userWritable_congr (m : Bytes) (dir : Addr) {a b : Addr}
    (h : pageOf a = pageOf b) : userWritable m dir a = userWritable m dir b := by
  unfold userWritable
  rw [pagingAlignToLowerPage_eq, pagingAlignToLowerPage_eq, h]

theorem frameOf_congr (m : Bytes) (dir : Addr) {a b : Addr}
    (h : pageOf a = pageOf b) : frameOf m dir a = frameOf m dir b := by
  unfold frameOf
  rw [pagingAlignToLowerPage_eq, pagingAlignToLowerPage_eq, h]

/-- The physical address of the pointer. -/
theorem pagingGetPhysAddr_eq (m : Bytes) (dir ptr : Addr) :
    pagingGetPhysAddr m dir ptr = pageAddress (frameOf m dir ptr)
      + BitVec.ofNat 32 (ptr.toNat % pagingPageSize) := by
  have hdiff : ptr - pagingAlignToLowerPage ptr
      = BitVec.ofNat 32 (ptr.toNat % pagingPageSize) := sub_sub_cancel _ _
  unfold pagingGetPhysAddr
  simp only
  rw [hdiff, tableAddress_eq]
  rfl

/-- The physical address some bytes behind that of the pointer lies in the
page of the pointer or in the one that is physically behind it. -/
theorem pageOf_phys (m : Bytes) (dir ptr : Addr) {i : Nat} (hi : i < 8) :
    pageOf (pagingGetPhysAddr m dir ptr + BitVec.ofNat 32 i)
      = if ptr.toNat % pagingPageSize + i < pagingPageSize then
          frameOf m dir ptr
        else frameOf m dir ptr + 1#20 := by
  have hd : ptr.toNat % pagingPageSize + i < 2 * pagingPageSize := by
    simp only [pagingPageSize]
    omega
  rw [← pageOf_near (frameOf m dir ptr) hd, pagingGetPhysAddr_eq,
    BitVec.ofNat_add, BitVec.add_assoc]

theorem page_ne_succ (p : BitVec 20) : p ≠ p + 1#20 := by
  intro h
  have hzero : (0 : BitVec 20) = 1#20 := by
    rw [← add_right_inj p, add_zero]
    exact h
  cases hzero

-- ================================================================= the writes

/-- The eight bytes behind the physical address of the pointer are where
user code may write exactly where the pages let it. -/
theorem granted_iff (m : Bytes) (dir ptr : Addr) :
    (∀ i < 8, GrantedAt m dir ptr
        (pagingGetPhysAddr m dir ptr + BitVec.ofNat 32 i))
      ↔ PairGranted m dir ptr := by
  have hin : ∀ i < 8, InSpan ptr 8 (ptr + BitVec.ofNat 32 i) := by
    intro i hi
    unfold InSpan
    rw [add_sub_cancel_left, BitVec.toNat_ofNat]
    omega
  have hof : ∀ v, InSpan ptr 8 v → ∃ i < 8, v = ptr + BitVec.ofNat 32 i := by
    intro v hv
    refine ⟨(v - ptr).toNat, hv, ?_⟩
    rw [BitVec.ofNat_toNat, BitVec.setWidth_eq, add_sub_cancel]
  have hlast := pageOf_behind ptr (show 7 < 8 by decide)
  have hlastPhys := pageOf_phys m dir ptr (show 7 < 8 by decide)
  by_cases hone : ptr.toNat % pagingPageSize + 7 < pagingPageSize
  · -- one page
    rw [if_pos hone] at hlast
    have hpage : ∀ i < 8, pageOf (ptr + BitVec.ofNat 32 i) = pageOf ptr := by
      intro i hi
      rw [pageOf_behind ptr hi, if_pos (by omega)]
    constructor
    · intro h
      obtain ⟨v, hv, hmay, -⟩ := h 0 (by decide)
      obtain ⟨i, hi, rfl⟩ := hof v hv
      rw [userWritable_congr m dir (hpage i hi)] at hmay
      exact ⟨hmay, fun hne => absurd hlast hne⟩
    · rintro ⟨hmay, -⟩ i hi
      refine ⟨ptr + BitVec.ofNat 32 0, hin 0 (by decide), ?_, ?_⟩
      · rw [userWritable_congr m dir (hpage 0 (by decide))]
        exact hmay
      · rw [pageOf_phys m dir ptr hi, if_pos (by omega)]
        exact frameOf_congr m dir (hpage 0 (by decide))
  · -- two pages
    rw [if_neg hone] at hlast hlastPhys
    have hpage : ∀ i < 8, pageOf (ptr + BitVec.ofNat 32 i) = pageOf ptr
        ∨ pageOf (ptr + BitVec.ofNat 32 i) = pageOf (ptr + 7#32) := by
      intro i hi
      rw [pageOf_behind ptr hi, hlast]
      split
      · exact Or.inl rfl
      · exact Or.inr rfl
    constructor
    · intro h
      -- the last byte is not in the frame of the first page
      have hsecond : userWritable m dir (ptr + 7#32) = true
          ∧ frameOf m dir (ptr + 7#32) = frameOf m dir ptr + 1#20 := by
        obtain ⟨v, hv, hmay, hframe⟩ := h 7 (by decide)
        obtain ⟨i, hi, rfl⟩ := hof v hv
        rw [hlastPhys] at hframe
        rcases hpage i hi with heq | heq
        · rw [frameOf_congr m dir heq] at hframe
          exact absurd hframe (page_ne_succ _)
        · rw [userWritable_congr m dir heq] at hmay
          rw [frameOf_congr m dir heq] at hframe
          exact ⟨hmay, hframe⟩
      refine ⟨?_, fun _ => hsecond⟩
      obtain ⟨v, hv, hmay, hframe⟩ := h 0 (by decide)
      obtain ⟨i, hi, rfl⟩ := hof v hv
      have hfirst : ptr.toNat % pagingPageSize + 0 < pagingPageSize :=
        Nat.mod_lt _ (by decide)
      rw [pageOf_phys m dir ptr (by decide), if_pos hfirst] at hframe
      rcases hpage i hi with heq | heq
      · rwa [userWritable_congr m dir heq] at hmay
      · rw [frameOf_congr m dir heq, hsecond.2] at hframe
        exact absurd hframe.symm (page_ne_succ _)
    · rintro ⟨hmay, hsecond⟩ i hi
      obtain ⟨hmay₂, hframe₂⟩ := hsecond (by
        rw [hlast]
        exact (page_ne_succ _).symm)
      by_cases hfirst : ptr.toNat % pagingPageSize + i < pagingPageSize
      · refine ⟨ptr + BitVec.ofNat 32 0, hin 0 (by decide), ?_, ?_⟩
        · rw [BitVec.add_zero]
          exact hmay
        · rw [pageOf_phys m dir ptr hi, if_pos hfirst, BitVec.add_zero]
      · refine ⟨ptr + BitVec.ofNat 32 7, hin 7 (by decide), hmay₂, ?_⟩
        rw [pageOf_phys m dir ptr hi, if_neg hfirst]
        exact hframe₂

theorem logs_putWord {P : Addr → Prop} (a : Addr) (v : BitVec 32) (m : Bytes) :
    Logs P (putWord a v m) ↔ ∀ i < 4, P (a + BitVec.ofNat 32 i) := by
  constructor
  · intro h i hi
    exact h _ (List.mem_map.mpr ⟨i, List.mem_range.mpr hi, rfl⟩)
  · intro h x hx
    obtain ⟨i, hi, rfl⟩ := List.mem_map.mp hx
    exact h i (List.mem_range.mp hi)

/-- The two words are eight bytes. -/
theorem logs_processGetArgs {P : Addr → Prop} (process args : Addr)
    (m : Bytes) : Logs P (processGetArgs process args (args + 4#32) m)
      ↔ ∀ i < 8, P (args + BitVec.ofNat 32 i) := by
  unfold processGetArgs
  rw [logs_bind_iff, logs_putWord, logs_putWord]
  have hsum : ∀ i, args + 4#32 + BitVec.ofNat 32 i
      = args + BitVec.ofNat 32 (4 + i) := by
    intro i
    rw [BitVec.ofNat_add, BitVec.add_assoc]
  constructor
  · rintro ⟨hlow, hhigh⟩ i hi
    by_cases hfirst : i < 4
    · exact hlow i hfirst
    · have hword := hhigh (i - 4) (by omega)
      rwa [hsum, show 4 + (i - 4) = i by omega] at hword
  · intro h
    refine ⟨fun i hi => h i (by omega), fun i hi => ?_⟩
    rw [hsum]
    exact h (4 + i) (by omega)

/-- What is not written stays. -/
theorem putWord_frame {a : Addr} {v : BitVec 32} {m : Bytes} {x : Addr}
    (hx : x ∉ (putWord a v m).log) : (putWord a v m).val x = m x := by
  apply writeBytes_of_not_inSpan
  intro hin
  apply hx
  refine List.mem_map.mpr ⟨(x - a).toNat, List.mem_range.mpr hin, ?_⟩
  rw [BitVec.ofNat_toNat, BitVec.setWidth_eq, add_sub_cancel]

/-- The bytes that the call does not write are those it leaves as they
are. -/
theorem get_program_arguments_frame {task res : Addr} {m m' : Bytes}
    (h : (isr80hCommand8GetProgramArguments task m).val = some (res, m'))
    {x : Addr} (hx : x ∉ (isr80hCommand8GetProgramArguments task m).log) :
    m' x = m x := by
  unfold isr80hCommand8GetProgramArguments at h hx
  simp only at h hx
  cases hitem : taskGetStackItem m task 0 with
  | none =>
      rw [hitem] at h
      cases h
  | some ptr =>
      rw [hitem] at h hx
      unfold processGetArgs at h hx
      simp only [val_bind, log_bind, log_pure, List.append_nil,
        List.mem_append, not_or] at h hx
      cases h
      rw [putWord_frame hx.2, putWord_frame hx.1]

/-- A task whose stack is not there writes nothing. -/
theorem get_program_arguments_fault {task : Addr} {m : Bytes}
    (h : taskGetStackItem m task 0 = none) :
    isr80hCommand8GetProgramArguments task m = pure none := by
  unfold isr80hCommand8GetProgramArguments
  rw [h]

/-- The bytes the call writes all lie in pages that the page directory of
the task maps for it to write to at the eight addresses from the pointer
on, exactly where these pages let it and lie one behind the other: for
every memory and every pointer on the stack. -/
theorem get_program_arguments_exact {task ptr : Addr} {m : Bytes}
    (hptr : taskGetStackItem m task 0 = some ptr) :
    Logs (GrantedAt m (taskDirectoryEntry m task) ptr)
        (isr80hCommand8GetProgramArguments task m)
      ↔ PairGranted m (taskDirectoryEntry m task) ptr := by
  unfold isr80hCommand8GetProgramArguments
  rw [hptr]
  simp only
  rw [logs_bind_iff, logs_processGetArgs]
  refine Iff.trans ?_ (granted_iff m (taskDirectoryEntry m task) ptr)
  constructor
  · exact fun h => h.1
  · exact fun h => ⟨h, logs_pure _⟩

/-- Word `k` of a memory with one task: its stack may be written to, the
top word of it is `item`, and the process has one argument. -/
def argumentsWord (item : BitVec 32) (k : Nat) : BitVec 32 :=
  -- `registers.esp` and `process` of the task
  if k = (0x1000 + 3) * 1024 + 11 then 0x003FEFF0#32
  else if k = (0x1000 + 3) * 1024 + 13 then blockAddress 0
  else if k = 0x003FEFF0 / 4 then item
  -- `args` of the process
  else if k = 0x1000 * 1024 + 2339 then 1#32
  else if k = 0x1000 * 1024 + 2340 then 0x01500000#32
  -- the entry of the page of the stack
  else if k = (0x1000 + 6) * 1024 + 0x3FE then 0x003FE007#32
  else oneTaskWord k

abbrev argumentsMemory (item : BitVec 32) : Bytes :=
  wordMemory (argumentsWord item)

/-- A pointer to the stack is granted. -/
theorem get_program_arguments_exact_stack :
    Logs (GrantedAt (argumentsMemory 0x003FEF80#32)
        (taskDirectoryEntry (argumentsMemory 0x003FEF80#32)
          (objectsAt 0).task) 0x003FEF80#32)
      (isr80hCommand8GetProgramArguments (objectsAt 0).task
        (argumentsMemory 0x003FEF80#32)) := by
  apply (get_program_arguments_exact (by decide)).mpr
  refine ⟨by decide, fun hne => absurd ?_ hne⟩
  decide

/-- It is not so for every pointer: the first byte of the kernel is
changed, where the program may not write. -/
theorem get_program_arguments_kernel :
    ¬ ∀ (task ptr res : Addr) (m m' : Bytes),
        taskGetStackItem m task 0 = some ptr →
        (isr80hCommand8GetProgramArguments task m).val = some (res, m') →
        ∀ x, m' x ≠ m x → GrantedAt m (taskDirectoryEntry m task) ptr x := by
  intro hall
  have hrun : ∃ m', (isr80hCommand8GetProgramArguments (objectsAt 0).task
      (argumentsMemory 0x00100000#32)).val = some (0#32, m')
        ∧ m' 0x00100000#32 ≠ argumentsMemory 0x00100000#32 0x00100000#32 := by
    refine ⟨_, rfl, ?_⟩
    decide
  obtain ⟨m', hval, hchanged⟩ := hrun
  obtain ⟨v, hv, hmay, -⟩ := hall (objectsAt 0).task 0x00100000#32 0#32 _ m'
    (by decide) hval _ hchanged
  have hpage : pageOf v = pageOf 0x00100000#32 := by
    unfold InSpan at hv
    have hlt := v.isLt
    apply BitVec.eq_of_toNat_eq
    rw [toNat_pageOf, toNat_pageOf]
    simp only [BitVec.toNat_sub, BitVec.toNat_ofNat, pagingPageSize] at *
    omega
  rw [userWritable_congr _ _ hpage] at hmay
  exact absurd hmay (by decide)

end BenOS.Kernel
