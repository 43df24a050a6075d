/-
The words of the memory behind a page directory: they keep what is written
to them, wherever their pages lie (`pagedWords_own`), as long as no two of
their pages are one, and none is a part of the directory.
-/
import BenOS.Kernel.Paged
import BenOS.Kernel.Proofs.CopyString

namespace BenOS.Kernel

open Lib Memory X86

variable {p : DirParts} {m m' : Bytes} {view : PageDir}
  {A : Bool → Addr → Prop}

-- ================================================================== the walk

/-- Without a program the walk is that of the kernel. -/
theorem pageAccess_kernel (dir : Addr) (write : Bool) :
    pageAccess dir false write = pageWalk dir := by
  funext m a
  unfold pageAccess pageWalk entryAllows
  simp only [Bool.not_false, Bool.true_or, Bool.and_true]

/-- Where the byte at an address is, by the entry of its page. -/
def physOf (view : PageDir) (a : Addr) : Addr :=
  pageAddress (entryFrame (view (pageOf a))) + (a - pageAddress (pageOf a))

theorem toNat_physOf (view : PageDir) (a : Addr) :
    (physOf view a).toNat
      = (entryFrame (view (pageOf a))).toNat * pagingPageSize
        + a.toNat % pagingPageSize := by
  have hframe := (entryFrame (view (pageOf a))).isLt
  have ha := a.isLt
  unfold physOf
  rw [BitVec.toNat_add, BitVec.toNat_sub, toNat_pageAddress, toNat_pageAddress,
    toNat_pageOf]
  simp only [pagingPageSize]
  omega

/-- The directory of a memory, with every table there for programs that
write. -/
structure Guarded (p : DirParts) (view : PageDir) (m : Bytes) : Prop where
  tabled : Tabled p m view
  allows : ∀ i < pagingTotalEntriesPerTable,
    entryAllows true true (load32 m (p.dir + BitVec.ofNat 32 (4 * i))) = true

/-- What a program may write, all may do anything to. -/
theorem entryAllows_of_user {entry : BitVec 32}
    (h : entryAllows true true entry = true) (user write : Bool) :
    entryAllows user write entry = true := by
  unfold entryAllows at h ⊢
  simp only [Bool.not_true, Bool.false_or, Bool.and_eq_true] at h
  obtain ⟨hpresent, huser, hwritable⟩ := h
  rw [hpresent, huser, hwritable, Bool.or_true, Bool.and_true, Bool.or_true]
  rfl

/-- The processor finds a byte by the entry of its page. -/
theorem Guarded.access (h : Guarded p view m) (user write : Bool) (a : Addr) :
    pageAccess p.dir user write m a
      = if entryAllows user write (view (pageOf a)) then
          some (physOf view a)
        else none := by
  have hindex : (pagingGetIndexes (pageAddress (pageOf a))).1
      < pagingTotalEntriesPerTable := by
    have := (pageAddress (pageOf a)).isLt
    unfold pagingGetIndexes
    simp only [pagingTotalEntriesPerTable, pagingPageSize]
    omega
  have hview : pagingGet m p.dir (pageAddress (pageOf a)) = view (pageOf a) :=
    congrFun h.tabled.view (pageOf a)
  have htable := entryAllows_of_user (h.allows _ hindex) user write
  unfold pageAccess
  rw [pagingAlignToLowerPage_eq]
  simp only
  rw [hview, htable, Bool.true_and]
  rfl

/-- Memories that agree on the directory are guarded alike. -/
theorem Guarded.congr (h : Guarded p view m) (hchunk : SameOn p.chunk 4 m m')
    (hdir : SameOn p.dir pagingPageSize m m')
    (htable : ∀ i < pagingTotalEntriesPerTable,
      SameOn (p.table i) pagingPageSize m m') : Guarded p view m' := by
  refine ⟨h.tabled.congr hchunk hdir htable, fun i hi => ?_⟩
  rw [load32_congr (hdir.part (dirWord_part hi))]
  exact h.allows i hi

-- ================================================================= the words

/-- The words an access may go to: each on its page, which is there and
which no other page of theirs is, and none in the directory itself. -/
structure WordsMapped (p : DirParts) (view : PageDir)
    (A : Bool → Addr → Prop) : Prop where
  aligned : ∀ u a, A u a → a.toNat % 4 = 0
  allows : ∀ u a, A u a → entryAllows u true (view (pageOf a)) = true
  unshared : ∀ u a u' b, A u a → A u' b →
    entryFrame (view (pageOf a)) = entryFrame (view (pageOf b)) →
      pageOf a = pageOf b
  chunk : ∀ u a, A u a → SpansApart (physOf view a) 4 p.chunk 4
  dir : ∀ u a, A u a → SpansApart (physOf view a) 4 p.dir pagingPageSize
  table : ∀ u a, A u a → ∀ i < pagingTotalEntriesPerTable,
    SpansApart (physOf view a) 4 (p.table i) pagingPageSize

/-- The bytes of a word lie on one page. -/
theorem physOf_add (view : PageDir) {a : Addr} (ha : a.toNat % 4 = 0) {i : Nat}
    (hi : i < 4) :
    pageOf (a + BitVec.ofNat 32 i) = pageOf a
      ∧ physOf view (a + BitVec.ofNat 32 i)
        = physOf view a + BitVec.ofNat 32 i := by
  have hlt := a.isLt
  have hpage : pageOf (a + BitVec.ofNat 32 i) = pageOf a := by
    apply BitVec.eq_of_toNat_eq
    rw [toNat_pageOf, toNat_pageOf, BitVec.toNat_add, BitVec.toNat_ofNat]
    simp only [pagingPageSize]
    omega
  refine ⟨hpage, ?_⟩
  unfold physOf
  rw [hpage, add_assoc, add_sub_right_comm]

/-- What lets a write through lets a read through, and what lets a program
through lets the kernel. -/
theorem entryAllows_mono {entry : BitVec 32} {u : Bool}
    (h : entryAllows u true entry = true) {user : Bool}
    (hle : user = true → u = true) (write : Bool) :
    entryAllows user write entry = true := by
  unfold entryAllows at h ⊢
  cases user with
  | false =>
      rw [(Bool.and_eq_true_iff.mp h).1]
      rfl
  | true =>
      rw [hle rfl] at h
      exact entryAllows_of_user h true write

/-- A word the processor is let at. -/
theorem Guarded.accessWord (h : Guarded p view m) (hmap : WordsMapped p view A)
    {u : Bool} {a : Addr} (hA : A u a) {user : Bool}
    (hle : user = true → u = true) (write : Bool) {i : Nat} (hi : i < 4) :
    pageAccess p.dir user write m (a + BitVec.ofNat 32 i)
      = some (physOf view a + BitVec.ofNat 32 i) := by
  obtain ⟨hpage, hphys⟩ := physOf_add view (hmap.aligned u a hA) hi
  have hallows := entryAllows_mono (hmap.allows u a hA) hle write
  rw [h.access, hpage, hallows, if_pos rfl, hphys]

/-- A word is read where it lies, also by the kernel where it is one of the
program. -/
theorem Guarded.read (h : Guarded p view m) (hmap : WordsMapped p view A)
    {u : Bool} {a : Addr} (hA : A u a) {user : Bool}
    (hle : user = true → u = true) :
    (pagedWords p.dir).read user m a = some (load32 m (physOf view a)) := by
  have haccess := fun {i : Nat} (hi : i < 4) =>
    h.accessWord hmap hA hle false hi
  have hfirst := haccess (show 0 < 4 by decide)
  rw [show BitVec.ofNat 32 0 = 0#32 from rfl, BitVec.add_zero,
    BitVec.add_zero] at hfirst
  unfold pagedWords Space.word
  simp only [Option.bind_eq_bind]
  rw [hfirst, haccess (i := 1) (by decide), haccess (i := 2) (by decide),
    haccess (i := 3) (by decide)]
  rfl

/-- Four bytes written one after the other are a word. -/
theorem store32_eq_update (m : Bytes) (a v : BitVec 32) :
    Function.update (Function.update (Function.update (Function.update m a
      (byteOf v 0)) (a + 1#32) (byteOf v 1)) (a + 2#32) (byteOf v 2))
      (a + 3#32) (byteOf v 3) = store32 m a v := by
  funext x
  obtain ⟨d, rfl⟩ : ∃ d, x = a + d := ⟨x - a, by
    rw [add_comm, sub_add_cancel]⟩
  unfold store32 writeBytes
  have hne : ∀ o : BitVec 32, a + d = a + o ↔ d = o := fun o => add_right_inj a
  have hzero : a + d = a ↔ d = 0#32 := by
    have h := hne 0#32
    rwa [BitVec.add_zero] at h
  simp only [Function.update_apply, hne, hzero, add_sub_cancel_left]
  by_cases hlt : d.toNat < 4
  · have hcases : d = 0#32 ∨ d = 1#32 ∨ d = 2#32 ∨ d = 3#32 := by bv_omega
    rcases hcases with h | h | h | h
    all_goals
      rw [h]
      rfl
  · rw [if_neg hlt, if_neg (by bv_omega), if_neg (by bv_omega),
      if_neg (by bv_omega), if_neg (by bv_omega)]

/-- A word is written where it lies. -/
theorem Guarded.write (h : Guarded p view m) (hmap : WordsMapped p view A)
    {u : Bool} {a : Addr} (hA : A u a) (v : BitVec 32) :
    (pagedWords p.dir).write u m a v
      = some (store32 m (physOf view a) v) := by
  have haccess := fun {i : Nat} (hi : i < 4) =>
    h.accessWord hmap hA id true hi
  have hfirst := haccess (show 0 < 4 by decide)
  rw [show BitVec.ofNat 32 0 = 0#32 from rfl, BitVec.add_zero,
    BitVec.add_zero] at hfirst
  unfold pagedWords
  simp only [Option.bind_eq_bind]
  rw [hfirst, haccess (i := 1) (by decide), haccess (i := 2) (by decide),
    haccess (i := 3) (by decide)]
  exact congrArg some (store32_eq_update m (physOf view a) v)

/-- Different words lie apart. -/
theorem WordsMapped.apart (hmap : WordsMapped p view A) {u u' : Bool}
    {a b : Addr} (ha : A u a) (hb : A u' b) (hne : b ≠ a) :
    SpansApart (physOf view a) 4 (physOf view b) 4 := by
  have halign := hmap.aligned u a ha
  have halign' := hmap.aligned u' b hb
  have hpa := toNat_physOf view a
  have hpb := toNat_physOf view b
  have hla := (physOf view a).isLt
  have hlb := (physOf view b).isLt
  have hquad : (physOf view a).toNat % 4 = 0
      ∧ (physOf view b).toNat % 4 = 0 := by
    simp only [pagingPageSize] at hpa hpb
    omega
  have hfar : (physOf view a).toNat + 4 ≤ (physOf view b).toNat
      ∨ (physOf view b).toNat + 4 ≤ (physOf view a).toNat := by
    by_cases hframe : entryFrame (view (pageOf a))
        = entryFrame (view (pageOf b))
    · -- on one page, at different places
      have hpage := congrArg BitVec.toNat (hmap.unshared u a u' b ha hb hframe)
      rw [toNat_pageOf, toNat_pageOf] at hpage
      have hne' : a.toNat ≠ b.toNat := fun heq =>
        hne (BitVec.eq_of_toNat_eq heq.symm)
      rw [hframe] at hpa
      simp only [pagingPageSize] at hpa hpb hpage
      omega
    · have hne' : (entryFrame (view (pageOf a))).toNat
          ≠ (entryFrame (view (pageOf b))).toNat := fun heq =>
        hframe (BitVec.eq_of_toNat_eq heq)
      simp only [pagingPageSize] at hpa hpb
      omega
  apply spansApart_of_dist
  · rw [BitVec.toNat_sub]
    omega
  · rw [BitVec.toNat_sub]
    omega

/-- Through a page directory every mapped word is a word of its own: a
program or the kernel that may write it reads there what was written last,
whatever else is written to the others, and the directory stays. -/
theorem pagedWords_own (hmap : WordsMapped p view A) :
    Own (pagedWords p.dir) (Guarded p view) A where
  write := by
    intro u a m h hA v
    have hsame : Guarded p view (store32 m (physOf view a) v) :=
      h.congr (writeBytes_sameOn m _ (hmap.chunk u a hA))
        (writeBytes_sameOn m _ (hmap.dir u a hA))
        fun i hi => writeBytes_sameOn m _ (hmap.table u a hA i hi)
    refine ⟨_, h.write hmap hA v, hsame, ?_⟩
    intro u' b hb
    rw [hsame.read hmap hb id, h.read hmap hb id]
    by_cases heq : b = a
    · rw [if_pos heq, heq, load32_store32]
    · rw [if_neg heq, load32_store32_apart m v (hmap.apart hA hb heq)]

-- ================================================================= the bytes

/-- The bytes of the words. -/
def WordBytes (view : PageDir) (A : Bool → Addr → Prop) (x : Addr) : Prop :=
  ∃ u a, A u a ∧ InSpan (physOf view a) 4 x

/-- The bytes of a page directory. -/
def DirBytes (p : DirParts) (x : Addr) : Prop :=
  InSpan p.chunk 4 x ∨ InSpan p.dir pagingPageSize x
    ∨ ∃ i < pagingTotalEntriesPerTable, InSpan (p.table i) pagingPageSize x

/-- Memories that agree on a directory are guarded alike. -/
theorem Guarded.same {m m' : Bytes} (h : Guarded p view m)
    {S : Addr → Prop} (hsame : SameBut S m m')
    (hapart : ∀ x, DirBytes p x → ¬ S x) : Guarded p view m' :=
  h.congr (hsame.sameOn fun x hx => hapart x (Or.inl hx))
    (hsame.sameOn fun x hx => hapart x (Or.inr (Or.inl hx)))
    fun i hi => hsame.sameOn fun x hx =>
      hapart x (Or.inr (Or.inr ⟨i, hi, hx⟩))

/-- The directory of a task is loaded by way of its `page_directory`. -/
theorem Guarded.loads {m : Bytes} (h : Guarded p view m) {task : Addr}
    (hchunk : taskPageDirectory m task = p.chunk) :
    load32 m (taskPageDirectory m task) = p.dir := by
  rw [hchunk]
  exact h.tabled.ok.dir

-- ============================================================== a caller

/-- An entry that is set is the update of it. -/
theorem Guarded.store (h : Guarded p view m) (hsep : DirApart p)
    (v : BitVec 20) (val : BitVec 32) :
    Guarded p (Function.update view v val)
      (store32 m (p.entryAddress v) val) := by
  refine ⟨h.tabled.store hsep v val, fun i hi => ?_⟩
  have hdir : SameOn p.dir pagingPageSize m
      (store32 m (p.entryAddress v) val) := fun x hx =>
    store_entry_outside v val fun ⟨j, hj, hin⟩ => hsep.dir j hj x hin hx
  rw [load32_congr (hdir.part (dirWord_part hi))]
  exact h.allows i hi

/-- The directory of `paging_new_4gb` has its tables for programs that
write. -/
theorem guarded_oneTask {w : Nat → BitVec 32} (hw : HasTask w) :
    Guarded (objectsAt 0).parts
      (pagingNew4gbDir (pagingIsPresent ||| pagingAccessFromAll))
      (wordMemory w) := by
  refine ⟨tabled_oneTask hw, fun i hi => ?_⟩
  simp only [pagingTotalEntriesPerTable] at hi
  have hentry : oneTaskWord ((0x1000 + 5) * 1024 + i)
      = blockAddress (6 + i) ||| 7#32 := by
    unfold oneTaskWord objectWord
    simp only
    rw [if_pos (by omega), if_neg (by omega), if_neg (by omega),
      if_neg (by omega), if_pos (by omega),
      show ((0x1000 + 5) * 1024 + i) % 1024 = i by omega]
  have hword : load32 (wordMemory w)
      (blockAddress 5 + BitVec.ofNat 32 (4 * i)) = blockAddress (6 + i) ||| 7#32 :=
    (load32_block w (by decide) (by omega)).trans
      ((hw _ (by omega) (by omega)).trans hentry)
  show entryAllows true true (load32 (wordMemory w)
    (blockAddress 5 + BitVec.ofNat 32 (4 * i))) = true
  unfold entryAllows entryPresent entryUser entryWritable
  rw [hword]
  simp only [BitVec.getLsbD_or]
  rw [show (7#32).getLsbD 0 = true from rfl, show (7#32).getLsbD 1 = true from rfl,
    show (7#32).getLsbD 2 = true from rfl]
  simp only [Bool.or_true, Bool.and_true]

/-- The page a program has its stack on. -/
abbrev stackPage : BitVec 20 := 0x3FE#20

/-- A memory with one task, where a program has called a function: the
return address and an argument lie on its stack. -/
def callerWord (k : Nat) : BitVec 32 :=
  if k = 0xFFBFE then 0x400123#32
  else if k = 0xFFBFF then 72#32
  else oneTaskWord k

/-- Its stack is mapped as a writable page. -/
def callerMemory : Bytes :=
  store32 (wordMemory callerWord) ((objectsAt 0).parts.entryAddress stackPage)
    (pageAddress stackPage ||| 7#32)

/-- The entries of its directory. -/
def callerView : PageDir :=
  Function.update (pagingNew4gbDir (pagingIsPresent ||| pagingAccessFromAll))
    stackPage (pageAddress stackPage ||| 7#32)

/-- The words of the kernel that the assembly uses, and those of the
program's stack. -/
def CallerWords : Bool → Addr → Prop
  | false, a => a = 0x9000#32 ∨ ∃ k < 16, a = below 0x600000#32 (k + 1)
  | true, a => ∃ k < 8, a = below 0x3FF000#32 (k + 1)

theorem hasTask_callerWord : HasTask callerWord := by
  intro k hlo hhi
  unfold callerWord
  rw [if_neg (by omega), if_neg (by omega)]

theorem apart_objectsAt : (objectsAt 0).Apart :=
  Objects.owned_apart ramOk_twoFresh.1

theorem guarded_caller :
    Guarded (objectsAt 0).parts callerView callerMemory :=
  (guarded_oneTask hasTask_callerWord).store apart_objectsAt.dir _ _

/-- Every page is mapped to itself. -/
theorem entryFrame_callerView (v : BitVec 20) :
    entryFrame (callerView v) = v := by
  unfold callerView
  rw [Function.update_apply]
  by_cases hv : v = stackPage
  · rw [if_pos hv, hv]
    rfl
  · rw [if_neg hv]
    exact entryFrame_or v (by decide)

theorem physOf_callerView (a : Addr) : physOf callerView a = a := by
  apply BitVec.eq_of_toNat_eq
  rw [toNat_physOf, entryFrame_callerView, toNat_pageOf]
  exact Nat.div_add_mod' _ _

/-- The words lie below the heap. -/
theorem CallerWords.bounds {u : Bool} {a : Addr} (h : CallerWords u a) :
    0x9000 ≤ a.toNat ∧ a.toNat + 4 ≤ 0x00600000 ∧ a.toNat % 4 = 0 := by
  have hbelow : ∀ {top : Addr} {k : Nat}, 64 ≤ top.toNat → k < 16 →
      (below top (k + 1)).toNat = top.toNat - 4 * (k + 1) := by
    intro top k htop hk
    unfold below
    rw [BitVec.toNat_sub_of_le]
    · rw [BitVec.toNat_ofNat]
      omega
    · rw [BitVec.le_def, BitVec.toNat_ofNat]
      omega
  cases u with
  | false =>
      rcases h with rfl | ⟨k, hk, rfl⟩
      · decide
      · rw [hbelow (by decide) hk]
        show 0x9000 ≤ 0x600000 - _ ∧ 0x600000 - _ + 4 ≤ 0x600000 ∧ _
        simp only [BitVec.toNat_ofNat]
        omega
  | true =>
      obtain ⟨k, hk, rfl⟩ := h
      rw [hbelow (by decide) (by omega)]
      simp only [BitVec.toNat_ofNat]
      omega

/-- The blocks of the heap are apart from them. -/
theorem CallerWords.apart_block {u : Bool} {a : Addr} (h : CallerWords u a)
    {b n : Nat} (hb : b < kernelHeapBlocks) (hn : n ≤ pagingPageSize) :
    SpansApart a 4 (blockAddress b) n := by
  obtain ⟨hlo, hhi, -⟩ := h.bounds
  obtain ⟨hblo, hbhi⟩ := blockAddress_bounds hb
  simp only [pagingPageSize] at hn hbhi
  apply spansApart_of_dist
  · rw [BitVec.toNat_sub]
    omega
  · rw [BitVec.toNat_sub]
    omega

theorem mapped_caller :
    WordsMapped (objectsAt 0).parts callerView CallerWords := by
  refine ⟨fun u a h => h.bounds.2.2, fun u a h => ?_, fun u a u' b _ _ hframe => ?_,
    fun u a h => ?_, fun u a h => ?_, fun u a h i hi => ?_⟩
  · cases u with
    | false =>
        unfold entryAllows entryPresent callerView
        rw [Function.update_apply]
        by_cases hv : pageOf a = stackPage
        · rw [if_pos hv]
          rfl
        · rw [if_neg hv]
          unfold pagingNew4gbDir
          rw [BitVec.getLsbD_or]
          exact congrArg (· && true) (Bool.or_true _)
    | true =>
        obtain ⟨k, hk, rfl⟩ := h
        have hpage : ∀ k < 8, pageOf (below 0x3FF000#32 (k + 1)) = stackPage := by
          decide
        unfold callerView
        rw [hpage k hk, Function.update_self]
        rfl
  · rwa [entryFrame_callerView, entryFrame_callerView] at hframe
  · rw [physOf_callerView]
    exact h.apart_block (show 4 < kernelHeapBlocks by decide) (by decide)
  · rw [physOf_callerView]
    exact h.apart_block (show 5 < kernelHeapBlocks by decide) (Nat.le_refl _)
  · rw [physOf_callerView]
    refine h.apart_block (b := 0 + 6 + i) ?_ (Nat.le_refl _)
    simp only [pagingTotalEntriesPerTable, kernelHeapBlocks] at *
    omega

end BenOS.Kernel
