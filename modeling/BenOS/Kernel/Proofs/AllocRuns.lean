/-
The heap of one process over any sequence of calls.

`AllocState` is the memory with the runs the process has given back so
far. `AllocInv` says how the heap, the allocation table and the page
directory stand to each other: every recorded run is a run of the heap,
its pages are mapped to themselves for the user, the pages given back
and not handed out again have no flags, and every other page is what it
was. One call keeps it (`allocInv_step`), so every sequence does.
-/
import BenOS.Kernel.Proofs.Alloc
import BenOS.Kernel.Proofs.Fresh
import BenOS.Lib.Run

namespace BenOS.Kernel

open Lib Memory

-- ============================================================== the system

/-- The memory, and the runs the process has given back. -/
structure AllocState where
  ram : Ram
  freed : List (Addr × Nat)

/-- One call of a process. -/
inductive AllocOp
  | malloc (size : Nat)
  | free (ptr : Addr)

/-- One call: a request of at least a byte that rounds up within 32 bits,
or the release of any pointer. -/
def allocStep (process : Addr) (s : AllocState) : AllocOp → Option AllocState
  | .malloc size =>
      if 1 ≤ size ∧ size ≤ 0xFFFFF000 then
        some { s with ram := (processMalloc process size s.ram).2 }
      else none
  | .free ptr =>
      some
        { ram := processFree process ptr s.ram
          freed := (recorded s.ram.mem process).filter (fun a => a.1 == ptr)
            ++ s.freed }

/-- The heap request of a call finds a run of free blocks long enough. -/
def FindsRun (s : AllocState) (op : AllocOp) (_ : AllocState) : Prop :=
  match op with
  | .malloc size => Serves s.ram.heap size
  | .free _ => True

-- ======================================================= what is required

/-- The run of an allocation has a page. -/
def HasPage (a : Addr × Nat) (v : BitVec 20) : Prop :=
  (v - pageOf a.1).toNat < a.2

/-- The entries of the page directory, from those it started with: the
pages of the live runs, those of the runs given back, and the others. -/
structure Mapped (d₀ d : PageDir) (live freed : List (Addr × Nat)) :
    Prop where
  held : ∀ a ∈ live, ∀ v, HasPage a v → d v = pageAddress v ||| allocFlags
  back : ∀ a ∈ freed, ∀ v, HasPage a v → (∀ c ∈ live, ¬ HasPage c v) →
    d v = pageAddress v ||| 0x00#32
  kept : ∀ v, (∀ a ∈ live ++ freed, ¬ HasPage a v) → d v = d₀ v

/-- What holds of a process at every point, beside the blocks of all
`others`. -/
structure AllocOk (o : Objects) (others : List (Addr × Nat)) (d₀ : PageDir)
    (s : AllocState) : Prop where
  distinct : ∀ i < benosMaxProgramAllocations,
    ∀ j < benosMaxProgramAllocations, i ≠ j →
      allocPtr s.ram.mem o.process i ≠ 0#32 →
      allocPtr s.ram.mem o.process j ≠ allocPtr s.ram.mem o.process i
  owns : ∀ i < benosMaxProgramAllocations,
    allocPtr s.ram.mem o.process i ≠ 0#32 →
      OwnsRun s.ram.heap (allocPtr s.ram.mem o.process i,
        blocksFor (allocSize s.ram.mem o.process i).toNat)
  alone : (recorded s.ram.mem o.process ++ (o.owned ++ others)).Pairwise
    fun a c => SpansApart a.1 (blockBytes a.2) c.1 (blockBytes c.2)
  mapped : Mapped d₀ (dirView s.ram.mem o.parts.dir)
    (recorded s.ram.mem o.process) s.freed

/-- The heap, the allocation table and the page directory, its words and
its entries, are as they were. -/
structure Untouched (o : Objects) (r r' : Ram) : Prop where
  heap : r'.heap = r.heap
  table : ∀ i < benosMaxProgramAllocations,
    allocPtr r'.mem o.process i = allocPtr r.mem o.process i
      ∧ allocSize r'.mem o.process i = allocSize r.mem o.process i
  view : dirView r'.mem o.parts.dir = dirView r.mem o.parts.dir
  objects : ∀ c ∈ o.owned, SameOn c.1 (blockBytes c.2) r.mem r'.mem

/-- The runs are given back: their blocks are free and their pages have no
flags, every other entry of the heap's table and of the page directory is
what it was. -/
structure GivenBack (o : Objects) (runs : List (Addr × Nat)) (r r' : Ram) :
    Prop where
  freed : ∀ a ∈ runs, ∀ i, InRun r.heap a i →
    r'.heap.table.entries i = heapBlockTableEntryFree
  blocks : ∀ i, (∀ a ∈ runs, ¬ InRun r.heap a i) →
    r'.heap.table.entries i = r.heap.table.entries i
  unmapped : ∀ a ∈ runs, ∀ v, HasPage a v →
    dirView r'.mem o.parts.dir v = pageAddress v ||| 0x00#32
  pages : ∀ v, (∀ a ∈ runs, ¬ HasPage a v) →
    dirView r'.mem o.parts.dir v = dirView r.mem o.parts.dir v

/-- What is required of one call: the process is in order; a request that
answers null changes nothing, and any other has its run recorded; the
release of a pointer that is not recorded changes nothing, and that of any
other gives its run back. -/
def AllocStepOk (o : Objects) (others : List (Addr × Nat)) (d₀ : PageDir)
    (s : AllocState) (op : AllocOp) (s' : AllocState) : Prop :=
  AllocOk o others d₀ s' ∧
    match op with
    | .malloc size =>
        let ptr := (processMalloc o.process size s.ram).1
        (ptr = 0#32 → Untouched o s.ram s'.ram)
          ∧ (ptr ≠ 0#32 → (recorded s'.ram.mem o.process).Perm
            ((ptr, blocksFor size) :: recorded s.ram.mem o.process))
    | .free ptr =>
        ((ptr = 0#32 ∨ ∀ i < benosMaxProgramAllocations,
              allocPtr s.ram.mem o.process i ≠ ptr) →
            Untouched o s.ram s'.ram)
          ∧ ∀ n, (ptr, n) ∈ recorded s.ram.mem o.process →
            (recorded s.ram.mem o.process).Perm
                ((ptr, n) :: recorded s'.ram.mem o.process)
              ∧ GivenBack o [(ptr, n)] s.ram s'.ram

-- =================================================================== pages

/-- A page of a run is in the bytes of the run. -/
theorem inSpan_of_hasPage {a : Addr × Nat} {v : BitVec 20}
    (hpage : a.1.toNat % benosHeapBlockSize = 0) (h : HasPage a v) :
    InSpan a.1 (blockBytes a.2) (pageAddress v) := by
  unfold HasPage at h
  unfold InSpan
  have ha := a.1.isLt
  have hv := v.isLt
  rw [BitVec.toNat_sub, toNat_pageOf] at h
  rw [BitVec.toNat_sub, toNat_pageAddress]
  simp only [blockBytes, benosHeapBlockSize, pagingPageSize] at *
  omega

/-- The request of an allocation covers its pages, and maps each to
itself. -/
theorem patch_allocRequest (a : Addr × Nat) (flags : BitVec 32) (d : PageDir)
    (v : BitVec 20) :
    (HasPage a v → patch MapReq.covers MapReq.value
        (allocRequest a.1 a.2 flags) d v = pageAddress v ||| flags)
      ∧ (¬ HasPage a v → patch MapReq.covers MapReq.value
        (allocRequest a.1 a.2 flags) d v = d v) := by
  unfold HasPage patch MapReq.covers allocRequest
  constructor
  · intro h
    rw [if_pos (decide_eq_true h)]
    unfold MapReq.value MapReq.frame
    rw [add_sub_cancel]
  · intro h
    rw [if_neg (by rw [decide_eq_true_iff]; exact h)]

/-- A run that is handed out is mapped. -/
theorem Mapped.extend {d₀ d d' : PageDir} {live live' freed : List (Addr × Nat)}
    {a : Addr × Nat} (h : Mapped d₀ d live freed)
    (hlive : live'.Perm (a :: live))
    (hd : d' = patch MapReq.covers MapReq.value
      (allocRequest a.1 a.2 allocFlags) d) : Mapped d₀ d' live' freed := by
  have hin : a ∈ live' := hlive.mem_iff.mpr List.mem_cons_self
  have hmem : ∀ c ∈ live, c ∈ live' := fun c hc =>
    hlive.mem_iff.mpr (List.mem_cons_of_mem _ hc)
  refine ⟨fun c hc v hv => ?_, fun c hc v hv hnot => ?_, fun v hnot => ?_⟩
  · obtain ⟨hpatch, hkeep⟩ := patch_allocRequest a allocFlags d v
    rw [hd]
    by_cases hav : HasPage a v
    · exact hpatch hav
    · rw [hkeep hav]
      rcases List.mem_cons.mp (hlive.mem_iff.mp hc) with heq | hc
      · exact absurd (heq ▸ hv) hav
      · exact h.held c hc v hv
  · rw [hd, (patch_allocRequest a allocFlags d v).2 (hnot a hin)]
    exact h.back c hc v hv fun c' hc' => hnot c' (hmem c' hc')
  · rw [hd, (patch_allocRequest a allocFlags d v).2
      (hnot a (List.mem_append_left _ hin))]
    refine h.kept v fun c hc => hnot c ?_
    rcases List.mem_append.mp hc with hc | hc
    · exact List.mem_append_left _ (hmem c hc)
    · exact List.mem_append_right _ hc

/-- A run that is given back, and shares no page with the others, is
unmapped. -/
theorem Mapped.reduce {d₀ d d' : PageDir}
    {live live' back freed : List (Addr × Nat)} {a : Addr × Nat}
    (h : Mapped d₀ d live freed) (hlive : live.Perm (a :: live'))
    (hd : d' = patch MapReq.covers MapReq.value
      (allocRequest a.1 a.2 0x00#32) d)
    (hapart : ∀ c ∈ live', ∀ v, HasPage a v → ¬ HasPage c v)
    (hback : ∀ c, c ∈ back ↔ c = a) : Mapped d₀ d' live' (back ++ freed) := by
  have hmem : ∀ c ∈ live', c ∈ live := fun c hc =>
    hlive.mem_iff.mpr (List.mem_cons_of_mem _ hc)
  have hcases : ∀ v, ¬ HasPage a v → (∀ c ∈ live', ¬ HasPage c v) →
      ∀ c ∈ live, ¬ HasPage c v := by
    intro v hav hnot c hc
    rcases List.mem_cons.mp (hlive.mem_iff.mp hc) with heq | hc
    · rw [heq]
      exact hav
    · exact hnot c hc
  refine ⟨fun c hc v hv => ?_, fun c hc v hv hnot => ?_, fun v hnot => ?_⟩
  · have hav : ¬ HasPage a v := fun hav => hapart c hc v hav hv
    rw [hd, (patch_allocRequest a 0x00#32 d v).2 hav]
    exact h.held c (hmem c hc) v hv
  · rw [hd]
    by_cases hav : HasPage a v
    · exact (patch_allocRequest a 0x00#32 d v).1 hav
    · rw [(patch_allocRequest a 0x00#32 d v).2 hav]
      rcases List.mem_append.mp hc with hc | hc
      · exact absurd ((hback c).mp hc ▸ hv) hav
      · exact h.back c hc v hv (hcases v hav hnot)
  · have hav : ¬ HasPage a v := hnot a (List.mem_append_right _
      (List.mem_append_left _ ((hback a).mpr rfl)))
    rw [hd, (patch_allocRequest a 0x00#32 d v).2 hav]
    refine h.kept v fun c hc => ?_
    rcases List.mem_append.mp hc with hc | hc
    · exact hcases v hav (fun c' hc' => hnot c' (List.mem_append_left _ hc'))
        c hc
    · exact hnot c (List.mem_append_right _ (List.mem_append_right _ hc))

-- =============================================================== the steps

/-- The heap, the allocation table and the page directory of a live
process stand to each other as they should. -/
structure AllocInv (o : Objects) (others : List (Addr × Nat)) (d₀ : PageDir)
    (s : AllocState) : Prop where
  ok : ProcOk o others s.ram
  mapped : Mapped d₀ (dirView s.ram.mem o.parts.dir)
    (recorded s.ram.mem o.process) s.freed

variable {o : Objects} {others : List (Addr × Nat)} {d₀ : PageDir}
  {s s' : AllocState} {op : AllocOp}

theorem AllocInv.allocOk (h : AllocInv o others d₀ s) :
    AllocOk o others d₀ s := by
  refine ⟨fun i hi j hj hij hptr => h.ok.allocPtr_ne hi hj hij hptr,
    fun i hi hptr => ?_, h.ok.ram.spansApart, h.mapped⟩
  exact h.ok.ram.ownsRun (List.mem_append_left _ (mem_recorded hi hptr))

theorem Unchanged.untouched {r r' : Ram} (h : Unchanged o others r r') :
    Untouched o r r' := ⟨h.heap, h.table, h.view, h.objects⟩

theorem Unchanged.allocInv {r' : Ram} (h : AllocInv o others d₀ s)
    (hu : Unchanged o others s.ram r') :
    AllocInv o others d₀ { s with ram := r' } := by
  refine ⟨hu.ok, ?_⟩
  simp only
  rw [hu.view, recorded_congr hu.table]
  exact h.mapped

/-- A run that is given back shares no page with those kept. -/
theorem pages_apart {r : Ram} {a c : Addr × Nat} {live : List (Addr × Nat)}
    (h : RamOk r (a :: live)) (hc : c ∈ live) (v : BitVec 20)
    (hv : HasPage a v) : ¬ HasPage c v := by
  intro hcv
  have ha := inSpan_of_hasPage (h.aligned List.mem_cons_self) hv
  have hc' := inSpan_of_hasPage (h.aligned (List.mem_cons_of_mem _ hc)) hcv
  exact h.spansApart_cons c hc _ ha hc'

/-- The runs recorded under a pointer are the one run with it. -/
theorem mem_filter_recorded {r : Ram} {ptr : Addr} {n : Nat}
    {live live' rest : List (Addr × Nat)}
    (h : RamOk r ((ptr, n) :: (live' ++ rest)))
    (hperm : live.Perm ((ptr, n) :: live')) (c : Addr × Nat) :
    c ∈ live.filter (fun a => a.1 == ptr) ↔ c = (ptr, n) := by
  rw [List.mem_filter, hperm.mem_iff, List.mem_cons, beq_iff_eq]
  constructor
  · intro hand
    obtain ⟨heq | hc, hptr⟩ := hand
    · exact heq
    · -- runs that start alike share their first byte
      have hc' : c ∈ live' ++ rest := List.mem_append_left _ hc
      obtain ⟨-, -, hpos, -⟩ := h.place (List.mem_cons_of_mem _ hc')
      obtain ⟨-, -, hpos', -⟩ := h.place List.mem_cons_self
      refine absurd ?_ (h.spansApart_cons c hc' ptr ?_)
      · unfold InSpan
        rw [hptr, BitVec.sub_self]
        simp only [blockBytes, benosHeapBlockSize, BitVec.toNat_ofNat]
        omega
      · unfold InSpan
        simp only [BitVec.sub_self, blockBytes, benosHeapBlockSize,
          BitVec.toNat_ofNat] at *
        omega
  · intro heq
    rw [heq]
    exact ⟨Or.inl rfl, rfl⟩

/-- Where a run lies depends on the place of the pool only. -/
theorem inRun_congr {heap heap' : Heap} (h : heap'.saddr = heap.saddr)
    (a : Addr × Nat) (i : Int) : InRun heap' a i ↔ InRun heap a i := by
  unfold InRun heapAddressToBlock
  rw [h]

/-- One run more. -/
theorem GivenBack.snoc {runs live : List (Addr × Nat)} {a : Addr × Nat}
    {r r' r'' : Ram} (h : GivenBack o runs r r') (hram : RamOk r' live)
    (ha : a ∈ live) (hsaddr : r'.heap.saddr = r.heap.saddr)
    (hheap : r''.heap = heapFree r'.heap a.1)
    (hview : dirView r''.mem o.parts.dir = patch MapReq.covers MapReq.value
      (allocRequest a.1 a.2 0x00#32) (dirView r'.mem o.parts.dir)) :
    GivenBack o (runs ++ [a]) r r'' := by
  have hlast : a ∈ runs ++ [a] :=
    List.mem_append_right _ List.mem_cons_self
  have hin : ∀ i, InRun r.heap a i ↔ InRun r'.heap a i :=
    fun i => (inRun_congr hsaddr a i).symm
  refine ⟨fun c hc i hi => ?_, fun i hnot => ?_, fun c hc v hv => ?_,
    fun v hnot => ?_⟩
  · obtain ⟨hfree, hkeep⟩ := hram.heapFree_entries ha i
    rw [hheap]
    by_cases hai : InRun r'.heap a i
    · exact hfree hai
    · rw [hkeep hai]
      rcases List.mem_append.mp hc with hc | hc
      · exact h.freed c hc i hi
      · rw [List.mem_singleton.mp hc] at hi
        exact absurd ((hin i).mp hi) hai
  · obtain ⟨-, hkeep⟩ := hram.heapFree_entries ha i
    rw [hheap, hkeep fun hai => hnot a hlast ((hin i).mpr hai)]
    exact h.blocks i fun c hc => hnot c (List.mem_append_left _ hc)
  · obtain ⟨hpatch, hkeep⟩ :=
      patch_allocRequest a 0x00#32 (dirView r'.mem o.parts.dir) v
    rw [hview]
    by_cases hav : HasPage a v
    · exact hpatch hav
    · rw [hkeep hav]
      rcases List.mem_append.mp hc with hc | hc
      · exact h.unmapped c hc v hv
      · rw [List.mem_singleton.mp hc] at hv
        exact absurd hv hav
  · rw [hview, (patch_allocRequest a 0x00#32 _ v).2 (hnot a hlast)]
    exact h.pages v fun c hc => hnot c (List.mem_append_left _ hc)

/-- Nothing is given back where nothing is done. -/
theorem GivenBack.refl (r : Ram) : GivenBack o [] r r :=
  ⟨fun _ ha => absurd ha List.not_mem_nil, fun _ _ => rfl,
    fun _ ha => absurd ha List.not_mem_nil, fun _ _ => rfl⟩

/-- A run that is taken off the process is given back. -/
theorem givenBack_of_reduced {r r' : Ram} {a : Addr × Nat}
    (h : ProcOk o others r) (ha : a ∈ recorded r.mem o.process)
    (hred : Reduced o others r a r') : GivenBack o [a] r r' := by
  have hlive := List.mem_append_left (o.owned ++ others) ha
  exact (GivenBack.refl r).snoc h.ram hlive rfl hred.heap hred.view

/-- One call keeps the process in order, and does what it owes. -/
theorem allocInv_step (h : AllocInv o others d₀ s)
    (hstep : allocStep o.process s op = some s') (hfinds : FindsRun s op s') :
    AllocInv o others d₀ s' ∧ AllocStepOk o others d₀ s op s' := by
  cases op with
  | malloc size =>
      unfold allocStep at hstep
      simp only at hstep
      split at hstep
      case isFalse => cases hstep
      case isTrue hsize =>
        have hs' := Option.some.inj hstep
        rcases processMalloc_spec h.ok hsize.1 hfinds rfl with
          ⟨hnull, hun⟩ | ⟨hne, hext⟩
        · have hinv := hun.allocInv h
          rw [hs'] at hinv
          refine ⟨hinv, hinv.allocOk, fun _ => ?_,
            fun hne => absurd hnull hne⟩
          rw [← hs']
          exact hun.untouched
        · have hinv : AllocInv o others d₀ s' := by
            rw [← hs']
            exact ⟨hext.ok, h.mapped.extend hext.recorded hext.view⟩
          refine ⟨hinv, hinv.allocOk, fun hnull => absurd hnull hne,
            fun _ => ?_⟩
          rw [← hs']
          exact hext.recorded
  | free ptr =>
      unfold allocStep at hstep
      have hs' := Option.some.inj hstep
      rcases processFree_spec h.ok ptr with ⟨hno, hsame⟩ | ⟨hptr, n, hrec, hred⟩
      · -- a foreign pointer has no runs, a null one none either
        have hfilter : (recorded s.ram.mem o.process).filter
            (fun a => a.1 == ptr) = [] := by
          rw [List.filter_eq_nil_iff]
          intro a ha heq
          obtain ⟨i, hi, hi', hne, -⟩ := exists_of_mem_recorded ha
          have hap := beq_iff_eq.mp heq
          rcases hno with hzero | hnone
          · exact hne (hi'.trans (hap.trans hzero))
          · exact hnone i hi (hi'.trans hap)
        rw [hsame, hfilter, List.nil_append] at hs'
        rw [← hs']
        refine ⟨h, h.allocOk, fun _ => (ProcOk.unchanged h.ok).untouched,
          fun n hrec => ?_⟩
        have hmem : (ptr, n) ∈ (recorded s.ram.mem o.process).filter
            (fun a => a.1 == ptr) :=
          List.mem_filter.mpr ⟨hrec, beq_self_eq_true ptr⟩
        rw [hfilter] at hmem
        exact absurd hmem List.not_mem_nil
      · generalize processFree o.process ptr s.ram = r' at hs' hred
        have hlive := h.ok.ram.perm
          (hred.recorded.append_right (o.owned ++ others))
        rw [List.cons_append] at hlive
        have hinv : AllocInv o others d₀ s' := by
          rw [← hs']
          refine ⟨hred.ok, h.mapped.reduce hred.recorded hred.view ?_ ?_⟩
          · exact fun c hc v hv =>
              pages_apart hlive (List.mem_append_left _ hc) v hv
          · intro c
            exact mem_filter_recorded hlive hred.recorded c
        refine ⟨hinv, hinv.allocOk, fun hno => ?_, fun n' hrec' => ?_⟩
        · rcases hno with hzero | hnone
          · exact absurd hzero hptr
          · obtain ⟨i, hi, hi', -, -⟩ := exists_of_mem_recorded hrec
            exact absurd hi' (hnone i hi)
        · -- one run is recorded under the pointer
          have hmem : (ptr, n') ∈ (recorded s.ram.mem o.process).filter
              (fun a => a.1 == ptr) :=
            List.mem_filter.mpr ⟨hrec', beq_self_eq_true ptr⟩
          rw [(mem_filter_recorded hlive hred.recorded _).mp hmem, ← hs']
          exact ⟨hred.recorded, givenBack_of_reduced h.ok hrec hred⟩

-- ================================================================= the runs

/-- A request that finds its run, and what comes after it. -/
theorem along_findsRun_malloc {process : Addr} {size : Nat}
    {ops : List AllocOp} (hsize : 1 ≤ size ∧ size ≤ 0xFFFFF000)
    (hserves : Serves s.ram.heap size)
    (hrest : Along (allocStep process) FindsRun
      { s with ram := (processMalloc process size s.ram).2 } ops) :
    Along (allocStep process) FindsRun s (.malloc size :: ops) := by
  have hstep : allocStep process s (.malloc size)
      = some { s with ram := (processMalloc process size s.ram).2 } :=
    if_pos hsize
  exact (along_cons_of_step hstep).mpr ⟨hserves, hrest⟩

/-- A release finds what it needs always. -/
theorem along_findsRun_free {process ptr : Addr} {ops : List AllocOp}
    (hrest : Along (allocStep process) FindsRun
      { ram := processFree process ptr s.ram
        freed := (recorded s.ram.mem process).filter (fun a => a.1 == ptr)
          ++ s.freed } ops) :
    Along (allocStep process) FindsRun s (.free ptr :: ops) := by
  have hstep : allocStep process s (.free ptr)
      = some
        { ram := processFree process ptr s.ram
          freed := (recorded s.ram.mem process).filter (fun a => a.1 == ptr)
            ++ s.freed } := rfl
  exact (along_cons_of_step hstep).mpr ⟨trivial, hrest⟩

/-- A process that has just started is in order. -/
theorem Fresh.allocInv {r : Ram} (h : Fresh o others r) :
    AllocInv o others (dirView r.mem o.parts.dir) ⟨r, []⟩ := by
  refine ⟨h.ok, ?_⟩
  simp only
  rw [recorded_fresh h]
  exact ⟨fun a ha => absurd ha List.not_mem_nil,
    fun a ha => absurd ha List.not_mem_nil, fun _ _ => rfl⟩

/-- From the start of a process on, over any sequence of `process_malloc`
and `process_free` whose heap requests find a run long enough: the heap,
the allocation table and the page directory stay in lock step, and a call
that fails changes none of them. -/
theorem process_allocations_in_step {r : Ram} (h : Fresh o others r)
    {ops : List AllocOp}
    (hfinds : Along (allocStep o.process) FindsRun ⟨r, []⟩ ops) :
    AllocOk o others (dirView r.mem o.parts.dir) ⟨r, []⟩
      ∧ Along (allocStep o.process)
        (AllocStepOk o others (dirView r.mem o.parts.dir)) ⟨r, []⟩ ops := by
  refine ⟨h.allocInv.allocOk, ?_⟩
  refine along_of_inv (I := AllocInv o others (dirView r.mem o.parts.dir))
    ?_ ?_ h.allocInv hfinds
  · intro s op s' hinv hstep hfind
    exact (allocInv_step hinv hstep hfind).1
  · intro s op s' hinv hstep hfind
    exact (allocInv_step hinv hstep hfind).2

/-- A process asks for two blocks, gives back null, and gives back the
blocks. -/
theorem process_allocations_in_step_two_blocks :
    Along (allocStep (objectsAt 0).process)
      (AllocStepOk (objectsAt 0) (objectsAt 1030).owned
        (dirView twoFresh.mem (objectsAt 0).parts.dir)) ⟨twoFresh, []⟩
      [.malloc 5000, .free 0#32, .free 0x0180C000#32] := by
  refine (process_allocations_in_step fresh_first ?_).2
  exact along_findsRun_malloc (by decide) (serves_twoFresh _ (by decide))
    (along_findsRun_free (along_findsRun_free trivial))

end BenOS.Kernel
