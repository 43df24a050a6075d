/-
Processes do not reach each other through the heap calls.

`TwoLive p q rest r`: the processes `p` and `q` both live, on one heap,
beside the blocks of all the `rest`. Whatever `p` asks for or gives
back, with whatever pointers, `q` keeps its allocation table, its page
directory, and the blocks and bytes of its allocations (`Isolated`): a
call on `p` searches the table of `p` alone, writes into the objects of
`p` and into blocks it was just given, and frees runs of `p` only.
-/
import BenOS.Kernel.Proofs.Grants

namespace BenOS.Kernel

open Lib Memory

-- ======================================================= what is required

/-- A process is as it was: its allocation table, the words and the
entries of its page directory, and the blocks and bytes of all its
allocations. -/
structure Isolated (q : Objects) (r r' : Ram) : Prop where
  table : ∀ i < benosMaxProgramAllocations,
    allocPtr r'.mem q.process i = allocPtr r.mem q.process i
      ∧ allocSize r'.mem q.process i = allocSize r.mem q.process i
  objects : ∀ c ∈ q.owned, SameOn c.1 (blockBytes c.2) r.mem r'.mem
  view : dirView r'.mem q.parts.dir = dirView r.mem q.parts.dir
  blocks : ∀ a ∈ recorded r.mem q.process, SameRun r.heap r'.heap a
  bytes : ∀ a ∈ recorded r.mem q.process,
    SameOn a.1 (blockBytes a.2) r.mem r'.mem

/-- Two processes live, beside the blocks of all the rest. -/
structure TwoLive (p q : Objects) (rest : List (Addr × Nat)) (r : Ram) :
    Prop where
  first : ProcOk p (recorded r.mem q.process ++ (q.owned ++ rest)) r
  second : ProcOk q (recorded r.mem p.process ++ (p.owned ++ rest)) r

variable {p q : Objects} {rest : List (Addr × Nat)} {r r' r'' : Ram}

-- ================================================================ one call

theorem TwoLive.swap (h : TwoLive p q rest r) : TwoLive q p rest r :=
  ⟨h.second, h.first⟩

/-- A call that keeps the first process, and the bytes of all the others,
keeps the second as it was. -/
theorem TwoLive.keep (h : TwoLive p q rest r)
    (hok : ProcOk p (recorded r.mem q.process ++ (q.owned ++ rest)) r')
    (hframe : ∀ c ∈ recorded r.mem q.process ++ (q.owned ++ rest),
      SameOn c.1 (blockBytes c.2) r.mem r'.mem) :
    TwoLive p q rest r' ∧ Isolated q r r' := by
  have hobjects : ∀ c ∈ q.owned, SameOn c.1 (blockBytes c.2) r.mem r'.mem :=
    fun c hc => hframe c (List.mem_append_right _ (List.mem_append_left _ hc))
  obtain ⟨hprocess, hlinks, hview⟩ := Objects.keep h.second.links hobjects
  have htable : ∀ i < benosMaxProgramAllocations,
      allocPtr r'.mem q.process i = allocPtr r.mem q.process i
        ∧ allocSize r'.mem q.process i = allocSize r.mem q.process i :=
    fun i hi => alloc_congr hprocess hi
  have hrec := recorded_congr htable
  have hram : RamOk r' (recorded r'.mem q.process
      ++ (q.owned ++ (recorded r'.mem p.process ++ (p.owned ++ rest)))) := by
    refine hok.ram.perm ?_
    rw [hrec]
    -- the blocks of both processes, in another order
    have hswap := List.perm_append_comm_assoc
      (recorded r'.mem p.process ++ p.owned)
      (recorded r.mem q.process ++ q.owned) rest
    simp only [List.append_assoc] at hswap ⊢
    exact hswap
  refine ⟨⟨?_, hram, hlinks, ?_⟩, htable, hobjects, hview, ?_, ?_⟩
  · rw [hrec]
    exact hok
  · intro i hi hnull
    rw [(htable i hi).2]
    exact h.second.empty i hi ((htable i hi).1.symm.trans hnull)
  · exact fun a ha => h.second.ram.sameRun (List.mem_append_left _ ha) hram
      (List.mem_append_left _ (hrec.symm ▸ ha))
  · exact fun a ha => hframe a (List.mem_append_left _ ha)

theorem Isolated.refl (q : Objects) (h : TwoLive p q rest r) :
    Isolated q r r := by
  refine ⟨fun _ _ => ⟨rfl, rfl⟩, fun _ _ => SameOn.refl _ _ _, rfl,
    fun a ha => ?_, fun _ _ => SameOn.refl _ _ _⟩
  have hmem := List.mem_append_left (q.owned ++ (recorded r.mem p.process
    ++ (p.owned ++ rest))) ha
  exact h.second.ram.sameRun hmem h.second.ram hmem

theorem Isolated.trans (h : TwoLive p q rest r) (h' : Isolated q r r')
    (h'' : TwoLive p q rest r'') (hi : Isolated q r' r'') :
    Isolated q r r'' := by
  have hrec := recorded_congr h'.table
  have hrec' := recorded_congr hi.table
  refine ⟨fun i hi' => ?_, fun c hc => (h'.objects c hc).trans
    (hi.objects c hc), hi.view.trans h'.view, fun a ha => ?_, fun a ha => ?_⟩
  · exact ⟨(hi.table i hi').1.trans (h'.table i hi').1,
      (hi.table i hi').2.trans (h'.table i hi').2⟩
  · refine h.second.ram.sameRun (List.mem_append_left _ ha) h''.second.ram
      (List.mem_append_left _ ?_)
    rw [hrec', hrec]
    exact ha
  · exact (h'.bytes a ha).trans (hi.bytes a (hrec.symm ▸ ha))

/-- One call on a process keeps both alive, and leaves the other as it
was. -/
theorem twoLive_step (h : TwoLive p q rest r) {freed : List (Addr × Nat)}
    {op : AllocOp} {s' : AllocState}
    (hstep : allocStep p.process ⟨r, freed⟩ op = some s')
    (hfinds : FindsRun ⟨r, freed⟩ op s') :
    TwoLive p q rest s'.ram ∧ Isolated q r s'.ram := by
  cases op with
  | malloc size =>
      unfold allocStep at hstep
      simp only at hstep
      split at hstep
      case isFalse => cases hstep
      case isTrue hsize =>
        have hs' := Option.some.inj hstep
        have hram : (processMalloc p.process size r).2 = s'.ram := by
          rw [← hs']
        rw [← hram]
        rcases processMalloc_spec h.first hsize.1 hfinds rfl with
          ⟨-, hun⟩ | ⟨-, hext⟩
        · exact h.keep hun.ok hun.frame
        · exact h.keep hext.ok hext.frame
  | free ptr =>
      unfold allocStep at hstep
      have hs' := Option.some.inj hstep
      have hram : processFree p.process ptr r = s'.ram := by
        rw [← hs']
      rcases processFree_spec h.first ptr with ⟨-, hsame⟩ | ⟨-, n, -, hred⟩
      · rw [← hram, hsame]
        exact ⟨h, Isolated.refl q h⟩
      · rw [← hram]
        exact h.keep hred.ok hred.frame

-- ================================================================ the runs

/-- Any sequence of `process_malloc` and `process_free` on one of two
live processes, whose heap requests find a run long enough, leaves the
other as it was at every point. -/
theorem process_heap_calls_isolated (h : TwoLive p q rest r)
    {freed : List (Addr × Nat)} {ops : List AllocOp}
    (hfinds : Along (allocStep p.process) FindsRun ⟨r, freed⟩ ops) :
    Along (allocStep p.process) (fun _ _ s' => Isolated q r s'.ram)
      ⟨r, freed⟩ ops := by
  have hstep : ∀ (s : AllocState) (op : AllocOp) (s' : AllocState),
      TwoLive p q rest s.ram ∧ Isolated q r s.ram →
      allocStep p.process s op = some s' → FindsRun s op s' →
      TwoLive p q rest s'.ram ∧ Isolated q r s'.ram := by
    intro s op s' hs hstep hfind
    obtain ⟨hlive, hiso⟩ := hs
    obtain ⟨hlive', hiso'⟩ := twoLive_step hlive hstep hfind
    exact ⟨hlive', Isolated.trans h hiso hlive' hiso'⟩
  refine along_of_inv hstep ?_ (⟨h, Isolated.refl q h⟩ :
    TwoLive p q rest (AllocState.mk r freed).ram
      ∧ Isolated q r (AllocState.mk r freed).ram) hfinds
  exact fun s op s' hs hst hfind => (hstep s op s' hs hst hfind).2

/-- Two processes that have just started. -/
theorem twoLive_twoFresh :
    TwoLive (objectsAt 0) (objectsAt 1030) [] twoFresh := by
  have hnone := recorded_fresh fresh_first
  have hnone' := recorded_fresh fresh_second
  constructor
  · rw [hnone', List.nil_append, List.append_nil]
    exact fresh_first.ok
  · rw [hnone, List.nil_append, List.append_nil]
    exact fresh_second.ok

/-- Behind three runs of free blocks a request finds one of them when
another of its size has been answered. -/
theorem serves_again {heap : Heap} {size b : Nat} (hsize : size ≤ 0xFFFFF000)
    (hin : b + 3 * blocksFor size ≤ heap.table.total)
    (hfree : ∀ i, b ≤ i → i < b + 3 * blocksFor size → IsFree heap.table i) :
    Serves (heapMalloc heap size).2 size := by
  have hhanded := heapMalloc_handed heap size
  rw [heapAlignValueToUpper_blocks hsize] at hhanded
  unfold Serves
  generalize blocksFor size = n at hhanded hin hfree ⊢
  generalize heapMalloc heap size = q at hhanded
  cases hhanded with
  | refused => exact ⟨b, by simp only; omega, fun i hi hlt =>
      hfree i hi (by omega)⟩
  | @marked c _ _ _ =>
      have hleft := isFree_heapMarkBlocksTaken heap c n
      -- the run that was taken meets the first or the last, not both
      by_cases hc : c < b + n
      · refine ⟨b + 2 * n, show _ ≤ heap.table.total by omega,
          fun i hi hlt => ?_⟩
        exact (hleft i).mpr ⟨hfree i (by omega) (by omega), by omega⟩
      · refine ⟨b, show _ ≤ heap.table.total by omega, fun i hi hlt => ?_⟩
        exact (hleft i).mpr ⟨hfree i hi (by omega), by omega⟩

/-- A request of the second process that is granted. -/
theorem TwoLive.given (h : TwoLive p q rest r) {size : Nat}
    (hsize : 1 ≤ size ∧ size ≤ 2 ^ 30) (hserves : Serves r.heap size)
    (hempty : allocPtr r.mem q.process 0 = 0#32) :
    ∃ ptr r', processMalloc q.process size r = (ptr, r')
      ∧ TwoLive p q rest r'
      ∧ (ptr, blocksFor size) ∈ recorded r'.mem q.process
      ∧ r'.heap = (heapMalloc r.heap size).2 := by
  have hstand := h.second.standing
  obtain ⟨-, b, hfit, heq⟩ := heapMalloc_of_serves hsize.1 hstand.total hserves
  have hheap : (heapMalloc r.heap size).1 ≠ 0#32 := by
    have hin := hfit.inside
    have htotal := hstand.total
    simp only [kernelHeapBlocks] at htotal
    rw [heq, heapBlockToAddress_eq _ hstand.saddr]
    exact blockAddress_ne_null (by omega)
  have hptr := processMalloc_ne_null hstand hsize.1 hsize.2 hheap
    (show 0 < benosMaxProgramAllocations by decide) hempty
  have hstep : allocStep q.process ⟨r, []⟩ (.malloc size)
      = some ⟨(processMalloc q.process size r).2, []⟩ := by
    rw [allocStep, if_pos ⟨hsize.1, hsize.2.trans (by decide)⟩]
  obtain ⟨hlive, -⟩ := twoLive_step h.swap hstep hserves
  rcases processMalloc_spec h.second hsize.1 hserves rfl with
    ⟨hnull, -⟩ | ⟨-, hext⟩
  · exact absurd hnull hptr
  · exact ⟨_, _, rfl, hlive.swap,
      hext.recorded.mem_iff.mpr List.mem_cons_self, (processMalloc_heap hptr).2⟩

/-- The first asks for two blocks, gives back null, and the blocks of the
second. -/
theorem process_heap_calls_isolated_two_blocks : ∃ ptr r,
    processMalloc (objectsAt 1030).process 5000 twoFresh = (ptr, r)
      ∧ (ptr, 2) ∈ recorded r.mem (objectsAt 1030).process
      ∧ Along (allocStep (objectsAt 0).process)
        (fun _ _ s' => Isolated (objectsAt 1030) r s'.ram) ⟨r, []⟩
        [.malloc 5000, .free 0#32, .free ptr] := by
  obtain ⟨-, htotal, hfree⟩ := ramOk_twoFresh
  obtain ⟨ptr, r, hgiven, hlive, hrec, hheap⟩ := twoLive_twoFresh.given
    (show 1 ≤ 5000 ∧ 5000 ≤ 2 ^ 30 by decide) (serves_twoFresh 5000 (by decide))
    (fresh_second.empty 0 (by decide))
  have hserves : Serves r.heap 5000 := by
    rw [hheap]
    refine @serves_again twoFresh.heap 5000 2060 (by decide) ?_ fun i hi _ =>
      hfree i hi
    rw [htotal]
    decide
  refine ⟨ptr, r, hgiven, hrec, process_heap_calls_isolated hlive ?_⟩
  exact along_findsRun_malloc (by decide) hserves
    (along_findsRun_free (along_findsRun_free trivial))

-- ========================================================== interleavings

/-- A call of one of two processes: of the first where the flag is set. -/
def pairStep (p q : Objects) (r : Ram) (call : Bool × AllocOp) : Option Ram :=
  (allocStep (if call.1 then p.process else q.process) ⟨r, []⟩ call.2).map
    AllocState.ram

/-- However the calls of two live processes follow each other, both stay
alive, and each call leaves the process it is not made for as it was. -/
theorem process_heap_calls_interleaved (h : TwoLive p q rest r)
    {calls : List (Bool × AllocOp)}
    (hfinds : Along (pairStep p q)
      (fun r call r' => FindsRun ⟨r, []⟩ call.2 ⟨r', []⟩) r calls) :
    Along (pairStep p q)
      (fun r call r' => TwoLive p q rest r'
        ∧ Isolated (if call.1 then q else p) r r') r calls := by
  have hstep : ∀ (r : Ram) (call : Bool × AllocOp) (r' : Ram),
      TwoLive p q rest r → pairStep p q r call = some r' →
      FindsRun ⟨r, []⟩ call.2 ⟨r', []⟩ →
      TwoLive p q rest r' ∧ Isolated (if call.1 then q else p) r r' := by
    intro r call r' hlive hstep hfind
    obtain ⟨b, op⟩ := call
    unfold pairStep at hstep
    obtain ⟨s', hs', hr'⟩ := Option.map_eq_some_iff.mp hstep
    subst hr'
    -- the condition on a call looks at the state before it only
    have hfind' : FindsRun ⟨r, []⟩ op s' := by
      cases op with
      | malloc size => exact hfind
      | free ptr => trivial
    cases b with
    | true => exact twoLive_step hlive hs' hfind'
    | false =>
        obtain ⟨hlive', hiso⟩ := twoLive_step hlive.swap hs' hfind'
        exact ⟨hlive'.swap, hiso⟩
  refine along_of_inv (I := TwoLive p q rest) ?_ hstep h hfinds
  exact fun r call r' hlive hs hfind => (hstep r call r' hlive hs hfind).1

end BenOS.Kernel
