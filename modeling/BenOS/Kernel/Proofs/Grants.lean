/-
What `process_malloc` gives a process, whatever run the heap finds.

`processMalloc_spec` is about a heap that serves a request. Here the heap
may find any run at all, also one that goes on behind the table
(`processMalloc_gives`): the process stands on its objects as before
(`Standing`), and one entry of its allocation table is filled. `Grants`
gathers what calls one after the other come to, with stores in between
that leave the objects alone.
-/
import BenOS.Memory.Proofs.InUse
import BenOS.Kernel.Proofs.AllocRuns

namespace BenOS.Kernel

open Lib Memory

-- ============================================================== the objects

/-- A byte of none of the objects. -/
def OffObjects (o : Objects) (x : Addr) : Prop :=
  ∀ c ∈ o.owned, ¬ InSpan c.1 (blockBytes c.2) x

/-- A process stands on its objects: they are linked and apart, and their
bytes are in use. -/
structure Standing (o : Objects) (r : Ram) : Prop where
  saddr : r.heap.saddr = benosHeadAddress
  total : r.heap.table.total ≤ kernelHeapBlocks
  links : o.Links r.mem
  apart : o.Apart
  owned : ∀ x, ¬ OffObjects o x → InUse r.heap x ∧ x.toNat < poolEnd r.heap

/-- The bytes of `process->args`. -/
def InArgs (process x : Addr) : Prop := InSpan (process + offArgc) 8 x

variable {o : Objects} {others : List (Addr × Nat)} {r r' : Ram}
  {m m' : Bytes} {x ptr : Addr} {size : Nat}

theorem OffObjects.process (h : OffObjects o x) :
    ¬ InSpan o.process (blockBytes 3) x :=
  h (o.process, 3) List.mem_cons_self

theorem mem_owned_table {i : Nat} (hi : i < pagingTotalEntriesPerTable) :
    (o.parts.table i, 1) ∈ o.owned :=
  List.mem_cons_of_mem _ (List.mem_cons_of_mem _ (List.mem_cons_of_mem _
    (List.mem_cons_of_mem _ (Objects.mem_tables hi))))

/-- Such a byte is in no page table and not in the allocation table. -/
theorem OffObjects.tables (h : OffObjects o x) :
    ¬ InTables o.parts x ∧ ¬ InTable o.process x := by
  have hpage : blockBytes 1 = pagingPageSize := rfl
  refine ⟨fun hin => ?_, fun hin => ?_⟩
  · obtain ⟨i, hi, hin⟩ := hin
    rw [← hpage] at hin
    exact h (o.parts.table i, 1) (mem_owned_table hi) hin
  · exact h.process (InSpan.of_part hin (by decide))

/-- A live process stands on its objects. -/
theorem ProcOk.standing (h : ProcOk o others r) : Standing o r := by
  refine ⟨h.ram.saddr, h.ram.total, h.links, h.apart, fun x hx => ?_⟩
  unfold OffObjects at hx
  simp only [not_forall, not_not] at hx
  obtain ⟨c, hc, hin⟩ := hx
  exact h.ram.inUse
    (List.mem_append_right _ (List.mem_append_left _ hc)) hin

/-- Bytes that nobody has in use are in none of the objects. -/
theorem Standing.offObjects (h : Standing o r)
    (hx : InUse r.heap x → poolEnd r.heap ≤ x.toNat) : OffObjects o x := by
  by_contra hoff
  obtain ⟨huse, hlow⟩ := h.owned x hoff
  have hend := hx huse
  omega

-- ============================================================ stores elsewhere

/-- The allocation table is where it was where its bytes are. -/
theorem alloc_congr_table {process : Addr}
    (h : ∀ x, InTable process x → m' x = m x) {i : Nat}
    (hi : i < benosMaxProgramAllocations) :
    allocPtr m' process i = allocPtr m process i
      ∧ allocSize m' process i = allocSize m process i := by
  simp only [benosMaxProgramAllocations] at hi
  have hword : ∀ k, k + 4 ≤ sizeofProcessAllocation →
      SameOn (process + BitVec.ofNat 32
        (offAllocations + sizeofProcessAllocation * i + k)) 4 m m' := by
    intro k hk x hx
    refine h x (InSpan.of_part
      (o := BitVec.ofNat 32 (sizeofProcessAllocation * i + k)) (l := 4) ?_ ?_)
    · rw [BitVec.add_assoc, ← BitVec.ofNat_add, ← Nat.add_assoc]
      exact hx
    · rw [BitVec.toNat_ofNat]
      simp only [sizeofProcessAllocation, benosMaxProgramAllocations] at *
      omega
  exact ⟨load32_congr (hword 0 (by decide)), load32_congr (hword 4 (by decide))⟩

/-- A memory that keeps the objects, but for the arguments of the process,
links them alike, and has the same allocation table and the same
directory. -/
theorem Standing.keep (h : Standing o r)
    (hsame : ∀ x, ¬ OffObjects o x → ¬ InArgs o.process x →
      m' x = r.mem x) :
    o.Links m'
      ∧ (∀ i < benosMaxProgramAllocations,
          allocPtr m' o.process i = allocPtr r.mem o.process i
            ∧ allocSize m' o.process i = allocSize r.mem o.process i)
      ∧ dirView m' o.parts.dir = dirView r.mem o.parts.dir := by
  have hpage : blockBytes 1 = pagingPageSize := rfl
  have hap := h.apart
  -- the arguments lie in the struct, behind its other fields
  have hargs : ∀ {y : Addr}, InArgs o.process y →
      InSpan o.process (blockBytes 3) y := fun hy => InSpan.of_part hy (by decide)
  have hblock : ∀ c ∈ o.owned, ∀ y, InSpan c.1 (blockBytes c.2) y →
      ¬ InArgs o.process y → m' y = r.mem y := by
    intro c hc y hy hout
    exact hsame y (fun hoff => hoff c hc hy) hout
  have hprocess : ∀ y, InSpan o.process (blockBytes 3) y →
      ¬ InArgs o.process y → m' y = r.mem y :=
    hblock (o.process, 3) List.mem_cons_self
  have hpages : ∀ a, (a, 1) ∈ o.owned → ∀ y, InSpan a pagingPageSize y →
      ¬ InArgs o.process y → m' y = r.mem y := by
    intro a ha y hy hout
    rw [← hpage] at hy
    exact hblock (a, 1) ha y hy hout
  have htask : SameOn o.task (blockBytes 1) r.mem m' := by
    intro y hy
    refine hpages o.task (List.mem_cons_of_mem _ List.mem_cons_self) y hy ?_
    exact fun hin => hap.process_task y (hargs hin) hy
  have hchunk : SameOn o.parts.chunk 4 r.mem m' := by
    intro y hy
    refine hpages o.parts.chunk (List.mem_cons_of_mem _
      (List.mem_cons_of_mem _ List.mem_cons_self)) y ?_ ?_
    · exact Nat.lt_trans hy (by decide)
    · exact fun hin => hap.process_chunk y (hargs hin) hy
  have hdir : SameOn o.parts.dir pagingPageSize r.mem m' := by
    intro y hy
    refine hpages o.parts.dir (List.mem_cons_of_mem _ (List.mem_cons_of_mem _
      (List.mem_cons_of_mem _ List.mem_cons_self))) y hy ?_
    exact fun hin => hap.process_dir y (hargs hin) hy
  have htable : ∀ i < pagingTotalEntriesPerTable,
      SameOn (o.parts.table i) pagingPageSize r.mem m' := by
    intro i hi y hy
    refine hpages (o.parts.table i) (mem_owned_table hi) y hy ?_
    exact fun hin => hap.process_table i hi y (hargs hin) hy
  have hfield : SameOn (o.process + offTask) 4 r.mem m' := by
    intro y hy
    refine hprocess y (InSpan.of_part hy (by decide)) fun hin => ?_
    exact spansApart_fields o.process (n := 4) (k := 8) (by decide)
      (by decide) y hy hin
  have hentries : ∀ y, InTable o.process y → m' y = r.mem y := by
    intro y hy
    refine hprocess y (InSpan.of_part hy (by decide)) fun hin => ?_
    exact spansApart_fields o.process
      (n := sizeofProcessAllocation * benosMaxProgramAllocations) (k := 8)
      (by decide) (by decide) y hy hin
  have hlinks := h.links.congr hfield htask hchunk hdir
  exact ⟨hlinks, fun i hi => alloc_congr_table hentries hi,
    dirView_congr h.links hlinks htable⟩

/-- It stands on them there, too. -/
theorem Standing.of_mem (h : Standing o r)
    (hsame : ∀ x, ¬ OffObjects o x → ¬ InArgs o.process x →
      m' x = r.mem x) : Standing o { r with mem := m' } :=
  ⟨h.saddr, h.total, (h.keep hsame).1, h.apart, h.owned⟩

-- ============================================================ process_malloc

/-- A process is given `size` bytes at `ptr`: blocks of the heap, mapped
to themselves and entered in its allocation table. -/
structure Gives (o : Objects) (r : Ram) (size : Nat) (ptr : Addr) (r' : Ram) :
    Prop where
  allots : Allots r.heap (blocksFor size) ptr r'.heap
  slot : ∃ i < benosMaxProgramAllocations,
    allocPtr r.mem o.process i = 0#32
      ∧ ∀ j < benosMaxProgramAllocations,
        allocPtr r'.mem o.process j
            = (if j = i then ptr else allocPtr r.mem o.process j)
          ∧ allocSize r'.mem o.process j
            = if j = i then BitVec.ofNat 32 size
              else allocSize r.mem o.process j
  links : o.Links r'.mem
  view : dirView r'.mem o.parts.dir = patch MapReq.covers MapReq.value
    (allocRequest ptr (blocksFor size) allocFlags) (dirView r.mem o.parts.dir)
  outside : ∀ x, ¬ InSpan ptr size x → ¬ InTables o.parts x →
    ¬ InTable o.process x → r'.mem x = r.mem x

theorem toNat_size (hsize : size ≤ 2 ^ 30) :
    (BitVec.ofNat 32 size).toNat = size := by
  rw [BitVec.toNat_ofNat]
  omega

/-- The block of a request is cleared. It is none of the objects, so these
are as they were. -/
theorem Standing.memset (h : Standing o r) {heap : Heap}
    (hallots : Allots r.heap (blocksFor size) ptr heap) :
    (∀ x, ¬ InSpan ptr size x → memset r.mem ptr 0x00 size x = r.mem x)
      ∧ o.Links (memset r.mem ptr 0x00 size)
      ∧ (∀ i < benosMaxProgramAllocations,
          allocPtr (memset r.mem ptr 0x00 size) o.process i
              = allocPtr r.mem o.process i
            ∧ allocSize (memset r.mem ptr 0x00 size) o.process i
              = allocSize r.mem o.process i)
      ∧ dirView (memset r.mem ptr 0x00 size) o.parts.dir
        = dirView r.mem o.parts.dir := by
  have hbytes := size_le_blockBytes size
  have hout : ∀ x, ¬ InSpan ptr size x →
      Memory.memset r.mem ptr 0x00 size x = r.mem x := fun x hx =>
    writeBytes_of_not_inSpan r.mem (fun _ => 0x00) hx
  have hoff : ∀ x, InSpan ptr size x → OffObjects o x := by
    intro x hx
    refine h.offObjects fun huse => ?_
    by_contra hlow
    exact hallots.fresh x huse (by omega) (Nat.lt_of_lt_of_le hx hbytes)
  exact ⟨hout, h.keep fun x hx _ => hout x fun hin => hx (hoff x hin)⟩

/-- A request is granted where the heap answers it and an entry of the
table is empty. -/
theorem processMalloc_ne_null (h : Standing o r) (hlo : 1 ≤ size)
    (hsize : size ≤ 2 ^ 30) (hheap : (heapMalloc r.heap size).1 ≠ 0#32)
    {i : Nat} (hi : i < benosMaxProgramAllocations)
    (hnull : allocPtr r.mem o.process i = 0#32) :
    (processMalloc o.process size r).1 ≠ 0#32 := by
  have hallots := heapMalloc_allots h.saddr h.total hsize hheap
  obtain ⟨-, hlinks, htable, -⟩ := h.memset hallots
  have hword := toNat_size hsize
  unfold processMalloc processFindFreeAllocIndex
  simp only
  rw [kzalloc_of_ne_null hheap]
  simp only
  rw [if_neg hheap]
  cases hidx : allocIndex (Memory.memset r.mem (heapMalloc r.heap size).1 0x00
      size) o.process 0#32 with
  | none =>
      refine absurd ?_ (allocIndex_none hidx i hi)
      rw [(htable i hi).1]
      exact hnull
  | some j =>
      obtain ⟨m', hmap, -⟩ := mapAllocation_spec h.apart hlinks
        (BitVec.ofNat 32 size) allocFlags hallots.aligned
        (by rw [hword]; exact blocksFor_pos hlo)
        (by rw [hword]; exact hallots.below)
      simp only
      rw [if_neg (by omega), hmap, if_neg (Int.lt_irrefl 0)]
      exact hheap

/-- A request that is granted gives the process what it asked for. -/
theorem processMalloc_gives (h : Standing o r) (hlo : 1 ≤ size)
    (hsize : size ≤ 2 ^ 30) {q : Ram}
    (hq : processMalloc o.process size r = (ptr, q)) (hne : ptr ≠ 0#32) :
    Gives o r size ptr q := by
  obtain ⟨r₁, i, m₁, hkz, hidx, hmap, rfl⟩ := processMalloc_of_granted hq hne
  have hheap : (heapMalloc r.heap size).1 ≠ 0#32 := by
    rw [← kzalloc_address, hkz]
    exact hne
  have hallots := heapMalloc_allots h.saddr h.total hsize hheap
  rw [kzalloc_of_ne_null hheap] at hkz
  obtain ⟨hptr, rfl⟩ := Prod.mk.inj hkz
  rw [hptr] at hallots hidx hmap ⊢
  have hword := toNat_size hsize
  obtain ⟨hclear, hlinks, htable, hview⟩ := h.memset hallots
  obtain ⟨hi, hnull⟩ := allocIndex_some hidx
  simp only at hidx hnull hmap ⊢
  obtain ⟨m', hmap', ⟨-, hmview, hout⟩, hslots⟩ := mapAllocation_setAllocation
    h.apart hlinks (BitVec.ofNat 32 size) allocFlags hallots.aligned
    (by rw [hword]; exact blocksFor_pos hlo)
    (by rw [hword]; exact hallots.below) hi
  rw [hmap'] at hmap
  subst hmap
  rw [hword, hview] at hmview
  obtain ⟨hlinks', hview'⟩ := links_of_outside_table h.apart
    (links_of_outside h.apart hlinks hout)
    (fun x hx => setAllocation_outside m' o.process ptr
      (BitVec.ofNat 32 size) hi hx)
  refine ⟨hallots, ⟨i, hi, ?_, fun j hj => ?_⟩, hlinks', hview'.trans hmview,
    fun x hx htab hent => ?_⟩
  · rw [← (htable i hi).1]
    exact hnull
  · obtain ⟨hp, hs⟩ := hslots j hj
    rw [hp, hs, (htable j hj).1, (htable j hj).2]
    exact ⟨rfl, rfl⟩
  · exact (setAllocation_outside m' o.process ptr _ hi hent).trans
      ((hout x htab).trans (hclear x hx))

-- ===================================================== calls one after another

/-- The bytes of the blocks that a pointer with a size stands for. -/
abbrev roomOf (a : Addr × Nat) : Nat := blockBytes (blocksFor a.2)

/-- A process has been given these pointers, with their sizes: blocks that
were free, apart from each other, mapped to themselves for the user and
entered in the allocation table, beside the entries that were there. -/
structure Grants (o : Objects) (r : Ram) (given : List (Addr × Nat))
    (r' : Ram) : Prop where
  standing : Standing o r'
  total : r'.heap.table.total = r.heap.table.total
  taken : ∀ i : Nat, i < r.heap.table.total → ¬ IsFree r.heap.table i →
    r'.heap.table.entries i = r.heap.table.entries i
  used : ∀ a ∈ given, ∀ x, InSpan a.1 (roomOf a) x → InUse r'.heap x
  fresh : ∀ a ∈ given, ∀ x, InUse r.heap x → x.toNat < poolEnd r.heap →
    ¬ InSpan a.1 (roomOf a) x
  apart : given.Pairwise fun a c => SpansApart a.1 (roomOf a) c.1 (roomOf c)
  kept : ∀ i < benosMaxProgramAllocations,
    allocPtr r.mem o.process i ≠ 0#32 →
      allocPtr r'.mem o.process i = allocPtr r.mem o.process i
        ∧ allocSize r'.mem o.process i = allocSize r.mem o.process i
  entered : ∀ a ∈ given, a.1 ≠ 0#32 ∧ ∃ i < benosMaxProgramAllocations,
    allocPtr r.mem o.process i = 0#32
      ∧ allocPtr r'.mem o.process i = a.1
      ∧ allocSize r'.mem o.process i = BitVec.ofNat 32 a.2
  mapped : Mapped (dirView r.mem o.parts.dir) (dirView r'.mem o.parts.dir)
    (given.map fun a => (a.1, blocksFor a.2)) []

/-- What is given has no byte in use, not even behind the heap. -/
def NoneInUse (heap : Heap) (given : List (Addr × Nat)) : Prop :=
  ∀ a ∈ given, ∀ x, InUse heap x → ¬ InSpan a.1 (roomOf a) x

variable {q : Ram} {given given' : List (Addr × Nat)}

theorem poolEnd_congr {heap heap' : Heap}
    (h : heap'.table.total = heap.table.total) :
    poolEnd heap' = poolEnd heap := by
  unfold poolEnd
  rw [h]

/-- What is in use stays in use. -/
theorem Grants.keeps (h : Grants o r given r') (hx : InUse r.heap x) :
    InUse r'.heap x := hx.keep h.total h.taken

/-- Nothing is given by no call. -/
theorem Standing.grants (h : Standing o r) : Grants o r [] r :=
  { standing := h
    total := rfl
    taken := fun _ _ _ => rfl
    used := fun _ ha => absurd ha List.not_mem_nil
    fresh := fun _ ha => absurd ha List.not_mem_nil
    apart := List.Pairwise.nil
    kept := fun _ _ _ => ⟨rfl, rfl⟩
    entered := fun _ ha => absurd ha List.not_mem_nil
    mapped :=
      ⟨fun _ hc => absurd hc List.not_mem_nil,
        fun _ hc => absurd hc List.not_mem_nil, fun _ _ => rfl⟩ }

/-- One call gives one pointer. -/
theorem Gives.grants (h : Standing o r) (hg : Gives o r size ptr r') :
    Grants o r [(ptr, size)] r' := by
  obtain ⟨i, hi, hnull, hslots⟩ := hg.slot
  have hend := poolEnd_congr hg.allots.total
  refine
    { standing := ⟨hg.allots.saddr.trans h.saddr, ?_, hg.links, h.apart, ?_⟩
      total := hg.allots.total
      taken := hg.allots.taken
      used := fun a ha => ?_
      fresh := fun a ha => ?_
      apart := List.pairwise_singleton _ _
      kept := fun j hj hptr => ?_
      entered := fun a ha => ?_
      mapped := ?_ }
  · rw [hg.allots.total]
    exact h.total
  · intro x hx
    obtain ⟨huse, hlow⟩ := h.owned x hx
    rw [hend]
    exact ⟨huse.keep hg.allots.total hg.allots.taken, hlow⟩
  · rw [List.mem_singleton.mp ha]
    exact hg.allots.used
  · rw [List.mem_singleton.mp ha]
    exact hg.allots.fresh
  · obtain ⟨hp, hs⟩ := hslots j hj
    have hji : j ≠ i := fun heq => hptr (heq ▸ hnull)
    rw [if_neg hji] at hp hs
    exact ⟨hp, hs⟩
  · rw [List.mem_singleton.mp ha]
    obtain ⟨hp, hs⟩ := hslots i hi
    rw [if_pos rfl] at hp hs
    exact ⟨hg.allots.ne_null, i, hi, hnull, hp, hs⟩
  · exact h.grants.mapped.extend (List.Perm.refl _) hg.view

/-- Pages that are mapped in two goes. -/
theorem Mapped.trans {d d' d'' : PageDir} {live live' : List (Addr × Nat)}
    (h : Mapped d d' live []) (h' : Mapped d' d'' live' []) :
    Mapped d d'' (live ++ live') [] := by
  refine ⟨fun c hc v hv => ?_, fun c hc => absurd hc List.not_mem_nil,
    fun v hnot => ?_⟩
  · by_cases hlater : ∃ c' ∈ live', HasPage c' v
    · obtain ⟨c', hc', hv'⟩ := hlater
      exact h'.held c' hc' v hv'
    · have hkept : d'' v = d' v := h'.kept v fun c' hc' hv' => by
        rw [List.append_nil] at hc'
        exact hlater ⟨c', hc', hv'⟩
      rcases List.mem_append.mp hc with hc | hc
      · exact hkept.trans (h.held c hc v hv)
      · exact absurd ⟨c, hc, hv⟩ hlater
  · rw [List.append_nil] at hnot
    have hkept : d'' v = d' v := h'.kept v fun c hc => by
      rw [List.append_nil] at hc
      exact hnot c (List.mem_append_right _ hc)
    refine hkept.trans (h.kept v fun c hc => ?_)
    rw [List.append_nil] at hc
    exact hnot c (List.mem_append_left _ hc)

/-- What is given later, with no byte in use, comes on top of what was
given before. -/
theorem Grants.trans (h : Grants o r given q) (h' : Grants o q given' r')
    (hclear : NoneInUse q.heap given') : Grants o r (given ++ given') r' := by
  have hempty : ∀ i < benosMaxProgramAllocations,
      allocPtr q.mem o.process i = 0#32 →
        allocPtr r.mem o.process i = 0#32 := by
    intro i hi hnull
    by_contra hptr
    rw [(h.kept i hi hptr).1] at hnull
    exact hptr hnull
  refine
    { standing := h'.standing
      total := h'.total.trans h.total
      taken := fun i hi htaken => ?_
      used := fun a ha x hx => ?_
      fresh := fun a ha x hx hlow => ?_
      apart := ?_
      kept := fun i hi hptr => ?_
      entered := fun a ha => ?_
      mapped := ?_ }
  · have hfirst := h.taken i hi htaken
    refine (h'.taken i (by rw [h.total]; exact hi) ?_).trans hfirst
    unfold IsFree at htaken ⊢
    rwa [hfirst]
  · rcases List.mem_append.mp ha with ha | ha
    · exact h'.keeps (h.used a ha x hx)
    · exact h'.used a ha x hx
  · rcases List.mem_append.mp ha with ha | ha
    · exact h.fresh a ha x hx hlow
    · exact hclear a ha x (h.keeps hx)
  · refine List.pairwise_append.mpr ⟨h.apart, h'.apart, fun a ha c hc => ?_⟩
    exact fun x hx => hclear c hc x (h.used a ha x hx)
  · obtain ⟨hp, hs⟩ := h.kept i hi hptr
    obtain ⟨hp', hs'⟩ := h'.kept i hi (by rw [hp]; exact hptr)
    exact ⟨hp'.trans hp, hs'.trans hs⟩
  · rcases List.mem_append.mp ha with ha | ha
    · obtain ⟨hne, i, hi, hnull, hp, hs⟩ := h.entered a ha
      obtain ⟨hp', hs'⟩ := h'.kept i hi (by rw [hp]; exact hne)
      exact ⟨hne, i, hi, hnull, hp'.trans hp, hs'.trans hs⟩
    · obtain ⟨hne, i, hi, hnull, hp, hs⟩ := h'.entered a ha
      exact ⟨hne, i, hi, hempty i hi hnull, hp, hs⟩
  · rw [List.map_append]
    exact h.mapped.trans h'.mapped

/-- Stores that leave the objects alone, but for the arguments of the
process, leave what was given alone, too. -/
theorem Grants.of_mem (h : Grants o r given q)
    (hsame : ∀ x, ¬ OffObjects o x → ¬ InArgs o.process x →
      m' x = q.mem x) : Grants o r given { q with mem := m' } := by
  obtain ⟨-, htable, hview⟩ := h.standing.keep hsame
  refine
    { standing := h.standing.of_mem hsame
      total := h.total
      taken := h.taken
      used := h.used
      fresh := h.fresh
      apart := h.apart
      kept := fun i hi hptr => ?_
      entered := fun a ha => ?_
      mapped := ?_ }
  · obtain ⟨hp, hs⟩ := h.kept i hi hptr
    obtain ⟨hp', hs'⟩ := htable i hi
    exact ⟨hp'.trans hp, hs'.trans hs⟩
  · obtain ⟨hne, i, hi, hnull, hp, hs⟩ := h.entered a ha
    obtain ⟨hp', hs'⟩ := htable i hi
    exact ⟨hne, i, hi, hnull, hp'.trans hp, hs'.trans hs⟩
  · rw [hview]
    exact h.mapped

end BenOS.Kernel
