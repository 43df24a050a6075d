/-
How far the list of command arguments is followed.

The list lies in memory that the calling program fills as it likes.
`process_count_command_args` follows it to null, or for ever: it ends
exactly where the walk along `next` comes to null, and has then visited
every node up to there (`countCommandArgsLoop_of_walk`); and among the
32-bit addresses a walk comes to null exactly if it does not come back to
a node (`endsIn_iff`).

The loop of `process_inject_args` ends whatever the list is: each round
but the last takes a block of the heap (`injectCommandArgsLoop_ends`).
But the count comes before it.
-/
import Mathlib.Data.Finset.Card
import BenOS.Lib.Walk
import BenOS.Kernel.CommandArgs
import BenOS.Kernel.Proofs.AddressSpace
import BenOS.Kernel.Proofs.Alloc
import BenOS.Memory.Proofs.Lent

namespace BenOS.Kernel

open Lib Memory Traced

-- ================================================================= the list

/-- From a node of the list to the next; there is none behind null. -/
def argStep (m : Bytes) (current : Addr) : Option Addr :=
  if current = 0#32 then none else some (commandArgNext m current)

/-- The list comes to null behind `n` nodes. -/
def EndsIn (m : Bytes) (rootArg : Addr) (n : Nat) : Prop :=
  walk (argStep m) n rootArg = some 0#32

/-- The list comes back to one of its nodes. -/
def Cyclic (m : Bytes) (rootArg : Addr) : Prop :=
  ComesBack (argStep m) rootArg

/-- The nodes among what the loops come to. -/
def nodesOf (log : List ArgEvent) : List Addr :=
  log.filterMap fun e =>
    match e with
    | .node current => some current
    | .malloc _ => none

variable {m : Bytes} {process argv current rootArg : Addr} {r : Ram}

theorem argStep_null (m : Bytes) : argStep m 0#32 = none := if_pos rfl

theorem argStep_node (h : current ≠ 0#32) :
    argStep m current = some (commandArgNext m current) := if_neg h

theorem endsIn_zero : EndsIn m rootArg 0 ↔ rootArg = 0#32 := by
  unfold EndsIn
  rw [walk_zero, Option.some_inj]

theorem endsIn_succ {n : Nat} : EndsIn m rootArg (n + 1)
    ↔ rootArg ≠ 0#32 ∧ EndsIn m (commandArgNext m rootArg) n := by
  unfold EndsIn
  by_cases hnull : rootArg = 0#32
  · subst hnull
    have hstop : walk (argStep m) (n + 1) 0#32 = none :=
      walk_none_of_le (by omega : 1 ≤ n + 1) (argStep_null m)
    rw [hstop]
    constructor
    · intro h
      cases h
    · intro h
      exact absurd rfl h.1
  · rw [walk, argStep_node hnull]
    exact ⟨fun h => ⟨hnull, h⟩, fun h => h.2⟩

/-- A list comes to null exactly if it does not come back to a node. -/
theorem endsIn_iff (m : Bytes) (rootArg : Addr) :
    (∃ n, EndsIn m rootArg n) ↔ ¬ Cyclic m rootArg := by
  have hfinite : Finite Addr :=
    Finite.of_injective BitVec.toFin fun _ _ => BitVec.toFin_inj.mp
  unfold Cyclic
  rw [← walk_stops_iff]
  constructor
  · intro h
    obtain ⟨n, hn⟩ := h
    refine ⟨n + 1, ?_⟩
    rw [walk_succ, hn, Option.bind_some, argStep_null]
  · intro h
    obtain ⟨k, hk⟩ := h
    induction k with
    | zero => cases hk
    | succ k ih =>
        cases hlast : walk (argStep m) k rootArg with
        | none => exact ih hlast
        | some a =>
            refine ⟨k, ?_⟩
            rw [walk_succ, hlast, Option.bind_some] at hk
            by_cases hnull : a = 0#32
            · rw [EndsIn, hlast, hnull]
            · rw [argStep_node hnull] at hk
              cases hk

-- ================================================================= the count

/-- Where the list comes to null, the count has gone through its nodes. -/
theorem countCommandArgsLoop_of_walk (n : Nat) :
    ∀ {current : Addr} {fuel : Nat} (res : Int), EndsIn m current n →
      n < fuel →
      (countCommandArgsLoop m fuel res current).val
          = some (if n = 0 then res else toInt32 (res + n))
        ∧ (nodesOf (countCommandArgsLoop m fuel res current).log).length
          = n := by
  induction n with
  | zero =>
      intro current fuel res hends hfuel
      obtain ⟨fuel, rfl⟩ : ∃ f, fuel = f + 1 := ⟨fuel - 1, by omega⟩
      rw [countCommandArgsLoop, if_pos (endsIn_zero.mp hends)]
      exact ⟨rfl, rfl⟩
  | succ n ih =>
      intro current fuel res hends hfuel
      obtain ⟨hne, hrest⟩ := endsIn_succ.mp hends
      obtain ⟨fuel, rfl⟩ : ∃ f, fuel = f + 1 := ⟨fuel - 1, by omega⟩
      obtain ⟨hval, hlen⟩ :=
        ih (toInt32 (res + 1)) hrest (show n < fuel by omega)
      rw [countCommandArgsLoop, if_neg hne]
      constructor
      · rw [val_bind, val_look, hval, if_neg (Nat.succ_ne_zero n)]
        refine congrArg some ?_
        by_cases hn : n = 0
        · rw [if_pos hn, hn]
          rfl
        · rw [if_neg hn, toInt32_add_left]
          refine congrArg toInt32 ?_
          push_cast
          omega
      · rw [log_bind, val_look, log_look]
        unfold nodesOf at hlen ⊢
        rw [List.filterMap_append, List.length_append, hlen]
        exact Nat.add_comm 1 n

/-- The count ends only where the list comes to null. -/
theorem endsIn_of_count (fuel : Nat) :
    ∀ {current : Addr} {res argc : Int},
      (countCommandArgsLoop m fuel res current).val = some argc →
      ∃ n < fuel, EndsIn m current n := by
  induction fuel with
  | zero =>
      intro current res argc h
      cases h
  | succ fuel ih =>
      intro current res argc h
      rw [countCommandArgsLoop] at h
      by_cases hnull : current = 0#32
      · exact ⟨0, by omega, endsIn_zero.mpr hnull⟩
      · rw [if_neg hnull, val_bind, val_look] at h
        obtain ⟨n, hn, hends⟩ := ih h
        exact ⟨n + 1, by omega, endsIn_succ.mpr ⟨hnull, hends⟩⟩

/-- The count asks for no memory. -/
theorem malloc_not_mem_count (ptr : Addr) (fuel : Nat) :
    ∀ (res : Int) (current : Addr),
      .malloc ptr ∉ (countCommandArgsLoop m fuel res current).log := by
  induction fuel with
  | zero =>
      intro res current
      exact List.not_mem_nil
  | succ fuel ih =>
      intro res current h
      rw [countCommandArgsLoop] at h
      by_cases hnull : current = 0#32
      · rw [if_pos hnull] at h
        exact List.not_mem_nil h
      · rw [if_neg hnull, log_bind, val_look, log_look] at h
        rcases List.mem_append.mp h with h | h
        · cases List.mem_singleton.mp h
        · exact ih _ _ h

-- ============================================================ the free blocks

theorem card_freeBlocks_le (heap : Heap) :
    (freeBlocks heap).card ≤ heap.table.total := by
  unfold freeBlocks
  exact (Finset.card_filter_le _ _).trans (Finset.card_range _).le

/-- A request for one block that is granted takes a free one. -/
theorem card_freeBlocks_heapMalloc {heap : Heap} {size : Nat}
    (hone : heapAlignValueToUpper size / benosHeapBlockSize = 1)
    (hne : (heapMalloc heap size).1 ≠ 0#32) :
    (freeBlocks (heapMalloc heap size).2).card < (freeBlocks heap).card
      ∧ (heapMalloc heap size).2.table.total = heap.table.total := by
  have hhanded := heapMalloc_handed heap size
  rw [hone] at hhanded
  generalize heapMalloc heap size = q at hhanded hne
  cases hhanded with
  | refused => exact absurd rfl hne
  | @marked b hlt hfree _ =>
      have hfree' := isFree_heapMarkBlocksTaken heap b 1
      refine ⟨?_, rfl⟩
      unfold freeBlocks
      refine Finset.card_lt_card ?_
      rw [Finset.ssubset_iff_of_subset]
      · refine ⟨b, ?_, ?_⟩
        · rw [Finset.mem_filter, Finset.mem_range]
          exact ⟨hlt, hfree⟩
        · rw [Finset.mem_filter]
          intro hin
          exact ((hfree' b).mp hin.2).2 ⟨by omega, by omega⟩
      · intro i hi
        rw [Finset.mem_filter, Finset.mem_range] at hi ⊢
        obtain ⟨hit, hafter⟩ := hi
        exact ⟨hit, ((hfree' i).mp hafter).1⟩

-- ================================================================== the copy

/-- What a granted string leaves of the memory: its bytes are copied, and
its address is entered in the array. -/
def copyArg (argv ptr current : Addr) (i : Int) (r : Ram) : Ram :=
  { r with
    mem := store32 (strncpyFrom r.mem ptr current sizeofArg).val
      (argv + BitVec.ofInt 32 (4 * i)) ptr }

/-- At null the loop ends. -/
theorem injectCommandArgsLoop_null {fuel : Nat} {i : Int} :
    injectCommandArgsLoop process argv (fuel + 1) i 0#32 r
      = pure (some (0, r)) := by
  rw [injectCommandArgsLoop, if_pos rfl]

/-- A string that is refused ends it, too. -/
theorem injectCommandArgsLoop_refused {fuel : Nat} {i : Int}
    (hne : current ≠ 0#32) {q : Ram}
    (hq : processMalloc process sizeofArg r = (0#32, q)) :
    injectCommandArgsLoop process argv (fuel + 1) i current r
      = ⟨some (-enomem, q), [.node current, .malloc 0#32]⟩ := by
  rw [injectCommandArgsLoop, if_neg hne, hq]
  rfl

/-- One that is granted is followed by the rest of the list. -/
theorem injectCommandArgsLoop_granted {fuel : Nat} {i : Int}
    (hne : current ≠ 0#32) {ptr : Addr} {q : Ram}
    (hq : processMalloc process sizeofArg r = (ptr, q)) (hptr : ptr ≠ 0#32) :
    injectCommandArgsLoop process argv (fuel + 1) i current r
      = ⟨(injectCommandArgsLoop process argv fuel (toInt32 (i + 1))
            (commandArgNext (copyArg argv ptr current i q).mem current)
            (copyArg argv ptr current i q)).val,
          .node current :: .malloc ptr
            :: (injectCommandArgsLoop process argv fuel (toInt32 (i + 1))
              (commandArgNext (copyArg argv ptr current i q).mem current)
              (copyArg argv ptr current i q)).log⟩ := by
  rw [injectCommandArgsLoop, if_neg hne, hq]
  generalize hrest : injectCommandArgsLoop process argv fuel
    (toInt32 (i + 1))
    (commandArgNext (copyArg argv ptr current i q).mem current)
    (copyArg argv ptr current i q) = rest
  have hround : (if ptr = 0#32 then pure (some (-enomem, q)) else rest)
      = rest := if_neg hptr
  rw [← hround, ← hrest]
  rfl

/-- The loop of `process_inject_args` ends whatever the memory is, and
comes to one node more than there are free blocks at most. -/
theorem injectCommandArgsLoop_ends (free : Nat) :
    ∀ {fuel : Nat} {i : Int} {current : Addr} {r : Ram},
      (freeBlocks r.heap).card ≤ free → free + 1 < fuel →
      (∃ a, (injectCommandArgsLoop process argv fuel i current r).val = some a)
        ∧ (nodesOf
            (injectCommandArgsLoop process argv fuel i current r).log).length
          ≤ free + 1 := by
  have hone : heapAlignValueToUpper sizeofArg / benosHeapBlockSize = 1 := rfl
  induction free with
  | zero =>
      intro fuel i current r hfree hfuel
      obtain ⟨fuel, rfl⟩ : ∃ f, fuel = f + 1 := ⟨fuel - 1, by omega⟩
      by_cases hnull : current = 0#32
      · rw [hnull, injectCommandArgsLoop_null]
        exact ⟨⟨_, rfl⟩, Nat.zero_le _⟩
      · generalize hq : processMalloc process sizeofArg r = q
        obtain ⟨ptr, q⟩ := q
        by_cases hptr : ptr = 0#32
        · subst hptr
          rw [injectCommandArgsLoop_refused hnull hq]
          exact ⟨⟨_, rfl⟩, Nat.le_refl 1⟩
        · -- no block is left for it
          have hne : (processMalloc process sizeofArg r).1 ≠ 0#32 := by
            rw [hq]
            exact hptr
          obtain ⟨haddr, -⟩ := processMalloc_heap hne
          have hless := (card_freeBlocks_heapMalloc hone (haddr ▸ hne)).1
          omega
  | succ free ih =>
      intro fuel i current r hfree hfuel
      obtain ⟨fuel, rfl⟩ : ∃ f, fuel = f + 1 := ⟨fuel - 1, by omega⟩
      by_cases hnull : current = 0#32
      · rw [hnull, injectCommandArgsLoop_null]
        exact ⟨⟨_, rfl⟩, Nat.zero_le _⟩
      · generalize hq : processMalloc process sizeofArg r = q
        obtain ⟨ptr, q⟩ := q
        by_cases hptr : ptr = 0#32
        · subst hptr
          rw [injectCommandArgsLoop_refused hnull hq]
          exact ⟨⟨_, rfl⟩, Nat.succ_le_succ (Nat.zero_le _)⟩
        · have hne : (processMalloc process sizeofArg r).1 ≠ 0#32 := by
            rw [hq]
            exact hptr
          obtain ⟨haddr, hheap⟩ := processMalloc_heap hne
          have hless : (freeBlocks q.heap).card < (freeBlocks r.heap).card := by
            have h := (card_freeBlocks_heapMalloc hone (haddr ▸ hne)).1
            rwa [← hheap, hq] at h
          obtain ⟨hval, hlen⟩ := @ih fuel (toInt32 (i + 1))
            (commandArgNext (copyArg argv ptr current i q).mem current)
            (copyArg argv ptr current i q)
            (show (freeBlocks q.heap).card ≤ free by omega) (by omega)
          rw [injectCommandArgsLoop_granted hnull hq hptr]
          exact ⟨hval, Nat.succ_le_succ hlen⟩

-- ============================================================== the function

/-- An array that is refused ends `process_inject_args`. -/
theorem injectCommandArgs_refused {fuel : Nat} {argc : Int} {q : Ram}
    (hq : processMalloc process (toUint32 (4 * argc)).toNat r = (0#32, q)) :
    injectCommandArgs fuel process rootArg argc r
      = ⟨some (-enomem, q), [.malloc 0#32]⟩ := by
  unfold injectCommandArgs
  rw [hq]
  rfl

/-- One that is granted is filled by the loop. -/
theorem injectCommandArgs_granted {fuel : Nat} {argc : Int} {q : Ram}
    (hq : processMalloc process (toUint32 (4 * argc)).toNat r = (argv, q))
    (hargv : argv ≠ 0#32) :
    injectCommandArgs fuel process rootArg argc r
      = ⟨finishCommandArgs process argv argc
            (injectCommandArgsLoop process argv fuel 0 rootArg q).val,
          .malloc argv
            :: (injectCommandArgsLoop process argv fuel 0 rootArg q).log⟩ := by
  unfold injectCommandArgs
  rw [hq]
  generalize hrest : (do
    let loop ← injectCommandArgsLoop process argv fuel 0 rootArg q
    pure (finishCommandArgs process argv argc loop)) = rest
  have hround : (if argv = 0#32 then pure (some (-enomem, q)) else rest)
      = rest := if_neg hargv
  have hval : rest = ⟨finishCommandArgs process argv argc
      (injectCommandArgsLoop process argv fuel 0 rootArg q).val,
      (injectCommandArgsLoop process argv fuel 0 rootArg q).log⟩ := by
    rw [← hrest]
    show (⟨_, _ ++ []⟩ : Traced ArgEvent (Option (Int × Ram))) = _
    rw [List.append_nil]
    rfl
  have hend : (⟨rest.val, .malloc argv :: rest.log⟩ :
      Traced ArgEvent (Option (Int × Ram)))
      = ⟨finishCommandArgs process argv argc
            (injectCommandArgsLoop process argv fuel 0 rootArg q).val,
          .malloc argv
            :: (injectCommandArgsLoop process argv fuel 0 rootArg q).log⟩ := by
    rw [hval]
  rw [← hend, ← hround, ← hrest]
  rfl

/-- With a count the rest of `process_inject_args` comes behind it. -/
theorem processInjectArgsFrom_some {fuel : Nat} {argc : Int}
    (hcount : (processCountCommandArgs fuel r.mem rootArg).val = some argc) :
    processInjectArgsFrom fuel process rootArg r
      = ⟨(if argc = 0 then pure (some (-eio, r))
            else injectCommandArgs fuel process rootArg argc r).val,
          (processCountCommandArgs fuel r.mem rootArg).log
            ++ (if argc = 0 then pure (some (-eio, r))
              else injectCommandArgs fuel process rootArg argc r).log⟩ := by
  generalize hc : processCountCommandArgs fuel r.mem rootArg = count at hcount
  obtain ⟨val, log⟩ := count
  simp only at hcount
  subst hcount
  unfold processInjectArgsFrom
  rw [hc]
  rfl

/-- The array and the strings are done with whatever the memory is. -/
theorem injectCommandArgs_ends {fuel : Nat} (argc : Int)
    (hfuel : r.heap.table.total + 1 < fuel) :
    (∃ a, (injectCommandArgs fuel process rootArg argc r).val = some a)
      ∧ (nodesOf (injectCommandArgs fuel process rootArg argc r).log).length
        ≤ r.heap.table.total + 1 := by
  generalize hq : processMalloc process (toUint32 (4 * argc)).toNat r = q
  obtain ⟨argv, q⟩ := q
  by_cases hnull : argv = 0#32
  · subst hnull
    rw [injectCommandArgs_refused hq]
    exact ⟨⟨_, rfl⟩, Nat.zero_le _⟩
  · have hne : (processMalloc process (toUint32 (4 * argc)).toNat r).1
        ≠ 0#32 := by
      rw [hq]
      exact hnull
    obtain ⟨-, hheap⟩ := processMalloc_heap hne
    have htotal : q.heap.table.total = r.heap.table.total := by
      have h := (heapMalloc_saddr r.heap (toUint32 (4 * argc)).toNat).2
      rwa [← hheap, hq] at h
    have hfree := card_freeBlocks_le q.heap
    rw [htotal] at hfree
    obtain ⟨⟨a, ha⟩, hlen⟩ := @injectCommandArgsLoop_ends process argv
      r.heap.table.total fuel 0 rootArg q hfree hfuel
    rw [injectCommandArgs_granted hq hnull]
    refine ⟨?_, hlen⟩
    simp only [ha]
    unfold finishCommandArgs
    obtain ⟨res, q'⟩ := a
    simp only
    split
    case isTrue => exact ⟨_, rfl⟩
    case isFalse => exact ⟨_, rfl⟩

-- ============================================================= both traversals

/-- Both traversals end, and come to no more nodes than the limit allows:
the count to those of the list, and `process_inject_args` after its count
to one more than the heap has blocks. -/
structure WalksBounded (limit : Nat) (process rootArg : Addr) (r : Ram) :
    Prop where
  count : ∃ fuel argc,
    (processCountCommandArgs fuel r.mem rootArg).val = some argc
      ∧ (nodesOf (processCountCommandArgs fuel r.mem rootArg).log).length
        ≤ limit
  inject : ∃ fuel a,
    (processInjectArgsFrom fuel process rootArg r).val = some a
      ∧ (nodesOf (processInjectArgsFrom fuel process rootArg r).log).length
        ≤ limit + (r.heap.table.total + 1)

/-- A list that ends is traversed in as many nodes as it has. -/
theorem walksBounded_of_endsIn {limit n : Nat} (hle : n ≤ limit)
    (h : EndsIn r.mem rootArg n) : WalksBounded limit process rootArg r := by
  have hcount : ∀ fuel, n < fuel →
      (∃ argc, (processCountCommandArgs fuel r.mem rootArg).val = some argc)
        ∧ (nodesOf (processCountCommandArgs fuel r.mem rootArg).log).length
          = n := fun fuel hfuel => by
    obtain ⟨hval, hlen⟩ := countCommandArgsLoop_of_walk n 0 h hfuel
    exact ⟨⟨_, hval⟩, hlen⟩
  constructor
  · obtain ⟨⟨argc, hval⟩, hlen⟩ := hcount (n + 1) (Nat.lt_succ_self n)
    exact ⟨n + 1, argc, hval, hlen.le.trans hle⟩
  · obtain ⟨⟨argc, hval⟩, hlen⟩ :=
      hcount (n + r.heap.table.total + 2) (by omega)
    obtain ⟨⟨a, ha⟩, hrest⟩ := @injectCommandArgs_ends process rootArg r
      (n + r.heap.table.total + 2) argc (by omega)
    refine ⟨n + r.heap.table.total + 2, ?_⟩
    rw [processInjectArgsFrom_some hval]
    simp only
    unfold nodesOf at hlen hrest ⊢
    rw [List.filterMap_append, List.length_append, hlen]
    by_cases hargc : argc = 0
    · rw [if_pos hargc]
      exact ⟨_, rfl, by simp only [log_pure, List.filterMap_nil,
        List.length_nil]; omega⟩
    · rw [if_neg hargc]
      exact ⟨a, ha, by omega⟩

/-- The traversals of the list of a system call are bounded by a limit
exactly if the list comes to null within that many nodes; and they are
bounded at all exactly if it does not come back to one of its nodes. -/
theorem command_args_walks_exact (process rootArg : Addr) (r : Ram) :
    (∀ limit, WalksBounded limit process rootArg r
        ↔ ∃ n ≤ limit, EndsIn r.mem rootArg n)
      ∧ ((∃ limit, WalksBounded limit process rootArg r)
        ↔ ¬ Cyclic r.mem rootArg) := by
  have hlimit : ∀ limit, WalksBounded limit process rootArg r
      ↔ ∃ n ≤ limit, EndsIn r.mem rootArg n := by
    intro limit
    constructor
    · intro h
      obtain ⟨fuel, argc, hval, hlen⟩ := h.count
      obtain ⟨n, hn, hends⟩ := endsIn_of_count fuel hval
      have hnodes := (countCommandArgsLoop_of_walk n 0 hends hn).2
      exact ⟨n, hnodes.symm.le.trans hlen, hends⟩
    · intro h
      obtain ⟨n, hle, hends⟩ := h
      exact walksBounded_of_endsIn hle hends
  refine ⟨hlimit, ?_⟩
  rw [← endsIn_iff]
  constructor
  · intro h
    obtain ⟨limit, hbounded⟩ := h
    obtain ⟨n, -, hends⟩ := (hlimit limit).mp hbounded
    exact ⟨n, hends⟩
  · intro h
    obtain ⟨n, hends⟩ := h
    exact ⟨n, walksBounded_of_endsIn (Nat.le_refl n) hends⟩

/-- A memory with a node whose `next` is the node itself. -/
def selfLinked : Ram :=
  { heap := emptyHeap
    mem := store32 (fun _ => 0x00) (0x00400000#32 + offArgNext) 0x00400000#32
    served := true }

/-- It is not so for every list: no limit holds for a node that is linked
to itself. -/
theorem command_args_walks_self_linked :
    ¬ ∃ limit, ∀ (process rootArg : Addr) (r : Ram),
      WalksBounded limit process rootArg r := by
  intro hall
  obtain ⟨limit, hbounded⟩ := hall
  have hends := (endsIn_iff selfLinked.mem 0x00400000#32).mp
  have hnext : commandArgNext selfLinked.mem 0x00400000#32 = 0x00400000#32 :=
    load32_store32 _ _ _
  obtain ⟨fuel, argc, hval, -⟩ :=
    (hbounded 0x01000000#32 0x00400000#32 selfLinked).count
  obtain ⟨n, -, hnull⟩ := endsIn_of_count fuel hval
  refine hends ⟨n, hnull⟩ ⟨0, 1, Nat.zero_lt_one, 0x00400000#32, rfl, ?_⟩
  rw [walk_succ, walk_zero, Option.bind_some, argStep_node (by decide), hnext]

end BenOS.Kernel
