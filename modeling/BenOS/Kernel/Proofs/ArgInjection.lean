/-
What a program is handed as its arguments.

`process_inject_args` counts a list and then walks it again, and what it
copies to lies beside the list in one memory. A round of the second loop
writes to the block it is given and to one word of the array
(`injectArg_copied`); the list has neither, so both walks are of the same
nodes. By induction over them the array gets the blocks in the order of
the list (`injectCommandArgsLoop_fills`), and each block its string.
-/
import Mathlib.Data.List.TakeWhile
import Mathlib.Order.Interval.Finset.Nat
import BenOS.Kernel.Proofs.ArgWalk
import BenOS.Kernel.Proofs.Fresh
import BenOS.Kernel.Proofs.Grants
import BenOS.Kernel.Proofs.Strncpy

namespace BenOS.Kernel

open Lib Memory Traced

-- ================================================================= the list

/-- The list at an address has these nodes, and then null. -/
def ArgList (m : Bytes) : Addr → List Addr → Prop
  | current, [] => current = 0#32
  | current, node :: nodes =>
      current ≠ 0#32 ∧ node = current
        ∧ ArgList m (commandArgNext m current) nodes

/-- The argument in a node: the characters up to a NUL, all 512 if there
is none. -/
def commandArg (m : Bytes) (node : Addr) : List UInt8 :=
  ((List.range sizeofArg).map fun i => m (node + BitVec.ofNat 32 i)).takeWhile
    (· ≠ 0x00)

/-- It as it is copied: 511 characters of it at most, and a NUL. -/
def copiedArg (m : Bytes) (node : Addr) : List UInt8 :=
  (commandArg m node).take 511 ++ [0x00]

variable {o : Objects} {others : List (Addr × Nat)} {r r' q : Ram}
  {m m' : Bytes} {argv node current ptr x : Addr} {nodes ptrs : List Addr}
  {n k fuel : Nat}

theorem commandArgNext_congr (h : SameOn node sizeofCommandArg m m') :
    commandArgNext m' node = commandArgNext m node :=
  load32_congr (h.part (by decide))

theorem commandArg_congr (h : SameOn node sizeofCommandArg m m') :
    commandArg m' node = commandArg m node := by
  unfold commandArg
  refine congrArg _ (List.map_congr_left fun i hi => h _ ?_)
  have hlt := List.mem_range.mp hi
  simp only [sizeofArg] at hlt
  exact inSpan_add (show i < 516 by omega) (by decide)

/-- A memory that has the nodes has the list. -/
theorem ArgList.congr (hsame : ∀ node ∈ nodes, SameOn node sizeofCommandArg m m') :
    ∀ {current : Addr}, ArgList m current nodes → ArgList m' current nodes := by
  induction nodes with
  | nil => exact fun h => h
  | cons node nodes ih =>
      intro current h
      obtain ⟨hne, rfl, hrest⟩ := h
      refine ⟨hne, rfl, ?_⟩
      rw [commandArgNext_congr (hsame node List.mem_cons_self)]
      exact ih (fun c hc => hsame c (List.mem_cons_of_mem _ hc)) hrest

/-- The list ends behind its nodes. -/
theorem ArgList.endsIn (h : ArgList m current nodes) :
    EndsIn m current nodes.length := by
  induction nodes generalizing current with
  | nil => exact endsIn_zero.mpr h
  | cons node nodes ih =>
      obtain ⟨hne, -, hrest⟩ := h
      exact endsIn_succ.mpr ⟨hne, ih hrest⟩

/-- The walk along `next` meets the nodes in their order. -/
theorem ArgList.walk (h : ArgList m current nodes) {j : Nat}
    (hj : nodes[j]? = some node) :
    Lib.walk (argStep m) j current = some node := by
  induction nodes generalizing current j with
  | nil => cases hj
  | cons first nodes ih =>
      obtain ⟨hne, rfl, hrest⟩ := h
      cases j with
      | zero => exact hj
      | succ j =>
          rw [Lib.walk, argStep_node hne]
          exact ih hrest hj

/-- No node is met twice: such a list would have no end. -/
theorem ArgList.nodup (h : ArgList m current nodes) : nodes.Nodup := by
  rw [List.nodup_iff_getElem?_ne_getElem?]
  intro i j hij hj heq
  have hends := (endsIn_iff m current).mp ⟨_, h.endsIn⟩
  obtain ⟨node, hnode⟩ : ∃ node, nodes[j]? = some node :=
    ⟨nodes[j], List.getElem?_eq_getElem hj⟩
  exact hends ⟨i, j, hij, node, h.walk (heq.trans hnode), h.walk hnode⟩

/-- Different nodes below an address are no more than there are addresses
below it. -/
theorem length_le_of_nodup (hnodup : nodes.Nodup) {bound : Nat}
    (hbelow : ∀ node ∈ nodes, node.toNat < bound) : nodes.length ≤ bound := by
  have hmap : (nodes.map BitVec.toNat).Nodup :=
    hnodup.map fun _ _ heq => BitVec.eq_of_toNat_eq heq
  have hsub : nodes.map BitVec.toNat ⊆ List.range bound := by
    intro a ha
    obtain ⟨node, hnode, rfl⟩ := List.mem_map.mp ha
    exact List.mem_range.mpr (hbelow node hnode)
  have hle := (List.subperm_of_subset hmap hsub).length_le
  rwa [List.length_map, List.length_range] at hle

-- ================================================================ the string

/-- In the kernel's own space the two models of the loop agree. -/
theorem strncpyLoop_kernel (dest src : Addr) (k : Nat) :
    ∀ (i : Nat) (m : Bytes), kernelSpace.strncpyLoop dest src k i m
      = some (copyLoop dest src k i m).val := by
  induction k with
  | zero =>
      intro i m
      rfl
  | succ k ih =>
      intro i m
      rw [Space.strncpyLoop, copyLoop]
      simp only [kernelSpace, Option.bind_eq_bind, Option.bind_some, val_ite]
      split
      case isTrue => rfl
      case isFalse => exact ih (i + 1) _

theorem strncpy_kernel (m : Bytes) (dest src : Addr) (count : Int) :
    kernelSpace.strncpy dest src count m
      = some (strncpyFrom m dest src count).val := by
  unfold Space.strncpy strncpyFrom
  rw [strncpyLoop_kernel]
  rfl

/-- Up to its first 0 and with that, a list is read as it is. -/
theorem getD_takeWhile (l : List UInt8) :
    ∀ {i : Nat}, i ≤ (l.takeWhile (· ≠ 0x00)).length →
      (l.takeWhile (· ≠ 0x00)).getD i 0x00 = l.getD i 0x00 := by
  induction l with
  | nil => exact fun _ => rfl
  | cons c l ih =>
      intro i hi
      by_cases hc : c = 0x00
      · have hnil : (c :: l).takeWhile (· ≠ 0x00) = [] :=
          List.takeWhile_cons_of_neg (by simp [hc])
        rw [hnil] at hi ⊢
        rw [Nat.le_zero.mp hi, hc]
        rfl
      · have hcons : (c :: l).takeWhile (· ≠ 0x00)
            = c :: l.takeWhile (· ≠ 0x00) :=
          List.takeWhile_cons_of_pos (by simp [hc])
        rw [hcons] at hi ⊢
        cases i with
        | zero => rfl
        | succ i =>
            rw [List.getD_cons_succ, List.getD_cons_succ]
            exact ih (Nat.le_of_succ_le_succ hi)

/-- A node that the block does not reach shows `strncpy` its argument. -/
theorem shows_commandArg (hapart : SpansApart ptr sizeofArg node sizeofArg) :
    Shows kernelSpace m node ptr sizeofArg (sizeofArg - 1)
      ((commandArg m node).take 511) := by
  refine ⟨List.length_take_le _ _, fun c hc => ?_, fun i hi hlt m' hsame => ?_⟩
  · have hmem := List.mem_of_mem_take hc
    unfold commandArg at hmem
    have hne := List.mem_takeWhile_imp hmem
    simpa using hne
  · refine ⟨node + BitVec.ofNat 32 i, rfl, ?_⟩
    simp only [sizeofArg] at hlt
    rw [hsame _ (hapart.symm _
      (inSpan_add (show i < 512 by omega) (by decide)))]
    rw [List.length_take] at hi
    have hread : (commandArg m node).getD i 0x00
        = m (node + BitVec.ofNat 32 i) := by
      unfold commandArg at hi ⊢
      rw [getD_takeWhile _ (by omega), List.getD_eq_getElem?_getD,
        List.getElem?_map, List.getElem?_range (show i < 512 by omega)]
      rfl
    rw [← hread, List.getD_eq_getElem?_getD, List.getD_eq_getElem?_getD,
      List.getElem?_take_of_lt (by omega)]

/-- `strncpy` copies the argument of a node that the block does not
reach. -/
theorem strncpyFrom_copied (m : Bytes)
    (hapart : SpansApart ptr sizeofArg node sizeofArg) :
    (strncpyFrom m ptr node sizeofArg).val
      = writeList m ptr (copiedArg m node) := by
  have hcopy := strncpy_shows (n := sizeofArg) (by decide) (by decide)
    (lands_kernel m ptr sizeofArg) (shows_commandArg (m := m) hapart)
  rw [strncpy_kernel] at hcopy
  exact Option.some.inj hcopy

theorem length_copiedArg (m : Bytes) (node : Addr) :
    (copiedArg m node).length ≤ sizeofArg := by
  unfold copiedArg
  have hle := List.length_take_le 511 (commandArg m node)
  rw [List.length_append, List.length_singleton]
  exact Nat.succ_le_succ hle

-- ================================================================= one round

/-- The byte is in use, and in none of the objects of the process. -/
structure Spared (o : Objects) (r : Ram) (x : Addr) : Prop where
  inUse : InUse r.heap x
  off : OffObjects o x

/-- Where entry `k` of the array lies. -/
def argvSlot (argv : Addr) (k : Nat) : Addr := argv + BitVec.ofNat 32 (4 * k)

/-- The loop can go on: the array of `n` entries and the nodes that are
left are spared, and apart. -/
structure Ready (o : Objects) (argv : Addr) (n : Nat) (nodes : List Addr)
    (r : Ram) : Prop where
  standing : Standing o r
  array : ∀ x, InSpan argv (4 * n) x → Spared o r x
  nodes : ∀ node ∈ nodes, ∀ x, InSpan node sizeofCommandArg x →
    Spared o r x ∧ ¬ InSpan argv (4 * n) x

/-- A round has copied a node to a block of its own, and entered that in
the array. -/
structure Copied (o : Objects) (argv : Addr) (k : Nat) (node : Addr) (r : Ram)
    (ptr : Addr) (r' : Ram) : Prop where
  grants : Grants o r [(ptr, sizeofArg)] r'
  clear : NoneInUse r.heap [(ptr, sizeofArg)]
  spared : ∀ x, InSpan ptr sizeofArg x → Spared o r' x
  word : load32 r'.mem (argvSlot argv k) = ptr
  string : HoldsBytes r'.mem ptr (copiedArg r.mem node)
  outside : ∀ x, ¬ InSpan ptr sizeofArg x → ¬ InSpan (argvSlot argv k) 4 x →
    ¬ InTables o.parts x → ¬ InTable o.process x → r'.mem x = r.mem x
  entry : ∃ i, ∀ j < benosMaxProgramAllocations, j ≠ i →
    allocPtr r'.mem o.process j = allocPtr r.mem o.process j

theorem argvSlot_eq (argv : Addr) (k : Nat) :
    argv + BitVec.ofInt 32 (4 * (k : Int)) = argvSlot argv k := by
  unfold argvSlot
  rw [← BitVec.ofInt_natCast]
  push_cast
  rfl

theorem Spared.grants (h : Spared o r x) {given : List (Addr × Nat)}
    (hg : Grants o r given r') : Spared o r' x := ⟨hg.keeps h.inUse, h.off⟩

/-- An entry of the array lies in it. -/
theorem inSpan_of_slot (hk : k < n) (hn : 4 * n < 2 ^ 31)
    (hx : InSpan (argvSlot argv k) 4 x) : InSpan argv (4 * n) x := by
  refine InSpan.of_part hx ?_
  rw [BitVec.toNat_ofNat]
  omega

/-- A round whose block is granted copies its node. -/
theorem injectArg_copied (h : Ready o argv n (node :: nodes) r) (hk : k < n)
    (hn : 4 * n < 2 ^ 31) (hq : processMalloc o.process sizeofArg r = (ptr, q))
    (hne : ptr ≠ 0#32) :
    Copied o argv k node r ptr (copyArg argv ptr node k q) := by
  have hgives := processMalloc_gives h.standing (by decide) (by decide) hq hne
  have hgrants := hgives.grants h.standing
  have hone : blocksFor sizeofArg = 1 := rfl
  have hroom : ∀ x, InSpan ptr sizeofArg x → InUse r.heap x → False :=
    fun x hx huse => hgives.allots.single hone x huse
      (Nat.lt_of_lt_of_le hx (size_le_blockBytes sizeofArg))
  have hclear : NoneInUse r.heap [(ptr, sizeofArg)] := by
    intro a ha
    rw [List.mem_singleton.mp ha]
    exact hgives.allots.single hone
  have hoff : ∀ x, InSpan ptr sizeofArg x → OffObjects o x := fun x hx =>
    h.standing.offObjects fun huse => absurd huse (hroom x hx)
  have hslot : ∀ x, InSpan (argvSlot argv k) 4 x → Spared o r x := fun x hx =>
    h.array x (inSpan_of_slot hk hn hx)
  have hnode : ∀ x, InSpan node sizeofCommandArg x → Spared o r x := fun x hx =>
    (h.nodes node List.mem_cons_self x hx).1
  -- the node is not touched by the request, nor by its own copy
  have hsame : SameOn node sizeofCommandArg r.mem q.mem := by
    intro x hx
    obtain ⟨htables, htable⟩ := (hnode x hx).off.tables
    exact hgives.outside x (fun hin => hroom x hin (hnode x hx).inUse) htables
      htable
  have hapart : SpansApart ptr sizeofArg node sizeofArg := fun x hx hx' =>
    hroom x hx (hnode x (Nat.lt_trans hx' (by decide))).inUse
  have hcopy := strncpyFrom_copied q.mem hapart
  have hcopied : copiedArg q.mem node = copiedArg r.mem node := by
    unfold copiedArg
    rw [commandArg_congr hsame]
  rw [hcopied] at hcopy
  have hlen := length_copiedArg r.mem node
  have hmem : (copyArg argv ptr node k q).mem
      = store32 (writeList q.mem ptr (copiedArg r.mem node))
        (argvSlot argv k) ptr := by
    unfold copyArg
    rw [hcopy, argvSlot_eq]
  have hout : ∀ x, ¬ InSpan ptr sizeofArg x →
      ¬ InSpan (argvSlot argv k) 4 x →
      (copyArg argv ptr node k q).mem x = q.mem x := by
    intro x hx hx'
    rw [hmem]
    refine (writeBytes_of_not_inSpan _ _ hx').trans ?_
    exact writeList_sameOutside q.mem ptr hlen x hx
  have hkept : ∀ x, ¬ OffObjects o x → ¬ InArgs o.process x →
      (copyArg argv ptr node k q).mem x = q.mem x := fun x hx _ =>
    hout x (fun hin => hx (hoff x hin)) fun hin => hx (hslot x hin).off
  have hgranted : Grants o r [(ptr, sizeofArg)] (copyArg argv ptr node k q) :=
    hgrants.of_mem hkept
  obtain ⟨-, htable, -⟩ := hgrants.standing.keep hkept
  obtain ⟨i, -, -, hentries⟩ := hgives.slot
  refine ⟨hgranted, hclear, fun x hx => ⟨?_, hoff x hx⟩, ?_, ?_,
    fun x hx hx' htables htable => ?_, i, fun j hj hne => ?_⟩
  · exact hgrants.used (ptr, sizeofArg) List.mem_cons_self x
      (Nat.lt_of_lt_of_le hx (size_le_blockBytes sizeofArg))
  · rw [hmem]
    exact load32_store32 _ _ _
  · have hheld := holdsBytes_writeList q.mem ptr
      (hlen.trans (by decide) : (copiedArg r.mem node).length ≤ 2 ^ 32)
    rw [hmem]
    refine hheld.congr (n := sizeofArg) (fun x hx => ?_) hlen
      (hlen.trans (by decide))
    exact writeBytes_of_not_inSpan _ _ fun hin => hroom x hx (hslot x hin).inUse
  · exact (hout x hx hx').trans (hgives.outside x hx htables htable)
  · exact (htable j hj).1.trans ((hentries j hj).1.trans (if_neg hne))

/-- A round keeps what is spared, but for its entry of the array. -/
theorem Copied.same (h : Copied o argv k node r ptr r') (hx : Spared o r x)
    (hslot : ¬ InSpan (argvSlot argv k) 4 x) : r'.mem x = r.mem x := by
  obtain ⟨htables, htable⟩ := hx.off.tables
  refine h.outside x (fun hin => ?_) hslot htables htable
  exact h.clear (ptr, sizeofArg) List.mem_cons_self x hx.inUse
    (Nat.lt_of_lt_of_le hin (size_le_blockBytes sizeofArg))

/-- The nodes are left as they are. -/
theorem Copied.sameOn_node (h : Copied o argv k node r ptr r')
    (hready : Ready o argv n nodes r) (hk : k < n) (hn : 4 * n < 2 ^ 31)
    {c : Addr} (hc : c ∈ nodes) :
    SameOn c sizeofCommandArg r.mem r'.mem := by
  intro x hx
  obtain ⟨hspared, hout⟩ := hready.nodes c hc x hx
  exact h.same hspared fun hin => hout (inSpan_of_slot hk hn hin)

/-- The loop can go on behind a round. -/
theorem Copied.ready (h : Copied o argv k node r ptr r')
    (hready : Ready o argv n (node :: nodes) r) : Ready o argv n nodes r' := by
  refine ⟨h.grants.standing, fun x hx => (hready.array x hx).grants h.grants,
    fun c hc x hx => ?_⟩
  obtain ⟨hspared, hout⟩ := hready.nodes c (List.mem_cons_of_mem _ hc) x hx
  exact ⟨hspared.grants h.grants, hout⟩

/-- What is left of the list is what was left of it. -/
theorem Copied.list (h : Copied o argv k node r ptr r')
    (hready : Ready o argv n (node :: nodes) r) (hk : k < n)
    (hn : 4 * n < 2 ^ 31) (hlist : ArgList r.mem node (node :: nodes)) :
    ArgList r'.mem (commandArgNext r'.mem node) nodes := by
  obtain ⟨-, -, hrest⟩ := hlist
  have hsame : ∀ c ∈ node :: nodes,
      SameOn c sizeofCommandArg r.mem r'.mem := fun c hc =>
    h.sameOn_node hready hk hn hc
  rw [commandArgNext_congr (hsame node List.mem_cons_self)]
  exact hrest.congr fun c hc => hsame c (List.mem_cons_of_mem _ hc)

-- ================================================================== the loop

/-- The array, from entry `k` on, has been filled with blocks, and these
with the arguments of the nodes. -/
structure ArgsFilled (o : Objects) (argv : Addr) (k : Nat) (nodes : List Addr)
    (r : Ram) (ptrs : List Addr) (r' : Ram) : Prop where
  grants : Grants o r (ptrs.map fun p => (p, sizeofArg)) r'
  clear : NoneInUse r.heap (ptrs.map fun p => (p, sizeofArg))
  words : ∀ j p, ptrs[j]? = some p →
    load32 r'.mem (argvSlot argv (k + j)) = p
  strings : List.Forall₂
    (fun p node => HoldsBytes r'.mem p (copiedArg r.mem node)) ptrs nodes
  outside : ∀ x, (∀ p ∈ ptrs, ¬ InSpan p sizeofArg x) →
    ¬ InSpan (argvSlot argv k) (4 * nodes.length) x →
    ¬ InTables o.parts x → ¬ InTable o.process x → r'.mem x = r.mem x

/-- The strings are there as long as their blocks and the nodes are as
they were. -/
theorem strings_congr {m₀ m₀' : Bytes}
    (h : List.Forall₂ (fun p node => HoldsBytes m p (copiedArg m₀ node)) ptrs
      nodes) (hblocks : ∀ p ∈ ptrs, SameOn p sizeofArg m m')
    (hnodes : ∀ node ∈ nodes, copiedArg m₀ node = copiedArg m₀' node) :
    List.Forall₂ (fun p node => HoldsBytes m' p (copiedArg m₀' node)) ptrs
      nodes := by
  rw [List.forall₂_iff_zip] at h ⊢
  obtain ⟨hlen, hholds⟩ := h
  refine ⟨hlen, fun {p node} hmem => ?_⟩
  obtain ⟨hp, hnode⟩ := List.of_mem_zip hmem
  have hlength := length_copiedArg m₀ node
  rw [← hnodes node hnode]
  exact (hholds hmem).congr (hblocks p hp) hlength
    (hlength.trans (by decide))

/-- An entry of the array is none of those behind it. -/
theorem slot_apart (argv : Addr) {k l : Nat} (hl : 4 * (k + 1 + l) < 2 ^ 31) :
    SpansApart (argvSlot argv k) 4 (argvSlot argv (k + 1)) (4 * l) := by
  refine spansApart_fields argv ?_ ?_
  · rw [BitVec.toNat_sub, BitVec.toNat_ofNat, BitVec.toNat_ofNat]
    omega
  · rw [BitVec.toNat_sub, BitVec.toNat_ofNat, BitVec.toNat_ofNat]
    omega

/-- Behind a round the rest of the loop leaves its block and its entry. -/
theorem Copied.rest (h : Copied o argv k node r ptr r') {r'' : Ram}
    (hready : Ready o argv n (node :: nodes) r)
    (hlen : k + (nodes.length + 1) = n) (hn : 4 * n < 2 ^ 31)
    (hrest : ArgsFilled o argv (k + 1) nodes r' ptrs r'') :
    SameOn ptr sizeofArg r'.mem r''.mem
      ∧ SameOn (argvSlot argv k) 4 r'.mem r''.mem := by
  have hkeep : ∀ x, Spared o r' x →
      ¬ InSpan (argvSlot argv (k + 1)) (4 * nodes.length) x →
      r''.mem x = r'.mem x := by
    intro x hx hout
    obtain ⟨htables, htable⟩ := hx.off.tables
    refine hrest.outside x (fun p hp hin => ?_) hout htables htable
    exact hrest.clear (p, sizeofArg) (List.mem_map_of_mem hp) x hx.inUse
      (Nat.lt_of_lt_of_le hin (size_le_blockBytes sizeofArg))
  constructor
  · refine fun x hx => hkeep x (h.spared x hx) fun hin => ?_
    -- the array was there before the block
    have harray : InSpan argv (4 * n) x := by
      refine InSpan.of_part hin ?_
      rw [BitVec.toNat_ofNat]
      omega
    exact h.clear (ptr, sizeofArg) List.mem_cons_self x
      (hready.array x harray).inUse
      (Nat.lt_of_lt_of_le hx (size_le_blockBytes sizeofArg))
  · refine fun x hx => hkeep x ?_ (slot_apart argv (by omega) x hx)
    exact (hready.array x (inSpan_of_slot (by omega) hn hx)).grants h.grants

/-- A round and the rest of the loop. -/
theorem Copied.argsFilled (h : Copied o argv k node r ptr r') {r'' : Ram}
    (hready : Ready o argv n (node :: nodes) r)
    (hlen : k + (nodes.length + 1) = n) (hn : 4 * n < 2 ^ 31)
    (hrest : ArgsFilled o argv (k + 1) nodes r' ptrs r'') :
    ArgsFilled o argv k (node :: nodes) r (ptr :: ptrs) r'' := by
  obtain ⟨hblock, hslot⟩ := h.rest hready hlen hn hrest
  have hnodes : Ready o argv n nodes r :=
    ⟨hready.standing, hready.array,
      fun c hc => hready.nodes c (List.mem_cons_of_mem _ hc)⟩
  have hcopied : ∀ c ∈ nodes, copiedArg r'.mem c = copiedArg r.mem c := by
    intro c hc
    unfold copiedArg
    rw [commandArg_congr (h.sameOn_node hnodes (by omega) hn hc)]
  refine ⟨h.grants.trans hrest.grants hrest.clear, ?_, fun j p hp => ?_,
    List.Forall₂.cons ?_ ?_, fun x hptrs harray htables htable => ?_⟩
  · intro a ha x hx
    rcases List.mem_cons.mp ha with ha | ha
    · exact h.clear a (List.mem_singleton.mpr ha) x hx
    · exact hrest.clear a ha x (h.grants.keeps hx)
  · cases j with
    | zero =>
        rw [Nat.add_zero, load32_congr hslot, h.word]
        exact Option.some.inj hp
    | succ j =>
        have hword := hrest.words j p hp
        rwa [Nat.add_assoc, Nat.add_comm 1 j] at hword
  · exact h.string.congr hblock (length_copiedArg _ _)
      ((length_copiedArg _ _).trans (by decide))
  · exact strings_congr hrest.strings (fun _ _ => SameOn.refl _ _ _) hcopied
  · have hfirst : ¬ InSpan (argvSlot argv k) 4 x := fun hin => harray
      (Nat.lt_of_lt_of_le hin (by rw [List.length_cons]; omega))
    have hothers : ¬ InSpan (argvSlot argv (k + 1)) (4 * nodes.length) x := by
      intro hin
      refine harray (InSpan.of_part (o := 4#32) (l := 4 * nodes.length) ?_ ?_)
      · unfold argvSlot at hin ⊢
        rwa [BitVec.add_assoc, ← BitVec.ofNat_add]
      · rw [List.length_cons]
        show 4 + _ ≤ _
        omega
    have hafter := hrest.outside x
      (fun p hp => hptrs p (List.mem_cons_of_mem _ hp)) hothers htables htable
    exact hafter.trans
      (h.outside x (hptrs ptr List.mem_cons_self) hfirst htables htable)

/-- Where every block is granted the loop fills the array. -/
theorem injectCommandArgsLoop_fills (hn : 4 * n < 2 ^ 31) (nodes : List Addr) :
    ∀ {fuel k : Nat} {current : Addr} {r : Ram}, Ready o argv n nodes r →
      ArgList r.mem current nodes → k + nodes.length = n →
      nodes.length < fuel →
      (∀ ptr, .malloc ptr
          ∈ (injectCommandArgsLoop o.process argv fuel k current r).log →
        ptr ≠ 0#32) →
      ∃ ptrs r', (injectCommandArgsLoop o.process argv fuel k current r).val
          = some (0, r')
        ∧ ArgsFilled o argv k nodes r ptrs r' := by
  induction nodes with
  | nil =>
      intro fuel k current r hready hlist _ hfuel _
      obtain ⟨fuel, rfl⟩ : ∃ f, fuel = f + 1 := ⟨fuel - 1, by omega⟩
      have hnull : current = 0#32 := hlist
      rw [hnull, injectCommandArgsLoop_null]
      refine ⟨[], r, rfl, hready.standing.grants, fun a ha => ?_,
        fun j p hp => ?_, List.Forall₂.nil, fun _ _ _ _ _ => rfl⟩
      · exact absurd ha List.not_mem_nil
      · cases hp
  | cons node nodes ih =>
      intro fuel k current r hready hlist hlen hfuel hall
      obtain ⟨fuel, rfl⟩ : ∃ f, fuel = f + 1 := ⟨fuel - 1, by omega⟩
      have hfirst := hlist
      obtain ⟨hne, rfl, -⟩ := hfirst
      rw [List.length_cons] at hlen hfuel
      generalize hq : processMalloc o.process sizeofArg r = q
      obtain ⟨ptr, q⟩ := q
      have hptr : ptr ≠ 0#32 := by
        intro hnull
        subst hnull
        rw [injectCommandArgsLoop_refused hne hq] at hall
        exact hall 0#32 (List.mem_cons_of_mem _ List.mem_cons_self) rfl
      have hround := @injectCommandArgsLoop_granted o.process argv node r fuel k
        hne ptr q hq hptr
      have hcopied := injectArg_copied (k := k) hready (by omega) hn hq hptr
      rw [toInt32_of_range (by omega) (by omega)] at hround
      rw [hround] at hall ⊢
      generalize copyArg argv ptr node k q = r₁ at hcopied hall ⊢
      have hready' := hcopied.ready hready
      have hlist' := hcopied.list hready (by omega) hn hlist
      obtain ⟨ptrs, r', hval, hfilled⟩ := @ih fuel (k + 1) _ r₁ hready' hlist'
        (by omega) (by omega) fun p hp => hall p
          (List.mem_cons_of_mem _ (List.mem_cons_of_mem _ hp))
      exact ⟨ptr :: ptrs, r', hval, hcopied.argsFilled hready hlen hn hfilled⟩

-- ============================================================== the function

/-- A process has been handed the arguments of a list: `argc` is the
number of its nodes, `argv` an array of as many blocks, and each block
holds the argument of its node. The array and the blocks are allocations
of the process, apart from each other and from whatever was allocated; and
but for them, the page tables, the allocation table and `args` itself no
byte has changed. -/
structure Injected (o : Objects) (others : List (Addr × Nat))
    (nodes : List Addr) (r : Ram) (argv : Addr) (ptrs : List Addr) (r' : Ram) :
    Prop where
  count : (load32 r'.mem (o.process + offArgc)).toInt = nodes.length
  array : load32 r'.mem (o.process + offArgv) = argv
  words : ∀ j p, ptrs[j]? = some p → load32 r'.mem (argvSlot argv j) = p
  strings : List.Forall₂
    (fun p node => HoldsBytes r'.mem p (copiedArg r.mem node)) ptrs nodes
  grants : Grants o r
    ((argv, 4 * nodes.length) :: ptrs.map fun p => (p, sizeofArg)) r'
  alone : ∀ a ∈ (argv, 4 * nodes.length) :: ptrs.map fun p => (p, sizeofArg),
    ∀ c ∈ recorded r.mem o.process ++ (o.owned ++ others),
      SpansApart a.1 (roomOf a) c.1 (blockBytes c.2)
  outside : ∀ x,
    (∀ a ∈ (argv, 4 * nodes.length) :: ptrs.map fun p => (p, sizeofArg),
      ¬ InSpan a.1 a.2 x) →
    ¬ InTables o.parts x → ¬ InTable o.process x → ¬ InArgs o.process x →
    r'.mem x = r.mem x

/-- Where the bytes of a list lie: below the heap, as those on the
kernel's stack do, or in an allocation of the process or of another
owner. -/
def Kept (o : Objects) (others : List (Addr × Nat)) (r : Ram) (x : Addr) :
    Prop :=
  x.toNat < benosHeadAddress.toNat
    ∨ ∃ c ∈ recorded r.mem o.process ++ others,
      InSpan c.1 (blockBytes c.2) x

/-- Such bytes are spared, and lie below the end of the heap. -/
theorem Kept.spared (h : ProcOk o others r) (hx : Kept o others r x) :
    Spared o r x ∧ x.toNat < poolEnd r.heap := by
  rcases hx with hlow | hin
  · have hend : benosHeadAddress.toNat ≤ poolEnd r.heap := Nat.le_add_right _ _
    refine ⟨⟨fun d hd _ hin => ?_, fun c hc hin => ?_⟩, by omega⟩
    · have htotal := h.ram.total
      simp only [kernelHeapBlocks] at htotal
      have hone : InSpan (blockAddress d) (blockBytes 1) x := hin
      rw [inSpan_blocks_iff (by omega) (by decide)] at hone
      omega
    · have hlive := h.ram.le_of_inSpan
        (List.mem_append_right _ (List.mem_append_left _ hc)) hin
      omega
  · obtain ⟨c, hc, hin⟩ := hin
    have hperm : (recorded r.mem o.process ++ (o.owned ++ others)).Perm
        (o.owned ++ (recorded r.mem o.process ++ others)) := by
      rw [← List.append_assoc, ← List.append_assoc]
      exact List.perm_append_comm.append_right others
    have hram := h.ram.perm hperm
    have hapart := (List.pairwise_append.mp hram.spansApart).2.2
    obtain ⟨huse, hend⟩ := hram.inUse (List.mem_append_right _ hc) hin
    exact ⟨⟨huse, fun d hd hx => hapart d hd c hc x hx hin⟩, hend⟩

/-- The two stores at the end: they set `args`, and nothing else. -/
theorem store_args (r : Ram) (process argc argv : Addr) :
    load32 ((r.store (process + offArgc) argc).store
        (process + offArgv) argv).mem (process + offArgc) = argc
      ∧ load32 ((r.store (process + offArgc) argc).store
        (process + offArgv) argv).mem (process + offArgv) = argv
      ∧ ∀ x, ¬ InArgs process x →
        ((r.store (process + offArgc) argc).store
          (process + offArgv) argv).mem x = r.mem x := by
  refine ⟨?_, load32_store32 _ _ _, fun x hx => ?_⟩
  · refine (load32_store32_apart _ _ ?_).trans (load32_store32 _ _ _)
    exact spansApart_fields process (by decide) (by decide)
  · have hargc : ¬ InSpan (process + offArgc) 4 x := fun hin => hx
      (Nat.lt_trans hin (by decide))
    have hargv : ¬ InSpan (process + offArgv) 4 x := fun hin => hx
      (InSpan.of_part (o := 4#32) (l := 4) (by rwa [BitVec.add_assoc])
        (by decide))
    exact (writeBytes_of_not_inSpan _ _ hargv).trans
      (writeBytes_of_not_inSpan _ _ hargc)

/-- An array that is granted can be filled with the arguments of a list
that was there before. -/
theorem Gives.ready (h : Standing o r)
    (hg : Gives o r (4 * n) argv q)
    (huse : ∀ node ∈ nodes, ∀ x, InSpan node sizeofCommandArg x →
      Spared o r x ∧ x.toNat < poolEnd r.heap) :
    Ready o argv n nodes q ∧ ∀ node ∈ nodes,
      SameOn node sizeofCommandArg r.mem q.mem := by
  have hgrants := hg.grants h
  have hroom : ∀ x, InSpan argv (4 * n) x →
      InSpan argv (blockBytes (blocksFor (4 * n))) x := fun x hx =>
    Nat.lt_of_lt_of_le hx (size_le_blockBytes (4 * n))
  have hfresh : ∀ node ∈ nodes, ∀ x, InSpan node sizeofCommandArg x →
      ¬ InSpan argv (4 * n) x := by
    intro node hnode x hx hin
    obtain ⟨hspared, hlow⟩ := huse node hnode x hx
    exact hg.allots.fresh x hspared.inUse hlow (hroom x hin)
  refine ⟨⟨hgrants.standing, fun x hx => ⟨?_, ?_⟩, fun node hnode x hx => ?_⟩,
    fun node hnode x hx => ?_⟩
  · exact hg.allots.used x (hroom x hx)
  · refine h.offObjects fun huse => ?_
    by_contra hlow
    exact hg.allots.fresh x huse (by omega) (hroom x hx)
  · exact ⟨(huse node hnode x hx).1.grants hgrants, hfresh node hnode x hx⟩
  · obtain ⟨hspared, -⟩ := huse node hnode x hx
    obtain ⟨htables, htable⟩ := hspared.off.tables
    exact hg.outside x (hfresh node hnode x hx) htables htable

/-- Where the array is granted and filled, the process has been handed its
arguments. -/
theorem ArgsFilled.injected (h : ProcOk o others r) (hn : 4 * n < 2 ^ 31)
    (hlen : nodes.length = n) (hg : Gives o r (4 * n) argv q)
    (hready : Ready o argv n nodes q)
    (hnodes : ∀ node ∈ nodes, SameOn node sizeofCommandArg r.mem q.mem)
    (hfilled : ArgsFilled o argv 0 nodes q ptrs r') :
    Injected o others nodes r argv ptrs
      ((r'.store (o.process + offArgc) (BitVec.ofInt 32 n)).store
        (o.process + offArgv) argv) := by
  obtain ⟨hargc, hargv, hout⟩ :=
    store_args r' o.process (BitVec.ofInt 32 n) argv
  generalize hlast : (r'.store (o.process + offArgc) (BitVec.ofInt 32 n)).store
    (o.process + offArgv) argv = r'' at hargc hargv hout ⊢
  have hgrants := ((hg.grants h.standing).trans hfilled.grants
    hfilled.clear).of_mem fun x _ hx => hout x hx
  have heq : { r' with mem := r''.mem } = r'' := by
    rw [← hlast]
    rfl
  rw [heq] at hgrants
  have hlength := hfilled.strings.length_eq
  -- what lies in none of the objects is not in `args`
  have hsame : ∀ x, OffObjects o x → r''.mem x = r'.mem x := fun x hx =>
    hout x fun hin => hx.process (InSpan.of_part hin (by decide))
  have hblocks : ∀ p ∈ ptrs, SameOn p sizeofArg r'.mem r''.mem := by
    intro p hp x hx
    refine hsame x (hready.standing.offObjects fun huse => ?_)
    exact absurd (Nat.lt_of_lt_of_le hx (size_le_blockBytes sizeofArg))
      (hfilled.clear (p, sizeofArg) (List.mem_map_of_mem hp) x huse)
  refine ⟨?_, hargv, fun j p hp => ?_, ?_, ?_, ?_, ?_⟩
  · rw [hargc, hlen, BitVec.toInt_ofInt]
    exact Int.bmod_eq_of_le (by omega) (by omega)
  · obtain ⟨hj, -⟩ := List.getElem?_eq_some_iff.mp hp
    have hword := hfilled.words j p hp
    rw [Nat.zero_add] at hword
    refine (load32_congr fun x hx => hsame x ?_).trans hword
    exact (hready.array x (inSpan_of_slot (by omega) hn hx)).off
  · refine strings_congr hfilled.strings hblocks fun node hnode => ?_
    unfold copiedArg
    rw [commandArg_congr (hnodes node hnode)]
  · rw [hlen]
    exact hgrants
  · rw [hlen]
    intro a ha c hc x hx hin
    obtain ⟨huse, hlow⟩ := h.ram.inUse hc hin
    exact hgrants.fresh a ha x huse hlow hx
  · rw [hlen]
    intro x hx htables htable hargs
    have hptrs : ∀ p ∈ ptrs, ¬ InSpan p sizeofArg x := fun p hp =>
      hx (p, sizeofArg) (List.mem_cons_of_mem _ (List.mem_map_of_mem hp))
    have harray := hx (argv, 4 * n) List.mem_cons_self
    have hslots : ¬ InSpan (argvSlot argv 0) (4 * nodes.length) x := by
      unfold argvSlot
      rw [Nat.mul_zero, BitVec.add_zero, hlen]
      exact harray
    exact (hout x hargs).trans ((hfilled.outside x hptrs hslots htables
      htable).trans (hg.outside x harray htables htable))

/-- A list that is not too long is counted. -/
theorem ArgList.count (h : ArgList m current nodes)
    (hpos : 1 ≤ nodes.length) (hlen : nodes.length < 2 ^ 31)
    (hfuel : nodes.length < fuel) :
    (processCountCommandArgs fuel m current).val
      = some (nodes.length : Int) := by
  have hval := (countCommandArgsLoop_of_walk nodes.length 0 h.endsIn hfuel).1
  rw [if_neg (by omega), toInt32_of_range (by omega) (by omega),
    Int.zero_add] at hval
  exact hval

/-- The bytes of an array of `n` pointers. -/
theorem toNat_argvSize (hn : 4 * n < 2 ^ 32) :
    (toUint32 (4 * (n : Int))).toNat = 4 * n := by
  have hcast : 4 * (n : Int) = ((4 * n : Nat) : Int) := by push_cast; rfl
  rw [hcast]
  exact toNat_toUint32 hn

/-- Argument injection is exact: for every process and every list that is
not empty and does not lie in free memory, where every `process_malloc` is
granted, `process_inject_args` answers 0, and the process has been handed
the arguments of the list. -/
theorem process_inject_args_exact (h : ProcOk o others r) {rootArg : Addr}
    (hne : nodes ≠ []) (hlist : ArgList r.mem rootArg nodes)
    (hkept : ∀ node ∈ nodes, ∀ x, InSpan node sizeofCommandArg x →
      Kept o others r x)
    (hfuel : nodes.length < fuel)
    (hall : ∀ ptr, .malloc ptr
        ∈ (processInjectArgsFrom fuel o.process rootArg r).log →
      ptr ≠ 0#32) :
    ∃ argv ptrs r', (processInjectArgsFrom fuel o.process rootArg r).val
        = some (0, r')
      ∧ Injected o others nodes r argv ptrs r' := by
  have hstand := h.standing
  have huse : ∀ node ∈ nodes, ∀ x, InSpan node sizeofCommandArg x →
      Spared o r x ∧ x.toNat < poolEnd r.heap := fun node hnode x hx =>
    (hkept node hnode x hx).spared h
  obtain ⟨n, hn⟩ : ∃ n, nodes.length = n := ⟨_, rfl⟩
  have hpos : 1 ≤ n := by
    rw [← hn]
    exact List.length_pos_iff.mpr hne
  -- the nodes lie at different addresses below the end of the heap
  have hbound : n ≤ 0x07400000 := by
    rw [← hn]
    refine length_le_of_nodup hlist.nodup fun node hnode => ?_
    obtain ⟨-, hlow⟩ := huse node hnode node (by
      unfold InSpan
      rw [BitVec.sub_self]
      decide)
    have htotal := hstand.total
    have hhead : benosHeadAddress.toNat = 0x01000000 := rfl
    unfold poolEnd at hlow
    simp only [kernelHeapBlocks, benosHeapBlockSize] at *
    omega
  have hcount := hlist.count (by omega) (by omega) hfuel
  rw [hn] at hcount
  have hsize := toNat_argvSize (show 4 * n < 2 ^ 32 by omega)
  have hfrom := @processInjectArgsFrom_some o.process rootArg r fuel n hcount
  rw [if_neg (by omega)] at hfrom
  rw [hfrom] at hall ⊢
  simp only at hall ⊢
  generalize hq : processMalloc o.process (toUint32 (4 * (n : Int))).toNat r
    = q
  obtain ⟨argv, q⟩ := q
  have hargv : argv ≠ 0#32 := by
    intro hnull
    subst hnull
    rw [injectCommandArgs_refused hq] at hall
    exact hall 0#32 (List.mem_append_right _ List.mem_cons_self) rfl
  rw [injectCommandArgs_granted hq hargv] at hall ⊢
  rw [hsize] at hq
  have hgives := processMalloc_gives hstand (by omega) (by omega) hq hargv
  obtain ⟨hready, hnodes⟩ := hgives.ready hstand huse
  obtain ⟨ptrs, r', hval, hfilled⟩ := injectCommandArgsLoop_fills
    (show 4 * n < 2 ^ 31 by omega) nodes (k := 0) hready
    (hlist.congr hnodes) (by omega) hfuel fun p hp => hall p
      (List.mem_append_right _ (List.mem_cons_of_mem _ hp))
  have hval' : (injectCommandArgsLoop o.process argv fuel 0 rootArg q).val
      = some (0, r') := hval
  simp only [hval']
  refine ⟨argv, ptrs, _, ?_,
    hfilled.injected h (by omega) hn hgives hready hnodes⟩
  unfold finishCommandArgs
  simp only
  rw [if_neg (Int.lt_irrefl 0)]

-- ============================================================= enough room

/-- The entries of the allocation table that are empty. -/
def emptyEntries (m : Bytes) (process : Addr) : Finset Nat :=
  (Finset.range benosMaxProgramAllocations).filter fun i =>
    allocPtr m process i = 0#32

/-- A process has room for `k` requests of a block each. -/
structure HasRoom (o : Objects) (k : Nat) (r : Ram) : Prop where
  blocks : k ≤ (freeBlocks r.heap).card
  entries : k ≤ (emptyEntries r.mem o.process).card

theorem card_emptyEntries_le (m : Bytes) (process : Addr) :
    (emptyEntries m process).card ≤ benosMaxProgramAllocations :=
  (Finset.card_filter_le _ _).trans (Finset.card_range _).le

/-- Where one entry is another, at most that one is empty no more. -/
theorem card_emptyEntries {process : Addr} {i : Nat}
    (h : ∀ j < benosMaxProgramAllocations, j ≠ i →
      allocPtr m' process j = allocPtr m process j) :
    (emptyEntries m process).card ≤ (emptyEntries m' process).card + 1 := by
  have hsub : (emptyEntries m process).erase i ⊆ emptyEntries m' process := by
    intro j hj
    obtain ⟨hne, hmem⟩ := Finset.mem_erase.mp hj
    obtain ⟨hlt, hnull⟩ := Finset.mem_filter.mp hmem
    refine Finset.mem_filter.mpr ⟨hlt, ?_⟩
    rw [h j (Finset.mem_range.mp hlt) hne]
    exact hnull
  have hcard := Finset.card_le_card hsub
  have herase := Finset.pred_card_le_card_erase (a := i)
    (s := emptyEntries m process)
  omega

/-- A request of at most a block is granted where there is room for it. -/
theorem HasRoom.granted {size : Nat} (h : HasRoom o (k + 1) r)
    (hstand : Standing o r) (hlo : 1 ≤ size) (hsize : size ≤ benosHeapBlockSize)
    (hq : processMalloc o.process size r = (ptr, q)) :
    ptr ≠ 0#32 ∧ k ≤ (freeBlocks q.heap).card := by
  have hbig : size ≤ 2 ^ 30 := by
    simp only [benosHeapBlockSize] at hsize
    omega
  have hblocks := h.blocks
  obtain ⟨hne, hcard⟩ := kzalloc_freeBlocks hstand.total hstand.saddr hlo hsize
    (show 1 ≤ _ by omega)
  rw [kzalloc_address] at hne
  rw [kzalloc_heap] at hcard
  obtain ⟨i, hi⟩ := Finset.card_pos.mp
    (show 0 < (emptyEntries r.mem o.process).card by
      have hentries := h.entries
      omega)
  obtain ⟨hlt, hnull⟩ := Finset.mem_filter.mp hi
  have hptr := processMalloc_ne_null hstand hlo hbig hne
    (Finset.mem_range.mp hlt) hnull
  have hheap := (processMalloc_heap hptr).2
  rw [hq] at hptr hheap
  simp only at hptr hheap
  refine ⟨hptr, ?_⟩
  rw [hheap]
  omega

/-- Where there is room for the list, the loop is refused no block. -/
theorem injectCommandArgsLoop_room (hn : 4 * n < 2 ^ 31) (nodes : List Addr) :
    ∀ {fuel k : Nat} {current : Addr} {r : Ram}, Ready o argv n nodes r →
      ArgList r.mem current nodes → k + nodes.length = n →
      nodes.length < fuel → HasRoom o nodes.length r →
      ∀ ptr, .malloc ptr
          ∈ (injectCommandArgsLoop o.process argv fuel k current r).log →
        ptr ≠ 0#32 := by
  induction nodes with
  | nil =>
      intro fuel k current r _ hlist _ hfuel _ ptr hp
      obtain ⟨fuel, rfl⟩ : ∃ f, fuel = f + 1 := ⟨fuel - 1, by omega⟩
      have hnull : current = 0#32 := hlist
      rw [hnull, injectCommandArgsLoop_null] at hp
      exact absurd hp List.not_mem_nil
  | cons node nodes ih =>
      intro fuel k current r hready hlist hlen hfuel hroom p hp
      obtain ⟨fuel, rfl⟩ : ∃ f, fuel = f + 1 := ⟨fuel - 1, by omega⟩
      have hfirst := hlist
      obtain ⟨hne, rfl, -⟩ := hfirst
      rw [List.length_cons] at hlen hfuel hroom
      generalize hq : processMalloc o.process sizeofArg r = q
      obtain ⟨ptr, q⟩ := q
      obtain ⟨hptr, hleft⟩ := hroom.granted hready.standing (by decide)
        (by decide) hq
      have hround := @injectCommandArgsLoop_granted o.process argv node r fuel k
        hne ptr q hq hptr
      have hcopied := injectArg_copied (k := k) hready (by omega) hn hq hptr
      rw [toInt32_of_range (by omega) (by omega)] at hround
      rw [hround] at hp
      have hheap : (copyArg argv ptr node k q).heap = q.heap := rfl
      generalize copyArg argv ptr node k q = r₁ at hcopied hp hheap
      obtain ⟨i, hentry⟩ := hcopied.entry
      have hroom' : HasRoom o nodes.length r₁ := by
        refine ⟨hheap ▸ hleft, ?_⟩
        have hcard := card_emptyEntries hentry
        have hentries := hroom.entries
        omega
      rcases List.mem_cons.mp hp with hp | hp
      · cases hp
      rcases List.mem_cons.mp hp with hp | hp
      · rw [ArgEvent.malloc.inj hp]
        exact hptr
      · exact @ih fuel (k + 1) _ r₁ (hcopied.ready hready)
          (hcopied.list hready (by omega) hn hlist) (by omega) (by omega)
          hroom' p hp

/-- Every request of `process_inject_args` is granted where there is room
for the array and for the arguments. -/
theorem processInjectArgsFrom_room (h : ProcOk o others r) {rootArg : Addr}
    (hne : nodes ≠ []) (hlist : ArgList r.mem rootArg nodes)
    (hkept : ∀ node ∈ nodes, ∀ x, InSpan node sizeofCommandArg x →
      Kept o others r x)
    (hfuel : nodes.length < fuel) (hroom : HasRoom o (nodes.length + 1) r) :
    ∀ ptr, .malloc ptr
        ∈ (processInjectArgsFrom fuel o.process rootArg r).log →
      ptr ≠ 0#32 := by
  have hpos : 1 ≤ nodes.length := List.length_pos_iff.mpr hne
  -- the array is of a block at most: no table has more empty entries
  have hshort : nodes.length + 1 ≤ benosMaxProgramAllocations :=
    hroom.entries.trans (card_emptyEntries_le _ _)
  simp only [benosMaxProgramAllocations] at hshort
  have hcount := hlist.count hpos (by omega) hfuel
  have hfrom := @processInjectArgsFrom_some o.process rootArg r fuel
    nodes.length hcount
  rw [if_neg (by omega)] at hfrom
  rw [hfrom]
  have hsize := toNat_argvSize (show 4 * nodes.length < 2 ^ 32 by omega)
  generalize hq : processMalloc o.process
    (toUint32 (4 * (nodes.length : Int))).toNat r = q
  obtain ⟨argv, q⟩ := q
  have hq' := hq
  rw [hsize] at hq'
  obtain ⟨hargv, hleft⟩ := hroom.granted h.standing (by omega)
    (by simp only [benosHeapBlockSize]; omega) hq'
  rw [injectCommandArgs_granted hq hargv]
  have hgives := processMalloc_gives h.standing (by omega) (by omega) hq' hargv
  obtain ⟨hready, hnodes⟩ := hgives.ready h.standing fun node hnode x hx =>
    (hkept node hnode x hx).spared h
  obtain ⟨i, -, -, hentries⟩ := hgives.slot
  have hroom' : HasRoom o nodes.length q := by
    refine ⟨hleft, ?_⟩
    have hcard := @card_emptyEntries r.mem q.mem o.process i fun j hj hji =>
      (hentries j hj).1.trans (if_neg hji)
    have hall := hroom.entries
    omega
  intro p hp
  simp only at hp
  rcases List.mem_append.mp hp with hp | hp
  · exact absurd hp (malloc_not_mem_count p _ 0 _)
  rcases List.mem_cons.mp hp with hp | hp
  · rw [ArgEvent.malloc.inj hp]
    exact hargv
  · exact injectCommandArgsLoop_room (show 4 * nodes.length < 2 ^ 31 by omega)
      nodes (k := 0) hready (hlist.congr hnodes) (Nat.zero_add _) hfuel hroom'
      p hp

/-- The words of two nodes below the heap: `a`, and behind it `b`. -/
def nodeWord (k : Nat) : BitVec 32 :=
  if k = 0x00014000 then 0x61#32
  else if k = 0x00014080 then 0x00050400#32
  else if k = 0x00014100 then 0x62#32
  else 0#32

/-- A process that has just been loaded, from block 0 on, and the two
nodes. -/
def twoNodes : Ram :=
  { heap := takenFrom 0 objectLengths emptyHeap
    mem := wordMemory fun k =>
      if (0x1000 + 0) * 1024 ≤ k then objectWord 0 k else nodeWord k
    served := true }

/-- The process is fresh, and there is room for the array and the two
arguments. -/
theorem fresh_twoNodes :
    Fresh (objectsAt 0) [] twoNodes ∧ HasRoom (objectsAt 0) 3 twoNodes := by
  obtain ⟨hok, htotal, hfree⟩ := ramOk_takenFrom one_le_objectLengths
    (by rw [sum_objectLengths]; decide) twoNodes.mem twoNodes.served
  rw [sum_objectLengths] at hfree
  have hheap : twoNodes.heap = takenFrom 0 objectLengths emptyHeap := by
    simp only [twoNodes]
  have hfresh : Fresh (objectsAt 0) [] twoNodes := by
    refine fresh_at (by decide) (fun k hk _ => if_pos hk) ?_
    rw [List.append_nil]
    exact hok
  refine ⟨hfresh, ?_, ?_⟩
  · have hsub : Finset.Ico 1030 1033 ⊆ freeBlocks twoNodes.heap := by
      intro i hi
      obtain ⟨hlo, hhi⟩ := Finset.mem_Ico.mp hi
      refine Finset.mem_filter.mpr ⟨Finset.mem_range.mpr ?_, ?_⟩
      · rw [hheap, htotal]
        simp only [kernelHeapBlocks]
        omega
      · rw [hheap]
        exact hfree i hlo
    exact (Finset.card_le_card hsub).trans' (by rw [Nat.card_Ico])
  · have hall : emptyEntries twoNodes.mem (objectsAt 0).process
        = Finset.range benosMaxProgramAllocations :=
      Finset.filter_true_of_mem fun i hi =>
        hfresh.empty i (Finset.mem_range.mp hi)
    rw [hall, Finset.card_range]
    decide

/-- The two nodes are a list, which lies below the heap. -/
theorem argList_twoNodes :
    ArgList twoNodes.mem 0x00050000#32 [0x00050000#32, 0x00050400#32]
      ∧ ∀ node ∈ [0x00050000#32, 0x00050400#32], ∀ x,
        InSpan node sizeofCommandArg x → Kept (objectsAt 0) [] twoNodes x := by
  have hword : ∀ {a : Addr} {k : Nat}, a.toNat = 4 * k → k < 0x1000 * 1024 →
      load32 twoNodes.mem a = nodeWord k := by
    intro a k ha hk
    refine (load32_wordMemory _ ha).trans (if_neg ?_)
    omega
  have hnext : commandArgNext twoNodes.mem 0x00050000#32 = 0x00050400#32 :=
    hword (k := 0x00014080) (by decide) (by decide)
  have hlast : commandArgNext twoNodes.mem 0x00050400#32 = 0#32 :=
    hword (k := 0x00014180) (by decide) (by decide)
  refine ⟨⟨by decide, rfl, ?_⟩, fun node hnode x hx => Or.inl ?_⟩
  · rw [hnext]
    exact ⟨by decide, rfl, hlast⟩
  · have hlow : node.toNat ≤ 0x00050400 := by
      rcases List.mem_cons.mp hnode with rfl | hnode
      · decide
      · rw [List.mem_singleton.mp hnode]
        decide
    rw [inSpan_iff (by simp only [sizeofCommandArg]; omega)] at hx
    have hhead : benosHeadAddress.toNat = 0x01000000 := rfl
    simp only [sizeofCommandArg] at hx
    omega

theorem process_inject_args_exact_two_nodes :
    copiedArg twoNodes.mem 0x00050000#32 = [0x61, 0x00]
      ∧ copiedArg twoNodes.mem 0x00050400#32 = [0x62, 0x00]
      ∧ ∃ argv ptrs r', (processInjectArgsFrom 3 (objectsAt 0).process
            0x00050000#32 twoNodes).val = some (0, r')
          ∧ Injected (objectsAt 0) [] [0x00050000#32, 0x00050400#32] twoNodes
            argv ptrs r' := by
  obtain ⟨hfresh, hroom⟩ := fresh_twoNodes
  obtain ⟨hlist, hkept⟩ := argList_twoNodes
  refine ⟨by decide +kernel, by decide +kernel, ?_⟩
  exact process_inject_args_exact hfresh.ok (List.cons_ne_nil _ _) hlist hkept
    (Nat.lt_succ_self 2) (processInjectArgsFrom_room hfresh.ok
      (List.cons_ne_nil _ _) hlist hkept (Nat.lt_succ_self 2) hroom)

end BenOS.Kernel
