/-
Walking a path, component by component.

What a path leads to is stated over single steps: `enter` goes from a
directory to the item a name has in it, and frees the directory;
`reached` takes one step per component, from the root directory. The
code's loop makes the same lookups, but looks at the item it has come to
before it knows that there is one. So it comes to what the path leads to,
or to null, exactly when no component but the first and the last is
missing from a directory the walk comes to (`dir_entry_exact`).
-/
import BenOS.Fat.Proofs.DirLoad

namespace BenOS.Fat

open Lib Disk

variable {σ : Type} (al : Allocator σ) (vol : Volume)

-- ======================================================= what is required

/-- One step of a walk: from a directory to the item a name has in it. -/
def enter (curr : FatItem × σ) (name : List UInt8) : Option (FatItem × σ) :=
  match curr.1 with
  | .file _ _ => none
  | .dir addr dir => do
      let (found, s) ← fat16FindItemInDirPtr al vol dir name curr.2
      let s ← fat16FatItemFree al (.dir addr dir) s
      let item ← found
      some (item, s)

/-- The item a path leads to, its first component being looked up in the
root directory. -/
def reached (part : List UInt8) (names : List (List UInt8)) (s : σ) :
    Option (FatItem × σ) := do
  let (found, s) ← fat16FindItemInDir al vol vol.rootDir part s
  let item ← found
  names.foldlM (enter al vol) (item, s)

/-- The code comes to the item the path leads to, and to null where it
leads to none. -/
def Resolves (part : List UInt8) (names : List (List UInt8)) (s : σ) : Prop :=
  ∃ s', fat16GetDirEntry al vol part names s
    = some ((reached al vol part names s).map Prod.fst, s')

/-- A lookup in the middle of a walk comes to an outcome, and finds an
item unless its name is the last. -/
def StepsOn (curr : Option (FatItem × σ)) (name : List UInt8)
    (after : List (List UInt8)) : Prop :=
  ∀ addr dir s, curr = some (.dir addr dir, s) →
    ∃ found s', fat16FindItemInDirPtr al vol dir name s = some (found, s')
      ∧ (found = none → after = [])

/-- The root directory can be searched, and in every directory the walk
comes to, the next component is there or is the last one. -/
structure NoneMissingMidway (part : List UInt8) (names : List (List UInt8))
    (s : σ) : Prop where
  first : ∃ found s', fat16FindItemInDir al vol vol.rootDir part s
    = some (found, s')
  later : ∀ before name after, names = before ++ name :: after →
    StepsOn al vol (reached al vol part before s) name after

-- ================================================================== the loop

/-- A property of every place in a list, at its front and behind it. -/
theorem forall_split_cons {α : Type} {Q : List α → α → List α → Prop}
    (x : α) (xs : List α) :
    (∀ before y after, x :: xs = before ++ y :: after → Q before y after) ↔
      Q [] x xs ∧ ∀ before y after, xs = before ++ y :: after →
        Q (x :: before) y after := by
  constructor
  · intro h
    exact ⟨h [] x xs rfl, fun before y after hxs =>
      h (x :: before) y after (by rw [hxs, List.cons_append])⟩
  · intro h before y after hxs
    obtain ⟨hfront, hrest⟩ := h
    cases before with
    | nil =>
        rw [List.nil_append, List.cons.injEq] at hxs
        obtain ⟨rfl, rfl⟩ := hxs
        exact hfront
    | cons z before =>
        rw [List.cons_append, List.cons.injEq] at hxs
        obtain ⟨rfl, hxs⟩ := hxs
        exact hrest before y after hxs

/-- A directory that has been searched can be freed. -/
theorem fat16FatItemFree_searched {dir : DirPtr} {name : List UInt8} {s : σ}
    {r : Option FatItem × σ}
    (h : fat16FindItemInDirPtr al vol dir name s = some r) (addr : Addr) :
    ∃ s', fat16FatItemFree al (.dir addr dir) r.2 = some s' := by
  cases dir with
  | null => cases h
  | freed _ => cases h
  | live _ _ _ => exact ⟨_, rfl⟩

/-- A walk from a file leads nowhere. -/
theorem foldlM_enter_file (addr : Addr) (item : Option (Addr × FatDirItem))
    (name : List UInt8) (names : List (List UInt8)) (s : σ) :
    (name :: names).foldlM (enter al vol) (.file addr item, s) = none := by
  rw [List.foldlM_cons]
  rfl

/-- One round of the loop from a directory, and one step of the walk. -/
theorem walkRound {addr : Addr} {dir : DirPtr} {name : List UInt8}
    {s s₁ s₂ : σ} {found : Option FatItem}
    (hfind : fat16FindItemInDirPtr al vol dir name s = some (found, s₁))
    (hfree : fat16FatItemFree al (.dir addr dir) s₁ = some s₂)
    (names : List (List UInt8)) :
    fat16WalkLoop al vol (name :: names) (some (.dir addr dir)) s
        = fat16WalkLoop al vol names found s₂
      ∧ (name :: names).foldlM (enter al vol) (.dir addr dir, s)
        = found.bind fun next => names.foldlM (enter al vol) (next, s₂) := by
  constructor
  · rw [fat16WalkLoop, hfind]
    simp only [Option.bind_eq_bind, Option.bind_some, hfree]
  · rw [List.foldlM_cons, enter]
    simp only [hfind, Option.bind_eq_bind, Option.bind_some, hfree]
    cases found <;> rfl

/-- The loop, from an item on: it comes to what the names lead to exactly
when no lookup on the way but the last fails. -/
theorem fat16WalkLoop_iff (names : List (List UInt8)) :
    ∀ (item : FatItem) (s : σ),
      (∃ s', fat16WalkLoop al vol names (some item) s
        = some ((names.foldlM (enter al vol) (item, s)).map Prod.fst, s')) ↔
      ∀ before name after, names = before ++ name :: after →
        StepsOn al vol (before.foldlM (enter al vol) (item, s)) name after := by
  induction names with
  | nil =>
      intro item s
      refine iff_of_true ⟨s, rfl⟩ fun before name after h => ?_
      cases before <;> cases h
  | cons name names ih =>
      intro item s
      rw [forall_split_cons]
      cases item with
      | file addr item =>
          refine iff_of_true ⟨s, ?_⟩ ⟨?_, fun before _ _ _ => ?_⟩
          · rw [foldlM_enter_file]
            rfl
          · intro _ _ _ h
            cases h
          · rw [foldlM_enter_file]
            intro _ _ _ h
            cases h
      | dir addr dir =>
          cases hfind : fat16FindItemInDirPtr al vol dir name s with
          | none =>
              -- the directory cannot be searched
              refine iff_of_false ?_ ?_
              · intro h
                obtain ⟨s', hloop⟩ := h
                rw [fat16WalkLoop, hfind] at hloop
                cases hloop
              · intro h
                obtain ⟨hfront, -⟩ := h
                obtain ⟨found, s', hfound, -⟩ := hfront addr dir s rfl
                rw [hfind] at hfound
                cases hfound
          | some r =>
              obtain ⟨found, s₁⟩ := r
              obtain ⟨s₂, hfree⟩ := fat16FatItemFree_searched al vol hfind addr
              have hround := walkRound al vol hfind hfree
              cases found with
              | none =>
                  rw [(hround names).1, (hround names).2, Option.bind_none]
                  cases names with
                  | nil =>
                      refine iff_of_true ⟨s₂, rfl⟩ ⟨?_, ?_⟩
                      · intro addr' dir' s' h
                        cases h
                        exact ⟨_, _, hfind, fun _ => rfl⟩
                      · intro before _ _ h
                        cases before <;> cases h
                  | cons next names =>
                      -- the loop looks at the item it has not found
                      refine iff_of_false ?_ ?_
                      · intro h
                        obtain ⟨s', hloop⟩ := h
                        cases hloop
                      · intro h
                        obtain ⟨hfront, -⟩ := h
                        obtain ⟨found, s', hfound, hlast⟩ :=
                          hfront addr dir s rfl
                        rw [hfind] at hfound
                        cases hfound
                        cases hlast rfl
              | some next =>
                  have hfront : StepsOn al vol (some (.dir addr dir, s)) name
                      names := by
                    intro addr' dir' s' h
                    cases h
                    exact ⟨_, _, hfind, fun h => by cases h⟩
                  rw [(hround names).1, (hround names).2, Option.bind_some,
                    ih next s₂]
                  simp only [(hround _).2, Option.bind_some]
                  exact (and_iff_right hfront).symm

-- =============================================================== whole paths

/-- Path resolution: the code comes to what a path leads to, and to null
where it leads to none, if and only if the root directory can be
searched, and in every directory the walk comes to the next component is
there or is the last one. -/
theorem dir_entry_exact (part : List UInt8) (names : List (List UInt8))
    (s : σ) :
    Resolves al vol part names s ↔ NoneMissingMidway al vol part names s := by
  unfold Resolves
  cases hfind : fat16FindItemInDir al vol vol.rootDir part s with
  | none =>
      refine iff_of_false ?_ ?_
      · intro h
        obtain ⟨s', hentry⟩ := h
        rw [fat16GetDirEntry, hfind] at hentry
        cases hentry
      · intro h
        obtain ⟨⟨found, s', hfound⟩, -⟩ := h
        rw [hfind] at hfound
        cases hfound
  | some r =>
      obtain ⟨found, s₁⟩ := r
      have hreached : ∀ before, reached al vol part before s
          = found.bind fun item => before.foldlM (enter al vol) (item, s₁) := by
        intro before
        unfold reached
        rw [hfind]
        rfl
      cases found with
      | none =>
          refine iff_of_true ⟨s₁, ?_⟩ ⟨⟨_, _, hfind⟩, fun _ _ _ _ => ?_⟩
          · rw [hreached, fat16GetDirEntry, hfind]
            rfl
          · rw [hreached]
            intro _ _ _ h
            cases h
      | some item =>
          have hloop := fat16WalkLoop_iff al vol names item s₁
          rw [fat16GetDirEntry, hfind, hreached]
          refine hloop.trans ⟨fun h => ⟨⟨_, _, hfind⟩, ?_⟩, fun h => ?_⟩
          · intro before name after hnames
            rw [hreached]
            exact h before name after hnames
          · intro before name after hnames
            have hlater := h.later before name after hnames
            rwa [hreached] at hlater

/-- A disk whose root directory, in sector 2, has a directory "A", in the
sector behind it, without an entry. -/
def emptySubdirectoryDisk : Image UInt8 := fun lba i =>
  if lba = 2#32 then
    if i = 0 then 0x41 else if i = 11 then 0x10 else if i = 26 then 2 else 0
  else 0

/-- The disk as a volume. -/
def emptySubdirectory : Volume where
  disk := emptySubdirectoryDisk
  header :=
    { sectorsPerCluster := 1, reservedSectors := 1, fatCopies := 1
      rootDirEntries := 16, sectorsPerFat := 1 }
  rootDir :=
    { items := (List.range 16).map (scanned emptySubdirectoryDisk 1024)
      total := 1, sectorPos := 2, endingSectorPos := 3 }

/-- The path "A/B/C": the item "B" that was not found is looked at. -/
theorem dir_entry_missing_midway :
    ¬ ∀ (al : Allocator Unit) (vol : Volume) (part : List UInt8)
      (names : List (List UInt8)) (s : Unit), Resolves al vol part names s := by
  intro hall
  obtain ⟨s', hentry⟩ :=
    hall plenty emptySubdirectory [0x41] [[0x42], [0x43]] ()
  have hnone : fat16GetDirEntry plenty emptySubdirectory [0x41]
      [[0x42], [0x43]] () = none :=
    Option.isNone_iff_eq_none.mp (by decide +kernel)
  rw [hnone] at hentry
  cases hentry

end BenOS.Fat
