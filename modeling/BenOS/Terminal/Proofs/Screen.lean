/-
Where the terminal writes.

After `ter_init` the cursor's column is a column of the screen or the
16-bit -1 (`TerInv`): a backspace from column 0 writes its blank into the
last column of the row above, which takes the cursor back to column 0,
and then steps back once more. The row is bounded by nothing.

So every cell written is one of the screen exactly where each character
that is not a newline comes while the row is one of the screen and not
directly behind such a backspace (`terminal_exact`).
-/
import BenOS.Terminal.Terminal

namespace BenOS.Terminal

open Lib Traced

-- ============================================================ the requirement

/-- A cell of the screen. -/
def OnScreen (cell : Cell) : Prop := cell.1 < vgaWidth ∧ cell.2 < vgaHeight

instance (cell : Cell) : Decidable (OnScreen cell) :=
  inferInstanceAs (Decidable (_ ∧ _))

/-- The characters of a call, each with its colour. -/
def TerOp.chars : TerOp → List (UInt8 × UInt8)
  | .writechar character color => [(character, color)]
  | .print str => str.map fun character => (character, 0x0F)

/-- One character of a session. -/
def terStep (t : TerSys) (c : UInt8 × UInt8) : Option TerSys :=
  some (terWritechar c.1 c.2 t).val

/-- The screen is written to in its cells only, and the memory behind it
stays. -/
structure StaysOnScreen (ops : List TerOp) (t : TerSys) : Prop where
  cells : Logs OnScreen (terSession ops t)
  behind : ∀ i, vgaWidth * vgaHeight ≤ i →
    (terSession ops t).val.video i = t.video i

/-- What a character needs: a newline nothing; a backspace in column 0
that the row above, if any, is one of the screen; any other character,
and any other backspace, that the row is one of the screen and that the
cursor was not left beside the screen, by a backspace from column 0. -/
def TerGuard (t : TerSys) (c : UInt8 × UInt8) (_ : TerSys) : Prop :=
  if c.1 = 0x0A then True
  else if c.1 = 0x08 ∧ t.terColumn = 0#16 then t.terRow.toNat ≤ vgaHeight
  else t.terColumn ≠ 0xFFFF#16 ∧ t.terRow.toNat < vgaHeight

-- ================================================================ one character

variable {t : TerSys} {character color : UInt8}

theorem terWritechar_newline (color : UInt8) (t : TerSys) :
    terWritechar 0x0A color t
      = pure { t with terColumn := 0#16, terRow := t.terRow + 1#16 } := by
  rw [terWritechar, if_pos rfl]

theorem terWritechar_backspace (color : UInt8) (t : TerSys) :
    terWritechar 0x08 color t = terminalBackspace t := by
  rw [terWritechar, if_neg (by decide), dif_pos rfl]

/-- A character that is printed goes to the cursor's cell, and the cursor
steps on, from the last column to the next row. -/
structure Printed (t : TerSys) (x : Traced Cell TerSys) : Prop where
  log : x.log = [(t.terColumn.toNat, t.terRow.toNat)]
  inside : (t.terColumn + 1#16).toNat < vgaWidth →
    x.val.terColumn = t.terColumn + 1#16 ∧ x.val.terRow = t.terRow
  wrapped : vgaWidth ≤ (t.terColumn + 1#16).toNat →
    x.val.terColumn = 0#16 ∧ x.val.terRow = t.terRow + 1#16
  video : ∀ i, i ≠ t.terRow.toNat * vgaWidth + t.terColumn.toNat →
    x.val.video i = t.video i

theorem terWritechar_printed (hnl : character ≠ 0x0A)
    (hbs : character ≠ 0x08) (color : UInt8) (t : TerSys) :
    Printed t (terWritechar character color t) := by
  rw [terWritechar, if_neg hnl, dif_neg hbs]
  refine ⟨rfl, fun hin => ?_, fun hout => ?_, fun i hi => ?_⟩
  · rw [val_bind, val_pure, if_neg]
    · exact ⟨rfl, rfl⟩
    · exact Nat.not_le.mpr hin
  · rw [val_bind, val_pure, if_pos]
    · exact ⟨rfl, rfl⟩
    · exact hout
  · rw [val_bind, val_pure]
    split <;> exact Function.update_of_ne hi _ _

/-- Where a backspace writes its blank: one column back, over the start of
the row into the row above. -/
def blankAt (t : TerSys) : TerSys :=
  { t with
    terColumn :=
      (if t.terColumn = 0#16 then BitVec.ofNat 16 vgaWidth else t.terColumn)
        - 1#16
    terRow := if t.terColumn = 0#16 then t.terRow - 1#16 else t.terRow }

/-- A backspace that is not at the screen's start writes a blank one
column back, and takes the cursor back from where that leaves it. -/
theorem terminalBackspace_blank
    (hstart : ¬ (t.terRow = 0#16 ∧ t.terColumn = 0#16)) :
    ∃ x, Printed (blankAt t) x
      ∧ (terminalBackspace t).log = x.log
      ∧ (terminalBackspace t).val
        = { x.val with terColumn := x.val.terColumn - 1#16 } := by
  refine ⟨terWritechar 0x20 15 (blankAt t),
    terWritechar_printed (by decide) (by decide) 15 _, ?_, ?_⟩
  all_goals
    rw [terminalBackspace, if_neg hstart]
    unfold blankAt
    by_cases hcol : t.terColumn = 0#16
    · simp [hcol]
    · simp [hcol]

/-- The cursor's column is one of the screen, or -1. -/
def TerInv (t : TerSys) : Prop :=
  t.terColumn.toNat < vgaWidth ∨ t.terColumn = 0xFFFF#16

theorem TerInv.lt_iff (h : TerInv t) :
    t.terColumn.toNat < vgaWidth ↔ t.terColumn ≠ 0xFFFF#16 := by
  constructor
  · intro hlt heq
    rw [heq] at hlt
    exact absurd hlt (by decide)
  · exact fun hne => h.resolve_right hne

/-- A cell of the screen is none of the memory behind it. -/
theorem ne_of_onScreen {cell : Cell} (h : OnScreen cell) {i : Nat}
    (hi : vgaWidth * vgaHeight ≤ i) : i ≠ cell.2 * vgaWidth + cell.1 := by
  obtain ⟨hx, hy⟩ := h
  simp only [vgaWidth, vgaHeight] at *
  omega

/-- What a backspace does to the cursor, and which cell it writes. -/
theorem terminalBackspace_cursor (h : TerInv t)
    (hstart : ¬ (t.terRow = 0#16 ∧ t.terColumn = 0#16))
    {x : Traced Cell TerSys} (hx : Printed (blankAt t) x) {t' : TerSys}
    (hval : t' = { x.val with terColumn := x.val.terColumn - 1#16 }) :
    TerInv t' ∧ ∀ color,
      (OnScreen ((blankAt t).terColumn.toNat, (blankAt t).terRow.toNat)
        ↔ TerGuard t (0x08, color) t') := by
  subst hval
  unfold TerInv TerGuard OnScreen
  simp only [vgaWidth, vgaHeight] at *
  by_cases hcol : t.terColumn = 0#16
  · -- over the start of the row, and back by way of it
    have hblank : (blankAt t).terColumn = 79#16 := by
      simp only [blankAt, hcol, if_true]
      rfl
    have hrow : (blankAt t).terRow = t.terRow - 1#16 := by
      simp [blankAt, hcol]
    have hwrap := (hx.wrapped (by rw [hblank]; decide)).1
    refine ⟨Or.inr (by rw [hwrap]; rfl), fun color => ?_⟩
    rw [if_neg (by decide), if_pos ⟨trivial, hcol⟩, hblank, hrow]
    have hpos : t.terRow ≠ 0#16 := fun hzero => hstart ⟨hzero, hcol⟩
    have hmem : (79#16).toNat < 80 := by decide
    simp only [hmem, true_and]
    bv_omega
  · have hblank : (blankAt t).terColumn = t.terColumn - 1#16 := by
      simp [blankAt, hcol]
    have hrow : (blankAt t).terRow = t.terRow := by
      simp [blankAt, hcol]
    have hback : t.terColumn - 1#16 + 1#16 = t.terColumn := by
      bv_omega
    rcases h with hin | hout
    · have hstep := (hx.inside (by
        rw [hblank, hback]
        exact hin)).1
      rw [hblank, hback] at hstep
      refine ⟨Or.inl ?_, fun color => ?_⟩
      · rw [hstep]
        simp only [vgaWidth] at hin
        bv_omega
      · rw [if_neg (by decide), if_neg (fun hc => hcol hc.2), hblank, hrow]
        refine and_congr_left fun _ => iff_of_true ?_ ?_
        · simp only [vgaWidth] at hin
          bv_omega
        · intro heq
          rw [heq] at hin
          exact absurd hin (by decide)
    · have hwrap := (hx.wrapped (by rw [hblank, hback, hout]; decide)).1
      refine ⟨Or.inr (by rw [hwrap]; rfl), fun color => ?_⟩
      rw [if_neg (by decide), if_neg (fun hc => hcol hc.2), hblank, hrow, hout]
      refine and_congr_left fun _ => iff_of_false (by decide) ?_
      exact fun hne => hne rfl

/-- One character: the invariant is kept, the cells it writes are those
of the screen exactly under the guard, and the memory apart from them
stays. -/
theorem terWritechar_spec (h : TerInv t) (c : UInt8 × UInt8) :
    TerInv (terWritechar c.1 c.2 t).val
      ∧ (Logs OnScreen (terWritechar c.1 c.2 t)
        ↔ TerGuard t c (terWritechar c.1 c.2 t).val)
      ∧ (Logs OnScreen (terWritechar c.1 c.2 t) →
        ∀ i, vgaWidth * vgaHeight ≤ i →
          (terWritechar c.1 c.2 t).val.video i = t.video i) := by
  obtain ⟨character, color⟩ := c
  simp only
  have hcol := t.terColumn.isLt
  have hrow := t.terRow.isLt
  by_cases hnl : character = 0x0A
  · -- a newline writes nothing
    subst hnl
    rw [terWritechar_newline]
    exact ⟨Or.inl (Nat.succ_pos _), iff_of_true (logs_pure _) trivial,
      fun _ _ _ => rfl⟩
  · by_cases hbs : character = 0x08
    · subst hbs
      rw [terWritechar_backspace]
      by_cases hstart : t.terRow = 0#16 ∧ t.terColumn = 0#16
      · -- nothing is left of it
        rw [terminalBackspace, if_pos hstart]
        refine ⟨h, iff_of_true (logs_pure _) ?_, fun _ _ _ => rfl⟩
        simp [TerGuard, hstart.1, hstart.2]
      · obtain ⟨x, hx, hlog, hval⟩ := terminalBackspace_blank hstart
        obtain ⟨hinv, hcells⟩ := terminalBackspace_cursor h hstart hx hval
        refine ⟨hinv, ?_, fun hscreen i hi => ?_⟩
        · unfold Logs
          rw [hlog, hx.log, List.forall_mem_singleton]
          exact hcells color
        · unfold Logs at hscreen
          rw [hlog, hx.log, List.forall_mem_singleton] at hscreen
          rw [hval]
          exact hx.video i (ne_of_onScreen hscreen hi)
    · have hx := terWritechar_printed hnl hbs color t
      have hguard : OnScreen (t.terColumn.toNat, t.terRow.toNat)
          ↔ TerGuard t (character, color)
            (terWritechar character color t).val := by
        unfold TerGuard OnScreen
        simp only
        rw [if_neg hnl, if_neg (fun hc => hbs hc.1)]
        exact and_congr_left fun _ => h.lt_iff
      refine ⟨?_, ?_, fun hscreen i hi => ?_⟩
      · by_cases hlast : vgaWidth ≤ (t.terColumn + 1#16).toNat
        · left
          rw [(hx.wrapped hlast).1]
          exact Nat.succ_pos _
        · left
          rw [(hx.inside (Nat.not_le.mp hlast)).1]
          exact Nat.not_le.mp hlast
      · unfold Logs
        rw [hx.log, List.forall_mem_singleton]
        exact hguard
      · unfold Logs at hscreen
        rw [hx.log, List.forall_mem_singleton] at hscreen
        exact hx.video i (ne_of_onScreen hscreen hi)

-- ================================================================= a session

/-- Clearing the screen writes its cells and no others, and puts the
cursor at its start. -/
theorem terInit_spec (t : TerSys) :
    Logs OnScreen (terInit t)
      ∧ (terInit t).val.terRow = 0#16 ∧ (terInit t).val.terColumn = 0#16
      ∧ ∀ i, vgaWidth * vgaHeight ≤ i →
          (terInit t).val.video i = t.video i := by
  unfold terInit
  refine ⟨?_, ?_, ?_, fun i hi => ?_⟩
  · apply logs_foldlM
    intro y hy s
    apply logs_foldlM
    intro x hx s
    exact logs_look ⟨List.mem_range.mp hx, List.mem_range.mp hy⟩ _
  · refine val_foldlM_inv (I := fun s : TerSys => s.terRow = 0#16) _ ?_ _ rfl
    exact fun _ _ s hs => val_foldlM_inv
      (I := fun s : TerSys => s.terRow = 0#16) _ (fun _ _ _ hs => hs) s hs
  · refine val_foldlM_inv (I := fun s : TerSys => s.terColumn = 0#16) _ ?_ _
      rfl
    exact fun _ _ s hs => val_foldlM_inv
      (I := fun s : TerSys => s.terColumn = 0#16) _ (fun _ _ _ hs => hs) s hs
  · refine val_foldlM_inv (I := fun s : TerSys => s.video i = t.video i) _ ?_
      _ rfl
    intro y hy s hs
    refine val_foldlM_inv (I := fun s : TerSys => s.video i = t.video i) _ ?_
      s hs
    intro x hx s hs
    have hcell : OnScreen (x, y) :=
      ⟨List.mem_range.mp hx, List.mem_range.mp hy⟩
    have hne := ne_of_onScreen hcell hi
    exact (Function.update_of_ne hne _ _).trans hs

theorem terInv_init (t : TerSys) : TerInv (terInit t).val := by
  left
  rw [(terInit_spec t).2.2.1]
  exact Nat.succ_pos _

/-- Characters written one after the other. -/
def terWriteAll (cs : List (UInt8 × UInt8)) (t : TerSys) :
    Traced Cell TerSys :=
  cs.foldlM (fun t c => terWritechar c.1 c.2 t) t

/-- Calls write the characters they are given, one after the other. -/
theorem foldlM_terOp (ops : List TerOp) :
    ∀ t : TerSys,
      ops.foldlM terOp t = terWriteAll (ops.flatMap TerOp.chars) t := by
  have hlawful : LawfulMonad (Traced Cell) := lawfulMonad
  have hop : ∀ t op, terOp t op = terWriteAll (TerOp.chars op) t := by
    intro t op
    cases op with
    | writechar character color =>
        exact (bind_pure (terWritechar character color t)).symm
    | print str =>
        unfold terWriteAll TerOp.chars
        simp only
        rw [List.foldlM_map]
        rfl
  induction ops with
  | nil => exact fun _ => rfl
  | cons op ops ih =>
      intro t
      unfold terWriteAll at ih ⊢
      rw [List.foldlM_cons, List.flatMap_cons, List.foldlM_append, hop]
      exact bind_congr ih

/-- Characters whose cells are all on the screen leave the memory behind
it. -/
theorem video_of_along (cs : List (UInt8 × UInt8)) :
    ∀ t : TerSys, TerInv t →
      Along terStep (fun t c _ => Logs OnScreen (terWritechar c.1 c.2 t)) t
        cs →
      ∀ i, vgaWidth * vgaHeight ≤ i →
        (terWriteAll cs t).val.video i = t.video i := by
  induction cs with
  | nil => exact fun _ _ _ _ _ => rfl
  | cons c cs ih =>
      intro t h halong i hi
      obtain ⟨hc, hrest⟩ := (along_cons_of_step rfl).mp halong
      obtain ⟨hinv, -, hvideo⟩ := terWritechar_spec h c
      unfold terWriteAll at ih ⊢
      rw [List.foldlM_cons, val_bind, ih _ hinv hrest i hi]
      exact hvideo hc i hi

/-- The cells of a session are those of the screen exactly under the
guard. -/
theorem terSession_onScreen_iff (t : TerSys) (ops : List TerOp) :
    Logs OnScreen (terSession ops t)
      ↔ Along terStep TerGuard (terInit t).val (ops.flatMap TerOp.chars) := by
  unfold terSession
  rw [logs_bind_iff, foldlM_terOp, terWriteAll, logs_foldlM_iff,
    and_iff_right (terInit_spec t).1]
  refine along_iff_of_inv (I := TerInv) (A := fun _ _ _ => True) ?_ ?_
    (terInv_init t) (along_true _ _)
  · intro s c s' h hstep _ _
    obtain rfl := Option.some.inj hstep
    exact (terWritechar_spec h c).1
  · intro s c s' h hstep _
    obtain rfl := Option.some.inj hstep
    exact (terWritechar_spec h c).2.1

/-- Terminal writes stay on the screen exactly under the guard: after
`ter_init`, for every sequence of calls, whatever characters they
write. -/
theorem terminal_exact (t : TerSys) (ops : List TerOp) :
    StaysOnScreen ops t
      ↔ Along terStep TerGuard (terInit t).val (ops.flatMap TerOp.chars) := by
  rw [← terSession_onScreen_iff]
  constructor
  · exact fun h => h.cells
  · intro h
    refine ⟨h, fun i hi => ?_⟩
    unfold terSession at h ⊢
    rw [logs_bind_iff, foldlM_terOp, terWriteAll, logs_foldlM_iff] at h
    rw [val_bind, foldlM_terOp,
      video_of_along _ _ (terInv_init t) h.2 i hi]
    exact (terInit_spec t).2.2.2 i hi

/-- Newlines take the cursor down, a row each. -/
theorem along_newlines (color : UInt8) (cs : List (UInt8 × UInt8)) (n : Nat) :
    ∀ t : TerSys, t.terRow.toNat + n < 2 ^ 16 →
      Along terStep TerGuard t (List.replicate n (0x0A, color) ++ cs) →
      ∃ t', t'.terRow.toNat = t.terRow.toNat + n
        ∧ Along terStep TerGuard t' cs := by
  induction n with
  | zero => exact fun t _ h => ⟨t, rfl, h⟩
  | succ n ih =>
      intro t hlt h
      obtain ⟨-, hrest⟩ := (along_cons_of_step rfl).mp h
      simp only [terWritechar_newline, val_pure] at hrest
      have hrow : (t.terRow + 1#16).toNat = t.terRow.toNat + 1 := by
        bv_omega
      obtain ⟨t', ht', halong⟩ := ih _ (by
        simp only
        omega) hrest
      simp only at ht'
      exact ⟨t', by omega, halong⟩

/-- It is not so for every sequence of characters: behind twenty newlines
a letter goes to row 20. -/
theorem terminal_writes_below :
    ¬ ∀ (t : TerSys) (ops : List TerOp), StaysOnScreen ops t := by
  intro hall
  have hcells := (hall ⟨fun _ => 0#16, 0#16, 0#16⟩
    [.print (List.replicate 20 0x0A ++ [0x41])]).cells
  rw [terSession_onScreen_iff] at hcells
  have hrow := (terInit_spec ⟨fun _ => 0#16, 0#16, 0#16⟩).2.1
  obtain ⟨t', ht', halong⟩ := along_newlines 0x0F [(0x41, 0x0F)] 20 _
    (by rw [hrow]; decide) hcells
  obtain ⟨hguard, -⟩ := (along_cons_of_step rfl).mp halong
  have hlow : t'.terRow.toNat < vgaHeight := hguard.2
  rw [ht', hrow] at hlow
  exact absurd hlow (by decide)

end BenOS.Terminal
