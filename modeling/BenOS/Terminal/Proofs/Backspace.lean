/-
What a backspace undoes.

A backspace writes its blank with the function that writes characters,
and that one takes the cursor on to the next row when the blank was put
into the last column. Stepping back from there wraps the column. This
happens at the start of every row but the first: behind a character
written in the last column (`terminal_backspace_exact`), and for a
backspace alone (`StepsBack`).
-/
import BenOS.Terminal.Proofs.Screen

namespace BenOS.Terminal

open Lib Traced

-- ============================================================ the requirement

/-- The cells in front of the cursor, row by row. -/
def cursorAt (t : TerSys) : Nat :=
  t.terRow.toNat * vgaWidth + t.terColumn.toNat

/-- What the backspace leaves in a cell. -/
abbrev blank : BitVec 16 := terMakeCharacter 0x20 15

/-- A character and then a backspace leave the cursor where it was, a
blank in its cell and the other cells as they were. -/
structure Undone (character color : UInt8) (t t' : TerSys) : Prop where
  row : t'.terRow = t.terRow
  column : t'.terColumn = t.terColumn
  cell : t'.video (cursorAt t) = blank
  others : ∀ i, i ≠ cursorAt t → t'.video i = t.video i

/-- A backspace leaves the column one of the screen and takes the cursor
back by one cell, or not at all where there is none. -/
structure StepsBack (t t' : TerSys) : Prop where
  column : t'.terColumn.toNat < vgaWidth
  cursor : cursorAt t' = cursorAt t - 1

/-- A character, and then a backspace in any colour. -/
def writeThenBackspace (character color color' : UInt8) (t : TerSys) :
    Traced Cell TerSys := do
  let t ← terWritechar character color t
  terWritechar 0x08 color' t

-- ============================================================== what is left

variable {t : TerSys} {character color : UInt8}

/-- In front of the last column the cursor goes to the next cell. -/
theorem val_terWritechar_inside (hnl : character ≠ 0x0A)
    (hbs : character ≠ 0x08) (color : UInt8)
    (hcol : (t.terColumn + 1#16).toNat < vgaWidth) :
    (terWritechar character color t).val
      = { t with
          video := Function.update t.video (cursorAt t)
            (terMakeCharacter character color)
          terColumn := t.terColumn + 1#16 } := by
  rw [terWritechar, if_neg hnl, dif_neg hbs, val_bind, val_pure, if_neg]
  · rfl
  · exact Nat.not_le.mpr hcol

/-- In the last column it goes to the start of the next row. -/
theorem val_terWritechar_last (hnl : character ≠ 0x0A)
    (hbs : character ≠ 0x08) (color : UInt8) (hcol : t.terColumn = 79#16) :
    (terWritechar character color t).val
      = { video := Function.update t.video (cursorAt t)
            (terMakeCharacter character color)
          terRow := t.terRow + 1#16
          terColumn := 0#16 } := by
  have hwrap : (t.terColumn + 1#16).toNat ≥ vgaWidth := by
    rw [hcol]
    decide
  rw [terWritechar, if_neg hnl, dif_neg hbs, val_bind, val_pure, if_pos]
  · rfl
  · exact hwrap

/-- A backspace inside a row blanks the cell in front of the cursor and
steps back to it. -/
theorem val_terminalBackspace_inside (hcol : t.terColumn ≠ 0#16)
    (hlt : t.terColumn.toNat < vgaWidth) :
    (terminalBackspace t).val
      = { t with
          video := Function.update t.video (cursorAt t - 1) blank
          terColumn := t.terColumn - 1#16 } := by
  have hback : t.terColumn - 1#16 + 1#16 = t.terColumn := by bv_omega
  have hcell : cursorAt { t with terColumn := t.terColumn - 1#16 }
      = cursorAt t - 1 := by
    unfold cursorAt
    simp only
    bv_omega
  rw [terminalBackspace, if_neg (fun h => hcol h.2), if_neg hcol, val_bind,
    val_pure, val_terWritechar_inside (by decide) (by decide) 15]
  · simp only [hback, hcell]
  · show (t.terColumn - 1#16 + 1#16).toNat < vgaWidth
    rw [hback]
    exact hlt

/-- A backspace at the start of a row behind the first leaves the column
wrapped. -/
theorem terColumn_terminalBackspace_start (hcol : t.terColumn = 0#16)
    (hrow : t.terRow ≠ 0#16) :
    (terminalBackspace t).val.terColumn = 0xFFFF#16 := by
  rw [terminalBackspace, if_neg (fun h => hrow h.1), if_pos hcol, val_bind,
    val_pure, val_terWritechar_last (by decide) (by decide) 15]
  · rfl
  · show BitVec.ofNat 16 vgaWidth - 1#16 = 79#16
    decide

-- ============================================================= what it undoes

/-- A backspace goes back by a cell exactly where it need not leave its
row. -/
theorem stepsBack_iff (hlt : t.terColumn.toNat < vgaWidth) :
    StepsBack t (terminalBackspace t).val
      ↔ ¬ (t.terColumn = 0#16 ∧ t.terRow ≠ 0#16) := by
  by_cases hcol : t.terColumn = 0#16
  · by_cases hrow : t.terRow = 0#16
    · -- at the origin nothing happens
      rw [terminalBackspace, if_pos ⟨hrow, hcol⟩, val_pure]
      refine iff_of_true ⟨hlt, ?_⟩ (fun h => h.2 hrow)
      unfold cursorAt
      rw [hrow, hcol]
      rfl
    · refine iff_of_false (fun h => ?_) (fun h => h ⟨hcol, hrow⟩)
      have hin := h.column
      rw [terColumn_terminalBackspace_start hcol hrow] at hin
      exact absurd hin (by decide)
  · rw [val_terminalBackspace_inside hcol hlt]
    refine iff_of_true ⟨?_, ?_⟩ (fun h => hcol h.1)
    · simp only [vgaWidth] at hlt ⊢
      bv_omega
    · unfold cursorAt
      simp only
      bv_omega

/-- A character and then a backspace: what was there before is left, but
for the blank, exactly where the character was not in the last column. -/
theorem undone_iff (hnl : character ≠ 0x0A) (hbs : character ≠ 0x08)
    (color color' : UInt8) (hlt : t.terColumn.toNat < vgaWidth) :
    Undone character color t
        (writeThenBackspace character color color' t).val
      ↔ t.terColumn ≠ 79#16 := by
  unfold writeThenBackspace
  rw [val_bind, terWritechar_backspace]
  by_cases hcol : t.terColumn = 79#16
  · -- the cursor went to the next row, and does not come back from there
    refine iff_of_false (fun h => ?_) (fun h => h hcol)
    have hback := h.column
    rw [hcol, val_terWritechar_last hnl hbs color hcol] at hback
    by_cases hrow : t.terRow + 1#16 = 0#16
    · rw [terminalBackspace, if_pos ⟨hrow, rfl⟩, val_pure] at hback
      exact absurd hback (show ¬ 0#16 = 79#16 by decide)
    · rw [terColumn_terminalBackspace_start rfl hrow] at hback
      exact absurd hback (by decide)
  · have hin : (t.terColumn + 1#16).toNat < vgaWidth := by
      simp only [vgaWidth] at hlt ⊢
      bv_omega
    have hcell : cursorAt { t with
        video := Function.update t.video (cursorAt t)
          (terMakeCharacter character color)
        terColumn := t.terColumn + 1#16 } - 1 = cursorAt t := by
      unfold cursorAt
      simp only [vgaWidth] at hlt ⊢
      bv_omega
    have hback : t.terColumn + 1#16 - 1#16 = t.terColumn := by bv_omega
    rw [val_terWritechar_inside hnl hbs color hin,
      val_terminalBackspace_inside _ hin, hcell]
    · refine iff_of_true ⟨rfl, hback, ?_, fun i hi => ?_⟩ hcol
      · exact Function.update_self _ _ _
      · exact (Function.update_of_ne hi _ _).trans
          (Function.update_of_ne hi _ _)
    · simp only [vgaWidth] at hlt
      bv_omega

/-- What a backspace undoes: behind a character it restores the cursor
and every other cell exactly where the character was not in the last
column, and alone it goes back by a cell exactly where it stays in its
row or is at the origin. -/
theorem terminal_backspace_exact (hnl : character ≠ 0x0A)
    (hbs : character ≠ 0x08) (color color' : UInt8) {t : TerSys}
    (hlt : t.terColumn.toNat < vgaWidth) :
    (Undone character color t
        (writeThenBackspace character color color' t).val
      ↔ t.terColumn ≠ 79#16)
    ∧ (StepsBack t (terWritechar 0x08 color' t).val
      ↔ ¬ (t.terColumn = 0#16 ∧ t.terRow ≠ 0#16)) := by
  refine ⟨undone_iff hnl hbs color color' hlt, ?_⟩
  rw [terWritechar_backspace]
  exact stepsBack_iff hlt

/-- A letter in the middle of the third row. -/
theorem terminal_backspace_exact_third_row :
    Undone 0x41 15 ⟨fun _ => 0#16, 2#16, 40#16⟩
      (writeThenBackspace 0x41 15 15 ⟨fun _ => 0#16, 2#16, 40#16⟩).val :=
  (terminal_backspace_exact (by decide) (by decide) 15 15
    (t := ⟨fun _ => 0#16, 2#16, 40#16⟩) (by decide)).1.mpr (by decide)

/-- A letter in the last column of the first row is not undone. -/
theorem terminal_backspace_last_column :
    ¬ ∀ (character color color' : UInt8) (t : TerSys),
      0x20 ≤ character → character < 0x7F → t.terColumn.toNat < vgaWidth →
      t.terRow.toNat + 1 < vgaHeight →
      Undone character color t
          (writeThenBackspace character color color' t).val
        ∧ StepsBack t (terWritechar 0x08 color' t).val := by
  intro h
  obtain ⟨hundone, -⟩ := h 0x41 15 15 ⟨fun _ => 0#16, 0#16, 79#16⟩
    (by decide) (by decide) (by decide) (by decide)
  rw [undone_iff (by decide) (by decide) 15 15 (by decide)] at hundone
  exact hundone rfl

end BenOS.Terminal
