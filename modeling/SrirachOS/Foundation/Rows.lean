import Mathlib.Data.List.DropRight
import Mathlib.Data.List.GetD

/-!
# Texts in Rows

A text broken into rows of at most `width` characters: some characters end the row that they stand in
and are not shown, and a row ends by itself with its last character.

- `Rows.put`, `Rows.puts`: a character and a text are appended,
- `Rows.cell`: the rows as a sheet that is blank beyond them,
- `Rows.shown`: the last rows, as many as a page has,
- `cell_put`, `ended_put`, `length_last_put`: what one character does to the sheet.
-/

namespace Foundation

/-- A text in rows: those that have ended, and the last one. -/
structure Rows (α : Type*) where
  ended : List (List α)
  last : List α

namespace Rows

variable {α : Type*} (width : Nat) (ends : α → Bool)

/-- A character is appended. -/
def put (r : Rows α) (c : α) : Rows α :=
  if ends c then ⟨r.ended ++ [r.last], []⟩
  else if r.last.length + 1 = width then ⟨r.ended ++ [r.last ++ [c]], []⟩
  else ⟨r.ended, r.last ++ [c]⟩

/-- A text is appended. -/
def puts (r : Rows α) (cs : List α) : Rows α := cs.foldl (put width ends) r

/-- All rows. -/
def all (r : Rows α) : List (List α) := r.ended ++ [r.last]

/-- The last `height` rows. -/
def shown (height : Nat) (r : Rows α) : List (List α) := r.all.rtake height

/-- The character in a column of a row, which may be beyond the text. -/
def cell (blank : α) (r : Rows α) (row col : Nat) : α := (r.all.getD row []).getD col blank

@[simp] theorem length_all (r : Rows α) : r.all.length = r.ended.length + 1 := by
  simp [all]

/-- The row behind those that have ended. -/
theorem getD_all_last (r : Rows α) : r.all.getD r.ended.length [] = r.last := by
  unfold all
  rw [List.getD_append_right _ _ _ _ (le_refl _), Nat.sub_self]
  rfl

theorem getD_all_of_lt (r : Rows α) {row : Nat} (h : row < r.ended.length) :
    r.all.getD row [] = r.ended[row] := by
  unfold all
  rw [List.getD_append _ _ _ _ h, List.getD_eq_getElem _ _ h]

theorem length_shown (height : Nat) (r : Rows α) :
    (r.shown height).length = min height (r.ended.length + 1) := by
  unfold shown List.rtake
  rw [List.length_drop, length_all]
  omega

/-- The rows that are shown are a part of the sheet. -/
theorem getD_shown (height : Nat) (blank : α) (r : Rows α) (row col : Nat) :
    ((r.shown height).getD row []).getD col blank =
      r.cell blank (r.ended.length + 1 - height + row) col := by
  unfold shown List.rtake cell
  rw [length_all]
  congr 1
  simp only [List.getD_eq_getElem?_getD, List.getElem?_drop]

/-- The last row that is shown is the last row. -/
theorem getLast_shown {height : Nat} (h : 0 < height) (r : Rows α) :
    (r.shown height).getLast? = some r.last := by
  unfold shown List.rtake
  rw [List.getLast?_drop, length_all, if_neg (by omega)]
  simp [all]

/-! ## One character -/

/-- The character ends the row that it comes to. -/
def Breaks (r : Rows α) (c : α) : Prop := ends c = true ∨ r.last.length + 1 = width

instance (r : Rows α) (c : α) : Decidable (r.Breaks width ends c) :=
  inferInstanceAs (Decidable (_ ∨ _))

theorem ended_put (r : Rows α) (c : α) :
    (r.put width ends c).ended.length =
      if r.Breaks width ends c then r.ended.length + 1 else r.ended.length := by
  unfold put Breaks
  by_cases hend : ends c = true
  · simp [hend]
  · by_cases hfull : r.last.length + 1 = width
    · simp [hend, hfull]
    · simp [hend, hfull]

theorem length_last_put (r : Rows α) (c : α) :
    (r.put width ends c).last.length =
      if r.Breaks width ends c then 0 else r.last.length + 1 := by
  unfold put Breaks
  by_cases hend : ends c = true
  · simp [hend]
  · by_cases hfull : r.last.length + 1 = width
    · simp [hend, hfull]
    · simp [hend, hfull]

/-- A row stays shorter than the width. -/
theorem last_lt_put {r : Rows α} (hpos : 0 < width) (h : r.last.length < width) (c : α) :
    (r.put width ends c).last.length < width := by
  rw [length_last_put]
  by_cases hbreaks : r.Breaks width ends c
  · rw [if_pos hbreaks]
    exact hpos
  · have hnot : ¬ r.last.length + 1 = width := fun hfull => hbreaks (.inr hfull)
    rw [if_neg hbreaks]
    omega

/-- Beyond the text the sheet is blank. -/
theorem cell_beyond (blank : α) (r : Rows α) {row : Nat} (h : r.ended.length < row) (col : Nat) :
    r.cell blank row col = blank := by
  have hrow : r.all.getD row [] = [] := List.getD_eq_default _ _ (by rw [length_all]; omega)
  unfold cell
  rw [hrow]
  rfl

/-- An empty row at the end is not seen. -/
theorem cell_newRow (blank : α) (rows : List (List α)) (row col : Nat) :
    ((rows ++ [[]]).getD row []).getD col blank = (rows.getD row []).getD col blank := by
  congr 1
  by_cases hin : row < rows.length
  · rw [List.getD_append _ _ _ _ hin]
  · rw [List.getD_append_right _ _ _ _ (by omega), List.getD_eq_default rows _ (by omega)]
    cases row - rows.length with
    | zero => rfl
    | succ n => rfl

/-- One more character in the last row. -/
theorem cell_snoc (blank c : α) (ended : List (List α)) (last : List α) (row col : Nat) :
    ((ended ++ [last ++ [c]]).getD row []).getD col blank =
      if row = ended.length ∧ col = last.length then c
      else ((ended ++ [last]).getD row []).getD col blank := by
  rcases Nat.lt_trichotomy row ended.length with hlt | rfl | hgt
  · rw [if_neg (by omega), List.getD_append _ _ _ _ hlt, List.getD_append _ _ _ _ hlt]
  · have hat : ∀ l : List α, (ended ++ [l]).getD ended.length [] = l := fun l =>
      getD_all_last ⟨ended, l⟩
    rw [hat, hat]
    rcases Nat.lt_trichotomy col last.length with hlt | rfl | hgt
    · rw [if_neg (by omega), List.getD_append _ _ _ _ hlt]
    · rw [if_pos ⟨rfl, rfl⟩, List.getD_append_right _ _ _ _ (le_refl _), Nat.sub_self]
      rfl
    · rw [if_neg (by omega), List.getD_eq_default _ _ (by simp; omega),
        List.getD_eq_default _ _ (by omega)]
  · have hbeyond : ∀ l : List α, (ended ++ [l]).getD row [] = [] := fun l =>
      List.getD_eq_default _ _ (by rw [List.length_append, List.length_singleton]; omega)
    rw [if_neg (by omega), hbeyond, hbeyond]

/-- **What one character does to the sheet**: if it is shown at all, it stands behind the others. -/
theorem cell_put (blank : α) (r : Rows α) (c : α) (row col : Nat) :
    (r.put width ends c).cell blank row col =
      if ¬ ends c = true ∧ row = r.ended.length ∧ col = r.last.length then c
      else r.cell blank row col := by
  unfold put cell all
  by_cases hend : ends c = true
  · rw [if_pos hend, if_neg (fun h => h.1 hend)]
    exact cell_newRow blank _ row col
  · have hiff : (¬ ends c = true ∧ row = r.ended.length ∧ col = r.last.length) ↔
        row = r.ended.length ∧ col = r.last.length := and_iff_right hend
    rw [if_neg hend, if_congr hiff rfl rfl, ← cell_snoc]
    split
    · exact cell_newRow blank _ row col
    · rfl

end Rows

end Foundation
