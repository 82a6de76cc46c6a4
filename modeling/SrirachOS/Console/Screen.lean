import Mathlib.Tactic.Common

/-!
# A Text Screen

The screen that a program with a display of its own would write to: 25 rows of 80 character cells
and a cursor that is always on one of them.

- `Screen.write`: a character, a newline or a carriage return is written,
- `Screen.erase`: the character before the cursor is taken back.
-/

namespace SrirachOS

/-- A screen. Each cell has a character and a colour. -/
structure Screen where
  char : Fin 25 → Fin 80 → UInt8
  attr : Fin 25 → Fin 80 → UInt8
  row : Fin 25
  col : Fin 80

namespace Screen

/-- A screen with the cursor at the top left. -/
def topLeft (char attr : Fin 25 → Fin 80 → UInt8) : Screen := ⟨char, attr, 0, 0⟩

/-- The characters move up a row and leave a blank one; the colours stay. -/
def scrolled (s : Screen) : Screen :=
  { s with char := fun r c => if h : r.val + 1 < 25 then s.char ⟨r.val + 1, h⟩ c else 32 }

/-- The cursor goes to the start of the next row. -/
def newline (s : Screen) : Screen :=
  if h : s.row.val + 1 < 25 then { s with row := ⟨s.row.val + 1, h⟩, col := 0 }
  else { s.scrolled with col := 0 }

/-- A character under the cursor. -/
def store (color c : UInt8) (s : Screen) : Screen :=
  { s with
    char := fun r k => if r = s.row ∧ k = s.col then c else s.char r k
    attr := fun r k => if r = s.row ∧ k = s.col then color else s.attr r k }

/-- The cursor goes to the next cell. -/
def advance (s : Screen) : Screen :=
  if h : s.col.val + 1 < 80 then { s with col := ⟨s.col.val + 1, h⟩ } else s.newline

/-- The cursor goes to the cell before, if there is one. -/
def retreat (s : Screen) : Screen :=
  if 0 < s.col.val then { s with col := ⟨s.col.val - 1, by omega⟩ }
  else if 0 < s.row.val then { s with row := ⟨s.row.val - 1, by omega⟩, col := 79 }
  else s

/-- A character is written: newline and carriage return end the row. -/
def write (color c : UInt8) (s : Screen) : Screen :=
  if c = 10 ∨ c = 13 then s.newline else (s.store color c).advance

/-- The cell before the cursor is blanked, and the cursor goes there. -/
def erase (color : UInt8) (s : Screen) : Screen :=
  if s.row.val = 0 ∧ s.col.val = 0 then s else s.retreat.store color 32

/-- A space written over the cell before the cursor brings the cursor back. -/
theorem write_retreat (color : UInt8) {s : Screen} (h : ¬ (s.row.val = 0 ∧ s.col.val = 0)) :
    s.retreat.write color 32 =
      { s.retreat.store color 32 with row := s.row, col := s.col } := by
  have hspace : ¬ ((32 : UInt8) = 10 ∨ (32 : UInt8) = 13) := by decide
  unfold write
  rw [if_neg hspace]
  unfold retreat
  by_cases hcol : 0 < s.col.val
  · -- in the same row
    rw [if_pos hcol]
    have hroom : s.col.val - 1 + 1 < 80 := by omega
    have hback : (⟨s.col.val - 1 + 1, hroom⟩ : Fin 80) = s.col := Fin.ext (by simp only []; omega)
    unfold advance store
    dsimp only
    rw [dif_pos hroom, hback]
  · -- from the end of the row above
    have hrow : 0 < s.row.val := by omega
    rw [if_neg hcol, if_pos hrow]
    have hroom : s.row.val - 1 + 1 < 25 := by omega
    have hback : (⟨s.row.val - 1 + 1, hroom⟩ : Fin 25) = s.row := Fin.ext (by simp only []; omega)
    have hzero : s.col = 0 := Fin.ext (by simp only [Fin.val_zero]; omega)
    unfold advance newline store
    dsimp only
    rw [dif_neg (by decide), dif_pos hroom, hback, hzero]

end Screen

/-- What can be done to a screen. -/
inductive ScreenOp where
  | write (c : UInt8)
  | erase

/-- An operation, with the colour in use. -/
def Screen.apply (color : UInt8) (s : Screen) : ScreenOp → Screen
  | .write c => s.write color c
  | .erase => s.erase color

end SrirachOS
