import SrirachOS.Console.Cursor
import Mathlib.Data.List.GetD

/-!
# Cells in a Row

A screen as the 2000 cells that it has in memory, one row behind the other, with a position for the
cursor. Seen so, characters that end no row are written along a tape, of which the screen shows 25
rows: from the last cell on it shows one row more.

- `Screen.write_cells`, `Screen.erase_cells`: one operation,
- `Screen.tape`, `overwrite`: the cells, with blank rows below, and a text written over them,
- `Screen.writes_tape`: any number of characters,
- `Screen.erases_cells`: any number of backspaces,
- `Display.charAt`: the characters of a terminal,
- `myPuts_writesOnly`: a text that a process writes.
-/

namespace SrirachOS

open Foundation Kernel

/-- Newline and carriage return end a row. -/
def EndsRow (c : UInt8) : Prop := c = 10 ∨ c = 13

instance : DecidablePred EndsRow := fun c => inferInstanceAs (Decidable (c = 10 ∨ c = 13))

/-! ## One operation -/

namespace Screen

theorem write_of_ends (color : UInt8) {c : UInt8} (h : EndsRow c) (s : Screen) :
    s.write color c = s.newline :=
  if_pos h

theorem write_of_shown (color : UInt8) {c : UInt8} (h : ¬ EndsRow c) (s : Screen) :
    s.write color c = (s.store color c).advance :=
  if_neg h

/-- The row that comes in is blank. -/
theorem cell_scrolled_last (s : Screen) {i : Nat} (hi : 1920 ≤ i) (hlt : i < 2000) :
    s.scrolled.cell i = 32 := by
  unfold cell scrolled
  rw [dif_pos hlt]
  dsimp only
  rw [dif_neg (by omega)]

/-- The end of a row. -/
theorem newline_cells (s : Screen) :
    s.newline.pos = 80 * min 24 (s.pos / 80 + 1) ∧
      ∀ i, i < 2000 → s.newline.cell i =
        if s.pos < 1920 then s.cell i else if i < 1920 then s.cell (i + 80) else 32 := by
  have hcol := s.col.isLt
  have hrow := s.row.isLt
  have hdiv : s.pos / 80 = s.row.val := by
    unfold pos
    omega
  unfold newline
  by_cases hnext : s.row.val + 1 < 25
  · have hup : s.pos < 1920 := by
      unfold pos
      omega
    rw [dif_pos hnext, hdiv]
    refine ⟨?_, fun i _ => (if_pos hup).symm⟩
    change 80 * (s.row.val + 1) + 0 = _
    omega
  · have hlast : ¬ s.pos < 1920 := by
      unfold pos
      omega
    rw [dif_neg hnext, hdiv]
    refine ⟨?_, fun i hi => ?_⟩
    · change 80 * s.row.val + 0 = _
      omega
    · rw [if_neg hlast]
      change s.scrolled.cell i = _
      by_cases hin : i < 1920
      · rw [if_pos hin, cell_scrolled s hin, Nat.add_comm]
      · rw [if_neg hin, cell_scrolled_last s (by omega) hi]

/-- **A character that ends no row**: from the last cell the screen scrolls. -/
theorem write_cells (color : UInt8) {c : UInt8} (hc : ¬ EndsRow c) (s : Screen) :
    (s.write color c).pos = (if s.pos = 1999 then 1920 else s.pos + 1) ∧
      ∀ i, i < 2000 → (s.write color c).cell i =
        if s.pos = 1999 then
          if i = 1919 then c else if i < 1920 then s.cell (i + 80) else 32
        else if i = s.pos then c else s.cell i := by
  have hlt := s.pos_lt
  have hcol := s.col.isLt
  have hrow := s.row.isLt
  -- the character is stored, and the cursor advances, into the next row if this one is full
  rw [write_of_shown color hc]
  unfold advance
  by_cases hroom : (s.store color c).col.val + 1 < 80
  · -- inside a row
    have hpos : s.pos ≠ 1999 := by
      change s.col.val + 1 < 80 at hroom
      unfold pos
      omega
    rw [dif_pos hroom, if_neg hpos]
    refine ⟨rfl, fun i hi => ?_⟩
    rw [if_neg hpos]
    exact cell_store color c s hi
  · -- the row is full, and ends
    obtain ⟨hnextPos, hnextCell⟩ := (s.store color c).newline_cells
    have hsame : (s.store color c).pos = s.pos := rfl
    rw [dif_neg hroom, hnextPos, hsame]
    rw [hsame] at hnextCell
    have hend : s.pos % 80 = 79 := by
      change ¬ s.col.val + 1 < 80 at hroom
      unfold pos
      omega
    by_cases hlast : s.pos = 1999
    · rw [if_pos hlast]
      refine ⟨by omega, fun i hi => ?_⟩
      rw [hnextCell i hi, if_neg (by omega), if_pos hlast]
      by_cases hin : i < 1920
      · rw [if_pos hin, cell_store color c s (by omega), if_pos hin]
        exact if_congr (by omega) rfl rfl
      · rw [if_neg hin, if_neg (by omega), if_neg hin]
    · rw [if_neg hlast]
      refine ⟨by omega, fun i hi => ?_⟩
      rw [hnextCell i hi, if_pos (by omega), if_neg hlast]
      exact cell_store color c s hi

/-- **A backspace** blanks the cell before the cursor. -/
theorem erase_cells (color : UInt8) (s : Screen) (h : 0 < s.pos) :
    (s.erase color).pos = s.pos - 1 ∧
      ∀ i, i < 2000 → (s.erase color).cell i = if i = s.pos - 1 then 32 else s.cell i := by
  rw [erase_of_pos color h]
  refine ⟨retreat_pos h, fun i hi => ?_⟩
  rw [cell_store color 32 _ hi, retreat_pos h, retreat_cell]

end Screen

/-! ## The tape -/

/-- A text written over a tape from `p` on. -/
def overwrite (p : Nat) (cs : List UInt8) (tape : Nat → UInt8) (j : Nat) : UInt8 :=
  if p ≤ j ∧ j < p + cs.length then cs.getD (j - p) 0 else tape j

theorem overwrite_snoc (p : Nat) (cs : List UInt8) (c : UInt8) (tape : Nat → UInt8) (j : Nat) :
    overwrite p (cs ++ [c]) tape j = if j = p + cs.length then c else overwrite p cs tape j := by
  unfold overwrite
  rw [List.length_append, List.length_singleton]
  by_cases hlast : j = p + cs.length
  · have hindex : j - p = cs.length := by omega
    rw [if_pos (by omega), if_pos hlast, hindex]
    simp
  · rw [if_neg hlast]
    by_cases hin : p ≤ j ∧ j < p + cs.length
    · rw [if_pos (by omega), if_pos hin, List.getD_append _ _ _ _ (by omega)]
    · rw [if_neg (by omega), if_neg hin]

/-- The rows that `n` characters from position `p` on scroll the screen by. -/
def rowsUp (p n : Nat) : Nat := (p + n - 1920) / 80

namespace Screen

/-- The cells of the screen, with blank rows below. -/
def tape (s : Screen) (j : Nat) : UInt8 := if j < 2000 then s.cell j else 32

/-- Characters are written. -/
def writes (color : UInt8) (cs : List UInt8) (s : Screen) : Screen :=
  cs.foldl (fun s c => s.write color c) s

theorem writes_snoc (color : UInt8) (cs : List UInt8) (c : UInt8) (s : Screen) :
    s.writes color (cs ++ [c]) = (s.writes color cs).write color c :=
  List.foldl_concat ..

/-- **Any number of characters** that end no row: the screen shows the tape that they are written
on, from the row that has come to the top. -/
theorem writes_tape (color : UInt8) {cs : List UInt8} (hcs : ∀ c ∈ cs, ¬ EndsRow c) (s : Screen) :
    (s.writes color cs).pos + 80 * rowsUp s.pos cs.length = s.pos + cs.length ∧
      ∀ i, i < 2000 → (s.writes color cs).cell i =
        overwrite s.pos cs s.tape (i + 80 * rowsUp s.pos cs.length) := by
  have hlt := s.pos_lt
  induction cs using List.reverseRecOn with
  | nil =>
    have hrows : rowsUp s.pos 0 = 0 := by
      unfold rowsUp
      omega
    rw [List.length_nil, hrows]
    refine ⟨rfl, fun i hi => ?_⟩
    have hnone : ¬ (s.pos ≤ i + 80 * 0 ∧ i + 80 * 0 < s.pos + ([] : List UInt8).length) := by
      rw [List.length_nil]
      omega
    unfold overwrite tape
    rw [if_neg hnone, Nat.mul_zero, Nat.add_zero, if_pos hi]
    rfl
  | append_singleton cs c ih =>
    -- the induction is on the last character: from cell 1999 it scrolls the tape by one row more
    obtain ⟨hc, hrest⟩ : ¬ EndsRow c ∧ ∀ b ∈ cs, ¬ EndsRow b :=
      ⟨hcs c (by simp), fun b hb => hcs b (by simp [hb])⟩
    obtain ⟨hpos, hcell⟩ := ih hrest
    obtain ⟨hpos', hcell'⟩ := write_cells color hc (s.writes color cs)
    have hbefore := (s.writes color cs).pos_lt
    rw [writes_snoc, List.length_append, List.length_singleton]
    -- the character is written on the tape behind the others
    by_cases hlast : (s.writes color cs).pos = 1999
    · have hrows : rowsUp s.pos (cs.length + 1) = rowsUp s.pos cs.length + 1 := by
        unfold rowsUp at hpos ⊢
        omega
      rw [if_pos hlast] at hpos'
      rw [hrows, hpos']
      refine ⟨by omega, fun i hi => ?_⟩
      have hiff : i + 80 * (rowsUp s.pos cs.length + 1) = s.pos + cs.length ↔ i = 1919 := by omega
      rw [hcell' i hi, if_pos hlast, overwrite_snoc]
      by_cases hat : i = 1919
      · rw [if_pos hat, if_pos (hiff.mpr hat)]
      · rw [if_neg hat, if_neg (mt hiff.mp hat)]
        by_cases hin : i < 1920
        · rw [if_pos hin, hcell _ (by omega)]
          exact congrArg _ (by omega)
        · -- a row that has come in
          unfold overwrite tape
          rw [if_neg hin, if_neg (by omega), if_neg (by omega)]
    · have hrows : rowsUp s.pos (cs.length + 1) = rowsUp s.pos cs.length := by
        unfold rowsUp at hpos ⊢
        omega
      rw [if_neg hlast] at hpos'
      rw [hrows, hpos']
      refine ⟨by omega, fun i hi => ?_⟩
      rw [hcell' i hi, if_neg hlast, overwrite_snoc, hcell i hi]
      exact if_congr (by omega) rfl rfl

/-- **Any number of backspaces**, as far as there are cells before the cursor. -/
theorem erases_cells (color : UInt8) (s : Screen) {n : Nat} (h : n ≤ s.pos) :
    ((fun s : Screen => s.erase color)^[n] s).pos = s.pos - n ∧
      ∀ i, i < 2000 → ((fun s : Screen => s.erase color)^[n] s).cell i =
        if s.pos - n ≤ i ∧ i < s.pos then 32 else s.cell i := by
  induction n with
  | zero =>
    refine ⟨rfl, fun i _ => ?_⟩
    rw [if_neg (by omega)]
    rfl
  | succ n ih =>
    obtain ⟨hpos, hcell⟩ := ih (by omega)
    rw [Function.iterate_succ_apply']
    obtain ⟨hpos', hcell'⟩ := erase_cells color ((fun s : Screen => s.erase color)^[n] s) (by omega)
    refine ⟨by omega, fun i hi => ?_⟩
    rw [hcell' i hi, hcell i hi, hpos]
    -- the cell that the last backspace blanks is next to those blanked already
    by_cases hlast : i = s.pos - n - 1
    · rw [if_pos hlast, if_pos (by omega)]
    · rw [if_neg hlast]
      exact if_congr (by omega) rfl rfl

end Screen

/-! ## The characters of a terminal -/

/-- The character in cell `i` of terminal `t`. -/
def Display.charAt (d : Display) (t : Int) (i : Nat) : UInt8 := d.content t (2 * i)

/-- Terminal `t` shows a screen. -/
abbrev ShowsAt (d : Display) (t : Int) (s : Screen) : Prop :=
  Shows d.mem (screenOf d.activeTerminal t) (d.xCursor t) (d.yCursor t) s

theorem ShowsAt.pos_eq {d : Display} {t : Int} {s : Screen} (h : ShowsAt d t s) :
    d.pos t = s.pos := by
  have hcol := h.col
  have hrow := h.row
  unfold Display.pos Screen.pos
  omega

theorem ShowsAt.charAt_eq {d : Display} {t : Int} {s : Screen} (h : ShowsAt d t s) {i : Nat}
    (hi : i < 2000) : d.charAt t i = s.cell i := by
  have hchar := h.char ⟨i / 80, by omega⟩ ⟨i % 80, by omega⟩
  have hindex : 80 * (i / 80) + i % 80 = i := Nat.div_add_mod i 80
  dsimp only at hchar
  -- the cell is in row `i / 80` and column `i % 80`
  rw [hindex] at hchar
  unfold Display.charAt Display.content Screen.cell
  rw [dif_pos hi]
  exact hchar

/-- A terminal whose cursor is on the screen shows one. -/
theorem exists_showsAt {d : Display} {t : Int} (h : OnScreen (d.xCursor t) (d.yCursor t)) :
    ∃ s, ShowsAt d t s := by
  obtain ⟨hx0, hx, hy0, hy⟩ := h
  refine ⟨⟨fun r c => d.mem (screenOf d.activeTerminal t + 2 * (80 * r.val + c.val)),
    fun r c => d.mem (screenOf d.activeTerminal t + 2 * (80 * r.val + c.val) + 1),
    ⟨(d.yCursor t).toNat, by omega⟩, ⟨(d.xCursor t).toNat, by omega⟩⟩, fun _ _ => rfl,
    fun _ _ => rfl, ?_, ?_⟩
  · dsimp only
    omega
  · dsimp only
    omega

theorem WritesOnly.refl {d : Display} {t : Int} {s : Screen} (h : ShowsAt d t s) :
    WritesOnly t s d d :=
  ⟨rfl, rfl, h, fun _ _ => rfl, fun _ _ => ⟨rfl, rfl⟩⟩

/-- The terminal that has been written to shows its new screen. -/
theorem WritesOnly.showsAt {d d' : Display} {t : Int} {s : Screen} (h : WritesOnly t s d d') :
    ShowsAt d' t s := by
  have hshows := h.shows
  rwa [← h.active] at hshows

/-- **`my_puts`** writes its characters on the screen of the running process's terminal. -/
theorem myPuts_writesOnly {d : Display} {s : Screen} (h0 : 0 ≤ d.processNum d.mainProcess)
    (h : ShowsAt d (d.processNum d.mainProcess) s) (cs : List UInt8) :
    WritesOnly (d.processNum d.mainProcess) (s.writes d.textColor cs) d (d.myPuts cs) := by
  induction cs generalizing d s with
  | nil => exact WritesOnly.refl h
  | cons c cs ih =>
    have hfirst := myPutc_writesOnly h0 h c
    -- the process writes to the same terminal all the time
    have hrest : WritesOnly (d.processNum d.mainProcess)
        ((s.write d.textColor c).writes (d.myPutc c).textColor cs) (d.myPutc c)
        ((d.myPutc c).myPuts cs) := ih (d := d.myPutc c) h0 hfirst.showsAt
    rw [hfirst.color] at hrest
    exact hfirst.trans hrest

end SrirachOS
