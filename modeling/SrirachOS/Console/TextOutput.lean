import SrirachOS.Console.Cells
import SrirachOS.Console.Write
import SrirachOS.Foundation.Rows

/-!
# Text on a Terminal

`my_putc` places characters with a cursor, modulo the columns and the rows of the page, and scrolls by
copying rows. What a program sees of it is a text in rows, of which the page shows the last 25.

- `Page`: a screen as 25 rows of a sheet,
- `Sets`: it shows the end of a text, with the cursor behind,
- `Sets.write`, `Sets.writes`: one character, and a text,
- `my_puts_sets`: what `my_puts` leaves on the terminal of a process.
-/

namespace SrirachOS

open Foundation Kernel

/-! ## Rows of a sheet -/

/-- The cursor is in row `rows` of the sheet, and the screen shows the sheet up to that row. -/
structure Page (s : Screen) (sheet : Nat → Nat → UInt8) (rows : Nat) : Prop where
  row : s.row.val = min rows 24
  char : ∀ (i : Fin 25) (j : Fin 80), s.char i j = sheet (rows - 24 + i.val) j.val

/-- A character under the cursor. -/
theorem Page.store {s : Screen} {sheet : Nat → Nat → UInt8} {rows : Nat} (h : Page s sheet rows)
    (color c : UInt8) :
    Page (s.store color c) (fun row col => if row = rows ∧ col = s.col.val then c else sheet row col)
      rows where
  row := h.row
  char i j := by
    have hrow := h.row
    -- the row of the cursor on the screen is row `rows` of the sheet
    have hsame : i = s.row ∧ j = s.col ↔ rows - 24 + i.val = rows ∧ j.val = s.col.val := by
      rw [Fin.ext_iff, Fin.ext_iff]
      omega
    unfold Screen.store
    dsimp only
    rw [h.char i j]
    exact if_congr hsame rfl rfl

/-- The next row, which is blank. -/
theorem Page.newline {s : Screen} {sheet : Nat → Nat → UInt8} {rows : Nat} (h : Page s sheet rows)
    (hblank : ∀ row col, rows < row → sheet row col = 32) :
    Page s.newline sheet (rows + 1) ∧ s.newline.col.val = 0 := by
  have hrow := h.row
  unfold Screen.newline
  by_cases hnext : s.row.val + 1 < 25
  · -- the page has room for it
    have htop : rows + 1 - 24 = rows - 24 := by omega
    rw [dif_pos hnext]
    refine ⟨⟨?_, fun i j => ?_⟩, rfl⟩
    · change s.row.val + 1 = _
      omega
    · rw [htop]
      exact h.char i j
  · rw [dif_neg hnext]
    refine ⟨⟨?_, fun i j => ?_⟩, rfl⟩
    · change s.row.val = _
      omega
    · unfold Screen.scrolled
      dsimp only
      by_cases hin : i.val + 1 < 25
      · have hbelow : rows - 24 + (i.val + 1) = rows + 1 - 24 + i.val := by omega
        rw [dif_pos hin, h.char, hbelow]
      · rw [dif_neg hin, hblank _ _ (by omega)]

/-! ## The end of a text -/

/-- The characters that end a row, as a test. -/
abbrev endsRow (c : UInt8) : Bool := decide (EndsRow c)

/-- The screen shows the last rows of a text, with the cursor behind it. -/
structure Sets (s : Screen) (r : Rows UInt8) : Prop where
  fits : r.last.length < 80
  page : Page s (r.cell 32) r.ended.length
  col : s.col.val = r.last.length

/-- **A character** is appended to the text. -/
theorem Sets.write {s : Screen} {r : Rows UInt8} (h : Sets s r) (color c : UInt8) :
    Sets (s.write color c) (r.put 80 endsRow c) := by
  have hsheet : ∀ row col, (r.put 80 endsRow c).cell 32 row col =
      if ¬ EndsRow c ∧ row = r.ended.length ∧ col = s.col.val then c else r.cell 32 row col := by
    intro row col
    rw [Rows.cell_put, h.col]
    exact if_congr (by simp) rfl rfl
  have hbeyond : ∀ row col, r.ended.length < row → r.cell 32 row col = 32 := fun row col hrow =>
    r.cell_beyond 32 hrow col
  -- the last row stays shorter than the width in all cases; what is left is the page and the
  -- column
  suffices hpage : Page (s.write color c) ((r.put 80 endsRow c).cell 32)
      (r.put 80 endsRow c).ended.length ∧
      (s.write color c).col.val = (r.put 80 endsRow c).last.length from
    ⟨r.last_lt_put 80 endsRow (by decide) h.fits c, hpage.1, hpage.2⟩
  rw [Rows.ended_put, Rows.length_last_put]
  by_cases hends : EndsRow c
  · -- nothing is written
    have hbreaks : r.Breaks 80 endsRow c := .inl (decide_eq_true hends)
    have hcell : (r.put 80 endsRow c).cell 32 = r.cell 32 :=
      funext₂ fun row col => (hsheet row col).trans (if_neg fun hall => hall.1 hends)
    rw [Screen.write_of_ends color hends, if_pos hbreaks, if_pos hbreaks, hcell]
    exact h.page.newline hbeyond
  · have hcell : (r.put 80 endsRow c).cell 32 = fun row col =>
        if row = r.ended.length ∧ col = s.col.val then c else r.cell 32 row col :=
      funext₂ fun row col => (hsheet row col).trans (if_congr (and_iff_right hends) rfl rfl)
    have hstore := h.page.store color c
    have hcol := h.col
    have hfits := h.fits
    rw [Screen.write_of_shown color hends, hcell]
    unfold Screen.advance
    by_cases hroom : (s.store color c).col.val + 1 < 80
    · have hopen : ¬ r.Breaks 80 endsRow c := by
        rintro (hend | hfull)
        · exact hends (of_decide_eq_true hend)
        · change s.col.val + 1 < 80 at hroom
          omega
      rw [dif_pos hroom, if_neg hopen, if_neg hopen]
      refine ⟨⟨hstore.row, hstore.char⟩, ?_⟩
      change s.col.val + 1 = _
      omega
    · -- the row is full
      have hbreaks : r.Breaks 80 endsRow c := by
        change ¬ s.col.val + 1 < 80 at hroom
        exact .inr (by omega)
      rw [dif_neg hroom, if_pos hbreaks, if_pos hbreaks]
      refine hstore.newline fun row col hrow => ?_
      rw [if_neg (by omega)]
      exact hbeyond row col hrow

/-- **A text** is appended. -/
theorem Sets.writes {s : Screen} {r : Rows UInt8} (h : Sets s r) (color : UInt8)
    (text : List UInt8) : Sets (s.writes color text) (r.puts 80 endsRow text) := by
  unfold Screen.writes Rows.puts
  induction text generalizing s r with
  | nil => exact h
  | cons c text ih => exact ih (h.write color c)

/-- The rest of the screen is blank. -/
theorem Sets.blank {s : Screen} {r : Rows UInt8} (h : Sets s r) {i : Nat} (hi : i < 2000)
    (hpos : s.pos ≤ i) : s.cell i = 32 := by
  have hrow := h.page.row
  have hcol := h.col
  have hfits := h.fits
  unfold Screen.pos at hpos
  unfold Screen.cell
  rw [dif_pos hi, h.page.char]
  dsimp only
  -- in the row of the cursor the cell is behind the last character, and below it there is no text
  by_cases hlast : r.ended.length - 24 + i / 80 = r.ended.length
  · unfold Rows.cell
    rw [hlast, r.getD_all_last, List.getD_eq_default _ _ (by omega)]
  · exact r.cell_beyond 32 (by omega) _

/-! ## A terminal -/

/-- The text before the cursor of a terminal: whole rows, and a part of one. -/
def Display.rowsBefore (d : Display) (t : Int) : Rows UInt8 where
  ended := (List.range (d.yCursor t).toNat).map fun row =>
    (List.range 80).map fun col => d.charAt t (80 * row + col)
  last := (List.range (d.xCursor t).toNat).map fun col =>
    d.charAt t (80 * (d.yCursor t).toNat + col)

/-- The sheet of the text before the cursor: what the terminal shows there, and blank behind. -/
theorem rowsBefore_cell (d : Display) {t : Int} {row col : Nat} (hcol : col < 80) :
    (d.rowsBefore t).cell 32 row col =
      if row < (d.yCursor t).toNat ∨ row = (d.yCursor t).toNat ∧ col < (d.xCursor t).toNat then
        d.charAt t (80 * row + col)
      else 32 := by
  have hended : (d.rowsBefore t).ended.length = (d.yCursor t).toNat := by
    simp [Display.rowsBefore]
  have hlen : (d.rowsBefore t).last.length = (d.xCursor t).toNat := by
    simp [Display.rowsBefore]
  rcases Nat.lt_trichotomy row (d.yCursor t).toNat with habove | rfl | hbelow
  · rw [if_pos (.inl habove)]
    unfold Rows.cell
    rw [Rows.getD_all_of_lt _ (by omega)]
    simp [Display.rowsBefore, hcol]
  · -- the row of the cursor
    have hlast := (d.rowsBefore t).getD_all_last
    rw [hended] at hlast
    unfold Rows.cell
    rw [hlast]
    by_cases hleft : col < (d.xCursor t).toNat
    · rw [if_pos (.inr ⟨rfl, hleft⟩), List.getD_eq_getElem _ _ (by omega)]
      simp [Display.rowsBefore]
    · rw [if_neg (by omega), List.getD_eq_default _ _ (by omega)]
  · rw [if_neg (by omega)]
    exact (d.rowsBefore t).cell_beyond 32 (by omega) col

/-- A terminal that is blank from its cursor on shows the text before it. -/
theorem sets_rowsBefore {d : Display} {t : Int} {s : Screen} (h : ShowsAt d t s)
    (hblank : ∀ i : Nat, d.pos t ≤ i → i < 2000 → d.charAt t i = 32) :
    Sets s (d.rowsBefore t) := by
  have hrow := h.row
  have hcol := h.col
  have hlast := s.col.isLt
  have hbottom := s.row.isLt
  have hended : (d.rowsBefore t).ended.length = s.row.val := by
    simp [Display.rowsBefore, hrow]
  have hlen : (d.rowsBefore t).last.length = s.col.val := by
    simp [Display.rowsBefore, hcol]
  have hcell : ∀ (i : Fin 25) (j : Fin 80), s.char i j = d.charAt t (80 * i.val + j.val) := by
    intro i j
    unfold Display.charAt Display.content
    exact (h.char i j).symm
  refine ⟨by omega, ⟨by omega, fun i j => ?_⟩, hlen.symm⟩
  have htop : (d.rowsBefore t).ended.length - 24 + i.val = i.val := by omega
  rw [htop, hcell, rowsBefore_cell d j.isLt]
  split
  · rfl
  · -- behind the cursor
    refine hblank _ ?_ (by omega)
    rw [h.pos_eq]
    unfold Screen.pos
    omega

/-- **Terminal output**: for every screen that is blank from its cursor on, and every text, `my_puts`
returns its length and leaves on the page of the running process's terminal the text before the cursor
and the text, in rows that end with a newline, a carriage return or their 80th character: the last 25
of them, with the cursor behind the last character, and blank cells from there on. -/
theorem my_puts_sets (w : Writer)
    (hlive : 0 ≤ w.display.processNum w.display.mainProcess ∧
      w.display.processNum w.display.mainProcess < 3)
    (hcursor : OnScreen (w.display.xCursor (w.display.processNum w.display.mainProcess))
      (w.display.yCursor (w.display.processNum w.display.mainProcess)))
    (hblank : ∀ i : Nat, w.display.pos (w.display.processNum w.display.mainProcess) ≤ i → i < 2000 →
      w.display.charAt (w.display.processNum w.display.mainProcess) i = 32)
    (buf : Buffer) (text : List UInt8) (hholds : Holds buf w.display text)
    (hfits : text.length < 2147483648) (turns : Nat) (hturns : text.length < turns) :
    let t := w.display.processNum w.display.mainProcess
    let shown := ((w.display.rowsBefore t).puts 80 endsRow text).shown 25
    ∃ w', w.myPuts buf text.length turns = some ((text.length : Int), w') ∧
      (∀ row col, row < 25 → col < 80 →
        w'.display.charAt t (80 * row + col) = (shown.getD row []).getD col 32) ∧
      w'.display.yCursor t = shown.length - 1 ∧
      w'.display.xCursor t = (shown.getLast?.getD []).length ∧
      ∀ i : Nat, w'.display.pos t ≤ i → i < 2000 → w'.display.charAt t i = 32 := by
  intro t shown
  obtain ⟨s, hs⟩ := exists_showsAt hcursor
  -- the screen before sets the text before the cursor, and each character is appended
  have hsets := (sets_rowsBefore hs hblank).writes w.display.textColor text
  have hshows : ShowsAt (w.display.myPuts text) t (s.writes w.display.textColor text) :=
    (myPuts_writesOnly hlive.1 hs text).showsAt
  have hlen : shown.length =
      min 25 (((w.display.rowsBefore t).puts 80 endsRow text).ended.length + 1) :=
    Rows.length_shown _ _
  refine ⟨w.prints text, myPuts_holds hholds hfits hturns, fun row col hrow hcol => ?_, ?_, ?_,
    fun i hi hlt => ?_⟩
  · change (w.display.myPuts text).charAt t (80 * row + col) = _
    have hcell : (s.writes w.display.textColor text).cell (80 * row + col) =
        (s.writes w.display.textColor text).char ⟨row, hrow⟩ ⟨col, hcol⟩ := by
      unfold Screen.cell
      rw [dif_pos (by omega)]
      congr 1
      · exact Fin.ext (by dsimp only; omega)
      · exact Fin.ext (by dsimp only; omega)
    -- the page shows the sheet from the row that the last 25 begin with
    have htop : ((w.display.rowsBefore t).puts 80 endsRow text).ended.length - 24 + row =
        ((w.display.rowsBefore t).puts 80 endsRow text).ended.length + 1 - 25 + row := by omega
    rw [hshows.charAt_eq (by omega), hcell, hsets.page.char, Rows.getD_shown, ← htop]
  · change (w.display.myPuts text).yCursor t = _
    have hrow : (s.writes w.display.textColor text).row.val =
        min ((w.display.rowsBefore t).puts 80 endsRow text).ended.length 24 := hsets.page.row
    rw [hshows.row, hrow, hlen]
    omega
  · change (w.display.myPuts text).xCursor t = _
    rw [hshows.col, hsets.col, Rows.getLast_shown (by decide)]
    rfl
  · change (w.display.myPuts text).charAt t i = 32
    change (w.display.myPuts text).pos t ≤ i at hi
    rw [hshows.pos_eq] at hi
    rw [hshows.charAt_eq hlt]
    exact hsets.blank hlt (by omega)

/-- `hello`, written behind the 78th character of a row, goes on in the next one. -/
theorem my_puts_hello :
    let d : Display := { sampleDisplay with xCursor := fun _ => 78 }
    ∃ w', Writer.myPuts helloBuffer 5 6 ⟨d, [], true⟩ = some (5, w') ∧
      w'.display.charAt 0 78 = 104 ∧ w'.display.charAt 0 80 = 108 ∧ w'.display.yCursor 0 = 1 ∧
      w'.display.xCursor 0 = 3 := by
  intro d
  have hholds : Holds helloBuffer d [104, 101, 108, 108, 111] := by
    intro i hi
    have hin : (0 : Int) ≤ i ∧ (i : Int) < 5 := ⟨Int.natCast_nonneg i, Int.ofNat_lt.mpr hi⟩
    unfold helloBuffer
    rw [if_pos hin, Int.toNat_natCast, List.getD_eq_getElem _ _ hi]
  obtain ⟨w', hrun, hcells, hy, hx, -⟩ := my_puts_sets ⟨d, [], true⟩ ⟨by decide, by decide⟩
    ⟨by decide, by decide, by decide, by decide⟩ (fun _ _ _ => rfl) helloBuffer
    [104, 101, 108, 108, 111] hholds (by decide) 6 (by decide)
  exact ⟨w', hrun, (hcells 0 78 (by decide) (by decide)).trans (by decide +kernel),
    (hcells 1 0 (by decide) (by decide)).trans (by decide +kernel), hy.trans (by decide +kernel),
    hx.trans (by decide +kernel)⟩

end SrirachOS
