import SrirachOS.Console.Cells

/-!
# Backspace

`_backspace` goes back one cell, echoes a space and goes back again. On the tape of the displayed
terminal it undoes `key_putc`; the rows that the echo has scrolled the screen by stay scrolled.

- `keyPutcs_writesOnly`, `backspaces_writesOnly`: any number of characters and of backspaces,
- `keyPutcs_backspaces`: as many backspaces as characters,
- `backspace_undoes`: one character, and a line of them.
-/

namespace SrirachOS

open Foundation

/-- Characters are echoed. -/
def Display.keyPutcs (cs : List UInt8) (d : Display) : Display :=
  cs.foldl (fun d c => d.keyPutc c) d

theorem keyPutcs_snoc (cs : List UInt8) (c : UInt8) (d : Display) :
    d.keyPutcs (cs ++ [c]) = (d.keyPutcs cs).keyPutc c :=
  List.foldl_concat ..

/-- The character of cell `i` after `rows` rows have been scrolled away. -/
def Display.scrolledChar (d : Display) (t : Int) (rows i : Nat) : UInt8 :=
  if i + 80 * rows < 2000 then d.charAt t (i + 80 * rows) else 32

/-- The characters are written on the screen of the displayed terminal. -/
theorem keyPutcs_writesOnly {d : Display} {s : Screen} (h : ShowsAt d d.activeTerminal s)
    (cs : List UInt8) :
    WritesOnly d.activeTerminal (s.writes d.textColor cs) d (d.keyPutcs cs) := by
  induction cs using List.reverseRecOn with
  | nil => exact WritesOnly.refl h
  | append_singleton cs c ih =>
    -- the induction is on the last character: the screen so far is what it is written to
    have hshown : ShowsAt (d.keyPutcs cs) (d.keyPutcs cs).activeTerminal
        (s.writes d.textColor cs) := by
      rw [ih.active]
      exact ih.showsAt
    have hnext := keyPutc_writesOnly hshown c
    rw [ih.active, ih.color] at hnext
    rw [keyPutcs_snoc, Screen.writes_snoc]
    exact ih.trans hnext

/-- The backspaces take characters of the same screen back. -/
theorem backspaces_writesOnly {d : Display} {s : Screen} (h : ShowsAt d d.activeTerminal s)
    (n : Nat) :
    WritesOnly d.activeTerminal ((fun s : Screen => s.erase d.textColor)^[n] s) d
      (Display.backspace^[n] d) := by
  induction n with
  | zero => exact WritesOnly.refl h
  | succ n ih =>
    -- the terminal that is displayed stays the same, so that each backspace finds the screen
    -- before it
    have hshown : ShowsAt (Display.backspace^[n] d) (Display.backspace^[n] d).activeTerminal
        ((fun s : Screen => s.erase d.textColor)^[n] s) := by
      rw [ih.active]
      exact ih.showsAt
    have hnext := backspace_writesOnly hshown
    rw [ih.active, ih.color] at hnext
    rw [Function.iterate_succ_apply', Function.iterate_succ_apply']
    exact ih.trans hnext

/-- **As many backspaces as characters**, while the start of the line is on the screen. -/
theorem keyPutcs_backspaces {d : Display}
    (hcursor : OnScreen (d.xCursor d.activeTerminal) (d.yCursor d.activeTerminal)) {cs : List UInt8}
    (hcs : ∀ c ∈ cs, ¬ EndsRow c)
    (hroom : 80 * rowsUp (d.pos d.activeTerminal).toNat cs.length ≤ (d.pos d.activeTerminal).toNat) :
    let t := d.activeTerminal
    let d' := Display.backspace^[cs.length] (d.keyPutcs cs)
    let rows := rowsUp (d.pos t).toNat cs.length
    d'.pos t = d.pos t - 80 * rows ∧
      ∀ i : Nat, i < 2000 → d'.charAt t i =
        if d'.pos t ≤ i ∧ i < d'.pos t + cs.length then 32 else d.scrolledChar t rows i := by
  intro t d' rows
  -- the terminal is a screen, and the two loops are `writes` and `erase` on it
  obtain ⟨s, hs⟩ := exists_showsAt hcursor
  have hstart : (d.pos t).toNat = s.pos := by
    rw [hs.pos_eq]
    rfl
  have hrows : rows = rowsUp s.pos cs.length := congrArg (rowsUp · cs.length) hstart
  change 80 * rows ≤ (d.pos t).toNat at hroom
  rw [hstart] at hroom
  have hwrites := keyPutcs_writesOnly hs cs
  have hshown : ShowsAt (d.keyPutcs cs) (d.keyPutcs cs).activeTerminal
      (s.writes d.textColor cs) := by
    rw [hwrites.active]
    exact hwrites.showsAt
  have hundone := backspaces_writesOnly hshown cs.length
  rw [hwrites.active, hwrites.color] at hundone
  obtain ⟨hpos, hcell⟩ := Screen.writes_tape d.textColor hcs s
  rw [← hrows] at hpos hcell
  obtain ⟨hpos', hcell'⟩ := Screen.erases_cells d.textColor (s.writes d.textColor cs)
    (n := cs.length) (by omega)
  -- what the characters have advanced the cursor by, the backspaces take back, rows scrolled away
  -- apart
  have hd' : d'.pos t = ((s.pos - 80 * rows : Nat) : Int) := by
    rw [hundone.showsAt.pos_eq, hpos']
    omega
  have hbefore := s.pos_lt
  rw [hs.pos_eq]
  refine ⟨by omega, fun i hi => ?_⟩
  -- the line is blank, and around it the tape is as it was
  rw [hundone.showsAt.charAt_eq hi, hcell' i hi]
  by_cases hline : d'.pos t ≤ i ∧ i < d'.pos t + cs.length
  · rw [if_pos hline, if_pos (by omega)]
  · rw [if_neg hline, if_neg (by omega), hcell i hi]
    unfold overwrite Screen.tape Display.scrolledChar
    rw [if_neg (by omega)]
    by_cases hin : i + 80 * rows < 2000
    · rw [if_pos hin, if_pos hin, hs.charAt_eq hin]
    · rw [if_neg hin, if_neg hin]

/-- One character scrolls the screen from the last cell. -/
theorem rowsUp_one {p : Int} (h0 : 0 ≤ p) (hlt : p < 2000) :
    rowsUp p.toNat 1 = if p = 1999 then 1 else 0 := by
  unfold rowsUp
  split <;> omega

/-- **Backspace undoes typing**: a character that ends no row and a backspace leave the cursor of the
displayed terminal on the cell of the character, which is blank, and the other cells as they were; all
of it is a row higher if the character was written to the last cell. So does a line of up to 127
characters with as many backspaces, which may have scrolled the screen by more rows. -/
theorem backspace_undoes (d : Display)
    (hcursor : OnScreen (d.xCursor d.activeTerminal) (d.yCursor d.activeTerminal)) :
    let t := d.activeTerminal
    (∀ c, ¬ EndsRow c →
      let d' := (d.keyPutc c).backspace
      let rows : Nat := if d.pos t = 1999 then 1 else 0
      d'.pos t = d.pos t - 80 * rows ∧
        ∀ i : Nat, i < 2000 → d'.charAt t i =
          if (i : Int) = d'.pos t then 32 else d.scrolledChar t rows i) ∧
    ∀ cs : List UInt8, (∀ c ∈ cs, ¬ EndsRow c) → cs.length ≤ 127 →
      let d' := Display.backspace^[cs.length] (d.keyPutcs cs)
      let rows := rowsUp (d.pos t).toNat cs.length
      d'.pos t = d.pos t - 80 * rows ∧
        ∀ i : Nat, i < 2000 → d'.charAt t i =
          if d'.pos t ≤ i ∧ i < d'.pos t + cs.length then 32 else d.scrolledChar t rows i := by
  intro t
  have hrange : 0 ≤ d.pos t ∧ d.pos t < 2000 := by
    obtain ⟨hx0, hx, hy0, hy⟩ := hcursor
    change 0 ≤ 80 * d.yCursor d.activeTerminal + d.xCursor d.activeTerminal ∧
      80 * d.yCursor d.activeTerminal + d.xCursor d.activeTerminal < 2000
    omega
  -- a line that ends below the screen starts in one of its last rows
  have hline : ∀ n, n ≤ 127 → 80 * rowsUp (d.pos t).toNat n ≤ (d.pos t).toNat := by
    intro n hn
    unfold rowsUp
    omega
  constructor
  · -- one character is a line of length 1
    intro c hc d' rows
    obtain ⟨hpos, hcell⟩ := keyPutcs_backspaces hcursor (List.forall_mem_singleton.mpr hc)
      (hline 1 (by decide))
    have hone : rowsUp (d.pos t).toNat 1 = rows := rowsUp_one hrange.1 hrange.2
    change d'.pos t = d.pos t - 80 * (rowsUp (d.pos t).toNat 1 : Nat) at hpos
    change ∀ i : Nat, i < 2000 → d'.charAt t i =
      if d'.pos t ≤ i ∧ (i : Int) < d'.pos t + 1 then 32
      else d.scrolledChar t (rowsUp (d.pos t).toNat 1) i at hcell
    rw [hone] at hpos hcell
    exact ⟨hpos, fun i hi => (hcell i hi).trans (if_congr (by omega) rfl rfl)⟩
  · intro cs hcs hlen
    exact keyPutcs_backspaces hcursor hcs (hline cs.length hlen)

/-- A display whose cursor is on its last cell, and a character that scrolls it. -/
theorem backspace_undoes_last :
    let d : Display := { sampleDisplay with xCursor := fun _ => 79, yCursor := fun _ => 24 }
    (d.keyPutc 65).backspace.pos 0 = 1919 ∧ (d.keyPutc 65).backspace.charAt 0 1919 = 32 := by
  intro d
  obtain ⟨hone, -⟩ := backspace_undoes d ⟨by decide, by decide, by decide, by decide⟩
  obtain ⟨hpos, hcell⟩ := hone 65 (by decide)
  have hrows : d.pos d.activeTerminal = 1999 := by decide
  rw [if_pos hrows, hrows] at hpos
  exact ⟨hpos, (hcell 1919 (by decide)).trans (if_pos (by rw [hpos]; decide))⟩

end SrirachOS
