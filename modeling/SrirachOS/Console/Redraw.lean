import SrirachOS.Console.Cells

/-!
# Ctrl+L

`my_clear` blanks the video page and takes `screen_x` and `screen_y` to the top left. The line is
then printed with `my_puts`, at the cursor of the running process's terminal, which neither of the two
is.

- `clearCells_apply`, `myClear_content`: what `my_clear` does to the terminals,
- `Screen.writes_notEnds`, `Screen.writes_lastRow`: what else a text leaves on a screen,
- `Redrawn`: the line, and nothing else, is at the top left,
- `redrawn_iff`: when it is.
-/

namespace SrirachOS

open Foundation Kernel

/-! ## Clearing -/

/-- The cells from the `i`-th on are blanked, in the colour in use. -/
theorem clearCells_apply (color : UInt8) (turns i : Nat) (mem : Nat → UInt8) (a : Nat) :
    Display.clearCells color turns i mem a =
      if videoMem + 2 * i ≤ a ∧ a < videoMem + 2 * (i + turns) then
        if (a - videoMem) % 2 = 0 then 32 else color
      else mem a := by
  induction turns generalizing i mem with
  | zero =>
    rw [if_neg (by omega)]
    rfl
  | succ turns ih =>
    rw [Display.clearCells, ih]
    -- a later turn, or one of the two bytes of this one
    by_cases hlater : videoMem + 2 * (i + 1) ≤ a ∧ a < videoMem + 2 * (i + 1 + turns)
    · have hin : videoMem + 2 * i ≤ a ∧ a < videoMem + 2 * (i + (turns + 1)) := by omega
      rw [if_pos hlater, if_pos hin]
    · rw [if_neg hlater, Function.update_apply, Function.update_apply]
      by_cases hcolor : a = videoMem + 2 * i + 1
      · rw [if_pos hcolor, if_pos (by omega), if_neg (by omega)]
      · rw [if_neg hcolor]
        by_cases hchar : a = videoMem + 2 * i
        · rw [if_pos hchar, if_pos (by omega), if_pos (by omega)]
        · rw [if_neg hchar, if_neg (by omega)]

theorem myClear_mem (d : Display) :
    d.myClear.mem = Display.clearCells d.textColor 2000 0 d.mem := by
  unfold Display.myClear
  -- the 2000 turns are not to be computed
  generalize Display.clearCells d.textColor 2000 0 d.mem = mem
  rfl

theorem myClear_activeTerminal (d : Display) : d.myClear.activeTerminal = d.activeTerminal := by
  simp only [Display.myClear, Display.updateCursor]

theorem content_apply (d : Display) (t : Int) (i : Nat) :
    d.content t i = d.mem (screenOf d.activeTerminal t + i) := rfl

theorem myClear_content (d : Display) (t : Int) (i : Nat) :
    d.myClear.content t i =
      Display.clearCells d.textColor 2000 0 d.mem (screenOf d.activeTerminal t + i) := by
  rw [content_apply, myClear_mem, myClear_activeTerminal]

theorem myClear_pos (d : Display) (t : Int) : d.myClear.pos t = d.pos t := by
  simp only [Display.pos, Display.myClear, Display.updateCursor]

/-- The page of the displayed terminal is blank. -/
theorem myClear_charAt (d : Display) {i : Nat} (hi : i < 2000) :
    d.myClear.charAt d.activeTerminal i = 32 := by
  unfold Display.charAt
  rw [myClear_content, screenOf_active, clearCells_apply, if_pos (by omega), if_pos (by omega)]

/-- The other terminals stay as they are. -/
theorem myClear_others {d : Display} (ha : 0 ≤ d.activeTerminal ∧ d.activeTerminal < 3) {t : Int}
    (h0 : 0 ≤ t) (h3 : t < 3) (hne : t ≠ d.activeTerminal) : SameTerminal t d d.myClear := by
  refine ⟨fun i hi => ?_, rfl, rfl⟩
  have hapart := screenOf_apart d.activeTerminal ha.1 ha.2 h0 h3 (Ne.symm hne)
  rw [screenOf_active] at hapart
  -- only the video page is stored to, which is apart from the other terminals' pages
  rw [myClear_content, clearCells_apply, if_neg (by omega)]
  rfl

/-! ## What a text leaves on a screen -/

namespace Screen

/-- Newline and carriage return are not shown. -/
theorem writes_notEnds (color : UInt8) (cs : List UInt8) {s : Screen}
    (h : ∀ i, i < 2000 → ¬ EndsRow (s.cell i)) :
    ∀ i, i < 2000 → ¬ EndsRow ((s.writes color cs).cell i) := by
  induction cs using List.reverseRecOn with
  | nil => exact h
  | append_singleton cs c ih =>
    intro i hi
    -- what a row that comes in holds
    have hblank : ¬ EndsRow 32 := by decide
    rw [writes_snoc]
    by_cases hc : EndsRow c
    · rw [write_of_ends color hc, (newline_cells _).2 i hi]
      split_ifs
      · exact ih i hi
      · exact ih _ (by omega)
      · exact hblank
    · rw [(write_cells color hc _).2 i hi]
      split_ifs
      · exact hc
      · exact ih _ (by omega)
      · exact hblank
      · exact hc
      · exact ih i hi

theorem rowOf_lt {i : Nat} (h : i < 2000) : i / 80 < 25 := by omega

theorem colOf_lt (i : Nat) : i % 80 < 80 := by omega

/-- The colours of the cells, row by row. -/
def colour (s : Screen) (i : Nat) : UInt8 :=
  if h : i < 2000 then s.attr ⟨i / 80, rowOf_lt h⟩ ⟨i % 80, colOf_lt i⟩ else 0

/-- The colours do not scroll. -/
theorem write_colour (color : UInt8) {c : UInt8} (hc : ¬ EndsRow c) (s : Screen) {i : Nat}
    (hi : i < 2000) : (s.write color c).colour i = if i = s.pos then color else s.colour i := by
  -- scrolling copies the characters, and leaves the colour bytes where they are
  have hattr : (s.write color c).attr = (s.store color c).attr := by
    rw [write_of_shown color hc]
    unfold advance newline scrolled
    split_ifs <;> rfl
  have hsame : (⟨i / 80, rowOf_lt hi⟩ : Fin 25) = s.row ∧ (⟨i % 80, colOf_lt i⟩ : Fin 80) = s.col ↔
      i = s.pos := by
    unfold pos
    rw [Fin.ext_iff, Fin.ext_iff]
    dsimp only
    omega
  unfold colour
  rw [dif_pos hi, dif_pos hi, hattr]
  exact if_congr hsame rfl rfl

/-- Up to 80 characters that are written in the last row stay there, scrolling the screen when it is
full. -/
theorem writes_lastRow (color : UInt8) {cs : List UInt8} (hcs : ∀ c ∈ cs, ¬ EndsRow c) {s : Screen}
    (hrow : 1920 ≤ s.pos) (hlen : cs.length ≤ 80) :
    (s.writes color cs).pos = 1920 + (s.pos - 1920 + cs.length) % 80 ∧
      ∀ i, i < 2000 → (s.writes color cs).colour i =
        if 1920 ≤ i ∧ (i + 80 - s.pos) % 80 < cs.length then color else s.colour i := by
  have hlt := s.pos_lt
  induction cs using List.reverseRecOn with
  | nil =>
    rw [List.length_nil]
    refine ⟨?_, fun i _ => (if_neg (by omega)).symm⟩
    change s.pos = _
    omega
  | append_singleton cs c ih =>
    rw [List.length_append, List.length_singleton] at hlen
    obtain ⟨hpos, hcolour⟩ := ih (fun b hb => hcs b (by simp [hb])) (by omega)
    -- the induction is on the last character; the column goes around modulo 80
    have hc : ¬ EndsRow c := hcs c (by simp)
    rw [writes_snoc, (write_cells color hc _).1, List.length_append, List.length_singleton]
    refine ⟨by split <;> omega, fun i hi => ?_⟩
    rw [write_colour color hc _ hi, hcolour i hi]
    by_cases hhere : i = (s.writes color cs).pos
    · rw [if_pos hhere, if_pos (by omega)]
    · rw [if_neg hhere]
      exact if_congr (by omega) rfl rfl

end Screen

/-! ## Terminals that stay as they are -/

theorem SameTerminal.trans {t : Int} {d d' d'' : Display} (h : SameTerminal t d d')
    (h' : SameTerminal t d' d'') : SameTerminal t d d'' :=
  ⟨fun i hi => (h'.content i hi).trans (h.content i hi), h'.xCursor.trans h.xCursor,
    h'.yCursor.trans h.yCursor⟩

theorem SameTerminal.symm {t : Int} {d d' : Display} (h : SameTerminal t d d') :
    SameTerminal t d' d :=
  ⟨fun i hi => (h.content i hi).symm, h.xCursor.symm, h.yCursor.symm⟩

theorem ShowsAt.colour_eq {d : Display} {t : Int} {s : Screen} (h : ShowsAt d t s) {i : Nat}
    (hi : i < 2000) : d.content t (2 * i + 1) = s.colour i := by
  have hattr := h.attr ⟨i / 80, by omega⟩ ⟨i % 80, by omega⟩
  have hindex : 80 * (i / 80) + i % 80 = i := Nat.div_add_mod i 80
  dsimp only at hattr
  rw [hindex] at hattr
  unfold Display.content Screen.colour
  rw [dif_pos hi]
  exact hattr

/-- A terminal that is written to stays as it is when its screen does. -/
theorem WritesOnly.same_iff {d d' : Display} {t : Int} {s s' : Screen} (h : WritesOnly t s' d d')
    (hs : ShowsAt d t s) :
    SameTerminal t d d' ↔ s'.pos = s.pos ∧ (∀ i, i < 2000 → s'.cell i = s.cell i) ∧
      ∀ i, i < 2000 → s'.colour i = s.colour i := by
  have hs' := h.showsAt
  constructor
  · intro hsame
    refine ⟨?_, fun i hi => ?_, fun i hi => ?_⟩
    · have hpos : d'.pos t = d.pos t := by
        unfold Display.pos
        rw [hsame.xCursor, hsame.yCursor]
      rw [hs'.pos_eq, hs.pos_eq] at hpos
      exact Int.ofNat_inj.mp hpos
    · rw [← hs'.charAt_eq hi, ← hs.charAt_eq hi]
      exact hsame.content _ (by omega)
    · rw [← hs'.colour_eq hi, ← hs.colour_eq hi]
      exact hsame.content _ (by omega)
  · rintro ⟨hpos, hcell, hcolour⟩
    -- a position determines row and column
    have hcursor : s'.col.val = s.col.val ∧ s'.row.val = s.row.val := by
      unfold Screen.pos at hpos
      omega
    refine ⟨fun i hi => ?_, ?_, ?_⟩
    · by_cases hpage : i < 4000
      · -- characters and colours take turns
        obtain heven | hodd : i = 2 * (i / 2) ∨ i = 2 * (i / 2) + 1 := by omega
        · rw [heven]
          have hsame := hcell (i / 2) (by omega)
          rwa [← hs'.charAt_eq (by omega), ← hs.charAt_eq (by omega)] at hsame
        · rw [hodd]
          have hsame := hcolour (i / 2) (by omega)
          rwa [← hs'.colour_eq (by omega), ← hs.colour_eq (by omega)] at hsame
      · unfold Display.content
        rw [h.active]
        exact h.outside _ (.inr (by omega))
    · rw [hs'.col, hs.col, hcursor.1]
    · rw [hs'.row, hs.row, hcursor.2]

/-! ## The redraw -/

/-- The line stands at the top left of the displayed terminal with the cursor behind it, the rest of
the screen is blank, and the other terminals are as they were. -/
structure Redrawn (k : Console) (d : Display) : Prop where
  displayed : d.activeTerminal = k.activeTerminal
  cells : ∀ i, i < 2000 → d.charAt k.activeTerminal i = k.line.getD i 32
  cursor : d.pos k.activeTerminal = k.line.length
  others : ∀ t, 0 ≤ t → t < 3 → t ≠ k.activeTerminal → SameTerminal t k.toDisplay d

/-- The process of another terminal prints a line of 80 spaces in the last row of its blank screen:
it scrolls by one row, and nothing is seen of it. -/
structure SpacesUnseen (k : Console) : Prop where
  elsewhere : k.processNum k.mainProcess ≠ k.activeTerminal
  line : k.line = List.replicate 80 32
  cursor : k.pos k.activeTerminal = 80
  lastRow : 1920 ≤ k.pos (k.processNum k.mainProcess)
  blank : ∀ i, i < 2000 → k.charAt (k.processNum k.mainProcess) i = 32
  colour : ∀ i, 1920 ≤ i → i < 2000 →
    k.content (k.processNum k.mainProcess) (2 * i + 1) = k.textColor

/-- What Ctrl+L does to the display. -/
theorem display_ctrlL {k : Console} (hctl : k.pressedFlags 0x1D ≠ 0) (img : Image)
    (entered : Bool) :
    (k.keyboardHandler img entered 0x26).toDisplay = k.toDisplay.myClear.myPuts k.line := by
  have hget : k.loadIdx.getChar img entered 0x26 = (some dontPrint,
      { k.loadIdx.raiseFlag 0x26 with toDisplay := k.toDisplay.myClear.myPuts k.line }) := by
    have hheld : (k.loadIdx.raiseFlag 0x26).pressedFlags 0x1D ≠ 0 := by
      change Function.update k.pressedFlags (0x26 : UInt8).toNat 1 0x1D ≠ 0
      rwa [Function.update_of_ne (by decide)]
    unfold Console.getChar Console.pressed
    rw [if_pos (by decide), if_neg (by decide), if_pos ⟨hheld, rfl⟩]
    rfl
  exact display_unprinted hget

/-- **The running process writes to the displayed terminal**: the line is printed from the cursor
on. -/
theorem printed_own {d : Display} (h0 : 0 ≤ d.processNum d.mainProcess) {s : Screen}
    (hs : ShowsAt d (d.processNum d.mainProcess) s) (hblank : ∀ i, i < 2000 → s.cell i = 32)
    {line : List UInt8} (hlen : line.length ≤ 127) :
    ((∀ i, i < 2000 → (d.myPuts line).charAt (d.processNum d.mainProcess) i = line.getD i 32) ∧
      (d.myPuts line).pos (d.processNum d.mainProcess) = line.length) ↔
      s.pos = 0 ∧ ∀ c ∈ line, ¬ EndsRow c := by
  have hwrites := (myPuts_writesOnly h0 hs line).showsAt
  have hlt := s.pos_lt
  rw [hwrites.pos_eq]
  constructor
  · rintro ⟨hcells, hpos⟩
    -- a character that ends a row would have to be seen in the cell of its index
    have hprint : ∀ c ∈ line, ¬ EndsRow c := by
      intro c hc hends
      obtain ⟨j, hj, rfl⟩ := List.getElem_of_mem hc
      have hshown := hcells j (by omega)
      rw [List.getD_eq_getElem _ _ hj, hwrites.charAt_eq (by omega)] at hshown
      apply s.writes_notEnds d.textColor line (fun i hi => ?_) j (by omega)
      · rwa [hshown]
      · rw [hblank i hi]
        decide
    obtain ⟨hend, -⟩ := s.writes_tape d.textColor hprint
    refine ⟨?_, hprint⟩
    -- a line is too short to scroll a cursor to the top
    unfold rowsUp at hend
    omega
  · rintro ⟨hstart, hprint⟩
    obtain ⟨hend, hcell⟩ := s.writes_tape d.textColor hprint
    -- from the top left a line of 127 characters does not scroll
    have hrows : rowsUp s.pos line.length = 0 := by
      unfold rowsUp
      omega
    rw [hrows] at hend hcell
    refine ⟨fun i hi => ?_, by omega⟩
    rw [hwrites.charAt_eq hi, hcell i hi, hstart]
    unfold overwrite Screen.tape
    by_cases hin : i < line.length
    · rw [if_pos (by omega), List.getD_eq_getElem _ _ (by omega), List.getD_eq_getElem _ _ hin]
      rfl
    · rw [if_neg (by omega), if_pos (by omega), hblank _ (by omega),
        List.getD_eq_default _ _ (by omega)]

/-- Spaces that are written over a tape. -/
theorem overwrite_spaces (p n : Nat) (tape : Nat → UInt8) (j : Nat) :
    overwrite p (List.replicate n 32) tape j = if p ≤ j ∧ j < p + n then 32 else tape j := by
  unfold overwrite
  rw [List.length_replicate]
  split
  · rw [List.getD_eq_getElem _ _ (by simp; omega), List.getElem_replicate]
  · rfl

/-- A screen on which each row is like the one below, and the last one blank, is blank. -/
theorem Screen.blank_of_rows {s : Screen}
    (h : ∀ i, i < 2000 → s.cell i = 32 ∨ i + 80 < 2000 ∧ s.cell i = s.cell (i + 80)) :
    ∀ i, i < 2000 → s.cell i = 32 := by
  -- from the bottom up: the induction is on the number of rows below
  have hup : ∀ rows i, i < 2000 → 2000 ≤ i + 80 * rows → s.cell i = 32 := by
    intro rows
    induction rows with
    | zero =>
      intro i hi hge
      omega
    | succ rows ih =>
      intro i hi hge
      rcases h i hi with hblank | ⟨hbelow, hsame⟩
      · exact hblank
      · exact hsame.trans (ih (i + 80) hbelow (by omega))
  exact fun i hi => hup 25 i hi (by omega)

/-- **The running process belongs to another terminal**: spaces can be printed without a trace
there, if they fill one row and the screen is blank. -/
theorem printed_elsewhere {s : Screen} (color : UInt8) {n : Nat} (hpos : 0 < n) (hlen : n ≤ 127) :
    let s' := s.writes color (List.replicate n 32)
    (s'.pos = s.pos ∧ (∀ i, i < 2000 → s'.cell i = s.cell i) ∧
      ∀ i, i < 2000 → s'.colour i = s.colour i) ↔
      n = 80 ∧ 1920 ≤ s.pos ∧ (∀ i, i < 2000 → s.cell i = 32) ∧
        ∀ i, 1920 ≤ i → i < 2000 → s.colour i = color := by
  intro s'
  have hlt := s.pos_lt
  have hprint : ∀ c ∈ List.replicate n (32 : UInt8), ¬ EndsRow c := by
    intro c hc
    rw [List.eq_of_mem_replicate hc]
    decide
  obtain ⟨hend, hcell⟩ := s.writes_tape color hprint
  simp only [List.length_replicate, overwrite_spaces, Screen.tape] at hend hcell
  change s'.pos + 80 * rowsUp s.pos n = s.pos + n at hend
  change ∀ i, i < 2000 → s'.cell i = _ at hcell
  constructor
  · rintro ⟨hsame, hcells, hcolours⟩
    -- the cursor comes back to its place only if the screen has been scrolled by the row printed
    have hrow : n = 80 ∧ 1920 ≤ s.pos := by
      unfold rowsUp at hend
      omega
    have hone : rowsUp s.pos n = 1 := by
      unfold rowsUp
      omega
    obtain ⟨-, hcolour⟩ := s.writes_lastRow color hprint hrow.2 (by simp; omega)
    refine ⟨hrow.1, hrow.2, Screen.blank_of_rows fun i hi => ?_, fun i hi hi' => ?_⟩
    · rw [← hcells i hi, hcell i hi, hone]
      split_ifs with hspace hin
      · exact .inl rfl
      · exact .inr ⟨hin, rfl⟩
      · exact .inl rfl
    · rw [← hcolours i hi']
      change (s.writes color (List.replicate n 32)).colour i = color
      rw [hcolour i hi', List.length_replicate, if_pos (by omega)]
  · rintro ⟨hn, hrow, hblank, hcolours⟩
    have hone : rowsUp s.pos n = 1 := by
      unfold rowsUp
      omega
    obtain ⟨-, hcolour⟩ := s.writes_lastRow color hprint hrow (by simp; omega)
    rw [hone] at hend hcell
    refine ⟨by omega, fun i hi => ?_, fun i hi => ?_⟩
    · rw [hcell i hi, hblank i hi]
      split_ifs with hspace hin
      · rfl
      · exact hblank _ hin
      · rfl
    · change (s.writes color (List.replicate n 32)).colour i = s.colour i
      rw [hcolour i hi]
      split
      · exact (hcolours i (by omega) hi).symm
      · rfl

theorem SameTerminal.pos_eq {t : Int} {d d' : Display} (h : SameTerminal t d d') :
    d'.pos t = d.pos t := by
  unfold Display.pos
  rw [h.xCursor, h.yCursor]

theorem SameTerminal.charAt_eq {t : Int} {d d' : Display} (h : SameTerminal t d d') {i : Nat}
    (hi : i < 2000) : d'.charAt t i = d.charAt t i :=
  h.content _ (by omega)

section Running

variable {k : Console}

theorem Usable.line_length (h : Usable k) : k.line.length ≤ 127 := by
  unfold Console.line
  rw [length_bufText]
  exact (h.typing.text k.activeTerminal).1

theorem Usable.onScreen (h : Usable k) {t : Int} (h0 : 0 ≤ t) (h3 : t < 3) :
    OnScreen (k.xCursor t) (k.yCursor t) := by
  obtain ⟨⟨hx0, hx⟩, hy0, hy⟩ := h.cursors t h0 h3
  exact ⟨hx0, hx, hy0, hy⟩

/-- The terminals besides the running process's and the displayed one stay as they are. -/
theorem redraw_others (ha : 0 ≤ k.activeTerminal ∧ k.activeTerminal < 3)
    (hlive : 0 ≤ k.processNum k.mainProcess ∧ k.processNum k.mainProcess < 3) {s : Screen}
    (hs : ShowsAt k.toDisplay.myClear (k.processNum k.mainProcess) s) {t : Int} (h0 : 0 ≤ t)
    (h3 : t < 3) (hdisplayed : t ≠ k.activeTerminal) (hne : t ≠ k.processNum k.mainProcess) :
    SameTerminal t k.toDisplay (k.toDisplay.myClear.myPuts k.line) :=
  (myClear_others ha h0 h3 hdisplayed).trans
    ((myPuts_writesOnly (d := k.toDisplay.myClear) hlive.1 hs k.line).others hlive.1 hlive.2 h0 h3
      hne)

/-- A process of the displayed terminal. -/
theorem redrawn_own (h : Usable k)
    (hlive : 0 ≤ k.processNum k.mainProcess ∧ k.processNum k.mainProcess < 3)
    (hown : k.processNum k.mainProcess = k.activeTerminal) :
    Redrawn k (k.toDisplay.myClear.myPuts k.line) ↔
      k.pos k.activeTerminal = 0 ∧ ∀ c ∈ k.line, ¬ EndsRow c := by
  have ha := h.typing.active
  obtain ⟨s, hs⟩ := exists_showsAt (d := k.toDisplay.myClear) (h.onScreen hlive.1 hlive.2)
  -- the page that the line is printed to is the one that has been cleared
  have hblank : ∀ i, i < 2000 → s.cell i = 32 := by
    intro i hi
    rw [← hs.charAt_eq hi, hown]
    exact myClear_charAt k.toDisplay hi
  have hlen := h.line_length
  have hstart : k.pos k.activeTerminal = 0 ↔ s.pos = 0 := by
    have hpos : k.pos (k.processNum k.mainProcess) = s.pos := hs.pos_eq
    rw [← hown, hpos]
    omega
  have hprinted := printed_own (d := k.toDisplay.myClear) hlive.1 hs hblank hlen
  change ((∀ i, i < 2000 → (k.toDisplay.myClear.myPuts k.line).charAt
    (k.processNum k.mainProcess) i = _) ∧ (k.toDisplay.myClear.myPuts k.line).pos
      (k.processNum k.mainProcess) = _) ↔ _ at hprinted
  rw [hown] at hprinted
  rw [hstart, ← hprinted]
  constructor
  · intro hredrawn
    exact ⟨hredrawn.cells, hredrawn.cursor⟩
  · rintro ⟨hcells, hpos⟩
    exact ⟨(myPuts_writesOnly (d := k.toDisplay.myClear) hlive.1 hs k.line).active, hcells, hpos,
      fun t h0 h3 hne => redraw_others ha hlive hs h0 h3 hne (by rwa [hown])⟩

/-- A process of another terminal prints the line there: the displayed terminal is blank then, and its
cursor is where it was. -/
theorem redrawn_iff_unseen (h : Usable k)
    (hlive : 0 ≤ k.processNum k.mainProcess ∧ k.processNum k.mainProcess < 3)
    (hne : k.processNum k.mainProcess ≠ k.activeTerminal) :
    Redrawn k (k.toDisplay.myClear.myPuts k.line) ↔
      k.line = List.replicate k.line.length 32 ∧ k.pos k.activeTerminal = k.line.length ∧
        SameTerminal (k.processNum k.mainProcess) k.toDisplay
          (k.toDisplay.myClear.myPuts k.line) := by
  have ha := h.typing.active
  obtain ⟨s, hs⟩ := exists_showsAt (d := k.toDisplay.myClear) (h.onScreen hlive.1 hlive.2)
  have hwrites : WritesOnly (k.processNum k.mainProcess) (s.writes k.textColor k.line)
      k.toDisplay.myClear (k.toDisplay.myClear.myPuts k.line) :=
    myPuts_writesOnly (d := k.toDisplay.myClear) hlive.1 hs k.line
  -- the line goes to another page
  have hstays : SameTerminal k.activeTerminal k.toDisplay.myClear
      (k.toDisplay.myClear.myPuts k.line) :=
    hwrites.others hlive.1 hlive.2 ha.1 ha.2 (Ne.symm hne)
  have hcells : ∀ i, i < 2000 →
      (k.toDisplay.myClear.myPuts k.line).charAt k.activeTerminal i = 32 := fun i hi =>
    (hstays.charAt_eq hi).trans (myClear_charAt k.toDisplay hi)
  have hpos : (k.toDisplay.myClear.myPuts k.line).pos k.activeTerminal =
      k.pos k.activeTerminal := hstays.pos_eq
  have hlen := h.line_length
  constructor
  · intro hredrawn
    refine ⟨List.eq_replicate_iff.mpr ⟨rfl, fun c hc => ?_⟩, hpos.symm.trans hredrawn.cursor,
      hredrawn.others _ hlive.1 hlive.2 hne⟩
    -- only spaces look like what is shown
    obtain ⟨j, hj, rfl⟩ := List.getElem_of_mem hc
    have hcell := hredrawn.cells j (by omega)
    rw [hcells j (by omega), List.getD_eq_getElem _ _ hj] at hcell
    exact hcell.symm
  · rintro ⟨hline, hstart, hsame⟩
    refine ⟨hwrites.active, fun i hi => ?_, hpos.trans hstart, fun t h0 h3 hdisplayed => ?_⟩
    · rw [hcells i hi, hline]
      by_cases hin : i < k.line.length
      · rw [List.getD_eq_getElem _ _ (by simpa using hin), List.getElem_replicate]
      · rw [List.getD_eq_default _ _ (by simpa using hin)]
    · rcases eq_or_ne t (k.processNum k.mainProcess) with rfl | hother
      · exact hsame
      · exact redraw_others ha hlive hs h0 h3 hdisplayed hother

/-- On the terminal that the process belongs to, only 80 spaces leave no trace. -/
theorem unseen_iff (h : Usable k)
    (hlive : 0 ≤ k.processNum k.mainProcess ∧ k.processNum k.mainProcess < 3)
    (hne : k.processNum k.mainProcess ≠ k.activeTerminal) (hsome : 0 < k.line.length)
    (hline : k.line = List.replicate k.line.length 32) :
    SameTerminal (k.processNum k.mainProcess) k.toDisplay (k.toDisplay.myClear.myPuts k.line) ↔
      k.line.length = 80 ∧ 1920 ≤ k.pos (k.processNum k.mainProcess) ∧
        (∀ i, i < 2000 → k.charAt (k.processNum k.mainProcess) i = 32) ∧
        ∀ i, 1920 ≤ i → i < 2000 →
          k.content (k.processNum k.mainProcess) (2 * i + 1) = k.textColor := by
  have hclear := myClear_others h.typing.active hlive.1 hlive.2 hne
  obtain ⟨s, hs⟩ := exists_showsAt (d := k.toDisplay.myClear) (h.onScreen hlive.1 hlive.2)
  have hwrites : WritesOnly (k.processNum k.mainProcess) (s.writes k.textColor k.line)
      k.toDisplay.myClear (k.toDisplay.myClear.myPuts k.line) :=
    myPuts_writesOnly (d := k.toDisplay.myClear) hlive.1 hs k.line
  -- the clear has left the screen of the process alone
  have hcursor : k.pos (k.processNum k.mainProcess) = s.pos := hs.pos_eq
  have hcell : ∀ i, i < 2000 → k.charAt (k.processNum k.mainProcess) i = s.cell i := by
    intro i hi
    rw [← hs.charAt_eq hi]
    exact (hclear.charAt_eq hi).symm
  have hcolour : ∀ i, i < 2000 →
      k.content (k.processNum k.mainProcess) (2 * i + 1) = s.colour i := by
    intro i hi
    rw [← hs.colour_eq hi]
    exact (hclear.content _ (by omega)).symm
  have hsame : SameTerminal (k.processNum k.mainProcess) k.toDisplay
      (k.toDisplay.myClear.myPuts k.line) ↔
        SameTerminal (k.processNum k.mainProcess) k.toDisplay.myClear
          (k.toDisplay.myClear.myPuts k.line) := ⟨hclear.symm.trans, hclear.trans⟩
  have hprinted := printed_elsewhere (s := s) k.textColor hsome h.line_length
  rw [← hline] at hprinted
  dsimp only at hprinted
  rw [hsame, hwrites.same_iff hs, hprinted, hcursor]
  refine and_congr_right fun _ => and_congr (by omega) (and_congr ?_ ?_)
  · exact forall₂_congr fun i hi => by rw [hcell i hi]
  · exact forall₃_congr fun i _ hi => by rw [hcolour i hi]

/-- A process of another terminal. -/
theorem redrawn_elsewhere (h : Usable k)
    (hlive : 0 ≤ k.processNum k.mainProcess ∧ k.processNum k.mainProcess < 3)
    (hne : k.processNum k.mainProcess ≠ k.activeTerminal) :
    Redrawn k (k.toDisplay.myClear.myPuts k.line) ↔
      (k.pos k.activeTerminal = 0 ∧ k.line = []) ∨ SpacesUnseen k := by
  rw [redrawn_iff_unseen h hlive hne]
  rcases Nat.eq_zero_or_pos k.line.length with hzero | hsome
  · -- nothing is printed
    have hnil : k.line = [] := List.eq_nil_of_length_eq_zero hzero
    have hsame : SameTerminal (k.processNum k.mainProcess) k.toDisplay
        (k.toDisplay.myClear.myPuts k.line) := by
      rw [hnil]
      exact myClear_others h.typing.active hlive.1 hlive.2 hne
    rw [hzero]
    constructor
    · rintro ⟨-, hstart, -⟩
      exact .inl ⟨hstart, hnil⟩
    · rintro (⟨hstart, -⟩ | hunseen)
      · exact ⟨hnil, hstart, hsame⟩
      · rw [hunseen.line, List.length_replicate] at hzero
        omega
  · constructor
    · rintro ⟨hline, hstart, hsame⟩
      obtain ⟨heighty, hrow, hblank, hcolour⟩ := (unseen_iff h hlive hne hsome hline).mp hsame
      rw [heighty] at hline hstart
      exact .inr ⟨hne, hline, hstart, hrow, hblank, hcolour⟩
    · rintro (⟨-, hnil⟩ | hunseen)
      · rw [hnil, List.length_nil] at hsome
        omega
      · have heighty : k.line.length = 80 := by rw [hunseen.line, List.length_replicate]
        have hline : k.line = List.replicate k.line.length 32 := by
          rw [heighty]
          exact hunseen.line
        have hstart : k.pos k.activeTerminal = k.line.length := by
          rw [heighty]
          exact hunseen.cursor
        exact ⟨hline, hstart, (unseen_iff h hlive hne hsome hline).mpr
          ⟨heighty, hunseen.lastRow, hunseen.blank, hunseen.colour⟩⟩

/-- **Ctrl+L**: whichever process is running, the line of the displayed terminal is redrawn exactly
when the cursor of that terminal was at the top left, and there was no line or it is printed by a
process of that terminal; an accident apart. `my_clear` does not move the cursor that the line is
printed at, and the process need not be one of the displayed terminal. -/
theorem redrawn_iff (h : Usable k)
    (hlive : 0 ≤ k.processNum k.mainProcess ∧ k.processNum k.mainProcess < 3)
    (hctl : k.pressedFlags 0x1D ≠ 0) (img : Image) (entered : Bool) :
    Redrawn k (k.keyboardHandler img entered 0x26).toDisplay ↔
      k.pos k.activeTerminal = 0 ∧ (k.line = [] ∨
          k.processNum k.mainProcess = k.activeTerminal ∧ ∀ c ∈ k.line, ¬ EndsRow c) ∨
        SpacesUnseen k := by
  -- the line is printed to the terminal of the running process, so the cases are whether that is
  -- the displayed one
  rw [display_ctrlL hctl]
  by_cases hown : k.processNum k.mainProcess = k.activeTerminal
  · rw [redrawn_own h hlive hown]
    constructor
    · rintro ⟨hstart, hprint⟩
      exact .inl ⟨hstart, .inr ⟨hown, hprint⟩⟩
    · rintro (⟨hstart, hnil | ⟨-, hprint⟩⟩ | hunseen)
      · refine ⟨hstart, fun c hc => ?_⟩
        rw [hnil] at hc
        cases hc
      · exact ⟨hstart, hprint⟩
      · exact absurd hown hunseen.elsewhere
  · rw [redrawn_elsewhere h hlive hown]
    refine or_congr_left (and_congr_right fun _ => ?_)
    exact (or_iff_left fun hboth => hown hboth.1).symm

end Running

/-- The shell of the first terminal runs, and Ctrl is pressed. -/
def ctrlHeld : List ConsoleEvent :=
  [.display (.schedule (fun p => if p = 0 then 0 else -1) 0 fun _ => 0), .key ⟨0x1D, false⟩]

/-- Nothing has been written yet. -/
theorem redrawn_iff_sample :
    let k := run (consoleStep sampleImage) sampleConsole.init ctrlHeld
    Redrawn k (k.keyboardHandler sampleImage false 0x26).toDisplay := by
  intro k
  have husable : Usable k :=
    invariant_always (I := Usable) (fun k e h => h.step sampleImage e)
      (usable_init sampleConsole) ctrlHeld
  exact (redrawn_iff husable ⟨by decide +kernel, by decide +kernel⟩ (by decide +kernel) sampleImage
    false).mpr (.inl ⟨by decide +kernel, .inl (by decide +kernel)⟩)

/-- The shell has written a character, and the line is empty: after Ctrl+L the screen is blank, and
the cursor is where it was. -/
theorem cursor_not_reset :
    let k := run (consoleStep sampleImage) sampleConsole.init (ctrlHeld ++ [.display (.myPutc 62)])
    let d := (k.keyboardHandler sampleImage false 0x26).toDisplay
    k.line = [] ∧ d.pos d.activeTerminal = 1 ∧ ¬ Redrawn k d := by
  intro k d
  have hline : k.line = [] := by decide +kernel
  have hd : d = k.toDisplay.myClear.myPuts k.line :=
    display_ctrlL (by decide +kernel) sampleImage false
  rw [hline] at hd
  have hpos : d.pos k.activeTerminal = 1 := by
    have hkept : d.pos k.activeTerminal = k.pos k.activeTerminal := by
      rw [hd]
      exact myClear_pos k.toDisplay k.activeTerminal
    exact hkept.trans (by decide +kernel)
  have hactive : d.activeTerminal = k.activeTerminal := by
    rw [hd]
    exact myClear_activeTerminal k.toDisplay
  refine ⟨hline, by rw [hactive]; exact hpos, fun hredrawn => ?_⟩
  have hcursor := hredrawn.cursor
  rw [hpos, hline] at hcursor
  cases hcursor

end SrirachOS
