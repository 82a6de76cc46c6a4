import SrirachOS.Console.LineDiscipline
import SrirachOS.Console.LineSlot
import SrirachOS.Console.Multiplex

/-!
# The Echo

What is on the screen before the cursor while a line is typed. `key_putc` and `_backspace` write at
the cursor of the displayed terminal and move it; the completion writes with `putc`, at `screen_x`
and `screen_y`, and moves these alone.

- `Screen.before`: the cells before the cursor, as `write` and `erase` change them,
- `Types.echo`: what a key does to the display,
- `EchoAgrees`: the cells before the cursor are those before the line and the line,
- `echo_agrees_iff`: this lasts until a completion appends something.
-/

namespace SrirachOS

open Foundation Kernel

/-! ## The cells before the cursor -/

theorem drop_bufText (buf : Nat → UInt8) (m n : Nat) :
    (bufText buf (m + n)).drop m = bufText (fun i => buf (m + i)) n := by
  apply List.ext_getElem
  · simp
  · intro i h1 h2
    simp

namespace Screen

/-- The number of cells before the cursor. -/
def pos (s : Screen) : Nat := 80 * s.row.val + s.col.val

/-- The cells of the screen, row by row. -/
def cell (s : Screen) (i : Nat) : UInt8 :=
  if h : i < 2000 then s.char ⟨i / 80, by omega⟩ ⟨i % 80, by omega⟩ else 0

/-- The characters before the cursor. -/
def before (s : Screen) : List UInt8 := bufText s.cell s.pos

theorem pos_lt (s : Screen) : s.pos < 2000 := by
  unfold pos
  omega

theorem cell_store (color c : UInt8) (s : Screen) {i : Nat} (hi : i < 2000) :
    (s.store color c).cell i = if i = s.pos then c else s.cell i := by
  have hsame : (⟨i / 80, by omega⟩ : Fin 25) = s.row ∧ (⟨i % 80, by omega⟩ : Fin 80) = s.col ↔
      i = s.pos := by
    unfold pos
    rw [Fin.ext_iff, Fin.ext_iff]
    dsimp only
    omega
  unfold cell store
  rw [dif_pos hi, dif_pos hi]
  exact if_congr hsame rfl rfl

/-- The cells of the rows below move up. -/
theorem cell_scrolled (s : Screen) {i : Nat} (hi : i < 1920) : s.scrolled.cell i = s.cell (80 + i) := by
  have hrow : (80 + i) / 80 = i / 80 + 1 := by omega
  have hcol : (80 + i) % 80 = i % 80 := by omega
  unfold cell scrolled
  rw [dif_pos (by omega), dif_pos (by omega)]
  dsimp only
  rw [dif_pos (by omega)]
  congr 1
  · exact Fin.ext hrow.symm
  · exact Fin.ext hcol.symm

/-- The character under the cursor, behind the others. -/
theorem before_store (color c : UInt8) (s : Screen) :
    bufText (s.store color c).cell (s.pos + 1) = s.before ++ [c] := by
  have hlt := s.pos_lt
  rw [bufText_succ, cell_store color c s hlt, if_pos rfl]
  refine congrArg (· ++ [c]) (bufText_congr fun i hi => ?_)
  rw [cell_store color c s (by omega), if_neg (by omega)]

/-- **A character is written**: behind the others, and from the last cell the screen scrolls. -/
theorem before_write (color : UInt8) {c : UInt8} (hc : ¬ (c = 10 ∨ c = 13)) (s : Screen) :
    (s.write color c).before =
      if s.pos = 1999 then (s.before ++ [c]).drop 80 else s.before ++ [c] := by
  have hstore := before_store color c s
  have hcol := s.col.isLt
  have hrow := s.row.isLt
  unfold write
  rw [if_neg hc, ← hstore]
  unfold advance
  -- the cursor stays in its row, or goes to the next one
  by_cases hroom : (s.store color c).col.val + 1 < 80
  · have hpos : s.pos ≠ 1999 := by
      change s.col.val + 1 < 80 at hroom
      unfold pos
      omega
    rw [dif_pos hroom, if_neg hpos]
    rfl
  · rw [dif_neg hroom]
    unfold newline
    change ¬ s.col.val + 1 < 80 at hroom
    by_cases hnext : (s.store color c).row.val + 1 < 25
    · have hpos : s.pos ≠ 1999 ∧ s.pos + 1 = 80 * (s.row.val + 1) + 0 := by
        change s.row.val + 1 < 25 at hnext
        unfold pos
        omega
      rw [dif_pos hnext, if_neg hpos.1, hpos.2]
      rfl
    · -- from the end of the last row
      have hlast : s.row.val = 24 := by
        change ¬ s.row.val + 1 < 25 at hnext
        omega
      have hpos : s.pos = 1999 := by
        unfold pos
        omega
      rw [dif_neg hnext, if_pos hpos, hpos, drop_bufText _ 80 1920]
      unfold before pos
      change bufText (s.store color c).scrolled.cell (80 * s.row.val + 0) = _
      rw [hlast]
      exact bufText_congr fun i hi => cell_scrolled _ hi

/-- A step back, over the end of the row before where the cursor is at the start of one. -/
theorem retreat_pos {s : Screen} (h : 0 < s.pos) : s.retreat.pos = s.pos - 1 := by
  unfold pos at h
  unfold retreat pos
  split_ifs
  · dsimp only
    omega
  · dsimp only
    change 80 * (s.row.val - 1) + 79 = _
    omega
  · omega

@[simp] theorem retreat_cell (s : Screen) : s.retreat.cell = s.cell := by
  unfold retreat
  split_ifs <;> rfl

/-- Behind the first cell, a backspace blanks the one before the cursor. -/
theorem erase_of_pos (color : UInt8) {s : Screen} (h : 0 < s.pos) :
    s.erase color = s.retreat.store color 32 := by
  have horigin : ¬ (s.row.val = 0 ∧ s.col.val = 0) := by
    unfold pos at h
    omega
  exact if_neg horigin

/-- **A character is taken back**: the last one before the cursor. -/
theorem before_erase (color : UInt8) {s : Screen} (h : 0 < s.pos) :
    (s.erase color).before = s.before.dropLast := by
  have hlt := s.pos_lt
  have hpos := retreat_pos h
  rw [erase_of_pos color h]
  unfold before
  rw [dropLast_bufText]
  change bufText (s.retreat.store color 32).cell s.retreat.pos = _
  rw [hpos]
  apply bufText_congr
  intro i hi
  rw [cell_store color 32 _ (by omega), if_neg (by omega), retreat_cell]

end Screen

/-! ## The cursors stay on the screen -/

/-- The cursor of each terminal is on its screen. -/
def CursorsOn (d : Display) : Prop :=
  ∀ t, 0 ≤ t → t < 3 → (0 ≤ d.xCursor t ∧ d.xCursor t < 80) ∧ (0 ≤ d.yCursor t ∧ d.yCursor t < 25)

/-- A terminal whose cursor is on the screen shows a screen. -/
theorem CursorsOn.shows {d : Display} (h : CursorsOn d) {t : Int} (h0 : 0 ≤ t) (h3 : t < 3)
    (addr : Nat) : ∃ s, Shows d.mem addr (d.xCursor t) (d.yCursor t) s := by
  obtain ⟨⟨hx0, hx⟩, hy0, hy⟩ := h t h0 h3
  refine ⟨⟨fun r c => d.mem (addr + 2 * (80 * r.val + c.val)),
    fun r c => d.mem (addr + 2 * (80 * r.val + c.val) + 1), ⟨(d.yCursor t).toNat, by omega⟩,
    ⟨(d.xCursor t).toNat, by omega⟩⟩, fun _ _ => rfl, fun _ _ => rfl, ?_, ?_⟩
  · dsimp only
    omega
  · dsimp only
    omega

theorem CursorsOn.congr {d d' : Display} (h : CursorsOn d) (hx : d'.xCursor = d.xCursor)
    (hy : d'.yCursor = d.yCursor) : CursorsOn d' := by
  intro t h0 h3
  rw [hx, hy]
  exact h t h0 h3

/-- An output routine for one terminal leaves its cursor on the screen. -/
theorem CursorsOn.of_writesOnly {d d' : Display} (h : CursorsOn d) {t : Int} {s : Screen}
    (hw : WritesOnly t s d d') : CursorsOn d' := by
  intro u h0 h3
  rcases eq_or_ne u t with rfl | hne
  · have hcol := hw.shows.col
    have hrow := hw.shows.row
    have := s.col.isLt
    have := s.row.isLt
    omega
  · obtain ⟨hx, hy⟩ := hw.cursors u hne
    rw [hx, hy]
    exact h u h0 h3

theorem CursorsOn.keyPutc {d : Display} (h : CursorsOn d)
    (ha : 0 ≤ d.activeTerminal ∧ d.activeTerminal < 3) (c : UInt8) : CursorsOn (d.keyPutc c) := by
  obtain ⟨s, hs⟩ := h.shows ha.1 ha.2 (screenOf d.activeTerminal d.activeTerminal)
  exact h.of_writesOnly (keyPutc_writesOnly hs c)

theorem CursorsOn.backspace {d : Display} (h : CursorsOn d)
    (ha : 0 ≤ d.activeTerminal ∧ d.activeTerminal < 3) : CursorsOn d.backspace := by
  obtain ⟨s, hs⟩ := h.shows ha.1 ha.2 (screenOf d.activeTerminal d.activeTerminal)
  exact h.of_writesOnly (backspace_writesOnly hs)

/-- A process that belongs to no terminal moves no terminal's cursor. -/
theorem CursorsOn.myPutc {d : Display} (h : CursorsOn d) (c : UInt8) :
    CursorsOn (d.myPutc c) := by
  by_cases hlive : 0 ≤ d.processNum d.mainProcess ∧ d.processNum d.mainProcess < 3
  · obtain ⟨s, hs⟩ := h.shows hlive.1 hlive.2
      (screenOf d.activeTerminal (d.processNum d.mainProcess))
    exact h.of_writesOnly (myPutc_writesOnly hlive.1 hs c)
  · intro t h0 h3
    have hne : t ≠ d.processNum d.mainProcess := by omega
    change (0 ≤ Function.update d.xCursor (d.processNum d.mainProcess) _ t ∧
      Function.update d.xCursor (d.processNum d.mainProcess) _ t < 80) ∧
      (0 ≤ Function.update d.yCursor (d.processNum d.mainProcess) _ t ∧
        Function.update d.yCursor (d.processNum d.mainProcess) _ t < 25)
    rw [Function.update_of_ne hne, Function.update_of_ne hne]
    exact h t h0 h3

theorem CursorsOn.myPuts {d : Display} (h : CursorsOn d) (s : List UInt8) :
    CursorsOn (d.myPuts s) := by
  unfold Display.myPuts
  induction s generalizing d with
  | nil => exact h
  | cons c s ih => exact ih (h.myPutc c)

theorem CursorsOn.switchTerminal {d : Display} (h : CursorsOn d) (terminal : Int)
    (entered : Bool) : CursorsOn (d.switchTerminal terminal entered) := by
  unfold Display.switchTerminal
  split
  · exact h
  · dsimp only
    split
    · cases entered <;> exact h
    · exact h

/-- `putc` moves `screen_x` and `screen_y` alone. -/
theorem printf_cursors (s : List UInt8) (d : Display) :
    (d.printf s).xCursor = d.xCursor ∧ (d.printf s).yCursor = d.yCursor := by
  unfold Display.printf
  induction s generalizing d with
  | nil => exact ⟨rfl, rfl⟩
  | cons c s ih => exact ih (d.putc c)

/-! ## The console -/

/-- A key, or something else that happens at the display. -/
inductive ConsoleEvent where
  | key (key : Key)
  | display (e : DisplayEvent)

/-- One event. -/
def consoleStep (img : Image) (k : Console) : ConsoleEvent → Console
  | .key key => keyStep img k key
  | .display e => { k with toDisplay := displayStep k.toDisplay e }

/-- What every event keeps. -/
structure Usable (k : Console) : Prop where
  typing : Typing k
  caps : k.capsLockCheck = 1 ∨ k.capsLockCheck = -1
  cursors : CursorsOn k.toDisplay

/-- What `getChar` keeps. -/
def CharUsable (k k' : Console) : Prop :=
  (k'.capsLockCheck = k.capsLockCheck ∨ k'.capsLockCheck = k.capsLockCheck * (-1)) ∧
    CursorsOn k'.toDisplay

theorem pressed_usable (img : Image) (entered : Bool) (c : UInt8) {k : Console}
    (ha : 0 ≤ k.activeTerminal ∧ k.activeTerminal < 3) (h : CursorsOn k.toDisplay) :
    CharUsable k (k.pressed img entered c).2 := by
  unfold Console.pressed
  split_ifs
  · exact ⟨.inr rfl, h⟩
  · exact ⟨.inl rfl, CursorsOn.myPuts (d := k.toDisplay.myClear) h _⟩
  · exact ⟨.inl rfl, h.congr (printf_cursors _ _).1 (printf_cursors _ _).2⟩
  · exact ⟨.inl rfl, h⟩
  · exact ⟨.inl rfl, h.switchTerminal _ _⟩
  · exact ⟨.inl rfl, h⟩
  · exact ⟨.inl rfl, h⟩
  · exact ⟨.inl rfl, h.backspace ha⟩
  · unfold Console.lookup
    dsimp only
    split
    · exact ⟨.inl rfl, h.congr (printf_cursors _ _).1 (printf_cursors _ _).2⟩
    · exact ⟨.inl rfl, h⟩

theorem getChar_usable (img : Image) (entered : Bool) (c : UInt8) {k : Console}
    (ha : 0 ≤ k.activeTerminal ∧ k.activeTerminal < 3) (h : CursorsOn k.toDisplay) :
    CharUsable k (k.getChar img entered c).2 := by
  unfold Console.getChar
  split_ifs
  · exact pressed_usable img entered c (k := k.raiseFlag c) ha h
  · exact ⟨.inl rfl, h⟩
  · exact ⟨.inl rfl, h⟩

/-- **A key** leaves the console usable. -/
theorem Usable.key {k : Console} (h : Usable k) (img : Image) (entered : Bool) (c : UInt8) :
    Usable (k.keyboardHandler img entered c) := by
  have htyping := h.typing.key img entered c
  have hkeeps := getChar_keeps img entered c k.loadIdx
  obtain ⟨hcaps, hcursors⟩ := getChar_usable img entered c (k := k.loadIdx) h.typing.active h.cursors
  suffices hrest : ((k.keyboardHandler img entered c).capsLockCheck = 1 ∨
      (k.keyboardHandler img entered c).capsLockCheck = -1) ∧
      CursorsOn (k.keyboardHandler img entered c).toDisplay from ⟨htyping.1, hrest.1, hrest.2⟩
  have hactive := hkeeps.active h.typing.active
  -- `capslock_check` is 1 or -1, and is at most negated
  have hcaps' : (k.loadIdx.getChar img entered c).2.capsLockCheck = 1 ∨
      (k.loadIdx.getChar img entered c).2.capsLockCheck = -1 := by
    have hold : k.loadIdx.capsLockCheck = 1 ∨ k.loadIdx.capsLockCheck = -1 := h.caps
    omega
  unfold Console.keyboardHandler
  obtain ⟨r, k', hget⟩ : ∃ r k', k.loadIdx.getChar img entered c = (r, k') := ⟨_, _, rfl⟩
  rw [hget] at hactive hcaps' hcursors ⊢
  cases r with
  | none => exact ⟨hcaps', hcursors⟩
  | some test =>
    dsimp only
    unfold Console.handleChar
    split_ifs
    · exact ⟨hcaps', hcursors⟩
    · exact ⟨hcaps', hcursors⟩
    · exact ⟨hcaps', hcursors.keyPutc hactive test⟩
    · exact ⟨hcaps', hcursors.keyPutc hactive test⟩

theorem Usable.step {k : Console} (h : Usable k) (img : Image) (e : ConsoleEvent) :
    Usable (consoleStep img k e) := by
  -- the display does not touch the lines, and the cursors stay on the screen
  cases e with
  | key key => exact h.key img key.entered key.code
  | display e =>
    cases e with
    | myPutc c => exact ⟨⟨h.typing.active, h.typing.text⟩, h.caps, h.cursors.myPutc c⟩
    | keyPutc c =>
      exact ⟨⟨h.typing.active, h.typing.text⟩, h.caps, h.cursors.keyPutc h.typing.active c⟩
    | backspace =>
      refine ⟨⟨?_, h.typing.text⟩, h.caps, h.cursors.backspace h.typing.active⟩
      change 0 ≤ k.toDisplay.backspace.activeTerminal ∧ k.toDisplay.backspace.activeTerminal < 3
      rw [Display.backspace_activeTerminal]
      exact h.typing.active
    | switchTerminal terminal entered =>
      refine ⟨⟨?_, h.typing.text⟩, h.caps, h.cursors.switchTerminal _ entered⟩
      change 0 ≤ (k.toDisplay.switchTerminal (terminal.val : Nat) entered).activeTerminal ∧
        (k.toDisplay.switchTerminal (terminal.val : Nat) entered).activeTerminal < 3
      rw [Display.switchTerminal_activeTerminal]
      omega
    | schedule processNum mainProcess currTask =>
      exact ⟨⟨h.typing.active, h.typing.text⟩, h.caps, h.cursors⟩

theorem usable_init (k : Console) : Usable k.init where
  typing := ⟨⟨le_refl 0, show (0 : Int) < 3 by decide⟩,
    fun _ => ⟨Nat.zero_le 127, fun i hi => absurd hi (Nat.not_lt_zero i)⟩⟩
  caps := .inr rfl
  cursors _ _ _ := ⟨⟨le_refl 0, show (0 : Int) < 80 by decide⟩, le_refl 0,
    show (0 : Int) < 25 by decide⟩

/-! ## What a key does to the display -/

/-- The line of the displayed terminal. -/
def Console.line (k : Console) : List UInt8 :=
  bufText (k.saveBuf k.activeTerminal) (k.saveIdx k.activeTerminal)

/-- The output of an editing command. -/
def Console.echo (img : Image) (k : Console) : Edit → Display
  | .char c => if k.saveIdx k.activeTerminal < 127 then k.toDisplay.keyPutc c else k.toDisplay
  | .erase => if 0 < k.saveIdx k.activeTerminal then k.toDisplay.backspace else k.toDisplay
  | .complete =>
    k.toDisplay.printf ((completion img k.line).take (127 - k.saveIdx k.activeTerminal))
  | .enter => k.toDisplay.keyPutc 10

section Handler

variable {img : Image} {entered : Bool} {c : UInt8} {k k' : Console}

/-- A key that is not printed. -/
theorem display_unprinted (h : k.loadIdx.getChar img entered c = (some dontPrint, k')) :
    (k.keyboardHandler img entered c).toDisplay = k'.toDisplay := by
  rw [keyboardHandler_of_some h]
  unfold Console.handleChar
  rw [if_pos rfl]
  rfl

/-- A character is echoed, if there is room for it in the line. -/
theorem display_handleChar {test : UInt8} (hprint : test ≠ dontPrint) :
    (k.handleChar test).toDisplay =
      if k.keyboardBufIdx = 127 ∧ test ≠ 10 then k.toDisplay else k.toDisplay.keyPutc test := by
  unfold Console.handleChar
  rw [if_neg hprint]
  split_ifs <;> rfl

theorem getChar_release (img : Image) (entered : Bool) (k : Console) (hc : ¬ c ≤ 0x58) :
    ∃ k', k.loadIdx.getChar img entered c = (some dontPrint, k') ∧ k'.toDisplay = k.toDisplay := by
  unfold Console.getChar
  rw [if_neg hc]
  split
  · exact ⟨_, rfl, rfl⟩
  · exact ⟨_, rfl, rfl⟩

/-- What the completion writes. -/
theorem Types.display_complete {m : Modifiers} {E : Int → Editor} (h : Types k m E) :
    ((k.loadIdx.raiseFlag c).autocomplete img).toDisplay = k.echo img .complete := by
  have hroom : k.saveIdx k.activeTerminal ≤ 127 := by
    rw [h.active]
    exact h.room _ h.terminal.1 h.terminal.2
  obtain ⟨-, -, hecho⟩ := fsSearch_appends img (k.saveBuf k.activeTerminal) hroom
  unfold Console.echo Console.line
  rw [← hecho]
  rfl

/-- **The echo** of a key that does not switch the terminal. -/
theorem Types.echo {m : Modifiers} {E : Int → Editor} (h : Types k m E) (hc : InScope c)
    (hswitch : m.switches c = false) : (k.keyboardHandler img entered c).toDisplay =
      (edits m c).elim k.toDisplay fun e => k.echo img e.2 := by
  have hidx : k.saveIdx m.terminal = k.saveIdx k.activeTerminal := by rw [h.active]
  unfold edits
  by_cases hpress : 0x55 < c
  · -- a release or a prefix
    have hcode : ∀ c : UInt8, InScope c → 0x55 < c → ¬ c ≤ 0x58 := by
      apply forall_byte
      decide +kernel
    obtain ⟨k', hchar, hdisplay⟩ := getChar_release img entered k (hcode c hc hpress)
    rw [if_pos (.inl hpress), display_unprinted hchar, hdisplay]
    rfl
  have hle : c ≤ 0x55 := UInt8.not_lt.mp hpress
  have hne : c ≠ 0x1D := by
    rintro rfl
    exact absurd hc (by decide)
  -- CapsLock and the arrow keys print nothing
  by_cases hcaps : c = 0x3A
  · have hchar : k.loadIdx.getChar img entered c =
        (some dontPrint, { k.loadIdx.raiseFlag c with capsLockCheck := k.capsLockCheck * (-1) }) := by
      rw [getChar_press hle]
      exact if_pos hcaps
    rw [if_pos (by tauto), display_unprinted hchar]
    rfl
  by_cases harrow : c = 0x4B ∨ c = 0x4D ∨ c = 0x48 ∨ c = 0x50
  · have hcode : ∀ c : UInt8, c = 0x4B ∨ c = 0x4D ∨ c = 0x48 ∨ c = 0x50 →
        ¬ (0x3B ≤ c ∧ c < 0x3E) := by
      apply forall_byte
      decide +kernel
    have hchar : k.loadIdx.getChar img entered c = (some dontPrint, k.loadIdx.raiseFlag c) := by
      rw [getChar_press hle, pressed_of_ctl (h.raised hle hne).ctl hcaps,
        if_neg (fun h => hcode c harrow h.2)]
      by_cases hhorizontal : c = 0x4B ∨ c = 0x4D
      · rw [if_pos hhorizontal]
      · rw [if_neg hhorizontal, if_pos ((or_assoc.mpr harrow).resolve_left hhorizontal)]
    rw [if_pos (.inr (.inr (.inr harrow))), display_unprinted hchar]
    rfl
  -- the keys that are looked up, and Backspace
  have hplain := h.getChar_plain img entered hle hne hcaps hswitch harrow
  rw [if_neg (by rw [hswitch]; simp only [Bool.false_eq_true]; tauto)]
  by_cases herase : c = 0x0E
  · rw [if_pos herase]
    change _ = if 0 < k.saveIdx k.activeTerminal then _ else _
    by_cases hpos : 0 < k.saveIdx k.activeTerminal
    · rw [if_pos ⟨herase, by rw [hidx]; exact hpos⟩] at hplain
      rw [if_pos hpos, display_unprinted hplain]
    · have hcap : keyCap m.shifted c = 0 := by
        rw [herase]
        cases m.shifted <;> decide
      rw [if_neg (fun h => hpos (by rw [← hidx]; exact h.2)), h.lookup_raised hle, if_pos hcap,
        if_neg (fun h => absurd (herase.symm.trans h.1) (by decide))] at hplain
      rw [if_neg hpos, display_unprinted hplain]
      rfl
  rw [if_neg (fun h => herase h.1), h.lookup_raised hle] at hplain
  rw [if_neg herase]
  by_cases hcomplete : c = 0x0F ∧ (!m.shifted) = true
  · have hcap : keyCap m.shifted c = 0 := by
      rw [hcomplete.1]
      cases m.shifted <;> decide
    rw [if_pos hcap, if_pos hcomplete] at hplain
    rw [if_pos hcomplete, display_unprinted hplain, h.display_complete]
    rfl
  rw [if_neg hcomplete] at hplain ⊢
  dsimp only
  by_cases hcap : keyCap m.shifted c = 0
  · rw [if_pos hcap] at hplain ⊢
    rw [display_unprinted hplain]
    rfl
  rw [if_neg hcap] at hplain ⊢
  rw [keyboardHandler_of_some hplain, display_handleChar (keyCap_ne_dontPrint m.shifted c)]
  change (if k.saveIdx k.activeTerminal = 127 ∧ keyCap m.shifted c ≠ 10 then k.toDisplay else
    k.toDisplay.keyPutc (keyCap m.shifted c)) = _
  by_cases hnl : keyCap m.shifted c = 10
  · rw [if_neg (fun h => h.2 hnl), if_pos hnl, hnl]
    rfl
  · have hroom := h.room _ h.terminal.1 h.terminal.2
    -- a full line takes no character but the newline
    rw [if_neg hnl]
    change _ = if k.saveIdx k.activeTerminal < 127 then _ else _
    by_cases hfull : k.saveIdx k.activeTerminal = 127
    · rw [if_pos ⟨hfull, hnl⟩, if_neg (by omega)]
    · rw [if_neg (fun h => hfull h.1), if_pos (by omega)]

end Handler

/-! ## The line stands before the cursor -/

/-- The characters on the screen before the cursor of the displayed terminal. -/
def Display.standing (d : Display) : List UInt8 :=
  bufText (fun i => d.mem (videoMem + 2 * i))
    (80 * d.yCursor d.activeTerminal + d.xCursor d.activeTerminal).toNat

theorem length_standing (d : Display) : d.standing.length =
    (80 * d.yCursor d.activeTerminal + d.xCursor d.activeTerminal).toNat := length_bufText _ _

theorem standing_eq {d : Display} {s : Screen}
    (h : Shows d.mem (screenOf d.activeTerminal d.activeTerminal) (d.xCursor d.activeTerminal)
      (d.yCursor d.activeTerminal) s) : d.standing = s.before := by
  rw [screenOf_active] at h
  have hpos : (80 * d.yCursor d.activeTerminal + d.xCursor d.activeTerminal).toNat = s.pos := by
    rw [h.row, h.col]
    unfold Screen.pos
    omega
  have hlt := s.pos_lt
  unfold Display.standing Screen.before
  rw [hpos]
  apply bufText_congr
  intro i hi
  have hcell : i = 80 * (i / 80) + i % 80 := by omega
  unfold Screen.cell
  rw [dif_pos (by omega), ← h.char]
  dsimp only
  rw [← hcell]

/-- Before the cursor stand the cells `start`, less the rows that have scrolled off, and the line. -/
def EchoAgrees (start : List UInt8) (k : Console) : Prop :=
  ∃ rows, 80 * rows ≤ start.length ∧ k.standing = start.drop (80 * rows) ++ k.line

instance (start : List UInt8) (k : Console) : Decidable (EchoAgrees start k) :=
  decidable_of_iff (∃ rows, rows < start.length / 80 + 1 ∧
      k.standing = start.drop (80 * rows) ++ k.line)
    (exists_congr fun rows => and_congr_left fun _ => by omega)

/-- The bytes of the keys that a line is typed with: not those of Enter, of Ctrl and of the function
keys of the terminals. -/
def LineKey (c : UInt8) : Prop := InScope c ∧ c ≠ 0x1C ∧ ¬ (0x3B ≤ c ∧ c < 0x3E)

instance (c : UInt8) : Decidable (LineKey c) := inferInstanceAs (Decidable (_ ∧ _))

/-- Tab, when the completion has something to append to the line, and there is room for it. -/
def Console.Appends (img : Image) (c : UInt8) (k : Console) : Prop :=
  c = 0x0F ∧ k.shiftCode 0x0F = 0x0F ∧ k.saveIdx k.activeTerminal < 127 ∧
    completion img k.line ≠ []

instance (img : Image) (c : UInt8) (k : Console) : Decidable (k.Appends img c) :=
  inferInstanceAs (Decidable (_ ∧ _))

/-- What is known of a command from its key. -/
theorem edits_some {m : Modifiers} {c : UInt8} {d : Int × Edit} (h : edits m c = some d) :
    d.1 = m.terminal ∧
      match d.2 with
      | .char cap => ¬ (cap = 10 ∨ cap = 13)
      | .erase => True
      | .complete => c = 0x0F ∧ (!m.shifted) = true
      | .enter => c = 0x1C := by
  -- no key has a carriage return, and only Enter has a newline
  have hcap : ∀ c : UInt8, ¬ 0x55 < c → ∀ b, keyCap b c ≠ 13 ∧ (keyCap b c = 10 → c = 0x1C) := by
    apply forall_byte
    decide +kernel
  unfold edits at h
  split_ifs at h with hnone herase hcomplete
  · cases h
    exact ⟨rfl, trivial⟩
  · cases h
    exact ⟨rfl, hcomplete⟩
  · obtain ⟨hcr, hnl⟩ := hcap c (fun hlt => hnone (.inl hlt)) m.shifted
    dsimp only at h
    split_ifs at h with hzero hten
    · cases h
      exact ⟨rfl, hnl hten⟩
    · cases h
      exact ⟨rfl, fun hor => hor.elim hten hcr⟩

theorem length_completion_le (img : Image) (text : List UInt8) :
    (completion img text).length ≤ 32 := by
  unfold completion
  split
  · simp
  · split
    · rename_i i hi
      have hle : (restOfName img i (lastWord text).length).length ≤
          ((List.range (32 - (lastWord text).length)).map
            fun k => img.filename i ((lastWord text).length + k : Nat)).length :=
        (List.takeWhile_sublist _).length_le
      rw [List.length_map, List.length_range] at hle
      omega
    · simp

theorem Types.line_eq {k : Console} {m : Modifiers} {E : Int → Editor} (h : Types k m E) :
    k.line = (E m.terminal).text := by
  unfold Console.line
  rw [h.active]
  exact h.text _ h.terminal.1 h.terminal.2

/-- Tab is looked up as such when shift and CapsLock say so. -/
theorem Types.tab_iff {k : Console} {m : Modifiers} {E : Int → Editor} (h : Types k m E) :
    k.shiftCode 0x0F = 0x0F ↔ (!m.shifted) = true := by
  have hshift := h.shiftCode_raised (c := 0x0F) (by decide) (by decide)
  have hsame : (k.loadIdx.raiseFlag 0x0F).shiftCode 0x0F = k.shiftCode 0x0F := rfl
  rw [← hsame, hshift]
  cases m.shifted with
  | false => exact iff_of_true rfl rfl
  | true => exact iff_of_false (by decide) (by decide)

/-- A key that appends is a completion. -/
theorem Types.edits_of_appends {k : Console} {m : Modifiers} {E : Int → Editor} (h : Types k m E)
    {img : Image} {c : UInt8} (happends : k.Appends img c) :
    edits m c = some (m.terminal, .complete) := by
  obtain ⟨rfl, hcode, -⟩ := happends
  have hswitch := switches_eq_false (m := m) (c := 0x0F) (by decide)
  unfold edits
  rw [hswitch, if_neg (by decide), if_neg (by decide), if_pos ⟨rfl, h.tab_iff.mp hcode⟩]

/-- A completion that appends nothing. -/
theorem Types.nothing_appended {k : Console} {m : Modifiers} {E : Int → Editor} (h : Types k m E)
    {img : Image} {c : UInt8} (hc : c = 0x0F ∧ (!m.shifted) = true) (hnot : ¬ k.Appends img c) :
    (completion img k.line).take (127 - k.saveIdx k.activeTerminal) = [] := by
  obtain ⟨rfl, hunshifted⟩ := hc
  by_cases hroom : k.saveIdx k.activeTerminal < 127
  · have hnone : completion img k.line = [] := by
      by_contra hsome
      exact hnot ⟨rfl, h.tab_iff.mpr hunshifted, hroom, hsome⟩
    rw [hnone, List.take_nil]
  · have hfull : 127 - k.saveIdx k.activeTerminal = 0 := by omega
    rw [hfull, List.take_zero]

/-- What holds between the keys, as long as no completion appends anything. -/
structure EchoInv (start : List UInt8) (k : Console) : Prop where
  types : ∃ m E, Types k m E
  usable : Usable k
  agrees : EchoAgrees start k

/-- A console whose Ctrl key is up. -/
theorem Usable.types {k : Console} (h : Usable k) (hctl : k.pressedFlags 0x1D = 0) :
    ∃ m E, Types k m E :=
  ⟨⟨decide (k.pressedFlags 0x2A ≠ 0), decide (k.pressedFlags 0x36 ≠ 0),
      decide (k.pressedFlags 0x38 ≠ 0), decide (k.capsLockCheck = 1), k.activeTerminal⟩,
    fun t => ⟨bufText (k.saveBuf t) (k.saveIdx t), none⟩,
    { terminal := h.typing.active
      active := rfl
      left := decide_eq_true_iff.symm
      right := decide_eq_true_iff.symm
      alt := decide_eq_true_iff.symm
      ctl := hctl
      caps := by
        rcases h.caps with hcaps | hcaps <;> rw [hcaps] <;> rfl
      room := fun t _ _ => (h.typing.text t).1
      text := fun _ _ _ => rfl
      line := fun _ _ _ l hl => by cases hl }⟩

/-- The line, and the terminal on the screen, after a key that does not switch the terminal. -/
theorem Types.line_step {k : Console} {m : Modifiers} {E : Int → Editor} (h : Types k m E)
    (img : Image) {key : Key} (hkey : LineKey key.code) :
    (keyStep img k key).line =
      ((edits m key.code).elim E (stepAt (Editor.step img) E) m.terminal).text := by
  have hnext := h.step img key.entered hkey.1
  have hline := hnext.line_eq
  rw [Modifiers.step_terminal (switches_eq_false hkey.2.2)] at hline
  exact hline

/-- **A character** that there is room for. -/
theorem agrees_char {start : List UInt8} {k k' : Console} (h : EchoAgrees start k) {s : Screen}
    (hs : Shows k.mem (screenOf k.activeTerminal k.activeTerminal) (k.xCursor k.activeTerminal)
      (k.yCursor k.activeTerminal) s) {c : UInt8} (hc : ¬ (c = 10 ∨ c = 13))
    (hroom : k.line.length < 127) (hdisplay : k'.toDisplay = k.toDisplay.keyPutc c)
    (hline : k'.line = k.line ++ [c]) : EchoAgrees start k' := by
  obtain ⟨rows, hrows, hstanding⟩ := h
  have hwrites := keyPutc_writesOnly hs c
  have hafter : k'.standing = (s.write k.textColor c).before := by
    rw [hdisplay]
    apply standing_eq
    exact hwrites.shows
  -- before the key, the characters at the cursor are those left of the start and the line
  have hbefore : s.before = start.drop (80 * rows) ++ k.line := by
    rw [← standing_eq hs, hstanding]
  rw [Screen.before_write _ hc, hbefore, List.append_assoc, ← hline] at hafter
  by_cases hlast : s.pos = 1999
  · -- the rows above have enough characters to lose a row
    have hlen : s.pos = (start.length - 80 * rows) + k.line.length := by
      rw [← List.length_drop, ← List.length_append, ← hbefore]
      exact (length_bufText _ _).symm
    rw [if_pos hlast, List.drop_append_of_le_length (by rw [List.length_drop]; omega),
      List.drop_drop] at hafter
    exact ⟨rows + 1, by omega, hafter⟩
  · rw [if_neg hlast] at hafter
    exact ⟨rows, hrows, hafter⟩

/-- **A character is taken back** from a line that has one. -/
theorem agrees_erase {start : List UInt8} {k k' : Console} (h : EchoAgrees start k) {s : Screen}
    (hs : Shows k.mem (screenOf k.activeTerminal k.activeTerminal) (k.xCursor k.activeTerminal)
      (k.yCursor k.activeTerminal) s) (hne : k.line ≠ [])
    (hdisplay : k'.toDisplay = k.toDisplay.backspace) (hline : k'.line = k.line.dropLast) :
    EchoAgrees start k' := by
  obtain ⟨rows, hrows, hstanding⟩ := h
  have hwrites := backspace_writesOnly hs
  have hafter : k'.standing = (s.erase k.textColor).before := by
    rw [hdisplay]
    apply standing_eq
    rw [Display.backspace_activeTerminal]
    exact hwrites.shows
  have hbefore : s.before = start.drop (80 * rows) ++ k.line := by
    rw [← standing_eq hs, hstanding]
  -- the line is not empty, so that there is a cell to step back to
  have hpos : 0 < s.pos := by
    have hlen : s.pos = (start.drop (80 * rows)).length + k.line.length := by
      rw [← List.length_append, ← hbefore]
      exact (length_bufText _ _).symm
    have hpos := List.length_pos_of_ne_nil hne
    omega
  rw [Screen.before_erase _ hpos, hbefore, List.dropLast_append_of_ne_nil hne, ← hline] at hafter
  exact ⟨rows, hrows, hafter⟩

theorem agrees_same {start : List UInt8} {k k' : Console} (h : EchoAgrees start k)
    (hdisplay : k'.toDisplay = k.toDisplay) (hline : k'.line = k.line) : EchoAgrees start k' := by
  obtain ⟨rows, hrows, hstanding⟩ := h
  refine ⟨rows, hrows, ?_⟩
  rw [hdisplay, hline]
  exact hstanding

/-- **A key**: as long as no completion appends anything, the echo agrees with the line. -/
theorem EchoInv.step {start : List UInt8} {k : Console} (h : EchoInv start k) {img : Image}
    {key : Key} (hkey : LineKey key.code) (hnot : ¬ k.Appends img key.code) :
    EchoInv start (keyStep img k key) := by
  obtain ⟨⟨m, E, htypes⟩, husable, hagrees⟩ := h
  refine ⟨⟨_, _, htypes.step img key.entered hkey.1⟩, husable.key img key.entered key.code, ?_⟩
  obtain ⟨s, hs⟩ := husable.cursors.shows husable.typing.active.1 husable.typing.active.2
    (screenOf k.activeTerminal k.activeTerminal)
  have hdisplay : (keyStep img k key).toDisplay =
      (edits m key.code).elim k.toDisplay fun e => k.echo img e.2 :=
    htypes.echo hkey.1 (switches_eq_false hkey.2.2)
  have hline := htypes.line_step img hkey
  have hold := htypes.line_eq
  have hidx : k.line.length = k.saveIdx k.activeTerminal := length_bufText _ _
  cases hedits : edits m key.code with
  | none =>
    rw [hedits] at hdisplay hline
    exact agrees_same hagrees hdisplay (hline.trans hold.symm)
  | some d =>
    obtain ⟨t, e⟩ := d
    obtain ⟨ht, hknown⟩ := edits_some hedits
    dsimp only at ht hknown
    rw [hedits, ht] at hdisplay hline
    simp only [Option.elim_some, stepAt, Function.update_self] at hdisplay hline
    cases e with
    | char cap =>
      unfold Console.echo at hdisplay
      unfold Editor.step at hline
      dsimp only at hdisplay hline
      rw [← hold] at hline
      by_cases hroom : k.saveIdx k.activeTerminal < 127
      · rw [if_pos hroom] at hdisplay
        rw [hidx, if_pos hroom] at hline
        exact agrees_char hagrees hs hknown (by omega) hdisplay hline
      · rw [if_neg hroom] at hdisplay
        rw [hidx, if_neg hroom, ← hold] at hline
        exact agrees_same hagrees hdisplay hline
    | erase =>
      unfold Console.echo at hdisplay
      unfold Editor.step at hline
      dsimp only at hdisplay hline
      rw [← hold] at hline
      by_cases hpos : 0 < k.saveIdx k.activeTerminal
      · rw [if_pos hpos] at hdisplay
        exact agrees_erase hagrees hs (List.ne_nil_of_length_pos (by omega)) hdisplay hline
      · have hempty : k.line = [] := List.eq_nil_of_length_eq_zero (by omega)
        rw [if_neg hpos] at hdisplay
        rw [hempty, List.dropLast_nil, ← hempty] at hline
        exact agrees_same hagrees hdisplay hline
    | complete =>
      -- nothing is written, and cutting the line at 127 leaves it whole
      have hnothing := htypes.nothing_appended hknown hnot
      have hwhole : k.line.take 127 = k.line :=
        List.take_of_length_le (by have := (husable.typing.text k.activeTerminal).1; omega)
      unfold Console.echo at hdisplay
      unfold Editor.step at hline
      dsimp only at hdisplay hline
      rw [hnothing] at hdisplay
      rw [← hold, List.take_append, hidx, hnothing, hwhole, List.append_nil] at hline
      exact agrees_same hagrees hdisplay hline
    | enter => exact absurd hknown hkey.2.1

/-- **A completion that appends something** leaves the cursor where it was: the line has become
longer, and the cells before the cursor have not. -/
theorem EchoInv.lost {start : List UInt8} {k : Console} (h : EchoInv start k) {img : Image}
    {key : Key} (hkey : LineKey key.code) (happends : k.Appends img key.code) :
    ¬ EchoAgrees start (keyStep img k key) := by
  obtain ⟨⟨m, E, htypes⟩, -, rows, hrows, hstanding⟩ := h
  rintro ⟨rows', hrows', hstanding'⟩
  have hedits := htypes.edits_of_appends happends
  have hdisplay : (keyStep img k key).toDisplay =
      (edits m key.code).elim k.toDisplay fun e => k.echo img e.2 :=
    htypes.echo hkey.1 (switches_eq_false hkey.2.2)
  have hline := htypes.line_step img hkey
  rw [hedits] at hdisplay hline
  simp only [Option.elim_some, stepAt, Function.update_self] at hdisplay hline
  rw [Editor.step, ← htypes.line_eq] at hline
  obtain ⟨-, -, hroom, hsome⟩ := happends
  -- the cells before the cursor are as many as before
  have hsame : (keyStep img k key).standing.length = k.standing.length := by
    rw [hdisplay, length_standing, length_standing, Console.echo, printf_activeTerminal,
      (printf_cursors _ _).1, (printf_cursors _ _).2]
  -- and the line is between 1 and 32 characters longer
  have hidx : k.line.length = k.saveIdx k.activeTerminal := length_bufText _ _
  have hlen : (keyStep img k key).line.length =
      min 127 (k.line.length + (completion img k.line).length) := by
    rw [hline, List.length_take, List.length_append]
  have hpos := List.length_pos_of_ne_nil hsome
  have hle := length_completion_le img k.line
  rw [hstanding, hstanding', List.length_append, List.length_append, List.length_drop,
    List.length_drop] at hsame
  omega

/-- **The echo**: a line is started on the displayed terminal, after any run of the console, and
typed with any keys. The line stands before the cursor, behind what stood there when it was started,
after each key, exactly when no completion appends anything. -/
theorem echo_agrees_iff (img : Image) (k : Console) (es : List ConsoleEvent) (keys : List Key)
    (hempty : (run (consoleStep img) k.init es).line = [])
    (hctl : (run (consoleStep img) k.init es).pressedFlags 0x1D = 0)
    (hkeys : ∀ key ∈ keys, LineKey key.code) :
    let started := run (consoleStep img) k.init es
    (∀ pre, pre <+: keys → EchoAgrees started.standing (run (keyStep img) started pre)) ↔
      Along (keyStep img) (fun k key => ¬ k.Appends img key.code) started keys := by
  intro started
  have husable : Usable started :=
    invariant_always (I := Usable) (fun k e h => h.step img e) (usable_init k) es
  have hstart : EchoInv started.standing started := by
    refine ⟨husable.types hctl, husable, 0, Nat.zero_le _, ?_⟩
    rw [hempty, List.append_nil]
    rfl
  exact prefix_iff_along (B := fun _ key => LineKey key.code)
    (fun k key h hkey hnot => h.step hkey hnot) (fun k h => h.agrees)
    (fun k key h hkey happends => h.lost hkey (not_not.mp happends)) hstart
    (along_of_forall hkeys started)

/-- The process of the first terminal has written its prompt. -/
def prompted : List ConsoleEvent :=
  [.display (.schedule (fun p => if p = 0 then 0 else -1) 0 fun _ => 0), .display (.myPutc 62)]

/-- `l`, `s` and Backspace behind a prompt. -/
theorem echo_agrees_sample :
    let started := run (consoleStep sampleImage) sampleConsole.init prompted
    let typed := run (keyStep sampleImage) started (keysOf [0x26, 0xA6, 0x1F, 0x9F, 0x0E])
    EchoAgrees started.standing typed ∧ started.standing = [62] ∧ typed.line = [108] := by
  have hagrees := (echo_agrees_iff sampleImage sampleConsole prompted
    (keysOf [0x26, 0xA6, 0x1F, 0x9F, 0x0E]) (by decide +kernel) (by decide +kernel)
    (by decide +kernel)).mpr ⟨by decide +kernel, by decide +kernel, by decide +kernel,
      by decide +kernel, by decide +kernel, trivial⟩
  exact ⟨hagrees _ List.prefix_rfl, by decide +kernel, by decide +kernel⟩

/-- An image with one file, whose name is `ab`. -/
def abImage : Image := fun a =>
  (([(0, 1), (64, 97), (65, 98)] : List (Nat × UInt8)).lookup a).getD 0

/-- `a` and Tab: the line is `ab`, and `a` alone stands before the cursor, where the next key
overwrites the `b` that the completion has written there. -/
theorem echo_lost :
    let started := run (consoleStep abImage) sampleConsole.init prompted
    let keys := keysOf [0x1E, 0x9E, 0x0F]
    let completed := run (keyStep abImage) started keys
    (started.line = [] ∧ started.pressedFlags 0x1D = 0 ∧ ∀ key ∈ keys, LineKey key.code) ∧
      completed.line = [97, 98] ∧ completed.standing = [62, 97] ∧
      ¬ EchoAgrees started.standing completed ∧
      (keyStep abImage completed ⟨0x2E, false⟩).line = [97, 98, 99] ∧
      (keyStep abImage completed ⟨0x2E, false⟩).standing = [62, 97, 99] := by
  decide +kernel

end SrirachOS
