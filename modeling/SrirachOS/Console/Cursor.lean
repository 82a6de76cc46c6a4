import SrirachOS.Console.Echo

/-!
# The Hardware Cursor

`update_cursor` programs the VGA with `screen_x` and `screen_y`. The cursors that the output goes to
are those of the terminals; `key_putc` and `_backspace` bring both together, `my_putc` and
`switch_terminal` do not.

- `OutputEvent`: what is done at the display, with the two routines that print on the console itself,
- `behind`: where a character leaves a cursor,
- `CursorShown`: the VGA shows the cursor of the displayed terminal,
- `cursor_shown_iff`: which output keeps it so.
-/

namespace SrirachOS

open Foundation

/-! ## The machine -/

/-- An event at the display, or output of the kernel itself. -/
inductive OutputEvent where
  | display (e : DisplayEvent)
  /-- `putc`, with which `printf` and the completion print -/
  | putc (c : UInt8)
  /-- `my_clear` -/
  | clear

/-- One event. -/
def outputStep (d : Display) : OutputEvent → Display
  | .display e => displayStep d e
  | .putc c => d.putc c
  | .clear => d.myClear

/-- The scheduling of processes is no output. -/
def OutputEvent.IsOutput : OutputEvent → Prop
  | .display (.schedule ..) => False
  | _ => True

/-! ## Positions -/

/-- The position of the cursor of terminal `t`. -/
def Display.pos (d : Display) (t : Int) : Int := 80 * d.yCursor t + d.xCursor t

/-- The position of `screen_x` and `screen_y`. -/
def Display.screenPos (d : Display) : Int := 80 * d.screenY + d.screenX

/-- Where a cursor at position `p` is after a character: at the start of the next row, or of the last
one, behind the end of a row. -/
def behind (c : UInt8) (p : Int) : Int :=
  if c = 10 ∨ c = 13 ∨ p % 80 = 79 then 80 * min 24 (p / 80 + 1) else p + 1

/-- The VGA shows the cursor of the displayed terminal. -/
def CursorShown (d : Display) : Prop := d.vgaCursor = d.pos d.activeTerminal

instance (d : Display) : Decidable (CursorShown d) := inferInstanceAs (Decidable (_ = _))

/-- The output leaves the VGA with the displayed terminal's cursor. A process programs it with
`screen_x` and `screen_y`, which have to be where its own cursor is going, or where that of the
displayed terminal is; a switch programs nothing. -/
def CursorRight (d : Display) : OutputEvent → Prop
  | .display (.myPutc c) =>
    d.screenPos =
      if d.processNum d.mainProcess = d.activeTerminal then behind c (d.pos d.activeTerminal)
      else d.pos d.activeTerminal
  | .display (.keyPutc _) => True
  | .display .backspace => True
  | .display (.switchTerminal terminal _) => d.vgaCursor = d.pos (terminal.val : Nat)
  | .display (.schedule ..) => True
  | .putc c => behind c d.screenPos = d.pos d.activeTerminal
  | .clear => d.pos d.activeTerminal = 0

/-! ## What a character does to a cursor -/

/-- Column and row are on the screen. -/
structure OnScreen (x y : Int) : Prop where
  x_nonneg : 0 ≤ x
  x_lt : x < 80
  y_nonneg : 0 ≤ y
  y_lt : y < 25

theorem emit_pos (addr : Nat) (color c : UInt8) (mem : Nat → UInt8) {x y : Int}
    (h : OnScreen x y) :
    OnScreen (emit addr color c ⟨mem, x, y⟩).x (emit addr color c ⟨mem, x, y⟩).y ∧
      80 * (emit addr color c ⟨mem, x, y⟩).y + (emit addr color c ⟨mem, x, y⟩).x =
        behind c (80 * y + x) := by
  obtain ⟨hx0, hx, hy0, hy⟩ := h
  unfold emit behind
  by_cases hend : c = 10 ∨ c = 13
  · -- the end of a row that the character asks for
    have hbehind : c = 10 ∨ c = 13 ∨ (80 * y + x) % 80 = 79 :=
      hend.imp_right Or.inl
    rw [if_pos hend, if_pos hbehind]
    dsimp only
    split
    · dsimp only
      exact ⟨⟨by omega, by omega, hy0, hy⟩, by omega⟩
    · dsimp only
      exact ⟨⟨by omega, by omega, by omega, by omega⟩, by omega⟩
  · rw [if_neg hend]
    dsimp only
    have hrow : (y + (x + 1) % 80 / 80) % 25 = y := by omega
    rw [hrow]
    by_cases hfull : (x + 1) % 80 = 0
    · -- the end of a row that is reached
      have hbehind : c = 10 ∨ c = 13 ∨ (80 * y + x) % 80 = 79 := Or.inr (Or.inr (by omega))
      rw [if_pos hfull, if_pos hbehind]
      split
      · dsimp only
        exact ⟨⟨by omega, by omega, hy0, hy⟩, by omega⟩
      · dsimp only
        exact ⟨⟨by omega, by omega, by omega, by omega⟩, by omega⟩
    · have hbehind : ¬ (c = 10 ∨ c = 13 ∨ (80 * y + x) % 80 = 79) := by
        rintro (h10 | h13 | hlast)
        · exact hend (Or.inl h10)
        · exact hend (Or.inr h13)
        · omega
      rw [if_neg hfull, if_neg hbehind]
      dsimp only
      exact ⟨⟨by omega, by omega, hy0, hy⟩, by omega⟩

/-- `update_cursor` programs a position on the screen as it is. -/
theorem updateCursor_vga {d : Display} (h : OnScreen d.screenX d.screenY) :
    d.updateCursor.vgaCursor = d.screenPos := by
  obtain ⟨hx0, hx, hy0, hy⟩ := h
  unfold Display.updateCursor Display.screenPos
  dsimp only
  omega

/-! ## The invariant -/

/-- All cursors are on the screen. -/
structure CursorInv (d : Display) : Prop where
  active : 0 ≤ d.activeTerminal ∧ d.activeTerminal < 3
  cursors : CursorsOn d
  screen : OnScreen d.screenX d.screenY

theorem CursorInv.onScreen {d : Display} (h : CursorInv d) {t : Int} (h0 : 0 ≤ t) (h3 : t < 3) :
    OnScreen (d.xCursor t) (d.yCursor t) := by
  obtain ⟨⟨hx0, hx⟩, hy0, hy⟩ := h.cursors t h0 h3
  exact ⟨hx0, hx, hy0, hy⟩

theorem CursorInv.displayed {d : Display} (h : CursorInv d) :
    OnScreen (d.xCursor d.activeTerminal) (d.yCursor d.activeTerminal) :=
  h.onScreen h.active.1 h.active.2

/-- **`key_putc`** takes `screen_x` and `screen_y` along with the displayed terminal's cursor. -/
theorem keyPutc_shown {d : Display} (h : CursorInv d) (c : UInt8) :
    CursorShown (d.keyPutc c) ∧ OnScreen (d.keyPutc c).screenX (d.keyPutc c).screenY ∧
      (d.keyPutc c).screenPos = behind c (d.pos d.activeTerminal) := by
  obtain ⟨hon, hpos⟩ := emit_pos videoMem d.textColor c d.mem h.displayed
  have hpen : (d.keyPutc c).screenX = (emit videoMem d.textColor c
      ⟨d.mem, d.xCursor d.activeTerminal, d.yCursor d.activeTerminal⟩).x ∧
      (d.keyPutc c).screenY = (emit videoMem d.textColor c
        ⟨d.mem, d.xCursor d.activeTerminal, d.yCursor d.activeTerminal⟩).y := ⟨rfl, rfl⟩
  -- the two coordinates go to the VGA and, as bytes, to the terminal
  rw [← hpen.1, ← hpen.2] at hon hpos
  refine ⟨?_, hon, hpos⟩
  have hvga : (d.keyPutc c).vgaCursor = (d.keyPutc c).screenPos :=
    updateCursor_vga (d := d.keyPutc c) hon
  have hx : (d.keyPutc c).xCursor (d.keyPutc c).activeTerminal = (d.keyPutc c).screenX % 256 :=
    Function.update_self ..
  have hy : (d.keyPutc c).yCursor (d.keyPutc c).activeTerminal = (d.keyPutc c).screenY % 256 :=
    Function.update_self ..
  -- on the screen a coordinate is the byte that is stored of it
  obtain ⟨hx0, hx80, hy0, hy25⟩ := hon
  unfold CursorShown Display.pos
  rw [hvga, hx, hy, Display.screenPos]
  omega

/-- The end of `_backspace`. -/
theorem settled_shown {d : Display} {x y : Int} (h : OnScreen x y) :
    CursorShown ((d.moveTo x y).setTerminalPos x y true).updateCursor := by
  have hx : ((d.moveTo x y).setTerminalPos x y true).updateCursor.xCursor d.activeTerminal =
      x % 256 := Function.update_self ..
  have hy : ((d.moveTo x y).setTerminalPos x y true).updateCursor.yCursor d.activeTerminal =
      y % 256 := Function.update_self ..
  have hvga := updateCursor_vga (d := (d.moveTo x y).setTerminalPos x y true) h
  obtain ⟨hx0, hx80, hy0, hy25⟩ := h
  unfold CursorShown Display.pos
  change _ = 80 * ((d.moveTo x y).setTerminalPos x y true).updateCursor.yCursor d.activeTerminal +
    ((d.moveTo x y).setTerminalPos x y true).updateCursor.xCursor d.activeTerminal
  rw [hvga, hx, hy]
  change 80 * y + x = _
  omega

/-- The displayed terminal's cursor goes to a position on the screen. -/
theorem CursorInv.moveTo {d : Display} (h : CursorInv d) {x y : Int} (hxy : OnScreen x y) :
    CursorInv (d.moveTo x y) ∧ (d.moveTo x y).pos d.activeTerminal = 80 * y + x := by
  have hx : ∀ t, (d.moveTo x y).xCursor t = if t = d.activeTerminal then x % 256 else d.xCursor t :=
    fun t => Function.update_apply ..
  have hy : ∀ t, (d.moveTo x y).yCursor t = if t = d.activeTerminal then y % 256 else d.yCursor t :=
    fun t => Function.update_apply ..
  obtain ⟨hx0, hx80, hy0, hy25⟩ := hxy
  refine ⟨⟨h.active, fun t h0 h3 => ?_, ⟨hx0, hx80, hy0, hy25⟩⟩, ?_⟩
  · have hold := h.cursors t h0 h3
    rw [hx, hy]
    split <;> omega
  · unfold Display.pos
    rw [hx, hy, if_pos rfl, if_pos rfl]
    omega

/-- A space echoed at a position on the screen. -/
theorem space_screen {d : Display} (h : CursorInv d) {x y : Int} (hxy : OnScreen x y) :
    OnScreen ((d.moveTo x y).keyPutc 32).screenX ((d.moveTo x y).keyPutc 32).screenY ∧
      80 * ((d.moveTo x y).keyPutc 32).screenY + ((d.moveTo x y).keyPutc 32).screenX =
        behind 32 (80 * y + x) := by
  obtain ⟨hmoved, hpos⟩ := h.moveTo hxy
  obtain ⟨-, hon, hbehind⟩ := keyPutc_shown hmoved 32
  rw [Display.moveTo_activeTerminal, hpos] at hbehind
  exact ⟨hon, hbehind⟩

/-- **`_backspace`** does too. -/
theorem backspace_shown {d : Display} (h : CursorInv d) :
    CursorShown d.backspace ∧ OnScreen d.backspace.screenX d.backspace.screenY := by
  obtain ⟨d', hd'⟩ : ∃ d', d' =
      ({ d with screenX := d.xReturn true, screenY := d.yReturn true } : Display) :=
    ⟨_, rfl⟩
  have hback : d.backspace =
      if d'.screenX = 0 ∧ d'.screenY = 0 then d'.updateCursor
      else if d'.screenX = 0 then
        (((((d'.moveTo 79 (d'.screenY - 1)).keyPutc 32).moveTo 79
          (((d'.moveTo 79 (d'.screenY - 1)).keyPutc 32).screenY - 1)).setTerminalPos 79
            (((d'.moveTo 79 (d'.screenY - 1)).keyPutc 32).screenY - 1) true).updateCursor)
      else
        (((((d'.moveTo (d'.screenX - 1) d'.screenY).keyPutc 32).moveTo
          (((d'.moveTo (d'.screenX - 1) d'.screenY).keyPutc 32).screenX - 1)
            ((d'.moveTo (d'.screenX - 1) d'.screenY).keyPutc 32).screenY).setTerminalPos
          (((d'.moveTo (d'.screenX - 1) d'.screenY).keyPutc 32).screenX - 1)
            ((d'.moveTo (d'.screenX - 1) d'.screenY).keyPutc 32).screenY true).updateCursor) := by
    rw [hd']
    rfl
  have hloaded : CursorInv d' := by
    rw [hd']
    exact ⟨h.active, h.cursors, h.displayed⟩
  have hshown : d'.pos d'.activeTerminal = d'.screenPos := by
    rw [hd']
    rfl
  -- `_backspace` from the coordinates that it has loaded
  obtain ⟨hx0, hx80, hy0, hy25⟩ := hloaded.screen
  rw [hback]
  by_cases horigin : d'.screenX = 0 ∧ d'.screenY = 0
  · rw [if_pos horigin]
    exact ⟨(updateCursor_vga hloaded.screen).trans hshown.symm, hloaded.screen⟩
  rw [if_neg horigin]
  by_cases hstart : d'.screenX = 0
  · -- to the end of the row above, and back to it
    have habove : OnScreen 79 (d'.screenY - 1) := ⟨by omega, by omega, by omega, by omega⟩
    obtain ⟨⟨hx0', hx80', hy0', hy25'⟩, hpos⟩ := space_screen hloaded habove
    -- the space there takes the cursor to the start of the old row
    have hend : behind 32 (80 * (d'.screenY - 1) + 79) = 80 * d'.screenY := by
      have hlast : (80 * (d'.screenY - 1) + 79) % 80 = 79 := by omega
      unfold behind
      rw [if_pos (Or.inr (Or.inr hlast))]
      omega
    rw [hend] at hpos
    have hagain : OnScreen 79 (((d'.moveTo 79 (d'.screenY - 1)).keyPutc 32).screenY - 1) :=
      ⟨by omega, by omega, by omega, by omega⟩
    rw [if_pos hstart]
    exact ⟨settled_shown hagain, hagain⟩
  · -- to the cell before, and back to it
    have hbefore : OnScreen (d'.screenX - 1) d'.screenY := ⟨by omega, by omega, hy0, hy25⟩
    obtain ⟨⟨hx0', hx80', hy0', hy25'⟩, hpos⟩ := space_screen hloaded hbefore
    have hnext : behind 32 (80 * d'.screenY + (d'.screenX - 1)) = 80 * d'.screenY + d'.screenX := by
      have hinside : ¬ ((32 : UInt8) = 10 ∨ (32 : UInt8) = 13 ∨
          (80 * d'.screenY + (d'.screenX - 1)) % 80 = 79) := by
        rintro (h10 | h13 | hlast)
        · exact absurd h10 (by decide)
        · exact absurd h13 (by decide)
        · omega
      unfold behind
      rw [if_neg hinside]
      omega
    rw [hnext] at hpos
    have hagain : OnScreen (((d'.moveTo (d'.screenX - 1) d'.screenY).keyPutc 32).screenX - 1)
        ((d'.moveTo (d'.screenX - 1) d'.screenY).keyPutc 32).screenY :=
      ⟨by omega, by omega, hy0', hy25'⟩
    rw [if_neg hstart]
    exact ⟨settled_shown hagain, hagain⟩

/-- **`my_putc`** moves the cursor of its own terminal, and programs the VGA with `screen_x` and
`screen_y`, which it leaves alone. -/
theorem myPutc_vga {d : Display} (h : CursorInv d) (c : UInt8) :
    (d.myPutc c).vgaCursor = d.screenPos ∧
      (d.myPutc c).pos d.activeTerminal =
        if d.processNum d.mainProcess = d.activeTerminal then behind c (d.pos d.activeTerminal)
        else d.pos d.activeTerminal := by
  refine ⟨updateCursor_vga (d := d.myPutc c) h.screen, ?_⟩
  have hx : (d.myPutc c).xCursor = Function.update d.xCursor (d.processNum d.mainProcess)
      ((emit d.videoReturn d.textColor c ⟨d.mem, d.xReturn false, d.yReturn false⟩).x % 256) := rfl
  have hy : (d.myPutc c).yCursor = Function.update d.yCursor (d.processNum d.mainProcess)
      ((emit d.videoReturn d.textColor c ⟨d.mem, d.xReturn false, d.yReturn false⟩).y % 256) := rfl
  unfold Display.pos
  rw [hx, hy]
  by_cases hown : d.processNum d.mainProcess = d.activeTerminal
  · have hload : d.xReturn false = d.xCursor d.activeTerminal ∧
        d.yReturn false = d.yCursor d.activeTerminal := by
      rw [← hown]
      exact ⟨rfl, rfl⟩
    -- what is computed are coordinates on the screen, so that the stored bytes are the same
    obtain ⟨⟨hx0, hx80, hy0, hy25⟩, hpos⟩ :=
      emit_pos d.videoReturn d.textColor c d.mem h.displayed
    rw [if_pos hown, hown, Function.update_self, Function.update_self, hload.1, hload.2, ← hpos]
    omega
  · rw [if_neg hown, Function.update_of_ne (Ne.symm hown), Function.update_of_ne (Ne.symm hown)]

/-- **`putc`** moves `screen_x` and `screen_y` alone. -/
theorem putc_vga {d : Display} (h : CursorInv d) (c : UInt8) :
    OnScreen (d.putc c).screenX (d.putc c).screenY ∧
      (d.putc c).vgaCursor = behind c d.screenPos := by
  obtain ⟨hon, hpos⟩ := emit_pos videoMem d.textColor c d.mem h.screen
  exact ⟨hon, (updateCursor_vga (d := d.putc c) hon).trans hpos⟩

/-- **A terminal switch** moves no terminal's cursor and programs nothing. -/
theorem switchTerminal_vga (d : Display) (terminal : Int) (entered : Bool) :
    (d.switchTerminal terminal entered).vgaCursor = d.vgaCursor ∧
      (d.switchTerminal terminal entered).xCursor = d.xCursor ∧
      (d.switchTerminal terminal entered).yCursor = d.yCursor := by
  unfold Display.switchTerminal
  split
  · exact ⟨rfl, rfl, rfl⟩
  · dsimp only
    split
    · cases entered <;> exact ⟨rfl, rfl, rfl⟩
    · exact ⟨rfl, rfl, rfl⟩

/-- It loads `screen_x` and `screen_y`, unless the shell that it starts does not return. -/
theorem CursorInv.switchTerminal {d : Display} (h : CursorInv d) {terminal : Int}
    (h0 : 0 ≤ terminal) (h3 : terminal < 3) (entered : Bool) :
    CursorInv (d.switchTerminal terminal entered) where
  active := by
    rw [Display.switchTerminal_activeTerminal]
    exact ⟨h0, h3⟩
  cursors := h.cursors.switchTerminal terminal entered
  screen := by
    unfold Display.switchTerminal
    split
    · exact h.screen
    · dsimp only
      split
      · cases entered with
        | true => exact h.screen
        | false => exact h.onScreen h0 h3
      · exact h.onScreen h0 h3

theorem onScreen_origin : OnScreen 0 0 := ⟨by decide, by decide, by decide, by decide⟩

/-- **Every event** leaves the cursors on the screen. -/
theorem CursorInv.step {d : Display} (h : CursorInv d) (e : OutputEvent) :
    CursorInv (outputStep d e) := by
  cases e with
  | display e =>
    cases e with
    | myPutc c => exact ⟨h.active, h.cursors.myPutc c, h.screen⟩
    | keyPutc c => exact ⟨h.active, h.cursors.keyPutc h.active c, (keyPutc_shown h c).2.1⟩
    | backspace =>
      refine ⟨?_, h.cursors.backspace h.active, (backspace_shown h).2⟩
      change 0 ≤ d.backspace.activeTerminal ∧ d.backspace.activeTerminal < 3
      rw [Display.backspace_activeTerminal]
      exact h.active
    | switchTerminal terminal entered =>
      exact h.switchTerminal (Int.natCast_nonneg _) (by omega) entered
    | schedule processNum mainProcess currTask => exact ⟨h.active, h.cursors, h.screen⟩
  | putc c => exact ⟨h.active, h.cursors, (putc_vga h c).1⟩
  | clear => exact ⟨h.active, h.cursors, onScreen_origin⟩

/-- **Each output** shows the displayed terminal's cursor under its condition only. -/
theorem output_shown_iff {d : Display} (h : CursorInv d) (e : OutputEvent) :
    (e.IsOutput → CursorShown (outputStep d e)) ↔ CursorRight d e := by
  cases e with
  | display e =>
    cases e with
    | myPutc c =>
      obtain ⟨hvga, hpos⟩ := myPutc_vga h c
      have hiff : CursorShown (d.myPutc c) ↔ CursorRight d (.display (.myPutc c)) := by
        unfold CursorShown
        change (d.myPutc c).vgaCursor = (d.myPutc c).pos d.activeTerminal ↔ _
        rw [hvga, hpos]
        exact Iff.rfl
      exact (imp_iff_right trivial).trans hiff
    | keyPutc c => exact iff_of_true (fun _ => (keyPutc_shown h c).1) trivial
    | backspace => exact iff_of_true (fun _ => (backspace_shown h).1) trivial
    | switchTerminal terminal entered =>
      obtain ⟨hvga, hx, hy⟩ := switchTerminal_vga d (terminal.val : Nat) entered
      have hiff : CursorShown (d.switchTerminal (terminal.val : Nat) entered) ↔
          CursorRight d (.display (.switchTerminal terminal entered)) := by
        unfold CursorShown Display.pos
        rw [Display.switchTerminal_activeTerminal, hvga, hx, hy]
        exact Iff.rfl
      exact (imp_iff_right trivial).trans hiff
    | schedule processNum mainProcess currTask => exact iff_of_true (fun hout => hout.elim) trivial
  | putc c =>
    have hiff : CursorShown (d.putc c) ↔ CursorRight d (.putc c) := by
      unfold CursorShown
      rw [(putc_vga h c).2]
      exact Iff.rfl
    exact (imp_iff_right trivial).trans hiff
  | clear =>
    have hiff : CursorShown d.myClear ↔ CursorRight d .clear := eq_comm
    exact (imp_iff_right trivial).trans hiff

theorem cursorInv_init (d : Display) : CursorInv d.init where
  active := ⟨le_refl 0, by change (0 : Int) < 3; omega⟩
  cursors _ _ _ := ⟨⟨le_refl 0, by change (0 : Int) < 80; omega⟩,
    ⟨le_refl 0, by change (0 : Int) < 25; omega⟩⟩
  screen := onScreen_origin

/-- **The hardware cursor**: in every run from the start, the VGA shows the cursor of the displayed
terminal after every output exactly when each output of the run meets its condition: the echo of a
key and a backspace always do, a process's character only while `screen_x` and `screen_y` happen to
be where the displayed terminal's cursor is after it, and a terminal switch only between terminals
whose cursors are at the same position. -/
theorem cursor_shown_iff (d : Display) (es : List OutputEvent) :
    (∀ pre e, pre ++ [e] <+: es → e.IsOutput →
        CursorShown (run outputStep d.init (pre ++ [e]))) ↔
      Along outputStep CursorRight d.init es := by
  have hsteps := along_iff_of_invariant (I := CursorInv) (fun _ e h => h.step e)
    (fun _ e h => output_shown_iff h e) (cursorInv_init d) es
  rw [← hsteps, along_iff_prefix]
  constructor
  · intro hall pre e hpre hout
    have hshown := hall pre e hpre hout
    rw [run_append] at hshown
    exact hshown
  · intro hall pre e hpre hout
    rw [run_append]
    exact hall pre e hpre hout

/-- The first character that the first shell writes leaves the VGA's cursor at the top left. -/
theorem cursor_left_behind :
    let es := [OutputEvent.display (.schedule (fun p => if p = 0 then 0 else -1) 0 fun _ => 0),
      .display (.myPutc 65)]
    let d := run outputStep sampleDisplay.init es
    d.vgaCursor = 0 ∧ d.pos d.activeTerminal = 1 ∧ ¬ CursorShown d :=
  ⟨by decide +kernel, by decide +kernel, by decide +kernel⟩

end SrirachOS
