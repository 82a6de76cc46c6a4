import SrirachOS.Console.Screen
import SrirachOS.Kernel.Vidmap

/-!
# The Display

The output routines of `lib.c`, the helpers of `syscall.c` that choose their page and their cursor,
and the part of `switch_terminal` that moves the screens. A process writes with `my_putc`, to the
page and the cursor of its own terminal; the keyboard echoes with `key_putc` and `_backspace`, to
the video page and the cursor of the displayed terminal.

- `emit_shows`: what both families of routines do to a page, as an operation on a `Screen`.

The loop counters and cursors are `Int`; cursors are stored through `uint8_t` and never negative.
-/

namespace SrirachOS

open Foundation

/-! ## State -/

/-- The variables of the screens. -/
structure Display where
  /-- `process_num` -/
  processNum : Int → Int
  /-- `main_process` -/
  mainProcess : Int
  /-- `active_terminal` -/
  activeTerminal : Int
  /-- `terminals[t].curr_task` -/
  currTask : Int → Int
  /-- `terminals[t].x_cursor` -/
  xCursor : Int → Int
  /-- `terminals[t].y_cursor` -/
  yCursor : Int → Int
  /-- `screen_x` -/
  screenX : Int
  /-- `screen_y` -/
  screenY : Int
  /-- `text_color` -/
  textColor : UInt8
  /-- the cursor position in the registers of the VGA -/
  vgaCursor : Int
  /-- physical memory -/
  mem : Nat → UInt8

/-- `((BLACK)<<4) | (GRAY)`. -/
def gray : UInt8 := 7

/-- `VIDEO` of `lib.c` and `VIDEO_MEMORY_ADDRESS` of `syscall.c`. -/
@[irreducible] def videoMem : Nat := 0xB8000

/-! ## Writing to a page -/

/-- The address of the character in column `x` of row `y`. -/
def cellAddr (addr : Nat) (x y : Int) : Nat := (addr + 2 * (80 * y + x)).toNat

/-- The body of the loops of `_scroll_down_(video_addr)`. -/
def scrollCell (addr i j : Nat) (mem : Nat → UInt8) : Nat → UInt8 :=
  Function.update mem (addr + 2 * (80 * i + j))
    (if i = 24 then 32 else mem (addr + 2 * (80 * (i + 1) + j)))

/-- `for (j = 0; j < NUM_COLS; j++)`, with the number of turns left. -/
def scrollCols (addr i : Nat) : Nat → Nat → (Nat → UInt8) → Nat → UInt8
  | 0, _, mem => mem
  | turns + 1, j, mem => scrollCols addr i turns (j + 1) (scrollCell addr i j mem)

/-- `for (i = 0; i < NUM_ROWS; i++)`, with the number of turns left. -/
def scrollRows (addr : Nat) : Nat → Nat → (Nat → UInt8) → Nat → UInt8
  | 0, _, mem => mem
  | turns + 1, i, mem => scrollRows addr turns (i + 1) (scrollCols addr i 80 0 mem)

/-- `_scroll_down_(video_addr)`, and `_scroll_down()` for the video page. -/
def scrollDown (addr : Nat) (mem : Nat → UInt8) : Nat → UInt8 := scrollRows addr 25 0 mem

/-- The memory and the cursor that an output routine works on. -/
structure Pen where
  mem : Nat → UInt8
  x : Int
  y : Int

/-- The common body of `my_putc` and `key_putc`: the page at `addr` and the colour are given. -/
def emit (addr : Nat) (color c : UInt8) (pen : Pen) : Pen :=
  if c = 10 ∨ c = 13 then
    if pen.y = 24 then ⟨scrollDown addr pen.mem, 0, pen.y⟩ else ⟨pen.mem, 0, pen.y + 1⟩
  else
    let cell := cellAddr addr pen.x pen.y
    let mem := Function.update (Function.update pen.mem cell c) (cell + 1) color
    let x := (pen.x + 1) % 80
    let y := (pen.y + x / 80) % 25
    if x = 0 then
      if y = 24 then ⟨scrollDown addr mem, x, y⟩ else ⟨mem, x, y + 1⟩
    else ⟨mem, x, y⟩

/-- `memcpy(dest, src, n)`. -/
@[irreducible] def memcpy (dest src n : Nat) (mem : Nat → UInt8) : Nat → UInt8 := fun a =>
  if dest ≤ a ∧ a < dest + n then mem (src + (a - dest)) else mem a

namespace Display

/-! ## syscall.c -/

/-- `video_return()`. -/
def videoReturn (d : Display) : Nat :=
  if d.processNum d.mainProcess = d.activeTerminal then videoMem
  else (0xB8000 + 0x1000 * (1 + d.processNum d.mainProcess)).toNat

/-- The terminal that `x_return`, `y_return` and `set_terminal_pos` mean by `t`. -/
def terminalOf (d : Display) (t : Bool) : Int :=
  if t then d.activeTerminal else d.processNum d.mainProcess

/-- `x_return(t)`. -/
def xReturn (d : Display) (t : Bool) : Int := d.xCursor (d.terminalOf t)

/-- `y_return(t)`. -/
def yReturn (d : Display) (t : Bool) : Int := d.yCursor (d.terminalOf t)

/-- `set_terminal_pos(x, y, t)`; the coordinates are passed as `uint8_t`. -/
def setTerminalPos (x y : Int) (t : Bool) (d : Display) : Display :=
  { d with
    xCursor := Function.update d.xCursor (d.terminalOf t) (x % 256)
    yCursor := Function.update d.yCursor (d.terminalOf t) (y % 256) }

/-! ## lib.c -/

/-- `update_cursor()`; the position is a `uint16_t`. -/
def updateCursor (d : Display) : Display :=
  { d with vgaCursor := (d.screenY * 80 + d.screenX) % 65536 }

/-- `my_putc(c)`. -/
def myPutc (c : UInt8) (d : Display) : Display :=
  let pen := emit d.videoReturn d.textColor c ⟨d.mem, d.xReturn false, d.yReturn false⟩
  ({ d with mem := pen.mem }.setTerminalPos pen.x pen.y false).updateCursor

/-- `key_putc(c)`. -/
def keyPutc (c : UInt8) (d : Display) : Display :=
  let pen := emit videoMem d.textColor c ⟨d.mem, d.xReturn true, d.yReturn true⟩
  ({ d with mem := pen.mem, screenX := pen.x, screenY := pen.y }.setTerminalPos pen.x pen.y
    true).updateCursor

/-- `screen_x` and `screen_y` go to `(x, y)`, and the displayed terminal's cursor with them. -/
def moveTo (x y : Int) (d : Display) : Display :=
  { d with screenX := x, screenY := y }.setTerminalPos x y true

/-- `_backspace()`. -/
def backspace (d : Display) : Display :=
  let d := { d with screenX := d.xReturn true, screenY := d.yReturn true }
  if d.screenX = 0 ∧ d.screenY = 0 then d.updateCursor
  else if d.screenX = 0 then
    let d := (d.moveTo 79 (d.screenY - 1)).keyPutc 32
    let d := d.moveTo 79 (d.screenY - 1)
    (d.setTerminalPos d.screenX d.screenY true).updateCursor
  else
    let d := (d.moveTo (d.screenX - 1) d.screenY).keyPutc 32
    let d := d.moveTo (d.screenX - 1) d.screenY
    (d.setTerminalPos d.screenX d.screenY true).updateCursor

/-! ## The terminal switch -/

/-- `terminals[t].video_addr`. -/
@[irreducible] def videoAddr (t : Int) : Nat := (0xB8000 + 0x1000 * (t + 1)).toNat

/-- The end of `switch_terminal`: the cursor and the screen of the displayed terminal. -/
def restoreScreen (d : Display) : Display :=
  { d with
    screenX := d.xCursor d.activeTerminal
    screenY := d.yCursor d.activeTerminal
    mem := memcpy videoMem (videoAddr d.activeTerminal) 4096 d.mem }

/-- `switch_terminal(terminal)`, less the start of a shell: `entered` tells whether the execute that
it calls for a terminal without a task enters the shell, and so never comes back. One that finds no slot,
which takes a second switch inside the first, writes `Max processes.` with `my_puts` before it comes back;
that output is left out. -/
def switchTerminal (terminal : Int) (entered : Bool) (d : Display) : Display :=
  if d.activeTerminal = terminal then d
  else
    let d := { d with
      mem := memcpy (videoAddr d.activeTerminal) videoMem 4096 d.mem
      textColor := gray
      activeTerminal := terminal }
    if d.currTask terminal = -1 then
      let d := { d with mem := memcpy videoMem (videoAddr d.activeTerminal) 4096 d.mem }
      if entered then d else d.restoreScreen
    else d.restoreScreen

/-- The variables after `init_terminals`. -/
def init (d : Display) : Display :=
  { d with
    processNum := fun _ => -1
    mainProcess := 0
    activeTerminal := 0
    currTask := fun _ => -1
    xCursor := fun _ => 0
    yCursor := fun _ => 0
    screenX := 0
    screenY := 0
    textColor := gray }

/-- A terminal switch displays the terminal. -/
@[simp] theorem switchTerminal_activeTerminal (d : Display) (terminal : Int) (entered : Bool) :
    (d.switchTerminal terminal entered).activeTerminal = terminal := by
  unfold switchTerminal
  by_cases hsame : d.activeTerminal = terminal
  · rw [if_pos hsame]
    exact hsame
  · rw [if_neg hsame]
    dsimp only
    split
    · cases entered <;> rfl
    · rfl

@[simp] theorem setTerminalPos_activeTerminal (x y : Int) (t : Bool) (d : Display) :
    (d.setTerminalPos x y t).activeTerminal = d.activeTerminal := rfl

@[simp] theorem setTerminalPos_processNum (x y : Int) (t : Bool) (d : Display) :
    (d.setTerminalPos x y t).processNum = d.processNum := rfl

@[simp] theorem updateCursor_activeTerminal (d : Display) :
    d.updateCursor.activeTerminal = d.activeTerminal := rfl

@[simp] theorem updateCursor_processNum (d : Display) :
    d.updateCursor.processNum = d.processNum := rfl

@[simp] theorem moveTo_activeTerminal (x y : Int) (d : Display) :
    (d.moveTo x y).activeTerminal = d.activeTerminal := rfl

@[simp] theorem moveTo_processNum (x y : Int) (d : Display) :
    (d.moveTo x y).processNum = d.processNum := rfl

@[simp] theorem keyPutc_activeTerminal (d : Display) (c : UInt8) :
    (d.keyPutc c).activeTerminal = d.activeTerminal := rfl

@[simp] theorem keyPutc_processNum (d : Display) (c : UInt8) :
    (d.keyPutc c).processNum = d.processNum := rfl

@[simp] theorem backspace_activeTerminal (d : Display) :
    d.backspace.activeTerminal = d.activeTerminal := by
  unfold backspace
  dsimp only
  split_ifs <;> simp

@[simp] theorem backspace_processNum (d : Display) : d.backspace.processNum = d.processNum := by
  unfold backspace
  dsimp only
  split_ifs <;> simp

end Display

/-! ## What the routines do to a page -/

/-- The 4000 bytes at `addr` show a screen, and `(x, y)` is its cursor. -/
structure Shows (mem : Nat → UInt8) (addr : Nat) (x y : Int) (s : Screen) : Prop where
  char : ∀ (r : Fin 25) (c : Fin 80), mem (addr + 2 * (80 * r.val + c.val)) = s.char r c
  attr : ∀ (r : Fin 25) (c : Fin 80), mem (addr + 2 * (80 * r.val + c.val) + 1) = s.attr r c
  col : x = s.col.val
  row : y = s.row.val

/-- Address `a` is that of a character, from the cell `lo` up to the cell `hi` of the page. -/
def InCells (addr lo hi a : Nat) : Prop :=
  addr + 2 * lo ≤ a ∧ a < addr + 2 * hi ∧ (addr + a) % 2 = 0

instance (addr lo hi a : Nat) : Decidable (InCells addr lo hi a) :=
  inferInstanceAs (Decidable (_ ∧ _))

/-- The cells from column `j` of row `i` on take the characters of the row below. -/
theorem scrollCols_apply (addr i turns j : Nat) (hj : j + turns ≤ 80) (mem : Nat → UInt8) (a : Nat) :
    scrollCols addr i turns j mem a =
      if InCells addr (80 * i + j) (80 * i + j + turns) a then
        if i = 24 then 32 else mem (a + 160)
      else mem a := by
  induction turns generalizing j mem with
  | zero =>
    have hnone : ¬ InCells addr (80 * i + j) (80 * i + j + 0) a := by
      unfold InCells
      omega
    rw [if_neg hnone]
    rfl
  | succ turns ih =>
    rw [scrollCols, ih (j + 1) (by omega), scrollCell]
    by_cases ha : a = addr + 2 * (80 * i + j)
    · have hlater : ¬ InCells addr (80 * i + (j + 1)) (80 * i + (j + 1) + turns) a := by
        unfold InCells
        omega
      have hin : InCells addr (80 * i + j) (80 * i + j + (turns + 1)) a := by
        unfold InCells
        omega
      have hbelow : addr + 2 * (80 * (i + 1) + j) = a + 160 := by omega
      rw [if_neg hlater, if_pos hin, ← ha, Function.update_self, hbelow]
    · by_cases hlater : InCells addr (80 * i + (j + 1)) (80 * i + (j + 1) + turns) a
      · -- the row below is not written in this loop
        have hin : InCells addr (80 * i + j) (80 * i + j + (turns + 1)) a := by
          unfold InCells at hlater ⊢
          omega
        have hread : a + 160 ≠ addr + 2 * (80 * i + j) := by
          unfold InCells at hlater
          omega
        rw [if_pos hlater, if_pos hin, Function.update_of_ne hread]
      · have hnot : ¬ InCells addr (80 * i + j) (80 * i + j + (turns + 1)) a := by
          unfold InCells at hlater ⊢
          omega
        rw [if_neg hlater, if_neg hnot, Function.update_of_ne ha]

/-- The rows from `i` on take the characters of the rows below, and the last one is blanked. -/
theorem scrollRows_apply (addr turns i : Nat) (hi : i + turns ≤ 25) (mem : Nat → UInt8) (a : Nat) :
    scrollRows addr turns i mem a =
      if InCells addr (80 * i) (80 * (i + turns)) a then
        if addr + 3840 ≤ a then 32 else mem (a + 160)
      else mem a := by
  induction turns generalizing i mem with
  | zero =>
    have hnone : ¬ InCells addr (80 * i) (80 * (i + 0)) a := by
      unfold InCells
      omega
    rw [if_neg hnone]
    rfl
  | succ turns ih =>
    have hcols := scrollCols_apply addr i 80 0 (le_refl 80) mem
    rw [scrollRows, ih (i + 1) (by omega)]
    by_cases hrow : InCells addr (80 * i + 0) (80 * i + 0 + 80) a
    · have hlater : ¬ InCells addr (80 * (i + 1)) (80 * (i + 1 + turns)) a := by
        unfold InCells at hrow ⊢
        omega
      have hin : InCells addr (80 * i) (80 * (i + (turns + 1))) a := by
        unfold InCells at hrow ⊢
        omega
      rw [if_neg hlater, if_pos hin, hcols, if_pos hrow]
      unfold InCells at hrow
      exact if_congr (by omega) rfl rfl
    · by_cases hlater : InCells addr (80 * (i + 1)) (80 * (i + 1 + turns)) a
      · have hin : InCells addr (80 * i) (80 * (i + (turns + 1))) a := by
          unfold InCells at hlater ⊢
          omega
        -- the rows below have not been written yet
        have hbelow : ¬ InCells addr (80 * i + 0) (80 * i + 0 + 80) (a + 160) := by
          unfold InCells at hlater ⊢
          omega
        rw [if_pos hlater, if_pos hin, hcols, if_neg hbelow]
      · have hnot : ¬ InCells addr (80 * i) (80 * (i + (turns + 1))) a := by
          unfold InCells at hlater hrow ⊢
          omega
        rw [if_neg hlater, if_neg hnot, hcols, if_neg hrow]

/-- What scrolling does, cell by cell. -/
theorem scrollDown_apply (addr : Nat) (mem : Nat → UInt8) (a : Nat) :
    scrollDown addr mem a =
      if InCells addr 0 2000 a then if addr + 3840 ≤ a then 32 else mem (a + 160) else mem a :=
  scrollRows_apply addr 25 0 (le_refl 25) mem a

theorem scrollDown_outside {addr a : Nat} (mem : Nat → UInt8) (h : a < addr ∨ addr + 4000 ≤ a) :
    scrollDown addr mem a = mem a := by
  have hnot : ¬ InCells addr 0 2000 a := by
    unfold InCells
    omega
  rw [scrollDown_apply, if_neg hnot]

/-- **Scrolling** moves the characters up a row. -/
theorem shows_scrollDown {mem : Nat → UInt8} {addr : Nat} {x y : Int} {s : Screen}
    (h : Shows mem addr x y s) : Shows (scrollDown addr mem) addr x y s.scrolled where
  char r c := by
    have hin : InCells addr 0 2000 (addr + 2 * (80 * r.val + c.val)) := by
      unfold InCells
      omega
    rw [scrollDown_apply, if_pos hin]
    unfold Screen.scrolled
    dsimp only
    by_cases hlast : r.val + 1 < 25
    · have hbelow : addr + 2 * (80 * r.val + c.val) + 160 =
          addr + 2 * (80 * (⟨r.val + 1, hlast⟩ : Fin 25).val + c.val) := by
        dsimp only
        omega
      rw [if_neg (by omega), dif_pos hlast, hbelow]
      exact h.char ⟨r.val + 1, hlast⟩ c
    · rw [if_pos (by omega), dif_neg hlast]
  attr r c := by
    have hnot : ¬ InCells addr 0 2000 (addr + 2 * (80 * r.val + c.val) + 1) := by
      unfold InCells
      omega
    rw [scrollDown_apply, if_neg hnot]
    exact h.attr r c
  col := h.col
  row := h.row

/-- **A character** and its colour. -/
theorem shows_store {mem : Nat → UInt8} {addr : Nat} {x y : Int} {s : Screen}
    (h : Shows mem addr x y s) (color c : UInt8) :
    Shows (Function.update (Function.update mem (cellAddr addr x y) c) (cellAddr addr x y + 1) color)
      addr x y (s.store color c) := by
  have hcell : cellAddr addr x y = addr + 2 * (80 * s.row.val + s.col.val) := by
    unfold cellAddr
    rw [h.col, h.row]
    omega
  rw [hcell]
  refine ⟨?_, ?_, h.col, h.row⟩
  · intro r k
    have hsame : addr + 2 * (80 * r.val + k.val) = addr + 2 * (80 * s.row.val + s.col.val) ↔
        r = s.row ∧ k = s.col := by
      rw [Fin.ext_iff, Fin.ext_iff]
      omega
    unfold Screen.store
    dsimp only
    rw [Function.update_of_ne (by omega), Function.update_apply, ← h.char r k]
    exact if_congr hsame rfl rfl
  · intro r k
    have hsame : addr + 2 * (80 * r.val + k.val) + 1 =
        addr + 2 * (80 * s.row.val + s.col.val) + 1 ↔ r = s.row ∧ k = s.col := by
      rw [Fin.ext_iff, Fin.ext_iff]
      omega
    unfold Screen.store
    dsimp only
    rw [Function.update_apply, Function.update_of_ne (by omega), ← h.attr r k]
    exact if_congr hsame rfl rfl

/-- **The end of a row**: the cursor goes to the start of the next one. -/
theorem shows_newline {mem : Nat → UInt8} {addr : Nat} {x y : Int} {s : Screen}
    (h : Shows mem addr x y s) :
    (y = 24 → Shows (scrollDown addr mem) addr 0 y s.newline) ∧
      (y ≠ 24 → Shows mem addr 0 (y + 1) s.newline) := by
  have hrow := h.row
  have hlt := s.row.isLt
  unfold Screen.newline
  constructor
  · intro hy
    have hscroll := shows_scrollDown h
    rw [dif_neg (by omega)]
    exact ⟨hscroll.char, hscroll.attr, rfl, hscroll.row⟩
  · intro hy
    rw [dif_pos (by omega)]
    refine ⟨h.char, h.attr, rfl, ?_⟩
    change y + 1 = ((s.row.val + 1 : Nat) : Int)
    omega

/-- **One character of output**: on the page it is the write of a private screen, and nothing
outside the page changes. -/
theorem emit_shows {addr : Nat} {s : Screen} (pen : Pen) (h : Shows pen.mem addr pen.x pen.y s)
    (color c : UInt8) :
    Shows (emit addr color c pen).mem addr (emit addr color c pen).x (emit addr color c pen).y
        (s.write color c) ∧
      ∀ a, a < addr ∨ addr + 4000 ≤ a → (emit addr color c pen).mem a = pen.mem a := by
  obtain ⟨mem, x, y⟩ := pen
  dsimp only at h ⊢
  have hcol := h.col
  have hrow := h.row
  have hc80 := s.col.isLt
  have hr25 := s.row.isLt
  unfold emit Screen.write
  by_cases hend : c = 10 ∨ c = 13
  · rw [if_pos hend, if_pos hend]
    obtain ⟨hlast, hnext⟩ := shows_newline h
    dsimp only
    by_cases hy : y = 24
    · rw [if_pos hy]
      exact ⟨hlast hy, fun a ha => scrollDown_outside mem ha⟩
    · rw [if_neg hy]
      exact ⟨hnext hy, fun a _ => rfl⟩
  · rw [if_neg hend, if_neg hend]
    dsimp only
    have hstore := shows_store h color c
    have hcell : cellAddr addr x y = addr + 2 * (80 * s.row.val + s.col.val) := by
      unfold cellAddr
      omega
    have hstored : ∀ a, a < addr ∨ addr + 4000 ≤ a →
        Function.update (Function.update mem (cellAddr addr x y) c) (cellAddr addr x y + 1) color a =
          mem a := by
      intro a ha
      rw [Function.update_of_ne (by omega), Function.update_of_ne (by omega)]
    generalize Function.update (Function.update mem (cellAddr addr x y) c) (cellAddr addr x y + 1)
      color = mem' at hstore hstored
    have hy : (y + (x + 1) % 80 / 80) % 25 = y := by omega
    rw [hy]
    unfold Screen.advance
    by_cases hx : (x + 1) % 80 = 0
    · have hlast : ¬ (s.store color c).col.val + 1 < 80 := by
        change ¬ s.col.val + 1 < 80
        omega
      obtain ⟨hscroll, hnext⟩ := shows_newline hstore
      rw [if_pos hx, dif_neg hlast, hx]
      by_cases hy24 : y = 24
      · rw [if_pos hy24]
        exact ⟨hscroll hy24, fun a ha => (scrollDown_outside mem' ha).trans (hstored a ha)⟩
      · rw [if_neg hy24]
        exact ⟨hnext hy24, hstored⟩
    · have hroom : (s.store color c).col.val + 1 < 80 := by
        change s.col.val + 1 < 80
        omega
      rw [if_neg hx, dif_pos hroom]
      refine ⟨⟨hstore.char, hstore.attr, ?_, hstore.row⟩, hstored⟩
      change (x + 1) % 80 = ((s.col.val + 1 : Nat) : Int)
      omega

end SrirachOS
