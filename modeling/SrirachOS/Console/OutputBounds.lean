import SrirachOS.Console.Cursor
import SrirachOS.Foundation.Traced

/-!
# The Bounds of Video Memory

The output routines, `my_clear` and `switch_terminal` with each store and each copy recorded. None of
them checks an address: a character is stored where the cursor is, and the cursors are kept on the
screen.

- `Painting`: the routines with their stores and copies, which compute what the plain ones do,
- `VideoAccess.InBounds`: the visible part of a page, and whole pages for the copies,
- `outputStep_within`: one event,
- `output_bounds`: every run from the start.
-/

namespace SrirachOS

open Foundation Traced Kernel

/-! ## Accesses -/

/-- A byte that is stored, or a block that is copied. -/
inductive VideoAccess where
  | store (a : Nat)
  | copy (dest src n : Nat)

/-- The video page, or the backing page of a terminal. -/
def IsPage (addr : Nat) : Prop :=
  addr = videoMem ∨ ∃ t : Int, (0 ≤ t ∧ t < 3) ∧ addr = Display.videoAddr t

/-- A block of `n` bytes at `a` is in the first `size` bytes of a page. -/
def OnPage (size a n : Nat) : Prop := ∃ addr, IsPage addr ∧ addr ≤ a ∧ a + n ≤ addr + size

/-- Stores go to the 4000 bytes of a page that are shown, and copies from page to page. -/
def VideoAccess.InBounds : VideoAccess → Prop
  | store a => OnPage 4000 a 1
  | copy dest src n => OnPage 4096 dest n ∧ OnPage 4096 src n

/-! ## The routines with their accesses -/

namespace Painting

/-- A byte is stored. -/
def store (a : Nat) (b : UInt8) (mem : Nat → UInt8) : Traced VideoAccess (Nat → UInt8) := do
  touch (.store a)
  pure (Function.update mem a b)

/-- The body of the loops of `_scroll_down_`. -/
def scrollCell (addr i j : Nat) (mem : Nat → UInt8) : Traced VideoAccess (Nat → UInt8) :=
  store (addr + 2 * (80 * i + j)) (if i = 24 then 32 else mem (addr + 2 * (80 * (i + 1) + j))) mem

/-- `for (j = 0; j < NUM_COLS; j++)`. -/
def scrollCols (addr i : Nat) : Nat → Nat → (Nat → UInt8) → Traced VideoAccess (Nat → UInt8)
  | 0, _, mem => pure mem
  | turns + 1, j, mem => do
    let mem ← scrollCell addr i j mem
    scrollCols addr i turns (j + 1) mem

/-- `for (i = 0; i < NUM_ROWS; i++)`. -/
def scrollRows (addr : Nat) : Nat → Nat → (Nat → UInt8) → Traced VideoAccess (Nat → UInt8)
  | 0, _, mem => pure mem
  | turns + 1, i, mem => do
    let mem ← scrollCols addr i 80 0 mem
    scrollRows addr turns (i + 1) mem

/-- `_scroll_down_(video_addr)`. -/
def scrollDown (addr : Nat) (mem : Nat → UInt8) : Traced VideoAccess (Nat → UInt8) :=
  scrollRows addr 25 0 mem

/-- The common body of `my_putc`, `key_putc` and `putc`. -/
def emit (addr : Nat) (color c : UInt8) (pen : Pen) : Traced VideoAccess Pen :=
  if c = 10 ∨ c = 13 then
    if pen.y = 24 then do
      let mem ← scrollDown addr pen.mem
      pure ⟨mem, 0, pen.y⟩
    else pure ⟨pen.mem, 0, pen.y + 1⟩
  else do
    let cell := cellAddr addr pen.x pen.y
    let mem ← store cell c pen.mem
    let mem ← store (cell + 1) color mem
    let x := (pen.x + 1) % 80
    let y := (pen.y + x / 80) % 25
    if x = 0 then
      if y = 24 then do
        let mem ← scrollDown addr mem
        pure ⟨mem, x, y⟩
      else pure ⟨mem, x, y + 1⟩
    else pure ⟨mem, x, y⟩

/-- `my_putc(c)`. -/
def myPutc (c : UInt8) (d : Display) : Traced VideoAccess Display := do
  let pen ← emit d.videoReturn d.textColor c ⟨d.mem, d.xReturn false, d.yReturn false⟩
  pure ({ d with mem := pen.mem }.setTerminalPos pen.x pen.y false).updateCursor

/-- `key_putc(c)`. -/
def keyPutc (c : UInt8) (d : Display) : Traced VideoAccess Display := do
  let pen ← emit videoMem d.textColor c ⟨d.mem, d.xReturn true, d.yReturn true⟩
  pure ({ d with mem := pen.mem, screenX := pen.x, screenY := pen.y }.setTerminalPos pen.x pen.y
    true).updateCursor

/-- `putc(c)`. -/
def putc (c : UInt8) (d : Display) : Traced VideoAccess Display := do
  let pen ← emit videoMem d.textColor c ⟨d.mem, d.screenX, d.screenY⟩
  pure { d with mem := pen.mem, screenX := pen.x, screenY := pen.y }.updateCursor

/-- `_backspace()`. -/
def backspace (d : Display) : Traced VideoAccess Display :=
  let d := { d with screenX := d.xReturn true, screenY := d.yReturn true }
  if d.screenX = 0 ∧ d.screenY = 0 then pure d.updateCursor
  else if d.screenX = 0 then do
    let d ← keyPutc 32 (d.moveTo 79 (d.screenY - 1))
    let d := d.moveTo 79 (d.screenY - 1)
    pure (d.setTerminalPos d.screenX d.screenY true).updateCursor
  else do
    let d ← keyPutc 32 (d.moveTo (d.screenX - 1) d.screenY)
    let d := d.moveTo (d.screenX - 1) d.screenY
    pure (d.setTerminalPos d.screenX d.screenY true).updateCursor

/-- The loop of `my_clear`. -/
def clearCells (color : UInt8) : Nat → Nat → (Nat → UInt8) → Traced VideoAccess (Nat → UInt8)
  | 0, _, mem => pure mem
  | turns + 1, i, mem => do
    let mem ← store (videoMem + 2 * i) 32 mem
    let mem ← store (videoMem + 2 * i + 1) color mem
    clearCells color turns (i + 1) mem

/-- `my_clear()`. -/
def myClear (d : Display) : Traced VideoAccess Display := do
  let mem ← clearCells d.textColor 2000 0 d.mem
  pure { d with screenX := 0, screenY := 0, mem }.updateCursor

/-- `memcpy(dest, src, n)`. -/
def memcpy (dest src n : Nat) (mem : Nat → UInt8) : Traced VideoAccess (Nat → UInt8) := do
  touch (.copy dest src n)
  pure (SrirachOS.memcpy dest src n mem)

/-- The end of `switch_terminal`. -/
def restoreScreen (d : Display) : Traced VideoAccess Display := do
  let mem ← memcpy videoMem (Display.videoAddr d.activeTerminal) 4096 d.mem
  pure { d with
    screenX := d.xCursor d.activeTerminal
    screenY := d.yCursor d.activeTerminal
    mem }

/-- `switch_terminal(terminal)`. -/
def switchTerminal (terminal : Int) (entered : Bool) (d : Display) :
    Traced VideoAccess Display :=
  if d.activeTerminal = terminal then pure d
  else do
    let mem ← memcpy (Display.videoAddr d.activeTerminal) videoMem 4096 d.mem
    let d := { d with mem, textColor := gray, activeTerminal := terminal }
    if d.currTask terminal = -1 then do
      let mem ← memcpy videoMem (Display.videoAddr d.activeTerminal) 4096 d.mem
      let d := { d with mem }
      if entered then pure d else restoreScreen d
    else restoreScreen d

/-- One event. -/
def outputStep (d : Display) : OutputEvent → Traced VideoAccess Display
  | .display (.myPutc c) => myPutc c d
  | .display (.keyPutc c) => keyPutc c d
  | .display .backspace => backspace d
  | .display (.switchTerminal terminal entered) => switchTerminal (terminal.val : Nat) entered d
  | .display (.schedule processNum mainProcess currTask) =>
    pure { d with processNum, mainProcess, currTask }
  | .putc c => putc c d
  | .clear => myClear d

/-! ## The same values -/

@[simp] theorem store_value (a : Nat) (b : UInt8) (mem : Nat → UInt8) :
    (store a b mem).value = Function.update mem a b := rfl

theorem scrollCols_value (addr i turns j : Nat) (mem : Nat → UInt8) :
    (scrollCols addr i turns j mem).value = SrirachOS.scrollCols addr i turns j mem := by
  induction turns generalizing j mem with
  | zero => rfl
  | succ turns ih => exact ih (j + 1) (SrirachOS.scrollCell addr i j mem)

theorem scrollRows_value (addr turns i : Nat) (mem : Nat → UInt8) :
    (scrollRows addr turns i mem).value = SrirachOS.scrollRows addr turns i mem := by
  induction turns generalizing i mem with
  | zero => rfl
  | succ turns ih =>
    rw [scrollRows, SrirachOS.scrollRows, value_bind, scrollCols_value]
    exact ih ..

@[simp] theorem scrollDown_value (addr : Nat) (mem : Nat → UInt8) :
    (scrollDown addr mem).value = SrirachOS.scrollDown addr mem :=
  scrollRows_value addr 25 0 mem

@[simp] theorem emit_value (addr : Nat) (color c : UInt8) (pen : Pen) :
    (emit addr color c pen).value = SrirachOS.emit addr color c pen := by
  simp only [emit, SrirachOS.emit, value_bind, value_ite, value_pure, store_value,
    scrollDown_value]

@[simp] theorem myPutc_value (c : UInt8) (d : Display) : (myPutc c d).value = d.myPutc c := by
  simp only [myPutc, Display.myPutc, value_bind, value_pure, emit_value]

@[simp] theorem keyPutc_value (c : UInt8) (d : Display) : (keyPutc c d).value = d.keyPutc c := by
  simp only [keyPutc, Display.keyPutc, value_bind, value_pure, emit_value]

@[simp] theorem putc_value (c : UInt8) (d : Display) : (putc c d).value = d.putc c := by
  simp only [putc, Display.putc, value_bind, value_pure, emit_value]

@[simp] theorem backspace_value (d : Display) : (backspace d).value = d.backspace := by
  simp only [backspace, Display.backspace, value_bind, value_ite, value_pure, keyPutc_value]

theorem clearCells_value (color : UInt8) (turns i : Nat) (mem : Nat → UInt8) :
    (clearCells color turns i mem).value = Display.clearCells color turns i mem := by
  induction turns generalizing i mem with
  | zero => rfl
  | succ turns ih => exact ih (i + 1) _

@[simp] theorem myClear_value (d : Display) : (myClear d).value = d.myClear := by
  simp only [myClear, Display.myClear, value_bind, value_pure, clearCells_value]

@[simp] theorem memcpy_value (dest src n : Nat) (mem : Nat → UInt8) :
    (memcpy dest src n mem).value = SrirachOS.memcpy dest src n mem := rfl

@[simp] theorem switchTerminal_value (terminal : Int) (entered : Bool) (d : Display) :
    (switchTerminal terminal entered d).value = d.switchTerminal terminal entered := by
  simp only [switchTerminal, Display.switchTerminal, restoreScreen, Display.restoreScreen,
    value_bind, value_ite, value_pure, memcpy_value]

/-- **The routines with their accesses** compute what the plain ones do. -/
theorem outputStep_value (d : Display) (e : OutputEvent) :
    (outputStep d e).value = SrirachOS.outputStep d e := by
  cases e with
  | display e =>
    cases e with
    | myPutc c => exact myPutc_value c d
    | keyPutc c => exact keyPutc_value c d
    | backspace => exact backspace_value d
    | switchTerminal terminal entered => exact switchTerminal_value _ entered d
    | schedule processNum mainProcess currTask => rfl
  | putc c => exact putc_value c d
  | clear => exact myClear_value d

/-! ## Stores -/

variable {addr : Nat}

theorem store_within (hpage : IsPage addr) {a : Nat} (hle : addr ≤ a) (hlt : a < addr + 4000)
    (b : UInt8) (mem : Nat → UInt8) : (store a b mem).Within VideoAccess.InBounds := by
  simp only [store, within_bind, within_touch, within_pure, and_true]
  exact ⟨addr, hpage, hle, hlt⟩

theorem scrollCols_within (hpage : IsPage addr) {i : Nat} (hi : i < 25) (turns j : Nat)
    (hj : j + turns ≤ 80) (mem : Nat → UInt8) :
    (scrollCols addr i turns j mem).Within VideoAccess.InBounds := by
  induction turns generalizing j mem with
  | zero => exact within_pure mem
  | succ turns ih =>
    rw [scrollCols, within_bind]
    exact ⟨store_within hpage (by omega) (by omega) _ _, ih (j + 1) (by omega) _⟩

theorem scrollRows_within (hpage : IsPage addr) (turns i : Nat) (hi : i + turns ≤ 25)
    (mem : Nat → UInt8) : (scrollRows addr turns i mem).Within VideoAccess.InBounds := by
  induction turns generalizing i mem with
  | zero => exact within_pure mem
  | succ turns ih =>
    rw [scrollRows, within_bind]
    exact ⟨scrollCols_within hpage (by omega) 80 0 (le_refl 80) mem, ih (i + 1) (by omega) _⟩

theorem scrollDown_within (hpage : IsPage addr) (mem : Nat → UInt8) :
    (scrollDown addr mem).Within VideoAccess.InBounds :=
  scrollRows_within hpage 25 0 (le_refl 25) mem

/-- The cell of a cursor on the screen. -/
theorem cellAddr_range (addr : Nat) {x y : Int} (h : OnScreen x y) :
    addr ≤ cellAddr addr x y ∧ cellAddr addr x y + 1 < addr + 4000 := by
  obtain ⟨hx0, hx, hy0, hy⟩ := h
  unfold cellAddr
  omega

/-- **A character** is stored on the page, if the cursor is on the screen. -/
theorem emit_within (hpage : IsPage addr) (color c : UInt8) {pen : Pen}
    (hpen : OnScreen pen.x pen.y) : (emit addr color c pen).Within VideoAccess.InBounds := by
  obtain ⟨hle, hlt⟩ := cellAddr_range addr hpen
  have hchar := store_within hpage hle (Nat.lt_of_succ_lt hlt) c pen.mem
  have hcolor (mem : Nat → UInt8) := store_within hpage (Nat.le_succ_of_le hle) hlt color mem
  have hscroll (mem : Nat → UInt8) := scrollDown_within hpage mem
  unfold emit
  simp only [within_ite, within_bind, within_pure, and_true]
  -- a character that ends a row stores nothing but what scrolling does
  by_cases hend : c = 10 ∨ c = 13
  · rw [if_pos hend]
    split
    · exact hscroll _
    · exact trivial
  · rw [if_neg hend]
    refine ⟨hchar, hcolor _, ?_⟩
    split
    · split
      · exact hscroll _
      · exact trivial
    · exact trivial

theorem isPage_videoMem : IsPage videoMem := .inl rfl

/-- **`my_putc`**, by a process that is live. -/
theorem myPutc_within {d : Display} (h : CursorInv d)
    (hlive : 0 ≤ d.processNum d.mainProcess ∧ d.processNum d.mainProcess < 3) (c : UInt8) :
    (myPutc c d).Within VideoAccess.InBounds := by
  have hpage : IsPage d.videoReturn := by
    rw [videoReturn_eq hlive.1]
    -- the page is the video page or a backing page, as the terminal is displayed or not
    by_cases hshown : d.processNum d.mainProcess = d.activeTerminal
    · rw [hshown, screenOf_active]
      exact isPage_videoMem
    · rw [screenOf_of_ne hlive.1 hshown]
      exact .inr ⟨_, hlive, rfl⟩
  unfold myPutc
  rw [within_bind]
  exact ⟨emit_within hpage _ c (h.onScreen hlive.1 hlive.2), within_pure _⟩

/-- **`key_putc`**. -/
theorem keyPutc_within {d : Display} (h : CursorInv d) (c : UInt8) :
    (keyPutc c d).Within VideoAccess.InBounds := by
  unfold keyPutc
  rw [within_bind]
  exact ⟨emit_within isPage_videoMem _ c h.displayed, within_pure _⟩

/-- **`putc`**. -/
theorem putc_within {d : Display} (h : CursorInv d) (c : UInt8) :
    (putc c d).Within VideoAccess.InBounds := by
  unfold putc
  rw [within_bind]
  exact ⟨emit_within isPage_videoMem _ c h.screen, within_pure _⟩

/-- **`_backspace`** echoes its space from the cell before the cursor, which is on the screen. -/
theorem backspace_within {d : Display} (h : CursorInv d) :
    (backspace d).Within VideoAccess.InBounds := by
  obtain ⟨hx0, hx, hy0, hy⟩ := h.displayed
  have hloaded : CursorInv { d with screenX := d.xReturn true, screenY := d.yReturn true } :=
    ⟨h.active, h.cursors, h.displayed⟩
  have hscreen : d.xReturn true = d.xCursor d.activeTerminal ∧
      d.yReturn true = d.yCursor d.activeTerminal := ⟨rfl, rfl⟩
  unfold backspace
  dsimp only
  rw [hscreen.1, hscreen.2] at hloaded ⊢
  -- at the origin nothing is echoed; else the cursor steps back, in the row or to the end of the
  -- one before
  split_ifs with horigin hstart
  · exact within_pure _
  · rw [within_bind]
    exact ⟨keyPutc_within (hloaded.moveTo ⟨by decide, by decide, by omega, by omega⟩).1 32,
      within_pure _⟩
  · rw [within_bind]
    exact ⟨keyPutc_within (hloaded.moveTo ⟨by omega, by omega, hy0, hy⟩).1 32, within_pure _⟩

theorem clearCells_within (color : UInt8) (turns i : Nat) (hi : i + turns ≤ 2000)
    (mem : Nat → UInt8) : (clearCells color turns i mem).Within VideoAccess.InBounds := by
  induction turns generalizing i mem with
  | zero => exact within_pure mem
  | succ turns ih =>
    rw [clearCells, within_bind, within_bind]
    exact ⟨store_within isPage_videoMem (by omega) (by omega) _ _,
      store_within isPage_videoMem (by omega) (by omega) _ _, ih (i + 1) (by omega) _⟩

/-- **`my_clear`**. -/
theorem myClear_within (d : Display) : (myClear d).Within VideoAccess.InBounds := by
  unfold myClear
  rw [within_bind]
  exact ⟨clearCells_within _ 2000 0 (le_refl 2000) _, within_pure _⟩

/-! ## Copies -/

theorem onPage_whole (hpage : IsPage addr) : OnPage 4096 addr 4096 :=
  ⟨addr, hpage, le_refl _, le_refl _⟩

/-- A copy of a whole page to another. -/
theorem memcpy_within {dest src : Nat} (hdest : IsPage dest) (hsrc : IsPage src)
    (mem : Nat → UInt8) : (memcpy dest src 4096 mem).Within VideoAccess.InBounds := by
  simp only [memcpy, within_bind, within_touch, within_pure, and_true]
  exact ⟨onPage_whole hdest, onPage_whole hsrc⟩

theorem restoreScreen_within {d : Display} (h0 : 0 ≤ d.activeTerminal) (h3 : d.activeTerminal < 3) :
    (restoreScreen d).Within VideoAccess.InBounds := by
  unfold restoreScreen
  rw [within_bind]
  exact ⟨memcpy_within isPage_videoMem (.inr ⟨_, ⟨h0, h3⟩, rfl⟩) _, within_pure _⟩

/-- **`switch_terminal`**. -/
theorem switchTerminal_within {d : Display} (h : CursorInv d) {terminal : Int}
    (h0 : 0 ≤ terminal) (h3 : terminal < 3) (entered : Bool) :
    (switchTerminal terminal entered d).Within VideoAccess.InBounds := by
  unfold switchTerminal
  split
  · exact within_pure d
  · rw [within_bind]
    -- the page of the terminal that is left is saved first
    refine ⟨memcpy_within (.inr ⟨_, h.active, rfl⟩) isPage_videoMem _, ?_⟩
    dsimp only
    split
    · rw [within_bind]
      refine ⟨memcpy_within isPage_videoMem (.inr ⟨_, ⟨h0, h3⟩, rfl⟩) _, ?_⟩
      cases entered with
      | true => exact within_pure _
      | false => exact restoreScreen_within h0 h3
    · exact restoreScreen_within h0 h3

end Painting

/-! ## Runs -/

/-- A process that writes is live. -/
def LiveOutput (d : Display) : OutputEvent → Prop
  | .display e => WriterLive d e
  | _ => True

/-- **Every event** stores and copies inside the pages. -/
theorem outputStep_within {d : Display} (h : CursorInv d) {e : OutputEvent}
    (hlive : LiveOutput d e) : (Painting.outputStep d e).Within VideoAccess.InBounds := by
  cases e with
  | display e =>
    cases e with
    | myPutc c => exact Painting.myPutc_within h hlive c
    | keyPutc c => exact Painting.keyPutc_within h c
    | backspace => exact Painting.backspace_within h
    | switchTerminal terminal entered =>
      exact Painting.switchTerminal_within h (Int.natCast_nonneg _) (by omega) entered
    | schedule processNum mainProcess currTask => exact within_pure _
  | putc c => exact Painting.putc_within h c
  | clear => exact Painting.myClear_within d

/-- **Cursors and video memory**: in every run from the start in which only live processes write, all
four cursors are on the screen in every state, the stores go to the visible part of the video page or
of a backing page, and the copies go from page to page. -/
theorem output_bounds (d : Display) (es : List OutputEvent)
    (hlive : Along outputStep LiveOutput d.init es) :
    (∀ pre, pre <+: es →
      let d' := run outputStep d.init pre
      OnScreen d'.screenX d'.screenY ∧
        ∀ t, 0 ≤ t → t < 3 → OnScreen (d'.xCursor t) (d'.yCursor t)) ∧
    ∀ pre e, pre ++ [e] <+: es →
      (Painting.outputStep (run outputStep d.init pre) e).Within VideoAccess.InBounds := by
  -- the cursor invariant holds in every state, live or not
  have hinv : ∀ pre, CursorInv (run outputStep d.init pre) :=
    invariant_always (I := CursorInv) (fun _ e h => h.step e) (cursorInv_init d)
  constructor
  · intro pre _ d'
    exact ⟨(hinv pre).screen, fun t h0 h3 => (hinv pre).onScreen h0 h3⟩
  · intro pre e hpre
    have hstep := along_iff_prefix |>.mp hlive pre e hpre
    exact outputStep_within (hinv pre) hstep

/-- A process of the first terminal writes, the second terminal is displayed, and the process goes on
writing in the background. -/
theorem output_bounds_sample :
    let live := OutputEvent.display (.schedule (fun p => if p = 0 then 0 else -1) 0 fun _ => 0)
    let switch := OutputEvent.display (.switchTerminal 1 false)
    (Painting.outputStep (run outputStep sampleDisplay.init
      [live, .display (.myPutc 65), switch]) (.display (.myPutc 10))).Within
        VideoAccess.InBounds := by
  intro live switch
  have hbounds := (output_bounds sampleDisplay
    [live, .display (.myPutc 65), switch, .display (.myPutc 10)]
    ⟨trivial, ⟨by decide +kernel, by decide +kernel⟩, trivial,
      ⟨by decide +kernel, by decide +kernel⟩, trivial⟩).2
  exact hbounds [live, .display (.myPutc 65), switch] _ List.prefix_rfl

end SrirachOS
