import SrirachOS.Console.Display
import SrirachOS.FileSys.Lookup

/-!
# The Keyboard

`getChar` and `keyboard_handler` (`keyboard.c`): one call for each byte that the keyboard sends.
The line that is being typed on a terminal is in its `save_buf`; Enter copies it to the line buffer
of the terminal (`save_buf_1`, `save_buf_2`, `save_buf_3`), where `terminal_read` finds it.

`terminals` is a static array of a header: the one of `keyboard.c` holds `save_buf` and `save_idx`,
the one of `syscall.c` the cursors and the tasks.
-/

namespace SrirachOS

open Foundation

/-! ## State -/

/-- The variables of the keyboard, beside those of the display. -/
structure Console extends Display where
  /-- `active_terminal` of `keyboard.c` -/
  handlerTerminal : Int
  /-- `terminals[t].save_buf` -/
  saveBuf : Int → Nat → UInt8
  /-- `terminals[t].save_idx` -/
  saveIdx : Int → Nat
  /-- `keyboard_buf_idx` -/
  keyboardBufIdx : Nat
  /-- `num_chars` -/
  numChars : Int
  /-- `save_buf_1`, `save_buf_2` and `save_buf_3`, by terminal -/
  lineBuf : Int → Nat → UInt8
  /-- `last_buf` -/
  lastBuf : Nat → UInt8
  /-- `last_idx` -/
  lastIdx : Nat
  /-- `caps_lock_check` -/
  capsLockCheck : Int
  /-- `pressed_flags` -/
  pressedFlags : Nat → UInt8

/-- `scancode[c]`: the characters without and with shift, 86 each. -/
def scancode : List UInt8 :=
  [0, 0, 49, 50, 51, 52, 53, 54, 55, 56, 57, 48, 45, 61, 0, 0, 113, 119, 101, 114, 116, 121, 117,
    105, 111, 112, 91, 93, 10, 0, 97, 115, 100, 102, 103, 104, 106, 107, 108, 59, 39, 96, 0, 92,
    122, 120, 99, 118, 98, 110, 109, 44, 46, 47, 0, 42, 0, 32, 0, 0, 0, 0, 0, 0, 0, 0, 0, 0, 0, 0,
    0, 55, 56, 57, 45, 52, 53, 54, 43, 49, 50, 51, 48, 46, 0, 0,
    0, 0, 33, 64, 35, 36, 37, 94, 38, 42, 40, 41, 95, 43, 0, 0, 81, 87, 69, 82, 84, 89, 85,
    73, 79, 80, 123, 125, 10, 0, 65, 83, 68, 70, 71, 72, 74, 75, 76, 58, 34, 126, 0, 124,
    90, 88, 67, 86, 66, 78, 77, 60, 62, 63, 0, 42, 0, 32, 0, 0, 0, 0, 0, 0, 0, 0, 0, 0, 0, 0,
    0, 55, 56, 57, 45, 52, 53, 54, 43, 49, 50, 51, 48, 46, 0, 0]

/-- `DONT_PRINT`. -/
def dontPrint : UInt8 := 0xFF

/-! ## lib.c -/

/-- The loop of `my_strcpy`, with the number of bytes left in the arrays: it ends behind the first
newline. -/
def myStrcpy (src : Nat → UInt8) : Nat → Nat → (Nat → UInt8) → Nat → UInt8
  | 0, _, dest => dest
  | turns + 1, i, dest =>
    if src i = 10 then Function.update dest i 10
    else myStrcpy src turns (i + 1) (Function.update dest i (src i))

namespace Display

/-- `putc(c)`: it writes at `screen_x` and `screen_y`. -/
def putc (c : UInt8) (d : Display) : Display :=
  let pen := emit videoMem d.textColor c ⟨d.mem, d.screenX, d.screenY⟩
  { d with mem := pen.mem, screenX := pen.x, screenY := pen.y }.updateCursor

/-- The loop of `my_clear`, with the number of turns left. -/
def clearCells (color : UInt8) : Nat → Nat → (Nat → UInt8) → Nat → UInt8
  | 0, _, mem => mem
  | turns + 1, i, mem =>
    clearCells color turns (i + 1)
      (Function.update (Function.update mem (videoMem + 2 * i) 32) (videoMem + 2 * i + 1) color)

/-- `my_clear()`. -/
def myClear (d : Display) : Display :=
  { d with screenX := 0, screenY := 0, mem := clearCells d.textColor 2000 0 d.mem }.updateCursor

/-- `my_puts(s, nbytes)`. -/
def myPuts (s : List UInt8) (d : Display) : Display := s.foldl (fun d c => d.myPutc c) d

/-- `printf` of a text without conversions. -/
def printf (s : List UInt8) (d : Display) : Display := s.foldl (fun d c => d.putc c) d

end Display

theorem printf_activeTerminal (s : List UInt8) (d : Display) :
    (d.printf s).activeTerminal = d.activeTerminal := by
  unfold Display.printf
  induction s generalizing d with
  | nil => rfl
  | cons c s ih => exact ih (d.putc c)

/-! ## keyboard.c -/

namespace Console

/-- A shift key is held. -/
def shiftHeld (k : Console) : Prop := k.pressedFlags 0x2A ≠ 0 ∨ k.pressedFlags 0x36 ≠ 0

instance (k : Console) : Decidable k.shiftHeld := inferInstanceAs (Decidable (_ ∨ _))

/-- `c`, moved to the second half of the table if shift or CapsLock says so. -/
def shiftCode (c : UInt8) (k : Console) : UInt8 :=
  if k.shiftHeld then
    if k.capsLockCheck ≠ 1 then c + 86 else c
  else if k.capsLockCheck = 1 then c + 86 else c

/-- The completion of the word before the index, with its echo. -/
def autocomplete (img : Image) (k : Console) : Console :=
  let found := fsSearch img (k.saveBuf k.handlerTerminal) k.keyboardBufIdx
  { k with
    toDisplay := k.toDisplay.printf found.echo
    saveBuf := Function.update k.saveBuf k.handlerTerminal found.buf
    keyboardBufIdx := found.idx }

/-- The end of `getChar`: shift and CapsLock, the completion and the table. -/
def lookup (img : Image) (c : UInt8) (k : Console) : Option UInt8 × Console :=
  let c := k.shiftCode c
  let k := if c = 0x0F then k.autocomplete img else k
  let ret := scancode.getD c.toNat 0
  (some (if ret = 0 then dontPrint else ret), k)

/-- `"\nKeyboard interrupt!\n"`. -/
def interruptText : List UInt8 :=
  [10, 75, 101, 121, 98, 111, 97, 114, 100, 32, 105, 110, 116, 101, 114, 114, 117, 112, 116, 33, 10]

/-- `pressed_flags[c] = PRESSED`. The array has no end here: `KeyBounds` has its accesses. -/
def raiseFlag (c : UInt8) (k : Console) : Console :=
  { k with pressedFlags := Function.update k.pressedFlags c.toNat 1 }

/-- A key that has been pressed, once its flag has been raised. -/
def pressed (img : Image) (entered : Bool) (c : UInt8) (k : Console) : Option UInt8 × Console :=
  if c = 0x3A then (some dontPrint, { k with capsLockCheck := k.capsLockCheck * (-1) })
  else if k.pressedFlags 0x1D ≠ 0 ∧ c = 0x26 then
    let line := (List.range k.keyboardBufIdx).map (k.saveBuf k.handlerTerminal)
    (some dontPrint, { k with toDisplay := k.toDisplay.myClear.myPuts line })
  else if k.pressedFlags 0x1D ≠ 0 ∧ c = 0x2E then
    -- the running process is halted
    (none, { k with
      toDisplay := k.toDisplay.printf interruptText
      saveBuf := Function.update k.saveBuf k.handlerTerminal
        (Function.update (k.saveBuf k.handlerTerminal) k.keyboardBufIdx 10) })
  else if k.pressedFlags 0x1D ≠ 0 ∧ c = 0x14 then (some dontPrint, k)
  else if k.pressedFlags 0x38 ≠ 0 ∧ 0x3B ≤ c ∧ c < 0x3E then
    let terminal : Int := (c.toNat - 0x3B : Nat)
    -- the start of a shell does not come back
    (if k.activeTerminal ≠ terminal ∧ k.currTask terminal = -1 ∧ entered then none
      else some dontPrint,
      { k with toDisplay := k.toDisplay.switchTerminal terminal entered })
  else if c = 0x4B ∨ c = 0x4D then (some dontPrint, k)
  else if c = 0x48 ∨ c = 0x50 then (some dontPrint, k)
  else if c = 0x0E ∧ 0 < k.keyboardBufIdx then
    (some dontPrint, { k with
      toDisplay := k.toDisplay.backspace
      keyboardBufIdx := k.keyboardBufIdx - 1
      numChars := k.numChars - 1 })
  else k.lookup img c

/-- `getChar()`, for the byte `c` from the keyboard; `none` if it does not return. `entered` tells
whether a terminal switch that starts a shell enters it. -/
def getChar (img : Image) (entered : Bool) (c : UInt8) (k : Console) : Option UInt8 × Console :=
  if c ≤ 0x58 then
    (k.raiseFlag c).pressed img entered c
  else if c ≤ 0xD8 then
    (some dontPrint, { k with pressedFlags := Function.update k.pressedFlags (c &&& 0x7F).toNat 0 })
  else (some dontPrint, k)

/-- `terminals[active_terminal].save_idx = keyboard_buf_idx`. -/
def storeIdx (k : Console) : Console :=
  { k with saveIdx := Function.update k.saveIdx k.handlerTerminal k.keyboardBufIdx }

/-- `terminals[active_terminal].save_buf[keyboard_buf_idx] = c`. -/
def storeChar (c : UInt8) (k : Console) : Console :=
  { k with
    saveBuf := Function.update k.saveBuf k.handlerTerminal
      (Function.update (k.saveBuf k.handlerTerminal) k.keyboardBufIdx c) }

/-- What Enter does: the line is copied to the line buffer and to `last_buf`, and the next one
starts. -/
def completeLine (k : Console) : Console :=
  let t := k.handlerTerminal
  { k with
    lineBuf := if 0 ≤ t ∧ t < 3 then
        Function.update k.lineBuf t (myStrcpy (k.saveBuf t) 128 0 (k.lineBuf t))
      else k.lineBuf
    lastBuf := myStrcpy (k.saveBuf t) 128 0 k.lastBuf
    lastIdx := k.keyboardBufIdx
    keyboardBufIdx := 0
    numChars := 0
    saveBuf := Function.update k.saveBuf t (Function.update (k.saveBuf t) 0 0) }

/-- What `keyboard_handler` does with the result of `getChar`. -/
def handleChar (test : UInt8) (k : Console) : Console :=
  if test = dontPrint then k.storeIdx
  else if k.keyboardBufIdx = 127 ∧ test ≠ 10 then k.storeChar 10
  else
    let k := k.storeChar test
    let k := if test ≠ 10 then
        { k with
          keyboardBufIdx := k.keyboardBufIdx + 1
          numChars := if (k.keyboardBufIdx : Int) + 1 > k.numChars then k.keyboardBufIdx + 1
            else k.numChars }
      else k.completeLine
    { k with toDisplay := k.toDisplay.keyPutc test }.storeIdx

/-- The terminal on the screen, and the index of its line. -/
def loadIdx (k : Console) : Console :=
  { k with
    handlerTerminal := k.activeTerminal
    keyboardBufIdx := k.saveIdx k.activeTerminal }

/-- `keyboard_handler()`. -/
def keyboardHandler (img : Image) (entered : Bool) (c : UInt8) (k : Console) : Console :=
  match k.loadIdx.getChar img entered c with
  | (none, k) => k
  | (some test, k) => k.handleChar test

/-- The static variables of the keyboard before the first key. -/
def init (k : Console) : Console :=
  { k with
    toDisplay := k.toDisplay.init
    handlerTerminal := 0
    saveBuf := fun _ _ => 0
    saveIdx := fun _ => 0
    keyboardBufIdx := 0
    numChars := 0
    lineBuf := fun _ _ => 0
    lastBuf := fun _ => 0
    lastIdx := 0
    capsLockCheck := -1
    pressedFlags := fun _ => 0 }

end Console

/-- A console whose variables are all zero, with a shell on each terminal. -/
def sampleConsole : Console :=
  ⟨⟨fun _ => 0, 0, 0, fun _ => 0, fun _ => 0, fun _ => 0, 0, 0, 0, 0, fun _ => 32⟩, 0, fun _ _ => 0,
    fun _ => 0, 0, 0, fun _ _ => 0, fun _ => 0, 0, 0, fun _ => 0⟩

end SrirachOS
