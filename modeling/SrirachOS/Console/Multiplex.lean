import SrirachOS.Console.Display

/-!
# Three Screens on One Display

The contents of terminal `t` are on the video page while it is displayed and on its backing page
while it is not. Seen so, the three terminals are three private screens: a write on behalf of one
of them is the write on its screen, and a terminal switch is nothing at all.

- `Screens`: the three terminals show three given screens,
- `Screens.step`: each event keeps this, with its operation done on the screen of one terminal,
- `display_refines`: hence every run is, terminal by terminal, a run of a private screen.
-/

namespace SrirachOS

open Foundation Kernel

/-! ## The machine -/

/-- An event at the display. -/
inductive DisplayEvent where
  /-- the running process writes a character -/
  | myPutc (c : UInt8)
  /-- a key is echoed -/
  | keyPutc (c : UInt8)
  | backspace
  | switchTerminal (terminal : Fin 3) (entered : Bool)
  /-- an execute, a halt or a timer tick: other processes exist and another one runs -/
  | schedule (processNum : Int → Int) (mainProcess : Int) (currTask : Int → Int)

/-- One event. -/
def displayStep (d : Display) : DisplayEvent → Display
  | .myPutc c => d.myPutc c
  | .keyPutc c => d.keyPutc c
  | .backspace => d.backspace
  | .switchTerminal terminal entered => d.switchTerminal (terminal.val : Nat) entered
  | .schedule processNum mainProcess currTask => { d with processNum, mainProcess, currTask }

/-- A process that writes is alive: its slot belongs to a terminal. -/
def WriterLive (d : Display) : DisplayEvent → Prop
  | .myPutc _ => 0 ≤ d.processNum d.mainProcess ∧ d.processNum d.mainProcess < 3
  | _ => True

/-- The terminal on behalf of which an event writes, and what it does there. -/
def writes (d : Display) : DisplayEvent → Option (Int × ScreenOp)
  | .myPutc c => some (d.processNum d.mainProcess, .write c)
  | .keyPutc c => some (d.activeTerminal, .write c)
  | .backspace => some (d.activeTerminal, .erase)
  | .switchTerminal .. | .schedule .. => none

/-! ## The contents of a terminal -/

/-- The byte `i` of the page of terminal `t`. -/
def Display.content (d : Display) (t : Int) (i : Nat) : UInt8 :=
  d.mem (screenOf d.activeTerminal t + i)

/-- The page and the cursor of a terminal are as before. -/
structure SameTerminal (t : Int) (d d' : Display) : Prop where
  content : ∀ i, i < 4096 → d'.content t i = d.content t i
  xCursor : d'.xCursor t = d.xCursor t
  yCursor : d'.yCursor t = d.yCursor t

/-- The three terminals show the screens `S`. -/
structure Screens (d : Display) (S : Int → Screen) : Prop where
  active : 0 ≤ d.activeTerminal ∧ d.activeTerminal < 3
  color : d.textColor = gray
  shows : ∀ t, 0 ≤ t → t < 3 →
    Shows d.mem (screenOf d.activeTerminal t) (d.xCursor t) (d.yCursor t) (S t)

/-- Pages of different terminals are apart. -/
theorem screenOf_apart (active : Int) {t u : Int} (ht0 : 0 ≤ t) (ht3 : t < 3) (hu0 : 0 ≤ u)
    (hu3 : u < 3) (hne : t ≠ u) :
    screenOf active t + 4096 ≤ screenOf active u ∨ screenOf active u + 4096 ≤ screenOf active t := by
  unfold screenOf
  split_ifs <;> omega

theorem Shows.congr {mem mem' : Nat → UInt8} {addr addr' : Nat} {x y : Int} {s : Screen}
    (h : Shows mem addr x y s) (hmem : ∀ i, i < 4096 → mem' (addr' + i) = mem (addr + i)) :
    Shows mem' addr' x y s where
  char r c := by rw [hmem _ (by omega), h.char]
  attr r c := by rw [Nat.add_assoc, hmem _ (by omega), ← Nat.add_assoc, h.attr]
  col := h.col
  row := h.row

/-- A terminal that is as before shows what it showed. -/
theorem SameTerminal.shows {t : Int} {d d' : Display} (h : SameTerminal t d d') {s : Screen}
    (hs : Shows d.mem (screenOf d.activeTerminal t) (d.xCursor t) (d.yCursor t) s) :
    Shows d'.mem (screenOf d'.activeTerminal t) (d'.xCursor t) (d'.yCursor t) s := by
  rw [h.xCursor, h.yCursor]
  exact hs.congr h.content

/-! ## Output -/

/-- Terminal `t` is written to, and only it: its screen becomes `s`. -/
structure WritesOnly (t : Int) (s : Screen) (d d' : Display) : Prop where
  active : d'.activeTerminal = d.activeTerminal
  color : d'.textColor = d.textColor
  shows : Shows d'.mem (screenOf d.activeTerminal t) (d'.xCursor t) (d'.yCursor t) s
  outside : ∀ a, a < screenOf d.activeTerminal t ∨ screenOf d.activeTerminal t + 4000 ≤ a →
    d'.mem a = d.mem a
  cursors : ∀ u, u ≠ t → d'.xCursor u = d.xCursor u ∧ d'.yCursor u = d.yCursor u

theorem WritesOnly.trans {t : Int} {s s' : Screen} {d d' d'' : Display} (h : WritesOnly t s d d')
    (h' : WritesOnly t s' d' d'') : WritesOnly t s' d d'' where
  active := h'.active.trans h.active
  color := h'.color.trans h.color
  shows := by rw [← h.active]; exact h'.shows
  outside a ha := (h'.outside a (by rw [h.active]; exact ha)).trans (h.outside a ha)
  cursors u hu :=
    ⟨(h'.cursors u hu).1.trans (h.cursors u hu).1, (h'.cursors u hu).2.trans (h.cursors u hu).2⟩

/-- The other terminals are as before. -/
theorem WritesOnly.others {t : Int} {s : Screen} {d d' : Display} (h : WritesOnly t s d d')
    (h0 : 0 ≤ t) (h3 : t < 3) {u : Int} (hu0 : 0 ≤ u) (hu3 : u < 3) (hne : u ≠ t) :
    SameTerminal u d d' where
  content i hi := by
    have hapart := screenOf_apart d.activeTerminal h0 h3 hu0 hu3 (Ne.symm hne)
    unfold Display.content
    rw [h.active]
    exact h.outside _ (by omega)
  xCursor := (h.cursors u hne).1
  yCursor := (h.cursors u hne).2

/-- The end of an output routine: the cursor of the terminal is stored. -/
theorem writesOnly_setTerminalPos {d : Display} (d' : Display) {t : Bool} {addr : Nat} {x y : Int}
    {s : Screen}
    (haddr : addr = screenOf d.activeTerminal (d.terminalOf t))
    (hshows : Shows d'.mem addr x y s)
    (houtside : ∀ a, a < addr ∨ addr + 4000 ≤ a → d'.mem a = d.mem a)
    (hactive : d'.activeTerminal = d.activeTerminal) (hcolor : d'.textColor = d.textColor)
    (hx : d'.xCursor = d.xCursor) (hy : d'.yCursor = d.yCursor)
    (ht : d'.terminalOf t = d.terminalOf t) :
    WritesOnly (d.terminalOf t) s d (d'.setTerminalPos x y t) where
  active := hactive
  color := hcolor
  shows := by
    have hxfits : x % 256 = x := by
      have := hshows.col
      have := s.col.isLt
      omega
    have hyfits : y % 256 = y := by
      have := hshows.row
      have := s.row.isLt
      omega
    unfold Display.setTerminalPos
    dsimp only
    rw [ht, Function.update_self, Function.update_self, hxfits, hyfits, ← haddr]
    exact hshows
  outside a ha := by
    rw [← haddr] at ha
    exact houtside a ha
  cursors u hu := by
    unfold Display.setTerminalPos
    dsimp only
    rw [ht, Function.update_of_ne hu, Function.update_of_ne hu, hx, hy]
    exact ⟨rfl, rfl⟩

/-- A process finds the page of its own terminal. -/
theorem videoReturn_eq {d : Display} (h0 : 0 ≤ d.processNum d.mainProcess) :
    d.videoReturn = screenOf d.activeTerminal (d.processNum d.mainProcess) := by
  unfold Display.videoReturn screenOf videoMem
  split
  · rfl
  · omega

/-- **`my_putc`** writes on the screen of the running process's terminal. -/
theorem myPutc_writesOnly {d : Display} {s : Screen} (h0 : 0 ≤ d.processNum d.mainProcess)
    (h : Shows d.mem (screenOf d.activeTerminal (d.processNum d.mainProcess))
      (d.xCursor (d.processNum d.mainProcess)) (d.yCursor (d.processNum d.mainProcess)) s)
    (c : UInt8) :
    WritesOnly (d.processNum d.mainProcess) (s.write d.textColor c) d (d.myPutc c) := by
  rw [← videoReturn_eq h0] at h
  obtain ⟨hshows, houtside⟩ := emit_shows ⟨d.mem, d.xReturn false, d.yReturn false⟩ h
    d.textColor c
  have hwrites := writesOnly_setTerminalPos (d := d) (t := false)
    { d with mem := (emit d.videoReturn d.textColor c
      ⟨d.mem, d.xReturn false, d.yReturn false⟩).mem }
    (videoReturn_eq h0) hshows houtside rfl rfl rfl rfl rfl
  exact ⟨hwrites.active, hwrites.color, hwrites.shows, hwrites.outside, hwrites.cursors⟩

theorem screenOf_active (active : Int) : screenOf active active = videoMem := by
  unfold screenOf videoMem
  exact if_pos rfl

/-- **`key_putc`** writes on the screen of the displayed terminal. -/
theorem keyPutc_writesOnly {d : Display} {s : Screen}
    (h : Shows d.mem (screenOf d.activeTerminal d.activeTerminal) (d.xCursor d.activeTerminal)
      (d.yCursor d.activeTerminal) s) (c : UInt8) :
    WritesOnly d.activeTerminal (s.write d.textColor c) d (d.keyPutc c) := by
  rw [screenOf_active] at h
  obtain ⟨hshows, houtside⟩ := emit_shows ⟨d.mem, d.xReturn true, d.yReturn true⟩ h
    d.textColor c
  have hwrites := writesOnly_setTerminalPos (d := d) (t := true)
    { d with
      mem := (emit videoMem d.textColor c ⟨d.mem, d.xReturn true, d.yReturn true⟩).mem
      screenX := (emit videoMem d.textColor c ⟨d.mem, d.xReturn true, d.yReturn true⟩).x
      screenY := (emit videoMem d.textColor c ⟨d.mem, d.xReturn true, d.yReturn true⟩).y }
    (screenOf_active d.activeTerminal).symm hshows houtside rfl rfl rfl rfl rfl
  exact ⟨hwrites.active, hwrites.color, hwrites.shows, hwrites.outside, hwrites.cursors⟩

/-- The cursor of the displayed terminal moves. -/
theorem moveTo_writesOnly {d : Display} {s : Screen} (s' : Screen) {x y : Int}
    (h : Shows d.mem (screenOf d.activeTerminal d.activeTerminal) (d.xCursor d.activeTerminal)
      (d.yCursor d.activeTerminal) s)
    (hchar : s'.char = s.char) (hattr : s'.attr = s.attr) (hx : x = s'.col.val)
    (hy : y = s'.row.val) : WritesOnly d.activeTerminal s' d (d.moveTo x y) := by
  have hshows : Shows d.mem (screenOf d.activeTerminal d.activeTerminal) x y s' :=
    ⟨by rw [hchar]; exact h.char, by rw [hattr]; exact h.attr, hx, hy⟩
  exact writesOnly_setTerminalPos (d := d) (t := true) { d with screenX := x, screenY := y }
    rfl hshows (fun _ _ => rfl) rfl rfl rfl rfl rfl

/-- `screen_x` and `screen_y` follow the echo. -/
theorem keyPutc_screen {d : Display} {s : Screen}
    (h : Shows d.mem (screenOf d.activeTerminal d.activeTerminal) (d.xCursor d.activeTerminal)
      (d.yCursor d.activeTerminal) s) (c : UInt8) :
    (d.keyPutc c).screenX = (s.write d.textColor c).col.val ∧
      (d.keyPutc c).screenY = (s.write d.textColor c).row.val := by
  rw [screenOf_active] at h
  obtain ⟨hshows, -⟩ := emit_shows ⟨d.mem, d.xReturn true, d.yReturn true⟩ h d.textColor c
  exact ⟨hshows.col, hshows.row⟩

/-- The middle of `_backspace`: from the cell before the cursor a space is echoed, and the cursor
goes back to that cell. -/
theorem eraseCell_writesOnly {d : Display} {s : Screen}
    (h : Shows d.mem (screenOf d.activeTerminal d.activeTerminal) (d.xCursor d.activeTerminal)
      (d.yCursor d.activeTerminal) s) (hne : ¬ (s.row.val = 0 ∧ s.col.val = 0)) {x y : Int}
    (hx : x = s.retreat.col.val) (hy : y = s.retreat.row.val) :
    let d' := (d.moveTo x y).keyPutc 32
    d'.screenX = s.col.val ∧ d'.screenY = s.row.val ∧
      WritesOnly d.activeTerminal (s.erase d.textColor) d
        (((d'.moveTo x y).setTerminalPos x y true).updateCursor) := by
  intro d'
  have hkeep : s.retreat.char = s.char ∧ s.retreat.attr = s.attr := by
    unfold Screen.retreat
    split_ifs <;> exact ⟨rfl, rfl⟩
  have hmove := moveTo_writesOnly s.retreat h hkeep.1 hkeep.2 hx hy
  have hput := keyPutc_writesOnly hmove.shows 32
  obtain ⟨hsx, hsy⟩ := keyPutc_screen hmove.shows 32
  rw [hmove.color, Screen.write_retreat d.textColor hne] at hput hsx hsy
  have herase : s.erase d.textColor = s.retreat.store d.textColor 32 := if_neg hne
  -- the cursor goes back twice
  have hback := moveTo_writesOnly (s.erase d.textColor) (x := x) (y := y) hput.shows
    (by rw [herase]) (by rw [herase]) (by rw [herase]; exact hx) (by rw [herase]; exact hy)
  have hagain := moveTo_writesOnly (s.erase d.textColor) (x := x) (y := y) hback.shows
    rfl rfl (by rw [herase]; exact hx) (by rw [herase]; exact hy)
  have hall := ((hmove.trans hput).trans hback).trans hagain
  exact ⟨hsx, hsy, hall.active, hall.color, hall.shows, hall.outside, hall.cursors⟩

/-- **`_backspace`** takes the last character of the displayed terminal's screen back. -/
theorem backspace_writesOnly {d : Display} {s : Screen}
    (h : Shows d.mem (screenOf d.activeTerminal d.activeTerminal) (d.xCursor d.activeTerminal)
      (d.yCursor d.activeTerminal) s) :
    WritesOnly d.activeTerminal (s.erase d.textColor) d d.backspace := by
  have hcol := h.col
  have hrow := h.row
  unfold Display.backspace
  dsimp only
  have hx : d.xReturn true = s.col.val := hcol
  have hy : d.yReturn true = s.row.val := hrow
  rw [hx, hy]
  by_cases horigin : s.row.val = 0 ∧ s.col.val = 0
  · have herase : s.erase d.textColor = s := if_pos horigin
    rw [if_pos (by omega), herase]
    exact ⟨rfl, rfl, h, fun _ _ => rfl, fun _ _ => ⟨rfl, rfl⟩⟩
  · rw [if_neg (by omega)]
    -- the two branches are the two ways to the cell before
    have hcell := eraseCell_writesOnly (d := { d with screenX := s.col.val, screenY := s.row.val }) h
      horigin rfl rfl
    have hdone : WritesOnly d.activeTerminal (s.erase d.textColor) d _ :=
      ⟨hcell.2.2.active, hcell.2.2.color, hcell.2.2.shows, hcell.2.2.outside, hcell.2.2.cursors⟩
    obtain ⟨hsx, hsy, -⟩ := hcell
    by_cases hzero : s.col.val = 0
    · have hpos : (s.retreat.col.val : Int) = 79 ∧ (s.retreat.row.val : Int) = s.row.val - 1 := by
        unfold Screen.retreat
        rw [if_neg (by omega), if_pos (by omega)]
        dsimp only
        omega
      rw [hpos.1, hpos.2] at hsy hdone
      rw [if_pos (by omega), hsy]
      exact hdone
    · have hpos : (s.retreat.col.val : Int) = s.col.val - 1 ∧
          (s.retreat.row.val : Int) = s.row.val := by
        unfold Screen.retreat
        rw [if_pos (by omega)]
        dsimp only
        omega
      rw [hpos.1, hpos.2] at hsx hsy hdone
      rw [if_neg (by omega), hsx, hsy]
      exact hdone

/-! ## The terminal switch -/

theorem memcpy_inside (dest src : Nat) {n i : Nat} (hi : i < n) (mem : Nat → UInt8) :
    memcpy dest src n mem (dest + i) = mem (src + i) := by
  unfold memcpy
  rw [if_pos (by omega), Nat.add_sub_cancel_left]

theorem memcpy_outside {dest n a : Nat} (h : a < dest ∨ dest + n ≤ a) (src : Nat)
    (mem : Nat → UInt8) : memcpy dest src n mem a = mem a := by
  unfold memcpy
  exact if_neg (by omega)

/-- The video page and the backing pages are apart. -/
theorem videoAddr_apart {t u : Int} (ht : 0 ≤ t) (hu : 0 ≤ u) (hne : t ≠ u) :
    videoMem + 4096 ≤ Display.videoAddr t ∧
      (Display.videoAddr t + 4096 ≤ Display.videoAddr u ∨
        Display.videoAddr u + 4096 ≤ Display.videoAddr t) := by
  unfold videoMem Display.videoAddr
  omega

theorem screenOf_of_ne {active t : Int} (h0 : 0 ≤ t) (hne : t ≠ active) :
    screenOf active t = Display.videoAddr t := by
  unfold screenOf Display.videoAddr
  rw [if_neg hne]
  omega

/-- Copying the backing page of the displayed terminal to the video page leaves the backing pages
alone. -/
theorem showPage_backing {terminal t : Int} (h0 : 0 ≤ t) (i : Nat)
    (mem : Nat → UInt8) :
    memcpy videoMem (Display.videoAddr terminal) 4096 mem (Display.videoAddr t + i) =
      mem (Display.videoAddr t + i) := by
  have hapart : videoMem + 4096 ≤ Display.videoAddr t := by
    unfold videoMem Display.videoAddr
    omega
  exact memcpy_outside (.inr (hapart.trans (Nat.le_add_right _ i))) _ _

/-- **`switch_terminal`** changes the page and the cursor of no terminal. -/
theorem switchTerminal_same {d : Display} (ha0 : 0 ≤ d.activeTerminal) {terminal : Int}
    (h0 : 0 ≤ terminal) (entered : Bool) {t : Int} (ht0 : 0 ≤ t) :
    SameTerminal t d (d.switchTerminal terminal entered) := by
  by_cases hsame : d.activeTerminal = terminal
  · have heq : d.switchTerminal terminal entered = d := if_pos hsame
    rw [heq]
    exact ⟨fun _ _ => rfl, rfl, rfl⟩
  -- the screen is saved, and then the other one is copied, once or twice
  obtain ⟨saved, hsaved⟩ :
      ∃ m, m = memcpy (Display.videoAddr d.activeTerminal) videoMem 4096 d.mem := ⟨_, rfl⟩
  obtain ⟨shown, hshown⟩ :
      ∃ m, m = memcpy videoMem (Display.videoAddr terminal) 4096 saved := ⟨_, rfl⟩
  have hresult : ((d.switchTerminal terminal entered).mem = shown ∨
      (d.switchTerminal terminal entered).mem =
        memcpy videoMem (Display.videoAddr terminal) 4096 shown) ∧
      (d.switchTerminal terminal entered).activeTerminal = terminal ∧
      (d.switchTerminal terminal entered).xCursor = d.xCursor ∧
      (d.switchTerminal terminal entered).yCursor = d.yCursor := by
    rw [hshown, hsaved]
    unfold Display.switchTerminal
    rw [if_neg hsame]
    dsimp only
    by_cases htask : d.currTask terminal = -1
    · rw [if_pos htask]
      cases entered with
      | true => exact ⟨.inl rfl, rfl, rfl, rfl⟩
      | false => exact ⟨.inr rfl, rfl, rfl, rfl⟩
    · rw [if_neg htask]
      exact ⟨.inl rfl, rfl, rfl, rfl⟩
  obtain ⟨hmem, hactive, hx, hy⟩ := hresult
  refine ⟨fun i hi => ?_, by rw [hx], by rw [hy]⟩
  have hpage : shown (screenOf terminal t + i) = d.mem (screenOf d.activeTerminal t + i) ∧
      memcpy videoMem (Display.videoAddr terminal) 4096 shown (screenOf terminal t + i) =
        shown (screenOf terminal t + i) := by
    by_cases hterminal : t = terminal
    · -- the terminal that is displayed now was in the background
      have hback : t ≠ d.activeTerminal := fun heq => hsame (heq ▸ hterminal)
      have hapart := videoAddr_apart ha0 ht0 (Ne.symm hback)
      rw [hterminal] at hback hapart ⊢
      have hkept : saved (Display.videoAddr terminal + i) =
          d.mem (Display.videoAddr terminal + i) := by
        rw [hsaved]
        exact memcpy_outside (by omega) _ _
      rw [screenOf_active, screenOf_of_ne h0 hback, memcpy_inside _ _ hi, hshown,
        memcpy_inside _ _ hi, showPage_backing h0 i]
      exact ⟨hkept, rfl⟩
    · rw [screenOf_of_ne ht0 hterminal, showPage_backing ht0 i, hshown, showPage_backing ht0 i,
        hsaved]
      refine ⟨?_, rfl⟩
      by_cases hactive' : t = d.activeTerminal
      · rw [← hactive', screenOf_active, memcpy_inside _ _ hi]
      · have hapart := videoAddr_apart ha0 ht0 (Ne.symm hactive')
        rw [screenOf_of_ne ht0 hactive']
        exact memcpy_outside (by omega) _ _
  unfold Display.content
  rw [hactive]
  rcases hmem with hmem | hmem
  · rw [hmem]
    exact hpage.1
  · rw [hmem]
    exact hpage.2.trans hpage.1

/-- The colour is the one that `cycle_text_color` sets. -/
theorem switchTerminal_color {d : Display} (hcolor : d.textColor = gray) (terminal : Int)
    (entered : Bool) : (d.switchTerminal terminal entered).textColor = gray := by
  unfold Display.switchTerminal
  by_cases hsame : d.activeTerminal = terminal
  · rw [if_pos hsame]
    exact hcolor
  · rw [if_neg hsame]
    dsimp only
    split
    · cases entered <;> rfl
    · rfl

/-! ## Runs -/

/-- **Each event** is an operation on the private screen of one terminal, or none at all. -/
theorem Screens.step {d : Display} {S : Int → Screen} (h : Screens d S) (e : DisplayEvent)
    (hlive : WriterLive d e) :
    Screens (displayStep d e)
        ((writes d e).elim S (stepAt (Screen.apply gray) S)) ∧
      ∀ t, 0 ≤ t → t < 3 → (∀ op, writes d e ≠ some (t, op)) → SameTerminal t d (displayStep d e) := by
  obtain ⟨ha0, ha3⟩ := h.active
  -- a write to terminal `t`
  have hwrite : ∀ (t : Int) (op : ScreenOp) (d' : Display), 0 ≤ t → t < 3 →
      WritesOnly t ((S t).apply gray op) d d' →
      Screens d' (stepAt (Screen.apply gray) S (t, op)) ∧
        ∀ u, 0 ≤ u → u < 3 → (∀ op', some (t, op) ≠ some (u, op')) → SameTerminal u d d' := by
    intro t op d' ht0 ht3 hw
    refine ⟨⟨by rw [hw.active]; exact h.active, hw.color.trans h.color, ?_⟩, ?_⟩
    · intro u hu0 hu3
      unfold stepAt
      dsimp only
      by_cases hut : u = t
      · rw [hut, Function.update_self, hw.active]
        exact hw.shows
      · rw [Function.update_of_ne hut]
        exact (hw.others ht0 ht3 hu0 hu3 hut).shows (h.shows u hu0 hu3)
    · intro u hu0 hu3 hnot
      apply hw.others ht0 ht3 hu0 hu3
      intro hut
      exact hnot op (by rw [hut])
  cases e with
  | myPutc c =>
    obtain ⟨h0, h3⟩ := hlive
    have hw := myPutc_writesOnly h0 (h.shows _ h0 h3) c
    rw [h.color] at hw
    exact hwrite _ (.write c) _ h0 h3 hw
  | keyPutc c =>
    have hw := keyPutc_writesOnly (h.shows _ ha0 ha3) c
    rw [h.color] at hw
    exact hwrite _ (.write c) _ ha0 ha3 hw
  | backspace =>
    have hw := backspace_writesOnly (h.shows _ ha0 ha3)
    rw [h.color] at hw
    exact hwrite _ .erase _ ha0 ha3 hw
  | switchTerminal terminal entered =>
    have hsame : ∀ t, 0 ≤ t → t < 3 →
        SameTerminal t d (d.switchTerminal (terminal.val : Nat) entered) :=
      fun t ht0 _ => switchTerminal_same ha0 (Int.natCast_nonneg _) entered ht0
    have hcolor := switchTerminal_color h.color (terminal.val : Nat) entered
    refine ⟨⟨?_, hcolor, fun t ht0 ht3 => (hsame t ht0 ht3).shows (h.shows t ht0 ht3)⟩,
      fun t ht0 ht3 _ => hsame t ht0 ht3⟩
    change 0 ≤ (d.switchTerminal (terminal.val : Nat) entered).activeTerminal ∧
      (d.switchTerminal (terminal.val : Nat) entered).activeTerminal < 3
    rw [Display.switchTerminal_activeTerminal]
    omega
  | schedule processNum mainProcess currTask =>
    exact ⟨⟨h.active, h.color, h.shows⟩, fun t _ _ _ => ⟨fun _ _ => rfl, rfl, rfl⟩⟩

/-- What the memory shows before anything is written, with the cursors at the top left. -/
def screensAt (d : Display) (t : Int) : Screen :=
  .topLeft (fun r c => d.mem (screenOf d.activeTerminal t + 2 * (80 * r.val + c.val)))
    fun r c => d.mem (screenOf d.activeTerminal t + 2 * (80 * r.val + c.val) + 1)

theorem screens_init (d : Display) : Screens d.init (screensAt d.init) where
  active := ⟨le_refl 0, by change (0 : Int) < 3; omega⟩
  color := rfl
  shows _ _ _ := ⟨fun _ _ => rfl, fun _ _ => rfl, rfl, rfl⟩

/-- **Three independent screens**: in every run from the start, each terminal shows what its private
screen shows after the operations on its behalf, in their order; and an event that is not one of
them, such as a terminal switch, leaves every byte of its page and its cursor as they were. -/
theorem display_refines (d : Display) (es : List DisplayEvent)
    (hlive : Along displayStep WriterLive d.init es) (t : Int) (h0 : 0 ≤ t) (h3 : t < 3) :
    let d' := run displayStep d.init es
    Shows d'.mem (screenOf d'.activeTerminal t) (d'.xCursor t) (d'.yCursor t)
      (run (Screen.apply gray) (screensAt d.init t)
        (eventsAt t (observe displayStep writes d.init es))) ∧
    ∀ pre e, pre ++ [e] <+: es →
      (∀ op, writes (run displayStep d.init pre) e ≠ some (t, op)) →
      SameTerminal t (run displayStep d.init pre) (run displayStep d.init (pre ++ [e])) := by
  have hsim : ∀ es', Along displayStep WriterLive d.init es' →
      Screens (run displayStep d.init es')
        (run (stepAt (Screen.apply gray)) (screensAt d.init)
          (observe displayStep writes d.init es')) := fun es' hlive' =>
    simulation_run (fun d S e h hC => (h.step e hC).1) (screens_init d) hlive'
  intro d'
  constructor
  · have hshows := (hsim es hlive).shows t h0 h3
    rw [run_stepAt] at hshows
    exact hshows
  · intro pre e hpre hnot
    obtain ⟨post, rfl⟩ := hpre
    obtain ⟨hpre', -⟩ := (along_append _ _ _).mp hlive
    obtain ⟨hpre', he, -⟩ := (along_append _ _ _).mp hpre'
    rw [run_append]
    exact ((hsim pre hpre').step e he).2 t h0 h3 hnot

/-- A display whose memory holds spaces. -/
def sampleDisplay : Display :=
  ⟨fun _ => 0, 0, 0, fun _ => 0, fun _ => 0, fun _ => 0, 0, 0, 0, 0, fun _ => 32⟩

/-- A process of the first terminal writes `A`; the second terminal is displayed, and its process
writes `B` to the same cell of its own screen. -/
theorem display_refines_sample :
    let owner : Int → Int := fun p => if p < 2 then p else -1
    let d := run displayStep sampleDisplay.init [.schedule owner 0 fun _ => 0, .myPutc 65,
      .switchTerminal 1 true, .schedule owner 1 fun _ => 0, .myPutc 66]
    d.mem (screenOf d.activeTerminal 0 + 2 * (80 * (0 : Fin 25).val + (0 : Fin 80).val)) = 65 := by
  have hshows := ((display_refines sampleDisplay [.schedule (fun p => if p < 2 then p else -1) 0
    fun _ => 0, .myPutc 65, .switchTerminal 1 true, .schedule (fun p => if p < 2 then p else -1) 1
    fun _ => 0, .myPutc 66] ⟨trivial, ⟨by decide, by decide⟩, trivial, trivial,
      ⟨by decide, by decide⟩, trivial⟩ 0 (by decide) (by decide)).1).char 0 0
  exact hshows.trans (by decide +kernel)

end SrirachOS
