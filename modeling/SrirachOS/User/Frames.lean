import Mathlib.Data.List.GetD
import SrirachOS.User.BlinkPhase

/-!
# The Frames of fish

`add_frames` reads two files side by side, character by character and line by line, and adds a blinking
character wherever one of the two has something else than a space. With the ticks of the clock the screen
then shows the one text and the other in turn.

- `addFrames_overlay`: the characters that are added, for any two texts,
- `frames_alternate`: what the screen shows after any number of ticks.
-/

namespace SrirachOS

namespace User

/-! ## fish.c -/

/-- What `add_frames` keeps of a file: what is left of it, `c0` or `c1`, and `eof0` or `eof1`. -/
structure Frame where
  rest : List UInt8
  c : UInt8
  eof : Bool

/-- `if (c0 != '\n')`, a read of one byte; at the end of the file a newline is taken for it. -/
def Frame.read (f : Frame) : Frame :=
  if f.c ≠ 10 then
    match f.rest with
    | [] => ⟨[], 10, true⟩
    | c :: rest => ⟨rest, c, f.eof⟩
  else f

/-- Behind a row: a file that has come to its end is closed. -/
def Frame.nextRow (f : Frame) : Frame := { f with c := if f.eof = true then 10 else 48 }

/-- A character of the one frame, and the one of the other, at a place of the screen. -/
def blinkAt (row col : Nat) (on off : UInt8) : Blink where
  location := .ofNat (row * 80 + col + 40)
  onChar := on
  offChar := off
  onLength := 15
  offLength := 15
  countdown := 0
  status := 0

/-- `while (1)` of `add_frames`, for one row: the structures that are passed to `mp1_ioctl`. What stands in
the two fields that are not set is of no account. -/
def rowLoop (row : Nat) : Nat → Nat → Frame → Frame → Option (List Blink × Frame × Frame)
  | 0, _, _, _ => none
  | turns + 1, col, f0, f1 =>
    let f0 := f0.read
    let f1 := f1.read
    if f0.c = 10 ∧ f1.c = 10 then some ([], f0, f1)
    else
      let added :=
        if (f0.c ≠ 32 ∧ f0.c ≠ 10) ∨ (f1.c ≠ 32 ∧ f1.c ≠ 10) then
          [blinkAt row col (if f0.c = 10 then 32 else f0.c) (if f1.c = 10 then 32 else f1.c)]
        else []
      (rowLoop row turns (col + 1) f0 f1).map fun result => (added ++ result.1, result.2)

/-- `while (eof0 == 0 || eof1 == 0)` of `add_frames`, from a row on. -/
def framesLoop : Nat → Nat → Frame → Frame → Option (List Blink)
  | 0, _, _, _ => none
  | turns + 1, row, f0, f1 =>
    if f0.eof = true ∧ f1.eof = true then some []
    else do
      let (added, f0, f1) ← rowLoop row turns 0 f0 f1
      let more ← framesLoop turns (row + 1) f0.nextRow f1.nextRow
      some (added ++ more)

/-- `add_frames(f0, f1, rtc_fd)`, for the texts of two files. -/
def addFrames (turns : Nat) (text0 text1 : List UInt8) : Option (List Blink) :=
  framesLoop turns 0 ⟨text0, 48, false⟩ ⟨text1, 48, false⟩

/-! ## Two texts, one over the other -/

/-- Two characters at a place, unless both are spaces. -/
def overlayCell (row col : Nat) (on off : UInt8) : List Blink :=
  if on = 32 ∧ off = 32 then [] else [blinkAt row col on off]

/-- Two lines, from a column on; the shorter one is filled up with spaces. -/
def overlayRow (row : Nat) : Nat → Nat → List UInt8 → List UInt8 → List Blink
  | 0, _, _, _ => []
  | width + 1, col, a, b =>
    overlayCell row col (a.headD 32) (b.headD 32) ++ overlayRow row width (col + 1) a.tail b.tail

/-- The columns of two lines. -/
def widthOf (a b : List UInt8) : Nat := max a.length b.length

/-- Two texts, line by line from a row on. -/
def overlayRows : Nat → Nat → List (List UInt8) → List (List UInt8) → List Blink
  | 0, _, _, _ => []
  | height + 1, row, as, bs =>
    overlayRow row (widthOf (as.headD []) (bs.headD [])) 0 (as.headD []) (bs.headD []) ++
      overlayRows height (row + 1) as.tail bs.tail

/-- Two texts, from the upper left corner of their part of the screen on. -/
def overlay (text0 text1 : List UInt8) : List Blink :=
  overlayRows (max (text0.splitOn 10).length (text1.splitOn 10).length) 0 (text0.splitOn 10)
    (text1.splitOn 10)

/-! ## One row -/

/-- The rest of a row: the characters that are going to be read, and the file behind them. -/
def Frame.Row (f : Frame) : List UInt8 → Frame → Prop
  | [], after => f.read = after ∧ after.c = 10
  | x :: xs, after => f.read.c = x ∧ x ≠ 10 ∧ f.read.Row xs after

variable {f f0 f1 after after0 after1 : Frame} {a b line : List UInt8} {as bs : List (List UInt8)}
  {row col turns : Nat}

theorem Frame.read_newline (h : f.c = 10) : f.read = f := by simp [Frame.read, h]

/-- A file that has read its newline waits for the other one. -/
theorem Frame.row_newline (h : f.c = 10) : f.Row [] f := ⟨Frame.read_newline h, h⟩

/-- A line that is over counts as spaces. -/
def padded (c : UInt8) : UInt8 := if c = 10 then 32 else c

theorem added_eq (row col : Nat) (x y : UInt8) :
    (if (x ≠ 32 ∧ x ≠ 10) ∨ (y ≠ 32 ∧ y ≠ 10) then
        [blinkAt row col (if x = 10 then 32 else x) (if y = 10 then 32 else y)] else []) =
      overlayCell row col (padded x) (padded y) := by
  unfold overlayCell padded
  by_cases hx : x = 10 <;> by_cases hy : y = 10 <;> simp [hx, hy]
  by_cases hblank : x = 32 <;> simp [hblank]

/-- One turn of the loop, while one of the lines goes on. -/
theorem rowLoop_step (h : ¬ (f0.read.c = 10 ∧ f1.read.c = 10)) {more : List Blink}
    (hmore : rowLoop row turns (col + 1) f0.read f1.read = some (more, after0, after1)) :
    rowLoop row (turns + 1) col f0 f1 =
      some (overlayCell row col (padded f0.read.c) (padded f1.read.c) ++ more, after0, after1) := by
  simp only [rowLoop]
  rw [if_neg h, added_eq, hmore]
  rfl

theorem widthOf_tail (a b : List UInt8) (h : ¬ (a = [] ∧ b = [])) :
    widthOf a b = widthOf a.tail b.tail + 1 := by
  cases a <;> cases b <;> simp_all [widthOf]

/-- What is read next in a row that goes on, and in one that does not. -/
theorem Frame.Row.next (h : f.Row a after) :
    (f.read.c = 10 ↔ a = []) ∧ padded f.read.c = a.headD 32 ∧ f.read.Row a.tail after := by
  cases a with
  | nil =>
    obtain ⟨rfl, hc⟩ := h
    exact ⟨by simp [hc], by simp [padded, hc], Frame.row_newline hc⟩
  | cons x a =>
    obtain ⟨hread, hx, hrest⟩ := h
    exact ⟨by simp [hread, hx], by simp [padded, hread, hx], hrest⟩

/-- **One row** adds the characters of two lines. -/
theorem rowLoop_overlay (col : Nat) (h0 : f0.Row a after0) (h1 : f1.Row b after1)
    (hturns : widthOf a b < turns) :
    rowLoop row turns col f0 f1 = some (overlayRow row (widthOf a b) col a b, after0, after1) := by
  induction turns generalizing col f0 f1 a b with
  | zero => omega
  | succ turns ih =>
    obtain ⟨hend0, hpad0, hrest0⟩ := h0.next
    obtain ⟨hend1, hpad1, hrest1⟩ := h1.next
    by_cases hboth : a = [] ∧ b = []
    · obtain ⟨rfl, rfl⟩ := hboth
      simp only [rowLoop]
      rw [if_pos ⟨hend0.mpr rfl, hend1.mpr rfl⟩, h0.1, h1.1]
      rfl
    · have hwidth := widthOf_tail a b hboth
      have hmore := ih (col + 1) hrest0 hrest1 (by omega)
      rw [rowLoop_step (by rwa [hend0, hend1]) hmore, hpad0, hpad1, hwidth]
      rfl

/-! ## Row after row -/

/-- A file at the beginning of a row, with the lines that are left of it. -/
def Frame.Lines (f : Frame) (lines : List (List UInt8)) : Prop :=
  (lines = [] ∧ f.eof = true ∧ f.c = 10) ∨ (f.eof = false ∧ f.c ≠ 10 ∧ f.rest.splitOn 10 = lines)

/-- A line of the file is a row, which ends with the newline or with the file. -/
theorem Frame.row_line (hc : f.c ≠ 10) (hline : 10 ∉ line) {tail : List UInt8}
    (hrest : f.rest = line ++ tail) :
    (tail = [] → f.Row line ⟨[], 10, true⟩) ∧
      ∀ more, tail = 10 :: more → f.Row line ⟨more, 10, f.eof⟩ := by
  induction line generalizing f with
  | nil =>
    refine ⟨fun htail => ?_, fun more htail => ?_⟩
    · subst htail
      exact ⟨by simp [Frame.read, hc, hrest], rfl⟩
    · subst htail
      exact ⟨by simp [Frame.read, hc, hrest], rfl⟩
  | cons x line ih =>
    simp only [List.mem_cons, not_or] at hline
    have hx : x ≠ 10 := Ne.symm hline.1
    have hread : f.read = ⟨line ++ tail, x, f.eof⟩ := by simp [Frame.read, hc, hrest]
    obtain ⟨hlast, hmore⟩ := ih (f := f.read) (by rw [hread]; exact hx) hline.2 (by rw [hread])
    refine ⟨fun htail => ⟨by rw [hread], hx, hlast htail⟩, fun more htail => ⟨by rw [hread], hx, ?_⟩⟩
    have hrow := hmore more htail
    rwa [show f.read.eof = f.eof by rw [hread]] at hrow

/-- **The next row** of a file: its next line, if there is one, and an empty line otherwise. -/
theorem Frame.Lines.next (h : f.Lines as) :
    ∃ after, f.Row (as.headD []) after ∧ after.nextRow.Lines as.tail ∧ (after.eof = true ↔ as.tail = []) := by
  obtain ⟨rfl, heof, hc⟩ | ⟨heof, hc, hlines⟩ := h
  · exact ⟨f, Frame.row_newline hc, .inl ⟨rfl, heof, by simp [Frame.nextRow, heof]⟩, by simp [heof]⟩
  · by_cases hmem : 10 ∈ f.rest
    · obtain ⟨line, more, hrest, hline⟩ := List.eq_append_cons_of_mem hmem
      rw [hrest, List.splitOn_append_cons_self_of_not_mem hline] at hlines
      subst hlines
      have hmore : more.splitOn 10 ≠ [] := by simp
      refine ⟨_, (Frame.row_line hc hline hrest).2 more rfl, .inr ?_, by simp [heof, hmore]⟩
      simp [Frame.nextRow, heof]
    · rw [List.splitOn_eq_singleton hmem] at hlines
      subst hlines
      refine ⟨_, (Frame.row_line hc hmem (by simp)).1 rfl, .inl ?_, by simp⟩
      simp [Frame.nextRow]

theorem Frame.Lines.eof_iff (h : f.Lines as) : f.eof = true ↔ as = [] := by
  obtain ⟨rfl, heof, -⟩ | ⟨heof, -, rfl⟩ := h
  · simp [heof]
  · simp [heof]

/-- **All the rows** that are left of two files. -/
theorem framesLoop_overlay {w : Nat} (h0 : f0.Lines as) (h1 : f1.Lines bs)
    (hwidth : ∀ l ∈ as ++ bs, l.length ≤ w) (hturns : max as.length bs.length + w < turns) :
    framesLoop turns row f0 f1 = some (overlayRows (max as.length bs.length) row as bs) := by
  induction turns generalizing row f0 f1 as bs with
  | zero => omega
  | succ turns ih =>
    by_cases hboth : as = [] ∧ bs = []
    · rw [framesLoop, if_pos ⟨h0.eof_iff.mpr hboth.1, h1.eof_iff.mpr hboth.2⟩, hboth.1, hboth.2]
      rfl
    · have hheight : max as.length bs.length = max as.tail.length bs.tail.length + 1 := by
        cases as <;> cases bs <;> simp_all
      obtain ⟨after0, hrow0, hnext0, -⟩ := h0.next
      obtain ⟨after1, hrow1, hnext1, -⟩ := h1.next
      have hfirst : ∀ {ls : List (List UInt8)}, (∀ l ∈ ls, l.length ≤ w) → (ls.headD []).length ≤ w := by
        intro ls hls
        cases ls with
        | nil => exact Nat.zero_le w
        | cons l ls => exact hls l List.mem_cons_self
      have hrow : widthOf (as.headD []) (bs.headD []) < turns := by
        have hlen0 := hfirst fun l hl => hwidth l (List.mem_append_left _ hl)
        have hlen1 := hfirst fun l hl => hwidth l (List.mem_append_right _ hl)
        unfold widthOf
        omega
      have hrest : ∀ l ∈ as.tail ++ bs.tail, l.length ≤ w := fun l hl =>
        hwidth l ((List.mem_append.mp hl).elim (fun h => List.mem_append_left _ (List.mem_of_mem_tail h))
          fun h => List.mem_append_right _ (List.mem_of_mem_tail h))
      rw [framesLoop, if_neg (by rwa [h0.eof_iff, h1.eof_iff]), rowLoop_overlay 0 hrow0 hrow1 hrow, hheight]
      simp only [Option.bind_eq_bind, Option.bind_some]
      rw [ih hnext0 hnext1 hrest (by omega)]
      rfl

theorem exists_width (lines : List (List UInt8)) : ∃ w, ∀ l ∈ lines, l.length ≤ w := by
  induction lines with
  | nil => exact ⟨0, by simp⟩
  | cons line lines ih =>
    obtain ⟨w, hw⟩ := ih
    refine ⟨max line.length w, List.forall_mem_cons.mpr ⟨Nat.le_max_left .., fun l hl => ?_⟩⟩
    exact (hw l hl).trans (Nat.le_max_right ..)

/-- **The frames** of any two texts are read to their ends, and what is added is the one text over the
other: line by line, and column by column, wherever one of the two has a character. -/
theorem addFrames_overlay (text0 text1 : List UInt8) :
    ∃ n, ∀ turns ≥ n, addFrames turns text0 text1 = some (overlay text0 text1) := by
  obtain ⟨w, hw⟩ := exists_width (text0.splitOn 10 ++ text1.splitOn 10)
  refine ⟨max (text0.splitOn 10).length (text1.splitOn 10).length + w + 1, fun turns hturns => ?_⟩
  have hlines : ∀ text : List UInt8, (Frame.mk text 48 false).Lines (text.splitOn 10) := fun text =>
    .inr ⟨rfl, show (48 : UInt8) ≠ 10 by decide, rfl⟩
  exact framesLoop_overlay (hlines text0) (hlines text1) hw (by omega)

example : overlay [65, 32, 10, 66] [32, 32, 67] =
    [blinkAt 0 0 65 32, blinkAt 0 2 32 67, blinkAt 1 0 66 32] := by decide

/-! ## What the screen shows -/

/-- The character of a text at a place, or a space. -/
def charAt (text : List UInt8) (row col : Nat) : UInt8 := ((text.splitOn 10).getD row []).getD col 32

/-- A text for the right half of the screen. -/
structure FrameFits (text : List UInt8) : Prop where
  height : (text.splitOn 10).length ≤ 25
  width : ∀ l ∈ text.splitOn 10, l.length ≤ 40

theorem location_blinkAt {row col : Nat} (hrow : row < 25) (hcol : col < 40) (on off : UInt8) :
    (blinkAt row col on off).location.toNat = row * 80 + col + 40 :=
  UInt16.toNat_ofNat_of_lt' (by change _ < 65536; omega)

theorem mem_overlayCell {e : Blink} {on off : UInt8} :
    e ∈ overlayCell row col on off ↔ e = blinkAt row col on off ∧ ¬ (on = 32 ∧ off = 32) := by
  unfold overlayCell
  split_ifs with hblank <;> simp [hblank]

theorem mem_overlayRow {e : Blink} {width : Nat} :
    e ∈ overlayRow row width col a b ↔
      ∃ i < width, e = blinkAt row (col + i) (a.getD i 32) (b.getD i 32) ∧
        ¬ (a.getD i 32 = 32 ∧ b.getD i 32 = 32) := by
  induction width generalizing col a b with
  | zero => simp [overlayRow]
  | succ width ih =>
    rw [overlayRow, List.mem_append, mem_overlayCell, ih]
    have htail : ∀ (l : List UInt8) i, l.tail.getD i 32 = l.getD (i + 1) 32 := fun l i => by cases l <;> rfl
    have hhead : ∀ l : List UInt8, l.headD 32 = l.getD 0 32 := fun l => by cases l <;> rfl
    constructor
    · rintro (⟨he, hblank⟩ | ⟨i, hi, he, hblank⟩)
      · exact ⟨0, by omega, by rw [he, hhead, hhead]; rfl, by rwa [← hhead, ← hhead]⟩
      · refine ⟨i + 1, by omega, ?_, by rwa [← htail, ← htail]⟩
        rw [he, htail, htail, Nat.add_assoc, Nat.add_comm 1]
    · rintro ⟨i, hi, he, hblank⟩
      cases i with
      | zero => exact .inl ⟨by rw [he, hhead, hhead]; rfl, by rwa [hhead, hhead]⟩
      | succ i =>
        refine .inr ⟨i, by omega, ?_, by rwa [htail, htail]⟩
        rw [he, htail, htail, Nat.add_assoc, Nat.add_comm 1]

/-- The characters of a row come from left to right. -/
theorem pairwise_overlayRow {width : Nat} (hrow : row < 25) (hwidth : col + width ≤ 40) :
    (overlayRow row width col a b).Pairwise fun e e' => e.location.toNat < e'.location.toNat := by
  induction width generalizing col a b with
  | zero => exact .nil
  | succ width ih =>
    rw [overlayRow, List.pairwise_append]
    refine ⟨?_, ih (by omega), fun e he e' he' => ?_⟩
    · unfold overlayCell
      split_ifs
      · exact .nil
      · exact List.pairwise_singleton ..
    · obtain ⟨rfl, -⟩ := mem_overlayCell.mp he
      obtain ⟨i, hi, rfl, -⟩ := mem_overlayRow.mp he'
      rw [location_blinkAt hrow (by omega), location_blinkAt hrow (by omega)]
      omega

theorem mem_overlayRows {e : Blink} {height : Nat} :
    e ∈ overlayRows height row as bs ↔
      ∃ r < height, e ∈ overlayRow (row + r) (widthOf (as.getD r []) (bs.getD r [])) 0 (as.getD r [])
        (bs.getD r []) := by
  induction height generalizing row as bs with
  | zero => simp [overlayRows]
  | succ height ih =>
    rw [overlayRows, List.mem_append, ih]
    have htail : ∀ (ls : List (List UInt8)) r, ls.tail.getD r [] = ls.getD (r + 1) [] := fun ls r => by
      cases ls <;> rfl
    have hhead : ∀ ls : List (List UInt8), ls.headD [] = ls.getD 0 [] := fun ls => by cases ls <;> rfl
    rw [hhead, hhead]
    simp only [htail]
    constructor
    · rintro (he | ⟨r, hr, he⟩)
      · exact ⟨0, by omega, he⟩
      · exact ⟨r + 1, by omega, by rwa [Nat.add_assoc, Nat.add_comm 1] at he⟩
    · rintro ⟨r, hr, he⟩
      cases r with
      | zero => exact .inl he
      | succ r => exact .inr ⟨r, by omega, by rwa [Nat.add_assoc, Nat.add_comm 1]⟩

theorem widthOf_getD {as bs : List (List UInt8)} (hwidth : ∀ l ∈ as ++ bs, l.length ≤ 40) (r : Nat) :
    widthOf (as.getD r []) (bs.getD r []) ≤ 40 := by
  have hline : ∀ {ls : List (List UInt8)}, (∀ l ∈ ls, l.length ≤ 40) → (ls.getD r []).length ≤ 40 := by
    intro ls hls
    by_cases hr : r < ls.length
    · rw [List.getD_eq_getElem _ _ hr]
      exact hls _ (List.getElem_mem hr)
    · rw [List.getD_eq_default _ _ (by omega)]
      exact Nat.zero_le 40
  exact Nat.max_le.mpr ⟨hline fun l hl => hwidth l (List.mem_append_left _ hl),
    hline fun l hl => hwidth l (List.mem_append_right _ hl)⟩

/-- The characters of all the rows come one after the other, from the top down. -/
theorem pairwise_overlayRows {height : Nat} (hheight : row + height ≤ 25)
    (hwidth : ∀ l ∈ as ++ bs, l.length ≤ 40) :
    (overlayRows height row as bs).Pairwise fun e e' => e.location.toNat < e'.location.toNat := by
  induction height generalizing row as bs with
  | zero => exact .nil
  | succ height ih =>
    have hrest : ∀ l ∈ as.tail ++ bs.tail, l.length ≤ 40 := fun l hl =>
      hwidth l ((List.mem_append.mp hl).elim (fun h => List.mem_append_left _ (List.mem_of_mem_tail h))
        fun h => List.mem_append_right _ (List.mem_of_mem_tail h))
    have hhead : ∀ ls : List (List UInt8), ls.headD [] = ls.getD 0 [] := fun ls => by cases ls <;> rfl
    have hfirst := widthOf_getD hwidth 0
    rw [overlayRows, List.pairwise_append, hhead, hhead]
    refine ⟨pairwise_overlayRow (by omega) (by omega), ih (by omega) hrest, fun e he e' he' => ?_⟩
    obtain ⟨i, hi, rfl, -⟩ := mem_overlayRow.mp he
    obtain ⟨r, hr, hmem⟩ := mem_overlayRows.mp he'
    have hlater := widthOf_getD hrest r
    obtain ⟨i', hi', rfl, -⟩ := mem_overlayRow.mp hmem
    rw [location_blinkAt (by omega) (by omega), location_blinkAt (by omega) (by omega)]
    omega

/-- The characters that are added, by their places. -/
theorem mem_overlay {text0 text1 : List UInt8} (h0 : FrameFits text0) (h1 : FrameFits text1) {e : Blink} :
    e ∈ overlay text0 text1 ↔
      ∃ row < 25, ∃ col < 40, e = blinkAt row col (charAt text0 row col) (charAt text1 row col) ∧
        ¬ (charAt text0 row col = 32 ∧ charAt text1 row col = 32) := by
  have hwidth : ∀ l ∈ text0.splitOn 10 ++ text1.splitOn 10, l.length ≤ 40 := fun l hl =>
    (List.mem_append.mp hl).elim (h0.width l) (h1.width l)
  have hheight := Nat.max_le.mpr ⟨h0.height, h1.height⟩
  rw [overlay, mem_overlayRows]
  constructor
  · rintro ⟨row, hrow, hmem⟩
    obtain ⟨col, hcol, he, hblank⟩ := mem_overlayRow.mp hmem
    have hle := widthOf_getD hwidth row
    exact ⟨row, by omega, col, by omega, by simpa [charAt] using he, hblank⟩
  · rintro ⟨row, hrow, col, hcol, he, hblank⟩
    have hrow' : row < max (text0.splitOn 10).length (text1.splitOn 10).length := by
      by_contra hbeyond
      refine hblank ⟨?_, ?_⟩ <;> rw [charAt, List.getD_eq_default _ [] (by omega)] <;> rfl
    have hcol' : col < widthOf ((text0.splitOn 10).getD row []) ((text1.splitOn 10).getD row []) := by
      by_contra hbeyond
      unfold widthOf at hbeyond
      refine hblank ⟨?_, ?_⟩ <;> rw [charAt, List.getD_eq_default _ 32 (by omega)]
    exact ⟨row, hrow', mem_overlayRow.mpr ⟨col, hcol', by simpa [charAt] using he, hblank⟩⟩

/-! ## Many characters at once -/

variable {b : Board} {location : UInt16} {cs ds : List BlinkCall}

theorem calls_append (b : Board) (cs ds : List BlinkCall) :
    (b.calls (cs ++ ds)).2 = ((b.calls cs).2.calls ds).2 := by
  induction cs generalizing b with
  | nil => rfl
  | cons c cs ih => exact ih (b.call c).2

/-- Where no character is, and none is added, nothing changes. -/
theorem calls_empty (hcs : ∀ c ∈ cs, c.Spares location) (hhere : b.here location = []) :
    (b.calls cs).2.here location = [] ∧
      (b.calls cs).2.screen (2 * location.toNat) = b.screen (2 * location.toNat) := by
  induction cs generalizing b with
  | nil => exact ⟨hhere, rfl⟩
  | cons c cs ih =>
    rw [List.forall_mem_cons] at hcs
    obtain ⟨hblinks, hcell⟩ := call_spares hcs.1 b
    rw [hhere] at hblinks hcell
    obtain ⟨hrest, hscreen⟩ := ih hcs.2 (hblinks.trans (by split_ifs <;> rfl))
    exact ⟨hrest, hscreen.trans (hcell.trans (by split_ifs <;> rfl))⟩

theorem adds_length (b : Board) (bl : List Blink) :
    (b.calls (bl.map .add)).2.blinks.length ≤ b.blinks.length + bl.length := by
  induction bl generalizing b with
  | nil => exact le_rfl
  | cons e bl ih =>
    have hone : (b.call (.add e)).2.blinks.length ≤ b.blinks.length + 1 := by
      simp only [Board.call]
      split_ifs
      · exact Nat.le_succ _
      · exact le_rfl
    have hrest := ih (b.call (.add e)).2
    rw [List.length_cons]
    simp only [List.map_cons, Board.calls]
    omega

/-- **Characters at different places** are all shown, each with its own phase. -/
theorem adds_shown {bl : List Blink} (hsorted : bl.Pairwise fun e e' => e.location.toNat < e'.location.toNat)
    (hscreen : ∀ e ∈ bl, e.location.toNat < 2000) (vmem : Nat → UInt8) (n : Nat) {e : Blink} (he : e ∈ bl) :
    ((Board.mk [] vmem).calls (bl.map .add ++ List.replicate n .tasklet)).2.screen (2 * e.location.toNat) =
      e.shownAfter n := by
  have hroom : bl.length ≤ 2000 := by
    have hnodup : (bl.map fun e => e.location.toNat).Nodup :=
      List.pairwise_map.mpr (hsorted.imp Nat.ne_of_lt)
    have hsub : (bl.map fun e => e.location.toNat) ⊆ List.range 2000 := fun x hx => by
      obtain ⟨e', hmem, rfl⟩ := List.mem_map.mp hx
      exact List.mem_range.mpr (hscreen e' hmem)
    simpa using (List.subperm_of_subset hnodup hsub).length_le
  obtain ⟨front, back, rfl⟩ := List.append_of_mem he
  obtain ⟨-, hback, hfront⟩ := List.pairwise_append.mp hsorted
  have hother : ∀ c ∈ front.map BlinkCall.add, c.Spares e.location := fun c hc => by
    obtain ⟨e', hmem, rfl⟩ := List.mem_map.mp hc
    have hlt := hfront e' hmem e List.mem_cons_self
    exact fun heq => absurd hlt (by rw [heq]; omega)
  have hlater : ∀ c ∈ back.map BlinkCall.add ++ List.replicate n .tasklet, c.Spares e.location := by
    intro c hc
    obtain hadd | htick := List.mem_append.mp hc
    · obtain ⟨e', hmem, rfl⟩ := List.mem_map.mp hadd
      have hlt := (List.pairwise_cons.mp hback).1 e' hmem
      exact fun heq => absurd hlt (by rw [heq]; omega)
    · rw [List.eq_of_mem_replicate htick]
      trivial
  have hbefore := calls_empty (b := ⟨[], vmem⟩) hother rfl
  have hlength := adds_length ⟨[], vmem⟩ front
  rw [List.map_append, List.map_cons, List.append_assoc, List.cons_append, calls_append]
  generalize (Board.calls ⟨[], vmem⟩ (front.map .add)).2 = b at hbefore hlength ⊢
  have hfree : ¬ (2000 ≤ e.location.toNat ∨ 2000 ≤ b.blinks.length) := by
    have hplace := hscreen e he
    simp only [List.length_append, List.length_cons, List.length_nil] at hroom hlength
    omega
  have hcall : (b.call (.add e)).2 =
      ⟨e.started :: b.blinks, Board.display e.location e.onChar b.screen⟩ := by
    simp only [Board.call]
    rw [if_neg hfree]
  have hcount : (back.map BlinkCall.add ++ List.replicate n BlinkCall.tasklet).count .tasklet = n := by
    rw [List.count_append, List.count_replicate_self, List.count_eq_zero.mpr (by simp), Nat.zero_add]
  have hhere : (Board.mk (e.started :: b.blinks) (Board.display e.location e.onChar b.screen)).here e.location =
      [e.phase 0] := by
    rw [Board.here, List.filter_cons_of_pos (by simp [Blink.started]), started_eq_phase]
    exact congrArg _ hbefore.1
  have hshown := calls_spares hlater hhere rfl (by
    rw [Blink.shownAfter, if_pos (lit_zero e)]
    exact Function.update_self ..)
  rw [hcount, Nat.zero_add] at hshown
  rw [Board.calls, hcall]
  exact hshown

/-- Both lengths are 15. -/
theorem lit_blinkAt (row col : Nat) (on off : UInt8) (n : Nat) :
    (blinkAt row col on off).Lit n ↔ n % 30 < 15 := by
  have hlength : duration 15 = 15 := by decide
  change n % (duration 15 + duration 15) < duration 15 ↔ _
  rw [hlength]

/-- **The two frames in turn**: after `add_frames` and any number of ticks, the right half of the screen
shows the first text for fifteen ticks, then the second for fifteen, and so on; where both have a space,
it shows what stood there before. -/
theorem frames_alternate (vmem : Nat → UInt8) {text0 text1 : List UInt8} (h0 : FrameFits text0)
    (h1 : FrameFits text1) (n : Nat) :
    ∃ answers s,
      blinkCalls ((overlay text0 text1).map .add ++ List.replicate n .tasklet) (.start vmem) =
        some (answers, s) ∧
      ∀ row < 25, ∀ col < 40, s.vmem (2 * (row * 80 + col + 40)) =
        if charAt text0 row col = 32 ∧ charAt text1 row col = 32 then vmem (2 * (row * 80 + col + 40))
        else if n % 30 < 15 then charAt text0 row col else charAt text1 row col := by
  have hplaces := fun e => mem_overlay h0 h1 (e := e)
  have hlocation : ∀ e ∈ overlay text0 text1, 0 < e.location.toNat ∧ e.location.toNat < 2000 := by
    intro e he
    obtain ⟨row, hrow, col, hcol, rfl, -⟩ := (hplaces e).mp he
    rw [location_blinkAt hrow hcol]
    omega
  have hcs : ∀ user, .add user ∈ (overlay text0 text1).map BlinkCall.add ++ List.replicate n .tasklet →
      user.location ≠ 0 := by
    intro user huser hzero
    have hmem : user ∈ overlay text0 text1 := by simpa using huser
    have hpos := (hlocation user hmem).1
    rw [hzero] at hpos
    exact absurd hpos (by decide)
  obtain ⟨answers, s, ps, hrun, -, h⟩ := represents_calls (represents_start vmem) hcs
  refine ⟨answers, s, hrun, fun row hrow col hcol => ?_⟩
  have hsorted : (overlay text0 text1).Pairwise fun e e' => e.location.toNat < e'.location.toNat :=
    pairwise_overlayRows (by have := h0.height; have := h1.height; omega)
      fun l hl => (List.mem_append.mp hl).elim (h0.width l) (h1.width l)
  have hcell := location_blinkAt hrow hcol (charAt text0 row col) (charAt text1 row col)
  rw [h.screen, ← hcell]
  by_cases hblank : charAt text0 row col = 32 ∧ charAt text1 row col = 32
  · rw [if_pos hblank]
    refine (calls_empty (b := ⟨[], vmem⟩) (fun c hc => ?_) rfl).2
    obtain hadd | htick := List.mem_append.mp hc
    · obtain ⟨e, hmem, rfl⟩ := List.mem_map.mp hadd
      obtain ⟨row', hrow', col', hcol', rfl, hseen⟩ := (hplaces e).mp hmem
      intro heq
      have hsame := congrArg UInt16.toNat heq
      rw [location_blinkAt hrow' hcol', hcell] at hsame
      obtain ⟨rfl, rfl⟩ : row' = row ∧ col' = col := by omega
      exact hseen hblank
    · rw [List.eq_of_mem_replicate htick]
      trivial
  · rw [if_neg hblank, adds_shown hsorted (fun e he => (hlocation e he).2) vmem n
      ((hplaces _).mpr ⟨row, hrow, col, hcol, rfl, hblank⟩), Blink.shownAfter]
    simp only [lit_blinkAt]
    rfl

/-- Two frames of one row. -/
theorem frames_alternate_sample :
    let text0 : List UInt8 := [65, 32, 66]
    let text1 : List UInt8 := [67, 32]
    ∃ answers s,
      blinkCalls ((overlay text0 text1).map .add ++ List.replicate 15 .tasklet) (.start fun _ => 32) =
        some (answers, s) ∧
      ∀ row < 25, ∀ col < 40, s.vmem (2 * (row * 80 + col + 40)) =
        if charAt text0 row col = 32 ∧ charAt text1 row col = 32 then 32
        else if 15 % 30 < 15 then charAt text0 row col else charAt text1 row col :=
  frames_alternate (fun _ => 32) ⟨by decide, by decide⟩ ⟨by decide, by decide⟩ 15

end User

end SrirachOS
