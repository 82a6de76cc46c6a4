import Mathlib.Data.List.TakeWhile
import Mathlib.Data.Nat.Find
import SrirachOS.Console.Editor

/-!
# The Line Slot

Enter stores a line in the line buffer of the displayed terminal, and `terminal_read` waits for one
there, copies it and empties the buffer. The keyboard interrupts a read between any two of its
steps, and so does the scheduler.

- `Typing.key`: what a key does to the lines that are being typed,
- `LineSystem`: the keyboard and the reads, with the lines completed and returned so far,
- `lines_balance`: while the run is `Orderly`, the completed lines are the returned ones and the one
  that is held.
-/

namespace SrirachOS

open Foundation

/-! ## Typing -/

/-- The first `n` characters of a buffer, with room for a newline, and none of them is null. -/
def TextOk (buf : Nat → UInt8) (n : Nat) : Prop := n ≤ 127 ∧ ∀ i, i < n → buf i ≠ 0

/-- Whatever `getChar` does, it keeps to the line of the terminal that the handler has loaded. -/
structure CharKeeps (k : Console) (r : Option UInt8) (k' : Console) : Prop where
  handler : k'.handlerTerminal = k.handlerTerminal
  lines : k'.lineBuf = k.lineBuf
  idxs : k'.saveIdx = k.saveIdx
  owners : k'.processNum = k.processNum
  others : ∀ t, t ≠ k.handlerTerminal → k'.saveBuf t = k.saveBuf t
  text : TextOk (k.saveBuf k.handlerTerminal) k.keyboardBufIdx →
    TextOk (k'.saveBuf k.handlerTerminal) k'.keyboardBufIdx
  same : r ≠ some dontPrint → k'.keyboardBufIdx = k.keyboardBufIdx
  char : r ≠ some 0
  active : 0 ≤ k.activeTerminal ∧ k.activeTerminal < 3 →
    0 ≤ k'.activeTerminal ∧ k'.activeTerminal < 3

/-- A branch of `getChar` that changes the display, the flags and the counters alone. -/
theorem CharKeeps.of_display {k k' : Console} {r : Option UInt8}
    (hhandler : k'.handlerTerminal = k.handlerTerminal) (hlines : k'.lineBuf = k.lineBuf)
    (hidxs : k'.saveIdx = k.saveIdx) (howners : k'.processNum = k.processNum)
    (hbuf : k'.saveBuf = k.saveBuf) (hidx : k'.keyboardBufIdx = k.keyboardBufIdx) (hr : r ≠ some 0)
    (hactive : 0 ≤ k.activeTerminal ∧ k.activeTerminal < 3 →
      0 ≤ k'.activeTerminal ∧ k'.activeTerminal < 3) : CharKeeps k r k' where
  handler := hhandler
  lines := hlines
  idxs := hidxs
  owners := howners
  others t _ := by rw [hbuf]
  text h := by
    rw [hbuf, hidx]
    exact h
  same _ := hidx
  char := hr
  active := hactive

/-- An output routine that leaves the displayed terminal and the owners of the processes alone. -/
def OutputOnly (d d' : Display) : Prop :=
  d'.activeTerminal = d.activeTerminal ∧ d'.processNum = d.processNum

theorem outputOnly_foldl {f : Display → UInt8 → Display} (h : ∀ d c, OutputOnly d (f d c))
    (s : List UInt8) (d : Display) : OutputOnly d (s.foldl f d) := by
  induction s generalizing d with
  | nil => exact ⟨rfl, rfl⟩
  | cons c s ih => exact ⟨(ih (f d c)).1.trans (h d c).1, (ih (f d c)).2.trans (h d c).2⟩

theorem printf_outputOnly (s : List UInt8) (d : Display) : OutputOnly d (d.printf s) :=
  outputOnly_foldl (f := fun d c => d.putc c) (fun _ _ => ⟨rfl, rfl⟩) s d

theorem myPuts_outputOnly (s : List UInt8) (d : Display) : OutputOnly d (d.myPuts s) :=
  outputOnly_foldl (f := fun d c => d.myPutc c) (fun _ _ => ⟨rfl, rfl⟩) s d

theorem switchTerminal_processNum (d : Display) (terminal : Int) (entered : Bool) :
    (d.switchTerminal terminal entered).processNum = d.processNum := by
  unfold Display.switchTerminal
  split
  · rfl
  · dsimp only
    split
    · cases entered <;> rfl
    · rfl

/-- No name has a null character in it. -/
theorem completion_ne_zero {img : Image} {text : List UInt8} {c : UInt8}
    (h : c ∈ completion img text) : c ≠ 0 := by
  unfold completion at h
  split at h
  · simp at h
  · split at h
    · have hc := List.mem_takeWhile_imp h
      simpa using hc
    · simp at h

theorem fsSearch_textOk (img : Image) {buf : Nat → UInt8} {n : Nat} (h : TextOk buf n) :
    TextOk (fsSearch img buf n).buf (fsSearch img buf n).idx := by
  obtain ⟨htext, hroom⟩ := fsSearch_completes img buf h.1
  refine ⟨hroom, fun i hi => ?_⟩
  have hmem : (fsSearch img buf n).buf i ∈
      (bufText buf n ++ completion img (bufText buf n)).take 127 := by
    rw [← htext]
    exact mem_bufText.mpr ⟨i, hi, rfl⟩
  rcases List.mem_append.mp (List.mem_of_mem_take hmem) with hold | hnew
  · obtain ⟨j, hj, heq⟩ := mem_bufText.mp hold
    rw [← heq]
    exact h.2 j hj
  · exact completion_ne_zero hnew

theorem lookup_keeps (img : Image) (c : UInt8) (k : Console) :
    CharKeeps k (k.lookup img c).1 (k.lookup img c).2 := by
  have hchar : ∀ ret : UInt8, some (if ret = 0 then dontPrint else ret) ≠ some 0 := by
    intro ret
    by_cases hret : ret = 0
    · rw [if_pos hret]
      decide
    · rw [if_neg hret]
      exact fun heq => hret (Option.some.inj heq)
  unfold Console.lookup
  dsimp only
  by_cases htab : k.shiftCode c = 0x0F
  · -- nothing is written on the key
    have hcap : scancode.getD (k.shiftCode c).toNat 0 = 0 := by rw [htab]; rfl
    rw [if_pos htab, hcap]
    refine ⟨rfl, rfl, rfl, (printf_outputOnly _ _).2, fun t ht => Function.update_of_ne ht .., ?_,
      fun h => absurd rfl h, hchar 0, fun h => ?_⟩
    · intro h
      unfold Console.autocomplete
      dsimp only
      rw [Function.update_self]
      exact fsSearch_textOk img h
    · unfold Console.autocomplete
      dsimp only
      rw [(printf_outputOnly _ _).1]
      exact h
  · rw [if_neg htab]
    exact .of_display rfl rfl rfl rfl rfl rfl (hchar _) id

/-- **`getChar`** keeps to the line of the handler's terminal. -/
theorem pressed_keeps (img : Image) (entered : Bool) (c : UInt8) (k : Console) :
    CharKeeps k (k.pressed img entered c).1 (k.pressed img entered c).2 := by
  have hprint : some dontPrint ≠ some (0 : UInt8) := by decide
  unfold Console.pressed
  split_ifs with hcaps hclear hinterrupt hcolor hswitch hhorizontal hvertical herase
  · exact .of_display rfl rfl rfl rfl rfl rfl hprint id
  · have hputs := myPuts_outputOnly ((List.range k.keyboardBufIdx).map
      (k.saveBuf k.handlerTerminal)) k.toDisplay.myClear
    refine .of_display rfl rfl rfl hputs.2 rfl rfl hprint fun h => ?_
    change 0 ≤ (k.toDisplay.myClear.myPuts _).activeTerminal ∧ _
    rw [hputs.1]
    exact h
  · -- only the byte behind the text is stored
    refine ⟨rfl, rfl, rfl, (printf_outputOnly _ _).2, fun t ht => Function.update_of_ne ht .., ?_,
      fun _ => rfl, by simp, fun h => ?_⟩
    · intro h
      refine ⟨h.1, fun i hi => ?_⟩
      dsimp only
      rw [Function.update_self, Function.update_of_ne (Nat.ne_of_lt hi)]
      exact h.2 i hi
    · change 0 ≤ (k.toDisplay.printf _).activeTerminal ∧ _
      rw [(printf_outputOnly _ _).1]
      exact h
  · exact .of_display rfl rfl rfl rfl rfl rfl hprint id
  · -- the terminal of a function key
    have hcode : ∀ c : UInt8, 0x3B ≤ c ∧ c < 0x3E → c.toNat - 0x3B < 3 := by
      apply forall_byte
      decide +kernel
    have hlt := hcode c hswitch.2
    dsimp only
    refine .of_display rfl rfl rfl (switchTerminal_processNum ..) rfl rfl ?_ fun _ => ?_
    · split
      · simp
      · exact hprint
    · dsimp only
      rw [Display.switchTerminal_activeTerminal]
      omega
  · exact .of_display rfl rfl rfl rfl rfl rfl hprint id
  · exact .of_display rfl rfl rfl rfl rfl rfl hprint id
  · refine ⟨rfl, rfl, rfl, Display.backspace_processNum _, fun _ _ => rfl, fun h => ?_, by simp,
      hprint, fun h => ?_⟩
    · have hroom := h.1
      exact ⟨by dsimp only; omega, fun i hi => h.2 i (by dsimp only at hi; omega)⟩
    · change 0 ≤ k.toDisplay.backspace.activeTerminal ∧ _
      rw [Display.backspace_activeTerminal]
      exact h
  · exact lookup_keeps img c k

theorem getChar_keeps (img : Image) (entered : Bool) (c : UInt8) (k : Console) :
    CharKeeps k (k.getChar img entered c).1 (k.getChar img entered c).2 := by
  have hprint : some dontPrint ≠ some (0 : UInt8) := by decide
  unfold Console.getChar
  split_ifs
  · -- the flag that is raised is no part of the line
    have hpressed := pressed_keeps img entered c (k.raiseFlag c)
    exact { hpressed with }
  · exact .of_display rfl rfl rfl rfl rfl rfl hprint id
  · exact .of_display rfl rfl rfl rfl rfl rfl hprint id

/-- A terminal is displayed, and the lines that are being typed are text. -/
structure Typing (k : Console) : Prop where
  active : 0 ≤ k.activeTerminal ∧ k.activeTerminal < 3
  text : ∀ t, TextOk (k.saveBuf t) (k.saveIdx t)

/-- A line with its newline is in the buffer. -/
def Stored (buf : Nat → UInt8) : Prop :=
  buf 0 ≠ 0 ∧ ∃ p, p < 128 ∧ buf p = 10 ∧ ∀ j, j < p → buf j ≠ 10

/-- `getChar` returns Enter. -/
def Console.completes (img : Image) (entered : Bool) (c : UInt8) (k : Console) : Prop :=
  (k.loadIdx.getChar img entered c).1 = some 10

instance (img : Image) (entered : Bool) (c : UInt8) (k : Console) :
    Decidable (k.completes img entered c) :=
  inferInstanceAs (Decidable (_ = _))

/-- The copy of a line that Enter has ended goes as far as its first newline. -/
theorem myStrcpy_ended (buf : Nat → UInt8) {n : Nat} (hn : n ≤ 127) (dest : Nat → UInt8) :
    ∃ p, p ≤ n ∧ Function.update buf n 10 p = 10 ∧
      (∀ j, j < p → Function.update buf n 10 j ≠ 10) ∧
      ∀ a, myStrcpy (Function.update buf n 10) 128 0 dest a =
        if a ≤ p then Function.update buf n 10 a else dest a := by
  have hex : ∃ p, Function.update buf n 10 p = 10 := ⟨n, Function.update_self ..⟩
  have hfind : Nat.find hex ≤ n := Nat.find_min' hex (Function.update_self ..)
  have hbefore : ∀ j, j < Nat.find hex → Function.update buf n 10 j ≠ 10 :=
    fun j hj => Nat.find_min hex hj
  refine ⟨Nat.find hex, hfind, Nat.find_spec hex, hbefore, fun a => ?_⟩
  rw [myStrcpy_apply _ (Nat.zero_le _) (by omega) (Nat.find_spec hex) hbefore]
  exact if_congr (by omega) rfl rfl

/-- The text that Enter finds is stored with a newline. -/
theorem myStrcpy_stored {buf : Nat → UInt8} {n : Nat} (h : TextOk buf n) (dest : Nat → UInt8) :
    Stored (myStrcpy (Function.update buf n 10) 128 0 dest) := by
  have hn := h.1
  obtain ⟨p, hp, hnl, hbefore, hcopy⟩ := myStrcpy_ended buf hn dest
  refine ⟨?_, p, by omega, ?_, fun j hj => ?_⟩
  · rw [hcopy, if_pos (Nat.zero_le p), Function.update_apply]
    split
    · decide
    · exact h.2 0 (by omega)
  · rw [hcopy, if_pos (le_refl p)]
    exact hnl
  · rw [hcopy, if_pos (Nat.le_of_lt hj)]
    exact hbefore j hj

/-- **A key**: the line buffer of the displayed terminal changes when the key completes a line, and
no other does. -/
theorem Typing.key {k : Console} (h : Typing k) (img : Image) (entered : Bool) (c : UInt8) :
    Typing (k.keyboardHandler img entered c) ∧
      (k.keyboardHandler img entered c).processNum = k.processNum ∧
      (∀ t, ¬ (k.completes img entered c ∧ t = k.activeTerminal) →
        (k.keyboardHandler img entered c).lineBuf t = k.lineBuf t) ∧
      (k.completes img entered c →
        Stored ((k.keyboardHandler img entered c).lineBuf k.activeTerminal)) := by
  have hkeeps := getChar_keeps img entered c k.loadIdx
  unfold Console.completes Console.keyboardHandler
  obtain ⟨r, k', hget⟩ : ∃ r k', k.loadIdx.getChar img entered c = (r, k') := ⟨_, _, rfl⟩
  rw [hget] at hkeeps ⊢
  have hhandler : k'.handlerTerminal = k.activeTerminal := hkeeps.handler
  have hidxs : k'.saveIdx = k.saveIdx := hkeeps.idxs
  have hlines : k'.lineBuf = k.lineBuf := hkeeps.lines
  have hothers : ∀ t, t ≠ k.activeTerminal → k'.saveBuf t = k.saveBuf t := hkeeps.others
  have htext : TextOk (k'.saveBuf k.activeTerminal) k'.keyboardBufIdx :=
    hkeeps.text (h.text k.activeTerminal)
  have hsame : r ≠ some dontPrint → k'.keyboardBufIdx = k.saveIdx k.activeTerminal := hkeeps.same
  have hactive := hkeeps.active h.active
  have hone : (10 : UInt8) ≠ dontPrint := by decide
  -- the lines of the other terminals are as they were
  have hrest : ∀ (k'' : Console), (∀ t, t ≠ k.activeTerminal → k''.saveBuf t = k'.saveBuf t) →
      (∀ t, t ≠ k.activeTerminal → k''.saveIdx t = k'.saveIdx t) →
      k''.activeTerminal = k'.activeTerminal →
      TextOk (k''.saveBuf k.activeTerminal) (k''.saveIdx k.activeTerminal) → Typing k'' := by
    intro k'' hbuf hidx hact hown
    refine ⟨by rw [hact]; exact hactive, fun t => ?_⟩
    rcases eq_or_ne t k.activeTerminal with rfl | hne
    · exact hown
    · rw [hbuf t hne, hidx t hne, hothers t hne, hidxs]
      exact h.text t
  cases r with
  | none =>
    refine ⟨hrest k' (fun _ _ => rfl) (fun _ _ => rfl) rfl ?_, hkeeps.owners,
      fun t _ => by rw [hlines], by simp⟩
    rw [hidxs, ← hsame (by simp)]
    exact htext
  | some test =>
    dsimp only
    unfold Console.handleChar
    by_cases hprint : test = dontPrint
    · rw [if_pos hprint]
      refine ⟨hrest _ (fun _ _ => rfl) (fun t ht => ?_) rfl ?_, hkeeps.owners,
        fun t _ => congrFun hlines t, fun henter => ?_⟩
      · unfold Console.storeIdx
        rw [hhandler]
        exact Function.update_of_ne ht ..
      · unfold Console.storeIdx
        dsimp only
        rw [hhandler, Function.update_self]
        exact htext
      · rw [hprint] at henter
        exact absurd (Option.some.inj henter).symm hone
    · have hidx := hsame fun heq => hprint (Option.some.inj heq)
      rw [if_neg hprint]
      by_cases hfull : k'.keyboardBufIdx = 127 ∧ test ≠ 10
      · -- only the byte behind the text is stored
        rw [if_pos hfull]
        refine ⟨hrest _ (fun t ht => ?_) (fun _ _ => rfl) rfl ?_, hkeeps.owners,
          fun t _ => congrFun hlines t, fun henter => absurd (Option.some.inj henter) hfull.2⟩
        · unfold Console.storeChar
          rw [hhandler]
          exact Function.update_of_ne ht ..
        · unfold Console.storeChar
          dsimp only
          rw [hhandler, Function.update_self, hidxs, ← hidx]
          refine ⟨htext.1, fun i hi => ?_⟩
          rw [Function.update_of_ne (Nat.ne_of_lt hi)]
          exact htext.2 i hi
      · rw [if_neg hfull]
        by_cases henter : test = 10
        · -- the line moves to the line buffer
          have hnl : ¬ (10 : UInt8) ≠ 10 := fun h => h rfl
          dsimp only
          rw [henter, if_neg hnl]
          unfold Console.storeIdx Console.completeLine Console.storeChar
          dsimp only
          rw [hhandler, if_pos h.active]
          refine ⟨hrest _ (fun t ht => ?_) (fun t ht => ?_) rfl ?_, hkeeps.owners, fun t ht => ?_,
            fun _ => ?_⟩
          · dsimp only
            rw [Function.update_of_ne ht, Function.update_of_ne ht]
          · exact Function.update_of_ne ht ..
          · dsimp only
            rw [Function.update_self (f := k'.saveIdx)]
            exact ⟨by omega, fun i hi => absurd hi (by omega)⟩
          · rw [Function.update_of_ne fun heq => ht ⟨rfl, heq⟩, hlines]
          · rw [Function.update_self, Function.update_self]
            exact myStrcpy_stored htext _
        · dsimp only
          rw [if_pos henter]
          unfold Console.storeIdx Console.storeChar
          dsimp only
          rw [hhandler]
          refine ⟨hrest _ (fun t ht => ?_) (fun t ht => ?_) rfl ?_, hkeeps.owners,
            fun t _ => congrFun hlines t, fun heq => absurd (Option.some.inj heq) henter⟩
          · exact Function.update_of_ne ht ..
          · exact Function.update_of_ne ht ..
          · have hroom : k'.keyboardBufIdx ≠ 127 := fun heq => hfull ⟨heq, henter⟩
            have hchar : test ≠ 0 := fun heq => hkeeps.char (by rw [heq])
            dsimp only
            rw [Function.update_self, Function.update_self]
            refine ⟨by have := htext.1; omega, fun i hi => ?_⟩
            rw [Function.update_apply]
            split
            · exact hchar
            · exact htext.2 i (by omega)

/-! ## The reads -/

/-- Where a process is in `terminal_read`. -/
inductive ReadPhase where
  /-- not in it -/
  | idle
  /-- before `return_active_terminal()` -/
  | poll
  /-- in the case of terminal `a`, before `check_read_process()` -/
  | check (a : Int)
  /-- before the test of the first character of the buffer -/
  | test (a : Int)
  /-- in `my_strcpy`, with what has been copied -/
  | copy (a : Int) (copied : List UInt8)
  /-- before the buffer is emptied -/
  | clear (a : Int) (line : List UInt8)
  deriving DecidableEq

/-- The console and the processes, with the lines completed on each terminal and those returned to
its processes. -/
structure LineSystem where
  console : Console
  phase : Int → ReadPhase
  completed : Int → List (List UInt8)
  returned : Int → List (List UInt8)

/-- What happens: a byte from the keyboard, a change of the processes, a call of `terminal_read`, or
one of its steps. -/
inductive LineEvent where
  | key (c : UInt8) (entered : Bool)
  | schedule (processNum : Int → Int) (mainProcess : Int) (currTask : Int → Int)
  | read (p : Int)
  | step (p : Int)

/-- The line in a buffer. -/
def storedLine (buf : Nat → UInt8) : List UInt8 := (bufText buf 128).takeWhile (· ≠ 10) ++ [10]

/-- A buffer with its first character set to null. -/
def emptied (buf : Nat → UInt8) : Nat → UInt8 := Function.update buf 0 0

/-- `check_read_process() == -1`, in process `p`. -/
def Console.checkReadProcess (p : Int) (k : Console) : Prop := k.processNum p ≠ k.activeTerminal

instance (p : Int) (k : Console) : Decidable (k.checkReadProcess p) :=
  inferInstanceAs (Decidable (_ ≠ _))

/-- One step of `terminal_read` in process `p`. -/
def readStep (p : Int) (s : LineSystem) : LineSystem :=
  let moveTo := fun ph => { s with phase := Function.update s.phase p ph }
  match s.phase p with
  | .idle => s
  | .poll =>
    if 0 ≤ s.console.activeTerminal ∧ s.console.activeTerminal < 3 then
      moveTo (.check s.console.activeTerminal)
    else moveTo .poll
  | .check a => if s.console.checkReadProcess p then moveTo .poll else moveTo (.test a)
  | .test a => if s.console.lineBuf a 0 ≠ 0 then moveTo (.copy a []) else moveTo .poll
  | .copy a copied =>
    let c := s.console.lineBuf a copied.length
    if c = 10 then moveTo (.clear a (copied ++ [10])) else moveTo (.copy a (copied ++ [c]))
  | .clear a line =>
    let t := s.console.processNum p
    { console := { s.console with
        lineBuf := Function.update s.console.lineBuf a (emptied (s.console.lineBuf a)) }
      phase := Function.update s.phase p .idle
      completed := s.completed
      returned := Function.update s.returned t (s.returned t ++ [line]) }

/-- One event. A process that reads keeps its slot, and with it its terminal. -/
def lineStep (img : Image) (s : LineSystem) : LineEvent → LineSystem
  | .key c entered =>
    let k := s.console.keyboardHandler img entered c
    let t := s.console.activeTerminal
    { s with
      console := k
      completed := if s.console.completes img entered c then
          Function.update s.completed t (s.completed t ++ [storedLine (k.lineBuf t)])
        else s.completed }
  | .schedule processNum mainProcess currTask =>
    { s with
      console := { s.console with
        processNum := fun p => if s.phase p = .idle then processNum p else s.console.processNum p
        mainProcess := mainProcess
        currTask := currTask } }
  | .read p => if s.phase p = .idle then { s with phase := Function.update s.phase p .poll } else s
  | .step p => readStep p s

/-- Before the first key, with nobody reading. -/
def LineSystem.start (k : Console) : LineSystem where
  console := k.init
  phase _ := .idle
  completed _ := []
  returned _ := []

/-! ## What goes well -/

/-- A read is between its test and the end, with the buffer of terminal `a`. -/
def ReadPhase.takes (a : Int) : ReadPhase → Prop
  | .copy b _ => b = a
  | .clear b _ => b = a
  | _ => False

/-- The line that a buffer holds for a read, if it is not empty. -/
def heldLine (buf : Nat → UInt8) : List (List UInt8) := if buf 0 ≠ 0 then [storedLine buf] else []

/-- The line that terminal `t` holds for a read. -/
def LineSystem.held (s : LineSystem) (t : Int) : List (List UInt8) :=
  heldLine (s.console.lineBuf t)

theorem heldLine_of_full {buf : Nat → UInt8} (h : buf 0 ≠ 0) : heldLine buf = [storedLine buf] :=
  if_pos h

theorem heldLine_of_empty {buf : Nat → UInt8} (h : buf 0 = 0) : heldLine buf = [] :=
  if_neg fun hne => hne h

/-- A line is completed while the buffer is empty; and a read that finds a line finds it in the
buffer of its own terminal, while no other read is taking it. -/
def Orderly (img : Image) (s : LineSystem) : LineEvent → Prop
  | .key c entered =>
    s.console.completes img entered c → s.console.lineBuf s.console.activeTerminal 0 = 0
  | .step p =>
    ∀ a, s.phase p = .test a → s.console.lineBuf a 0 ≠ 0 →
      s.console.processNum p = a ∧ ∀ q, ¬ (s.phase q).takes a
  | _ => True

/-- The state of a run in which everything went well. -/
structure LineInv (s : LineSystem) : Prop where
  typing : Typing s.console
  stored : ∀ t, s.console.lineBuf t 0 ≠ 0 → Stored (s.console.lineBuf t)
  copying : ∀ p a copied, s.phase p = .copy a copied → s.console.processNum p = a ∧
    s.console.lineBuf a 0 ≠ 0 ∧ copied = bufText (s.console.lineBuf a) copied.length ∧ 10 ∉ copied
  clearing : ∀ p a line, s.phase p = .clear a line → s.console.processNum p = a ∧
    s.console.lineBuf a 0 ≠ 0 ∧ line = storedLine (s.console.lineBuf a)
  alone : ∀ p q a, (s.phase p).takes a → (s.phase q).takes a → p = q
  balance : ∀ t, s.completed t = s.returned t ++ s.held t

theorem lineInv_start (k : Console) : LineInv (.start k) where
  typing := ⟨⟨le_refl 0, by change (0 : Int) < 3; omega⟩,
    fun _ => ⟨Nat.zero_le 127, fun i hi => absurd hi (Nat.not_lt_zero i)⟩⟩
  stored _ h := absurd rfl h
  copying _ _ _ h := by cases h
  clearing _ _ _ h := by cases h
  alone _ _ _ h := h.elim
  balance _ := rfl

/-- A process whose read goes on. -/
theorem LineInv.move {s : LineSystem} (h : LineInv s) (p : Int) {ph : ReadPhase}
    (hcopy : ∀ a copied, ph = .copy a copied → s.console.processNum p = a ∧
      s.console.lineBuf a 0 ≠ 0 ∧ copied = bufText (s.console.lineBuf a) copied.length ∧ 10 ∉ copied)
    (hclear : ∀ a line, ph = .clear a line → s.console.processNum p = a ∧
      s.console.lineBuf a 0 ≠ 0 ∧ line = storedLine (s.console.lineBuf a))
    (halone : ∀ q a, q ≠ p → ph.takes a → ¬ (s.phase q).takes a) :
    LineInv { s with phase := Function.update s.phase p ph } where
  typing := h.typing
  stored := h.stored
  copying q a copied hq := by
    dsimp only at hq
    rcases eq_or_ne q p with rfl | hne
    · rw [Function.update_self] at hq
      exact hcopy a copied hq
    · rw [Function.update_of_ne hne] at hq
      exact h.copying q a copied hq
  clearing q a line hq := by
    dsimp only at hq
    rcases eq_or_ne q p with rfl | hne
    · rw [Function.update_self] at hq
      exact hclear a line hq
    · rw [Function.update_of_ne hne] at hq
      exact h.clearing q a line hq
  alone q r a hq hr := by
    dsimp only at hq hr
    by_cases hqp : q = p <;> by_cases hrp : r = p
    · rw [hqp, hrp]
    · rw [hqp, Function.update_self] at hq
      rw [Function.update_of_ne hrp] at hr
      exact absurd hr (halone r a hrp hq)
    · rw [Function.update_of_ne hqp] at hq
      rw [hrp, Function.update_self] at hr
      exact absurd hq (halone q a hqp hr)
    · rw [Function.update_of_ne hqp] at hq
      rw [Function.update_of_ne hrp] at hr
      exact h.alone q r a hq hr
  balance := h.balance

/-- A process that takes no line. -/
theorem LineInv.pass {s : LineSystem} (h : LineInv s) (p : Int) {ph : ReadPhase}
    (hph : ∀ a, ¬ ph.takes a) : LineInv { s with phase := Function.update s.phase p ph } := by
  apply h.move p
  · rintro a copied rfl
    exact absurd rfl (hph a)
  · rintro a line rfl
    exact absurd rfl (hph a)
  · intro q a _ htakes
    exact absurd htakes (hph a)

/-- The line ends at the first newline. -/
theorem storedLine_eq {buf : Nat → UInt8} {n : Nat} (hbuf : Stored buf) (hnl : buf n = 10)
    (hbefore : 10 ∉ bufText buf n) : storedLine buf = bufText buf n ++ [10] := by
  obtain ⟨-, p, hp, hpnl, hfirst⟩ := hbuf
  have hpn : n = p := by
    rcases Nat.lt_trichotomy n p with hlt | heq | hgt
    · exact absurd hnl (hfirst n hlt)
    · exact heq
    · exact absurd (mem_bufText.mpr ⟨p, hgt, hpnl⟩) hbefore
  subst hpn
  obtain ⟨q, hq, hqbefore, hqat, htext⟩ := takeWhile_bufText buf 128
  have hqn : q = n := by
    rcases Nat.lt_trichotomy q n with hlt | heq | hgt
    · exact absurd (hqat (by omega)) (hfirst q hlt)
    · exact heq
    · exact absurd hnl (hqbefore n hgt)
  unfold storedLine
  rw [htext, hqn]

/-- A read returns the line that it has copied. -/
theorem LineInv.clear {s : LineSystem} (h : LineInv s) {p a : Int} {line : List UInt8}
    (hp : s.phase p = .clear a line) : LineInv (readStep p s) := by
  obtain ⟨howner, hfull, hline⟩ := h.clearing p a line hp
  have hempty : emptied (s.console.lineBuf a) 0 = 0 := Function.update_self ..
  -- nobody else is taking a line from this buffer
  have hother : ∀ q, q ≠ p → ∀ b, (s.phase q).takes b → b ≠ a := by
    rintro q hne b htakes rfl
    exact hne (h.alone q p b htakes (by rw [hp]; rfl))
  unfold readStep
  rw [hp]
  dsimp only
  rw [howner]
  constructor
  · exact ⟨h.typing.active, h.typing.text⟩
  · intro t ht
    dsimp only at ht ⊢
    rcases eq_or_ne t a with rfl | hne
    · rw [Function.update_self] at ht
      exact absurd hempty ht
    · rw [Function.update_of_ne hne] at ht ⊢
      exact h.stored t ht
  · intro q b copied hq
    dsimp only at hq ⊢
    by_cases hqp : q = p
    · rw [hqp, Function.update_self] at hq
      cases hq
    · rw [Function.update_of_ne hqp] at hq
      rw [Function.update_of_ne (hother q hqp b (by rw [hq]; rfl))]
      exact h.copying q b copied hq
  · intro q b line' hq
    dsimp only at hq ⊢
    by_cases hqp : q = p
    · rw [hqp, Function.update_self] at hq
      cases hq
    · rw [Function.update_of_ne hqp] at hq
      rw [Function.update_of_ne (hother q hqp b (by rw [hq]; rfl))]
      exact h.clearing q b line' hq
  · intro q r b hq hr
    dsimp only at hq hr
    by_cases hqp : q = p
    · rw [hqp, Function.update_self] at hq
      exact hq.elim
    · by_cases hrp : r = p
      · rw [hrp, Function.update_self] at hr
        exact hr.elim
      · rw [Function.update_of_ne hqp] at hq
        rw [Function.update_of_ne hrp] at hr
        exact h.alone q r b hq hr
  · intro t
    have hbalance := h.balance t
    unfold LineSystem.held at hbalance ⊢
    dsimp only
    rcases eq_or_ne t a with rfl | hne
    · rw [heldLine_of_full hfull, ← hline] at hbalance
      rw [Function.update_self, Function.update_self, heldLine_of_empty hempty, List.append_nil,
        hbalance]
    · rw [Function.update_of_ne hne, Function.update_of_ne hne]
      exact hbalance

theorem LineInv.readStep {img : Image} {s : LineSystem} (h : LineInv s) {p : Int}
    (horder : Orderly img s (.step p)) : LineInv (readStep p s) := by
  cases hp : s.phase p with
  | idle =>
    unfold SrirachOS.readStep
    rw [hp]
    exact h
  | poll =>
    unfold SrirachOS.readStep
    rw [hp]
    dsimp only
    split
    · exact h.pass p fun _ => id
    · exact h.pass p fun _ => id
  | check a =>
    unfold SrirachOS.readStep
    rw [hp]
    dsimp only
    split
    · exact h.pass p fun _ => id
    · exact h.pass p fun _ => id
  | test a =>
    unfold SrirachOS.readStep
    rw [hp]
    dsimp only
    split
    · next hfull =>
      obtain ⟨howner, hnone⟩ := horder a hp hfull
      apply h.move p
      · rintro b copied heq
        cases heq
        exact ⟨howner, hfull, rfl, by simp⟩
      · rintro b line heq
        cases heq
      · rintro q b _ rfl
        exact hnone q
    · exact h.pass p fun _ => id
  | copy a copied =>
    obtain ⟨howner, hfull, hcopied, hnl⟩ := h.copying p a copied hp
    have halone : ∀ q b, q ≠ p → a = b → ¬ (s.phase q).takes b := by
      rintro q b hne rfl htakes
      exact hne (h.alone q p a htakes (by rw [hp]; rfl))
    unfold SrirachOS.readStep
    rw [hp]
    dsimp only
    split
    · next hend =>
      -- the whole line has been copied
      apply h.move p
      · rintro b copied' heq
        cases heq
      · rintro b line heq
        cases heq
        refine ⟨howner, hfull, ?_⟩
        rw [hcopied] at hnl
        rw [storedLine_eq (h.stored a hfull) hend hnl, ← hcopied]
      · exact halone
    · next hgo =>
      apply h.move p
      · rintro b copied' heq
        cases heq
        refine ⟨howner, hfull, ?_, ?_⟩
        · rw [List.length_append, List.length_singleton, bufText_succ, ← hcopied]
        · rw [List.mem_append, List.mem_singleton]
          rintro (hmem | heq)
          · exact hnl hmem
          · exact hgo heq.symm
      · rintro b line heq
        cases heq
      · exact halone
  | clear a line => exact h.clear hp

/-- **One event**: it goes well. -/
theorem LineInv.step {img : Image} {s : LineSystem} {e : LineEvent} (h : LineInv s)
    (horder : Orderly img s e) : LineInv (lineStep img s e) := by
  cases e with
  | key c entered =>
    obtain ⟨htyping, howners, hkept, hstored⟩ := h.typing.key img entered c
    -- a buffer with a line in it is not written
    have hfull : ∀ t, s.console.lineBuf t 0 ≠ 0 →
        (s.console.keyboardHandler img entered c).lineBuf t = s.console.lineBuf t := by
      intro t ht
      apply hkept
      rintro ⟨henter, rfl⟩
      exact ht (horder henter)
    unfold lineStep
    constructor
    · exact htyping
    · intro t ht
      dsimp only at ht ⊢
      by_cases hcompleted : s.console.completes img entered c ∧ t = s.console.activeTerminal
      · rw [hcompleted.2]
        exact hstored hcompleted.1
      · rw [hkept t hcompleted] at ht ⊢
        exact h.stored t ht
    · intro p a copied hp
      obtain ⟨howner, hline, hrest⟩ := h.copying p a copied hp
      dsimp only
      rw [howners, hfull a hline]
      exact ⟨howner, hline, hrest⟩
    · intro p a line hp
      obtain ⟨howner, hline, hrest⟩ := h.clearing p a line hp
      dsimp only
      rw [howners, hfull a hline]
      exact ⟨howner, hline, hrest⟩
    · exact h.alone
    · intro t
      have hbalance := h.balance t
      unfold LineSystem.held at hbalance ⊢
      dsimp only
      by_cases hcompleted : s.console.completes img entered c ∧ t = s.console.activeTerminal
      · obtain ⟨henter, rfl⟩ := hcompleted
        rw [heldLine_of_empty (horder henter), List.append_nil] at hbalance
        rw [if_pos henter, Function.update_self, heldLine_of_full (hstored henter).1, hbalance]
      · rw [hkept t hcompleted, ← hbalance]
        split
        · next henter => rw [Function.update_of_ne fun heq => hcompleted ⟨henter, heq⟩]
        · rfl
  | schedule processNum mainProcess currTask =>
    refine ⟨⟨h.typing.active, h.typing.text⟩, h.stored, ?_, ?_, h.alone, h.balance⟩
    · intro p a copied hp
      have hbusy : s.phase p ≠ .idle := by
        intro hidle
        rw [show s.phase p = .copy a copied from hp] at hidle
        cases hidle
      obtain ⟨howner, hrest⟩ := h.copying p a copied hp
      exact ⟨(if_neg hbusy).trans howner, hrest⟩
    · intro p a line hp
      have hbusy : s.phase p ≠ .idle := by
        intro hidle
        rw [show s.phase p = .clear a line from hp] at hidle
        cases hidle
      obtain ⟨howner, hrest⟩ := h.clearing p a line hp
      exact ⟨(if_neg hbusy).trans howner, hrest⟩
  | read p =>
    unfold lineStep
    dsimp only
    split
    · exact h.pass p fun _ => id
    · exact h
  | step p => exact h.readStep horder

/-- **No line is lost or duplicated** in an orderly run: in every state that it reaches, the lines
returned to the processes of a terminal are the first of those completed on it, and the rest is the
line that the terminal holds. -/
theorem lines_balance (img : Image) (k : Console) (es : List LineEvent)
    (horder : Along (lineStep img) (Orderly img) (.start k) es) (t : Int) :
    let s := run (lineStep img) (.start k) es
    s.returned t <+: s.completed t ∧ s.completed t = s.returned t ++ s.held t := by
  have hinv : LineInv (run (lineStep img) (.start k) es) :=
    invariant_run (fun s e h he => h.step he) (lineInv_start k) horder
  exact ⟨⟨_, (hinv.balance t).symm⟩, hinv.balance t⟩

/-- A read is moved by its own steps alone. -/
theorem lineStep_phase_of_ne {img : Image} {s : LineSystem} {e : LineEvent} {q : Int}
    (hread : e ≠ .read q) (hstep : e ≠ .step q) : (lineStep img s e).phase q = s.phase q := by
  cases e with
  | key c entered => rfl
  | schedule processNum mainProcess currTask => rfl
  | read p =>
    have hne : q ≠ p := fun heq => hread (by rw [heq])
    unfold lineStep
    dsimp only
    split
    · exact Function.update_of_ne hne ..
    · rfl
  | step p =>
    have hne : q ≠ p := fun heq => hstep (by rw [heq])
    change (readStep p s).phase q = s.phase q
    unfold readStep
    dsimp only
    split
    · rfl
    all_goals first | exact Function.update_of_ne hne .. | (split <;> exact Function.update_of_ne hne ..)

/-- A step of a read that is not before its test. -/
theorem orderly_step {img : Image} {s : LineSystem} {p : Int} (ph : ReadPhase) (hp : s.phase p = ph)
    (htest : ∀ a, ph ≠ .test a) : Orderly img s (.step p) := by
  intro a ha
  exact absurd (hp.symm.trans ha) (htest a)

/-- The line `a` is completed on the first terminal, and its process takes it. -/
def oneRead : List LineEvent :=
  [.key 0x1E false, .key 0x1C false, .schedule id 0 fun _ => 0, .read 0, .step 0, .step 0, .step 0,
    .step 0, .step 0, .step 0]

/-- Nobody else reads. -/
theorem oneRead_alone {n : Nat} {q : Int} (hq : q ≠ 0) :
    (run (lineStep sampleImage) (.start sampleConsole) (oneRead.take n)).phase q = .idle := by
  have hnobody : ∀ e ∈ oneRead, e ≠ .read q ∧ e ≠ .step q := by
    intro e he
    constructor <;> rintro rfl <;> simp [oneRead, hq] at he
  refine invariant_run (I := fun s : LineSystem => s.phase q = .idle)
    (C := fun _ e => e ≠ .read q ∧ e ≠ .step q) (fun s e h he => ?_) rfl
    (along_of_forall (fun e he => hnobody e (List.mem_of_mem_take he)) _)
  rw [lineStep_phase_of_ne he.1 he.2]
  exact h

theorem lines_balance_sample :
    let s := run (lineStep sampleImage) (.start sampleConsole) oneRead
    s.returned 0 = [[97, 10]] ∧ s.completed 0 = s.returned 0 ++ s.held 0 := by
  have hempty : (run (lineStep sampleImage) (.start sampleConsole) (oneRead.take 1)).console.lineBuf
      0 0 = 0 := by decide +kernel
  have htest : Orderly sampleImage (run (lineStep sampleImage) (.start sampleConsole) (oneRead.take 6))
      (.step 0) := by
    have hphase : (run (lineStep sampleImage) (.start sampleConsole) (oneRead.take 6)).phase 0 =
        .test 0 := by decide +kernel
    intro a ha _
    cases hphase.symm.trans ha
    refine ⟨by decide +kernel, fun q htakes => ?_⟩
    by_cases hq : q = 0
    · rw [hq, hphase] at htakes
      exact htakes
    · rw [oneRead_alone hq] at htakes
      exact htakes
  have horder : Along (lineStep sampleImage) (Orderly sampleImage) (.start sampleConsole) oneRead :=
    ⟨fun _ => rfl, fun _ => hempty, trivial, trivial,
      orderly_step .poll (by decide +kernel) (by simp),
      orderly_step (.check 0) (by decide +kernel) (by simp), htest,
      orderly_step (.copy 0 []) (by decide +kernel) (by simp),
      orderly_step (.copy 0 [97]) (by decide +kernel) (by simp),
      orderly_step (.clear 0 [97, 10]) (by decide +kernel) (by simp), trivial⟩
  have hkept := lines_balance sampleImage sampleConsole oneRead horder 0
  exact ⟨by decide +kernel, hkept.2⟩

/-- Two lines are completed before a read: the first one is lost. -/
theorem line_lost :
    let s := run (lineStep sampleImage) (.start sampleConsole)
      [.schedule id 0 fun _ => 0, .key 0x1E false, .key 0x1C false, .key 0x30 false, .key 0x1C false,
        .read 0, .step 0, .step 0, .step 0, .step 0, .step 0, .step 0]
    s.completed 0 = [[97, 10], [98, 10]] ∧ s.returned 0 = [[98, 10]] ∧ s.held 0 = [] ∧
      ¬ s.returned 0 <+: s.completed 0 := by
  decide +kernel

end SrirachOS
