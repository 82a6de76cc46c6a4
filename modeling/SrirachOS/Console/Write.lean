import SrirachOS.Console.Keyboard
import Mathlib.Data.List.Induction

/-!
# Writing to the Terminal

`terminal_write` (`keyboard.c`) and the loop of `my_puts` (`lib.c`). The loop is left when its counter
is equal to the number of bytes, and only then; the counter is an `int32_t`.

- `Writer.putsLoop_prints`: a text is printed, and where the counter meets the number of bytes,
- `WritesRight`: the contract,
- `writes_right_iff`: which numbers of bytes meet it,
- `terminalWrite_negative`, `terminalWrite_faults`: what a negative one does in a memory that is mapped, and
  with a buffer that ends.

A signed counter wraps, as it does on the machine that the kernel is compiled for.
-/

namespace SrirachOS

open Foundation

/-! ## State -/

/-- The state that a process's output works on. -/
structure Writer where
  display : Display
  /-- the characters that `my_putc` has been called with -/
  output : List UInt8
  /-- the interrupt flag -/
  interrupts : Bool

/-- The byte at an offset from a pointer, in a memory of which the display is a part; `none` if it is
not mapped. -/
abbrev Buffer := (Nat → UInt8) → Int → Option UInt8

namespace Writer

/-- `my_putc(c)`. -/
def myPutc (c : UInt8) (w : Writer) : Writer :=
  { w with display := w.display.myPutc c, output := w.output ++ [c] }

/-- `while (1)` of `my_puts`, with the number of turns left. There is no result when they are used up,
or when a byte is not mapped and the read faults. -/
def putsLoop (s : Buffer) (nbytes : Int) : Nat → Int → Writer → Option (Int × Writer)
  | 0, _, _ => none
  | turns + 1, index, w =>
    if index = nbytes then some (index, w)
    else
      match s w.display.mem index with
      | none => none
      | some c => putsLoop s nbytes turns (i32 (index + 1)) (w.myPutc c)

/-- `my_puts(s, nbytes)`. -/
def myPuts (s : Buffer) (nbytes : Int) (turns : Nat) (w : Writer) : Option (Int × Writer) :=
  putsLoop s nbytes turns 0 w

/-- `terminal_write(fd, buf, nbytes)`. -/
def terminalWrite (fd : Int) (buf : Buffer) (nbytes : Int) (turns : Nat) (w : Writer) :
    Option (Int × Writer) :=
  if fd ≠ 1 then some (-1, w)
  else
    match myPuts buf nbytes turns { w with interrupts := false } with
    | none => none
    | some (written, w) =>
      if written = nbytes then some (nbytes, { w with interrupts := true })
      else some (-1, { w with interrupts := true })

/-- A text has been printed. -/
def prints (text : List UInt8) (w : Writer) : Writer :=
  { w with display := w.display.myPuts text, output := w.output ++ text }

@[simp] theorem prints_nil (w : Writer) : w.prints [] = w := by
  simp [prints, Display.myPuts]

theorem prints_cons (c : UInt8) (text : List UInt8) (w : Writer) :
    w.prints (c :: text) = (w.myPutc c).prints text := by
  simp [prints, Display.myPuts, myPutc]

/-! ## The loop -/

theorem i32_succ (x : Int) : i32 (i32 x + 1) = i32 (x + 1) := by
  unfold i32
  split_ifs <;> omega

/-- **A text is printed**, as long as the counter does not meet the number of bytes before its end. -/
theorem putsLoop_prints (s : Buffer) (nbytes : Int) (text : List UInt8) (index : Int) (w : Writer)
    {turns : Nat} (hturns : text.length < turns)
    (hbefore : ∀ i : Nat, i < text.length → i32 (index + i) ≠ nbytes)
    (hend : i32 (index + text.length) = nbytes)
    (hread : ∀ (i : Nat) (h : i < text.length),
      s (w.display.myPuts (text.take i)).mem (i32 (index + i)) = some text[i]) :
    putsLoop s nbytes turns (i32 index) w = some (nbytes, w.prints text) := by
  induction text generalizing index w turns with
  | nil =>
    obtain ⟨turns, rfl⟩ : ∃ n, turns = n + 1 := ⟨turns - 1, by omega⟩
    have hnow : i32 index = nbytes := by simpa using hend
    rw [putsLoop, if_pos hnow, hnow, prints_nil]
  | cons c text ih =>
    obtain ⟨turns, rfl⟩ : ∃ n, turns = n + 1 := ⟨turns - 1, by omega⟩
    rw [List.length_cons] at hturns hend
    -- the counter is not the number of bytes yet
    have hgo : i32 index ≠ nbytes := by
      have hzero := hbefore 0 (by simp)
      rwa [Int.natCast_zero, Int.add_zero] at hzero
    have hbyte : s w.display.mem (i32 index) = some c := by
      have hzero := hread 0 (by simp)
      rwa [Int.natCast_zero, Int.add_zero] at hzero
    have hindex : ∀ i : Nat, index + 1 + i = index + (i + 1 : Nat) := fun i => by omega
    rw [putsLoop, if_neg hgo, hbyte, prints_cons]
    dsimp only
    rw [i32_succ]
    -- the rest of the text, from the next index and with the character on the display
    apply ih
    · omega
    · intro i hi
      rw [hindex]
      exact hbefore (i + 1) (by simpa using hi)
    · rw [hindex]
      exact hend
    · intro i hi
      rw [hindex]
      exact hread (i + 1) (by simpa using hi)

/-- The loop takes no output back. -/
theorem putsLoop_output {s : Buffer} {nbytes : Int} {turns : Nat} {index index' : Int}
    {w w' : Writer} (h : putsLoop s nbytes turns index w = some (index', w')) :
    w.output <+: w'.output := by
  induction turns generalizing index w with
  | zero => cases h
  | succ turns ih =>
    rw [putsLoop] at h
    split at h
    · cases h
      exact List.prefix_rfl
    · cases hbyte : s w.display.mem index with
      | none =>
        rw [hbyte] at h
        cases h
      | some c =>
        rw [hbyte] at h
        exact (List.prefix_append w.output [c]).trans (ih h)

/-- Unless the number of bytes is zero, a character is printed. -/
theorem myPuts_output_ne {s : Buffer} {nbytes : Int} (hne : nbytes ≠ 0) {turns : Nat} {index : Int}
    {w w' : Writer} (h : myPuts s nbytes turns w = some (index, w')) : w'.output ≠ w.output := by
  unfold myPuts at h
  cases turns with
  | zero => cases h
  | succ turns =>
    rw [putsLoop, if_neg (Ne.symm hne)] at h
    cases hbyte : s w.display.mem 0 with
    | none =>
      rw [hbyte] at h
      cases h
    | some c =>
      rw [hbyte] at h
      -- one character more than before, and none is taken back
      intro hsame
      have hle := (putsLoop_output h).length_le
      rw [hsame] at hle
      change (w.output ++ [c]).length ≤ w.output.length at hle
      rw [List.length_append, List.length_singleton] at hle
      omega

/-- A write that returns has printed a character, unless the number of bytes is zero. -/
theorem terminalWrite_output_ne {buf : Buffer} {nbytes : Int} (hne : nbytes ≠ 0) {turns : Nat}
    {written : Int} {w w' : Writer}
    (h : terminalWrite 1 buf nbytes turns w = some (written, w')) : w'.output ≠ w.output := by
  unfold terminalWrite at h
  rw [if_neg (by decide)] at h
  cases hputs : myPuts buf nbytes turns { w with interrupts := false } with
  | none =>
    rw [hputs] at h
    cases h
  | some result =>
    obtain ⟨index, w''⟩ := result
    have hprinted := myPuts_output_ne hne hputs
    rw [hputs] at h
    dsimp only at h
    split at h <;> cases h <;> exact hprinted

end Writer

/-! ## The contract -/

/-- The text is in the buffer: each byte of it is there when those before it have been printed. -/
def Holds (buf : Buffer) (d : Display) (text : List UInt8) : Prop :=
  ∀ (i : Nat) (h : i < text.length), buf (d.myPuts (text.take i)).mem i = some text[i]

/-- A mapped buffer holds a text of its length. -/
theorem exists_holds {buf : Buffer} (d : Display) {n : Nat}
    (hmapped : ∀ mem (i : Nat), i < n → (buf mem i).isSome) :
    ∃ text : List UInt8, text.length = n ∧ Holds buf d text := by
  induction n with
  | zero => exact ⟨[], rfl, fun i h => absurd h (Nat.not_lt_zero i)⟩
  | succ n ih =>
    obtain ⟨text, hlen, hholds⟩ := ih fun mem i hi => hmapped mem i (Nat.lt_succ_of_lt hi)
    obtain ⟨c, hc⟩ := Option.isSome_iff_exists.mp
      (hmapped (d.myPuts text).mem n (Nat.lt_succ_self n))
    -- the next byte is read when those before it are on the display, which may lie in the buffer
    refine ⟨text ++ [c], by rw [List.length_append, hlen]; rfl, fun i hi => ?_⟩
    rw [List.length_append, List.length_singleton, hlen] at hi
    rcases Nat.lt_succ_iff_lt_or_eq.mp hi with hlt | heq
    · rw [List.take_append_of_le_length (by omega), List.getElem_append_left (by omega)]
      exact hholds i (by omega)
    · subst heq
      subst hlen
      simpa using hc

/-- What a write to the terminal is to do: it returns, with interrupts enabled; of a number of bytes it
prints so many of the buffer and returns the number, and with a negative number it prints nothing and
returns -1. -/
def WritesRight (buf : Buffer) (nbytes : Int) (w : Writer) : Prop :=
  ∃ turns written w', Writer.terminalWrite 1 buf nbytes turns w = some (written, w') ∧
    w'.interrupts = true ∧
    (0 ≤ nbytes → written = nbytes ∧ ∃ text, Holds buf w.display text ∧
      (text.length : Int) = nbytes ∧ w'.output = w.output ++ text ∧
      w'.display = w.display.myPuts text) ∧
    (nbytes < 0 → written = -1 ∧ w'.output = w.output)

/-- **A text in the buffer** is printed, and its length is returned. -/
theorem myPuts_holds {buf : Buffer} {w : Writer} {text : List UInt8}
    (hholds : Holds buf w.display text) (hfits : text.length < 2147483648) {turns : Nat}
    (hturns : text.length < turns) :
    w.myPuts buf text.length turns = some ((text.length : Int), w.prints text) := by
  -- up to the end of the text the counter does not wrap
  have hsmall : ∀ i : Nat, i ≤ text.length → i32 (0 + i) = i := fun i hi => by
    rw [Int.zero_add, i32_natCast (by omega)]
  have hzero : i32 0 = 0 := i32_of_fits (by decide) (by decide)
  have hloop := Writer.putsLoop_prints buf text.length text 0 w hturns
    (fun i hi => by rw [hsmall i hi.le]; omega) (hsmall _ (le_refl _))
    (fun i hi => by rw [hsmall i hi.le]; exact hholds i hi)
  rw [hzero] at hloop
  exact hloop

/-- **The number of bytes**: for every 32-bit number and every buffer that is mapped so far, the write
is right exactly when the number is not negative. -/
theorem writes_right_iff {nbytes : Int} (hlt : nbytes < 2147483648) {buf : Buffer}
    (hmapped : ∀ mem (i : Nat), (i : Int) < nbytes → (buf mem i).isSome) (w : Writer) :
    WritesRight buf nbytes w ↔ 0 ≤ nbytes := by
  constructor
  · rintro ⟨turns, written, w', hrun, -, -, hneg⟩
    -- a negative number is not met before a character has been printed
    by_contra hnot
    obtain ⟨-, hsame⟩ := hneg (by omega)
    exact Writer.terminalWrite_output_ne (by omega) hrun hsame
  · intro h0
    obtain ⟨text, hlen, hholds⟩ := exists_holds w.display (n := nbytes.toNat)
      fun mem i hi => hmapped mem i (by omega)
    have hbytes : (text.length : Int) = nbytes := by omega
    -- the loop runs on the display as it is when interrupts have been disabled
    have hputs := myPuts_holds (w := { w with interrupts := false }) hholds (by omega)
      (Nat.lt_succ_self text.length)
    rw [hbytes] at hputs
    refine ⟨text.length + 1, nbytes, { w.prints text with interrupts := true }, ?_, rfl,
      fun _ => ⟨rfl, text, hholds, hbytes, rfl, rfl⟩, fun hneg => absurd h0 (by omega)⟩
    unfold Writer.terminalWrite
    rw [if_neg (by decide), hputs]
    dsimp only
    rw [if_pos rfl]
    rfl

/-- A buffer of five bytes. -/
def helloBuffer : Buffer := fun _ i =>
  if 0 ≤ i ∧ i < 5 then some ([104, 101, 108, 108, 111].getD i.toNat 0) else none

theorem writes_right_hello : WritesRight helloBuffer 5 ⟨sampleConsole.toDisplay, [], true⟩ := by
  refine (writes_right_iff (by decide) (fun _ i hi => ?_) _).mpr (by decide)
  have hin : (0 : Int) ≤ i ∧ (i : Int) < 5 := ⟨Int.natCast_nonneg i, hi⟩
  unfold helloBuffer
  rw [if_pos hin]
  rfl

/-- **A negative number of bytes**: where all of the memory is mapped, the counter meets it after
`2 ^ 32 + nbytes` characters. -/
theorem terminalWrite_negative {nbytes : Int} (hge : -2147483648 ≤ nbytes) (hneg : nbytes < 0)
    (c : UInt8) (w : Writer) :
    Writer.terminalWrite 1 (fun _ _ => some c) nbytes 4294967296 w =
      some (nbytes, { w.prints (List.replicate (4294967296 + nbytes).toNat c) with
        interrupts := true }) := by
  have hlen : (List.replicate (4294967296 + nbytes).toNat c).length =
      (4294967296 + nbytes).toNat := List.length_replicate
  have hzero : i32 0 = 0 := i32_of_fits (by decide) (by decide)
  have hturns : (List.replicate (4294967296 + nbytes).toNat c).length < 4294967296 := by
    rw [hlen]
    omega
  -- before that many characters the counter has run up to its maximum, and from its minimum on
  have hloop := Writer.putsLoop_prints (fun _ _ => some c) nbytes
    (List.replicate (4294967296 + nbytes).toNat c) 0 { w with interrupts := false } hturns
    (fun i hi => by
      rw [hlen] at hi
      unfold i32
      split <;> omega)
    (by
      rw [hlen]
      unfold i32
      split <;> omega)
    (fun i hi => by rw [List.getElem_replicate])
  rw [hzero] at hloop
  unfold Writer.terminalWrite Writer.myPuts
  rw [if_neg (by decide), hloop]
  dsimp only
  rw [if_pos rfl]
  rfl

/-- **A negative number of bytes** of a buffer that ends: the loop goes on to its end and faults there, with
interrupts disabled. -/
theorem terminalWrite_faults {buf : Buffer} {n : Nat} (hn : n < 2147483648) (hend : ∀ mem, buf mem n = none)
    {nbytes : Int} (hneg : nbytes < 0) (turns : Nat) (w : Writer) :
    Writer.terminalWrite 1 buf nbytes turns w = none := by
  have hloop : ∀ (turns i : Nat) (w : Writer), i ≤ n → Writer.putsLoop buf nbytes turns i w = none := by
    intro turns
    induction turns with
    | zero => exact fun i w _ => rfl
    | succ turns ih =>
      intro i w hi
      rw [Writer.putsLoop, if_neg (by omega)]
      cases hbyte : buf w.display.mem i with
      | none => rfl
      | some c =>
        have hne : i ≠ n := by
          rintro rfl
          rw [hend] at hbyte
          cases hbyte
        have hnext : i32 ((i : Int) + 1) = ((i + 1 : Nat) : Int) :=
          i32_of_fits (by omega) (by omega)
        dsimp only
        rw [hnext]
        exact ih (i + 1) (w.myPutc c) (by omega)
  have hputs := hloop turns 0 { w with interrupts := false } (Nat.zero_le n)
  unfold Writer.terminalWrite Writer.myPuts
  rw [if_neg (by decide)]
  rw [Int.natCast_zero] at hputs
  rw [hputs]

/-- Of the buffer of five bytes, a write of -1 bytes prints all five, reads behind them and faults. Of a
buffer in which every byte is `A`, it prints 4294967295 and returns -1. -/
theorem negative_writes :
    let w : Writer := ⟨sampleConsole.toDisplay, [], true⟩
    ((∀ turns, Writer.putsLoop helloBuffer (-1) (turns + 5) 0 w =
        Writer.putsLoop helloBuffer (-1) turns 5 (w.prints [104, 101, 108, 108, 111])) ∧
      (∀ turns, Writer.terminalWrite 1 helloBuffer (-1) turns w = none) ∧
      ¬ WritesRight helloBuffer (-1) w) ∧
    (∃ w', Writer.terminalWrite 1 (fun _ _ => some 65) (-1) 4294967296 w = some (-1, w') ∧
        w'.output = List.replicate 4294967295 65) ∧
      ¬ WritesRight (fun _ _ => some 65) (-1) w := by
  intro w
  have hfaults : ∀ turns, Writer.terminalWrite 1 helloBuffer (-1) turns w = none := fun turns =>
    terminalWrite_faults (n := 5) (by decide) (fun _ => rfl) (by decide) turns w
  refine ⟨⟨fun turns => ?_, hfaults, ?_⟩, ⟨_, terminalWrite_negative (by decide) (by decide) 65 w, ?_⟩, ?_⟩
  · simp [Writer.putsLoop, helloBuffer, i32, Writer.prints_cons]
  · rintro ⟨turns, written, w', hrun, -⟩
    rw [hfaults] at hrun
    cases hrun
  · exact List.nil_append _
  · rintro ⟨turns, written, w', hrun, -, -, hneg⟩
    obtain ⟨-, hsame⟩ := hneg (by decide)
    exact Writer.terminalWrite_output_ne (by decide) hrun hsame

end SrirachOS
