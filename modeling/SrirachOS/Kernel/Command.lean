import SrirachOS.FileSys.Names
import SrirachOS.Kernel.Arguments

/-!
# The Command Line

The beginning of `system_execute`, loop by loop: one cursor goes over the command, and the program
name and the argument text are copied into two arrays of 128 bytes. `system_getargs` copies the second
one to the program.

- `copyWhile_eq`: what a copying loop leaves in its array, and where it leaves the cursor,
- `split_texts`, `splitCommand_text`: the arrays hold the two texts of `parseCommand`,
- `mirrors_splitCommand`: an argument text that overruns its array changes the variables behind it as the
  atomic execute has it,
- `command_split`: so a command is taken apart into what it was put together from.
-/

namespace SrirachOS

open Foundation

namespace Kernel

/-! ## The code -/

/-- `while (command[i] == ' ')`, with the number of turns left: the cursor behind the spaces. -/
def skipSpaces (command : CStr) : Nat → Nat → Nat
  | 0, i => i
  | turns + 1, i => if command.char i = 32 then skipSpaces command turns (i + 1) else i

/-- A loop that copies `command[i]` to `buf[j]` up to a character at which it stops, with the number of
turns left: the cursor and the index behind what is copied, and the array. -/
def copyWhile (command : CStr) (stops : UInt8 → Bool) :
    Nat → Nat → Nat → (Nat → UInt8) → Nat × Nat × (Nat → UInt8)
  | 0, i, j, buf => (i, j, buf)
  | turns + 1, i, j, buf =>
    if stops (command.char i) then (i, j, buf)
    else copyWhile command stops turns (i + 1) (j + 1) (Function.update buf j (command.char i))

/-- The loop over the program name stops at the terminator or at a space. -/
def endsWord (c : UInt8) : Bool := c = 0 || c = 32

/-- The loop over the argument stops at the terminator. -/
def endsText (c : UInt8) : Bool := c = 0

/-- `// parse command` and `// parse arg`: what `parsed_command` and `arg_buf` hold afterwards. Each
loop has `turns` turns. -/
def splitCommand (turns : Nat) (command : CStr) (parsedCommand argBuf : Nat → UInt8) :
    (Nat → UInt8) × (Nat → UInt8) :=
  let i := skipSpaces command turns 0
  let word := copyWhile command endsWord turns i 0 parsedCommand
  let parsedCommand := Function.update word.2.2 word.2.1 0
  let argBuf := Function.update argBuf 0 0
  let i := skipSpaces command turns word.1
  let arg := copyWhile command endsText turns i 0 argBuf
  (parsedCommand, Function.update arg.2.2 arg.2.1 0)

/-- `strlen(s)`, with the number of bytes left in the array. -/
def strlenFrom (s : Nat → UInt8) : Nat → Nat → Nat
  | 0, i => i
  | turns + 1, i => if s i = 0 then i else strlenFrom s turns (i + 1)

/-- `strcpy(dest, src)`, with the number of bytes left in the array. -/
def strcpyFrom (src : Nat → UInt8) : Nat → Nat → (Nat → UInt8) → Nat → UInt8
  | 0, _, dest => dest
  | turns + 1, i, dest =>
    if src i = 0 then Function.update dest i 0
    else strcpyFrom src turns (i + 1) (Function.update dest i (src i))

/-- `system_getargs(buf, nbytes)`, with `arg_buf` and the caller's buffer. -/
def getargsInto (argBuf : Nat → UInt8) (bufNull : Bool) (nbytes : Int) (buf : Nat → UInt8) :
    Int × (Nat → UInt8) :=
  if bufNull ∨ nbytes = 0 then (-1, buf)
  else if strlenFrom argBuf 128 0 = 0 then (-1, buf)
  else (0, strcpyFrom argBuf 128 0 buf)

/-! ## Texts in an array -/

/-- The array holds the text and a terminator. -/
structure HoldsText (buf : Nat → UInt8) (text : List UInt8) : Prop where
  chars : ∀ (j : Nat) (h : j < text.length), buf j = text[j]
  terminator : buf text.length = 0

/-- Of an array only the bytes from `j` on are changed, into those of the text. -/
def wrote (buf : Nat → UInt8) (j : Nat) (text : List UInt8) : Nat → UInt8 := fun x =>
  if j ≤ x then text.getD (x - j) (buf x) else buf x

theorem wrote_nil (buf : Nat → UInt8) (j : Nat) : wrote buf j [] = buf := by
  funext x
  simp [wrote]

theorem wrote_cons (buf : Nat → UInt8) (j : Nat) (c : UInt8) (text : List UInt8) :
    wrote (Function.update buf j c) (j + 1) text = wrote buf j (c :: text) := by
  funext x
  unfold wrote
  rcases Nat.lt_trichotomy x j with hlt | heq | hgt
  · rw [if_neg (by omega), if_neg (by omega), Function.update_of_ne (by omega)]
  · subst heq
    rw [if_neg (by omega), if_pos (le_refl x), Function.update_self, Nat.sub_self]
    rfl
  · have hsub : x - j = x - (j + 1) + 1 := by omega
    rw [if_pos (by omega), if_pos (by omega), Function.update_of_ne (by omega), hsub,
      List.getD_cons_succ]

/-- A text that has been written from the start on, with its terminator. -/
theorem holdsText_wrote (buf : Nat → UInt8) (text : List UInt8) :
    HoldsText (Function.update (wrote buf 0 text) text.length 0) text where
  chars j h := by
    rw [Function.update_of_ne (by omega), wrote, if_pos (Nat.zero_le j), Nat.sub_zero,
      List.getD_eq_getElem _ _ h]
  terminator := Function.update_self ..

/-- Behind the text and its terminator the array is as it was. -/
theorem wrote_behind (buf : Nat → UInt8) {text : List UInt8} {x : Nat} (h : text.length < x) :
    Function.update (wrote buf 0 text) text.length 0 x = buf x := by
  rw [Function.update_of_ne (by omega), wrote, if_pos (Nat.zero_le x), Nat.sub_zero,
    List.getD_eq_default _ _ (by omega)]

/-! ## The loops over the command -/

/-- Behind the spaces the rest of the command begins with something else. -/
theorem skipSpaces_text (command : CStr) (turns i : Nat)
    (hturns : (CStr.text (command.drop i)).length ≤ turns) :
    CStr.text (command.drop (skipSpaces command turns i)) =
      (CStr.text (command.drop i)).dropWhile (· = 32) := by
  induction turns generalizing i with
  | zero =>
    have hnil : CStr.text (command.drop i) = [] := List.length_eq_zero_iff.mp (by omega)
    rw [skipSpaces, hnil]
    rfl
  | succ turns ih =>
    rw [skipSpaces]
    rw [text_drop command i] at hturns ⊢
    by_cases hend : command.char i = 0
    · have hspace : ¬ command.char i = 32 := by rw [hend]; decide
      rw [if_neg hspace, text_drop command i, if_pos hend]
      rfl
    · rw [if_neg hend] at hturns ⊢
      by_cases hspace : command.char i = 32
      · rw [if_pos hspace, ih (i + 1) (by simpa using hturns),
          List.dropWhile_cons_of_pos (by simpa using hspace)]
      · rw [if_neg hspace, List.dropWhile_cons_of_neg (by simpa using hspace), text_drop command i,
          if_neg hend]

/-- **A copying loop** writes the rest of the command up to the character at which it stops. -/
theorem copyWhile_eq (command : CStr) (stops : UInt8 → Bool) (hstops : stops 0 = true)
    (turns i j : Nat) (hturns : (CStr.text (command.drop i)).length ≤ turns) (buf : Nat → UInt8) :
    let text := (CStr.text (command.drop i)).takeWhile fun c => !stops c
    let res := copyWhile command stops turns i j buf
    CStr.text (command.drop res.1) = (CStr.text (command.drop i)).dropWhile (fun c => !stops c) ∧
      res.2.1 = j + text.length ∧ res.2.2 = wrote buf j text := by
  induction turns generalizing i j buf with
  | zero =>
    intro text res
    have hnil : CStr.text (command.drop i) = [] := List.length_eq_zero_iff.mp (by omega)
    have htext : text = [] := by
      change (CStr.text (command.drop i)).takeWhile _ = []
      rw [hnil]
      rfl
    rw [htext, hnil]
    exact ⟨hnil, rfl, (wrote_nil buf j).symm⟩
  | succ turns ih =>
    intro text res
    have hres : res = if stops (command.char i) = true then (i, j, buf)
      else copyWhile command stops turns (i + 1) (j + 1) (Function.update buf j (command.char i)) := rfl
    by_cases hend : command.char i = 0
    · -- the terminator
      have hnil : CStr.text (command.drop i) = [] := by rw [text_drop, if_pos hend]
      rw [hend, if_pos hstops] at hres
      have htext : text = [] := by
        change (CStr.text (command.drop i)).takeWhile _ = []
        rw [hnil]
        rfl
      rw [hres, htext, hnil]
      exact ⟨rfl, rfl, (wrote_nil buf j).symm⟩
    · have hcons : CStr.text (command.drop i) =
          command.char i :: CStr.text (command.drop (i + 1)) := by rw [text_drop, if_neg hend]
      by_cases hstop : stops (command.char i) = true
      · rw [if_pos hstop] at hres
        have hneg : ¬ (fun c => !stops c) (command.char i) = true := by simp [hstop]
        have htext : text = [] := by
          change (CStr.text (command.drop i)).takeWhile _ = []
          rw [hcons, List.takeWhile_cons_of_neg (p := fun c => !stops c) hneg]
        rw [hres, htext]
        refine ⟨?_, rfl, (wrote_nil buf j).symm⟩
        rw [hcons, List.dropWhile_cons_of_neg (p := fun c => !stops c) hneg]
      · rw [if_neg hstop] at hres
        have hpos : (fun c => !stops c) (command.char i) = true := by simpa using hstop
        have htext : text = command.char i ::
            (CStr.text (command.drop (i + 1))).takeWhile fun c => !stops c := by
          change (CStr.text (command.drop i)).takeWhile _ = _
          rw [hcons, List.takeWhile_cons_of_pos (p := fun c => !stops c) hpos]
        rw [hcons, List.length_cons] at hturns
        obtain ⟨hrest, hidx, hbuf⟩ := ih (i + 1) (j + 1) (by omega)
          (Function.update buf j (command.char i))
        rw [← hres] at hrest hidx hbuf
        refine ⟨?_, ?_, ?_⟩
        · rw [hrest, hcons, List.dropWhile_cons_of_pos (p := fun c => !stops c) hpos]
        · rw [hidx, htext, List.length_cons]
          omega
        · rw [hbuf, htext, wrote_cons]

/-- A loop never runs out of turns. -/
theorem text_length_le (command : CStr) (i : Nat) :
    (CStr.text (command.drop i)).length ≤ command.length := by
  have hle := (List.takeWhile_sublist (l := command.drop i) fun c : UInt8 => c ≠ 0).length_le
  rw [List.length_drop] at hle
  exact hle.trans (Nat.sub_le ..)

/-- The characters of a text are not the terminator, so that the loops stop at a space, or not at all. -/
theorem endsWord_eq {c : UInt8} (h : c ≠ 0) : (!endsWord c) = decide (c ≠ 32) := by
  simp [endsWord, h]

theorem endsText_eq {c : UInt8} (h : c ≠ 0) : (!endsText c) = true := by
  simp [endsText, h]

theorem takeWhile_congr {p q : UInt8 → Bool} {text : List UInt8} (h : ∀ c ∈ text, p c = q c) :
    text.takeWhile p = text.takeWhile q ∧ text.dropWhile p = text.dropWhile q := by
  induction text with
  | nil => exact ⟨rfl, rfl⟩
  | cons c text ih =>
    obtain ⟨htake, hdrop⟩ := ih fun d hd => h d (List.mem_cons_of_mem c hd)
    rw [List.takeWhile_cons, List.takeWhile_cons, List.dropWhile_cons, List.dropWhile_cons,
      h c List.mem_cons_self, htake, hdrop]
    exact ⟨rfl, rfl⟩

theorem text_nonzero (s : CStr) : ∀ c ∈ CStr.text s, c ≠ 0 := fun c hc => by
  simpa using List.mem_takeWhile_imp hc

/-- **The two copying loops** write the two texts that `parseCommand` takes from the command. -/
theorem split_texts (command : CStr) {turns : Nat} (hturns : command.length ≤ turns)
    (parsedCommand argBuf : Nat → UInt8) :
    let parts := parseCommand command
    let word := copyWhile command endsWord turns (skipSpaces command turns 0) 0 parsedCommand
    let arg := copyWhile command endsText turns (skipSpaces command turns word.1) 0 argBuf
    (word.2.1 = parts.1.length ∧ word.2.2 = wrote parsedCommand 0 parts.1) ∧
      arg.2.1 = parts.2.length ∧ arg.2.2 = wrote argBuf 0 parts.2 := by
  have hfuel : ∀ i, (CStr.text (command.drop i)).length ≤ turns := fun i =>
    (text_length_le command i).trans hturns
  intro parts word
  -- the program name
  have hlead := skipSpaces_text command turns 0 (hfuel 0)
  obtain ⟨hrest, hidx, hbuf⟩ := copyWhile_eq command endsWord rfl turns
    (skipSpaces command turns 0) 0 (hfuel _) parsedCommand
  have hword := takeWhile_congr fun c hc =>
    endsWord_eq (text_nonzero (command.drop (skipSpaces command turns 0)) c hc)
  rw [hword.2, hlead] at hrest
  rw [hword.1, hlead, Nat.zero_add] at hidx
  rw [hword.1, hlead] at hbuf
  -- the argument
  have hgap := skipSpaces_text command turns word.1 (hfuel _)
  obtain ⟨-, hidx', hbuf'⟩ := copyWhile_eq command endsText rfl turns
    (skipSpaces command turns word.1) 0 (hfuel _) argBuf
  have hall := List.takeWhile_eq_self_iff.mpr fun c hc =>
    endsText_eq (text_nonzero (command.drop (skipSpaces command turns word.1)) c hc)
  rw [hall, hgap, hrest, Nat.zero_add] at hidx'
  rw [hall, hgap, hrest] at hbuf'
  exact ⟨⟨hidx, hbuf⟩, hidx', hbuf'⟩

/-- **The arrays hold the two texts**, and nothing behind them has changed. -/
theorem splitCommand_text (command : CStr) {turns : Nat} (hturns : command.length ≤ turns)
    (parsedCommand argBuf : Nat → UInt8) :
    let parts := parseCommand command
    let arrays := splitCommand turns command parsedCommand argBuf
    HoldsText arrays.1 parts.1 ∧ HoldsText arrays.2 parts.2 ∧
      (∀ x, parts.1.length < x → arrays.1 x = parsedCommand x) ∧
      ∀ x, parts.2.length < x → arrays.2 x = argBuf x := by
  intro parts arrays
  obtain ⟨⟨hidx, hbuf⟩, hidx', hbuf'⟩ :=
    split_texts command hturns parsedCommand (Function.update argBuf 0 0)
  have harrays : arrays = (Function.update (wrote parsedCommand 0 parts.1) parts.1.length 0,
      Function.update (wrote (Function.update argBuf 0 0) 0 parts.2) parts.2.length 0) := by
    change splitCommand turns command parsedCommand argBuf = _
    unfold splitCommand
    dsimp only
    rw [hidx, hbuf, hidx', hbuf']
  rw [harrays]
  refine ⟨holdsText_wrote .., holdsText_wrote .., fun x => wrote_behind _, fun x hx => ?_⟩
  change Function.update (wrote (Function.update argBuf 0 0) 0 parts.2) parts.2.length 0 x = argBuf x
  rw [wrote_behind _ hx, Function.update_of_ne (by omega)]

/-! ## What lies behind the array -/

/-- The variables from `arg_buf` on have the values that stand in memory there. -/
structure Mirrors (m : Nat → UInt8) (k : Kernel) : Prop where
  size : k.argBuf.length ≤ 128
  chars : ∀ (i : Nat) (h : i < k.argBuf.length), m i = k.argBuf[i]
  terminator : k.argBuf.length < 128 → m k.argBuf.length = 0
  active : m 128 = UInt8.ofNat k.activeTerminal.toNat
  padding : k.padding.length < 3 ∧ HoldsText (fun i => m (129 + i)) k.padding

/-- **What an overrun changes**: the loops over a command store in memory what `storeArgs` stores in the
variables. -/
theorem mirrors_splitCommand {m : Nat → UInt8} {k : Kernel} (h : Mirrors m k) {command : CStr}
    (hfollowed : Followed command) {turns : Nat} (hturns : command.length ≤ turns)
    (parsedCommand : Nat → UInt8) :
    Mirrors (splitCommand turns command parsedCommand m).2 (k.storeArgs (parseCommand command).2) := by
  obtain ⟨-, htext, -, hbehind⟩ := splitCommand_text command hturns parsedCommand m
  obtain ⟨-, hlen, -⟩ := hfollowed
  generalize (parseCommand command).2 = args at htext hbehind hlen ⊢
  generalize (splitCommand turns command parsedCommand m).2 = m' at htext hbehind ⊢
  unfold storeArgs
  split
  · rename_i hshort
    have hkept : ∀ x, 128 ≤ x → m' x = m x := fun x hx => hbehind x (by omega)
    exact
      { size := hshort.le
        chars := htext.chars
        terminator := fun _ => htext.terminator
        active := (hkept 128 le_rfl).trans h.active
        padding := ⟨h.padding.1, fun i hi => (hkept _ (by omega)).trans (h.padding.2.chars i hi),
          (hkept _ (by omega)).trans h.padding.2.terminator⟩ }
  · rename_i hlong
    have hbuf : (args.take 128).length = 128 := by
      rw [List.length_take]
      omega
    refine ⟨hbuf.le, fun i hi => ?_, fun hlt => absurd hbuf hlt.ne, ?_, ?_⟩
    · rw [hbuf] at hi
      rw [List.getElem_take]
      exact htext.chars i (by omega)
    · change m' 128 = UInt8.ofNat ((CStr.char args 128).toNat : Int).toNat
      rw [Int.toNat_natCast, UInt8.ofNat_toNat, CStr.char]
      by_cases hexact : args.length = 128
      · rw [List.getD_eq_default _ _ hexact.le, ← hexact]
        exact htext.terminator
      · rw [List.getD_eq_getElem _ _ (by omega)]
        exact htext.chars 128 (by omega)
    · dsimp only
      split
      · exact ⟨h.padding.1, fun i hi => (hbehind _ (by omega)).trans (h.padding.2.chars i hi),
          (hbehind _ (by omega)).trans h.padding.2.terminator⟩
      · have hrest : 129 + (args.drop 129).length = args.length := by
          rw [List.length_drop]
          omega
        refine ⟨by omega, fun i hi => ?_, ?_⟩
        · rw [List.getElem_drop]
          exact htext.chars (129 + i) (by omega)
        · rw [hrest]
          exact htext.terminator

theorem holdsText_cons {buf : Nat → UInt8} {c : UInt8} {text : List UInt8} :
    HoldsText buf (c :: text) ↔ buf 0 = c ∧ HoldsText (fun i => buf (i + 1)) text := by
  constructor
  · intro h
    exact ⟨h.chars 0 (by simp), fun j hj => h.chars (j + 1) (by simpa using hj), h.terminator⟩
  · rintro ⟨hfirst, hrest⟩
    refine ⟨fun j hj => ?_, hrest.terminator⟩
    cases j with
    | zero => exact hfirst
    | succ j => exact hrest.chars j (by simpa using hj)

/-- A string ends at its first terminator. -/
theorem HoldsText.commandText {buf : Nat → UInt8} {text : List UInt8} (h : HoldsText buf text) :
    HoldsText buf (commandText text) := by
  induction text generalizing buf with
  | nil => exact h
  | cons c text ih =>
    obtain ⟨hfirst, hrest⟩ := holdsText_cons.mp h
    unfold Kernel.commandText
    rw [List.takeWhile_cons]
    split
    · exact holdsText_cons.mpr ⟨hfirst, ih hrest⟩
    · rename_i hzero
      obtain rfl : c = 0 := by simpa using hzero
      exact ⟨nofun, hfirst⟩

/-- What `getargs` copies begins at `arg_buf`. -/
theorem Mirrors.holdsText {m : Nat → UInt8} {k : Kernel} (h : Mirrors m k) : HoldsText m k.argText := by
  unfold argText
  split
  · rename_i hshort
    exact ⟨h.chars, h.terminator hshort⟩
  · rename_i hfull
    have hsize : k.argBuf.length = 128 := le_antisymm h.size (by omega)
    have hbehind : HoldsText (fun i => m (128 + i)) (UInt8.ofNat k.activeTerminal.toNat :: k.padding) := by
      refine holdsText_cons.mpr ⟨h.active, ?_⟩
      have hsame : ∀ i, 128 + (i + 1) = 129 + i := fun i => by omega
      simpa only [hsame] using h.padding.2
    obtain ⟨hchars, hend⟩ := hbehind.commandText
    refine ⟨fun i hi => ?_, ?_⟩
    · rw [List.getElem_append]
      split
      · exact h.chars i _
      · rename_i hlong
        rw [← hchars (i - k.argBuf.length), hsize, show 128 + (i - 128) = i by omega]
    · rw [List.length_append, hsize]
      exact hend

/-! ## The copy for the program -/

theorem strlenFrom_eq {s : Nat → UInt8} {text : List UInt8} (hs : HoldsText s text)
    (hchars : ∀ c ∈ text, c ≠ 0) (turns i : Nat) (hi : i ≤ text.length)
    (hturns : text.length < i + turns) : strlenFrom s turns i = text.length := by
  induction turns generalizing i with
  | zero => omega
  | succ turns ih =>
    rw [strlenFrom]
    rcases Nat.lt_or_eq_of_le hi with hlt | heq
    · have hchar : ¬ s i = 0 := by
        rw [hs.chars i hlt]
        exact hchars _ (List.getElem_mem hlt)
      rw [if_neg hchar]
      exact ih (i + 1) hlt (by omega)
    · rw [heq, if_pos hs.terminator]

theorem strcpyFrom_eq {src : Nat → UInt8} {text : List UInt8} (hsrc : HoldsText src text)
    (hchars : ∀ c ∈ text, c ≠ 0) (turns i : Nat) (hi : i ≤ text.length)
    (hturns : text.length < i + turns) (dest : Nat → UInt8) :
    strcpyFrom src turns i dest =
      Function.update (wrote dest i (text.drop i)) text.length 0 := by
  induction turns generalizing i dest with
  | zero => omega
  | succ turns ih =>
    rw [strcpyFrom]
    rcases Nat.lt_or_eq_of_le hi with hlt | heq
    · have hchar := hsrc.chars i hlt
      have hne : ¬ src i = 0 := by
        rw [hchar]
        exact hchars _ (List.getElem_mem hlt)
      rw [if_neg hne, ih (i + 1) hlt (by omega), wrote_cons, hchar,
        List.drop_eq_getElem_cons hlt]
    · -- the terminator is copied too
      rw [heq, if_pos hsrc.terminator, List.drop_length, wrote_nil]

/-- **`getargs`** on a buffer that holds a text. -/
theorem getargsInto_eq {argBuf : Nat → UInt8} {text : List UInt8} (harg : HoldsText argBuf text)
    (hchars : ∀ c ∈ text, c ≠ 0) (hlen : text.length < 128) {nbytes : Int} (hbytes : nbytes ≠ 0)
    (buf : Nat → UInt8) :
    getargsInto argBuf false nbytes buf =
      if text = [] then (-1, buf)
      else (0, Function.update (wrote buf 0 text) text.length 0) := by
  unfold getargsInto
  have hcall : ¬ ((false : Bool) = true ∨ nbytes = 0) := by simp [hbytes]
  rw [if_neg hcall, strlenFrom_eq harg hchars 128 0 (Nat.zero_le _) (by omega),
    strcpyFrom_eq harg hchars 128 0 (Nat.zero_le _) (by omega), List.drop_zero]
  simp only [List.length_eq_zero_iff]

/-! ## Commands that are put together -/

/-- A command of a program name and an argument text, with spaces before and between them. -/
def commandLine (lead : Nat) (word : List UInt8) (gap : Nat) (arg : List UInt8) : CStr :=
  List.replicate lead 32 ++ (word ++ (List.replicate gap 32 ++ arg))

/-- The spaces are dropped up to the first other character. -/
theorem dropSpaces (n : Nat) {text : List UInt8} (h : text.head? ≠ some 32) :
    (List.replicate n (32 : UInt8) ++ text).dropWhile (· = 32) = text := by
  rw [List.dropWhile_append_of_pos (by simp)]
  cases text with
  | nil => rfl
  | cons c text =>
    have hc : ¬ c = 32 := fun hc => h (by rw [hc]; rfl)
    rw [List.dropWhile_cons_of_neg (by simpa using hc)]

/-- A word ends where the command ends or at a space. -/
theorem cutWord {word rest : List UInt8} (hword : ∀ c ∈ word, c ≠ 32)
    (hrest : rest = [] ∨ rest.head? = some 32) :
    (word ++ rest).takeWhile (· ≠ 32) = word ∧ (word ++ rest).dropWhile (· ≠ 32) = rest := by
  have hpos : ∀ c ∈ word, decide (c ≠ 32) = true := fun c hc => by simpa using hword c hc
  rw [List.takeWhile_append_of_pos hpos, List.dropWhile_append_of_pos hpos]
  rcases hrest with hnil | hspace
  · rw [hnil]
    exact ⟨List.append_nil word, rfl⟩
  · cases rest with
    | nil => exact ⟨List.append_nil word, rfl⟩
    | cons c rest =>
      have hc : c = 32 := Option.some.inj hspace
      subst hc
      exact ⟨List.append_nil word, rfl⟩

/-- **A command is parsed** into what it has been put together from. -/
theorem parseCommand_line (lead gap : Nat) {word arg : List UInt8} (hne : word ≠ [])
    (hword : ∀ c ∈ word, c ≠ 0 ∧ c ≠ 32) (harg : ∀ c ∈ arg, c ≠ 0) (hhead : arg.head? ≠ some 32)
    (hgap : arg ≠ [] → 0 < gap) : parseCommand (commandLine lead word gap arg) = (word, arg) := by
  have htext : commandText (commandLine lead word gap arg) = commandLine lead word gap arg := by
    refine List.takeWhile_eq_self_iff.mpr fun c hc => ?_
    simp only [commandLine, List.mem_append, List.mem_replicate] at hc
    rcases hc with ⟨-, rfl⟩ | hc | ⟨-, rfl⟩ | hc
    · rfl
    · simpa using (hword c hc).1
    · rfl
    · simpa using harg c hc
  have hfirst : (word ++ (List.replicate gap (32 : UInt8) ++ arg)).head? ≠ some 32 := by
    cases word with
    | nil => exact absurd rfl hne
    | cons c word => exact fun h => (hword c List.mem_cons_self).2 (Option.some.inj h)
  -- the word ends at the end of the command or at the first separating space
  have hrest : List.replicate gap (32 : UInt8) ++ arg = [] ∨
      (List.replicate gap (32 : UInt8) ++ arg).head? = some 32 := by
    cases gap with
    | zero =>
      left
      have hnil : arg = [] := by_contra fun h => absurd (hgap h) (by omega)
      rw [hnil]
      rfl
    | succ gap => exact Or.inr rfl
  obtain ⟨htake, hdrop⟩ := cutWord (fun c hc => (hword c hc).2) hrest
  unfold parseCommand
  dsimp only
  rw [htext, commandLine, dropSpaces lead hfirst, htake, hdrop, dropSpaces gap hhead]

/-- **Splitting a command**: for every word, argument text and number of spaces before and between
them, the two arrays hold exactly the word and the text, and `getargs` then gives the program the
text, or -1 exactly when it is empty, whatever becomes of the execution. -/
theorem command_split (lead gap : Nat) (word arg : List UInt8) (hne : word ≠ [])
    (hword : ∀ c ∈ word, c ≠ 0 ∧ c ≠ 32) (harg : ∀ c ∈ arg, c ≠ 0) (hhead : arg.head? ≠ some 32)
    (hgap : arg ≠ [] → 0 < gap) (hlen : (commandLine lead word gap arg).length ≤ 127)
    (parsedCommand argBuf buf : Nat → UInt8) (nbytes : Int) (hbytes : arg.length < nbytes) :
    let command := commandLine lead word gap arg
    let arrays := splitCommand 128 command parsedCommand argBuf
    let res := getargsInto arrays.2 false nbytes buf
    (HoldsText arrays.1 word ∧ HoldsText arrays.2 arg) ∧
      (∀ x, 128 ≤ x → arrays.1 x = parsedCommand x ∧ arrays.2 x = argBuf x) ∧
      (res.1 = -1 ↔ arg = []) ∧
      (arg ≠ [] → res.1 = 0 ∧ HoldsText res.2 arg ∧ ∀ x, arg.length < x → res.2 x = buf x) ∧
      ∀ (img : Image) (junk : Nat → UInt8) (caller : Caller) (k : Kernel),
        (systemExecute img command junk caller k).kernel.systemGetargs false nbytes =
          argsReply arg := by
  intro command arrays res
  have hparts : parseCommand command = (word, arg) :=
    parseCommand_line lead gap hne hword harg hhead hgap
  have hshort : word.length ≤ 127 ∧ arg.length ≤ 127 := by
    simp only [commandLine, List.length_append, List.length_replicate] at hlen
    omega
  have hzero : nbytes ≠ 0 := by omega
  obtain ⟨hfst, hsnd, hbehind, hbehind'⟩ :=
    splitCommand_text command (show _ ≤ 128 from hlen.trans (by decide)) parsedCommand argBuf
  rw [hparts] at hfst hsnd hbehind hbehind'
  dsimp only at hfst hsnd hbehind hbehind'
  have hres := getargsInto_eq hsnd harg (by omega) hzero buf
  refine ⟨⟨hfst, hsnd⟩, fun x hx => ⟨hbehind x (by omega), hbehind' x (by omega)⟩, ?_, ?_, ?_⟩
  · change (getargsInto _ false nbytes buf).1 = -1 ↔ _
    rw [hres]
    by_cases hnil : arg = []
    · simp [hnil]
    · simp [hnil]
  · intro hsome
    change (getargsInto _ false nbytes buf).1 = 0 ∧ HoldsText (getargsInto _ false nbytes buf).2 arg ∧
      ∀ x, _ → (getargsInto _ false nbytes buf).2 x = buf x
    rw [hres, if_neg hsome]
    exact ⟨rfl, holdsText_wrote buf arg, fun x => wrote_behind buf⟩
  · intro img junk caller k
    have hfits : CommandFits command := by
      rw [CommandFits, hparts]
      exact ⟨Nat.lt_succ_of_le hshort.1, Nat.lt_succ_of_le hshort.2⟩
    have hstored : (systemExecute img command junk caller k).kernel.argBuf = arg := by
      rw [systemExecute_argBuf hfits, hparts]
    rw [systemGetargs_eq hzero, argText_of_lt (by rw [hstored]; omega), hstored]

/-- `"  cat  a b "` -/
theorem command_split_sample :
    (systemExecute sampleImage (commandLine 2 [99, 97, 116] 2 [97, 32, 98, 32]) noJunk .syscall
      (sampleKernel fun _ => 0)).kernel.systemGetargs false 128 = some [97, 32, 98, 32] :=
  (command_split 2 2 [99, 97, 116] [97, 32, 98, 32] (by decide) (by simp) (by simp) (by decide)
    (by decide) (by decide) (fun _ => 0) (fun _ => 0) (fun _ => 0) 128 (by decide)).2.2.2.2 _ _ _ _

end Kernel

end SrirachOS
