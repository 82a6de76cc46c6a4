import SrirachOS.Calls.UserPointers
import SrirachOS.Console.Multiplex
import SrirachOS.Console.Write
import SrirachOS.User.Opening
import SrirachOS.User.Support

/-!
# The System Calls of a User Program

A user program is a computation over the system calls of `ece391syscall.h`. It runs alone: what a call
does is what the kernel's function does to the descriptors, the display and the argument buffer, and the
arrays of the program are its own.

- `ece391Write_puts`, `fdputs_puts`: a text that is written to the terminal,
- `ece391Read_record`, `ece391Open_run`: the calls on descriptors are those of the kernel,
- `Ends`: a program has ended, with a status and with what it has printed; `Ends.bind` follows it from
  call to call,
- `Started`: a program that begins, with its argument.

A program that waits for a line that nobody types, that never ends, or that the kernel takes through a
pointer nobody has set, has no result.
-/

namespace SrirachOS

open Foundation Kernel FsProg

namespace User

/-! ## Programs -/

/-- What the system calls of a program work on. -/
structure Sys where
  fs : FsState
  writer : Writer
  /-- `arg_buf` -/
  argBuf : Nat → UInt8
  /-- the lines that are going to be completed on the program's terminal, with their newlines -/
  lines : List (List UInt8)

/-- A user program. -/
abbrev UserM := StateT Sys Option

/-- A call that has a result, and what follows it. -/
theorem run_bind_of {α β : Type} {call : UserM α} {s s₁ : Sys} {a : α} (h : call.run s = some (a, s₁))
    (rest : α → UserM β) : (call >>= rest).run s = (rest a).run s₁ := by
  rw [StateT.run_bind, h]
  rfl

/-- A buffer of the program, from `start` on; the display is no part of it. -/
def userBuffer (buf : Nat → UInt8) (start : Nat) : Buffer := fun _ i => some (buf (start + i.toNat))

/-- The string at the beginning of an array of `size` bytes. -/
def cstring (buf : Nat → UInt8) (size : Nat) : CStr :=
  (List.range (ece391Strlen buf size 0)).map buf

/-! ## The calls -/

/-- `ece391_getargs(buf, nbytes)`. -/
def ece391Getargs (buf : Nat → UInt8) (nbytes : Int) : UserM (Int × (Nat → UInt8)) := fun s =>
  some (getargsInto s.argBuf false nbytes buf, s)

/-- `ece391_open(filename)`. -/
def ece391Open (img : Image) (filename : CStr) : UserM Int := fun s =>
  let result := (systemOpen img (some filename)).run accessSem s.fs
  some (result.1, { s with fs := result.2 })

/-- `ece391_read(fd, buf + start, nbytes)`. -/
def ece391Read (img : Image) (fd : Int) (buf : Nat → UInt8) (start : Nat) (nbytes : Int) :
    UserM (Int × (Nat → UInt8)) := fun s =>
  let result := (systemRead img fd false nbytes).run accessSem s.fs
  let answer (res : ReadResult) (lines : List (List UInt8)) :=
    some ((res.ret, wrote buf start res.buf), { s with fs := result.2, lines })
  match result.1 with
  | .returned res => answer res s.lines
  | .device .terminal =>
    if fd ≠ 0 then answer (terminalRead [] fd) s.lines
    else
      match s.lines with
      | [] => none
      | line :: lines => answer (terminalRead line fd) lines
  | .device .rtc => answer rtcRead s.lines
  | _ => none

/-- More turns than the loop of `my_puts` can take. -/
def putsTurns : Nat := 4294967297

/-- `rtc_write(fd, buf, nbytes)`, with the integer that stands at `buf`. -/
def rtcWriteReturns (buf : Nat → UInt8) (start : Nat) (nbytes : Int) : Int :=
  if nbytes ≠ 4 then -1
  else
    match rtcRate (i32 ((buf start).toNat + 256 * (buf (start + 1)).toNat
      + 65536 * (buf (start + 2)).toNat + 16777216 * (buf (start + 3)).toNat)) with
    | none => -1
    | some _ => 0

/-- `ece391_write(fd, buf + start, nbytes)`. -/
def ece391Write (fd : Int) (buf : Nat → UInt8) (start : Nat) (nbytes : Int) : UserM Int := fun s =>
  let result := (systemWrite fd false).run accessSem s.fs
  match result.1 with
  | .returned res => some (res.ret, { s with fs := result.2 })
  | .device .terminal =>
    match Writer.terminalWrite fd (userBuffer buf start) nbytes putsTurns s.writer with
    | none => none
    | some (written, writer) => some (written, { s with fs := result.2, writer })
  | .device .rtc => some (rtcWriteReturns buf start nbytes, { s with fs := result.2 })
  | _ => none

/-- `ece391_close(fd)`. -/
def ece391Close (fd : Int) : UserM Int := fun s =>
  let result := (systemClose fd).run accessSem s.fs
  match result.1 with
  | .returned res => some (res.ret, { s with fs := result.2 })
  | _ => none

/-- `ece391_fdputs(fd, s)`, for a string at `start` of an array with `size` bytes left. -/
def ece391Fdputs (fd : Int) (s : Nat → UInt8) (start size : Nat) : UserM Unit := do
  let _ ← ece391Write fd s start (ece391Strlen s size start)
  pure ()

/-- `ece391_fdputs(1, "...")`. -/
def say (text : CStr) : UserM Unit := ece391Fdputs 1 text.char 0 (text.length + 1)

/-! ## Writing to the terminal -/

namespace Sys

/-- Descriptor 1 of the process is its terminal. -/
def Stdout (s : Sys) : Prop := (s.fs.fdt s.fs.mainProcess 1).fOps = .terminal

/-- The process has written a text to its terminal. -/
def puts (s : Sys) (text : List UInt8) : Sys :=
  { s with
    fs := s.fs.entered
    writer := { s.writer.prints text with interrupts := true } }

@[simp] theorem puts_fs (s : Sys) (text : List UInt8) : (s.puts text).fs = s.fs.entered := rfl

@[simp] theorem puts_argBuf (s : Sys) (text : List UInt8) : (s.puts text).argBuf = s.argBuf := rfl

@[simp] theorem puts_lines (s : Sys) (text : List UInt8) : (s.puts text).lines = s.lines := rfl

@[simp] theorem puts_output (s : Sys) (text : List UInt8) :
    (s.puts text).writer.output = s.writer.output ++ text := rfl

theorem puts_puts (s : Sys) (a b : List UInt8) : (s.puts a).puts b = s.puts (a ++ b) := by
  simp [puts, Writer.prints, Display.myPuts, FsState.entered]

theorem Stdout.puts {s : Sys} (h : s.Stdout) (text : List UInt8) : (s.puts text).Stdout := h

end Sys

/-- **A text is written**: the call returns its length, and the text is on the terminal. -/
theorem ece391Write_puts {s : Sys} (hstd : s.Stdout) {buf : Nat → UInt8} {start : Nat}
    {text : List UInt8} (hheld : HoldsAt buf start text) (hfits : text.length < 2147483648) :
    (ece391Write 1 buf start text.length).run s = some ((text.length : Int), s.puts text) := by
  have hbuffer : Holds (userBuffer buf start) { s.writer with interrupts := false }.display text := by
    intro i hi
    simp [userBuffer, hheld i hi]
  have hputs : Writer.myPuts (userBuffer buf start) text.length putsTurns
      { s.writer with interrupts := false } =
      some ((text.length : Int), Writer.prints text { s.writer with interrupts := false }) :=
    myPuts_holds hbuffer hfits (hfits.trans (by decide))
  have hcall := systemWrite_dispatch (show (0 : Int) ≤ 1 by decide) (by decide) s.fs
  rw [hstd] at hcall
  change ece391Write 1 buf start text.length s = _
  unfold ece391Write
  rw [hcall]
  simp only [Writer.terminalWrite, hputs]
  rfl

theorem fdputs_puts {s : Sys} (hstd : s.Stdout) {buf : Nat → UInt8} {start size : Nat}
    {text : List UInt8} (h : StringAt buf start text) (hsize : text.length ≤ size)
    (hfits : text.length < 2147483648) :
    (ece391Fdputs 1 buf start size).run s = some ((), s.puts text) := by
  rw [ece391Fdputs, ece391Strlen_eq h hsize, StateT.run_bind, ece391Write_puts hstd h.holds hfits]
  rfl

theorem say_puts {s : Sys} (hstd : s.Stdout) {text : CStr} (hzero : 0 ∉ text)
    (hfits : text.length < 2147483648) : (say text).run s = some ((), s.puts text) :=
  fdputs_puts hstd (stringAt_char hzero) (by omega) hfits

/-! ## Programs that end -/

/-- From one state to the other a text has been printed. -/
structure Sys.Printed (s s' : Sys) (text : List UInt8) : Prop where
  output : s'.writer.output = s.writer.output ++ text
  display : s'.writer.display = s.writer.display.myPuts text

theorem Sys.Printed.trans {s s₁ s₂ : Sys} {a b : List UInt8} (h₁ : s.Printed s₁ a)
    (h₂ : s₁.Printed s₂ b) : s.Printed s₂ (a ++ b) where
  output := by rw [h₂.output, h₁.output, List.append_assoc]
  display := by rw [h₂.display, h₁.display, Display.myPuts, Display.myPuts, Display.myPuts,
    List.foldl_append]

/-- A call that leaves the display. -/
theorem Sys.printed_nil {s s' : Sys} (h : s'.writer = s.writer) : s.Printed s' [] := by
  constructor <;> simp [h, Display.myPuts]

theorem Sys.printed_puts (s : Sys) (text : List UInt8) : s.Printed (s.puts text) text := ⟨rfl, rfl⟩

/-- The program ends with a status, and has printed a text. -/
def Ends (program : UserM Int) (s : Sys) (status : Int) (text : List UInt8) : Prop :=
  ∃ s', program.run s = some (status, s') ∧ s.Printed s' text

theorem ends_pure (s : Sys) (status : Int) : Ends (pure status) s status [] :=
  ⟨s, rfl, Sys.printed_nil rfl⟩

/-- One call, and the rest of the program. -/
theorem Ends.bind {α : Type} {call : UserM α} {rest : α → UserM Int} {s s₁ : Sys} {a : α}
    {status : Int} {before after : List UInt8} (hcall : call.run s = some (a, s₁))
    (hprinted : s.Printed s₁ before) (hrest : Ends (rest a) s₁ status after) :
    Ends (call >>= rest) s status (before ++ after) := by
  obtain ⟨s', hrun, hprinted'⟩ := hrest
  exact ⟨s', (run_bind_of hcall rest).trans hrun, hprinted.trans hprinted'⟩

/-- A call that prints nothing. -/
theorem Ends.silent {α : Type} {call : UserM α} {rest : α → UserM Int} {s s₁ : Sys} {a : α}
    {status : Int} {text : List UInt8} (hcall : call.run s = some (a, s₁))
    (hwriter : s₁.writer = s.writer) (hrest : Ends (rest a) s₁ status text) :
    Ends (call >>= rest) s status text :=
  Ends.bind hcall (Sys.printed_nil hwriter) hrest

/-- A message is printed. -/
theorem Ends.say {rest : Unit → UserM Int} {s : Sys} {status : Int} {text after : List UInt8}
    (hstd : s.Stdout) (hzero : 0 ∉ text) (hfits : text.length < 2147483648)
    (hrest : Ends (rest ()) (s.puts text) status after) :
    Ends (say text >>= rest) s status (text ++ after) :=
  Ends.bind (say_puts hstd hzero hfits) (s.printed_puts text) hrest

/-- A last message. -/
theorem ends_say {s : Sys} (hstd : s.Stdout) {text : List UInt8} (hzero : 0 ∉ text)
    (hfits : text.length < 2147483648) (status : Int) :
    Ends (say text >>= fun _ => pure status) s status text := by
  have h : Ends (say text >>= fun _ => pure status) s status (text ++ []) :=
    Ends.say hstd hzero hfits (ends_pure _ status)
  rwa [List.append_nil] at h

/-! ## Descriptors -/

/-- A read of anything but the terminal stores what `system_read` delivers. -/
theorem ece391Read_record {img : Image} {s : Sys} {fd nbytes : Int} {res : ReadResult} {fs : FsState}
    (h : recordRead img fd nbytes s.fs = some (res, fs)) (buf : Nat → UInt8) (start : Nat) :
    (ece391Read img fd buf start nbytes).run s =
      some ((res.ret, wrote buf start res.buf), { s with fs }) := by
  unfold recordRead at h
  change ece391Read img fd buf start nbytes s = _
  unfold ece391Read
  -- the outcomes that `recordRead` has a result for
  generalize (systemRead img fd false nbytes).run accessSem s.fs = result at h ⊢
  obtain ⟨outcome, after⟩ := result
  cases outcome with
  | returned r =>
    obtain ⟨rfl, rfl⟩ := Prod.mk.inj (Option.some.inj h)
    rfl
  | device table =>
    cases table with
    | rtc =>
      obtain ⟨rfl, rfl⟩ := Prod.mk.inj (Option.some.inj h)
      rfl
    | _ => cases h
  | wild => cases h

theorem ece391Open_run (img : Image) (filename : CStr) (s : Sys) :
    (ece391Open img filename).run s =
      some (((systemOpen img (some filename)).run accessSem s.fs).1,
        { s with fs := ((systemOpen img (some filename)).run accessSem s.fs).2 }) :=
  rfl

/-- A file is closed. -/
theorem ece391Close_file {img : Image} {inode fd : Int} {s : Sys} {pos : Nat}
    (h : FileAt img inode fd s.fs pos) :
    (ece391Close fd).run s = some (0, { s with fs := s.fs.closed fd }) := by
  have hclose := systemClose_exact h.openAt.fd_nonneg h.openAt.fd_lt s.fs
  have hused : ¬ (s.fs.fdt s.fs.mainProcess fd).flags = 0 := h.openAt.occupied
  rw [h.table] at hclose
  dsimp only at hclose
  rw [if_neg hused] at hclose
  change ece391Close fd s = _
  rw [ece391Close, hclose]
  rfl

/-- An rtc is not released, although the call succeeds. -/
theorem ece391Close_rtc {fd : Int} {s : Sys} (h : RtcAt fd s.fs) :
    (ece391Close fd).run s = some (0, { s with fs := s.fs.entered }) := by
  have hclose := systemClose_exact h.fd_nonneg h.fd_lt s.fs
  rw [h.table] at hclose
  change ece391Close fd s = _
  rw [ece391Close, hclose]

/-- The string that has been stored in an array. -/
theorem cstring_eq {buf : Nat → UInt8} {text : List UInt8} (h : StringAt buf 0 text) {size : Nat}
    (hsize : text.length ≤ size) : cstring buf size = text := by
  rw [cstring, ece391Strlen_eq h hsize]
  refine List.ext_getElem (by simp) fun i h1 h2 => ?_
  have hi := h.holds i h2
  rw [Nat.zero_add] at hi
  simpa using hi

/-- The bytes that have been stored. -/
theorem holdsAt_wrote (buf : Nat → UInt8) (start : Nat) (text : List UInt8) :
    HoldsAt (wrote buf start text) start text := by
  intro i hi
  simp [wrote, List.getElem?_eq_getElem hi]

/-! ## A program that begins -/

/-- A program has just been started, with an argument. -/
structure Started (s : Sys) (arg : List UInt8) : Prop where
  fresh : Fresh s.fs
  argBuf : HoldsText s.argBuf arg
  nonzero : 0 ∉ arg
  length_lt : arg.length < 128

theorem Started.stdout {s : Sys} {arg : List UInt8} (h : Started s arg) : s.Stdout := by
  rw [Sys.Stdout, h.fresh.std 1 (by omega) (by omega)]

/-- What the call does with an argument. -/
theorem ece391Getargs_eq {s : Sys} {arg : List UInt8} (h : Started s arg) (buf : Nat → UInt8)
    {nbytes : Int} (hbytes : nbytes ≠ 0) :
    (ece391Getargs buf nbytes).run s = some
      (if arg = [] then (-1, buf) else (0, Function.update (wrote buf 0 arg) arg.length 0), s) :=
  congrArg (fun res => some (res, s)) (getargsInto_eq h.argBuf
    (fun _ hc => ne_of_mem_of_not_mem hc h.nonzero) h.length_lt hbytes buf)

/-- **The argument** is stored as a string, if there is one. -/
theorem ece391Getargs_some {s : Sys} {arg : List UInt8} (h : Started s arg) (harg : arg ≠ [])
    (buf : Nat → UInt8) {nbytes : Int} (hbytes : nbytes ≠ 0) :
    ∃ buf', (ece391Getargs buf nbytes).run s = some ((0, buf'), s) ∧ StringAt buf' 0 arg := by
  refine ⟨Function.update (wrote buf 0 arg) arg.length 0, ?_, ?_, ?_, h.nonzero⟩
  · rw [ece391Getargs_eq h buf hbytes, if_neg harg]
  · intro i hi
    rw [Nat.zero_add]
    exact (holdsText_wrote buf arg).chars i hi
  · rw [Nat.zero_add]
    exact (holdsText_wrote buf arg).terminator

/-- A program that has been started on an empty display. -/
def sampleSys (arg : CStr) : Sys := ⟨freshFsState, ⟨sampleDisplay, [], true⟩, arg.char, []⟩

theorem sampleSys_started {arg : CStr} (hzero : 0 ∉ arg) (hlt : arg.length < 128) :
    Started (sampleSys arg) arg where
  fresh :=
    { std _ h0 h2 := if_pos ⟨h0, h2⟩
      free fd h2 _ := ⟨.unset, if_neg (by omega)⟩ }
  argBuf :=
    { chars j hj := by simp [sampleSys, CStr.char, List.getElem?_eq_getElem hj]
      terminator := by simp [sampleSys, CStr.char] }
  nonzero := hzero
  length_lt := hlt

end User

end SrirachOS
