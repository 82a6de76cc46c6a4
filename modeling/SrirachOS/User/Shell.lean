import SrirachOS.User.Sys

/-!
# The Shell

`ece391shell.c` reads a line, executes it, and prints a message that depends on the status of the program,
until the line is `exit`. The program that a line names is run by `ece391_execute`; here it is any
computation that may print, take lines of its own and change the descriptors of the system.

- `ece391Read_line`: a line that is read from the terminal,
- `shellLoop_step`: one line,
- `shell_ends`: a session, from the banner to `exit`.
-/

namespace SrirachOS

open Foundation Kernel

namespace User

/-! ## ece391shell.c -/

/-- The message for what `ece391_execute` returns. -/
def reportStatus (rval : Int) : UserM Unit :=
  if rval = -1 then say (ascii "no such command\n")
  else if rval = 256 then say (ascii "program terminated by exception\n")
  else if rval ≠ 0 then say (ascii "program terminated abnormally\n")
  else pure ()

/-- `while (1)` of the shell, with the number of turns left. -/
def shellLoop (img : Image) (execute : CStr → UserM Int) : Nat → (Nat → UInt8) → UserM Int
  | 0, _ => failure
  | turns + 1, buf => do
    say (ascii "391OS> ")
    let (cnt, buf) ← ece391Read img 0 buf 0 1023
    if cnt = -1 then
      say (ascii "read from keyboard failed\n")
      pure 3
    else
      let cnt := if 0 < cnt ∧ buf (cnt - 1).toNat = 10 then cnt - 1 else cnt
      let buf := Function.update buf cnt.toNat 0
      if ece391Strcmp buf (CStr.char (ascii "exit")) 1024 0 0 = 0 then pure 0
      else if buf 0 = 0 then shellLoop img execute turns buf
      else
        let rval ← execute (cstring buf 1024)
        reportStatus rval
        shellLoop img execute turns buf

/-- `main` of `ece391shell.c`. -/
def shell (img : Image) (execute : CStr → UserM Int) (turns : Nat) (buf : Nat → UInt8) : UserM Int := do
  say (ascii "Starting 391 Shell\n")
  shellLoop img execute turns buf

/-! ## Sessions -/

/-- The process reads from its terminal, and writes to it. -/
structure Sys.Stdio (s : Sys) : Prop where
  stdin : (s.fs.fdt s.fs.mainProcess 0).fOps = .terminal
  stdout : s.Stdout

/-- A line has been taken from the terminal. -/
def Sys.took (s : Sys) (rest : List (List UInt8)) : Sys := { s with fs := s.fs.entered, lines := rest }

theorem Sys.Stdio.puts {s : Sys} (h : s.Stdio) (text : List UInt8) : (s.puts text).Stdio := ⟨h.1, h.2⟩

theorem Sys.Stdio.took {s : Sys} (h : s.Stdio) (rest : List (List UInt8)) : (s.took rest).Stdio := ⟨h.1, h.2⟩

theorem Sys.printed_took (s : Sys) (text : List UInt8) (rest : List (List UInt8)) :
    s.Printed ((s.puts text).took rest) text := ⟨rfl, rfl⟩

/-- A line that can be typed: without its newline, and without a zero. -/
structure Typed (line : List UInt8) : Prop where
  newline : 10 ∉ line
  zero : 0 ∉ line
  length_lt : line.length < 128

/-- What is printed behind the output of a program; a status of `system_halt` is one byte. -/
def message (status : Int) : List UInt8 :=
  if status = -1 then ascii "no such command\n"
  else if status = 0 then []
  else ascii "program terminated abnormally\n"

/-- After the message, if there is one. -/
def Sys.reported (s : Sys) (status : Int) : Sys := if status = 0 then s else s.puts (message status)

/-- The prompt of the shell. -/
def prompt : List UInt8 := ascii "391OS> "

/-- The first `n` lines of a session that are not `exit`, and what is on the terminal after them. -/
inductive Session (execute : CStr → UserM Int) : Nat → Sys → List UInt8 → Sys → Prop
  | done (s : Sys) : Session execute 0 s [] s
  /-- an empty line -/
  | blank {n : Nat} {s s' : Sys} {rest : List (List UInt8)} {text : List UInt8}
      (hlines : s.lines = [10] :: rest) (hrest : Session execute n ((s.puts prompt).took rest) text s') :
      Session execute (n + 1) s (prompt ++ text) s'
  /-- a command, with the output of its program -/
  | command {n : Nat} {s s₁ s' : Sys} {line : List UInt8} {rest : List (List UInt8)} {status : Int}
      {output text : List UInt8} (hlines : s.lines = (line ++ [10]) :: rest) (htyped : Typed line)
      (hline : line ≠ [] ∧ line ≠ ascii "exit")
      (hrun : (execute line).run ((s.puts prompt).took rest) = some (status, s₁))
      (hprinted : ((s.puts prompt).took rest).Printed s₁ output) (hstdio : s₁.Stdio)
      (hstatus : status = -1 ∨ 0 ≤ status ∧ status < 256)
      (hrest : Session execute n (s₁.reported status) text s') :
      Session execute (n + 1) s (prompt ++ output ++ message status ++ text) s'

/-! ## One line -/

/-- **A line is read**: the whole of it, with its newline, whatever the size that is asked for. -/
theorem ece391Read_line {img : Image} {s : Sys} (h : s.Stdio) {line : List UInt8}
    {rest : List (List UInt8)} (hlines : s.lines = (line ++ [10]) :: rest) (hline : 10 ∉ line)
    (buf : Nat → UInt8) (start : Nat) (nbytes : Int) :
    (ece391Read img 0 buf start nbytes).run s =
      some (((line.length : Int) + 1, wrote buf start (line ++ [10])), s.took rest) := by
  have hcall := systemRead_dispatch img (show (0 : Int) ≤ 0 by decide) (by decide) nbytes s.fs
  rw [h.stdin] at hcall
  have hlength : (myStrlen (line ++ [10]) : Int) = (line.length : Int) + 1 := by
    rw [myStrlen_line hline]
    simp
  change ece391Read img 0 buf start nbytes s = _
  unfold ece391Read
  rw [hcall, hlines]
  simp [terminalRead, hlength, Sys.took]

/-- The line in the buffer, once its newline has been replaced. -/
theorem stringAt_line (buf : Nat → UInt8) {line : List UInt8} (h : Typed line) :
    StringAt (Function.update (wrote buf 0 (line ++ [10])) line.length 0) 0 line := by
  have hheld := holdsAt_wrote buf 0 (line ++ [10])
  rw [holdsAt_append] at hheld
  refine ⟨hheld.1.congr fun i hlow hhigh => ?_, ?_, h.zero⟩
  · exact Function.update_of_ne (by omega) ..
  · rw [Nat.zero_add, Function.update_self]

/-- **The message** for the status of a program. -/
theorem reportStatus_reported {s : Sys} (h : s.Stdout) {status : Int}
    (hstatus : status = -1 ∨ 0 ≤ status ∧ status < 256) :
    (reportStatus status).run s = some ((), s.reported status) ∧
      s.Printed (s.reported status) (message status) := by
  by_cases hzero : status = 0
  · subst hzero
    exact ⟨rfl, Sys.printed_nil rfl⟩
  · rw [Sys.reported, if_neg hzero]
    refine ⟨?_, s.printed_puts (message status)⟩
    obtain rfl | hbyte := hstatus
    · exact say_puts h (by decide) (by decide)
    · have hrefused : status ≠ -1 := by omega
      have hexception : status ≠ 256 := by omega
      rw [reportStatus, if_neg hrefused, if_neg hexception, if_pos hzero, message, if_neg hrefused,
        if_neg hzero]
      exact say_puts h (by decide) (by decide)

theorem Sys.Stdio.reported {s : Sys} (h : s.Stdio) (status : Int) : (s.reported status).Stdio := by
  unfold Sys.reported
  split_ifs
  · exact h
  · exact h.puts _

/-! ## The loop -/

/-- What a turn of the loop does with a line. -/
theorem shellLoop_step (img : Image) (execute : CStr → UserM Int) {s : Sys} (h : s.Stdio) {line : List UInt8}
    {rest : List (List UInt8)} (hlines : s.lines = (line ++ [10]) :: rest) (htyped : Typed line)
    (turns : Nat) (buf : Nat → UInt8) :
    ∃ buf', (shellLoop img execute (turns + 1) buf).run s =
      (if line = ascii "exit" then pure 0
        else if line = [] then shellLoop img execute turns buf'
        else do
          let rval ← execute line
          reportStatus rval
          shellLoop img execute turns buf').run ((s.puts prompt).took rest) := by
  have hstring := stringAt_line buf htyped
  have hlength := htyped.length_lt
  have hexit := ece391Strcmp_eq_zero hstring (stringAt_char (show 0 ∉ ascii "exit" by decide))
    (show line.length < 1024 by omega)
  have hbyte : wrote buf 0 (line ++ [10]) line.length = 10 := by
    have hheld := holdsAt_wrote buf 0 (line ++ [10])
    simpa [HoldsAt] using hheld line.length (by simp)
  have hempty : Function.update (wrote buf 0 (line ++ [10])) line.length 0 0 = 0 ↔ line = [] := by
    cases line with
    | nil => simp
    | cons c line => simpa [wrote] using fun hc : c = 0 => htyped.zero (hc ▸ List.mem_cons_self)
  have hsay : (say (ascii "391OS> ")).run s = some ((), s.puts prompt) :=
    say_puts h.stdout (by decide) (by decide)
  have hcnt : ((line.length : Int) + 1 - 1).toNat = line.length := by omega
  have hnewline : 0 < (line.length : Int) + 1 ∧
      wrote buf 0 (line ++ [10]) ((line.length : Int) + 1 - 1).toNat = 10 := ⟨by omega, by rw [hcnt, hbyte]⟩
  refine ⟨Function.update (wrote buf 0 (line ++ [10])) line.length 0, ?_⟩
  rw [shellLoop, run_bind_of hsay,
    run_bind_of (ece391Read_line (h.puts prompt) hlines htyped.newline buf 0 1023)]
  dsimp only
  rw [if_neg (by omega), if_pos hnewline, hcnt, cstring_eq hstring (by omega)]
  simp only [hexit, hempty]

/-- **Some lines** are executed, as long as none of them is `exit`. -/
theorem shellLoop_session {img : Image} {execute : CStr → UserM Int} {n : Nat} {s s' : Sys}
    {text after : List UInt8} {status : Int} {turns : Nat} (h : s.Stdio) (hsession : Session execute n s text s')
    (hrest : ∀ buf, s'.Stdio → Ends (shellLoop img execute turns buf) s' status after)
    (buf : Nat → UInt8) : Ends (shellLoop img execute (turns + n) buf) s status (text ++ after) := by
  induction hsession generalizing buf with
  | done s => exact hrest buf h
  | @blank n s s' rest text hlines hblank ih =>
    obtain ⟨buf', hstep⟩ := shellLoop_step img execute h
      (show s.lines = ([] ++ [10]) :: rest from hlines) ⟨by simp, by simp, by simp⟩ (turns + n) buf
    obtain ⟨out, hrun, hprinted⟩ := ih ((h.puts prompt).took rest) hrest buf'
    refine ⟨out, ?_, ?_⟩
    · rw [← Nat.add_assoc, hstep, if_neg (by decide), if_pos rfl]
      exact hrun
    · rw [List.append_assoc]
      exact (s.printed_took prompt rest).trans hprinted
  | @command n s s₁ s' line rest code output text hlines htyped hline hexecute houtput hstdio hcode hcommand ih =>
    obtain ⟨buf', hstep⟩ := shellLoop_step img execute h hlines htyped (turns + n) buf
    obtain ⟨hreport, hmessage⟩ := reportStatus_reported hstdio.stdout hcode
    obtain ⟨out, hrun, hprinted⟩ := ih (hstdio.reported code) hrest buf'
    refine ⟨out, ?_, ?_⟩
    · rw [← Nat.add_assoc, hstep, if_neg hline.2, if_neg hline.1, run_bind_of hexecute, run_bind_of hreport]
      exact hrun
    · simpa only [List.append_assoc] using
        (((s.printed_took prompt rest).trans houtput).trans hmessage).trans hprinted

/-- **A session** prints the banner, for each line the prompt, the output of its program and the message
for its status, and at `exit` one prompt more; then the shell returns 0. The message about an exception is
never printed. -/
theorem shell_ends {img : Image} {execute : CStr → UserM Int} {n : Nat} {s s' : Sys} {text : List UInt8}
    {rest : List (List UInt8)} (h : s.Stdio)
    (hsession : Session execute n (s.puts (ascii "Starting 391 Shell\n")) text s')
    (hexit : s'.lines = (ascii "exit" ++ [10]) :: rest) {turns : Nat} (hturns : n < turns)
    (buf : Nat → UInt8) :
    Ends (shell img execute turns buf) s 0 (ascii "Starting 391 Shell\n" ++ (text ++ prompt)) := by
  obtain ⟨turns, rfl⟩ : ∃ m, turns = m + 1 + n := ⟨turns - 1 - n, by omega⟩
  refine Ends.say h.stdout (by decide) (by decide) ?_
  refine shellLoop_session (h.puts _) hsession (fun buf' hstdio => ?_) buf
  obtain ⟨buf'', hstep⟩ := shellLoop_step img execute hstdio hexit
    ⟨by decide, by decide, by decide⟩ turns buf'
  exact ⟨(s'.puts prompt).took rest, by rw [hstep, if_pos rfl]; rfl, s'.printed_took prompt rest⟩

/-- A terminal on which a line with no program, an empty line and `exit` are typed. -/
def typedSys : Sys :=
  { sampleSys [] with lines := [ascii "x" ++ [10], [10], ascii "exit" ++ [10]] }

theorem typedSys_stdio : typedSys.Stdio where
  stdin := rfl
  stdout := rfl

theorem shell_ends_sample :
    Ends (shell sampleImage (fun _ => pure (-1)) 3 fun _ => 0) typedSys 0
      (ascii "Starting 391 Shell\n" ++ (prompt ++ [] ++ message (-1) ++ (prompt ++ []) ++ prompt)) := by
  have hblank : Session (fun _ => pure (-1)) 1
      (((typedSys.puts (ascii "Starting 391 Shell\n")).puts prompt).took
        [[10], ascii "exit" ++ [10]] |>.reported (-1)) (prompt ++ []) _ :=
    .blank (n := 0) rfl (.done _)
  have hline : typedSys.lines = (ascii "x" ++ [10]) :: [[10], ascii "exit" ++ [10]] := rfl
  exact shell_ends typedSys_stdio (.command hline ⟨by decide, by decide, by decide⟩ (by decide) rfl
    (Sys.printed_nil rfl) ((typedSys_stdio.puts _).puts _ |>.took _) (.inl rfl) hblank) rfl (by decide) _

end User

end SrirachOS
