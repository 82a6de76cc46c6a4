import SrirachOS.User.Shell

/-!
# The Counter

`ece391counter.c` asks for the number of a test, and prints the numbers up to its bound, one to a line.

- `counterLoop_prints`: the loop,
- `counter_ends`: what is printed for every answer.
-/

namespace SrirachOS

open Foundation Kernel

namespace User

/-! ## ece391counter.c -/

/-- `for (i = 0; i < max; i++)`, with the number of turns left; `ece391_itoa` is `itoa`. -/
def counterLoop : Nat → Nat → (Nat → UInt8) → UserM Unit
  | 0, _, _ => pure ()
  | left + 1, i, buf => do
    let buf := itoa (i + 1) 0 10 buf
    ece391Fdputs 1 buf 0 1024
    say (ascii "\n")
    counterLoop left (i + 1) buf

/-- `switch (buf[0])`. -/
def counterMax (c : UInt8) : Nat :=
  if c = 48 then 100 else if c = 49 then 10000 else if c = 50 then 100000 else 0

/-- `main` of `ece391counter.c`. -/
def counter (img : Image) (buf : Nat → UInt8) : UserM Int := do
  say (ascii "Enter the Test Number: (0): 100, (1): 10000, (2): 100000\n")
  let (cnt, buf) ← ece391Read img 0 buf 0 1023
  if cnt = -1 then
    say (ascii "Can't read the number from keyboard.\n")
    pure 3
  else
    let buf := Function.update buf cnt.toNat 0
    let length := ece391Strlen buf 1024 0
    if length > 2 ∨ length = 2 ∧ (buf 0 < 48 ∨ buf 0 > 50) then
      say (ascii "Wrong Choice!\n")
      pure 0
    else
      counterLoop (counterMax (buf 0)) 0 buf
      pure 0

/-! ## The answers -/

/-- The numbers from 1 on, one to a line. -/
def numbers (max : Nat) : List UInt8 := (List.range max).flatMap fun i => numeral 10 (i + 1) ++ ascii "\n"

/-- What is printed for an answer; an empty one has no numbers. -/
def counterAnswer : List UInt8 → List UInt8
  | [] => []
  | [c] => if c < 48 ∨ 50 < c then ascii "Wrong Choice!\n" else numbers (counterMax c)
  | _ :: _ :: _ => ascii "Wrong Choice!\n"

/-- **The loop** prints the numbers that are left. -/
theorem counterLoop_prints {s : Sys} (h : s.Stdout) (left i : Nat) (hbound : i + left < 4294967296)
    (buf : Nat → UInt8) :
    ∃ s', (counterLoop left i buf).run s = some ((), s') ∧
      s.Printed s' ((List.range' i left).flatMap fun i => numeral 10 (i + 1) ++ ascii "\n") := by
  induction left generalizing s i buf with
  | zero => exact ⟨s, rfl, Sys.printed_nil rfl⟩
  | succ left ih =>
    have hstring := (itoa_string (show 2 ≤ 10 by decide) (by decide) (show i + 1 < 2 ^ 32 by omega) 0 buf).1
    have hlength := numeral_length (show 2 ≤ 10 by decide) (show 0 < 10 by decide)
      (show i + 1 < 10 ^ 10 by omega)
    have hnewline : (say (ascii "\n")).run (s.puts (numeral 10 (i + 1))) =
        some ((), (s.puts (numeral 10 (i + 1))).puts (ascii "\n")) :=
      say_puts (h.puts _) (by decide) (by decide)
    obtain ⟨s', hrun, hprinted⟩ := ih (s := (s.puts (numeral 10 (i + 1))).puts (ascii "\n")) h
      (i + 1) (by omega) (itoa (i + 1) 0 10 buf)
    refine ⟨s', ?_, ?_⟩
    · rw [counterLoop, run_bind_of (fdputs_puts h hstring (by omega) (by omega)), run_bind_of hnewline]
      exact hrun
    · rw [List.range'_succ, List.flatMap_cons]
      exact (s.printed_puts _).trans ((s.puts _).printed_puts _) |>.trans hprinted

/-- The line in the buffer, with its newline. -/
theorem stringAt_terminated (buf : Nat → UInt8) {text : List UInt8} (hzero : 0 ∉ text) :
    StringAt (Function.update (wrote buf 0 text) text.length 0) 0 text := by
  refine ⟨(holdsAt_wrote buf 0 text).congr fun i hlow hhigh => ?_, ?_, hzero⟩
  · exact Function.update_of_ne (by omega) ..
  · rw [Nat.zero_add, Function.update_self]

/-- **What the counter prints**, for every answer: the numbers from 1 to 100, 10000 or 100000 for one of
the three digits, nothing for an empty line, and that the choice was wrong for everything else. -/
theorem counter_ends {img : Image} {s : Sys} (h : s.Stdio) {line : List UInt8} {rest : List (List UInt8)}
    (hlines : s.lines = (line ++ [10]) :: rest) (htyped : Typed line) (buf : Nat → UInt8) :
    Ends (counter img buf) s 0
      (ascii "Enter the Test Number: (0): 100, (1): 10000, (2): 100000\n" ++ counterAnswer line) := by
  have hlength := htyped.length_lt
  have hzero : 0 ∉ line ++ [10] := by simpa using htyped.zero
  have hstring := stringAt_terminated buf hzero
  rw [List.length_append, List.length_singleton] at hstring
  have hcnt : ((line.length : Int) + 1).toNat = line.length + 1 := by omega
  refine Ends.say h.stdout (by decide) (by decide) ?_
  refine Ends.silent (ece391Read_line (h.puts _) hlines htyped.newline buf 0 1023) rfl ?_
  dsimp only
  rw [if_neg (by omega), hcnt, ece391Strlen_eq hstring (by simp; omega), List.length_append,
    List.length_singleton]
  have hstd := ((h.puts (ascii "Enter the Test Number: (0): 100, (1): 10000, (2): 100000\n")).took rest).stdout
  generalize (s.puts (ascii "Enter the Test Number: (0): 100, (1): 10000, (2): 100000\n")).took rest = s₁
    at hstd ⊢
  generalize Function.update (wrote buf 0 (line ++ [10])) (line.length + 1) 0 = buf' at hstring ⊢
  -- the answers that are counted, and those that are not
  have hcount : ∀ max ≤ 100000, Ends (do counterLoop max 0 buf'; pure 0) s₁ 0 (numbers max) := by
    intro max hmax
    obtain ⟨s', hrun, hprinted⟩ := counterLoop_prints hstd max 0 (by omega) buf'
    exact ⟨s', by rw [run_bind_of hrun]; rfl, by rwa [numbers, List.range_eq_range']⟩
  have hwrong : Ends (do say (ascii "Wrong Choice!\n"); pure 0) s₁ 0 (ascii "Wrong Choice!\n") :=
    ends_say hstd (by decide) (by decide) 0
  have hmax : ∀ c, counterMax c ≤ 100000 := by
    intro c
    unfold counterMax
    split_ifs <;> omega
  cases line with
  | nil =>
    have hbyte : buf' 0 = 10 := (stringAt_cons.mp hstring).1
    rw [if_neg (by simp), hbyte]
    exact hcount (counterMax 10) (hmax 10)
  | cons c line =>
    have hbyte : buf' 0 = c := (stringAt_cons.mp hstring).1
    rw [hbyte]
    cases line with
    | nil =>
      rw [counterAnswer]
      by_cases hdigit : c < 48 ∨ 50 < c
      · rw [if_pos hdigit, if_pos (.inr ⟨rfl, hdigit⟩)]
        exact hwrong
      · rw [if_neg hdigit, if_neg (by simpa using hdigit)]
        exact hcount (counterMax c) (hmax c)
    | cons d line =>
      rw [if_pos (.inl (by simp))]
      exact hwrong

/-- The first test counts to 100. -/
theorem counter_ends_sample :
    Ends (counter sampleImage fun _ => 0) { sampleSys [] with lines := [ascii "0" ++ [10]] } 0
      (ascii "Enter the Test Number: (0): 100, (1): 10000, (2): 100000\n" ++ numbers 100) := by
  have hstdio : Sys.Stdio { sampleSys [] with lines := [ascii "0" ++ [10]] } := ⟨rfl, rfl⟩
  exact counter_ends hstdio rfl ⟨by decide, by decide, by decide⟩ _

end User

end SrirachOS
