import SrirachOS.Foundation.Lines
import SrirachOS.User.Sys

/-!
# grep in One File

`do_one_file` reads a file into an array of 1024 bytes and searches it line by line. What is left behind
the last newline is moved to the front of the array, and the next read goes on behind it.

- `searchLine_run`: one line is printed exactly when the pattern occurs in it,
- `grepLines_text`: the lines of the array are answered, and what is left of the last one is at the front,
- `grepReads_text`: hence the lines of a text are answered in order, however the reads cut it,
- `doOneFile_text`: a file is opened, searched and closed.
-/

namespace SrirachOS

open Foundation Kernel

namespace User

/-! ## The code -/

/-- `while (line_end < last && '\n' != data[line_end])`, with the number of turns left. -/
def lineEndFrom (data : Nat → UInt8) : Nat → Nat → Nat
  | 0, lineEnd => lineEnd
  | turns + 1, lineEnd => if data lineEnd = 10 then lineEnd else lineEndFrom data turns (lineEnd + 1)

/-- What is printed of a line in which the pattern has been found. -/
def printMatch (fname data : Nat → UInt8) (lineStart : Nat) : UserM Unit := do
  ece391Fdputs 1 fname 0 33
  say (ascii ":")
  ece391Fdputs 1 data lineStart (1025 - lineStart)
  say (ascii "\n")

/-- `for (check = line_start; check < line_end; check++)`, with the number of turns left. The pattern is a
`char *`, whose first character is compared with a byte of the array before `ece391_strncmp` is called. -/
def searchLine (s : Nat → UInt8) (sLen : Nat) (fname data : Nat → UInt8) (lineStart : Nat) :
    Nat → Nat → UserM Unit
  | 0, _ => pure ()
  | turns + 1, check =>
    if i8 (s 0) = (data check).toNat ∧ ece391Strncmp data s sLen check 0 = 0 then printMatch fname data lineStart
    else searchLine s sLen fname data lineStart turns (check + 1)

/-- The inner `while (1)`, with the number of turns left: the array and `last` when it is left. -/
def grepLines (s : Nat → UInt8) (sLen : Nat) (fname : Nat → UInt8) (cnt : Int) (last : Nat) :
    Nat → (Nat → UInt8) → Nat → UserM ((Nat → UInt8) × Nat)
  | 0, _, _ => failure
  | turns + 1, data, lineStart =>
    let lineEnd := lineEndFrom data (last - lineStart) lineStart
    if data lineEnd ≠ 10 ∧ cnt ≠ 0 ∧ lineStart ≠ 0 then
      let data := Function.update data lineEnd 0
      pure (ece391Strcpy (1025 - lineStart) 0 lineStart data, last - lineStart)
    else do
      let data := Function.update data lineEnd 0
      searchLine s sLen fname data lineStart (lineEnd - lineStart) lineStart
      if lineEnd + 1 ≥ last then pure (data, 0)
      else grepLines s sLen fname cnt last turns data (lineEnd + 1)

/-- The outer `while (1)` and what follows it, with the number of turns left. Each turn of the inner loop
ends behind another byte of the array. -/
def grepReads (img : Image) (s : Nat → UInt8) (sLen : Nat) (fname : Nat → UInt8) (fd : Int) :
    Nat → (Nat → UInt8) → Nat → UserM Int
  | 0, _, _ => failure
  | turns + 1, data, last => do
    let (cnt, data) ← ece391Read img fd data last (1024 - last)
    if cnt = -1 then
      say (ascii "file read failed\n")
      pure (-1)
    else
      let (data, last) ← grepLines s sLen fname cnt (last + cnt.toNat) 1025 data 0
      if cnt = 0 then
        if (← ece391Close fd) = -1 then
          say (ascii "file close failed\n")
          pure (-1)
        else pure 0
      else grepReads img s sLen fname fd turns data last

/-- `do_one_file(s, fname)`; `data` is not initialised. -/
def doOneFile (img : Image) (turns : Nat) (s fname data : Nat → UInt8) : UserM Int := do
  let sLen := ece391Strlen s 1024 0
  let fd ← ece391Open img (cstring fname 33)
  if fd = -1 then
    say (ascii "file open failed\n")
    pure (-1)
  else grepReads img s sLen fname fd turns data 0

/-! ## One line -/

/-- The scan ends at the first newline, or at the end. -/
theorem lineEndFrom_eq {data : Nat → UInt8} {i turns : Nat} {line : List UInt8}
    (h : HoldsAt data i line) (hline : 10 ∉ line)
    (hend : turns = line.length ∨ line.length < turns ∧ data (i + line.length) = 10) :
    lineEndFrom data turns i = i + line.length := by
  induction line generalizing i turns with
  | nil =>
    rcases hend with rfl | ⟨hlt, hnewline⟩
    · rfl
    · obtain ⟨turns, rfl⟩ : ∃ n, turns = n + 1 := ⟨turns - 1, by simp at hlt; omega⟩
      exact if_pos hnewline
  | cons c line ih =>
    obtain ⟨turns, rfl⟩ : ∃ n, turns = n + 1 := ⟨turns - 1, by simp at hend; omega⟩
    obtain ⟨hc, hrest⟩ := holdsAt_cons.mp h
    simp only [List.mem_cons, not_or] at hline
    have hsum : i + (c :: line).length = i + 1 + line.length := by simp; omega
    rw [lineEndFrom, if_neg (by rw [hc]; exact Ne.symm hline.1), hsum]
    rw [hsum] at hend
    exact ih hrest hline.2 (by simpa using hend)

/-- The pattern, the name of the file and their arrays. -/
structure Searching (s fname : Nat → UInt8) (pattern name : List UInt8) : Prop where
  holdsPattern : StringAt s 0 pattern
  pattern_ne : pattern ≠ []
  /-- as a `char`, the first character is the byte that it is -/
  first_lt : (s 0).toNat < 128
  pattern_le : pattern.length ≤ 1024
  holdsName : StringAt fname 0 name
  name_le : name.length ≤ 33

/-- What is printed for a line. -/
def matchLine (pattern name line : List UInt8) : List UInt8 :=
  if pattern <:+: line then name ++ (58 :: (line ++ [10])) else []

theorem matchLine_nil {pattern name : List UInt8} (h : pattern ≠ []) : matchLine pattern name [] = [] :=
  if_neg (by simpa using h)

section

variable {s fname data : Nat → UInt8} {pattern name line : List UInt8} {x : Sys} {lineStart : Nat}

theorem printMatch_run (h : Searching s fname pattern name) (hstd : x.Stdout)
    (hline : StringAt data lineStart line) (hfits : lineStart + line.length ≤ 1024) :
    (printMatch fname data lineStart).run x = some ((), x.puts (name ++ (58 :: (line ++ [10])))) := by
  have hname := h.name_le
  have hfirst := fdputs_puts hstd h.holdsName h.name_le (by omega)
  have hcolon := say_puts (hstd.puts name) (show 0 ∉ ascii ":" by decide) (by decide)
  have htext := fdputs_puts ((hstd.puts name).puts (ascii ":")) hline
    (show line.length ≤ 1025 - lineStart by omega) (by omega)
  have hlast := say_puts (((hstd.puts name).puts (ascii ":")).puts line)
    (show 0 ∉ ascii "\n" by decide) (by decide)
  rw [printMatch, run_bind_of hfirst, run_bind_of hcolon, run_bind_of htext, hlast]
  simp only [Sys.puts_puts, List.append_assoc]
  rfl

/-- One comparison finds the pattern where it stands in the line. -/
theorem comparison_iff (h : Searching s fname pattern name) (check : Nat) :
    i8 (s 0) = (data check).toNat ∧ ece391Strncmp data s pattern.length check 0 = 0 ↔
      HoldsAt data check pattern := by
  rw [ece391Strncmp_eq_zero h.holdsPattern.holds h.holdsPattern.nonzero, i8_eq_toNat_iff,
    and_iff_right_iff_imp]
  intro hfound
  have hpos := List.length_pos_iff.mpr h.pattern_ne
  exact ⟨(h.holdsPattern.holds 0 hpos).trans (hfound 0 hpos).symm, h.first_lt⟩

/-- A pattern that begins with a byte from 128 on is found nowhere. -/
theorem searchLine_foreign (hfirst : 128 ≤ (s 0).toNat) (sLen turns check : Nat) :
    (searchLine s sLen fname data lineStart turns check).run x = some ((), x) := by
  induction turns generalizing check with
  | zero => rfl
  | succ turns ih =>
    have hne : ¬ (i8 (s 0) = (data check).toNat ∧ ece391Strncmp data s sLen check 0 = 0) :=
      fun h => absurd (i8_eq_toNat_iff.mp h.1).2 (by omega)
    rw [searchLine, if_neg hne]
    exact ih (check + 1)

/-- **A line is printed** exactly when the pattern occurs in it. -/
theorem searchLine_run (h : Searching s fname pattern name) (hstd : x.Stdout)
    (hline : StringAt data lineStart line) (hfits : lineStart + line.length ≤ 1024) :
    (searchLine s pattern.length fname data lineStart line.length lineStart).run x =
      some ((), if pattern <:+: line then x.puts (matchLine pattern name line) else x) := by
  -- by the characters that are still to be checked; the pattern is at none of those before
  suffices hloop : ∀ turns i, i + turns = line.length →
      (∀ j < i, ¬ HoldsAt data (lineStart + j) pattern) →
      (searchLine s pattern.length fname data lineStart turns (lineStart + i)).run x =
        some ((), if pattern <:+: line then x.puts (matchLine pattern name line) else x) from
    hloop line.length 0 (Nat.zero_add _) (by simp)
  have hwhere := hline.infix_iff h.pattern_ne h.holdsPattern.nonzero
  intro turns
  induction turns with
  | zero =>
    intro i hi hnone
    have hmiss : ¬ pattern <:+: line := fun hin => by
      obtain ⟨j, hj, hat⟩ := hwhere.mp hin
      exact hnone j (by omega) hat
    rw [if_neg hmiss]
    rfl
  | succ turns ih =>
    intro i hi hnone
    rw [searchLine]
    by_cases hat : HoldsAt data (lineStart + i) pattern
    · have hin := hwhere.mpr ⟨i, by omega, hat⟩
      rw [if_pos ((comparison_iff h _).mpr hat), if_pos hin, printMatch_run h hstd hline hfits,
        matchLine, if_pos hin]
    · rw [if_neg (mt (comparison_iff h _).mp hat), Nat.add_assoc]
      exact ih (i + 1) (by omega) fun j hj => by
        rcases Nat.lt_succ_iff_lt_or_eq.mp hj with hlt | rfl
        · exact hnone j hlt
        · exact hat

/-- The same, as a text that is printed. -/
theorem searchLine_prints (h : Searching s fname pattern name) (hstd : x.Stdout)
    (hentered : x.fs.entered = x.fs) (hline : StringAt data lineStart line)
    (hfits : lineStart + line.length ≤ 1024) :
    ∃ x', (searchLine s pattern.length fname data lineStart line.length lineStart).run x =
      some ((), x') ∧ x.Printed x' (matchLine pattern name line) ∧ x'.fs = x.fs := by
  have hrun := searchLine_run h hstd hline hfits
  by_cases hin : pattern <:+: line
  · rw [if_pos hin] at hrun
    exact ⟨_, hrun, x.printed_puts _, hentered⟩
  · rw [if_neg hin] at hrun
    rw [matchLine, if_neg hin]
    exact ⟨_, hrun, Sys.printed_nil rfl, rfl⟩

end

/-! ## The lines of the array -/

/-- The array holds the beginning of a line, and room for more. -/
structure Pending (data : Nat → UInt8) (left : List UInt8) : Prop where
  holds : HoldsAt data 0 left
  length_lt : left.length < 1024
  nonzero : 0 ∉ left
  /-- the last byte of the array is no newline -/
  guard : data 1024 ≠ 10

/-- No line of the text is longer than the array. -/
def ShortLines (text : List UInt8) : Prop := ∀ l ∈ text.splitOn 10, l.length ≤ 1024

instance (text : List UInt8) : Decidable (ShortLines text) :=
  inferInstanceAs (Decidable (∀ l ∈ text.splitOn 10, l.length ≤ 1024))

theorem ShortLines.tail {line text : List UInt8} (h : ShortLines (line ++ 10 :: text)) :
    ShortLines text :=
  fun l hl => h l (mem_splitOn_of_tail hl line)

theorem ShortLines.of_cut {line text : List UInt8} (h : ShortLines (line ++ text))
    (hcut : text = [] ∨ text.head? = some 10) : ShortLines text := by
  intro l hl
  rcases mem_splitOn_of_cut hcut hl line with rfl | hmem
  · exact Nat.zero_le _
  · exact h l hmem

/-- What is printed for a text. -/
def grepText (pattern name text : List UInt8) : List UInt8 := perLine 10 (matchLine pattern name) text

theorem grepText_nil {pattern : List UInt8} (h : pattern ≠ []) (name : List UInt8) :
    grepText pattern name [] = [] :=
  perLine_nil (matchLine_nil h)

/-- How the inner loop is left: with what it has printed, and with what is still to be answered. -/
structure Searched (pattern name : List UInt8) (cnt : Int) (text rest : List UInt8) (x x' : Sys)
    (data : Nat → UInt8) (out left : List UInt8) : Prop where
  printed : x.Printed x' out
  fs : x'.fs = x.fs
  pending : Pending data left
  answered : grepText pattern name (text ++ rest) = out ++ grepText pattern name (left ++ rest)
  short : ShortLines (left ++ rest)
  done : cnt = 0 → left = []

/-- An array is changed at the end of a line only. -/
theorem guard_update {data : Nat → UInt8} (h : data 1024 ≠ 10) (i : Nat) :
    Function.update data i 0 1024 ≠ 10 := by
  by_cases hi : 1024 = i
  · rw [hi, Function.update_self]
    decide
  · rwa [Function.update_of_ne hi]

theorem stringAt_update {data : Nat → UInt8} {i : Nat} {line : List UInt8} (h : HoldsAt data i line)
    (hzero : 0 ∉ line) : StringAt (Function.update data (i + line.length) 0) i line where
  holds := h.congr fun j _ hj => Function.update_of_ne (by omega) ..
  terminator := Function.update_self ..
  nonzero := hzero

section

variable {s fname : Nat → UInt8} {pattern name : List UInt8}

/-- **The inner loop** answers the lines of the array. What is behind the last newline is moved to the
front, unless the file has ended. -/
theorem grepLines_text (h : Searching s fname pattern name) {cnt : Int} {last : Nat}
    {rest : List UInt8} (hend : cnt = 0 ∨ last < 1024 → rest = []) {turns : Nat}
    {text : List UInt8} {data : Nat → UInt8} {lineStart : Nat} {x : Sys} (hstd : x.Stdout)
    (hentered : x.fs.entered = x.fs) (hdata : HoldsAt data lineStart text)
    (hlast : lineStart + text.length = last) (hle : last ≤ 1024) (hzero : 0 ∉ text)
    (hguard : data 1024 ≠ 10) (hshort : ShortLines (text ++ rest)) (hturns : text.length < turns) :
    ∃ data' x' out left, (grepLines s pattern.length fname cnt last turns data lineStart).run x =
      some ((data', left.length), x') ∧ Searched pattern name cnt text rest x x' data' out left := by
  induction turns generalizing text data lineStart x with
  | zero => omega
  | succ turns ih =>
    by_cases hnl : 10 ∈ text
    · -- the first line of the array is complete
      obtain ⟨line, text', rfl, hline⟩ := List.eq_append_cons_of_mem hnl
      obtain ⟨hfront, hback⟩ := holdsAt_append.mp hdata
      obtain ⟨hnewline, hback⟩ := holdsAt_cons.mp hback
      simp only [List.length_append, List.length_cons] at hlast hturns
      have hzeros : 0 ∉ line ∧ 0 ∉ text' := by
        simp only [List.mem_append, List.mem_cons, not_or] at hzero
        exact ⟨hzero.1, hzero.2.2⟩
      have hlineEnd : lineEndFrom data (last - lineStart) lineStart = lineStart + line.length :=
        lineEndFrom_eq hfront hline (.inr ⟨by omega, hnewline⟩)
      obtain ⟨x₁, hsearch, hprinted, hfs⟩ := searchLine_prints h hstd hentered
        (stringAt_update hfront hzeros.1) (by omega)
      have hanswer : grepText pattern name (line ++ 10 :: text' ++ rest) =
          matchLine pattern name line ++ grepText pattern name (text' ++ rest) := by
        rw [List.append_assoc, List.cons_append]
        exact perLine_line hline _
      have hshort' : ShortLines (text' ++ rest) := by
        rw [List.append_assoc, List.cons_append] at hshort
        exact hshort.tail
      have hguard' := guard_update hguard (lineStart + line.length)
      rw [grepLines, hlineEnd]
      dsimp only
      rw [if_neg (by simp [hnewline]), Nat.add_sub_cancel_left, run_bind_of hsearch]
      by_cases htext : text' = []
      · subst htext
        rw [if_pos (by simp at hlast; omega)]
        exact ⟨_, x₁, _, [], rfl, hprinted, hfs, ⟨holdsAt_nil, by simp, by simp, hguard'⟩, hanswer,
          hshort', fun _ => rfl⟩
      · have hpos := List.length_pos_iff.mpr htext
        rw [if_neg (by omega)]
        obtain ⟨data', x', out, left, hrun, hdone⟩ := ih (x := x₁) (by rw [Sys.Stdout, hfs]; exact hstd)
          (by rw [hfs]; exact hentered) (hback.congr fun i hi _ => Function.update_of_ne (by omega) ..)
          (by omega) hzeros.2 hguard' hshort' (by omega)
        exact ⟨data', x', _, left, hrun, hprinted.trans hdone.printed, hdone.fs.trans hfs, hdone.pending,
          by rw [hanswer, hdone.answered, List.append_assoc], hdone.short, hdone.done⟩
    · -- no newline is left
      have hlineEnd : lineEndFrom data (last - lineStart) lineStart = lineStart + text.length :=
        lineEndFrom_eq hdata hnl (.inl (by omega))
      have hstring := stringAt_update hdata hzero
      have hguard' := guard_update hguard (lineStart + text.length)
      rw [grepLines, hlineEnd]
      dsimp only
      by_cases hcarry : data (lineStart + text.length) ≠ 10 ∧ cnt ≠ 0 ∧ lineStart ≠ 0
      · rw [if_pos hcarry]
        obtain ⟨hmoved, hframe⟩ := ece391Strcpy_moves (Nat.zero_le lineStart) hstring
          (show text.length < 1025 - lineStart by omega)
        have hlen : last - lineStart = text.length := by omega
        refine ⟨_, x, [], text, by rw [hlen]; rfl, Sys.printed_nil rfl, rfl,
          ⟨hmoved.holds, by omega, hzero, ?_⟩, rfl, hshort, fun h0 => absurd h0 hcarry.2.1⟩
        rw [hframe 1024 (by omega)]
        exact hguard'
      · rw [if_neg hcarry, Nat.add_sub_cancel_left]
        -- the piece is a whole line
        have hcut : rest = [] ∨ rest.head? = some 10 := by
          by_cases hmore : cnt = 0 ∨ last < 1024
          · exact .inl (hend hmore)
          · have hfull : lineStart + text.length = 1024 := by omega
            rw [hfull] at hcarry
            have hstart : lineStart = 0 := by
              by_contra hne
              exact hcarry ⟨hguard, fun h0 => hmore (.inl h0), hne⟩
            exact cut_of_length hnl (by omega) hshort
        obtain ⟨x₁, hsearch, hprinted, hfs⟩ := searchLine_prints h hstd hentered hstring (by omega)
        rw [run_bind_of hsearch, if_pos (by omega)]
        exact ⟨_, x₁, _, [], rfl, hprinted, hfs, ⟨holdsAt_nil, by simp, by simp, hguard'⟩,
          perLine_cut (matchLine_nil h.pattern_ne) hnl hcut, hshort.of_cut hcut, fun _ => rfl⟩

/-! ## The file -/

/-- What a read adds behind the beginning of a line. -/
theorem holdsAt_read {data : Nat → UInt8} {left : List UInt8} (h : HoldsAt data 0 left)
    (record : List UInt8) : HoldsAt (wrote data left.length record) 0 (left ++ record) := by
  refine holdsAt_append.mpr ⟨h.congr fun i _ hi => ?_, ?_⟩
  · rw [wrote, if_neg (by omega)]
  · rw [Nat.zero_add]
    exact holdsAt_wrote data left.length record

theorem guard_read {data : Nat → UInt8} {left record : List UInt8} (h : data 1024 ≠ 10)
    (hfits : left.length + record.length ≤ 1024) : wrote data left.length record 1024 ≠ 10 := by
  rwa [wrote, if_pos (by omega), List.getD_eq_default _ _ (by omega)]

/-- **The outer loop** answers the lines of a text, with what is left of one before. -/
theorem grepReads_text (h : Searching s fname pattern name) {img : Image} {inode fd : Int}
    (hwf : img.WellFormedFile inode) {turns : Nat} {x : Sys} {pos : Nat} {data : Nat → UInt8}
    {left rest : List UInt8} (hat : FileAt img inode fd x.fs pos) (hstd : x.Stdout)
    (hrest : (img.contents inode).drop pos = rest) (hpending : Pending data left) (hzero : 0 ∉ rest)
    (hshort : ShortLines (left ++ rest)) (hturns : rest.length < turns) :
    ∃ x', (grepReads img s pattern.length fname fd turns data left.length).run x = some (0, x') ∧
      x.Printed x' (grepText pattern name (left ++ rest)) ∧ x'.fs = x.fs.closed fd := by
  induction turns generalizing x pos data left rest with
  | zero => omega
  | succ turns ih =>
    have hroom := hpending.length_lt
    obtain ⟨n, hn⟩ : ∃ n, left.length + n = 1024 := ⟨1024 - left.length, by omega⟩
    obtain ⟨hread, hnext⟩ := recordRead_file hwf hat (n := n)
    rw [hrest] at hread hnext
    have hsize : (1024 - (left.length : Int)) = n := by omega
    have hlen : (rest.take n).length = min n rest.length := List.length_take
    have hsplit : rest.take n ++ rest.drop n = rest := List.take_append_drop n rest
    have hzeros : 0 ∉ rest.take n ∧ 0 ∉ rest.drop n := by rwa [← not_or, ← List.mem_append, hsplit]
    -- a read that gets less than it asks for has come to the end of the file
    have hmore : ((rest.take n).length : Int) = 0 ∨ left.length + (rest.take n).length < 1024 →
        rest.drop n = [] := fun _ => List.drop_eq_nil_of_le (by omega)
    have hstd₁ : Sys.Stdout { x with fs := x.fs.seek fd (pos + (rest.take n).length : Nat) } := by
      simpa [Sys.Stdout] using hstd
    obtain ⟨data', x', out, left', hlines, hdone⟩ := grepLines_text h hmore hstd₁ rfl
      (holdsAt_read hpending.holds (rest.take n)) (by simp) (by omega)
      (by simp [hpending.nonzero, hzeros.1]) (guard_read hpending.guard (by omega))
      (by rwa [List.append_assoc, hsplit])
      (show (left ++ rest.take n).length < 1025 by rw [List.length_append]; omega)
    have hanswer := hdone.answered
    rw [List.append_assoc, hsplit] at hanswer
    have hcall := ece391Read_record hread data left.length
    rw [← hsize] at hcall
    rw [grepReads, run_bind_of hcall]
    dsimp only
    rw [if_neg (by omega), Int.toNat_natCast, run_bind_of hlines]
    have hat' : FileAt img inode fd x'.fs (pos + (rest.take n).length) := by
      rw [hdone.fs]
      exact hnext
    by_cases hend : ((rest.take n).length : Int) = 0
    · -- the end of the file
      have hnone : rest.drop n = [] := List.drop_eq_nil_of_le (by omega)
      rw [hdone.done hend, hnone, List.append_nil, grepText_nil h.pattern_ne, List.append_nil] at hanswer
      rw [if_pos hend, run_bind_of (ece391Close_file hat'), if_neg (by decide)]
      refine ⟨_, rfl, ?_, ?_⟩
      · rw [hanswer]
        exact ⟨hdone.printed.output, hdone.printed.display⟩
      · rw [hdone.fs]
        exact closed_seek ..
    · rw [if_neg hend]
      have hstd' : x'.Stdout := by
        rw [Sys.Stdout, hdone.fs]
        simpa [Sys.Stdout] using hstd
      obtain ⟨x₂, hrun, hprinted, hfs⟩ := ih hat' hstd'
        (by rw [← List.drop_drop, hrest, hlen]; exact List.drop_eq_drop_min.symm) hdone.pending hzeros.2
        hdone.short (by rw [List.length_drop]; omega)
      refine ⟨x₂, hrun, ?_, ?_⟩
      · rw [hanswer]
        exact ⟨(hdone.printed.trans hprinted).output, (hdone.printed.trans hprinted).display⟩
      · rw [hfs, hdone.fs]
        exact closed_seek ..

/-! ## Any file -/

theorem lineEndFrom_bounds (data : Nat → UInt8) (turns i : Nat) :
    i ≤ lineEndFrom data turns i ∧ lineEndFrom data turns i ≤ i + turns := by
  induction turns generalizing i with
  | zero => simp [lineEndFrom]
  | succ turns ih =>
    rw [lineEndFrom]
    split
    · omega
    · have := ih (i + 1)
      omega

/-- Whatever the bytes are, a search ends. -/
theorem searchLine_ends (h : Searching s fname pattern name) {data : Nat → UInt8} {lineStart stop : Nat}
    (hstop : data stop = 0) (hle : lineStart ≤ stop) (hfits : stop ≤ 1024) {x : Sys} (hstd : x.Stdout)
    (hentered : x.fs.entered = x.fs) (turns check : Nat) :
    ∃ x' out, (searchLine s pattern.length fname data lineStart turns check).run x = some ((), x') ∧
      x.Printed x' out ∧ x'.fs = x.fs := by
  induction turns generalizing check with
  | zero => exact ⟨x, [], rfl, Sys.printed_nil rfl, rfl⟩
  | succ turns ih =>
    rw [searchLine]
    split
    · obtain ⟨line, hline, hlen⟩ := exists_stringAt hstop hle
      exact ⟨_, _, printMatch_run h hstd hline (by omega), x.printed_puts _, hentered⟩
    · exact ih (check + 1)

/-- The inner loop ends, with room in the array. -/
theorem grepLines_ends (h : Searching s fname pattern name) (cnt : Int) {last turns lineStart : Nat}
    (data : Nat → UInt8) {x : Sys} (hstd : x.Stdout) (hentered : x.fs.entered = x.fs)
    (hstart : lineStart ≤ last) (hle : last ≤ 1024) (hturns : last < lineStart + turns) :
    ∃ data' last' x' out, (grepLines s pattern.length fname cnt last turns data lineStart).run x =
      some ((data', last'), x') ∧ x.Printed x' out ∧ x'.fs = x.fs ∧ last' < 1024 := by
  induction turns generalizing data lineStart x with
  | zero => omega
  | succ turns ih =>
    obtain ⟨hlo, hhi⟩ := lineEndFrom_bounds data (last - lineStart) lineStart
    rw [grepLines]
    generalize lineEndFrom data (last - lineStart) lineStart = lineEnd at hlo hhi ⊢
    dsimp only
    by_cases hcarry : data lineEnd ≠ 10 ∧ cnt ≠ 0 ∧ lineStart ≠ 0
    · rw [if_pos hcarry]
      exact ⟨_, _, x, [], rfl, Sys.printed_nil rfl, rfl, by omega⟩
    · obtain ⟨x₁, out, hsearch, hprinted, hfs⟩ := searchLine_ends h (Function.update_self lineEnd 0 data)
        hlo (by omega) hstd hentered (lineEnd - lineStart) lineStart
      rw [if_neg hcarry, run_bind_of hsearch]
      by_cases hlast : lineEnd + 1 ≥ last
      · rw [if_pos hlast]
        exact ⟨_, 0, x₁, out, rfl, hprinted, hfs, by omega⟩
      · rw [if_neg hlast]
        obtain ⟨data', last', x', out', hrun, hprinted', hfs', hroom⟩ := ih
          (Function.update data lineEnd 0) (x := x₁) (by rw [Sys.Stdout, hfs]; exact hstd)
          (by rw [hfs]; exact hentered) (show lineEnd + 1 ≤ last by omega) (by omega)
        exact ⟨data', last', x', _, hrun, hprinted.trans hprinted', hfs'.trans hfs, hroom⟩

/-- The outer loop ends with the file. -/
theorem grepReads_ends (h : Searching s fname pattern name) {img : Image} {inode fd : Int}
    (hwf : img.WellFormedFile inode) {turns : Nat} {x : Sys} {pos last : Nat} (data : Nat → UInt8)
    (hat : FileAt img inode fd x.fs pos) (hstd : x.Stdout) (hroom : last < 1024)
    (hturns : ((img.contents inode).drop pos).length < turns) :
    ∃ x' out, (grepReads img s pattern.length fname fd turns data last).run x = some (0, x') ∧
      x.Printed x' out ∧ x'.fs = x.fs.closed fd := by
  induction turns generalizing x pos data last with
  | zero => omega
  | succ turns ih =>
    obtain ⟨n, hn⟩ : ∃ n, last + n = 1024 := ⟨1024 - last, by omega⟩
    obtain ⟨hread, hnext⟩ := recordRead_file hwf hat (n := n)
    have hlen : (((img.contents inode).drop pos).take n).length =
        min n ((img.contents inode).drop pos).length := List.length_take
    generalize ((img.contents inode).drop pos).take n = record at hread hnext hlen
    have hsize : (1024 - (last : Int)) = n := by omega
    have hstd₁ : Sys.Stdout { x with fs := x.fs.seek fd (pos + record.length : Nat) } := by
      simpa [Sys.Stdout] using hstd
    obtain ⟨data', last', x', out, hlines, hprinted, hfs, hroom'⟩ := grepLines_ends h
      (record.length : Int) (wrote data last record) hstd₁ rfl (Nat.zero_le (last + record.length))
      (by omega) (show last + record.length < 0 + 1025 by omega)
    have hcall := ece391Read_record hread data last
    rw [← hsize] at hcall
    rw [grepReads, run_bind_of hcall]
    dsimp only
    rw [if_neg (by omega), Int.toNat_natCast, run_bind_of hlines]
    have hat' : FileAt img inode fd x'.fs (pos + record.length) := by
      rw [hfs]
      exact hnext
    by_cases hend : (record.length : Int) = 0
    · rw [if_pos hend, run_bind_of (ece391Close_file hat'), if_neg (by decide)]
      refine ⟨_, out, rfl, ⟨hprinted.output, hprinted.display⟩, ?_⟩
      rw [hfs]
      exact closed_seek ..
    · rw [if_neg hend]
      have hstd' : x'.Stdout := by
        rw [Sys.Stdout, hfs]
        simpa [Sys.Stdout] using hstd
      obtain ⟨x₂, out', hrun, hprinted', hfs'⟩ := ih data' hat' hstd' hroom' (by
        rw [List.length_drop] at hturns hlen ⊢
        omega)
      refine ⟨x₂, out ++ out', hrun, ?_, ?_⟩
      · exact ⟨(hprinted.trans hprinted').output, (hprinted.trans hprinted').display⟩
      · rw [hfs', hfs]
        exact closed_seek ..

/-! ## One file -/

/-- A file is opened and read to its end. -/
theorem doOneFile_answers (h : Searching s fname pattern name) {img : Image} (hwf : img.WellFormed)
    {k : Nat} (hres : resolved img name = some k) (hname : name ≠ []) (htype : img.filetype k = 2)
    {x : Sys} (hunused : ¬ InUse x.fs x.fs.mainProcess (img.inodeNum k)) (hstd : x.Stdout)
    (hopen : StdOpen x.fs x.fs.mainProcess) {fd : Int} (hfree : x.fs.freeFd = some fd) {turns : Nat}
    (hturns : (img.contents (img.inodeNum k)).length < turns) (data : Nat → UInt8) :
    ∃ x' out, (doOneFile img turns s fname data).run x = some (0, x') ∧ x.Printed x' out ∧
      x'.fs = (x.fs.took img (some name) fd).closed fd ∧
      (0 ∉ img.contents (img.inodeNum k) → ShortLines (img.contents (img.inodeNum k)) →
        data 1024 ≠ 10 → out = grepText pattern name (img.contents (img.inodeNum k))) := by
  have htext : CStr.text name = name :=
    CStr.text_of_nonzero fun b hb => ne_of_mem_of_not_mem hb h.holdsName.nonzero
  have hrange := firstFree_range hfree
  obtain ⟨hrun, hat⟩ := open_file hres (by rwa [htext]) hopen hfree htype hunused
  have hcall := ece391Open_run img name x
  rw [hrun] at hcall
  have hstd' : Sys.Stdout { x with fs := x.fs.took img (some name) fd } :=
    took_stdout (by omega) hstd
  have hinode := hwf k (resolved_eq_some_iff.mp hres).1 htype
  rw [doOneFile, cstring_eq h.holdsName h.name_le, ece391Strlen_eq h.holdsPattern h.pattern_le,
    run_bind_of hcall, if_neg (by omega)]
  by_cases hall : 0 ∉ img.contents (img.inodeNum k) ∧ ShortLines (img.contents (img.inodeNum k)) ∧
      data 1024 ≠ 10
  · obtain ⟨x', hreads, hprinted, hfs⟩ := grepReads_text h hinode hat hstd' List.drop_zero
      (show Pending data [] from ⟨holdsAt_nil, by simp, by simp, hall.2.2⟩) hall.1
      (by rw [List.nil_append]; exact hall.2.1) hturns
    rw [List.nil_append] at hprinted
    exact ⟨x', _, hreads, ⟨hprinted.output, hprinted.display⟩, hfs, fun _ _ _ => rfl⟩
  · obtain ⟨x', out, hreads, hprinted, hfs⟩ := grepReads_ends h hinode data hat hstd'
      (show 0 < 1024 by decide) (by rwa [List.drop_zero])
    exact ⟨x', out, hreads, ⟨hprinted.output, hprinted.display⟩, hfs,
      fun hzero hshort hguard => absurd ⟨hzero, hshort, hguard⟩ hall⟩

/-- **One file**: of every file that is a text in short lines, is not open yet and finds a descriptor,
`do_one_file` prints the lines in which the pattern occurs, and leaves the descriptor free. The byte of
its array behind those that it reads is not set, and is looked at. -/
theorem doOneFile_text (h : Searching s fname pattern name) {img : Image} (hwf : img.WellFormed)
    {k : Nat} (hres : resolved img name = some k) (hname : name ≠ []) (htype : img.filetype k = 2)
    {x : Sys} (hunused : ¬ InUse x.fs x.fs.mainProcess (img.inodeNum k)) (hstd : x.Stdout)
    (hopen : StdOpen x.fs x.fs.mainProcess) {fd : Int} (hfree : x.fs.freeFd = some fd)
    (hzero : 0 ∉ img.contents (img.inodeNum k))
    (hshort : ShortLines (img.contents (img.inodeNum k))) {data : Nat → UInt8}
    (hguard : data 1024 ≠ 10) :
    ∃ n, ∀ turns ≥ n, ∃ x', (doOneFile img turns s fname data).run x = some (0, x') ∧
      x.Printed x' (grepText pattern name (img.contents (img.inodeNum k))) ∧
      x'.fs = (x.fs.took img (some name) fd).closed fd := by
  refine ⟨(img.contents (img.inodeNum k)).length + 1, fun turns hturns => ?_⟩
  obtain ⟨x', out, hrun, hprinted, hfs, hout⟩ :=
    doOneFile_answers h hwf hres hname htype hunused hstd hopen hfree hturns data
  obtain rfl := hout hzero hshort hguard
  exact ⟨x', hrun, hprinted, hfs⟩

end

/-- The file `a` holds `xyz`, which is one line. -/
theorem doOneFile_text_sample :
    ∃ n, ∀ turns ≥ n, ∃ x', (doOneFile sampleImage turns (CStr.char (ascii "y")) (CStr.char (ascii "a"))
      (CStr.char [])).run (sampleSys (ascii "y")) = some (0, x') ∧
        x'.writer.output = ascii "a:xyz\n" := by
  have hstarted := sampleSys_started (show 0 ∉ ascii "y" by decide) (by decide)
  have hsearching : Searching (CStr.char (ascii "y")) (CStr.char (ascii "a")) (ascii "y") (ascii "a") :=
    ⟨stringAt_char (by decide), by decide, by decide, by decide, stringAt_char (by decide), by decide⟩
  obtain ⟨n, h⟩ := doOneFile_text hsearching sampleImage_wellFormed
    (show resolved sampleImage (ascii "a") = some 1 by decide +kernel) (by decide) (by decide +kernel)
    (hstarted.fresh.unused (by decide +kernel)) hstarted.stdout hstarted.fresh.stdOpen
    hstarted.fresh.freeFd (by decide +kernel) (by decide +kernel)
    (show CStr.char [] 1024 ≠ 10 by decide)
  refine ⟨n, fun turns hturns => ?_⟩
  obtain ⟨x', hrun, hprinted, -⟩ := h turns hturns
  refine ⟨x', hrun, hprinted.output.trans ?_⟩
  have hout : grepText (ascii "y") (ascii "a") (sampleImage.contents (sampleImage.inodeNum (1 : Nat))) =
      ascii "a:xyz\n" := by decide +kernel
  rw [hout]
  rfl

end User

end SrirachOS
