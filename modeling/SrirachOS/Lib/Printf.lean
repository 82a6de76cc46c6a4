import SrirachOS.Foundation.CInt
import SrirachOS.Lib.Itoa

/-!
# Formatted Output

`printf` goes over a format and prints its characters; a conversion prints the next of the arguments,
which stand on the stack behind the format. `fs_printf` differs in the strings, of which it prints at most
32 characters.

- `Piece`, `parseFormat`, `rendered`: what a format means,
- `printf_renders`: that is what is printed,
- `printf_result`: it goes on behind a format that ends within a conversion.
-/

namespace SrirachOS

open Foundation

/-! ## lib.c -/

/-- `puts(s)`, from `index` on, with the number of turns left. -/
def puts (s : Nat → UInt8) : Nat → Nat → List UInt8
  | 0, _ => []
  | turns + 1, index => if s index ≠ 0 then s index :: puts s turns (index + 1) else []

/-- `while (i < 8)` of `%#x`, with the number of turns left. -/
def padLoop : Nat → Nat → (Nat → UInt8) → Nat → UInt8
  | 0, _, convBuf => convBuf
  | turns + 1, i, convBuf =>
    if i < 8 then padLoop turns (i + 1) (Function.update convBuf i 48) else convBuf

/-- `case 'x'`, with `char conv_buf[64]`. -/
def putHex (alternate : Bool) (value : Nat) (convBuf : Nat → UInt8) : List UInt8 :=
  if alternate = false then puts (itoa value 0 16 convBuf) 64 0
  else
    let convBuf := itoa value 8 16 convBuf
    let startingIndex := strlen convBuf 56 8
    puts (padLoop 8 startingIndex convBuf) (64 - startingIndex) startingIndex

/-- `case 'u'`, with `char conv_buf[36]`. -/
def putUnsigned (value : Nat) (convBuf : Nat → UInt8) : List UInt8 := puts (itoa value 0 10 convBuf) 36 0

/-- `case 'd'`, with `char conv_buf[36]`. -/
def putSigned (arg : Nat) (convBuf : Nat → UInt8) : List UInt8 :=
  let value := i32 arg
  if value < 0 then puts (itoa (u32 (-value)).toNat 1 10 (Function.update convBuf 0 45)) 36 0
  else puts (itoa (u32 value).toNat 0 10 convBuf) 36 0

section

variable (limit : Nat) (mem : Nat → UInt8) (args : Nat → Nat) (convBuf : Nat → Nat → UInt8)

/-- `format_char_switch`, from `buf` on, with the number of turns left: the flag, and the address of the
specifier. -/
def formatCharSwitch : Nat → Bool → Nat → Option (Bool × Nat)
  | 0, _, _ => none
  | turns + 1, alternate, buf =>
    if mem buf = 35 then formatCharSwitch turns true (buf + 1) else some (alternate, buf)

/-- The cases of the specifier: what is printed, and how far `esp` moves. -/
def putConversion (alternate : Bool) (c : UInt8) (arg : Nat) (convBuf : Nat → UInt8) : List UInt8 × Nat :=
  if c = 37 then ([37], 0)
  else if c = 120 then (putHex alternate arg convBuf, 1)
  else if c = 117 then (putUnsigned arg convBuf, 1)
  else if c = 100 then (putSigned arg convBuf, 1)
  else if c = 99 then ([arg.toUInt8], 1)
  else if c = 115 then (puts mem limit arg, 1)
  else ([], 0)

/-- `while (*buf != '\0')`, with the number of turns left: what is printed, and the address of the end.
`convBuf n` is what the stack holds where the buffer of the conversion of argument `n` is. -/
def printfLoop : Nat → Nat → Nat → Option (List UInt8 × Nat)
  | 0, _, _ => none
  | turns + 1, buf, esp =>
    if mem buf = 0 then some ([], buf)
    else if mem buf = 37 then do
      let (alternate, buf) ← formatCharSwitch mem turns false (buf + 1)
      let (text, taken) := putConversion limit mem alternate (mem buf) (args esp) (convBuf esp)
      let (rest, last) ← printfLoop turns (buf + 1) (esp + taken)
      some (text ++ rest, last)
    else do
      let (rest, last) ← printfLoop turns (buf + 1) esp
      some (mem buf :: rest, last)

/-- `printf(format, ...)` and, with 32 for `limit`, `fs_printf(format, ...)`: what is printed, and the
result. -/
def printfWith (turns format : Nat) : Option (List UInt8 × Nat) :=
  (printfLoop limit mem args convBuf turns format 0).map fun end_ => (end_.1, end_.2 - format)

end

/-- `printf`: a string can be as long as the memory. -/
def printf := printfWith (2 ^ 32)

/-- `fs_printf`. -/
def fsPrintf := printfWith 32

/-! ## Formats -/

/-- A part of a format. -/
inductive Piece
  | char (c : UInt8)
  | hex (alternate : Bool)
  | unsigned
  | signed
  | character
  | string
  | ignored
  deriving DecidableEq, Repr

/-- The conversion of a specifier; only `%x` has an alternate form. -/
def specifier (alternate : Bool) (c : UInt8) : Piece :=
  if c = 37 then .char 37
  else if c = 120 then .hex alternate
  else if c = 117 then .unsigned
  else if c = 100 then .signed
  else if c = 99 then .character
  else if c = 115 then .string
  else .ignored

/-- The parts of a format, within a conversion or not; a conversion has an end. -/
def parseFormat : Option Bool → List UInt8 → Option (List Piece)
  | none, [] => some []
  | some _, [] => none
  | none, c :: text =>
    if c = 37 then parseFormat (some false) text else (parseFormat none text).map (.char c :: ·)
  | some alternate, c :: text =>
    if c = 35 then parseFormat (some true) text
    else (parseFormat none text).map (specifier alternate c :: ·)

/-- The numeral with its sign. -/
def signedNumeral (value : Int) : List UInt8 :=
  if value < 0 then 45 :: numeral 10 value.natAbs else numeral 10 value.natAbs

/-- The eight hexadecimal digits. -/
def paddedNumeral (value : Nat) : List UInt8 :=
  List.replicate (8 - (numeral 16 value).length) 48 ++ numeral 16 value

/-- How many of the arguments a part takes. -/
def Piece.taken : Piece → Nat
  | .char _ | .ignored => 0
  | .hex _ | .unsigned | .signed | .character | .string => 1

/-- The text of a part with its argument, which is the address of `str` for a string. -/
def Piece.text (limit arg : Nat) (str : List UInt8) : Piece → List UInt8
  | .char c => [c]
  | .hex false => numeral 16 arg
  | .hex true => paddedNumeral arg
  | .unsigned => numeral 10 arg
  | .signed => signedNumeral (i32 arg)
  | .character => [arg.toUInt8]
  | .string => str.take limit
  | .ignored => []

/-- The text of a format, with the arguments from `esp` on. -/
def rendered (limit : Nat) (args : Nat → Nat) (strings : Nat → List UInt8) : Nat → List Piece → List UInt8
  | _, [] => []
  | esp, p :: pieces =>
    p.text limit (args esp) (strings esp) ++ rendered limit args strings (esp + p.taken) pieces

/-- The arguments of the strings point to strings. -/
def StringArgs (mem : Nat → UInt8) (args : Nat → Nat) (strings : Nat → List UInt8) :
    Nat → List Piece → Prop
  | _, [] => True
  | esp, p :: pieces =>
    (p = .string → StringAt mem (args esp) (strings esp)) ∧ StringArgs mem args strings (esp + p.taken) pieces

/-! ## The conversions -/

/-- A string is printed, as far as it goes or as the turns do. -/
theorem puts_eq {s : Nat → UInt8} {start : Nat} {text : List UInt8} (h : StringAt s start text)
    (turns : Nat) : puts s turns start = text.take turns := by
  induction turns generalizing start text with
  | zero => rfl
  | succ turns ih =>
    cases text with
    | nil =>
      have hend : s start = 0 := stringAt_nil.mp h
      simp [puts, hend]
    | cons c text =>
      obtain ⟨hc, hne, hrest⟩ := stringAt_cons.mp h
      simp [puts, hc, hne, ih hrest]

/-- The zeros that are stored. -/
theorem padLoop_eq {turns i : Nat} (hturns : 8 ≤ i + turns) (convBuf : Nat → UInt8) (x : Nat) :
    padLoop turns i convBuf x = if i ≤ x ∧ x < 8 then 48 else convBuf x := by
  induction turns generalizing i convBuf with
  | zero =>
    rw [padLoop, if_neg (by omega)]
  | succ turns ih =>
    rw [padLoop]
    by_cases hlt : i < 8
    · rw [if_pos hlt, ih (by omega)]
      by_cases hx : x = i
      · simp [hx, hlt]
      · rw [Function.update_of_ne hx]
        exact if_congr (by omega) rfl rfl
    · rw [if_neg hlt, if_neg (by omega)]

theorem putUnsigned_eq {value : Nat} (hvalue : value < 2 ^ 32) (convBuf : Nat → UInt8) :
    putUnsigned value convBuf = numeral 10 value := by
  have hlength := numeral_length (show 2 ≤ 10 by decide) (show 0 < 32 by decide)
    (hvalue.trans_le (Nat.pow_le_pow_left (by decide) 32))
  rw [putUnsigned, puts_eq (itoa_string (by decide) (by decide) hvalue 0 convBuf).1,
    List.take_of_length_le (hlength.trans (by decide))]

/-- A number of 32 bits has at most eight hexadecimal digits. -/
theorem hex_length {value : Nat} (hvalue : value < 2 ^ 32) : (numeral 16 value).length ≤ 8 :=
  numeral_length (by decide) (by decide) (hvalue.trans_le (by decide))

theorem paddedNumeral_length {value : Nat} (hvalue : value < 2 ^ 32) :
    (paddedNumeral value).length = 8 := by
  have hlength := hex_length hvalue
  simp only [paddedNumeral, List.length_append, List.length_replicate]
  omega

theorem putHex_eq {value : Nat} (hvalue : value < 2 ^ 32) (alternate : Bool) (convBuf : Nat → UInt8) :
    putHex alternate value convBuf = if alternate then paddedNumeral value else numeral 16 value := by
  have hlength := hex_length hvalue
  cases alternate with
  | false =>
    rw [putHex, if_pos rfl, puts_eq (itoa_string (by decide) (by decide) hvalue 0 convBuf).1,
      List.take_of_length_le (hlength.trans (by decide)), if_neg Bool.false_ne_true]
  | true =>
    have hstring := (itoa_string (show 2 ≤ 16 by decide) (by decide) hvalue 8 convBuf).1
    have hstart : strlen (itoa value 8 16 convBuf) 56 8 = (numeral 16 value).length :=
      strlen_eq hstring (hlength.trans (by decide))
    -- the zeros end where the numeral begins
    have hpadded : StringAt (padLoop 8 (numeral 16 value).length (itoa value 8 16 convBuf))
        (numeral 16 value).length (paddedNumeral value) := by
      have happly := padLoop_eq (show 8 ≤ (numeral 16 value).length + 8 by omega)
        (itoa value 8 16 convBuf)
      have hend : (numeral 16 value).length + (8 - (numeral 16 value).length) = 8 := by omega
      refine ⟨holdsAt_append.mpr ⟨fun i hi => ?_, ?_⟩, ?_, ?_⟩
      · rw [List.length_replicate] at hi
        rw [happly, if_pos (by omega), List.getElem_replicate]
      · rw [List.length_replicate, hend]
        exact hstring.holds.congr fun i hi _ => by rw [happly, if_neg (by omega)]
      · rw [paddedNumeral_length hvalue, happly, if_neg (by omega), Nat.add_comm]
        exact hstring.terminator
      · simp only [paddedNumeral, List.mem_append, List.mem_replicate, not_or]
        exact ⟨fun h => absurd h.2 (by decide), hstring.nonzero⟩
    rw [putHex, if_neg (Bool.noConfusion ·)]
    simp only [hstart, if_true]
    rw [puts_eq hpadded, List.take_of_length_le (by rw [paddedNumeral_length hvalue]; omega)]

theorem putSigned_eq (arg : Nat) (convBuf : Nat → UInt8) :
    putSigned arg convBuf = signedNumeral (i32 arg) := by
  have hge := i32_ge arg
  have hlt := i32_lt arg
  unfold putSigned signedNumeral
  generalize i32 arg = value at hge hlt ⊢
  have hbound : value.natAbs < 2 ^ 32 := by omega
  have hlength : (numeral 10 value.natAbs).length ≤ 32 :=
    numeral_length (by decide) (by decide) (hbound.trans_le (Nat.pow_le_pow_left (by decide) 32))
  by_cases hneg : value < 0
  · have hvalue : (u32 (-value)).toNat = value.natAbs := by
      rw [u32_of_fits (by omega) (by omega)]
      omega
    obtain ⟨hstring, hframe⟩ := itoa_string (show 2 ≤ 10 by decide) (by decide) hbound 1
      (Function.update convBuf 0 45)
    -- the sign is in front of the numeral
    have hsign : StringAt (itoa value.natAbs 1 10 (Function.update convBuf 0 45)) 0
        (45 :: numeral 10 value.natAbs) :=
      stringAt_cons.mpr ⟨(hframe 0 (by omega)).trans (Function.update_self ..), by decide, hstring⟩
    simp only [if_pos hneg, hvalue]
    rw [puts_eq hsign, List.take_of_length_le (by rw [List.length_cons]; omega)]
  · have hvalue : (u32 value).toNat = value.natAbs := by
      rw [u32_of_fits (by omega) (by omega)]
      omega
    simp only [if_neg hneg, hvalue]
    rw [puts_eq (itoa_string (by decide) (by decide) hbound 0 convBuf).1,
      List.take_of_length_le (by omega)]

section

variable {limit : Nat} {mem : Nat → UInt8} {args : Nat → Nat} {convBuf : Nat → Nat → UInt8}
  {strings : Nat → List UInt8} {text : List UInt8} {pieces : List Piece} {turns buf esp format : Nat}

/-- A conversion prints its text, and takes its argument. -/
theorem putConversion_eq {alternate : Bool} {c : UInt8} {arg : Nat} {str : List UInt8}
    (harg : arg < 2 ^ 32) (hstr : specifier alternate c = .string → StringAt mem arg str)
    (junk : Nat → UInt8) :
    putConversion limit mem alternate c arg junk =
      ((specifier alternate c).text limit arg str, (specifier alternate c).taken) := by
  unfold putConversion specifier at *
  split_ifs at hstr ⊢
  · rfl
  · rw [putHex_eq harg]
    cases alternate <;> rfl
  · rw [putUnsigned_eq harg]
    rfl
  · rw [putSigned_eq]
    rfl
  · rfl
  · rw [puts_eq (hstr rfl)]
    rfl
  · rfl

/-! ## The format -/

/-- The end of a conversion: at the end of the format, or at the specifier. -/
theorem formatCharSwitch_cases (h : StringAt mem buf text) (hturns : text.length < turns)
    (alternate : Bool) :
    (∃ flag, formatCharSwitch mem turns alternate buf = some (flag, buf + text.length) ∧
        parseFormat (some alternate) text = none) ∨
      ∃ flag stop c rest, formatCharSwitch mem turns alternate buf = some (flag, stop) ∧
        StringAt mem stop (c :: rest) ∧ stop + (c :: rest).length = buf + text.length ∧
        rest.length < text.length ∧
        parseFormat (some alternate) text = (parseFormat none rest).map (specifier flag c :: ·) := by
  induction text generalizing buf turns alternate with
  | nil =>
    obtain ⟨turns, rfl⟩ : ∃ n, turns = n + 1 := ⟨turns - 1, by omega⟩
    have hend : mem buf = 0 := stringAt_nil.mp h
    exact .inl ⟨alternate, by simp [formatCharSwitch, hend], rfl⟩
  | cons c text ih =>
    obtain ⟨turns, rfl⟩ : ∃ n, turns = n + 1 := ⟨turns - 1, by omega⟩
    obtain ⟨hc, -, hrest⟩ := stringAt_cons.mp h
    rw [List.length_cons] at hturns
    simp only [formatCharSwitch, parseFormat, hc, List.length_cons]
    by_cases hhash : c = 35
    · have hsum : buf + (text.length + 1) = buf + 1 + text.length := by omega
      simp only [if_pos hhash, hsum]
      obtain hover | ⟨flag, stop, d, rest, hstop, hat, hlen, hless, hparse⟩ :=
        ih hrest (show text.length < turns by omega) true
      · exact .inl hover
      · exact .inr ⟨flag, stop, d, rest, hstop, hat, hlen, by omega, hparse⟩
    · simp only [if_neg hhash]
      exact .inr ⟨alternate, buf, c, text, rfl, h, rfl, by omega, rfl⟩

/-- **A format is printed** from any of its parts on. -/
theorem printfLoop_eq (h : StringAt mem buf text) (hpieces : parseFormat none text = some pieces)
    (hturns : text.length < turns) (hargs : ∀ i, args i < 2 ^ 32)
    (hstrings : StringArgs mem args strings esp pieces) :
    printfLoop limit mem args convBuf turns buf esp =
      some (rendered limit args strings esp pieces, buf + text.length) := by
  induction hlen : text.length using Nat.strong_induction_on generalizing buf esp text pieces turns with
  | _ n ih =>
    obtain ⟨turns, rfl⟩ : ∃ n, turns = n + 1 := ⟨turns - 1, by omega⟩
    cases text with
    | nil =>
      obtain rfl : [] = pieces := by simpa [parseFormat] using hpieces
      have hend : mem buf = 0 := stringAt_nil.mp h
      simp [printfLoop, hend, rendered, ← hlen]
    | cons c text =>
      obtain ⟨hc, hne, hrest⟩ := stringAt_cons.mp h
      rw [List.length_cons] at hlen hturns
      simp only [printfLoop, hc, if_neg hne]
      by_cases hpercent : c = 37
      · rw [parseFormat, if_pos hpercent] at hpieces
        rw [if_pos hpercent]
        obtain ⟨flag, -, hover⟩ | ⟨flag, stop, d, rest, hstop, hat, hlast, hless, hparse⟩ :=
          formatCharSwitch_cases hrest (show text.length < turns by omega) false
        · simp [hover] at hpieces
        · obtain ⟨tail, htail, rfl⟩ := Option.map_eq_some_iff.mp (hparse ▸ hpieces)
          obtain ⟨hd, -, hbehind⟩ := stringAt_cons.mp hat
          rw [List.length_cons] at hlast
          have hend : stop + 1 + rest.length = buf + n := by omega
          have hlater := ih rest.length (by omega) hbehind htail (show rest.length < turns by omega)
            hstrings.2 rfl
          rw [hend] at hlater
          simp only [hstop, hd, Option.bind_eq_bind, Option.bind_some,
            putConversion_eq (hargs esp) hstrings.1, hlater, rendered]
      · rw [parseFormat, if_neg hpercent] at hpieces
        obtain ⟨tail, htail, rfl⟩ := Option.map_eq_some_iff.mp hpieces
        have hend : buf + 1 + text.length = buf + n := by omega
        have hlater := ih text.length (by omega) hrest htail (show text.length < turns by omega)
          hstrings.2 rfl
        simp only [hend, Piece.taken, Nat.add_zero] at hlater
        simp only [if_neg hpercent, Option.bind_eq_bind, hlater, Option.bind_some, rendered, Piece.text,
          Piece.taken, Nat.add_zero, List.singleton_append]

theorem le_of_formatCharSwitch {alternate flag : Bool} {stop : Nat}
    (h : formatCharSwitch mem turns alternate buf = some (flag, stop)) : buf ≤ stop := by
  induction turns generalizing alternate buf with
  | zero => simp [formatCharSwitch] at h
  | succ turns ih =>
    rw [formatCharSwitch] at h
    split at h
    · exact (Nat.le_succ buf).trans (ih h)
    · simp only [Option.some.injEq, Prod.mk.injEq] at h
      exact h.2.le

/-- Where a turn of the loop leaves `buf`. -/
theorem printfLoop_cases {out : List UInt8} {last : Nat}
    (hrun : printfLoop limit mem args convBuf (turns + 1) buf esp = some (out, last)) :
    mem buf = 0 ∧ last = buf ∨
      ∃ stop esp' out', printfLoop limit mem args convBuf turns (stop + 1) esp' = some (out', last) ∧
        buf ≤ stop ∧ if mem buf = 37 then
          ∃ flag, formatCharSwitch mem turns false (buf + 1) = some (flag, stop) else stop = buf := by
  simp only [printfLoop, Option.bind_eq_bind] at hrun
  by_cases hend : mem buf = 0
  · simp only [if_pos hend, Option.some.injEq, Prod.mk.injEq] at hrun
    exact .inl ⟨hend, hrun.2.symm⟩
  simp only [if_neg hend] at hrun
  split_ifs at hrun ⊢ with hpercent
  · obtain ⟨⟨flag, stop⟩, hstop, hrun⟩ := Option.bind_eq_some_iff.mp hrun
    obtain ⟨⟨rest, last'⟩, hrest, hrun⟩ := Option.bind_eq_some_iff.mp hrun
    simp only [Option.some.injEq, Prod.mk.injEq] at hrun
    obtain ⟨-, rfl⟩ := hrun
    exact .inr ⟨stop, _, rest, hrest, (Nat.le_succ buf).trans (le_of_formatCharSwitch hstop), flag, hstop⟩
  · obtain ⟨⟨rest, last'⟩, hrest, hrun⟩ := Option.bind_eq_some_iff.mp hrun
    simp only [Option.some.injEq, Prod.mk.injEq] at hrun
    obtain ⟨-, rfl⟩ := hrun
    exact .inr ⟨buf, _, rest, hrest, le_rfl, rfl⟩

/-- The loop only goes forward. -/
theorem le_of_printfLoop {out : List UInt8} {last : Nat}
    (hrun : printfLoop limit mem args convBuf turns buf esp = some (out, last)) : buf ≤ last := by
  induction turns generalizing buf esp out with
  | zero => simp [printfLoop] at hrun
  | succ turns ih =>
    obtain ⟨-, rfl⟩ | ⟨stop, esp', out', hrest, hle, -⟩ := printfLoop_cases hrun
    · exact le_rfl
    · have hlater := ih hrest
      omega

/-- Where the loop stops: at the end of the format, or behind that of one that ends within a
conversion. -/
theorem printfLoop_last (h : StringAt mem buf text) (hturns : text.length < turns) {out : List UInt8}
    {last : Nat} (hrun : printfLoop limit mem args convBuf turns buf esp = some (out, last)) :
    if (parseFormat none text).isSome then last = buf + text.length else buf + text.length < last := by
  induction hlen : text.length using Nat.strong_induction_on generalizing buf esp text turns out with
  | _ n ih =>
    obtain ⟨turns, rfl⟩ : ∃ n, turns = n + 1 := ⟨turns - 1, by omega⟩
    cases text with
    | nil =>
      have hend : mem buf = 0 := stringAt_nil.mp h
      simp only [printfLoop, if_pos hend, Option.some.injEq, Prod.mk.injEq] at hrun
      simp [parseFormat, ← hlen, hrun.2]
    | cons c text =>
      obtain ⟨hc, hne, hrest⟩ := stringAt_cons.mp h
      rw [List.length_cons] at hlen hturns
      obtain ⟨hend, -⟩ | ⟨stop, esp', out', hlater, -, hstop⟩ := printfLoop_cases hrun
      · exact absurd (hc.symm.trans hend) hne
      rw [hc] at hstop
      by_cases hpercent : c = 37
      · rw [parseFormat, if_pos hpercent]
        rw [if_pos hpercent] at hstop
        obtain ⟨flag, hstop⟩ := hstop
        obtain ⟨flag', hstop', hnone⟩ | ⟨flag', stop', d, rest, hstop', hat, hlast, hless, hmore⟩ :=
          formatCharSwitch_cases hrest (show text.length < turns by omega) false
        · -- the terminator is taken for a specifier
          obtain ⟨-, rfl⟩ : flag' = flag ∧ buf + 1 + text.length = stop := by
            simpa [hstop'] using hstop
          have hle := le_of_printfLoop hlater
          rw [hnone, if_neg (by simp)]
          omega
        · obtain ⟨-, rfl⟩ : flag' = flag ∧ stop' = stop := by simpa [hstop'] using hstop
          have hgo := ih rest.length (by omega) (stringAt_cons.mp hat).2.2
            (show rest.length < turns by omega) hlater rfl
          rw [List.length_cons] at hlast
          have hend : stop' + 1 + rest.length = buf + n := by omega
          simpa [hmore, hend] using hgo
      · rw [parseFormat, if_neg hpercent]
        rw [if_neg hpercent] at hstop
        have hgo := ih text.length (by omega) (hstop ▸ hrest) (show text.length < turns by omega)
          hlater rfl
        have hend : stop + 1 + text.length = buf + n := by omega
        simpa [hend] using hgo

/-- **`printf` prints what its format means**, with every argument in its place, and returns the length of
the format. -/
theorem printf_renders (h : StringAt mem format text) (hpieces : parseFormat none text = some pieces)
    (hturns : text.length < turns) (hargs : ∀ i, args i < 2 ^ 32)
    (hstrings : StringArgs mem args strings 0 pieces) :
    printfWith limit mem args convBuf turns format =
      some (rendered limit args strings 0 pieces, text.length) := by
  rw [printfWith, printfLoop_eq h hpieces hturns hargs hstrings, Option.map_some, Nat.add_sub_cancel_left]

/-- A memory with a format at 0 and a string at 32. -/
def sampleMem (i : Nat) : UInt8 :=
  if i < 32 then (ascii "%d%% %#x %s").getD i 0 else (ascii "abc").getD (i - 32) 0

theorem sampleMem_format : StringAt sampleMem 0 (ascii "%d%% %#x %s") := ⟨by decide, by decide, by decide⟩

theorem sampleMem_string : StringAt sampleMem 32 (ascii "abc") := ⟨by decide, by decide, by decide⟩

/-- Its arguments: a number below zero, another, and the string. -/
def sampleArgs (i : Nat) : Nat := [2 ^ 32 - 5, 255, 32].getD i 0

theorem sampleArgs_lt (i : Nat) : sampleArgs i < 2 ^ 32 := by
  unfold sampleArgs
  match i with
  | 0 | 1 | 2 => decide
  | _ + 3 => simp

theorem printf_renders_sample :
    printfWith 32 sampleMem sampleArgs (fun _ _ => 7) 12 0 = some (ascii "-5% 000000FF abc", 11) := by
  have hpieces : parseFormat none (ascii "%d%% %#x %s") =
      some [.signed, .char 37, .char 32, .hex true, .char 32, .string] := by decide
  have hstrings : StringArgs sampleMem sampleArgs (fun _ => ascii "abc") 0
      [.signed, .char 37, .char 32, .hex true, .char 32, .string] :=
    ⟨nofun, nofun, nofun, nofun, nofun, fun _ => sampleMem_string, trivial⟩
  have hrun : printfWith 32 sampleMem sampleArgs (fun _ _ => 7) 12 0 = _ :=
    printf_renders sampleMem_format hpieces (by decide) sampleArgs_lt hstrings
  have hsigned : signedNumeral (i32 4294967291) = ascii "-5" := by
    have hvalue : i32 4294967291 = -5 := by
      unfold i32
      decide
    rw [hvalue]
    simp [signedNumeral, numeral, lookup, ascii]
  have hpadded : paddedNumeral 255 = ascii "000000FF" := by
    simp [paddedNumeral, numeral, lookup, ascii, List.replicate_succ]
  rw [hrun]
  simp only [rendered, Piece.text, Piece.taken, sampleArgs]
  simp [hsigned, hpadded]
  decide

/-- **Where `printf` stops**: a run of it that comes to an end is at the end of the format when no
conversion is open there; otherwise it has gone on behind the format. -/
theorem printf_result (h : StringAt mem format text) (hturns : text.length < turns)
    {out : List UInt8} {result : Nat}
    (hrun : printfWith limit mem args convBuf turns format = some (out, result)) :
    if (parseFormat none text).isSome then result = text.length else text.length < result := by
  obtain ⟨⟨out', last⟩, hloop, heq⟩ := Option.map_eq_some_iff.mp hrun
  have hlast := printfLoop_last h hturns hloop
  simp only [Prod.mk.injEq] at heq
  split_ifs at hlast ⊢ <;> omega

/-- A memory with a format that ends within a conversion, and another string behind it. -/
def openMem (i : Nat) : UInt8 := ((ascii "100%") ++ 0 :: ascii "abc").getD i 0

theorem printf_result_sample :
    printfWith 32 openMem sampleArgs (fun _ _ => 7) 9 0 = some (ascii "100abc", 8) ∧ 4 < 8 := by
  have hformat : StringAt openMem 0 (ascii "100%") := ⟨by decide, by decide, by decide⟩
  have hrun : printfWith 32 openMem sampleArgs (fun _ _ => 7) 9 0 = some (ascii "100abc", 8) := by decide
  exact ⟨hrun, printf_result hformat (by decide) hrun⟩

end

end SrirachOS
