import Mathlib.Data.Nat.Digits.Lemmas
import SrirachOS.Foundation.Texts
import SrirachOS.Kernel.Command

/-!
# Numbers as Text

`itoa` stores the digits of a number from the lowest on, and `strrev` turns them round. The user programs
have the same two functions as `ece391_itoa` and `ece391_strrev`.

- `itoaLoop_eq`: the digits that the loop stores,
- `strrevLoop_apply`: the exchange of the characters from both ends,
- `itoa_string`: hence the numeral, and nothing else, is stored,
- `itoa_reads_back`: it is the number that a reader of it gets.
-/

namespace SrirachOS

open Foundation Kernel

/-! ## lib.c -/

/-- `lookup[i]`. -/
def lookup (i : Nat) : UInt8 := (ascii "0123456789ABCDEFGHIJKLMNOPQRSTUVWXYZ").getD i 0

/-- `while (newval > 0)` of `itoa`, with the number of turns left: the index behind the digits, and the
buffer. -/
def itoaLoop (radix : Nat) : Nat → Nat → Nat → (Nat → UInt8) → Nat × (Nat → UInt8)
  | 0, _, i, buf => (i, buf)
  | turns + 1, newval, i, buf =>
    if newval > 0 then
      itoaLoop radix turns (newval / radix) (i + 1) (Function.update buf i (lookup (newval % radix)))
    else (i, buf)

/-- `strlen(s)`, from `i` on, with the number of turns left. -/
def strlen (s : Nat → UInt8) : Nat → Nat → Nat
  | 0, _ => 0
  | turns + 1, i => if s i = 0 then 0 else strlen s turns (i + 1) + 1

/-- `while (beg < end)` of `strrev`, with the number of turns left. -/
def strrevLoop : Nat → Nat → Nat → (Nat → UInt8) → Nat → UInt8
  | 0, _, _, s => s
  | turns + 1, beg, last, s =>
    if beg < last then
      strrevLoop turns (beg + 1) (last - 1)
        (Function.update (Function.update s last (s beg)) beg (s last))
    else s

/-- `strrev(s)` of a string that begins at `start`, with the number of bytes left in its array. -/
def strrev (s : Nat → UInt8) (size start : Nat) : Nat → UInt8 :=
  strrevLoop (strlen s size start) start (start + strlen s size start - 1) s

/-- `itoa(value, buf + start, radix)`; a number of 32 bits has at most 32 digits. -/
def itoa (value start radix : Nat) (buf : Nat → UInt8) : Nat → UInt8 :=
  if value = 0 then Function.update (Function.update buf start 48) (start + 1) 0
  else
    let digits := itoaLoop radix 32 value start buf
    strrev (Function.update digits.2 digits.1 0) 33 start

/-! ## The loops -/

/-- The loop stores the digits, the lowest first. -/
theorem itoaLoop_eq {radix : Nat} (hradix : 2 ≤ radix) {turns newval : Nat} (hturns : newval < 2 ^ turns)
    (i : Nat) (buf : Nat → UInt8) :
    itoaLoop radix turns newval i buf =
      (i + (Nat.digits radix newval).length, wrote buf i ((Nat.digits radix newval).map lookup)) := by
  induction turns generalizing newval i buf with
  | zero =>
    obtain rfl : newval = 0 := by simpa using hturns
    simp [itoaLoop, wrote_nil]
  | succ turns ih =>
    rw [itoaLoop]
    by_cases hpos : newval > 0
    · have hsmaller : newval / radix < 2 ^ turns := by
        rw [Nat.pow_succ'] at hturns
        exact Nat.div_lt_of_lt_mul (hturns.trans_le (Nat.mul_le_mul_right _ hradix))
      rw [if_pos hpos, ih hsmaller, Nat.digits_def' hradix hpos, List.map_cons, wrote_cons,
        List.length_cons]
      congr 1
      omega
    · obtain rfl : newval = 0 := by omega
      simp [wrote_nil]

theorem strlen_eq {s : Nat → UInt8} {start : Nat} {text : List UInt8} (h : StringAt s start text)
    {turns : Nat} (hturns : text.length ≤ turns) : strlen s turns start = text.length := by
  induction text generalizing start turns with
  | nil =>
    have hend : s start = 0 := h.terminator
    cases turns with
    | zero => rfl
    | succ turns => simp [strlen, hend]
  | cons c text ih =>
    obtain ⟨hc, hne, hrest⟩ := stringAt_cons.mp h
    obtain ⟨turns, rfl⟩ : ∃ n, turns = n + 1 := ⟨turns - 1, by simp at hturns; omega⟩
    simp [strlen, hc, hne, ih hrest (by simpa using hturns)]

/-- **The exchange**: every character between the two ends goes to the mirrored place. -/
theorem strrevLoop_apply {turns beg last : Nat} (hturns : last < beg + turns) (s : Nat → UInt8)
    (x : Nat) :
    strrevLoop turns beg last s x = if beg ≤ x ∧ x ≤ last then s (beg + last - x) else s x := by
  induction turns generalizing beg last s with
  | zero =>
    rw [strrevLoop, if_neg (by omega)]
  | succ turns ih =>
    rw [strrevLoop]
    by_cases hlt : beg < last
    · rw [if_pos hlt, ih (by omega)]
      by_cases hinner : beg + 1 ≤ x ∧ x ≤ last - 1
      · -- inside, nothing has been exchanged yet
        have hmirror : beg + 1 + (last - 1) - x = beg + last - x := by omega
        rw [if_pos hinner, if_pos (by omega), hmirror, Function.update_of_ne (by omega),
          Function.update_of_ne (by omega)]
      · rw [if_neg hinner]
        by_cases hbeg : x = beg
        · rw [hbeg, Function.update_self, if_pos (by omega), Nat.add_sub_cancel_left]
        · rw [Function.update_of_ne hbeg]
          by_cases hlast : x = last
          · rw [hlast, Function.update_self, if_pos (by omega), Nat.add_sub_cancel]
          · rw [Function.update_of_ne hlast, if_neg (by omega)]
    · rw [if_neg hlt]
      by_cases hx : beg ≤ x ∧ x ≤ last
      · have hmiddle : beg + last - x = x := by omega
        rw [if_pos hx, hmiddle]
      · rw [if_neg hx]

/-- A string is reversed in its place. -/
theorem strrev_string {s : Nat → UInt8} {start size : Nat} {text : List UInt8}
    (h : StringAt s start text) (hsize : text.length ≤ size) :
    StringAt (strrev s size start) start text.reverse ∧
      ∀ x, x < start ∨ start + text.length ≤ x → strrev s size start x = s x := by
  by_cases hnil : text = []
  · have hsame : strrev s size start = s := by
      rw [strrev, strlen_eq h hsize, hnil]
      rfl
    rw [hsame]
    exact ⟨by simpa [hnil] using h, fun _ _ => rfl⟩
  have hpos := List.length_pos_iff.mpr hnil
  have happly : ∀ x, strrev s size start x = if start ≤ x ∧ x ≤ start + text.length - 1 then
      s (start + (start + text.length - 1) - x) else s x := fun x => by
    rw [strrev, strlen_eq h hsize]
    exact strrevLoop_apply (by omega) s x
  refine ⟨⟨fun i hi => ?_, ?_, by simpa using h.nonzero⟩, fun x hx => ?_⟩
  · rw [List.length_reverse] at hi
    have hmirror : start + (start + text.length - 1) - (start + i) = start + (text.length - 1 - i) := by
      omega
    rw [happly, if_pos (by omega), hmirror, h.holds _ (by omega), List.getElem_reverse]
  · rw [List.length_reverse, happly, if_neg (by omega)]
    exact h.terminator
  · rw [happly, if_neg (by omega)]

/-! ## Numerals -/

/-- The numeral of a number. -/
def numeral (radix value : Nat) : List UInt8 :=
  if value = 0 then [48] else ((Nat.digits radix value).map lookup).reverse

/-- The value of a digit. -/
def digitValue (c : UInt8) : Nat := if c.toNat < 58 then c.toNat - 48 else c.toNat - 55

/-- What a reader of a numeral gets, from the highest digit on. -/
def readNumeral (radix : Nat) (text : List UInt8) : Nat :=
  text.foldl (fun value c => value * radix + digitValue c) 0

theorem lookup_ne_zero : ∀ i < 36, lookup i ≠ 0 := by decide

theorem digitValue_lookup : ∀ i < 36, digitValue (lookup i) = i := by decide

section

variable {radix value : Nat}

/-- A number below a power of the radix has at most so many digits. -/
theorem numeral_length (hradix : 2 ≤ radix) {k : Nat} (hk : 0 < k) (hvalue : value < radix ^ k) :
    (numeral radix value).length ≤ k := by
  unfold numeral
  split
  · exact hk
  · rw [List.length_reverse, List.length_map]
    exact (Nat.digits_length_le_iff hradix value).mpr hvalue

theorem digit_lt (hradix : 2 ≤ radix) (h36 : radix ≤ 36) {d : Nat} (hd : d ∈ Nat.digits radix value) :
    d < 36 :=
  (Nat.digits_lt_base hradix hd).trans_le h36

theorem zero_notMem_numeral (hradix : 2 ≤ radix) (h36 : radix ≤ 36) : 0 ∉ numeral radix value := by
  unfold numeral
  split
  · decide
  · simp only [List.mem_reverse, List.mem_map, not_exists, not_and]
    exact fun d hd => lookup_ne_zero d (digit_lt hradix h36 hd)

/-- **The numeral is stored**, and nothing else. -/
theorem itoa_string (hradix : 2 ≤ radix) (h36 : radix ≤ 36) (hvalue : value < 2 ^ 32) (start : Nat)
    (buf : Nat → UInt8) :
    StringAt (itoa value start radix buf) start (numeral radix value) ∧
      ∀ x, x < start ∨ start + (numeral radix value).length < x →
        itoa value start radix buf x = buf x := by
  have hlength := numeral_length hradix (k := 32) (by decide)
    (hvalue.trans_le (Nat.pow_le_pow_left hradix 32))
  have hnonzero : 0 ∉ numeral radix value := zero_notMem_numeral hradix h36
  unfold numeral at hlength hnonzero ⊢
  unfold itoa
  by_cases hzero : value = 0
  · simp only [hzero, if_true]
    refine ⟨stringAt_cons.mpr ⟨?_, by decide, stringAt_nil.mpr (Function.update_self ..)⟩, fun x hx => ?_⟩
    · rw [Function.update_of_ne (by omega), Function.update_self]
    · rw [List.length_singleton] at hx
      rw [Function.update_of_ne (by omega), Function.update_of_ne (by omega)]
  · simp only [if_neg hzero, List.length_reverse, List.length_map, List.mem_reverse] at hlength hnonzero ⊢
    rw [itoaLoop_eq hradix hvalue]
    -- the digits, with a terminator behind them
    have hdigits : StringAt (Function.update (wrote buf start ((Nat.digits radix value).map lookup))
        (start + (Nat.digits radix value).length) 0) start ((Nat.digits radix value).map lookup) := by
      refine ⟨fun i hi => ?_, by rw [List.length_map]; exact Function.update_self .., hnonzero⟩
      rw [List.length_map] at hi
      rw [Function.update_of_ne (by omega), wrote, if_pos (by omega), Nat.add_sub_cancel_left,
        List.getD_eq_getElem]
    obtain ⟨hreversed, hframe⟩ := strrev_string hdigits (show _ ≤ 33 by rw [List.length_map]; omega)
    refine ⟨hreversed, fun x hx => ?_⟩
    rw [List.length_map] at hframe
    dsimp only
    rw [hframe x (by omega), Function.update_of_ne (by omega), wrote]
    split
    · rw [List.getD_eq_default _ _ (by rw [List.length_map]; omega)]
    · rfl

/-- Digits that are read from the highest on. -/
theorem readNumeral_digits {digits : List Nat} (h : ∀ d ∈ digits, d < 36) :
    readNumeral radix (digits.map lookup).reverse = Nat.ofDigits radix digits := by
  induction digits with
  | nil => rfl
  | cons d digits ih =>
    obtain ⟨hd, hrest⟩ := List.forall_mem_cons.mp h
    have hfold := ih hrest
    rw [readNumeral] at hfold
    rw [readNumeral, List.map_cons, List.reverse_cons, List.foldl_append, hfold, List.foldl_cons,
      List.foldl_nil, digitValue_lookup d hd, Nat.ofDigits_cons, Nat.mul_comm, Nat.add_comm]

/-- **A numeral reads back** as its number. -/
theorem readNumeral_numeral (hradix : 2 ≤ radix) (h36 : radix ≤ 36) (value : Nat) :
    readNumeral radix (numeral radix value) = value := by
  unfold numeral
  split
  · rename_i hzero
    rw [hzero]
    simp [readNumeral, digitValue]
  · rw [readNumeral_digits fun d hd => digit_lt hradix h36 hd, Nat.ofDigits_digits]

/-- No numeral of a number that is not zero begins with a zero. -/
theorem numeral_head (hradix : 2 ≤ radix) (h36 : radix ≤ 36) (hvalue : value ≠ 0) :
    (numeral radix value).head? ≠ some 48 := by
  have hlookup : ∀ d < 36, lookup d = 48 → d = 0 := by decide
  have hne : Nat.digits radix value ≠ [] := Nat.digits_ne_nil_iff_ne_zero.mpr hvalue
  rw [numeral, if_neg hvalue, List.head?_reverse, List.getLast?_map,
    List.getLast?_eq_getLast_of_ne_nil hne, Option.map_some]
  intro h
  exact Nat.getLast_digit_ne_zero radix hvalue
    (hlookup _ (digit_lt hradix h36 (List.getLast_mem hne)) (Option.some.inj h))

/-- **Numbers survive as text**: for every radix from 2 to 36 and every number of 32 bits, `itoa` stores a
string of at most 32 characters that reads back as the number and has no zero too many in front, and
changes nothing else. -/
theorem itoa_reads_back (hradix : 2 ≤ radix) (h36 : radix ≤ 36) (hvalue : value < 2 ^ 32) (start : Nat)
    (buf : Nat → UInt8) :
    ∃ text, StringAt (itoa value start radix buf) start text ∧ readNumeral radix text = value ∧
      text.length ≤ 32 ∧ (value ≠ 0 → text.head? ≠ some 48) ∧
      ∀ x, x < start ∨ start + text.length < x → itoa value start radix buf x = buf x := by
  obtain ⟨hstring, hframe⟩ := itoa_string hradix h36 hvalue start buf
  exact ⟨_, hstring, readNumeral_numeral hradix h36 value,
    numeral_length hradix (by decide) (hvalue.trans_le (Nat.pow_le_pow_left hradix 32)),
    numeral_head hradix h36, hframe⟩

end

theorem itoa_reads_back_sample :
    ∃ text, StringAt (itoa 255 0 16 fun _ => 0) 0 text ∧ readNumeral 16 text = 255 := by
  obtain ⟨text, hstring, hread, -⟩ := itoa_reads_back (show 2 ≤ 16 by decide) (by decide)
    (show 255 < 2 ^ 32 by decide) 0 fun _ => 0
  exact ⟨text, hstring, hread⟩

end SrirachOS
