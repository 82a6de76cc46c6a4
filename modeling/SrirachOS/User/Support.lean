import SrirachOS.Lib.Itoa

/-!
# The Support Library of the User Programs

The string functions of `ece391support.c`, which every user program is linked with. They go over a
string byte by byte and stop only at its terminator; each loop has as many turns as the array has bytes
left.

- `ece391Strlen_eq`: the length of a text,
- `ece391Strcmp_eq_zero`, `ece391Strncmp_eq_zero`: when two texts agree, as a whole or up to a length,
- `ece391Strcpy_moves`: a text that is moved towards the beginning of its own array.
-/

namespace SrirachOS

open Foundation Kernel

namespace User

/-! ## Texts -/

/-- A literal in memory. -/
theorem stringAt_char {text : CStr} (h : 0 ∉ text) : StringAt text.char 0 text where
  holds i hi := by simp [CStr.char, List.getElem?_eq_getElem hi]
  terminator := by simp [CStr.char]
  nonzero := h

/-! ## ece391support.c -/

/-- `ece391_strlen(s)`, from `i` on: the loop of `strlen`. -/
def ece391Strlen (s : Nat → UInt8) (turns i : Nat) : Nat := strlen s turns i

/-- `ece391_strcmp(s1, s2)`; the strings begin at two places. -/
def ece391Strcmp (s1 s2 : Nat → UInt8) : Nat → Nat → Nat → Int
  | 0, _, _ => 0
  | turns + 1, i, j =>
    if s1 i = s2 j then
      if s1 i = 0 then 0 else ece391Strcmp s1 s2 turns (i + 1) (j + 1)
    else (s1 i).toNat - (s2 j).toNat

/-- `ece391_strncmp(s1, s2, n)`. -/
def ece391Strncmp (s1 s2 : Nat → UInt8) : Nat → Nat → Nat → Int
  | 0, _, _ => 0
  | n + 1, i, j =>
    if s1 i = s2 j then
      if s1 i = 0 ∨ n = 0 then 0 else ece391Strncmp s1 s2 n (i + 1) (j + 1)
    else (s1 i).toNat - (s2 j).toNat

/-- `ece391_strcpy(dst, src)` within one array. -/
def ece391Strcpy : Nat → Nat → Nat → (Nat → UInt8) → Nat → UInt8
  | 0, _, _, mem => mem
  | turns + 1, dst, src, mem =>
    if mem src = 0 then Function.update mem dst 0
    else ece391Strcpy turns (dst + 1) (src + 1) (Function.update mem dst (mem src))

/-! ## Their results -/

/-- The length is that of the text, if the array is long enough for it. -/
theorem ece391Strlen_eq {s : Nat → UInt8} {start : Nat} {text : List UInt8} (h : StringAt s start text)
    {turns : Nat} (hturns : text.length ≤ turns) : ece391Strlen s turns start = text.length :=
  strlen_eq h hturns

theorem toNat_sub_ne_zero {a b : UInt8} (h : a ≠ b) : (a.toNat : Int) - b.toNat ≠ 0 := by
  intro heq
  exact h (UInt8.toNat_inj.mp (by omega))

/-- Two strings compare equal exactly when they are the same text. -/
theorem ece391Strcmp_eq_zero {s1 s2 : Nat → UInt8} {i j : Nat} {a b : List UInt8} (ha : StringAt s1 i a)
    (hb : StringAt s2 j b) {turns : Nat} (hturns : a.length < turns) :
    ece391Strcmp s1 s2 turns i j = 0 ↔ a = b := by
  induction a generalizing i j b turns with
  | nil =>
    obtain ⟨turns, rfl⟩ : ∃ n, turns = n + 1 := ⟨turns - 1, by omega⟩
    have hi : s1 i = 0 := ha.terminator
    cases b with
    | nil =>
      have hj : s2 j = 0 := hb.terminator
      simp [ece391Strcmp, hi, hj]
    | cons d b =>
      obtain ⟨hd, hne, -⟩ := stringAt_cons.mp hb
      have hdiff : s1 i ≠ s2 j := by simpa [hi, hd] using Ne.symm hne
      simpa [ece391Strcmp, hdiff] using toNat_sub_ne_zero hdiff
  | cons c a ih =>
    obtain ⟨turns, rfl⟩ : ∃ n, turns = n + 1 := ⟨turns - 1, by omega⟩
    obtain ⟨hc, hne, hrest⟩ := stringAt_cons.mp ha
    cases b with
    | nil =>
      have hj : s2 j = 0 := hb.terminator
      have hdiff : s1 i ≠ s2 j := by simpa [hc, hj] using hne
      simpa [ece391Strcmp, hdiff] using toNat_sub_ne_zero hdiff
    | cons d b =>
      obtain ⟨hd, -, hrest'⟩ := stringAt_cons.mp hb
      by_cases hsame : c = d
      · subst hsame
        simpa [ece391Strcmp, hc, hd, hne] using ih hrest hrest' (by simpa using hturns)
      · have hdiff : s1 i ≠ s2 j := by simpa [hc, hd] using hsame
        simpa [ece391Strcmp, hdiff, hsame] using toNat_sub_ne_zero hdiff

/-- Up to the length of the second text, which has no zero in it. -/
theorem ece391Strncmp_eq_zero {s1 s2 : Nat → UInt8} {i j : Nat} {b : List UInt8}
    (hb : HoldsAt s2 j b) (hzero : 0 ∉ b) :
    ece391Strncmp s1 s2 b.length i j = 0 ↔ HoldsAt s1 i b := by
  induction b generalizing i j with
  | nil => simp [ece391Strncmp, HoldsAt]
  | cons d b ih =>
    obtain ⟨hd, hrest⟩ := holdsAt_cons.mp hb
    simp only [List.mem_cons, not_or] at hzero
    rw [holdsAt_cons, List.length_cons, ece391Strncmp]
    by_cases hsame : s1 i = s2 j
    · have hnonzero : s1 i ≠ 0 := by rw [hsame, hd]; exact Ne.symm hzero.1
      rw [if_pos hsame]
      by_cases hlast : b.length = 0
      · -- the last character that is compared
        obtain rfl := List.length_eq_zero_iff.mp hlast
        simp [hsame, hd, HoldsAt]
      · rw [if_neg (by simp [hnonzero, hlast]), ih hrest hzero.2]
        simp [hsame, hd]
    · rw [if_neg hsame]
      exact iff_of_false (toNat_sub_ne_zero hsame) fun h => hsame (h.1.trans hd.symm)

/-- **A text moves to the front** of its own array. Going forward, the copy reads each character before
it is overwritten; the bytes between are left alone up to the place of the terminator. -/
theorem ece391Strcpy_moves {mem : Nat → UInt8} {dst src : Nat} (hle : dst ≤ src) {text : List UInt8}
    (h : StringAt mem src text) {turns : Nat} (hturns : text.length < turns) :
    StringAt (ece391Strcpy turns dst src mem) dst text ∧
      ∀ x, x < dst ∨ dst + text.length < x → ece391Strcpy turns dst src mem x = mem x := by
  induction text generalizing mem dst src turns with
  | nil =>
    obtain ⟨turns, rfl⟩ : ∃ n, turns = n + 1 := ⟨turns - 1, by omega⟩
    have hend : mem src = 0 := h.terminator
    rw [ece391Strcpy, if_pos hend]
    refine ⟨⟨fun i hi => absurd hi (by simp), by simp, by simp⟩, fun x hx => ?_⟩
    exact Function.update_of_ne (by simp at hx; omega) ..
  | cons c text ih =>
    obtain ⟨turns, rfl⟩ : ∃ n, turns = n + 1 := ⟨turns - 1, by omega⟩
    obtain ⟨hc, hne, hrest⟩ := stringAt_cons.mp h
    -- what is still to be copied lies behind the character that is stored now
    have hkeep : ∀ x, src + 1 ≤ x → Function.update mem dst c x = mem x := fun x hx =>
      Function.update_of_ne (by omega) ..
    have hrest' : StringAt (Function.update mem dst c) (src + 1) text :=
      ⟨hrest.holds.congr fun x hx _ => hkeep x hx, by rw [hkeep _ (by omega)]; exact hrest.terminator,
        hrest.nonzero⟩
    obtain ⟨hmoved, hframe⟩ := ih (show dst + 1 ≤ src + 1 by omega) hrest' (by simpa using hturns)
    have hstep : ece391Strcpy (turns + 1) dst src mem =
        ece391Strcpy turns (dst + 1) (src + 1) (Function.update mem dst c) := by
      rw [ece391Strcpy, hc, if_neg hne]
    rw [hstep]
    refine ⟨stringAt_cons.mpr ⟨?_, hne, hmoved⟩, fun x hx => ?_⟩
    · rw [hframe dst (by omega), Function.update_self]
    · rw [List.length_cons] at hx
      rw [hframe x (by omega)]
      exact Function.update_of_ne (by omega) ..

end User

end SrirachOS
