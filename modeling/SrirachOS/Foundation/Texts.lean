import Mathlib.Tactic.Common

/-!
# Texts in Memory

A memory is a function from addresses to bytes. A text stands in it from an address on; a string is a
text without the terminator, zero, and with one behind it.

- `holdsAt_append`, `holdsAt_cons`: a text and its parts,
- `stringAt_cons`: a string and its first character, the induction rule of the loops that go over one,
- `StringAt.infix_iff`: a text occurs in a string where a comparison finds it.
-/

namespace Foundation

/-- The characters of a string literal. -/
def ascii (s : String) : List UInt8 := s.toList.map fun c => c.toNat.toUInt8

variable {α : Type*} {s s' : Nat → α} {start : Nat} {c : α} {a b text : List α}

/-- The text that stands in memory from `start` on. -/
def HoldsAt (s : Nat → α) (start : Nat) (text : List α) : Prop :=
  ∀ (i : Nat) (h : i < text.length), s (start + i) = text[i]

instance [DecidableEq α] : Decidable (HoldsAt s start text) :=
  inferInstanceAs (Decidable (∀ (i : Nat) (h : i < text.length), s (start + i) = text[i]))

theorem HoldsAt.congr (h : HoldsAt s start text)
    (hsame : ∀ i, start ≤ i → i < start + text.length → s' i = s i) : HoldsAt s' start text :=
  fun i hi => (hsame _ (by omega) (by omega)).trans (h i hi)

@[simp] theorem holdsAt_nil : HoldsAt s start [] := fun _ hi => absurd hi (by simp)

theorem holdsAt_append :
    HoldsAt s start (a ++ b) ↔ HoldsAt s start a ∧ HoldsAt s (start + a.length) b := by
  constructor
  · intro h
    refine ⟨fun i hi => ?_, fun i hi => ?_⟩
    · rw [h i (by simp; omega), List.getElem_append_left hi]
    · rw [Nat.add_assoc, h (a.length + i) (by simp; omega), List.getElem_append_right (by omega)]
      simp
  · rintro ⟨ha, hb⟩ i hi
    by_cases hlt : i < a.length
    · rw [ha i hlt, List.getElem_append_left hlt]
    · have hle : a.length ≤ i := Nat.not_lt.mp hlt
      have hsum : start + i = start + a.length + (i - a.length) := by omega
      rw [hsum, hb (i - a.length) (by simp at hi; omega), List.getElem_append_right hle]

/-- The first character and the rest. -/
theorem holdsAt_cons : HoldsAt s start (c :: text) ↔ s start = c ∧ HoldsAt s (start + 1) text := by
  rw [← List.singleton_append, holdsAt_append]
  refine and_congr ⟨fun h => h 0 (by simp), fun h i hi => ?_⟩ Iff.rfl
  obtain rfl : i = 0 := by simpa using hi
  exact h

/-- Two texts of one length that stand at one place are the same. -/
theorem HoldsAt.unique (ha : HoldsAt s start a) (hb : HoldsAt s start b) (hlen : a.length = b.length) :
    a = b :=
  List.ext_getElem hlen fun i h1 h2 => (ha i h1).symm.trans (hb i h2)

/-- A string: a text without the terminator, and with one behind it. -/
structure StringAt [OfNat α 0] (s : Nat → α) (start : Nat) (text : List α) : Prop where
  holds : HoldsAt s start text
  terminator : s (start + text.length) = 0
  nonzero : 0 ∉ text

variable [OfNat α 0]

theorem StringAt.congr (h : StringAt s start text)
    (hsame : ∀ i, start ≤ i → i ≤ start + text.length → s' i = s i) : StringAt s' start text where
  holds := h.holds.congr fun i h1 h2 => hsame i h1 (by omega)
  terminator := (hsame _ (by omega) (by omega)).trans h.terminator
  nonzero := h.nonzero

theorem stringAt_nil : StringAt s start [] ↔ s start = 0 :=
  ⟨fun h => h.terminator, fun h => ⟨holdsAt_nil, h, by simp⟩⟩

theorem stringAt_cons :
    StringAt s start (c :: text) ↔ s start = c ∧ c ≠ 0 ∧ StringAt s (start + 1) text := by
  have hend : start + (c :: text).length = start + 1 + text.length := by simp; omega
  constructor
  · intro h
    obtain ⟨hc, htext⟩ := holdsAt_cons.mp h.holds
    have hzero := h.nonzero
    simp only [List.mem_cons, not_or] at hzero
    exact ⟨hc, Ne.symm hzero.1, htext, hend ▸ h.terminator, hzero.2⟩
  · rintro ⟨hc, hne, h⟩
    exact ⟨holdsAt_cons.mpr ⟨hc, h.holds⟩, hend ▸ h.terminator, by simp [Ne.symm hne, h.nonzero]⟩

/-- There is a string at every place that has a terminator behind it. -/
theorem exists_stringAt {stop : Nat} (h : s stop = 0) (hle : start ≤ stop) :
    ∃ text, StringAt s start text ∧ start + text.length ≤ stop := by
  induction hgap : stop - start generalizing start with
  | zero =>
    obtain rfl : start = stop := by omega
    exact ⟨[], stringAt_nil.mpr h, by simp⟩
  | succ gap ih =>
    by_cases hzero : s start = 0
    · exact ⟨[], stringAt_nil.mpr hzero, by simpa using hle⟩
    · obtain ⟨text, htext, hfits⟩ := ih (show start + 1 ≤ stop by omega) (by omega)
      exact ⟨s start :: text, stringAt_cons.mpr ⟨rfl, hzero, htext⟩, by rw [List.length_cons]; omega⟩

/-- **Where a text occurs** in a string: a comparison that begins within the string cannot leave it. -/
theorem StringAt.infix_iff (h : StringAt s start text) (hne : b ≠ []) (hzero : 0 ∉ b) :
    b <:+: text ↔ ∃ i < text.length, HoldsAt s (start + i) b := by
  constructor
  · rintro ⟨front, rest, rfl⟩
    have hpos := List.length_pos_iff.mpr hne
    refine ⟨front.length, by simp; omega, ?_⟩
    exact (holdsAt_append.mp (holdsAt_append.mp h.holds).1).2
  · rintro ⟨i, hi, hb⟩
    -- the terminator is none of its characters
    have hfits : i + b.length ≤ text.length := by
      by_contra hlong
      have hend := hb (text.length - i) (by omega)
      rw [Nat.add_assoc, Nat.add_sub_cancel' (Nat.le_of_lt hi), h.terminator] at hend
      exact hzero (hend ▸ List.getElem_mem _)
    have hpart : HoldsAt s (start + i) ((text.drop i).take b.length) := by
      intro j hj
      rw [List.length_take, List.length_drop] at hj
      rw [Nat.add_assoc, h.holds (i + j) (by omega)]
      simp
    have heq := hb.unique hpart (by rw [List.length_take, List.length_drop]; omega)
    rw [heq]
    exact (List.take_prefix ..).isInfix.trans (List.drop_suffix ..).isInfix

end Foundation
