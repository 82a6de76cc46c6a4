import Mathlib.Tactic.Common

/-!
# Line by Line

What a program gets that goes through a text line by line, and answers each line with some output. A text
can be taken in pieces: only a piece that ends within a line has to wait for the rest.

- `perLine_line`: a line with its separator comes off the front of the text,
- `perLine_cut`: a piece without separators is a line if the text ends with it, or a separator follows,
- `exists_line_of_prefix`: otherwise it is the beginning of a longer line.
-/

namespace Foundation

variable {α β : Type*} [BEq α] [LawfulBEq α] {sep : α} {f : List α → List β} {line text : List α}

/-- The answers to the lines of a text, one after the other. -/
def perLine (sep : α) (f : List α → List β) (text : List α) : List β := (text.splitOn sep).flatMap f

theorem perLine_line (h : sep ∉ line) (text : List α) :
    perLine sep f (line ++ sep :: text) = f line ++ perLine sep f text := by
  rw [perLine, List.splitOn_append_cons_self_of_not_mem h, List.flatMap_cons, perLine]

theorem perLine_last (h : sep ∉ line) : perLine sep f line = f line := by
  rw [perLine, List.splitOn_eq_singleton h, List.flatMap_singleton]

/-- An empty line has no answer. -/
theorem perLine_nil (hf : f [] = []) : perLine sep f [] = [] := (perLine_last (by simp)).trans hf

/-- **A piece that is a line**, although its separator, if it has one, comes later. -/
theorem perLine_cut (hf : f [] = []) (h : sep ∉ line)
    (hcut : text = [] ∨ text.head? = some sep) :
    perLine sep f (line ++ text) = f line ++ perLine sep f text := by
  cases text with
  | nil => rw [List.append_nil, perLine_last h, perLine_nil hf, List.append_nil]
  | cons c text =>
    obtain rfl : c = sep := by simpa using hcut
    rw [perLine_line h, ← List.nil_append (c :: text), perLine_line (by simp), hf, List.nil_append]

/-- A piece without separators is the beginning of a line. -/
theorem exists_line_of_prefix (h : sep ∉ line) (text : List α) :
    ∃ l ∈ (line ++ text).splitOn sep, line <+: l := by
  by_cases hmem : sep ∈ text
  · obtain ⟨front, rest, rfl, hfront⟩ := List.eq_append_cons_of_mem hmem
    rw [← List.append_assoc, List.splitOn_append_cons_self_of_not_mem (by simp [h, hfront])]
    exact ⟨line ++ front, List.mem_cons_self, List.prefix_append ..⟩
  · rw [List.splitOn_eq_singleton (by simp [h, hmem])]
    exact ⟨line ++ text, List.mem_singleton_self _, List.prefix_append ..⟩

/-- **A long piece**: in a text of short lines it is a whole line. -/
theorem cut_of_length {n : Nat} (h : sep ∉ line) (hlen : n ≤ line.length)
    (hshort : ∀ l ∈ (line ++ text).splitOn sep, l.length ≤ n) :
    text = [] ∨ text.head? = some sep := by
  cases text with
  | nil => exact .inl rfl
  | cons c text =>
    refine .inr ?_
    by_contra hne
    have hne' : sep ∉ line ++ [c] := by
      simp only [List.head?_cons, Option.some.injEq] at hne
      simp [h, Ne.symm hne]
    -- the piece goes on with another character
    obtain ⟨l, hl, hprefix⟩ := exists_line_of_prefix hne' text
    rw [List.append_assoc, List.singleton_append] at hl
    have hle := hprefix.length_le
    have := hshort l hl
    rw [List.length_append, List.length_singleton] at hle
    omega

/-- The lines behind the first one are lines of the text. -/
theorem mem_splitOn_of_tail {l : List α} (h : l ∈ text.splitOn sep) (line : List α) :
    l ∈ (line ++ sep :: text).splitOn sep := by
  rw [List.splitOn_append_cons_self]
  exact List.mem_append_right _ h

/-- The lines behind a whole line, of which the first may be the empty rest of it. -/
theorem mem_splitOn_of_cut {l : List α} (hcut : text = [] ∨ text.head? = some sep)
    (h : l ∈ text.splitOn sep) (line : List α) : l = [] ∨ l ∈ (line ++ text).splitOn sep := by
  cases text with
  | nil =>
    rw [List.splitOn_nil, List.mem_singleton] at h
    exact .inl h
  | cons c text =>
    obtain rfl : c = sep := by simpa using hcut
    rw [← List.nil_append (c :: text), List.splitOn_append_cons_self_of_not_mem (by simp)] at h
    rcases List.mem_cons.mp h with rfl | htail
    · exact .inl rfl
    · exact .inr (mem_splitOn_of_tail htail line)

end Foundation
