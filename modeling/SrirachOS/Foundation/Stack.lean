import Mathlib.Tactic.Common

/-!
# A Stack of Words in a Byte Memory

Memory is a total map from 32-bit addresses to bytes; a word is four bytes, the lowest first.
Addresses wrap around, so nothing here asks where the stack lies.

- `Kept`: two memories have the same bytes over a range,
- `Holds`: consecutive words stand from an address upward.

A `push` stores below what a stack holds and keeps all of it (`Holds.push`), a `pop` reads the first
word and leaves the rest (`Holds.load`, `Holds.pop`), and a change that keeps the bytes of a
stack keeps its words (`Holds.of_kept`).
-/

namespace Foundation

/-- A 32-bit machine word, also an address. -/
abbrev Word := BitVec 32

/-- Byte-addressed memory. -/
abbrev Memory := Word → BitVec 8

namespace Memory

/-- The little-endian word at an address. -/
def load (m : Memory) (a : Word) : Word := m (a + 3) ++ m (a + 2) ++ m (a + 1) ++ m a

/-- Store a word at an address, its low byte first. -/
def store (m : Memory) (a w : Word) : Memory := fun x =>
  if x = a then w.extractLsb' 0 8
  else if x = a + 1 then w.extractLsb' 8 8
  else if x = a + 2 then w.extractLsb' 16 8
  else if x = a + 3 then w.extractLsb' 24 8
  else m x

theorem load_store (m : Memory) (a w : Word) : (m.store a w).load a = w := by
  have h10 : a + 1 ≠ a := by bv_omega
  have h20 : a + 2 ≠ a := by bv_omega
  have h30 : a + 3 ≠ a := by bv_omega
  have h21 : a + 2 ≠ a + 1 := by bv_omega
  have h31 : a + 3 ≠ a + 1 := by bv_omega
  have h32 : a + 3 ≠ a + 2 := by bv_omega
  simp only [load, store, if_neg h10, if_neg h20, if_neg h30, if_neg h21, if_neg h31, if_neg h32,
    if_true]
  apply BitVec.eq_of_getLsbD_eq
  intro i hi
  simp only [BitVec.getLsbD_append, BitVec.getLsbD_extractLsb']
  grind

theorem store_other (m : Memory) {a x : Word} (w : Word) (h : ∀ j < 4, x ≠ a + BitVec.ofNat 32 j) :
    m.store a w x = m x := by
  have h0 : x ≠ a := by simpa using h 0 (by omega)
  have h1 : x ≠ a + 1 := h 1 (by omega)
  have h2 : x ≠ a + 2 := h 2 (by omega)
  have h3 : x ≠ a + 3 := h 3 (by omega)
  simp only [store, if_neg h0, if_neg h1, if_neg h2, if_neg h3]

end Memory

/-! ## Bytes that are kept -/

/-- The `n` bytes from `a` upward are the same in both memories. -/
def Kept (m m' : Memory) (a : Word) (n : Nat) : Prop :=
  ∀ i < n, m' (a + BitVec.ofNat 32 i) = m (a + BitVec.ofNat 32 i)

namespace Kept

variable {m m' m'' : Memory} {a : Word} {n k : Nat}

theorem refl (m : Memory) (a : Word) (n : Nat) : Kept m m a n := fun _ _ => rfl

theorem trans (h : Kept m m' a n) (h' : Kept m' m'' a n) : Kept m m'' a n :=
  fun i hi => (h' i hi).trans (h i hi)

theorem mono (h : Kept m m' a n) (hk : k ≤ n) : Kept m m' a k :=
  fun i hi => h i (Nat.lt_of_lt_of_le hi hk)

/-- The bytes from further up are kept too. -/
theorem above (h : Kept m m' a n) (k : Nat) : Kept m m' (a + BitVec.ofNat 32 k) (n - k) := by
  intro i hi
  have hsum : a + BitVec.ofNat 32 k + BitVec.ofNat 32 i = a + BitVec.ofNat 32 (k + i) := by
    rw [BitVec.add_assoc, ← BitVec.ofNat_add]
  rw [hsum]
  exact h (k + i) (by omega)

/-- A store keeps every range that ends before the address comes around again. -/
theorem store (m : Memory) (a w : Word) (hn : n + 4 ≤ 4294967296) :
    Kept m (m.store (a - 4) w) a n := by
  intro i hi
  apply Memory.store_other
  intro j hj
  bv_omega

theorem load (h : Kept m m' a n) (hn : 4 ≤ n) : m'.load a = m.load a := by
  have h0 : m' a = m a := by simpa using h 0 (by omega)
  have h1 : m' (a + 1) = m (a + 1) := h 1 (by omega)
  have h2 : m' (a + 2) = m (a + 2) := h 2 (by omega)
  have h3 : m' (a + 3) = m (a + 3) := h 3 (by omega)
  simp only [Memory.load, h0, h1, h2, h3]

end Kept

/-! ## Words that stand in memory -/

/-- The words stand one after the other from the address upward. -/
def Holds (m : Memory) : Word → List Word → Prop
  | _, [] => True
  | a, w :: ws => m.load a = w ∧ Holds m (a + 4) ws

namespace Holds

variable {m m' : Memory} {a w : Word} {ws : List Word}

theorem load (h : Holds m a (w :: ws)) : m.load a = w := h.1

theorem pop (h : Holds m a (w :: ws)) : Holds m (a + 4) ws := h.2

theorem of_kept (h : Holds m a ws) (hk : Kept m m' a (4 * ws.length)) : Holds m' a ws := by
  induction ws generalizing a with
  | nil => trivial
  | cons w ws ih =>
    rw [List.length_cons] at hk
    obtain ⟨hload, hrest⟩ := h
    refine ⟨(hk.load (by omega)).trans hload, ih hrest ?_⟩
    exact (hk.above 4).mono (by omega)

theorem push (h : Holds m a ws) (w : Word) (hlen : 4 * ws.length + 4 ≤ 4294967296) :
    Holds (m.store (a - 4) w) (a - 4) (w :: ws) := by
  refine ⟨m.load_store (a - 4) w, ?_⟩
  rw [BitVec.sub_add_cancel]
  exact h.of_kept (Kept.store m a w hlen)

/-- What stands above the first `k` words. -/
theorem drop (h : Holds m a ws) (k : Nat) : Holds m (a + BitVec.ofNat 32 (4 * k)) (ws.drop k) := by
  induction k generalizing a ws with
  | zero => simpa using h
  | succ k ih =>
    cases ws with
    | nil => trivial
    | cons w ws =>
      have hsum : a + BitVec.ofNat 32 (4 * (k + 1)) = a + 4 + BitVec.ofNat 32 (4 * k) := by bv_omega
      rw [hsum]
      exact ih h.pop

end Holds

end Foundation
