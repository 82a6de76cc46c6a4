import Mathlib.Data.List.Basic
import Mathlib.Logic.Function.Basic
import Mathlib.Tactic.Common

/-!
# Chains of Cells

The cells of a memory are linked to one another: each has a link, which names the next cell or none. A chain
is the cells that the links lead through from a head.

- `Chain.push`, `Chain.unlink`: a cell is put in front, and a cell is taken out,
- `seek_eq`, `findPlace_eq`: the loops that look for a cell, and for the link that names it,
- `sweep_eq`, `sweep_loop`: the loop that works on every cell, and the links that it never gets out of.
-/

namespace Foundation.Chains

variable {P σ : Type} {next next' : P → Option P} {head link : Option P} {p q : P} {ps qs front back : List P}

/-- The links lead from `head` through these cells, and end there. -/
def Chain (next : P → Option P) : Option P → List P → Prop
  | head, [] => head = none
  | head, p :: ps => head = some p ∧ Chain next (next p) ps

@[simp] theorem chain_nil : Chain next head [] ↔ head = none := Iff.rfl

@[simp] theorem chain_cons : Chain next head (p :: ps) ↔ head = some p ∧ Chain next (next p) ps := Iff.rfl

/-- The links of other cells do not matter. -/
theorem Chain.congr (h : Chain next head ps) (hsame : ∀ p ∈ ps, next' p = next p) : Chain next' head ps := by
  induction ps generalizing head with
  | nil => exact h
  | cons p ps ih =>
    rw [List.forall_mem_cons] at hsame
    refine ⟨h.1, ?_⟩
    rw [hsame.1]
    exact ih h.2 hsame.2

/-! ## Cells are put in and taken out -/

section

variable [DecidableEq P]

theorem Chain.update (h : Chain next head ps) (hp : p ∉ ps) (link : Option P) :
    Chain (Function.update next p link) head ps :=
  h.congr fun _ hq => Function.update_of_ne (ne_of_mem_of_not_mem hq hp) ..

/-- A cell in front. -/
theorem Chain.push (h : Chain next head ps) (hp : p ∉ ps) :
    Chain (Function.update next p head) (some p) (p :: ps) := by
  refine ⟨rfl, ?_⟩
  rw [Function.update_self]
  exact h.update hp head

/-- From a cell on, the links lead elsewhere. -/
theorem Chain.relink (h : Chain next head (front ++ q :: back)) (hfront : q ∉ front) (hqs : q ∉ qs)
    (hnew : Chain next link qs) : Chain (Function.update next q link) head (front ++ q :: qs) := by
  induction front generalizing head with
  | nil =>
    refine ⟨h.1, ?_⟩
    rw [Function.update_self]
    exact hnew.update hqs link
  | cons p front ih =>
    simp only [List.mem_cons, not_or] at hfront
    refine ⟨h.1, ?_⟩
    rw [Function.update_of_ne (Ne.symm hfront.1)]
    exact ih h.2 hfront.2

end

/-- What a cell in a chain is linked to. -/
theorem Chain.rest (h : Chain next head (front ++ p :: back)) : Chain next (next p) back := by
  induction front generalizing head with
  | nil => exact h.2
  | cons q front ih => exact ih h.2

/-- A place that holds a link: the head, or a cell. -/
def linkAt (next : P → Option P) (head : Option P) : Option P → Option P
  | none => head
  | some q => next q

/-- **A cell is taken out** when the link that names it is set to its own. -/
theorem Chain.unlink [DecidableEq P] (h : Chain next head (front ++ p :: back))
    (hnodup : (front ++ p :: back).Nodup) :
    Chain (front.getLast?.elim next fun q => Function.update next q (next p))
      (front.getLast?.elim (next p) fun _ => head) (front ++ back) := by
  obtain rfl | ⟨front, q, rfl⟩ := front.eq_nil_or_concat
  · exact h.rest
  · have hback : Chain next (next p) back := h.rest
    simp only [List.concat_eq_append, List.getLast?_append, List.getLast?_singleton, Option.some_or,
      Option.elim_some, List.append_assoc, List.singleton_append] at h hnodup ⊢
    obtain ⟨-, htail, hapart⟩ := List.nodup_append.mp hnodup
    have hq := (List.nodup_cons.mp htail).1
    exact h.relink (fun hmem => hapart q hmem q List.mem_cons_self rfl)
      (fun hmem => hq (List.mem_cons_of_mem p hmem)) hback

/-! ## Loops -/

/-- The first cell that passes a test, with the number of turns left. -/
def seek (next : P → Option P) (test : P → Bool) : Nat → Option P → Option (Option P)
  | _, none => some none
  | 0, some _ => none
  | turns + 1, some p => if test p then some (some p) else seek next test turns (next p)

theorem seek_eq {test : P → Bool} (h : Chain next head ps) {turns : Nat} (hturns : ps.length ≤ turns) :
    seek next test turns head = some (ps.find? test) := by
  induction ps generalizing head turns with
  | nil =>
    obtain rfl : head = none := h
    cases turns <;> rfl
  | cons p ps ih =>
    obtain ⟨rfl, hrest⟩ := h
    obtain ⟨turns, rfl⟩ : ∃ n, turns = n + 1 := ⟨turns - 1, by simp at hturns; omega⟩
    rw [seek, List.find?_cons, ih hrest (by simpa using hturns)]
    cases test p <;> rfl

/-- The place whose link names `p`, from `place` on; it goes on to the cell that is named instead. -/
def findPlace [DecidableEq P] (next : P → Option P) (head : Option P) (p : P) :
    Nat → Option P → Option (Option P)
  | 0, _ => none
  | turns + 1, place =>
    match linkAt next head place with
    | none => none
    | some q => if q = p then some place else findPlace next head p turns (some q)

theorem findPlace_from [DecidableEq P] (place : Option P)
    (h : Chain next (linkAt next head place) (front ++ p :: back)) (hp : p ∉ front) {turns : Nat}
    (hturns : front.length < turns) :
    findPlace next head p turns place = some (front.getLast?.elim place some) := by
  induction front generalizing place turns with
  | nil =>
    obtain ⟨turns, rfl⟩ : ∃ n, turns = n + 1 := ⟨turns - 1, by simp at hturns; omega⟩
    have hlink : linkAt next head place = some p := h.1
    simp [findPlace, hlink]
  | cons q front ih =>
    obtain ⟨turns, rfl⟩ : ∃ n, turns = n + 1 := ⟨turns - 1, by simp at hturns; omega⟩
    simp only [List.mem_cons, not_or] at hp
    have hlink : linkAt next head place = some q := h.1
    simp only [findPlace, hlink, if_neg (Ne.symm hp.1)]
    rw [ih (some q) h.2 hp.2 (by simpa using hturns), List.getLast?_cons]
    cases front.getLast? <;> rfl

/-- **The link to a cell** is found in the cell before it, or in the head. -/
theorem findPlace_eq [DecidableEq P] (h : Chain next head (front ++ p :: back)) (hp : p ∉ front) {turns : Nat}
    (hturns : front.length < turns) : findPlace next head p turns none = some front.getLast? := by
  rw [findPlace_from none h hp hturns]
  cases front.getLast? <;> rfl

/-- Work on every cell, with the number of turns left. -/
def sweep (next : σ → P → Option P) (body : P → σ → σ) : Nat → Option P → σ → Option σ
  | _, none, s => some s
  | 0, some _, _ => none
  | turns + 1, some p, s => sweep next body turns (next (body p s) p) (body p s)

/-- **The work is done once on each cell**, in the order of the chain, if it leaves the links alone. -/
theorem sweep_eq {next : σ → P → Option P} {body : P → σ → σ} (hbody : ∀ p s, next (body p s) = next s)
    {s : σ} (h : Chain (next s) head ps) {turns : Nat} (hturns : ps.length ≤ turns) :
    sweep next body turns head s = some (ps.foldl (fun s p => body p s) s) := by
  induction ps generalizing head s turns with
  | nil =>
    obtain rfl : head = none := h
    cases turns <;> rfl
  | cons p ps ih =>
    obtain ⟨rfl, hrest⟩ := h
    obtain ⟨turns, rfl⟩ : ∃ n, turns = n + 1 := ⟨turns - 1, by simp at hturns; omega⟩
    rw [sweep, hbody]
    refine ih ?_ (by simpa using hturns)
    rw [hbody]
    exact hrest

/-- A cell that is linked to itself: the work never ends. -/
theorem sweep_loop {next : σ → P → Option P} {body : P → σ → σ} (hbody : ∀ p s, next (body p s) = next s)
    {s : σ} (h : next s p = some p) (turns : Nat) : sweep next body turns (some p) s = none := by
  induction turns generalizing s with
  | zero => rfl
  | succ turns ih =>
    have hloop : next (body p s) p = some p := by rw [hbody, h]
    rw [sweep, hloop]
    exact ih hloop

end Foundation.Chains
