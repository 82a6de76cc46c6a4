import Mathlib.Data.List.Nodup
import Mathlib.Data.List.Perm.Subperm
import Mathlib.Data.List.Range
import SrirachOS.User.Fish

/-!
# A Board of Blinking Characters

What the routines of `blink.S` are for: a board holds a sequence of characters, the latest first, at most
2000 of them. Every character is shown for a number of ticks, and then another one in its place.

- `represents_call`, `represents_calls`: the list of entries represents the board, over any calls,
- `blinkCalls_board`: the calls end, with the answers of the board and on its screen,
- `addZero_never_ends`: a character at location 0 makes a list that links to itself.
-/

namespace SrirachOS

open Foundation.Chains

namespace User

/-! ## Boards -/

/-- The characters, and the screen. -/
structure Board where
  blinks : List Blink
  screen : Nat → UInt8

namespace Blink

/-- The countdown ends with this tick, as it does when it is read as negative. -/
def isDue (b : Blink) : Prop := b.countdown.toNat ≤ 1 ∨ 32768 < b.countdown.toNat

instance (b : Blink) : Decidable b.isDue :=
  inferInstanceAs (Decidable (b.countdown.toNat ≤ 1 ∨ 32768 < b.countdown.toNat))

/-- The character that comes next. -/
def nextChar (b : Blink) : UInt8 := if b.status &&& 1 = 0 then b.onChar else b.offChar

/-- A tick. -/
def tick (b : Blink) : Blink :=
  if b.isDue then
    { b with
      countdown := if b.status &&& 1 = 0 then b.onLength else b.offLength
      status := b.status ^^^ 1 }
  else { b with countdown := b.countdown - 1 }

/-- A character that has been added. -/
def started (b : Blink) : Blink := { b with status := 1, countdown := b.onLength }

/-- From here on, it blinks with another one. -/
def following (first b : Blink) : Blink :=
  { b with
    onLength := first.onLength
    offLength := first.offLength
    countdown := first.countdown
    status := first.status }

end Blink

/-- The first of a sequence that passes a test is changed. -/
def modifyFirst {α : Type} (test : α → Bool) (f : α → α) : List α → List α
  | [] => []
  | a :: as => if test a then f a :: as else a :: modifyFirst test f as

namespace Board

/-- A character on the screen. -/
def display (location : UInt16) (c : UInt8) (screen : Nat → UInt8) : Nat → UInt8 :=
  Function.update screen (2 * location.toNat) c

/-- The characters that are due change on the screen. -/
def refresh (blinks : List Blink) (screen : Nat → UInt8) : Nat → UInt8 :=
  blinks.foldl (fun screen b => if b.isDue then display b.location b.nextChar screen else screen) screen

/-- The latest character at a location. -/
def lookup (location : UInt16) (b : Board) : Option Blink := b.blinks.find? (·.location == location)

/-- One call, with its answer. -/
def call (b : Board) : BlinkCall → (Int × Option Blink) × Board
  | .add user =>
    if 2000 ≤ user.location.toNat ∨ 2000 ≤ b.blinks.length then ((-1, none), b)
    else ((0, none), ⟨user.started :: b.blinks, display user.location user.onChar b.screen⟩)
  | .remove arg =>
    match b.lookup arg.toUInt16 with
    | none => ((-1, none), b)
    | some _ => ((0, none), { b with blinks := b.blinks.eraseP (·.location == arg.toUInt16) })
  | .find user =>
    match b.lookup user.location with
    | none => ((-1, none), b)
    | some found => ((0, some found), b)
  | .sync arg =>
    let location := (arg &&& 0xFFFF).toUInt16
    match b.lookup (arg >>> 16).toUInt16, b.lookup location with
    | some first, some second =>
      ((0, none),
        ⟨modifyFirst (·.location == location) first.following b.blinks,
          display location second.offChar b.screen⟩)
    | _, _ => ((-1, none), b)
  | .tasklet => ((0, none), ⟨b.blinks.map Blink.tick, refresh b.blinks b.screen⟩)

/-- One call after the other. -/
def calls : Board → List BlinkCall → List (Int × Option Blink) × Board
  | b, [] => ([], b)
  | b, c :: cs => ((b.call c).1 :: (calls (b.call c).2 cs).1, (calls (b.call c).2 cs).2)

end Board

/-- The entries of a list represent the characters of a board. -/
structure Represents (ps : List Nat) (s : Fish) (b : Board) : Prop where
  chain : Chain s.next s.listHead ps
  nodup : ps.Nodup
  used : ∀ p, p ∈ ps ↔ p < 2000 ∧ (s.blinkArray p).location ≠ 0
  blinks : ps.map (fun p => (s.blinkArray p).toBlink) = b.blinks
  screen : s.vmem = b.screen

/-! ## Entries -/

variable {ps front back : List Nat} {s s' : Fish} {b : Board} {p : Nat}

@[simp] theorem Fish.store_blinkArray (p : Nat) (e : BlinkStruct) (s : Fish) :
    (s.store p e).blinkArray = Function.update s.blinkArray p e := rfl

@[simp] theorem Fish.store_listHead (p : Nat) (e : BlinkStruct) (s : Fish) :
    (s.store p e).listHead = s.listHead := rfl

@[simp] theorem Fish.store_vmem (p : Nat) (e : BlinkStruct) (s : Fish) : (s.store p e).vmem = s.vmem := rfl

@[simp] theorem mp1Poke_blinkArray (location : UInt16) (c : UInt8) (s : Fish) :
    (mp1Poke location c s).blinkArray = s.blinkArray := rfl

@[simp] theorem mp1Poke_listHead (location : UInt16) (c : UInt8) (s : Fish) :
    (mp1Poke location c s).listHead = s.listHead := rfl

@[simp] theorem mp1Poke_vmem (location : UInt16) (c : UInt8) (s : Fish) :
    (mp1Poke location c s).vmem = Board.display location c s.vmem := rfl

/-- What an entry that is stored does to the links. -/
theorem Fish.next_store (p : Nat) (e : BlinkStruct) (s : Fish) :
    (s.store p e).next = Function.update s.next p e.next := by
  funext q
  by_cases hq : q = p
  · subst hq
    simp [Fish.next]
  · simp [Fish.next, Function.update_of_ne hq]

/-- An entry that keeps its link. -/
theorem Fish.next_store_same {e : BlinkStruct} (h : e.next = s.next p) : (s.store p e).next = s.next := by
  rw [Fish.next_store, h, Function.update_eq_self]

namespace Represents

theorem length_le (h : Represents ps s b) : ps.length ≤ 2000 := by
  have hsub : ps ⊆ List.range 2000 := fun p hp => List.mem_range.mpr ((h.used p).mp hp).1
  simpa using (List.subperm_of_subset h.nodup hsub).length_le

theorem blinks_length (h : Represents ps s b) : b.blinks.length = ps.length := by
  rw [← h.blinks, List.length_map]

end Represents

/-! ## The allocator -/

theorem mp1Malloc_none {blinkArray : Nat → BlinkStruct} {turns i : Nat} :
    mp1Malloc blinkArray turns i = none ↔
      ∀ p, i ≤ p → p < i + turns → (blinkArray p).location ≠ 0 := by
  induction turns generalizing i with
  | zero => exact iff_of_true rfl fun p hle hlt => absurd hlt (by omega)
  | succ turns ih =>
    rw [mp1Malloc]
    split_ifs with hfree
    · exact iff_of_false (by simp) fun h => h i (by omega) (by omega) hfree
    · rw [ih]
      constructor
      · intro h p hle hlt
        obtain rfl | hlt' := Nat.eq_or_lt_of_le hle
        · exact hfree
        · exact h p hlt' (by omega)
      · exact fun h p hle hlt => h p (by omega) (by omega)

theorem mp1Malloc_some {blinkArray : Nat → BlinkStruct} {turns i p : Nat}
    (h : mp1Malloc blinkArray turns i = some p) : p < i + turns ∧ (blinkArray p).location = 0 := by
  induction turns generalizing i with
  | zero => cases h
  | succ turns ih =>
    rw [mp1Malloc] at h
    split_ifs at h with hfree
    · obtain rfl := Option.some.inj h
      exact ⟨by omega, hfree⟩
    · obtain ⟨hlt, hlocation⟩ := ih h
      exact ⟨by omega, hlocation⟩

/-- **There is an entry** unless the board is full, and it is not in the list. -/
theorem Represents.malloc (h : Represents ps s b) :
    if 2000 ≤ b.blinks.length then mp1Malloc s.blinkArray (80 * 25) 0 = none
    else ∃ p, mp1Malloc s.blinkArray (80 * 25) 0 = some p ∧ p ∉ ps ∧ p < 2000 := by
  rw [h.blinks_length]
  cases halloc : mp1Malloc s.blinkArray (80 * 25) 0 with
  | none =>
    have hall : List.range 2000 ⊆ ps := fun p hp =>
      (h.used p).mpr ⟨List.mem_range.mp hp, mp1Malloc_none.mp halloc p (by omega)
        (by rw [List.mem_range] at hp; omega)⟩
    have hfull := (List.subperm_of_subset List.nodup_range hall).length_le
    rw [List.length_range] at hfull
    rw [if_pos hfull]
  | some p =>
    obtain ⟨hlt, hfree⟩ := mp1Malloc_some halloc
    have hp : p ∉ ps := fun hmem => ((h.used p).mp hmem).2 hfree
    have hsub : p :: ps ⊆ List.range 2000 :=
      List.cons_subset.mpr ⟨List.mem_range.mpr (by omega), fun q hq => List.mem_range.mpr ((h.used q).mp hq).1⟩
    have hroom := (List.subperm_of_subset (List.nodup_cons.mpr ⟨hp, h.nodup⟩) hsub).length_le
    rw [List.length_range, List.length_cons] at hroom
    rw [if_neg (by omega)]
    exact ⟨p, rfl, hp, by omega⟩

/-! ## Entries that are looked up -/

theorem Represents.findHelper (h : Represents ps s b) (location : UInt16) :
    mp1FindHelper location s = some (ps.find? fun p => (s.blinkArray p).location == location) :=
  seek_eq h.chain (h.length_le.trans (by decide))

theorem Represents.lookup (h : Represents ps s b) (location : UInt16) :
    b.lookup location = (ps.find? fun p => (s.blinkArray p).location == location).map
      fun p => (s.blinkArray p).toBlink := by
  rw [Board.lookup, ← h.blinks, List.find?_map]
  rfl

/-- The entry that is found is the first one at its location. -/
theorem split_of_find {location : UInt16}
    (h : ps.find? (fun p => (s.blinkArray p).location == location) = some p) :
    ∃ front back, ps = front ++ p :: back ∧ (s.blinkArray p).location = location ∧
      ∀ q ∈ front, (s.blinkArray q).location ≠ location := by
  obtain ⟨hlocation, front, back, rfl, hfront⟩ := List.find?_eq_some_iff_append.mp h
  exact ⟨front, back, rfl, by simpa using hlocation, by simpa using hfront⟩

theorem modifyFirst_append {α : Type} {test : α → Bool} {f : α → α} {front back : List α} {a : α}
    (hfront : ∀ x ∈ front, test x = false) (ha : test a = true) :
    modifyFirst test f (front ++ a :: back) = front ++ f a :: back := by
  induction front with
  | nil => simp [modifyFirst, ha]
  | cons x front ih =>
    rw [List.forall_mem_cons] at hfront
    simp [modifyFirst, hfront.1, ih hfront.2]

/-- An entry of the list changes, but not its link. -/
theorem Represents.store (h : Represents (front ++ p :: back) s b) {e : BlinkStruct}
    (hlink : e.next = s.next p) (hused : e.location ≠ 0) :
    Represents (front ++ p :: back) (s.store p e)
      { b with blinks := front.map (fun p => (s.blinkArray p).toBlink) ++ e.toBlink ::
          back.map (fun p => (s.blinkArray p).toBlink) } where
  chain := by
    rw [Fish.next_store_same hlink]
    exact h.chain
  nodup := h.nodup
  used q := by
    rw [h.used, Fish.store_blinkArray]
    obtain rfl | hq := eq_or_ne q p
    · have hp := (h.used q).mp (by simp)
      rw [Function.update_self]
      exact and_congr_right fun _ => iff_of_true hp.2 hused
    · rw [Function.update_of_ne hq]
  blinks := by
    have hapart := List.nodup_middle.mp h.nodup
    have hfront : ∀ q ∈ front, q ≠ p := fun q hq => by
      rintro rfl
      exact (List.nodup_cons.mp hapart).1 (List.mem_append_left _ hq)
    have hback : ∀ q ∈ back, q ≠ p := fun q hq => by
      rintro rfl
      exact (List.nodup_cons.mp hapart).1 (List.mem_append_right _ hq)
    rw [List.map_append, List.map_cons, Fish.store_blinkArray, Function.update_self]
    congr 1
    · exact List.map_congr_left fun q hq => by rw [Function.update_of_ne (hfront q hq)]
    · congr 1
      exact List.map_congr_left fun q hq => by rw [Function.update_of_ne (hback q hq)]
  screen := h.screen

/-! ## The calls -/

/-- **A character is added**, if its location is on the screen and there is room for it. -/
theorem Represents.add (h : Represents ps s b) {user : Blink} (hlocation : user.location ≠ 0) :
    ((mp1IoctlAdd user s).1, none) = (b.call (.add user)).1 ∧
      ∃ ps', Represents ps' (mp1IoctlAdd user s).2 (b.call (.add user)).2 := by
  have hmalloc := h.malloc
  simp only [mp1IoctlAdd, Board.call]
  by_cases hscreen : 2000 ≤ user.location.toNat
  · simp only [hscreen, true_or, if_true]
    exact ⟨trivial, ps, h⟩
  · by_cases hfull : 2000 ≤ b.blinks.length
    · rw [if_pos hfull] at hmalloc
      simp only [hscreen, hfull, hmalloc, false_or, if_true, if_false]
      exact ⟨trivial, ps, h⟩
    · rw [if_neg hfull] at hmalloc
      obtain ⟨p, hp, hfresh, hlt⟩ := hmalloc
      simp only [hscreen, hfull, hp, false_or, if_false]
      refine ⟨trivial, p :: ps, ?_⟩
      exact
        { chain := by
            have hnext := Fish.next_store p ⟨user.started, s.listHead⟩ s
            change Chain (Fish.next (s.store p ⟨user.started, s.listHead⟩)) (some p) (p :: ps)
            rw [hnext]
            exact h.chain.push hfresh
          nodup := List.nodup_cons.mpr ⟨hfresh, h.nodup⟩
          used := fun q => by
            obtain rfl | hq := eq_or_ne q p
            · simpa [hlt] using hlocation
            · simpa [hq, Function.update_of_ne hq] using h.used q
          blinks := by
            rw [List.map_cons, ← h.blinks]
            congr 1
            · simp [Blink.started]
            · exact List.map_congr_left fun q hq => by
                simp [Function.update_of_ne (ne_of_mem_of_not_mem hq hfresh)]
          screen := by simp [h.screen] }

theorem Fish.setLink_toBlink (place link : Option Nat) (s : Fish) (q : Nat) :
    ((s.setLink place link).blinkArray q).toBlink = (s.blinkArray q).toBlink := by
  cases place with
  | none => rfl
  | some p =>
    obtain rfl | hq := eq_or_ne q p
    · simp [Fish.setLink]
    · simp [Fish.setLink, Function.update_of_ne hq]

/-- **A character is removed**: the latest one at the location. -/
theorem Represents.remove (h : Represents ps s b) (arg : UInt32) :
    ∃ eax s', mp1IoctlRemove arg s = some (eax, s') ∧ (eax, none) = (b.call (.remove arg)).1 ∧
      ∃ ps', Represents ps' s' (b.call (.remove arg)).2 := by
  have hlookup := h.lookup arg.toUInt16
  simp only [mp1IoctlRemove, Board.call, h.findHelper, Option.bind_eq_bind, Option.bind_some]
  cases hfind : ps.find? fun p => (s.blinkArray p).location == arg.toUInt16 with
  | none =>
    rw [hfind] at hlookup
    simp only [hlookup, Option.map_none]
    exact ⟨-1, s, rfl, rfl, ps, h⟩
  | some p =>
    rw [hfind] at hlookup
    obtain ⟨front, back, rfl, hlocation, hfront⟩ := split_of_find hfind
    have hp := (List.nodup_cons.mp (List.nodup_middle.mp h.nodup)).1
    have hlength := h.length_le
    rw [List.length_append, List.length_cons] at hlength
    have hplace : findPlace s.next s.listHead p listTurns none = some front.getLast? :=
      findPlace_eq h.chain (fun hmem => hp (List.mem_append_left _ hmem)) (by unfold listTurns; omega)
    simp only [hlookup, hplace, Option.map_some, Option.bind_some]
    refine ⟨0, _, rfl, rfl, front ++ back, ?_⟩
    have hfree : ∀ q, q ≠ p → ((mp1Free p (s.setLink front.getLast? (s.next p))).blinkArray q).toBlink =
        (s.blinkArray q).toBlink := fun q hq => by
      rw [mp1Free, Fish.store_blinkArray, Function.update_of_ne hq, Fish.setLink_toBlink]
    have hkeep : ∀ q ∈ front ++ back, q ≠ p := fun q hq => ne_of_mem_of_not_mem hq hp
    exact
      { chain := by
          have hlinked := h.chain.unlink h.nodup
          rw [mp1Free, Fish.next_store, Fish.store_listHead]
          refine Chain.update ?_ hp _
          cases hlast : front.getLast? with
          | none =>
            rw [hlast] at hlinked
            exact hlinked
          | some q => simpa [hlast, Fish.setLink, Fish.next_store] using hlinked
        nodup := (List.nodup_cons.mp (List.nodup_middle.mp h.nodup)).2
        used := fun q => by
          obtain rfl | hq := eq_or_ne q p
          · exact iff_of_false hp fun hused => hused.2 (by simp [mp1Free, BlinkStruct.zero])
          · rw [hfree q hq, ← h.used]
            simp [hq]
        blinks := by
          rw [List.map_congr_left fun q hq => hfree q (hkeep q hq), ← h.blinks, List.map_append,
            List.map_append, List.map_cons, List.eraseP_append_right _ (by simpa using hfront),
            List.eraseP_cons_of_pos (by simpa using hlocation)]
        screen := by
          rw [← h.screen]
          cases front.getLast? <;> rfl }

/-- **A character is looked up.** -/
theorem Represents.find (h : Represents ps s b) (user : Blink) :
    ∃ answer, mp1IoctlFind user s = some answer ∧
      (answer.1, answer.2.map BlinkStruct.toBlink) = (b.call (.find user)).1 ∧
      Represents ps s (b.call (.find user)).2 := by
  have hlookup := h.lookup user.location
  simp only [mp1IoctlFind, Board.call, h.findHelper, Option.bind_eq_bind, Option.bind_some]
  cases hfind : ps.find? fun p => (s.blinkArray p).location == user.location with
  | none =>
    rw [hfind] at hlookup
    simp only [hlookup, Option.map_none]
    exact ⟨_, rfl, rfl, h⟩
  | some p =>
    rw [hfind] at hlookup
    simp only [hlookup, Option.map_some]
    exact ⟨_, rfl, rfl, h⟩

/-- The move is never made: what is shown first is the character of the dark half. -/
theorem syncChar_eq (b : Blink) : syncChar b = b.offChar := by
  have hlow : b.status.toUInt8 &&& 1 &&& 0x80 = 0 := by
    rw [UInt8.and_assoc]
    exact UInt8.and_zero
  simp [syncChar, hlow]

/-- **A character follows another.** -/
theorem Represents.sync (h : Represents ps s b) (arg : UInt32) :
    ∃ eax s', mp1IoctlSync arg s = some (eax, s') ∧ (eax, none) = (b.call (.sync arg)).1 ∧
      Represents ps s' (b.call (.sync arg)).2 := by
  have hfirst := h.lookup (arg >>> 16).toUInt16
  have hsecond := h.lookup (arg &&& 0xFFFF).toUInt16
  simp only [mp1IoctlSync, Board.call, h.findHelper, Option.bind_eq_bind, Option.bind_some]
  cases hfind : ps.find? fun p => (s.blinkArray p).location == (arg >>> 16).toUInt16 with
  | none =>
    rw [hfind] at hfirst
    simp only [hfirst, Option.map_none]
    exact ⟨-1, s, rfl, rfl, h⟩
  | some first =>
    rw [hfind] at hfirst
    cases hfind' : ps.find? fun p => (s.blinkArray p).location == (arg &&& 0xFFFF).toUInt16 with
    | none =>
      rw [hfind'] at hsecond
      simp only [hfirst, hsecond, Option.map_none, Option.map_some]
      exact ⟨-1, s, rfl, rfl, h⟩
    | some p =>
      rw [hfind'] at hsecond
      simp only [hfirst, hsecond, Option.map_some]
      refine ⟨0, _, rfl, rfl, ?_⟩
      obtain ⟨front, back, rfl, hlocation, hfront⟩ := split_of_find hfind'
      have hstored := h.store (e := { s.blinkArray p with
        toBlink := (s.blinkArray first).toBlink.following (s.blinkArray p).toBlink }) rfl
        ((h.used p).mp (by simp)).2
      rw [← h.blinks, List.map_append, List.map_cons, modifyFirst_append (by simpa using hfront)
        (by simpa using hlocation)]
      exact
        { hstored with
          screen := by
            rw [← h.screen, ← hlocation]
            simp [syncChar_eq] }

/-! ## The tick -/

theorem isDue_iff (b : Blink) : b.isDue ↔ ¬ 0 < (b.countdown - 1).toInt16 := by
  have hlt := b.countdown.toNat_lt
  have hminus : (b.countdown - 1).toNat = (b.countdown.toNat + 65535) % 65536 := by
    rw [UInt16.toNat_sub]
    simp [Nat.add_comm]
  have hint : (b.countdown - 1).toInt16.toInt =
      if (b.countdown - 1).toNat < 32768 then ((b.countdown - 1).toNat : Int)
      else (b.countdown - 1).toNat - 65536 := by
    change (b.countdown - 1).toBitVec.toInt = _
    rw [BitVec.toInt_eq_toNat_cond]
    simp only [UInt16.toNat_toBitVec]
    split_ifs <;> omega
  rw [Int16.lt_iff_toInt_lt, hint, hminus, Blink.isDue]
  simp only [Int16.toInt_zero]
  split_ifs <;> omega

/-- What the loop does to one entry. -/
theorem taskletBody_eq (p : Nat) (s : Fish) :
    taskletBody p s =
      { s.store p { s.blinkArray p with toBlink := (s.blinkArray p).toBlink.tick } with
        vmem := if (s.blinkArray p).isDue then
          Board.display (s.blinkArray p).location (s.blinkArray p).nextChar s.vmem else s.vmem } := by
  simp only [taskletBody]
  by_cases hdue : (s.blinkArray p).isDue
  · rw [if_neg ((isDue_iff _).mp hdue), if_pos hdue]
    by_cases hstatus : (s.blinkArray p).status &&& 1 = 0
    · simp [hstatus, Blink.tick, hdue, Blink.nextChar, mp1Poke, Fish.store, Board.display]
    · simp [hstatus, Blink.tick, hdue, Blink.nextChar, mp1Poke, Fish.store, Board.display]
  · rw [if_pos (not_not.mp (mt (isDue_iff _).mpr hdue)), if_neg hdue]
    simp [Blink.tick, hdue, Fish.store]

theorem taskletBody_next (p : Nat) (s : Fish) : (taskletBody p s).next = s.next := by
  rw [taskletBody_eq]
  exact Fish.next_store_same rfl

/-- The loop over entries that are all different. -/
theorem tasklet_foldl (hnodup : ps.Nodup) (s : Fish) :
    let s' := ps.foldl (fun s p => taskletBody p s) s
    s'.next = s.next ∧ s'.listHead = s.listHead ∧
      (∀ q, (s'.blinkArray q).toBlink =
        if q ∈ ps then (s.blinkArray q).toBlink.tick else (s.blinkArray q).toBlink) ∧
      s'.vmem = Board.refresh (ps.map fun p => (s.blinkArray p).toBlink) s.vmem := by
  induction ps generalizing s with
  | nil => exact ⟨rfl, rfl, fun q => rfl, rfl⟩
  | cons p ps ih =>
    obtain ⟨hp, hnodup⟩ := List.nodup_cons.mp hnodup
    obtain ⟨hnext, hhead, hblinks, hvmem⟩ := ih hnodup (taskletBody p s)
    have hsame : ∀ q ∈ ps, ((taskletBody p s).blinkArray q).toBlink = (s.blinkArray q).toBlink :=
      fun q hq => by
        rw [taskletBody_eq]
        simp [Function.update_of_ne (ne_of_mem_of_not_mem hq hp)]
    refine ⟨hnext.trans (taskletBody_next p s), ?_, fun q => ?_, ?_⟩
    · rw [List.foldl_cons, hhead, taskletBody_eq]
      rfl
    · rw [List.foldl_cons, hblinks]
      obtain rfl | hq := eq_or_ne q p
      · simp [hp, taskletBody_eq]
      · simp [hq, taskletBody_eq]
    · rw [List.foldl_cons, hvmem, List.map_congr_left hsame, List.map_cons, taskletBody_eq]
      rfl

theorem Blink.tick_location (b : Blink) : b.tick.location = b.location := by
  unfold Blink.tick
  split_ifs <;> rfl

/-- **The tick**: every character is counted down. -/
theorem Represents.tasklet (h : Represents ps s b) :
    ∃ s', mp1RtcTasklet s = some s' ∧ Represents ps s' (b.call .tasklet).2 := by
  obtain ⟨hnext, hhead, hblinks, hvmem⟩ := tasklet_foldl h.nodup s
  refine ⟨_, sweep_eq taskletBody_next h.chain (h.length_le.trans (by decide)), ?_⟩
  exact
    { chain := by
        rw [hnext, hhead]
        exact h.chain
      nodup := h.nodup
      used := fun q => by
        rw [hblinks]
        refine (h.used q).trans (and_congr_right fun _ => ?_)
        split_ifs
        · rw [Blink.tick_location]
        · rfl
      blinks := by
        rw [List.map_congr_left fun q hq => (hblinks q).trans (if_pos hq), Board.call, ← h.blinks,
          List.map_map]
        rfl
      screen := by
        rw [hvmem, h.blinks, h.screen]
        rfl }

/-! ## Calls in any order -/

/-- What a caller gets to see of an answer: an entry without its link. -/
def answerOf (answer : Int × Option BlinkStruct) : Int × Option Blink :=
  (answer.1, answer.2.map BlinkStruct.toBlink)

/-- **One call** does to the list what it does to the board. -/
theorem represents_call (h : Represents ps s b) {c : BlinkCall}
    (hc : ∀ user, c = .add user → user.location ≠ 0) :
    ∃ answer s' ps', blinkCall s c = some (answer, s') ∧ answerOf answer = (b.call c).1 ∧
      Represents ps' s' (b.call c).2 := by
  cases c with
  | add user =>
    obtain ⟨hanswer, ps', h'⟩ := h.add (hc user rfl)
    exact ⟨_, _, ps', rfl, hanswer, h'⟩
  | remove arg =>
    obtain ⟨eax, s', hrun, hanswer, ps', h'⟩ := h.remove arg
    exact ⟨(eax, none), s', ps', by rw [blinkCall, hrun]; rfl, hanswer, h'⟩
  | find user =>
    obtain ⟨answer, hrun, hanswer, h'⟩ := h.find user
    exact ⟨answer, s, ps, by rw [blinkCall, hrun]; rfl, hanswer, h'⟩
  | sync arg =>
    obtain ⟨eax, s', hrun, hanswer, h'⟩ := h.sync arg
    exact ⟨(eax, none), s', ps, by rw [blinkCall, hrun]; rfl, hanswer, h'⟩
  | tasklet =>
    obtain ⟨s', hrun, h'⟩ := h.tasklet
    exact ⟨_, s', ps, by rw [blinkCall, hrun]; rfl, rfl, h'⟩

/-- **Any calls**, as long as no character is added at location 0. -/
theorem represents_calls (h : Represents ps s b) {cs : List BlinkCall}
    (hcs : ∀ user, .add user ∈ cs → user.location ≠ 0) :
    ∃ answers s' ps', blinkCalls cs s = some (answers, s') ∧ answers.map answerOf = (b.calls cs).1 ∧
      Represents ps' s' (b.calls cs).2 := by
  induction cs generalizing s b ps with
  | nil => exact ⟨[], s, ps, rfl, rfl, h⟩
  | cons c cs ih =>
    obtain ⟨answer, s₁, ps₁, hrun, hanswer, h₁⟩ := represents_call h fun user hc => hcs user (hc ▸ List.mem_cons_self)
    obtain ⟨answers, s', ps', hruns, hanswers, h'⟩ := ih h₁ fun user hmem => hcs user (List.mem_cons_of_mem c hmem)
    refine ⟨answer :: answers, s', ps', ?_, ?_, h'⟩
    · rw [blinkCalls, hrun]
      simp [hruns]
    · rw [List.map_cons, hanswer, hanswers]
      rfl

/-- The empty list. -/
theorem represents_start (vmem : Nat → UInt8) : Represents [] (.start vmem) ⟨[], vmem⟩ where
  chain := rfl
  nodup := List.nodup_nil
  used p := by simp [Fish.start, BlinkStruct.zero]
  blinks := rfl
  screen := rfl

/-! ## The screen -/

namespace Board

/-- Every character is on the screen. -/
def OnScreen (b : Board) : Prop := ∀ e ∈ b.blinks, e.location.toNat < 2000

/-- Only the characters of the screen change, not their colors and nothing behind it. -/
def Within (screen screen' : Nat → UInt8) : Prop := ∀ x, screen' x ≠ screen x → ∃ cell < 2000, x = 2 * cell

theorem within_refl (screen : Nat → UInt8) : Within screen screen := fun _ hx => absurd rfl hx

theorem Within.trans {screen screen₁ screen₂ : Nat → UInt8} (h₁ : Within screen screen₁)
    (h₂ : Within screen₁ screen₂) : Within screen screen₂ := by
  intro x hx
  by_cases hsame : screen₂ x = screen₁ x
  · exact h₁ x (hsame ▸ hx)
  · exact h₂ x hsame

theorem within_display {location : UInt16} (h : location.toNat < 2000) (c : UInt8) (screen : Nat → UInt8) :
    Within screen (display location c screen) := by
  intro x hx
  refine ⟨location.toNat, h, ?_⟩
  by_contra hne
  exact hx (Function.update_of_ne hne ..)

theorem within_refresh {blinks : List Blink} (h : ∀ e ∈ blinks, e.location.toNat < 2000)
    (screen : Nat → UInt8) : Within screen (refresh blinks screen) := by
  induction blinks generalizing screen with
  | nil => exact within_refl screen
  | cons e blinks ih =>
    rw [List.forall_mem_cons] at h
    have hrest := ih h.2 (if e.isDue then display e.location e.nextChar screen else screen)
    refine Within.trans ?_ hrest
    split_ifs
    · exact within_display h.1 _ _
    · exact within_refl screen

theorem mem_modifyFirst {α : Type} {test : α → Bool} {f : α → α} {a : α} {as : List α}
    (h : a ∈ modifyFirst test f as) : a ∈ as ∨ ∃ a' ∈ as, a = f a' := by
  induction as with
  | nil => cases h
  | cons x as ih =>
    rw [modifyFirst] at h
    split_ifs at h
    · obtain rfl | hmem := List.mem_cons.mp h
      · exact .inr ⟨x, by simp⟩
      · exact .inl (by simp [hmem])
    · obtain rfl | hmem := List.mem_cons.mp h
      · exact .inl (by simp)
      · obtain hmem | ⟨a', hmem, heq⟩ := ih hmem
        · exact .inl (List.mem_cons_of_mem x hmem)
        · exact .inr ⟨a', List.mem_cons_of_mem x hmem, heq⟩

theorem call_onScreen {b : Board} (h : b.OnScreen) (c : BlinkCall) :
    (b.call c).2.OnScreen ∧ Within b.screen (b.call c).2.screen := by
  cases c with
  | add user =>
    simp only [call]
    split_ifs with hfull
    · exact ⟨h, within_refl _⟩
    · rw [not_or, not_le] at hfull
      exact ⟨List.forall_mem_cons.mpr ⟨hfull.1, h⟩, within_display hfull.1 _ _⟩
  | remove arg =>
    simp only [call]
    cases b.lookup arg.toUInt16 with
    | none => exact ⟨h, within_refl _⟩
    | some found => exact ⟨fun e he => h e (List.mem_of_mem_eraseP he), within_refl _⟩
  | find user =>
    simp only [call]
    cases b.lookup user.location <;> exact ⟨h, within_refl _⟩
  | sync arg =>
    simp only [call]
    cases b.lookup (arg >>> 16).toUInt16 with
    | none => exact ⟨h, within_refl _⟩
    | some first =>
      cases hsecond : b.lookup (arg &&& 0xFFFF).toUInt16 with
      | none => exact ⟨h, within_refl _⟩
      | some second =>
        refine ⟨fun e he => ?_, within_display ?_ _ _⟩
        · obtain hmem | ⟨e', hmem, rfl⟩ := mem_modifyFirst he
          · exact h e hmem
          · exact h e' hmem
        · have hlocation : second.location = (arg &&& 0xFFFF).toUInt16 := by
            simpa using List.find?_some hsecond
          rw [← hlocation]
          exact h second (List.mem_of_find?_eq_some hsecond)
  | tasklet =>
    refine ⟨fun e he => ?_, within_refresh h b.screen⟩
    obtain ⟨e', hmem, rfl⟩ := List.mem_map.mp he
    rw [Blink.tick_location]
    exact h e' hmem

theorem calls_onScreen {b : Board} (h : b.OnScreen) (cs : List BlinkCall) :
    (b.calls cs).2.OnScreen ∧ Within b.screen (b.calls cs).2.screen := by
  induction cs generalizing b with
  | nil => exact ⟨h, within_refl _⟩
  | cons c cs ih =>
    obtain ⟨hcall, hwithin⟩ := call_onScreen h c
    obtain ⟨hcalls, hwithin'⟩ := ih hcall
    exact ⟨hcalls, hwithin.trans hwithin'⟩

end Board

/-- **The list is a board**: from the empty list on, and whatever is called in whatever order, every call
comes to its end, with the answer that the board gives; the entries of the list are all different, and are
those in use; the screen is that of the board, and nothing but its characters has changed. No character
can be added at location 0, where an entry would count as free. -/
theorem blinkCalls_board (vmem : Nat → UInt8) {cs : List BlinkCall}
    (hcs : ∀ user, .add user ∈ cs → user.location ≠ 0) :
    let b := Board.calls ⟨[], vmem⟩ cs
    ∃ answers s ps, blinkCalls cs (.start vmem) = some (answers, s) ∧ answers.map answerOf = b.1 ∧
      Represents ps s b.2 ∧ Board.Within vmem s.vmem := by
  obtain ⟨answers, s, ps, hrun, hanswers, h⟩ := represents_calls (represents_start vmem) hcs
  refine ⟨answers, s, ps, hrun, hanswers, h, ?_⟩
  rw [h.screen]
  exact (Board.calls_onScreen (b := ⟨[], vmem⟩) (by simp [Board.OnScreen]) cs).2

/-- Two characters, one of which is removed after a tick; the array has an entry for a third one. -/
theorem blinkCalls_board_sample :
    let cs : List BlinkCall := [.add ⟨5, 65, 66, 1, 2, 0, 0⟩, .add ⟨7, 67, 68, 3, 4, 0, 0⟩, .tasklet,
      .sync 0x00070005, .remove 7, .add ⟨9, 69, 70, 1, 1, 0, 0⟩]
    let b := Board.calls ⟨[], fun _ => 0⟩ cs
    ∃ answers s ps, blinkCalls cs (.start fun _ => 0) = some (answers, s) ∧ answers.map answerOf = b.1 ∧
      Represents ps s b.2 ∧ Board.Within (fun _ => 0) s.vmem :=
  blinkCalls_board (fun _ => 0) (by simp)

/-! ## Location 0 -/

/-- An entry that is as free as before. -/
theorem mp1Malloc_again {blinkArray blinkArray' : Nat → BlinkStruct} {turns i : Nat}
    (h : mp1Malloc blinkArray turns i = some p) (hfree : (blinkArray' p).location = 0)
    (hsame : ∀ q, q ≠ p → blinkArray' q = blinkArray q) : mp1Malloc blinkArray' turns i = some p := by
  induction turns generalizing i with
  | zero => cases h
  | succ turns ih =>
    rw [mp1Malloc] at h ⊢
    split_ifs at h with hlocation
    · obtain rfl := Option.some.inj h
      rw [if_pos hfree]
    · have hne : i ≠ p := by
        rintro rfl
        exact hlocation (mp1Malloc_some h).2
      rw [hsame i hne, if_neg hlocation]
      exact ih h

/-- What an addition has done. -/
theorem mp1IoctlAdd_cases {user : Blink} (h : mp1IoctlAdd user s = (0, s')) :
    ∃ p, mp1Malloc s.blinkArray (80 * 25) 0 = some p ∧ s'.listHead = some p ∧
      s'.blinkArray = Function.update s.blinkArray p ⟨user.started, s.listHead⟩ := by
  rw [mp1IoctlAdd] at h
  split_ifs at h
  · cases h
  · cases hmalloc : mp1Malloc s.blinkArray (80 * 25) 0 with
    | none =>
      simp only [hmalloc] at h
      cases h
    | some p =>
      simp only [hmalloc] at h
      obtain ⟨-, rfl⟩ := Prod.mk.inj h
      exact ⟨p, rfl, rfl, rfl⟩

/-- **A character at location 0** is accepted, but its entry counts as free: the character that is added
directly next gets it as well, and the entry is linked to itself. From then on no tick comes to its
end. -/
theorem addZero_never_ends (first second : Blink) {s₁ s₂ : Fish} (hfirst : first.location = 0)
    (h₁ : mp1IoctlAdd first s = (0, s₁)) (h₂ : mp1IoctlAdd second s₁ = (0, s₂)) :
    (∃ p, s₁.listHead = some p ∧ s₁.blinkArray p = ⟨first.started, s.listHead⟩ ∧
      s₂.listHead = some p ∧ s₂.blinkArray p = ⟨second.started, some p⟩ ∧ s₂.next p = some p) ∧
    ∀ turns, sweep Fish.next taskletBody turns s₂.listHead s₂ = none := by
  obtain ⟨p, hmalloc, hhead, harray⟩ := mp1IoctlAdd_cases h₁
  obtain ⟨p', hmalloc', hhead', harray'⟩ := mp1IoctlAdd_cases h₂
  have hagain : mp1Malloc s₁.blinkArray (80 * 25) 0 = some p := by
    refine mp1Malloc_again hmalloc ?_ fun q hq => ?_
    · rw [harray, Function.update_self]
      exact hfirst
    · rw [harray, Function.update_of_ne hq]
  obtain rfl := Option.some.inj (hagain.symm.trans hmalloc')
  have hentry : s₁.blinkArray p = ⟨first.started, s.listHead⟩ := by rw [harray, Function.update_self]
  have hentry' : s₂.blinkArray p = ⟨second.started, some p⟩ := by
    rw [harray', Function.update_self, hhead]
  have hloop : s₂.next p = some p := congrArg BlinkStruct.next hentry'
  refine ⟨⟨p, hhead, hentry, hhead', hentry', hloop⟩, fun turns => ?_⟩
  rw [hhead']
  exact sweep_loop taskletBody_next hloop turns

theorem addZero_never_ends_sample :
    let first : Blink := ⟨0, 65, 66, 1, 1, 0, 0⟩
    let second : Blink := ⟨7, 67, 68, 1, 1, 0, 0⟩
    let s₁ := (mp1IoctlAdd first (.start fun _ => 0)).2
    let s₂ := (mp1IoctlAdd second s₁).2
    (∃ p, s₁.listHead = some p ∧ s₂.listHead = some p ∧ s₂.next p = some p) ∧
      sweep Fish.next taskletBody listTurns s₂.listHead s₂ = none := by
  intro first second s₁ s₂
  have h₁ : mp1IoctlAdd first (.start fun _ => 0) = (0, s₁) := rfl
  have h₂ : mp1IoctlAdd second s₁ = (0, s₂) := rfl
  obtain ⟨⟨p, hhead, -, hhead', -, hloop⟩, hnone⟩ := addZero_never_ends first second rfl h₁ h₂
  exact ⟨⟨p, hhead, hhead', hloop⟩, hnone listTurns⟩

end User

end SrirachOS
