import SrirachOS.User.Blinking

/-!
# What a Blinking Character Shows

A character that nobody else touches is counted down tick by tick: what is shown at its location follows
from the number of ticks alone, whatever happens to the other characters.

- `tick_phase`: the countdown goes through a period,
- `call_spares`: the calls that are about other locations,
- `blink_phase`: what is shown after any such calls.
-/

namespace SrirachOS

namespace User

/-! ## Phases -/

/-- How many ticks a length lasts; those that are read as negative last one tick, and so does 0. -/
def duration (length : UInt16) : Nat :=
  if 1 ≤ length.toNat ∧ length.toNat ≤ 32768 then length.toNat else 1

namespace Blink

/-- How long the one character is shown, or the other. -/
def length (b : Blink) (on : Bool) : UInt16 := if on then b.onLength else b.offLength

/-- The entry after `r` ticks of the one character, or of the other. -/
def half (b : Blink) (on : Bool) (r : Nat) : Blink :=
  { b with countdown := .ofNat ((b.length on).toNat - r), status := if on then 1 else 0 }

/-- The ticks until everything begins again. -/
def period (b : Blink) : Nat := duration b.onLength + duration b.offLength

/-- After `n` ticks, the first of its two characters is shown. -/
def Lit (b : Blink) (n : Nat) : Prop := n % b.period < duration b.onLength

instance (b : Blink) (n : Nat) : Decidable (b.Lit n) :=
  inferInstanceAs (Decidable (n % b.period < duration b.onLength))

/-- What is shown after `n` ticks. -/
def shownAfter (b : Blink) (n : Nat) : UInt8 := if b.Lit n then b.onChar else b.offChar

/-- The entry after `n` ticks. -/
def phase (b : Blink) (n : Nat) : Blink :=
  if b.Lit n then b.half true (n % b.period) else b.half false (n % b.period - duration b.onLength)

end Blink

variable {user : Blink} {n r : Nat} {b : Board} {location : UInt16}

theorem duration_pos (length : UInt16) : 1 ≤ duration length := by
  unfold duration
  split_ifs with h
  · exact h.1
  · exact le_rfl

theorem period_pos (user : Blink) : 0 < user.period := by
  have h := duration_pos user.onLength
  unfold Blink.period
  omega

/-- **The ticks of a half** run out with its last one. -/
theorem half_isDue (user : Blink) (on : Bool) (hr : r < duration (user.length on)) :
    (user.half on r).isDue ↔ r + 1 = duration (user.length on) := by
  have hlt := (user.length on).toNat_lt
  have hcount : (user.half on r).countdown.toNat = (user.length on).toNat - r :=
    UInt16.toNat_ofNat_of_lt' (by change _ < 65536; omega)
  rw [Blink.isDue, hcount]
  unfold duration at hr ⊢
  split_ifs at hr ⊢ <;> omega

/-- The last tick of a half. -/
theorem tick_half_last (user : Blink) (on : Bool) (h : r + 1 = duration (user.length on)) :
    (user.half on r).tick = user.half (!on) 0 := by
  rw [Blink.tick, if_pos ((half_isDue user on (by omega)).mpr h)]
  cases on <;> simp [Blink.half, Blink.length]

/-- Any other tick. -/
theorem tick_half (user : Blink) (on : Bool) (h : r + 1 < duration (user.length on)) :
    (user.half on r).tick = user.half on (r + 1) := by
  have hlong : r + 1 ≤ (user.length on).toNat := by
    unfold duration at h
    split_ifs at h <;> omega
  have hcount : UInt16.ofNat ((user.length on).toNat - r) - 1 =
      UInt16.ofNat ((user.length on).toNat - (r + 1)) := by
    rw [← Nat.sub_sub, UInt16.ofNat_sub (by omega : 1 ≤ (user.length on).toNat - r)]
    rfl
  rw [Blink.tick, if_neg (mt (half_isDue user on (by omega)).mp (by omega))]
  simp only [Blink.half, hcount]

/-- The tick after `n` others. -/
theorem succ_mod (n : Nat) {m : Nat} (hm : 0 < m) :
    (n + 1) % m = if n % m + 1 = m then 0 else n % m + 1 := by
  have hlt := Nat.mod_lt n hm
  rw [← Nat.mod_add_mod]
  split_ifs with hlast
  · rw [hlast, Nat.mod_self]
  · exact Nat.mod_eq_of_lt (by omega)

theorem Blink.phase_of_lit (h : user.Lit n) : user.phase n = user.half true (n % user.period) := if_pos h

theorem Blink.phase_of_not_lit (h : ¬ user.Lit n) :
    user.phase n = user.half false (n % user.period - duration user.onLength) := if_neg h

/-- The half that a phase is in, and where the next tick leads to. -/
theorem phase_cases (user : Blink) (n : Nat) :
    ∃ on r, user.phase n = user.half on r ∧ (user.Lit n ↔ on = true) ∧ r < duration (user.length on) ∧
      if r + 1 = duration (user.length on) then
        user.phase (n + 1) = user.half (!on) 0 ∧ (user.Lit (n + 1) ↔ on = false)
      else user.phase (n + 1) = user.half on (r + 1) ∧ (user.Lit (n + 1) ↔ on = true) := by
  have hon := duration_pos user.onLength
  have hoff := duration_pos user.offLength
  have hperiod : user.period = duration user.onLength + duration user.offLength := rfl
  have hlt := Nat.mod_lt n (period_pos user)
  have hsucc := succ_mod n (period_pos user)
  have hlitNext : user.Lit (n + 1) ↔ (n + 1) % user.period < duration user.onLength := Iff.rfl
  by_cases hlit : user.Lit n
  · have hr : n % user.period < duration user.onLength := hlit
    rw [if_neg (by omega)] at hsucc
    refine ⟨true, n % user.period, Blink.phase_of_lit hlit, by simp [hlit], hr, ?_⟩
    change if _ = duration user.onLength then _ else _
    split_ifs with hlast
    · have hnext : ¬ user.Lit (n + 1) := mt hlitNext.mp (by omega)
      exact ⟨by rw [Blink.phase_of_not_lit hnext, hsucc, hlast, Nat.sub_self]; rfl, by simp [hnext]⟩
    · have hnext : user.Lit (n + 1) := hlitNext.mpr (by omega)
      exact ⟨by rw [Blink.phase_of_lit hnext, hsucc], by simp [hnext]⟩
  · have hr : ¬ n % user.period < duration user.onLength := hlit
    refine ⟨false, n % user.period - duration user.onLength, Blink.phase_of_not_lit hlit, by simp [hlit],
      show _ < duration user.offLength by omega, ?_⟩
    change if _ = duration user.offLength then _ else _
    split_ifs with hlast
    · rw [if_pos (by omega)] at hsucc
      have hnext : user.Lit (n + 1) := hlitNext.mpr (by omega)
      exact ⟨by rw [Blink.phase_of_lit hnext, hsucc]; rfl, by simp [hnext]⟩
    · rw [if_neg (by omega)] at hsucc
      have hnext : ¬ user.Lit (n + 1) := mt hlitNext.mp (by omega)
      exact ⟨by rw [Blink.phase_of_not_lit hnext, hsucc, Nat.sub_add_comm (by omega)], by simp [hnext]⟩

/-- **One tick** goes on to the next phase. -/
theorem tick_phase (user : Blink) (n : Nat) : (user.phase n).tick = user.phase (n + 1) := by
  obtain ⟨on, r, hphase, -, hr, hnext⟩ := phase_cases user n
  rw [hphase]
  split_ifs at hnext with hlast
  · rw [hnext.1, tick_half_last user on hlast]
  · rw [hnext.1, tick_half user on (by omega)]

/-- What is on the screen after one more tick. -/
theorem shownAfter_succ (user : Blink) (n : Nat) :
    user.shownAfter (n + 1) =
      if (user.phase n).isDue then (user.phase n).nextChar else user.shownAfter n := by
  obtain ⟨on, r, hphase, hlit, hr, hnext⟩ := phase_cases user n
  have hdue := half_isDue user on hr
  rw [hphase]
  split_ifs at hnext with hlast
  · rw [if_pos (hdue.mpr hlast)]
    cases on <;> simp [Blink.shownAfter, hnext.2, Blink.nextChar, Blink.half]
  · rw [if_neg (mt hdue.mp hlast)]
    simp only [Blink.shownAfter, hnext.2, hlit]

theorem lit_zero (user : Blink) : user.Lit 0 := by
  rw [Blink.Lit, Nat.zero_mod]
  exact duration_pos user.onLength

/-- The phase that a character begins with. -/
theorem started_eq_phase (user : Blink) : user.started = user.phase 0 := by
  rw [Blink.phase_of_lit (lit_zero user), Nat.zero_mod]
  simp [Blink.half, Blink.length, Blink.started]

/-! ## The other characters -/

/-- The characters at a location. -/
def Board.here (location : UInt16) (b : Board) : List Blink := b.blinks.filter (·.location == location)

/-- A call that is about other locations; `find` is only a look, and a tick is for all. -/
def BlinkCall.Spares (location : UInt16) : BlinkCall → Prop
  | .add user => user.location ≠ location
  | .remove arg => arg.toUInt16 ≠ location
  | .find _ => True
  | .sync arg => (arg &&& 0xFFFF).toUInt16 ≠ location
  | .tasklet => True

theorem display_other {c : UInt8} {screen : Nat → UInt8} {other : UInt16} (h : other ≠ location) :
    Board.display other c screen (2 * location.toNat) = screen (2 * location.toNat) :=
  Function.update_of_ne (fun heq => h (UInt16.toNat_inj.mp (by omega))) ..

/-- What is refreshed at a location comes from the characters there. -/
theorem refresh_here {blinks : List Blink} {screen screen' : Nat → UInt8}
    (h : screen (2 * location.toNat) = screen' (2 * location.toNat)) :
    Board.refresh blinks screen (2 * location.toNat) =
      Board.refresh (blinks.filter (·.location == location)) screen' (2 * location.toNat) := by
  induction blinks generalizing screen screen' with
  | nil => exact h
  | cons e blinks ih =>
    by_cases hhere : e.location = location
    · rw [List.filter_cons_of_pos (by simpa using hhere)]
      refine ih ?_
      dsimp only
      split_ifs
      · rw [hhere, Board.display, Board.display, Function.update_self, Function.update_self]
      · exact h
    · rw [List.filter_cons_of_neg (by simpa using hhere)]
      refine ih ?_
      dsimp only
      split_ifs
      · exact (display_other hhere).trans h
      · exact h

/-- One character of another kind less. -/
theorem filter_eraseP {α : Type} {keep erase : α → Bool} (h : ∀ a, erase a = true → keep a = false)
    (as : List α) : (as.eraseP erase).filter keep = as.filter keep := by
  induction as with
  | nil => rfl
  | cons a as ih =>
    cases herase : erase a with
    | true => rw [List.eraseP_cons_of_pos herase, List.filter_cons_of_neg (by simp [h a herase])]
    | false => rw [List.eraseP_cons_of_neg (by simp [herase]), List.filter_cons, List.filter_cons, ih]

theorem filter_modifyFirst {α : Type} {keep test : α → Bool} {f : α → α}
    (h : ∀ a, test a = true → keep a = false ∧ keep (f a) = false) (as : List α) :
    (modifyFirst test f as).filter keep = as.filter keep := by
  induction as with
  | nil => rfl
  | cons a as ih =>
    cases htest : test a with
    | true => simp [modifyFirst, htest, h a htest]
    | false => simp [modifyFirst, htest, List.filter_cons, ih]

/-- **A call about other locations** leaves what is here, and a tick counts it down. -/
theorem call_spares {c : BlinkCall} (h : c.Spares location) (b : Board) :
    (b.call c).2.here location =
        (if c = .tasklet then (b.here location).map Blink.tick else b.here location) ∧
      (b.call c).2.screen (2 * location.toNat) =
        if c = .tasklet then Board.refresh (b.here location) b.screen (2 * location.toNat)
        else b.screen (2 * location.toNat) := by
  cases c with
  | add user =>
    have hother : user.location ≠ location := h
    simp only [Board.call, reduceCtorEq, if_false]
    split_ifs
    · exact ⟨rfl, rfl⟩
    · exact ⟨List.filter_cons_of_neg (by simpa [Blink.started] using hother), display_other hother⟩
  | remove arg =>
    have hother : arg.toUInt16 ≠ location := h
    simp only [Board.call, reduceCtorEq, if_false]
    cases b.lookup arg.toUInt16 with
    | none => exact ⟨rfl, rfl⟩
    | some found => exact ⟨filter_eraseP (fun e he => by simp_all) b.blinks, rfl⟩
  | find user =>
    simp only [Board.call, reduceCtorEq, if_false]
    cases b.lookup user.location <;> exact ⟨rfl, rfl⟩
  | sync arg =>
    have hother : (arg &&& 0xFFFF).toUInt16 ≠ location := h
    simp only [Board.call, reduceCtorEq, if_false]
    cases b.lookup (arg >>> 16).toUInt16 with
    | none => exact ⟨rfl, rfl⟩
    | some first =>
      cases b.lookup (arg &&& 0xFFFF).toUInt16 with
      | none => exact ⟨rfl, rfl⟩
      | some second =>
        exact ⟨filter_modifyFirst (fun e he => by simp_all [Blink.following]) b.blinks, display_other hother⟩
  | tasklet =>
    simp only [Board.call, if_true]
    refine ⟨?_, refresh_here rfl⟩
    have htick : (fun e : Blink => e.location == location) ∘ Blink.tick = fun e => e.location == location := by
      funext e
      simp [Blink.tick_location]
    rw [Board.here, List.filter_map, htick]
    rfl

/-- **Calls about other locations**: the phase goes on with the ticks, and with it what is shown. -/
theorem calls_spares {cs : List BlinkCall} (hcs : ∀ c ∈ cs, c.Spares location)
    (hhere : b.here location = [user.phase n]) (hlocation : user.location = location)
    (hscreen : b.screen (2 * location.toNat) = user.shownAfter n) :
    (b.calls cs).2.screen (2 * location.toNat) = user.shownAfter (n + cs.count .tasklet) := by
  induction cs generalizing b n with
  | nil => exact hscreen
  | cons c cs ih =>
    rw [List.forall_mem_cons] at hcs
    obtain ⟨hblinks, hcell⟩ := call_spares hcs.1 b
    rw [hhere] at hblinks hcell
    by_cases htick : c = .tasklet
    · rw [if_pos htick, List.map_singleton, tick_phase] at hblinks
      rw [if_pos htick] at hcell
      have hshown : (b.call c).2.screen (2 * location.toNat) = user.shownAfter (n + 1) := by
        have hplace : (user.phase n).location = location := by
          rw [← hlocation, Blink.phase]
          split_ifs <;> rfl
        rw [hcell, shownAfter_succ, ← hscreen]
        simp only [Board.refresh, List.foldl_cons, List.foldl_nil, hplace]
        split_ifs
        · exact Function.update_self ..
        · rfl
      rw [Board.calls, ih hcs.2 hblinks hshown, htick, List.count_cons_self, Nat.add_assoc, Nat.add_comm 1]
    · rw [if_neg htick] at hblinks hcell
      rw [Board.calls, ih hcs.2 hblinks (hcell.trans hscreen), List.count_cons_of_ne htick]

/-- No character is found where there is none. -/
theorem here_of_find {ps : List Nat} {s : Fish} (h : Represents ps s b)
    (hfind : mp1IoctlFind user s = some (-1, none)) : b.here user.location = [] := by
  obtain ⟨answer, hrun, hanswer, -⟩ := h.find user
  obtain rfl := Option.some.inj (hfind.symm.trans hrun)
  rw [Board.call] at hanswer
  rw [Board.here, List.filter_eq_nil_iff, ← List.find?_eq_none]
  cases hlookup : b.lookup user.location with
  | none => exact hlookup
  | some found =>
    rw [hlookup] at hanswer
    cases hanswer

/-- **What a character shows**: after any calls, a character is added at a location where there is none,
and then there are any calls but those that add, remove or synchronize a character there; none of all
these adds one at location 0. Its location shows the first character for as many ticks as the one length
lasts, the second for as many as the other, and so on. -/
theorem blink_phase (vmem : Nat → UInt8) {before after : List BlinkCall} {user : Blink}
    {answers : List (Int × Option BlinkStruct)} {s s₁ : Fish}
    (hbefore : blinkCalls before (.start vmem) = some (answers, s))
    (hfind : mp1IoctlFind user s = some (-1, none)) (hadd : mp1IoctlAdd user s = (0, s₁))
    (hnonzero : ∀ u, .add u ∈ before ++ .add user :: after → u.location ≠ 0)
    (hspares : ∀ c ∈ after, c.Spares user.location) :
    ∃ answers' s', blinkCalls after s₁ = some (answers', s') ∧
      s'.vmem (2 * user.location.toNat) = user.shownAfter (after.count .tasklet) := by
  obtain ⟨answers₀, s₀, ps, hrun, -, h⟩ := represents_calls (represents_start vmem)
    fun u hu => hnonzero u (List.mem_append_left _ hu)
  obtain ⟨-, rfl⟩ := Prod.mk.inj (Option.some.inj (hbefore.symm.trans hrun))
  obtain ⟨hanswer, ps₁, h₁⟩ := h.add (hnonzero user (by simp))
  rw [hadd] at hanswer h₁
  obtain ⟨answers', s', ps', hrun', -, h'⟩ := represents_calls h₁ fun u hu =>
    hnonzero u (List.mem_append_right _ (List.mem_cons_of_mem _ hu))
  refine ⟨answers', s', hrun', ?_⟩
  have hempty := here_of_find h hfind
  rw [h'.screen, ← Nat.zero_add (after.count .tasklet)]
  -- the board has taken the character as well
  rw [Board.call] at hanswer ⊢
  split_ifs at hanswer ⊢ with hfull
  · cases hanswer
  · refine calls_spares hspares ?_ rfl ?_
    · rw [Board.here, List.filter_cons_of_pos (by simp [Blink.started]), started_eq_phase]
      exact congrArg _ hempty
    · rw [Blink.shownAfter, if_pos (lit_zero user)]
      exact Function.update_self ..

/-- Two ticks of the one character, and another one that is added meanwhile. -/
theorem blink_phase_sample :
    let user : Blink := ⟨5, 65, 66, 2, 1, 0, 0⟩
    let after : List BlinkCall := [.tasklet, .add ⟨7, 67, 68, 3, 4, 0, 0⟩, .tasklet]
    ∃ answers' s', blinkCalls after (mp1IoctlAdd user (.start fun _ => 0)).2 = some (answers', s') ∧
      s'.vmem (2 * user.location.toNat) = user.shownAfter (after.count .tasklet) :=
  blink_phase (fun _ => 0) (show blinkCalls [] (.start fun _ => 0) = some ([], .start fun _ => 0) from rfl)
    rfl rfl (by simp) (by simp [BlinkCall.Spares])

end User

end SrirachOS
