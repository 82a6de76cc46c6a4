import SrirachOS.Calls.UserPointers

/-!
# The Ports of the Clock

The registers of the clock are behind two ports: one selects a register, the other accesses it. `rtc_open`
and `rtc_write` select register A and write it, with interrupts enabled; between the two, `rtc_handler`
selects register C and reads it, and another process makes calls of its own.

- `rtc_safe`: what holds in every order of the accesses,
- `rtcWrite_effect`: which writes of the rate are lost.
-/

namespace SrirachOS

open Foundation

/-! ## The chip -/

/-- The selected register, whether NMIs are masked, and the registers. -/
structure RtcChip where
  index : UInt8
  nmiMasked : Bool
  reg : UInt8 → UInt8

namespace RtcChip

/-- `outb(b, RTC_PORT)`. -/
def select (b : UInt8) (c : RtcChip) : RtcChip :=
  { c with index := b &&& 0x7F, nmiMasked := decide (b &&& 0x80 ≠ 0) }

/-- What an access of the data port leaves selected; on some chips that is register D. -/
def afterData (resets : Bool) (c : RtcChip) : UInt8 := if resets then 0x0D else c.index

/-- `outb(b, CMOS_PORT)`. Registers C and D, and the highest bit of A, are read only. -/
def write (resets : Bool) (b : UInt8) (c : RtcChip) : RtcChip :=
  { c with
    index := c.afterData resets
    reg :=
      if c.index = 0x0A then Function.update c.reg 0x0A ((c.reg 0x0A &&& 0x80) ||| (b &&& 0x7F))
      else if c.index = 0x0C ∨ c.index = 0x0D then c.reg
      else Function.update c.reg c.index b }

/-- `inb(CMOS_PORT)`. Reading register C clears it. -/
def read (resets : Bool) (c : RtcChip) : UInt8 × RtcChip :=
  (c.reg c.index,
    { c with
      index := c.afterData resets
      reg := if c.index = 0x0C then Function.update c.reg 0x0C 0 else c.reg })

/-- The rate selection of register A. -/
def rate (c : RtcChip) : Nat := (c.reg 0x0A &&& 0x0F).toNat

/-- The periodic interrupts in a second, at the rates from 3 on. -/
def frequency (c : RtcChip) : Nat := 32768 >>> (c.rate - 1)

end RtcChip

/-! ## rtc.c -/

/-- `RATE`, which `rtc_open` writes. -/
def openRate : UInt8 := 0x2F

/-- `rtc_int()`, less the interrupt line. -/
def rtcInt (resets : Bool) (c : RtcChip) : RtcChip :=
  let (prev, c) := (c.select 0x8B).read resets
  (c.select 0x8B).write resets (prev ||| 0x40)

/-- The boot: `rtc_int()`, then `rtc_open(NULL)`. -/
def rtcBoot (resets : Bool) (c : RtcChip) : RtcChip :=
  ((rtcInt resets c).select 0x8A).write resets openRate

/-- Where a process is in `rtc_open` or `rtc_write`, and the byte that it writes. -/
inductive RtcCall
  | idle
  /-- before `outb(REG_A, RTC_PORT)` -/
  | select (b : UInt8)
  /-- before `outb(b, CMOS_PORT)` -/
  | write (b : UInt8)
  deriving DecidableEq

/-- An access of the ports. -/
inductive RtcAccess
  | select (b : UInt8)
  | data
  deriving DecidableEq

/-- The chip, the processes, `rtc_flag`, and the accesses so far, the latest first. -/
structure RtcPorts where
  chip : RtcChip
  call : Int → RtcCall
  rtcFlag : Int
  log : List RtcAccess

inductive PortEvent
  /-- process `p` calls `rtc_open` -/
  | opens (p : Int)
  /-- process `p` calls `rtc_write` with four bytes -/
  | writes (p freq : Int)
  /-- process `p` makes the next access of its call -/
  | access (p : Int)
  /-- `rtc_handler()`, which nothing interrupts -/
  | interrupt
  /-- the clock sets one of its own registers, or the highest bit of A -/
  | clock (i v : UInt8)
  deriving DecidableEq

/-- The clock goes on: neither the rate nor register B is its own to change. -/
def RtcChip.tick (i v : UInt8) (c : RtcChip) : RtcChip :=
  if i = 0x0B then c
  else if i = 0x0A then
    { c with reg := Function.update c.reg 0x0A ((v &&& 0x80) ||| (c.reg 0x0A &&& 0x7F)) }
  else { c with reg := Function.update c.reg i v }

/-- The next access of process `p`. -/
def portAccess (resets : Bool) (x : RtcPorts) (p : Int) : RtcPorts :=
  match x.call p with
  | .idle => x
  | .select b =>
    { x with
      chip := x.chip.select 0x8A
      call := Function.update x.call p (.write b)
      log := .select 0x8A :: x.log }
  | .write b =>
    { x with
      chip := x.chip.write resets b
      call := Function.update x.call p .idle
      log := .data :: x.log }

/-- A call by a process that is in none. -/
def portCall (x : RtcPorts) (p : Int) (b : UInt8) : RtcPorts :=
  if x.call p = .idle then { x with call := Function.update x.call p (.select b) } else x

def portStep (resets : Bool) (x : RtcPorts) : PortEvent → RtcPorts
  | .opens p => portCall x p openRate
  | .writes p freq =>
    match rtcRate freq with
    | none => x
    | some rate => portCall x p rate
  | .access p => portAccess resets x p
  | .interrupt =>
    { x with
      chip := ((x.chip.select 0x0C).read resets).2
      rtcFlag := 1
      log := .data :: .select 0x0C :: x.log }
  | .clock i v => { x with chip := x.chip.tick i v }

/-- Nobody has made a call yet. -/
def RtcPorts.start (resets : Bool) (c : RtcChip) : RtcPorts :=
  ⟨rtcBoot resets c, fun _ => .idle, 0, [.data, .select 0x8A]⟩

/-! ## The accesses -/

/-- The accesses so far leave register A selected. -/
def pointsAtA (resets : Bool) : List RtcAccess → Bool
  | [] => false
  | .select b :: _ => decide (b &&& 0x7F = 0x0A)
  | .data :: log => !resets && pointsAtA resets log

/-- A byte that is written to register A: the rate of `rtc_open`, or one of `rtc_write`. -/
def Programmed (b : UInt8) : Prop := b = openRate ∨ 6 ≤ b.toNat ∧ b.toNat ≤ 15

theorem programmed_of_rtcRate {freq : Int} {b : UInt8} (h : rtcRate freq = some b) : Programmed b := by
  unfold rtcRate at h
  split_ifs at h <;>
    (obtain rfl := Option.some.inj h; exact .inr (by decide))

/-- The low bits of register A after a write. -/
theorem low_bits (a b : UInt8) : ((a &&& 0x80) ||| (b &&& 0x7F)) &&& 0x7F = b &&& 0x7F := by
  apply UInt8.toNat_inj.mp
  simp only [UInt8.toNat_and, UInt8.toNat_or, Nat.and_or_distrib_right, Nat.and_assoc]
  simp

/-- What holds of the chip and the calls, with register B as it was. -/
structure PortsInv (resets : Bool) (regB : UInt8) (x : RtcPorts) : Prop where
  regB : x.chip.reg 0x0B = regB
  regA : ∃ b, Programmed b ∧ x.chip.reg 0x0A &&& 0x7F = b &&& 0x7F
  index : x.chip.index = 0x0A ∨ x.chip.index = 0x0C ∨ x.chip.index = 0x0D
  selected : x.chip.index = 0x0A ↔ pointsAtA resets x.log = true
  calls : ∀ p b, x.call p = .select b ∨ x.call p = .write b → Programmed b

section

variable {resets : Bool} {regB b : UInt8} {x : RtcPorts} {p : Int}

variable (resets) in
theorem RtcChip.write_of_selected {c : RtcChip} (h : c.index = 0x0A) (b : UInt8) :
    (c.write resets b).reg = Function.update c.reg 0x0A ((c.reg 0x0A &&& 0x80) ||| (b &&& 0x7F)) := by
  rw [write, if_pos h]

variable (resets) in
theorem RtcChip.write_of_readOnly {c : RtcChip} (h : c.index = 0x0C ∨ c.index = 0x0D) (b : UInt8) :
    (c.write resets b).reg = c.reg := by
  have hne : c.index ≠ 0x0A := by
    rintro heq
    obtain h | h := h <;> exact absurd (heq.symm.trans h) (by decide)
  rw [write, if_neg hne, if_pos h]

/-- What is selected after an access of the data port. -/
theorem PortsInv.afterData (h : PortsInv resets regB x) :
    (x.chip.afterData resets = 0x0A ∨ x.chip.afterData resets = 0x0C ∨ x.chip.afterData resets = 0x0D) ∧
      (x.chip.afterData resets = 0x0A ↔ pointsAtA resets (.data :: x.log) = true) := by
  unfold RtcChip.afterData
  cases resets with
  | true => exact ⟨.inr (.inr rfl), iff_of_false (show (0x0D : UInt8) ≠ 0x0A by decide) Bool.false_ne_true⟩
  | false => exact ⟨h.index, by simpa [pointsAtA] using h.selected⟩

theorem PortsInv.call (h : PortsInv resets regB x) (p : Int) (hb : Programmed b) :
    PortsInv resets regB (portCall x p b) := by
  unfold portCall
  split
  · refine ⟨h.regB, h.regA, h.index, h.selected, fun q b' hq => ?_⟩
    dsimp only at hq
    by_cases hqp : q = p
    · rw [hqp, Function.update_self] at hq
      obtain rfl : b = b' := by simpa using hq
      exact hb
    · rw [Function.update_of_ne hqp] at hq
      exact h.calls q b' hq
  · exact h

theorem PortsInv.access (h : PortsInv resets regB x) (p : Int) :
    PortsInv resets regB (portAccess resets x p) := by
  have hcalls : ∀ state, (∀ b, state = .select b ∨ state = .write b → Programmed b) →
      ∀ q b', Function.update x.call p state q = .select b' ∨ Function.update x.call p state q = .write b' →
        Programmed b' := by
    intro state hstate q b' hq
    by_cases hqp : q = p
    · rw [hqp, Function.update_self] at hq
      exact hstate b' hq
    · rw [Function.update_of_ne hqp] at hq
      exact h.calls q b' hq
  unfold portAccess
  cases hcall : x.call p with
  | idle => exact h
  | select b =>
    refine ⟨h.regB, h.regA, .inl rfl, iff_of_true rfl rfl, hcalls _ fun b' hb' => ?_⟩
    obtain rfl : b = b' := by simpa using hb'
    exact h.calls p b (.inl hcall)
  | write b =>
    obtain ⟨hindex, hselected⟩ := h.afterData
    have hchip : (x.chip.write resets b).reg 0x0B = regB ∧
        ∃ b', Programmed b' ∧ (x.chip.write resets b).reg 0x0A &&& 0x7F = b' &&& 0x7F := by
      obtain hA | hreadOnly := h.index
      · rw [RtcChip.write_of_selected resets hA]
        refine ⟨?_, b, h.calls p b (.inr hcall), ?_⟩
        · rw [Function.update_of_ne (by decide), h.regB]
        · rw [Function.update_self, low_bits]
      · rw [RtcChip.write_of_readOnly resets hreadOnly]
        exact ⟨h.regB, h.regA⟩
    exact ⟨hchip.1, hchip.2, hindex, hselected, hcalls _ (by simp)⟩

/-- **One event** keeps the invariant. -/
theorem PortsInv.step (h : PortsInv resets regB x) (e : PortEvent) :
    PortsInv resets regB (portStep resets x e) := by
  cases e with
  | opens p => exact h.call p (.inl rfl)
  | writes p freq =>
    simp only [portStep]
    cases hrate : rtcRate freq with
    | none => exact h
    | some rate => exact h.call p (programmed_of_rtcRate hrate)
  | access p => exact h.access p
  | interrupt =>
    have hC : (0x0C : UInt8) &&& 0x7F = 0x0C := rfl
    -- register C is selected, and cleared
    have hreg : ((x.chip.select 0x0C).read resets).2.reg = Function.update x.chip.reg 0x0C 0 := by
      simp [RtcChip.select, RtcChip.read, hC]
    have hindex : ((x.chip.select 0x0C).read resets).2.index = if resets then 0x0D else 0x0C := by
      simp [RtcChip.select, RtcChip.read, RtcChip.afterData, hC]
    refine ⟨?_, ?_, ?_, ?_, h.calls⟩ <;> simp only [portStep, hreg, hindex]
    · rw [Function.update_of_ne (by decide), h.regB]
    · rw [Function.update_of_ne (by decide)]
      exact h.regA
    · cases resets <;> simp
    · cases resets <;> simp [pointsAtA, hC]
  | clock i v =>
    simp only [portStep, RtcChip.tick]
    split_ifs with hB hA
    · exact h
    · refine ⟨?_, ?_, h.index, h.selected, h.calls⟩
      · dsimp only
        rw [Function.update_of_ne (by decide), h.regB]
      · obtain ⟨b, hb, heq⟩ := h.regA
        refine ⟨b, hb, ?_⟩
        dsimp only
        rw [Function.update_self, low_bits, heq]
    · refine ⟨?_, ?_, h.index, h.selected, h.calls⟩
      · dsimp only
        rw [Function.update_of_ne (Ne.symm hB), h.regB]
      · obtain ⟨b, hb, heq⟩ := h.regA
        exact ⟨b, hb, by rw [← heq]; dsimp only; rw [Function.update_of_ne (Ne.symm hA)]⟩

variable (resets) in
/-- The boot sets register A and the periodic interrupts. -/
theorem portsInv_start (c : RtcChip) : PortsInv resets (c.reg 0x0B ||| 0x40) (.start resets c) := by
  have hA : (0x8A : UInt8) &&& 0x7F = 0x0A := rfl
  have hB : (0x8B : UInt8) &&& 0x7F = 0x0B := rfl
  have hint : (rtcInt resets c).reg = Function.update c.reg 0x0B (c.reg 0x0B ||| 0x40) := by
    simp [rtcInt, RtcChip.select, RtcChip.read, RtcChip.write, hB]
  have hreg : (rtcBoot resets c).reg = Function.update (rtcInt resets c).reg 0x0A
      (((rtcInt resets c).reg 0x0A &&& 0x80) ||| (openRate &&& 0x7F)) := by
    simp [rtcBoot, RtcChip.select, RtcChip.write, hA]
  have hindex : (rtcBoot resets c).index = if resets then 0x0D else 0x0A := by
    simp [rtcBoot, RtcChip.select, RtcChip.write, RtcChip.afterData, hA]
  refine ⟨?_, ⟨openRate, .inl rfl, ?_⟩, ?_, ?_, fun p b hb => by simp [RtcPorts.start] at hb⟩ <;>
    simp only [RtcPorts.start, hreg, hindex]
  · rw [Function.update_of_ne (by decide), hint, Function.update_self]
  · rw [Function.update_self, low_bits]
  · cases resets <;> simp
  · cases resets <;> simp [pointsAtA, hA]

variable (resets) in
/-- **Every run** keeps the invariant. -/
theorem portsInv_run (c : RtcChip) (es : List PortEvent) :
    PortsInv resets (c.reg 0x0B ||| 0x40) (run (portStep resets) (.start resets c) es) :=
  invariant_always (I := PortsInv resets (c.reg 0x0B ||| 0x40)) (fun _ e hx => hx.step e)
    (portsInv_start resets c) es

/-! ## The rate -/

theorem RtcChip.rate_eq {c : RtcChip} (h : c.reg 0x0A &&& 0x7F = b &&& 0x7F) :
    c.rate = (b &&& 0x0F).toNat := by
  have hnibble : ∀ v : UInt8, v &&& 0x0F = v &&& 0x7F &&& 0x0F := fun v => by
    rw [UInt8.and_assoc]
    rfl
  rw [rate, hnibble, h, ← hnibble]

theorem rate_of_programmed (h : Programmed b) : 6 ≤ (b &&& 0x0F).toNat ∧ (b &&& 0x0F).toNat ≤ 15 := by
  obtain rfl | h := h
  · decide
  · have hmod : (b &&& 0x0F).toNat = b.toNat % 16 := by
      rw [UInt8.toNat_and]
      exact Nat.and_two_pow_sub_one_eq_mod b.toNat 4
    omega

/-- **In every order of the accesses**, whichever processes make calls and whenever the clock interrupts,
the periodic interrupts stay on and come at 2 to 1024 in a second, and nothing else in register B has
changed since the boot. -/
theorem rtc_safe (resets : Bool) (c : RtcChip) (es : List PortEvent) :
    let x := run (portStep resets) (.start resets c) es
    x.chip.reg 0x0B = c.reg 0x0B ||| 0x40 ∧ 2 ≤ x.chip.frequency ∧ x.chip.frequency ≤ 1024 := by
  have hinv := portsInv_run resets c es
  obtain ⟨b, hb, heq⟩ := hinv.regA
  obtain ⟨hlow, hhigh⟩ := rate_of_programmed hb
  have hfrequency : ∀ rate : Nat, rate ≤ 15 → 6 ≤ rate →
      2 ≤ 32768 >>> (rate - 1) ∧ 32768 >>> (rate - 1) ≤ 1024 := by decide
  refine ⟨hinv.regB, ?_⟩
  rw [RtcChip.frequency, RtcChip.rate_eq heq]
  exact hfrequency _ hhigh hlow

/-- The frequency of an accepted rate; those above 1024 are cut off. -/
theorem frequency_of_rtcRate {freq : Int} (h : rtcRate freq = some b) :
    ((32768 >>> ((b &&& 0x0F).toNat - 1) : Nat) : Int) = min freq 1024 := by
  unfold rtcRate at h
  split_ifs at h with hfreq <;> obtain rfl := Option.some.inj h
  · obtain rfl | rfl | rfl | rfl := hfreq <;> decide
  all_goals subst_vars; decide

variable (resets) in
/-- Another event leaves a call where it is, and adds to the accesses. -/
theorem step_between (hcall : x.call p = .write b) {e : PortEvent} (he : e ≠ .access p) :
    (portStep resets x e).call p = .write b ∧ ∃ ds, (portStep resets x e).log = ds ++ x.log := by
  have hbusy : ∀ q b', (portCall x q b').call p = .write b ∧ (portCall x q b').log = x.log := by
    intro q b'
    unfold portCall
    split
    · rename_i hidle
      have hne : p ≠ q := by
        rintro rfl
        exact absurd (hcall.symm.trans hidle) (by simp)
      exact ⟨(Function.update_of_ne hne ..).trans hcall, rfl⟩
    · exact ⟨hcall, rfl⟩
  cases e with
  | opens q => exact ⟨(hbusy q _).1, [], (hbusy q _).2⟩
  | writes q freq =>
    simp only [portStep]
    cases rtcRate freq with
    | none => exact ⟨hcall, [], rfl⟩
    | some rate => exact ⟨(hbusy q rate).1, [], (hbusy q rate).2⟩
  | access q =>
    have hne : p ≠ q := by
      rintro rfl
      exact he rfl
    simp only [portStep, portAccess]
    cases x.call q with
    | idle => exact ⟨hcall, [], rfl⟩
    | select b' => exact ⟨(Function.update_of_ne hne ..).trans hcall, [_], rfl⟩
    | write b' => exact ⟨(Function.update_of_ne hne ..).trans hcall, [_], rfl⟩
  | interrupt => exact ⟨hcall, [_, _], rfl⟩
  | clock i v => exact ⟨hcall, [], rfl⟩

variable (resets) in
theorem run_between {fs : List PortEvent} (hcall : x.call p = .write b)
    (hfs : ∀ e ∈ fs, e ≠ .access p) :
    (run (portStep resets) x fs).call p = .write b ∧
      ∃ ds, (run (portStep resets) x fs).log = ds ++ x.log := by
  induction fs generalizing x with
  | nil => exact ⟨hcall, [], rfl⟩
  | cons e fs ih =>
    obtain ⟨he, hrest⟩ := List.forall_mem_cons.mp hfs
    obtain ⟨hcall', ds, hlog⟩ := step_between resets hcall he
    obtain ⟨hcall'', ds', hlog'⟩ := ih hcall' hrest
    exact ⟨hcall'', ds' ++ ds, by rw [run_cons, hlog', hlog, List.append_assoc]⟩

/-- The accesses since a select tell what is selected. -/
theorem pointsAtA_append (ds log : List RtcAccess) (b : UInt8) :
    pointsAtA resets (ds ++ .select b :: log) = pointsAtA resets (ds ++ [.select b]) := by
  induction ds with
  | nil => rfl
  | cons d ds ih =>
    cases d with
    | select b' => rfl
    | data => simp [pointsAtA, ih]

/-- The data access of a call. -/
theorem PortsInv.data_access {freq : Int} (h : PortsInv resets regB x) (hcall : x.call p = .write b)
    (hrate : rtcRate freq = some b) :
    if pointsAtA resets x.log = true then
      ((portStep resets x (.access p)).chip.frequency : Int) = min freq 1024
    else (portStep resets x (.access p)).chip.reg = x.chip.reg := by
  have hchip : (portStep resets x (.access p)).chip = x.chip.write resets b := by
    simp only [portStep, portAccess, hcall]
  rw [hchip]
  split
  · rename_i hpoints
    have hreg := RtcChip.write_of_selected resets (h.selected.mpr hpoints) b
    have hlow : (x.chip.write resets b).reg 0x0A &&& 0x7F = b &&& 0x7F := by
      rw [hreg, Function.update_self, low_bits]
    rw [RtcChip.frequency, RtcChip.rate_eq hlow, frequency_of_rtcRate hrate]
  · rename_i hpoints
    exact RtcChip.write_of_readOnly resets (h.index.resolve_left fun h' => hpoints (h.selected.mp h')) b

variable (resets) in
/-- The select of a call, and what comes between it and the data access. -/
theorem run_select {fs : List PortEvent} (hcall : x.call p = .select b)
    (hfs : ∀ e ∈ fs, e ≠ .access p) :
    (run (portStep resets) x (.access p :: fs)).call p = .write b ∧
      ∃ ds, (run (portStep resets) x (.access p :: fs)).log = ds ++ .select 0x8A :: x.log := by
  have hselected : (portStep resets x (.access p)).call p = .write b ∧
      (portStep resets x (.access p)).log = .select 0x8A :: x.log := by
    simp only [portStep, portAccess, hcall]
    exact ⟨Function.update_self .., trivial⟩
  obtain ⟨hwrite, ds, hlog⟩ := run_between resets hselected.1 hfs
  exact ⟨hwrite, ds, by rw [run_cons, hlog, hselected.2]⟩

/-- **Which rates take effect**: the data access of a call of `rtc_write` sets the frequency that it was
called for, cut off at 1024, when the accesses since its own select leave register A selected; otherwise
it changes no register at all. -/
theorem rtcWrite_effect {freq : Int} (hrate : rtcRate freq = some b) (c : RtcChip) (es : List PortEvent)
    (hcall : (run (portStep resets) (.start resets c) es).call p = .select b) (fs : List PortEvent)
    (hfs : ∀ e ∈ fs, e ≠ .access p) :
    let x := run (portStep resets) (.start resets c) es
    let z := run (portStep resets) x (.access p :: fs)
    ∃ ds, z.log = ds ++ .select 0x8A :: x.log ∧
      if pointsAtA resets (ds ++ [.select 0x8A]) = true then
        ((portStep resets z (.access p)).chip.frequency : Int) = min freq 1024
      else (portStep resets z (.access p)).chip.reg = z.chip.reg := by
  intro x z
  obtain ⟨hwrite, ds, hlog⟩ := run_select resets hcall hfs
  have hinv : PortsInv resets (c.reg 0x0B ||| 0x40) z := by
    have hrun := portsInv_run resets c (es ++ .access p :: fs)
    rwa [run_append] at hrun
  refine ⟨ds, hlog, ?_⟩
  rw [← pointsAtA_append ds x.log, ← hlog]
  exact hinv.data_access hwrite hrate

/-- A clock that runs at 1024 for a process loses the rate of a second one that is interrupted. -/
theorem rtcWrite_effect_sample :
    let x := run (portStep true) (.start true ⟨0, false, fun _ => 0⟩)
      [.writes 1 4096, .access 1, .access 1, .writes 2 32]
    let z := run (portStep true) x [.access 2, .interrupt]
    ∃ ds, z.log = ds ++ .select 0x8A :: x.log ∧
      if pointsAtA true (ds ++ [.select 0x8A]) = true then
        ((portStep true z (.access 2)).chip.frequency : Int) = min 32 1024
      else (portStep true z (.access 2)).chip.reg = z.chip.reg :=
  rtcWrite_effect (b := 0x0B) (by decide) ⟨0, false, fun _ => 0⟩
    [.writes 1 4096, .access 1, .access 1, .writes 2 32] rfl [.interrupt] (by simp)

/-- Without other processes at the ports, only the interrupts of the clock count. -/
theorem pointsAtA_of_alone {fs : List PortEvent} (hfs : ∀ e ∈ fs, ∀ q, e ≠ .access q) :
    pointsAtA resets (run (portStep resets) x fs).log = true ↔
      pointsAtA resets x.log = true ∧ .interrupt ∉ fs := by
  induction fs generalizing x with
  | nil => simp
  | cons e fs ih =>
    obtain ⟨he, hrest⟩ := List.forall_mem_cons.mp hfs
    rw [run_cons, ih hrest]
    have hcall : ∀ q b', (portCall x q b').log = x.log := by
      intro q b'
      unfold portCall
      split <;> rfl
    cases e with
    | opens q => simp [portStep, hcall]
    | writes q freq =>
      cases hrate : rtcRate freq <;> simp [portStep, hrate, hcall]
    | access q => exact absurd rfl (he q)
    | interrupt =>
      have hlost : pointsAtA resets (portStep resets x .interrupt).log = false := by
        cases resets <;> rfl
      simp [hlost]
    | clock i v => simp [portStep]

/-- A process whose call nobody else disturbs sets the rate exactly when the clock does not interrupt
between its two accesses. -/
theorem PortsInv.write_alone {freq : Int} (h : PortsInv resets regB x) (hcall : x.call p = .select b)
    (hrate : rtcRate freq = some b) {fs : List PortEvent} (hfs : ∀ e ∈ fs, ∀ q, e ≠ .access q) :
    let z := run (portStep resets) x (.access p :: fs)
    if .interrupt ∈ fs then (portStep resets z (.access p)).chip.reg = z.chip.reg
    else ((portStep resets z (.access p)).chip.frequency : Int) = min freq 1024 := by
  intro z
  have hz : PortsInv resets regB z :=
    invariant_always (I := PortsInv resets regB) (fun _ e hx => hx.step e) h (.access p :: fs)
  obtain ⟨hwrite, -⟩ := run_select resets hcall fun e he => hfs e he p
  have hdata := hz.data_access hwrite hrate
  have hpoints : pointsAtA resets z.log = true ↔ .interrupt ∉ fs := by
    have hselected : pointsAtA resets (portStep resets x (.access p)).log = true := by
      simp only [portStep, portAccess, hcall]
      rfl
    exact (pointsAtA_of_alone hfs).trans (and_iff_right hselected)
  by_cases hint : .interrupt ∈ fs
  · rw [if_pos hint]
    rwa [if_neg fun h => hpoints.mp h hint] at hdata
  · rw [if_neg hint]
    rwa [if_pos (hpoints.mpr hint)] at hdata

end

end SrirachOS
