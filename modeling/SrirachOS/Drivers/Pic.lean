import SrirachOS.Drivers.Idt
import SrirachOS.Foundation.Trace

/-!
# The Interrupt Controllers

Two controllers of eight lines each, the slave on line 2 of the master. `i8259_init` programs them, and
the kernel enables the lines of its devices; a handler acknowledges its interrupt with `send_eoi`.

- `picBoot_eq`: after the boot, whatever state the controllers were in, the same four lines are open,
- `picInv_run`: in every run the controllers know the interrupts that are not acknowledged, and no others,
- `interrupts_served`: which lines get through, and where they lead.
-/

namespace SrirachOS

open Foundation

/-! ## The controllers -/

/-- The command word that comes next. -/
inductive IcwStage
  | ready | icw2 | icw3 | icw4
  deriving DecidableEq, Repr

/-- A controller: the masked lines, those in service, the words of its set-up. -/
structure Pic where
  imr : UInt8
  isr : UInt8
  vector : UInt8
  cascade : UInt8
  mode : UInt8
  stage : IcwStage
  single : Bool
  needsIcw4 : Bool
  deriving DecidableEq, Repr

/-- The bit of a line; there is none from 8 on. -/
def lineBit (n : Nat) : UInt8 := .ofNat (2 ^ n)

/-- A write to the first port: the start of the set-up, or the end of an interrupt. Other commands are
not in use. -/
def Pic.command (b : UInt8) (p : Pic) : Pic :=
  if b &&& 0x10 ≠ 0 then
    { p with
      imr := 0
      isr := 0
      stage := .icw2
      single := decide (b &&& 0x02 ≠ 0)
      needsIcw4 := decide (b &&& 0x01 ≠ 0) }
  else if b &&& 0xF8 = 0x60 then { p with isr := p.isr &&& ~~~lineBit (b &&& 0x07).toNat }
  else p

/-- A write to the second port: the next word of the set-up, or the mask. -/
def Pic.data (b : UInt8) (p : Pic) : Pic :=
  match p.stage with
  | .ready => { p with imr := b }
  | .icw2 =>
    { p with
      vector := b &&& 0xF8
      stage := if p.single then (if p.needsIcw4 then .icw4 else .ready) else .icw3 }
  | .icw3 => { p with cascade := b, stage := if p.needsIcw4 then .icw4 else .ready }
  | .icw4 => { p with mode := b, stage := .ready }

/-- The two controllers. -/
structure Pics where
  master : Pic
  slave : Pic
  deriving DecidableEq, Repr

/-- `outb(b, port)`. -/
def Pics.outb (b : UInt8) (port : Nat) (c : Pics) : Pics :=
  if port = 0x20 then { c with master := c.master.command b }
  else if port = 0x21 then { c with master := c.master.data b }
  else if port = 0xA0 then { c with slave := c.slave.command b }
  else if port = 0xA1 then { c with slave := c.slave.data b }
  else c

/-- `inb(port)` of the second ports, which are the masks. -/
def Pics.inb (port : Nat) (c : Pics) : UInt8 :=
  if port = 0x21 then c.master.imr else c.slave.imr

/-! ## i8259.c -/

/-- The port of the mask of a line, and the number of the line there. -/
def maskPort (irqNum : Nat) : Nat × Nat :=
  if irqNum < 8 then (0x20 + 1, irqNum) else (0xA0 + 1, irqNum - 8)

/-- `enable_irq(irq_num)`. -/
def enableIrq (irqNum : Nat) (c : Pics) : Pics :=
  let (port, line) := maskPort irqNum
  c.outb (c.inb port &&& ~~~lineBit line) port

/-- `disable_irq(irq_num)`. -/
def disableIrq (irqNum : Nat) (c : Pics) : Pics :=
  let (port, line) := maskPort irqNum
  c.outb (c.inb port ||| lineBit line) port

/-- `i8259_init()`; the two masks are never assigned to. -/
def i8259Init (c : Pics) : Pics :=
  let c := (c.outb 0xff 0x21).outb 0xff 0xA1
  let c := (((c.outb 0x11 0x20).outb 0x20 0x21).outb 0x04 0x21).outb 0x01 0x21
  let c := (((c.outb 0x11 0xA0).outb 0x28 0xA1).outb 0x02 0xA1).outb 0x01 0xA1
  let c := (c.outb 0xff 0x21).outb 0xff 0xA1
  enableIrq 2 c

/-- `send_eoi(irq_num)`. -/
def sendEoi (irqNum : Nat) (c : Pics) : Pics :=
  if 8 ≤ irqNum then
    (c.outb (0x60 ||| .ofNat (irqNum - 8)) 0xA0).outb (0x60 ||| 2) 0x20
  else c.outb (0x60 ||| .ofNat irqNum) 0x20

/-- What `entry` does with the controllers: `i8259_init`, the keyboard, the timer, and `rtc_int`. -/
def picBoot (c : Pics) : Pics := enableIrq 8 (enableIrq 0 (enableIrq 1 (i8259Init c)))

/-! ## The boot -/

/-- The set-up of a controller ends in one state, wherever it began. -/
theorem setup_eq (p : Pic) (vector cascade mode : UInt8) :
    (((p.command 0x11).data vector).data cascade).data mode =
      ⟨0, 0, vector &&& 0xF8, cascade, mode, .ready, false, true⟩ := rfl

/-- After the boot the controllers are in one and the same state, whatever they were in before, even
within a set-up. -/
theorem picBoot_eq (c : Pics) : picBoot c =
    ⟨⟨0xF8, 0, 0x20, 0x04, 0x01, .ready, false, true⟩, ⟨0xFE, 0, 0x28, 0x02, 0x01, .ready, false, true⟩⟩ := by
  have hinit : i8259Init c = enableIrq 2
      ⟨(((((c.master.data 0xff).command 0x11).data 0x20).data 0x04).data 0x01).data 0xff,
        (((((c.slave.data 0xff).command 0x11).data 0x28).data 0x02).data 0x01).data 0xff⟩ := rfl
  rw [picBoot, hinit, setup_eq, setup_eq]
  rfl

/-! ## Interrupts -/

/-- A controller lets line `n` through: it is not masked, and no line of its priority or above is in
service. -/
def Pic.accepts (p : Pic) (n : Nat) : Bool :=
  p.stage == .ready && p.imr &&& lineBit n == 0 && p.isr &&& .ofNat (2 ^ (n + 1) - 1) == 0

/-- The controllers let line `n` through. There is no device on line 2. -/
def Pics.accepts (c : Pics) (n : Nat) : Bool :=
  if n < 8 then n != 2 && c.master.accepts n
  else decide (n < 16) && (c.master.accepts 2 && c.slave.accepts (n - 8))

def Pic.serve (p : Pic) (n : Nat) : Pic := { p with isr := p.isr ||| lineBit n }

/-- The processor takes the interrupt of line `n`. -/
def Pics.serve (c : Pics) (n : Nat) : Pics :=
  if n < 8 then { c with master := c.master.serve n }
  else { master := c.master.serve 2, slave := c.slave.serve (n - 8) }

/-- The vector of line `n`. -/
def Pics.vectorOf (c : Pics) (n : Nat) : Nat :=
  if n < 8 then (c.master.vector ||| .ofNat n).toNat else (c.slave.vector ||| .ofNat (n - 8)).toNat

/-- The controllers, and the interrupts that no handler has acknowledged yet. -/
structure PicSystem where
  pics : Pics
  active : Nat → Bool

inductive PicEvent
  /-- a device raises line `n` -/
  | interrupt (n : Nat)
  /-- the handler of line `n` sends its acknowledgement -/
  | eoi (n : Nat)
  deriving DecidableEq, Repr

def picStep (x : PicSystem) : PicEvent → PicSystem
  | .interrupt n =>
    if x.pics.accepts n then
      { pics := x.pics.serve n, active := Function.update x.active n true }
    else x
  | .eoi n =>
    if x.active n then
      { pics := sendEoi n x.pics, active := Function.update x.active n false }
    else x

/-- After the boot, with the given lines in service. -/
def inService (timer keyboard clock : Bool) : Pics where
  master :=
    ⟨0xF8, (if timer then 0x01 else 0) ||| (if keyboard then 0x02 else 0) ||| (if clock then 0x04 else 0),
      0x20, 0x04, 0x01, .ready, false, true⟩
  slave := ⟨0xFE, if clock then 0x01 else 0, 0x28, 0x02, 0x01, .ready, false, true⟩

/-- The lines that get through. -/
theorem accepts_inService : ∀ timer keyboard clock, ∀ n < 16,
    (inService timer keyboard clock).accepts n =
      (n == 0 && !timer || n == 1 && (!timer && !keyboard) ||
        n == 8 && (!timer && (!keyboard && !clock))) := by
  decide

theorem accepts_lt {c : Pics} {n : Nat} (h : c.accepts n = true) : n < 16 := by
  unfold Pics.accepts at h
  split at h
  · omega
  · simp only [Bool.and_eq_true, decide_eq_true_eq] at h
    exact h.1

/-- The controllers know the interrupts that are not acknowledged, and no others. -/
structure PicInv (x : PicSystem) : Prop where
  pics : x.pics = inService (x.active 0) (x.active 1) (x.active 8)
  lines : ∀ n, x.active n = true → n = 0 ∨ n = 1 ∨ n = 8

theorem PicInv.accepts_iff {x : PicSystem} (h : PicInv x) (n : Nat) :
    x.pics.accepts n = true ↔ n = 0 ∧ x.active 0 = false ∨
      n = 1 ∧ x.active 0 = false ∧ x.active 1 = false ∨
      n = 8 ∧ x.active 0 = false ∧ x.active 1 = false ∧ x.active 8 = false := by
  by_cases hn : n < 16
  · rw [h.pics, accepts_inService _ _ _ n hn]
    simp only [Bool.or_eq_true, Bool.and_eq_true, beq_iff_eq, Bool.not_eq_true', or_assoc]
  · refine iff_of_false (fun haccepts => hn (accepts_lt haccepts)) ?_
    omega

/-- The bits that an interrupt sets. -/
theorem serve_inService : ∀ timer keyboard clock,
    (inService false keyboard clock).serve 0 = inService true keyboard clock ∧
    (inService timer false clock).serve 1 = inService timer true clock ∧
    (inService timer keyboard false).serve 8 = inService timer keyboard true := by
  decide

/-- The acknowledgement takes back those bits. -/
theorem sendEoi_inService : ∀ timer keyboard clock,
    sendEoi 0 (inService timer keyboard clock) = inService false keyboard clock ∧
    sendEoi 1 (inService timer keyboard clock) = inService timer false clock ∧
    sendEoi 8 (inService timer keyboard clock) = inService timer keyboard false := by
  decide

/-- **One event** keeps them in step. -/
theorem PicInv.step {x : PicSystem} (h : PicInv x) (e : PicEvent) : PicInv (picStep x e) := by
  have hlines : ∀ {n} {b : Bool}, (n = 0 ∨ n = 1 ∨ n = 8) →
      ∀ m, Function.update x.active n b m = true → m = 0 ∨ m = 1 ∨ m = 8 := by
    intro n b hn m hm
    by_cases hmn : m = n
    · rw [hmn]
      exact hn
    · rw [Function.update_of_ne hmn] at hm
      exact h.lines m hm
  cases e with
  | interrupt n =>
    simp only [picStep]
    split
    · rename_i haccepts
      obtain ⟨rfl, h0⟩ | ⟨rfl, -, h1⟩ | ⟨rfl, -, -, h8⟩ := (h.accepts_iff n).mp haccepts
      · refine ⟨?_, hlines (.inl rfl)⟩
        rw [h.pics, h0]
        exact (serve_inService true _ _).1
      · refine ⟨?_, hlines (.inr (.inl rfl))⟩
        rw [h.pics, h1]
        exact (serve_inService _ true _).2.1
      · refine ⟨?_, hlines (.inr (.inr rfl))⟩
        rw [h.pics, h8]
        exact (serve_inService _ _ true).2.2
    · exact h
  | eoi n =>
    simp only [picStep]
    split
    · rename_i hactive
      obtain rfl | rfl | rfl := h.lines n hactive
      · refine ⟨?_, hlines (.inl rfl)⟩
        rw [h.pics]
        exact (sendEoi_inService _ _ _).1
      · refine ⟨?_, hlines (.inr (.inl rfl))⟩
        rw [h.pics]
        exact (sendEoi_inService _ _ _).2.1
      · refine ⟨?_, hlines (.inr (.inr rfl))⟩
        rw [h.pics]
        exact (sendEoi_inService _ _ _).2.2
    · exact h

/-- **Every run** after the boot keeps them in step. -/
theorem picInv_run (c : Pics) (es : List PicEvent) :
    PicInv (run picStep ⟨picBoot c, fun _ => false⟩ es) :=
  invariant_always (I := PicInv) (fun _ e hx => hx.step e)
    ⟨by rw [picBoot_eq]; rfl, fun _ h => absurd h Bool.false_ne_true⟩ es

/-- The wrapper of a device line. -/
def deviceHandler (n : Nat) : IdtHandler :=
  if n = 0 then .pitWrapper else if n = 1 then .keyboardWrapper else .rtcWrapper

/-- **Interrupts are served**: in every run after the boot, whatever the controllers and the table held
before it, an interrupt gets through exactly on the lines of the timer, the keyboard and the clock, and
while neither it nor one of higher priority is waiting for its acknowledgement; it leads to the wrapper of
its device. -/
theorem interrupts_served (c : Pics) (addr : IdtHandler → BitVec 32) (idt : Nat → IdtDesc)
    (es : List PicEvent) (n : Nat) :
    let x := run picStep ⟨picBoot c, fun _ => false⟩ es
    (x.pics.accepts n = true ↔
      (n = 0 ∨ n = 1 ∨ n = 8) ∧ ∀ m, m ≤ n → x.active m = false) ∧
    (x.pics.accepts n = true →
      hardwareInterrupt (initIdt addr idt) (x.pics.vectorOf n) = .enters (addr (deviceHandler n))) := by
  intro x
  have hinv : PicInv x := picInv_run c es
  have hvector : ∀ timer keyboard clock, (inService timer keyboard clock).vectorOf 0 = 0x20 ∧
      (inService timer keyboard clock).vectorOf 1 = 33 ∧
      (inService timer keyboard clock).vectorOf 8 = 0x28 := by decide
  refine ⟨?_, fun haccepts => ?_⟩
  · have hidle : ∀ m, ¬(m = 0 ∨ m = 1 ∨ m = 8) → x.active m = false := fun m hm =>
      Bool.eq_false_iff.mpr fun hactive => hm (hinv.lines m hactive)
    have hbelow : ∀ m, (m = 0 → x.active 0 = false) → (m = 1 → x.active 1 = false) →
        (m = 8 → x.active 8 = false) → x.active m = false := by
      intro m h0 h1 h8
      by_cases hm : m = 0 ∨ m = 1 ∨ m = 8
      · obtain rfl | rfl | rfl := hm
        · exact h0 rfl
        · exact h1 rfl
        · exact h8 rfl
      · exact hidle m hm
    rw [hinv.accepts_iff n]
    constructor
    · rintro (⟨rfl, h0⟩ | ⟨rfl, h0, h1⟩ | ⟨rfl, h0, h1, h8⟩)
      · exact ⟨.inl rfl, fun m hm => hbelow m (fun _ => h0) (by omega) (by omega)⟩
      · exact ⟨.inr (.inl rfl), fun m hm => hbelow m (fun _ => h0) (fun _ => h1) (by omega)⟩
      · exact ⟨.inr (.inr rfl), fun m hm => hbelow m (fun _ => h0) (fun _ => h1) fun _ => h8⟩
    · rintro ⟨rfl | rfl | rfl, hall⟩
      · exact .inl ⟨rfl, hall 0 le_rfl⟩
      · exact .inr (.inl ⟨rfl, hall 0 (by decide), hall 1 le_rfl⟩)
      · exact .inr (.inr ⟨rfl, hall 0 (by decide), hall 1 (by decide), hall 8 le_rfl⟩)
  · obtain ⟨h0, h1, h8⟩ := hvector (x.active 0) (x.active 1) (x.active 8)
    rw [← hinv.pics] at h0 h1 h8
    obtain ⟨rfl, -⟩ | ⟨rfl, -⟩ | ⟨rfl, -⟩ := (hinv.accepts_iff n).mp haccepts
    · rw [h0, hardwareInterrupt_initIdt addr idt (by decide)]
      rfl
    · rw [h1, hardwareInterrupt_initIdt addr idt (by decide)]
      rfl
    · rw [h8, hardwareInterrupt_initIdt addr idt (by decide)]
      rfl

end SrirachOS
