import Mathlib.Tactic.IntervalCases

/-!
# The Interrupt Table

`init_idt` makes an interrupt gate of every entry of the table, marks those in use as present, opens the
one of the system calls to user programs, and sets the handlers. The processor reads an entry as 64 bits.

- `gateOf_val`: what it reads is what the fields say,
- `gateOf_initIdt`: all the entries,
- `userInterrupt_initIdt`: a user program gets through one gate only.
-/

namespace SrirachOS

/-! ## x86_desc.h -/

/-- `idt_desc_t`. -/
structure IdtDesc where
  offsetLow : BitVec 16
  segSelector : BitVec 16
  reserved4 : BitVec 8
  reserved3 : BitVec 1
  reserved2 : BitVec 1
  reserved1 : BitVec 1
  size : BitVec 1
  reserved0 : BitVec 1
  dpl : BitVec 2
  present : BitVec 1
  offsetHigh : BitVec 16

/-- `SET_IDT_ENTRY(str, handler)`. -/
def setIdtEntry (handler : BitVec 32) (d : IdtDesc) : IdtDesc :=
  { d with
    offsetHigh := ((handler &&& 0xFFFF0000) >>> 16).setWidth 16
    offsetLow := (handler &&& 0xFFFF).setWidth 16 }

/-- The words of an entry, `val[1]` and `val[0]`. -/
def IdtDesc.val (d : IdtDesc) : BitVec 64 :=
  d.offsetHigh ++ d.present ++ d.dpl ++ d.reserved0 ++ d.size ++ d.reserved1 ++ d.reserved2 ++
    d.reserved3 ++ d.reserved4 ++ d.segSelector ++ d.offsetLow

/-! ## The processor -/

/-- A gate as the processor reads it. -/
structure Gate where
  offset : BitVec 32
  selector : BitVec 16
  type : BitVec 4
  system : BitVec 1
  dpl : BitVec 2
  present : BitVec 1

def gateOf (w : BitVec 64) : Gate where
  offset := w.extractLsb' 48 16 ++ w.extractLsb' 0 16
  selector := w.extractLsb' 16 16
  type := w.extractLsb' 40 4
  system := w.extractLsb' 44 1
  dpl := w.extractLsb' 45 2
  present := w.extractLsb' 47 1

theorem gateOf_val (d : IdtDesc) : gateOf d.val =
    ⟨d.offsetHigh ++ d.offsetLow, d.segSelector, d.size ++ d.reserved1 ++ d.reserved2 ++ d.reserved3,
      d.reserved0, d.dpl, d.present⟩ := by
  obtain ⟨low, sel, r4, r3, r2, r1, size, r0, dpl, present, high⟩ := d
  simp only [gateOf, IdtDesc.val, Gate.mk.injEq]
  refine ⟨?_, ?_, ?_, ?_, ?_, ?_⟩ <;> refine BitVec.eq_of_getLsbD_eq fun i hi => ?_
  all_goals simp only [BitVec.getLsbD_append, BitVec.getLsbD_extractLsb']
  all_goals grind

/-- The address of a handler comes together again. -/
theorem handler_halves (handler : BitVec 32) :
    ((handler &&& 0xFFFF0000) >>> 16).setWidth 16 ++ (handler &&& 0xFFFF).setWidth 16 = handler := by
  have hlow : (0xFFFF : BitVec 32) = BitVec.ofNat 32 (2 ^ 16 - 1) := rfl
  have hhigh : (0xFFFF0000 : BitVec 32) = BitVec.ofNat 32 (2 ^ 16 - 1) <<< 16 := rfl
  refine BitVec.eq_of_getLsbD_eq fun i hi => ?_
  simp only [BitVec.getLsbD_append, BitVec.getLsbD_setWidth, BitVec.getLsbD_ushiftRight,
    BitVec.getLsbD_and, hlow, hhigh, BitVec.getLsbD_shiftLeft, BitVec.getLsbD_ofNat,
    Nat.testBit_two_pow_sub_one]
  grind

/-! ## idt.c -/

/-- The functions that the table leads to. -/
inductive IdtHandler
  | divideByZero | db | nmi | bp | of | br | ud | nm | df | cso | ts | np | ss | gp | pf | default
  | mf | ac | mc | xf
  | syscallWrapper | rtcWrapper | keyboardWrapper | pitWrapper
  deriving DecidableEq, Repr

/-- `if (i < 20 || i == KEYB_IDX || i == SYS_CALL || i == RTC_IDX || i == PIT_IDX)`. -/
def GateUsed (i : Nat) : Prop := i < 20 ∨ i = 33 ∨ i = 0x80 ∨ i = 0x28 ∨ i = 0x20

instance (i : Nat) : Decidable (GateUsed i) :=
  inferInstanceAs (Decidable (i < 20 ∨ i = 33 ∨ i = 0x80 ∨ i = 0x28 ∨ i = 0x20))

/-- The body of the loop of `init_idt`. -/
def initEntry (i : Nat) (d : IdtDesc) : IdtDesc :=
  { d with
    segSelector := 0x0010
    dpl := 0
    size := 1
    reserved0 := 0
    reserved1 := 1
    reserved2 := 1
    reserved3 := 0
    reserved4 := 0
    present := if GateUsed i then 1 else 0 }

/-- `for (i = 0; i < NUM_VEC; i++)`, with the number of turns left. -/
def initLoop : Nat → Nat → (Nat → IdtDesc) → Nat → IdtDesc
  | 0, _, idt => idt
  | turns + 1, i, idt => initLoop turns (i + 1) (Function.update idt i (initEntry i (idt i)))

/-- The calls of `SET_IDT_ENTRY`, in their order. -/
def idtEntries : List (Nat × IdtHandler) :=
  [(0, .divideByZero), (1, .db), (2, .nmi), (3, .bp), (4, .of), (5, .br), (6, .ud), (7, .nm), (8, .df),
    (9, .cso), (10, .ts), (11, .np), (12, .ss), (13, .gp), (14, .pf), (15, .default), (16, .mf), (17, .ac),
    (18, .mc), (19, .xf), (0x80, .syscallWrapper), (0x28, .rtcWrapper), (33, .keyboardWrapper),
    (0x20, .pitWrapper)]

/-- `init_idt()`, with the functions at the addresses `addr`. -/
def initIdt (addr : IdtHandler → BitVec 32) (idt : Nat → IdtDesc) : Nat → IdtDesc :=
  let idt := initLoop 256 0 idt
  let idt := Function.update idt 0x80 { idt 0x80 with dpl := 3 }
  idtEntries.foldl (fun idt e => Function.update idt e.1 (setIdtEntry (addr e.2) (idt e.1))) idt

/-- How the processor takes an interrupt. -/
inductive Taken
  | enters (offset : BitVec 32)
  | notPresent
  | protection
  deriving DecidableEq

/-- An interrupt of the hardware, or an exception. -/
def hardwareInterrupt (idt : Nat → IdtDesc) (v : Nat) : Taken :=
  let gate := gateOf (idt v).val
  if gate.present = 0 then .notPresent else .enters gate.offset

/-- `int $v` in a user program, at privilege level 3. -/
def userInterrupt (idt : Nat → IdtDesc) (v : Nat) : Taken :=
  let gate := gateOf (idt v).val
  if gate.dpl.toNat < 3 then .protection
  else if gate.present = 0 then .notPresent
  else .enters gate.offset

/-! ## The table -/

theorem initLoop_apply {turns i : Nat} (idt : Nat → IdtDesc) (v : Nat) :
    initLoop turns i idt v = if i ≤ v ∧ v < i + turns then initEntry v (idt v) else idt v := by
  induction turns generalizing i idt with
  | zero => rw [initLoop, if_neg (by omega)]
  | succ turns ih =>
    rw [initLoop, ih]
    by_cases hv : v = i
    · rw [hv, if_neg (by omega), Function.update_self, if_pos (by omega)]
    · rw [Function.update_of_ne hv]
      exact if_congr (by omega) rfl rfl

/-- The handler of a vector. -/
def idtHandler (v : Nat) : Option IdtHandler := idtEntries.lookup v

/-- Entries for different vectors are set independently. -/
theorem setEntries_apply (addr : IdtHandler → BitVec 32) {entries : List (Nat × IdtHandler)}
    (hnodup : (entries.map Prod.fst).Nodup) (idt : Nat → IdtDesc) (v : Nat) :
    entries.foldl (fun idt e => Function.update idt e.1 (setIdtEntry (addr e.2) (idt e.1))) idt v =
      (entries.lookup v).elim (idt v) fun h => setIdtEntry (addr h) (idt v) := by
  induction entries generalizing idt with
  | nil => rfl
  | cons e entries ih =>
    obtain ⟨w, h⟩ := e
    rw [List.map_cons, List.nodup_cons] at hnodup
    rw [List.foldl_cons, ih hnodup.2, List.lookup_cons]
    by_cases hv : v = w
    · have hnone : entries.lookup w = none := List.lookup_eq_none_iff.mpr fun e he => by
        simpa using fun heq => hnodup.1 (List.mem_map.mpr ⟨e, he, heq.symm⟩)
      subst hv
      simp [hnone]
    · have hne : (v == w) = false := by simpa using hv
      rw [hne, Function.update_of_ne hv]

theorem idtHandler_isSome : ∀ v < 256, (idtHandler v).isSome = decide (GateUsed v) := by decide +kernel

/-- **What the processor reads** from an entry of the table. -/
theorem gateOf_initIdt (addr : IdtHandler → BitVec 32) (idt : Nat → IdtDesc) {v : Nat} (hv : v < 256) :
    gateOf (initIdt addr idt v).val =
      ⟨(idtHandler v).elim ((idt v).offsetHigh ++ (idt v).offsetLow) addr, 0x0010, 0xE, 0,
        if v = 0x80 then 3 else 0, if (idtHandler v).isSome then 1 else 0⟩ := by
  have hnodup : (idtEntries.map Prod.fst).Nodup := by decide
  have hbase : Function.update (initLoop 256 0 idt) 0x80 { initLoop 256 0 idt 0x80 with dpl := 3 } v =
      { initEntry v (idt v) with dpl := if v = 0x80 then 3 else 0 } := by
    by_cases hsys : v = 0x80
    · rw [hsys, Function.update_self, initLoop_apply, if_pos (by decide), if_pos rfl]
    · rw [Function.update_of_ne hsys, initLoop_apply, if_pos (by omega), if_neg hsys]
      rfl
  have hentry : initIdt addr idt v = (idtHandler v).elim
      { initEntry v (idt v) with dpl := if v = 0x80 then 3 else 0 }
      fun h => setIdtEntry (addr h) { initEntry v (idt v) with dpl := if v = 0x80 then 3 else 0 } := by
    rw [initIdt, setEntries_apply addr hnodup, hbase]
    rfl
  have hpresent : (if GateUsed v then 1 else 0 : BitVec 1) = if (idtHandler v).isSome then 1 else 0 := by
    rw [idtHandler_isSome v hv]
    simp
  have htype : (1 : BitVec 1) ++ (1 : BitVec 1) ++ (1 : BitVec 1) ++ (0 : BitVec 1) = (0xE : BitVec 4) := by
    decide
  rw [gateOf_val, hentry, ← hpresent]
  cases idtHandler v with
  | none => simp only [Option.elim_none, initEntry, htype]
  | some h => simp only [Option.elim_some, setIdtEntry, handler_halves, initEntry, htype]

/-- An interrupt of the hardware reaches the handler of its vector. -/
theorem hardwareInterrupt_initIdt (addr : IdtHandler → BitVec 32) (idt : Nat → IdtDesc) {v : Nat}
    (hv : v < 256) : hardwareInterrupt (initIdt addr idt) v =
      (idtHandler v).elim .notPresent fun h => .enters (addr h) := by
  rw [hardwareInterrupt, gateOf_initIdt addr idt hv]
  cases idtHandler v <;> rfl

/-- **The one way in**: whatever the table held before, and whichever of the 256 interrupts a user program
raises, it gets to `syscall_wrapper` with `int $0x80` and to a protection fault with every other. -/
theorem userInterrupt_initIdt (addr : IdtHandler → BitVec 32) (idt : Nat → IdtDesc) {v : Nat}
    (hv : v < 256) : userInterrupt (initIdt addr idt) v =
      if v = 0x80 then .enters (addr .syscallWrapper) else .protection := by
  rw [userInterrupt, gateOf_initIdt addr idt hv]
  by_cases hsys : v = 0x80
  · subst hsys
    rfl
  · simp [hsys]

theorem userInterrupt_initIdt_sample :
    userInterrupt (initIdt (fun _ => 0x00400000) fun _ => ⟨0, 0, 0, 0, 0, 0, 0, 0, 3, 1, 0⟩) 3 =
      if 3 = 0x80 then .enters 0x00400000 else .protection :=
  userInterrupt_initIdt (fun _ => 0x00400000) (fun _ => ⟨0, 0, 0, 0, 0, 0, 0, 0, 3, 1, 0⟩) (by decide)

end SrirachOS
