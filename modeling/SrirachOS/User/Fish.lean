import SrirachOS.Foundation.Chains

/-!
# The Blinking Characters of fish

The user program `fish` draws on its screen with characters that blink. Each has an entry in an array, and
the entries in use are linked to a list; routines of `blink.S` add and remove characters, look one up,
let one follow another, and count all of them down with every tick of the clock. An entry is free when
its location is zero.

- `mp1IoctlAdd`, `mp1IoctlRemove`, `mp1IoctlFind`, `mp1IoctlSync`, `mp1RtcTasklet`: the routines,
- `blinkCalls`: any number of calls of them.
-/

namespace SrirachOS

open Foundation.Chains

namespace User

/-! ## blink.h and fish.c -/

/-- A blinking character. -/
structure Blink where
  location : UInt16
  onChar : UInt8
  offChar : UInt8
  onLength : UInt16
  offLength : UInt16
  countdown : UInt16
  status : UInt16
  deriving DecidableEq, Repr

/-- `struct mp1_blink_struct`; a pointer to one is an index of `blink_array`, or `NULL`. -/
structure BlinkStruct extends Blink where
  next : Option Nat
  deriving DecidableEq, Repr

/-- An entry of zeros. -/
def BlinkStruct.zero : BlinkStruct := ⟨⟨0, 0, 0, 0, 0, 0, 0⟩, none⟩

/-- `blink_array`, `mp1_list_head`, and the video memory that `vmem_base_addr` points to. -/
structure Fish where
  blinkArray : Nat → BlinkStruct
  listHead : Option Nat
  vmem : Nat → UInt8

namespace Fish

/-- Before the first call: the array has been cleared. -/
def start (vmem : Nat → UInt8) : Fish := ⟨fun _ => .zero, none, vmem⟩

/-- The links of the entries. -/
def next (s : Fish) (p : Nat) : Option Nat := (s.blinkArray p).next

/-- An entry is stored. -/
def store (p : Nat) (b : BlinkStruct) (s : Fish) : Fish :=
  { s with blinkArray := Function.update s.blinkArray p b }

end Fish

/-- `mp1_malloc(size)`, from entry `i` on. -/
def mp1Malloc (blinkArray : Nat → BlinkStruct) : Nat → Nat → Option Nat
  | 0, _ => none
  | turns + 1, i => if (blinkArray i).location = 0 then some i else mp1Malloc blinkArray turns (i + 1)

/-- `mp1_free(memory)`. -/
def mp1Free (p : Nat) (s : Fish) : Fish := s.store p .zero

/-! ## blink.S -/

/-- `mp1_poke`, with the location that is going to be doubled. -/
def mp1Poke (location : UInt16) (cl : UInt8) (s : Fish) : Fish :=
  { s with vmem := Function.update s.vmem (2 * location.toNat) cl }

/-- More turns than a list of entries can take; in a list that goes round there is no end. -/
def listTurns : Nat := 2001

/-- `tasklet_loop`, for one entry. -/
def taskletBody (p : Nat) (s : Fish) : Fish :=
  let b := s.blinkArray p
  let countdown := b.countdown - 1
  if 0 < countdown.toInt16 then s.store p { b with countdown }
  else if b.status &&& 1 = 0 then
    (mp1Poke b.location b.onChar s).store p { b with countdown := b.onLength, status := b.status ^^^ 1 }
  else
    (mp1Poke b.location b.offChar s).store p { b with countdown := b.offLength, status := b.status ^^^ 1 }

/-- `mp1_rtc_tasklet(trash)`. -/
def mp1RtcTasklet (s : Fish) : Option Fish := sweep Fish.next taskletBody listTurns s.listHead s

/-- `mp1_find_helper`. -/
def mp1FindHelper (ax : UInt16) (s : Fish) : Option (Option Nat) :=
  seek s.next (fun p => (s.blinkArray p).location == ax) listTurns s.listHead

/-- `mp1_ioctl_add`, with the structure of the user that its argument points to. -/
def mp1IoctlAdd (user : Blink) (s : Fish) : Int × Fish :=
  if 80 * 25 ≤ user.location.toNat then (-1, s)
  else
    let temp : Blink := { user with status := 1, countdown := user.onLength }
    match mp1Malloc s.blinkArray (80 * 25) 0 with
    | none => (-1, s)
    | some edx =>
      let s := { s.store edx ⟨temp, s.listHead⟩ with listHead := some edx }
      (0, mp1Poke temp.location temp.onChar s)

/-- A link is set: `mp1_list_head`, or the link of an entry. -/
def Fish.setLink (place link : Option Nat) (s : Fish) : Fish :=
  match place with
  | none => { s with listHead := link }
  | some q => s.store q { s.blinkArray q with next := link }

/-- `mp1_ioctl_remove`. -/
def mp1IoctlRemove (arg : UInt32) (s : Fish) : Option (Int × Fish) := do
  match ← mp1FindHelper arg.toUInt16 s with
  | none => some (-1, s)
  | some eax =>
    let edx ← findPlace s.next s.listHead eax listTurns none
    some (0, mp1Free eax (s.setLink edx (s.next eax)))

/-- `mp1_ioctl_find`, and the entry that it copies to the user. -/
def mp1IoctlFind (user : Blink) (s : Fish) : Option (Int × Option BlinkStruct) := do
  match ← mp1FindHelper user.location s with
  | none => some (-1, none)
  | some eax => some (0, some (s.blinkArray eax))

/-- `testb $0x1,STATUS(%edi)` and `cmovl %ebx,%ecx`: the move is made when the flags of sign and overflow
differ, and the test clears the flag of overflow. -/
def syncChar (b : Blink) : UInt8 :=
  let tested := b.status.toUInt8 &&& 1
  let signFlag := decide (tested &&& 0x80 ≠ 0)
  let overflowFlag := false
  if signFlag ≠ overflowFlag then b.onChar else b.offChar

/-- `mp1_ioctl_sync`. -/
def mp1IoctlSync (arg : UInt32) (s : Fish) : Option (Int × Fish) := do
  match ← mp1FindHelper (arg >>> 16).toUInt16 s with
  | none => some (-1, s)
  | some esi =>
    match ← mp1FindHelper (arg &&& 0xFFFF).toUInt16 s with
    | none => some (-1, s)
    | some edi =>
      let first := s.blinkArray esi
      let s := s.store edi
        { s.blinkArray edi with
          onLength := first.onLength
          offLength := first.offLength
          countdown := first.countdown
          status := first.status }
      let second := s.blinkArray edi
      some (0, mp1Poke second.location (syncChar second.toBlink) s)

/-- The calls of `mp1_ioctl`, and that of the tasklet. -/
inductive BlinkCall
  | add (user : Blink)
  | remove (arg : UInt32)
  | find (user : Blink)
  | sync (arg : UInt32)
  | tasklet
  deriving DecidableEq

/-- A call, with its result and the entry that it copies to the user. -/
def blinkCall (s : Fish) : BlinkCall → Option ((Int × Option BlinkStruct) × Fish)
  | .add user => some (((mp1IoctlAdd user s).1, none), (mp1IoctlAdd user s).2)
  | .remove arg => do
    let (eax, s) ← mp1IoctlRemove arg s
    some ((eax, none), s)
  | .find user => do
    let answer ← mp1IoctlFind user s
    some (answer, s)
  | .sync arg => do
    let (eax, s) ← mp1IoctlSync arg s
    some ((eax, none), s)
  | .tasklet => do
    let s ← mp1RtcTasklet s
    some ((0, none), s)

/-- One call after the other, if all of them end. -/
def blinkCalls : List BlinkCall → Fish → Option (List (Int × Option BlinkStruct) × Fish)
  | [], s => some ([], s)
  | c :: cs, s => do
    let (answer, s) ← blinkCall s c
    let (answers, s) ← blinkCalls cs s
    some (answer :: answers, s)

end User

end SrirachOS
