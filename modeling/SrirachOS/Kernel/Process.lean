import SrirachOS.Kernel.State

/-!
# Execute and Halt

`system_execute` and `system_halt` (`syscall.c`) as atomic steps. The stages of execute are
functions of their own: storing the argument text, finding and marking a slot, mapping its frame,
loading, and everything behind the `cli` (`enterProgram`).

A program that does not fit behind its load address makes the copy fault; the fault handler
halts the running process. A command that does not fit into `parsed_command` and `arg_buf` is stored
over what lies behind them: `storeArgs` says which variables that are, as far as `Followed` goes.
-/

namespace SrirachOS

open Foundation

namespace Kernel

/-! ## The program file -/

/-- `command[0..]` up to its terminator. -/
def commandText (command : CStr) : CStr := command.takeWhile (· ≠ 0)

/-- The word and the argument text of a command: `parsed_command` and `arg_buf`. -/
def parseCommand (command : CStr) : CStr × CStr :=
  let text := (commandText command).dropWhile (· = 32)
  (text.takeWhile (· ≠ 32), (text.dropWhile (· ≠ 32)).dropWhile (· = 32))

/-- The word and the argument text leave room for their terminators in `parsed_command` and `arg_buf`. -/
def CommandFits (command : CStr) : Prop :=
  (parseCommand command).1.length < 128 ∧ (parseCommand command).2.length < 128

instance (command : CStr) : Decidable (CommandFits command) := inferInstanceAs (Decidable (_ ∧ _))

/-- How far the model follows a command that does not fit. Behind `arg_buf` the linker puts the
variables of `syscall.c` in the order of their declarations: a byte for `active_terminal`, three of
padding, then `main_process`. A word of 128 characters runs over the frame of `system_execute`, an
argument text of 132 over `main_process`; and an owner above 127 would be a negative number in
`process_num`. -/
def Followed (command : CStr) : Prop :=
  (parseCommand command).1.length < 128 ∧ (parseCommand command).2.length < 132 ∧
    (CStr.char (parseCommand command).2 128).toNat < 128

instance (command : CStr) : Decidable (Followed command) := inferInstanceAs (Decidable (_ ∧ _ ∧ _))

theorem CommandFits.followed {command : CStr} (h : CommandFits command) : Followed command := by
  refine ⟨h.1, h.2.trans (by decide), ?_⟩
  rw [CStr.char, List.getD_eq_getElem?_getD, List.getElem?_eq_none_iff.mpr (Nat.le_of_lt h.2)]
  decide

/-- A four byte buffer into which `bytes` have been read. -/
def fillBuffer (bytes : List UInt8) (junk : Nat → UInt8) : List UInt8 :=
  (List.range 4).map fun k => bytes.getD k (junk k)

/-- `entry_point`: the bytes are stored little endian. -/
def entryPointOf (buf : List UInt8) : Int :=
  (buf.getD 0 0).toNat + 256 * (buf.getD 1 0).toNat + 65536 * (buf.getD 2 0).toNat +
    16777216 * (buf.getD 3 0).toNat

/-- The checks of execute on the file named by `word`, and what it reads from the file; `none`
for -1. `junk` is what `buf` and `save_entry_point` held. -/
def findProgram (img : Image) (word : CStr) (junk : Nat → UInt8) : Option Program :=
  match readDentryByName img (some word) with
  | none => none
  | some test =>
    let buf := fillBuffer (readData img (u32 test.inodeNum) 0 4).buf junk
    if buf ≠ [0x7f, 0x45, 0x4c, 0x46] then none
    else
      let save := fillBuffer (readData img (u32 test.inodeNum) 24 4).buf fun k => junk (4 + k)
      some
        { bytes := (readData img (u32 test.inodeNum) 0 0x800000).buf
          entry := entryPointOf save }

/-- A file of at least four bytes is judged by its own bytes. -/
theorem findProgram_of_magic {img : Image} {word : CStr} {test : Dentry}
    (htest : readDentryByName img (some word) = some test)
    (hmagic : (readData img (u32 test.inodeNum) 0 4).buf = [0x7f, 0x45, 0x4c, 0x46])
    (junk : Nat → UInt8) : ∃ prog, findProgram img word junk = some prog ∧
      prog.bytes = (readData img (u32 test.inodeNum) 0 0x800000).buf := by
  refine ⟨⟨_, entryPointOf (fillBuffer (readData img (u32 test.inodeNum) 24 4).buf
    fun k => junk (4 + k))⟩, ?_, rfl⟩
  unfold findProgram
  rw [htest]
  dsimp only
  rw [hmagic, if_neg (by simp [fillBuffer, List.range_succ])]

/-- The bytes between the load address and the end of the program page. -/
def programRoom : Nat := 0x400000 - 0x48000

/-! ## Stages of execute -/

/-- `arg_buf[j] = command[i]` for the whole argument text and `arg_buf[j] = '\0'`: what does not fit into
the 128 bytes goes to `active_terminal` and to the padding behind it. -/
def storeArgs (args : CStr) (k : Kernel) : Kernel :=
  if args.length < 128 then { k with argBuf := args }
  else
    { k with
      argBuf := args.take 128
      activeTerminal := (CStr.char args 128).toNat
      padding := if args.length = 128 then k.padding else args.drop 129 }

/-- The argument text goes to `arg_buf` and to the variables behind it. -/
theorem storeArgs_pcb (args : CStr) (k : Kernel) : (k.storeArgs args).pcb = k.pcb := by
  unfold storeArgs
  split <;> rfl

/-- The string that begins at `arg_buf`: without a terminator in the array it goes on behind it. -/
def argText (k : Kernel) : CStr :=
  if k.argBuf.length < 128 then k.argBuf
  else k.argBuf ++ commandText (UInt8.ofNat k.activeTerminal.toNat :: k.padding)

/-- A terminated text ends in the buffer. -/
theorem argText_of_lt {k : Kernel} (h : k.argBuf.length < 128) : k.argText = k.argBuf := if_pos h

theorem argText_eq_nil_iff {k : Kernel} : k.argText = [] ↔ k.argBuf = [] := by
  unfold argText
  split
  · exact Iff.rfl
  · next hfull =>
    refine iff_of_false (fun h => ?_) fun h => hfull (by rw [h]; decide)
    exact hfull (by rw [(List.append_eq_nil_iff.mp h).1]; decide)

/-- The slot is free and may be taken by the displayed terminal. -/
def slotFree (k : Kernel) (i : Int) : Prop :=
  k.processNum i = -1 ∧ ((i < 3 ∧ i = k.activeTerminal) ∨ (3 ≤ i ∧ i < 6))

instance (k : Kernel) (i : Int) : Decidable (k.slotFree i) := inferInstanceAs (Decidable (_ ∧ _))

/-- `while (process_idx < 8)`: the slot that execute takes, with the number of turns left before
`process_idx >= 6`. -/
def findSlot (k : Kernel) : Nat → Int → Option Int
  | 0, _ => none
  | turns + 1, i => if k.slotFree i then some i else findSlot k turns (i + 1)

/-- `process_num[process_idx] = active_terminal`. -/
def markSlot (i : Int) (k : Kernel) : Kernel :=
  { k with processNum := Function.update k.processNum i k.activeTerminal }

/-- `map_page` of the frame of a slot. -/
def mapSlot (i : Int) (k : Kernel) : Kernel := { k with paging := mapProgram i.toNat k.paging }

/-- The physical address that `PROG_IMG_OFF` is mapped to. -/
def programAddr (k : Kernel) : Nat := k.paging.pageDir 32 / 0x400000 * 0x400000 + 0x48000

/-- Byte `n` of the copy into the program page. -/
def loadByte (n : Nat) (b : UInt8) (k : Kernel) : Kernel :=
  { k with mem := Function.update k.mem (k.programAddr + n) b }

/-- The copy, from byte `n` on. -/
def loadBytes : Nat → List UInt8 → Kernel → Kernel
  | _, [], k => k
  | n, b :: bytes, k => loadBytes (n + 1) bytes (k.loadByte n b)

/-- `for(i=idx-1;i>=0;i--)`. -/
def scanOwned (processNum : Int → Int) (terminal : Int) : Nat → Int
  | 0 => -1
  | i + 1 => if processNum i = terminal then i else scanOwned processNum terminal i

/-- `find_parent_process(idx, terminal)`. -/
def findParentProcess (k : Kernel) (idx terminal : Int) : Int :=
  if idx < 3 then -1 else scanOwned k.processNum terminal idx.toNat

/-- `parent_pid` of `create_pcb`. -/
def parentPid (k : Kernel) (i : Int) : Int :=
  if i < 3 then i else k.findParentProcess i k.activeTerminal

/-- `create_pcb(process_idx)`. -/
def createPcb (i : Int) (k : Kernel) : Kernel :=
  let parent := k.parentPid i
  { k.modifyPcb i fun pcb =>
      { pcb with pidByte := pidByteOf i, parentPcb := parent, statusRetval := 0 } with
    currTask := Function.update k.currTask k.activeTerminal i }

/-- From `cli` on: the PCB, `main_process`, the saved frame, the TSS and the `iret`. -/
def enterProgram (caller : Caller) (below : Kont) (prog : Program) (i : Int) (k : Kernel) : Kernel :=
  let stack := k.cpu.stack
  { (k.createPcb i).modifyPcb i fun pcb => { pcb with frame := ⟨stack, caller, below⟩ } with
    mainProcess := i
    tssEsp0 := esp0 i
    entryPoint := prog.entry
    cpu := ⟨i, .user⟩ }

/-! ## Execute -/

/-- How `system_execute` ends. -/
inductive ExecResult where
  /-- it returned to its caller -/
  | returned (ret : Int) (k : Kernel)
  /-- it entered the new program -/
  | entered (k : Kernel)
  /-- the copy ran out of the program page -/
  | faulted (k : Kernel)
  /-- the parser ran over the frame of the call, or over `main_process` -/
  | overran (k : Kernel)

/-- `system_execute` from `// check file validity` on, for the file named by `word`. -/
def executeFile (img : Image) (word : CStr) (junk : Nat → UInt8) (caller : Caller) (k : Kernel) :
    ExecResult :=
  match findProgram img word junk with
  | none => .returned (-1) k
  | some prog =>
    match k.findSlot 6 0 with
    | none => .returned 0 k
    | some i =>
      let k := (k.markSlot i).mapSlot i
      if prog.bytes.length > programRoom then .faulted (k.loadBytes 0 (prog.bytes.take programRoom))
      else .entered ((k.loadBytes 0 prog.bytes).enterProgram caller k.cpu.kont prog i)

/-- `system_execute(command)`, atomically. -/
def systemExecute (img : Image) (command : CStr) (junk : Nat → UInt8) (caller : Caller)
    (k : Kernel) : ExecResult :=
  if Followed command then
    executeFile img (parseCommand command).1 junk caller (k.storeArgs (parseCommand command).2)
  else .overran { k with hung := true }

/-- The command that starts a shell. -/
def shell : CStr := [115, 104, 101, 108, 108]

/-! ## Halt -/

/-- `// remap program`: from there on the process of `parent` is the running one. -/
def remapParent (parent : Int) (k : Kernel) : Kernel :=
  let pid := (k.pcb parent).pid
  { k.mapSlot pid with mainProcess := pid, tssEsp0 := esp0 pid }

/-- `jmp ret_from_halt` with a saved frame: execute returns to whoever called it. A halt that
called it goes on with its own tail; at most three root processes have such frames, so a longer
chain comes back to a frame it has been in and never ends. -/
def returnFromExecute : Nat → Frame → Kernel → Kernel
  | 0, _, k => { k with hung := true }
  | turns + 1, frame, k =>
    match frame.caller with
    | .halt curr parent =>
      let k := k.remapParent parent
      returnFromExecute turns (k.pcb curr).frame k
    | _ => { k with cpu := ⟨frame.stack, frame.below⟩ }

/-- The tail of `system_halt`. -/
def haltTail (curr parent : Int) (k : Kernel) : Kernel :=
  let k := k.remapParent parent
  returnFromExecute 4 (k.pcb curr).frame k

/-- `parent_pcb->status_retval = status`, the loop over `terminals` and the release of the
slot. -/
def releaseSlot (status : UInt8) (k : Kernel) : Kernel :=
  let pid := (k.pcb k.mainProcess).pid
  let parent := (k.pcb k.mainProcess).parentPcb
  let k := k.modifyPcb parent fun pcb => { pcb with statusRetval := status.toNat }
  { k with
    currTask := fun t =>
      if 0 ≤ t ∧ t < 3 ∧ k.currTask t = pid then (k.pcb parent).pid else k.currTask t
    processNum := Function.update k.processNum pid (-1) }

/-- `system_halt(status)`. Should the shell that replaces a root shell not fit its page, the fault
halts the same process again, without end. -/
def systemHalt (img : Image) (status : UInt8) (junk : Nat → UInt8) (k : Kernel) : Kernel :=
  let curr := k.mainProcess
  let parent := (k.pcb curr).parentPcb
  let pid := (k.pcb curr).pid
  let k := k.releaseSlot status
  if pid < 3 then
    match systemExecute img shell junk (.halt curr parent) k with
    | .entered k => k
    | .returned _ k => k.haltTail curr parent
    | .faulted k => { k with hung := true }
    | .overran k => k
  else k.haltTail curr parent

/-- What follows an execute that interrupts were enabled in: a fault is handled by a halt. -/
def settle (img : Image) (junk : Nat → UInt8) : ExecResult → Kernel
  | .entered k => k
  | .returned _ k => k
  | .faulted k => k.systemHalt img 255 junk
  | .overran k => k

/-! ## What the searches find -/

/-- The slot that execute takes is the first one it may take. -/
theorem findSlot_eq_some {k : Kernel} {turns : Nat} {start i : Int}
    (h : k.findSlot turns start = some i) :
    k.slotFree i ∧ start ≤ i ∧ i < start + turns ∧ ∀ j, start ≤ j → j < i → ¬ k.slotFree j := by
  induction turns generalizing start with
  | zero => exact nomatch h
  | succ turns ih =>
    rw [findSlot] at h
    by_cases hfree : k.slotFree start
    · rw [if_pos hfree, Option.some.injEq] at h
      subst h
      exact ⟨hfree, le_refl _, by omega, fun j h1 h2 => absurd h1 (by omega)⟩
    · rw [if_neg hfree] at h
      obtain ⟨hslot, hle, hlt, hfirst⟩ := ih h
      refine ⟨hslot, by omega, by omega, fun j h1 h2 => ?_⟩
      rcases eq_or_ne j start with rfl | hne
      · exact hfree
      · exact hfirst j (by omega) h2

theorem findSlot_eq_none {k : Kernel} {turns : Nat} {start : Int}
    (h : k.findSlot turns start = none) (j : Int) (h1 : start ≤ j) (h2 : j < start + turns) :
    ¬ k.slotFree j := by
  induction turns generalizing start with
  | zero => omega
  | succ turns ih =>
    rw [findSlot] at h
    by_cases hfree : k.slotFree start
    · rw [if_pos hfree] at h
      exact nomatch h
    · rw [if_neg hfree] at h
      rcases eq_or_ne j start with rfl | hne
      · exact hfree
      · exact ih h (by omega) (by omega)

theorem findSlot_of_first {k : Kernel} {turns : Nat} {start i : Int} (hfree : k.slotFree i)
    (h1 : start ≤ i) (h2 : i < start + turns)
    (hfirst : ∀ j, start ≤ j → j < i → ¬ k.slotFree j) : k.findSlot turns start = some i := by
  cases hfind : k.findSlot turns start with
  | none => exact absurd hfree (findSlot_eq_none hfind i h1 h2)
  | some j =>
    obtain ⟨hslot, hle, -, hnone⟩ := findSlot_eq_some hfind
    have hij : ¬ j < i := fun hlt => hfirst j hle hlt hslot
    have hji : ¬ i < j := fun hlt => hnone i h1 hlt hfree
    rw [show j = i by omega]

/-- The displayed terminal's own slot, when it is free, is the one that execute takes. -/
theorem findSlot_displayed {k : Kernel} (h0 : 0 ≤ k.activeTerminal) (h3 : k.activeTerminal < 3)
    (hfree : k.processNum k.activeTerminal = -1) : k.findSlot 6 0 = some k.activeTerminal :=
  findSlot_of_first ⟨hfree, .inl ⟨h3, rfl⟩⟩ h0 (by omega) fun j _ hj ⟨_, hown⟩ => by
    rcases hown with ⟨-, heq⟩ | ⟨hj3, -⟩ <;> omega

/-- While that slot is occupied, execute takes the first free shared slot. -/
theorem findSlot_shared {k : Kernel} (hown : k.processNum k.activeTerminal ≠ -1) {i : Int}
    (h3 : 3 ≤ i) (h6 : i < 6) (hfree : k.processNum i = -1)
    (hfirst : ∀ j, 3 ≤ j → j < i → k.processNum j ≠ -1) : k.findSlot 6 0 = some i :=
  findSlot_of_first ⟨hfree, .inr ⟨h3, h6⟩⟩ (by omega) (by omega) fun j _ hj ⟨hnone, hslot⟩ => by
    rcases hslot with ⟨-, heq⟩ | ⟨hj3, -⟩
    · exact hown (by rw [← heq]; exact hnone)
    · exact hfirst j hj3 hj hnone

/-- The scan finds the highest slot below that the terminal owns. -/
theorem scanOwned_spec {processNum : Int → Int} {terminal : Int} {n : Nat} {r : Int} (h0 : 0 ≤ r)
    (hn : r < n) (hr : processNum r = terminal) :
    r ≤ scanOwned processNum terminal n ∧ scanOwned processNum terminal n < n ∧
      processNum (scanOwned processNum terminal n) = terminal ∧
      ∀ j, scanOwned processNum terminal n < j → j < n → processNum j ≠ terminal := by
  induction n with
  | zero => omega
  | succ n ih =>
    rw [scanOwned]
    by_cases hown : processNum n = terminal
    · rw [if_pos hown]
      exact ⟨by omega, by omega, hown, fun j h1 h2 => absurd h1 (by omega)⟩
    · rw [if_neg hown]
      have hne : r ≠ n := fun h => hown (h ▸ hr)
      obtain ⟨hle, hlt, heq, hnone⟩ := ih (by omega)
      refine ⟨hle, by omega, heq, fun j h1 h2 => ?_⟩
      rcases eq_or_ne j n with rfl | hj
      · exact hown
      · exact hnone j h1 (by omega)

/-! ## What an execute can do -/

/-- A process has been created in slot `i`, and runs. -/
structure Created (caller : Caller) (i : Int) (k k' : Kernel) : Prop where
  processNum : k'.processNum = Function.update k.processNum i k.activeTerminal
  currTask : k'.currTask = Function.update k.currTask k.activeTerminal i
  activeTerminal : k'.activeTerminal = k.activeTerminal
  mainProcess : k'.mainProcess = i
  pid : (k'.pcb i).pid = i
  parentPcb : (k'.pcb i).parentPcb = (k.markSlot i).parentPid i
  frame : (k'.pcb i).frame = ⟨k.cpu.stack, caller, k.cpu.kont⟩
  pcb_of_ne : ∀ p, p ≠ i → k'.pcb p = k.pcb p
  tssEsp0 : k'.tssEsp0 = esp0 i
  paging : k'.paging = mapProgram i.toNat k.paging
  cpu : k'.cpu = ⟨i, .user⟩
  hung : k'.hung = k.hung
  beforeTerminals : k'.beforeTerminals = k.beforeTerminals

theorem enterProgram_pcb (caller : Caller) (below : Kont) (prog : Program) (i : Int) (k : Kernel) :
    (k.enterProgram caller below prog i).pcb = Function.update k.pcb i
      { k.pcb i with
        pidByte := pidByteOf i
        parentPcb := k.parentPid i
        statusRetval := 0
        frame := ⟨k.cpu.stack, caller, below⟩ } := by
  simp [enterProgram, createPcb, modifyPcb]

theorem created_enterProgram (caller : Caller) (prog : Program) {i : Int} (h0 : 0 ≤ i) (h6 : i < 6)
    (k : Kernel) (mem : Nat → UInt8) (argBuf : CStr) :
    Created caller i k (({ (k.markSlot i).mapSlot i with mem, argBuf } : Kernel).enterProgram caller
      k.cpu.kont prog i) where
  processNum := rfl
  currTask := rfl
  activeTerminal := rfl
  mainProcess := rfl
  pid := by
    rw [enterProgram_pcb, Function.update_self]
    exact toNat_pidByteOf h0 h6
  parentPcb := by rw [enterProgram_pcb, Function.update_self]; rfl
  frame := by rw [enterProgram_pcb, Function.update_self]; rfl
  pcb_of_ne p hp := by rw [enterProgram_pcb, Function.update_of_ne hp]; rfl
  tssEsp0 := rfl
  paging := rfl
  cpu := rfl
  hung := rfl
  beforeTerminals := rfl

/-- The copy changes physical memory only. -/
theorem loadBytes_eq (n : Nat) (bytes : List UInt8) (k : Kernel) :
    ∃ mem, k.loadBytes n bytes = { k with mem } := by
  induction bytes generalizing n k with
  | nil => exact ⟨k.mem, rfl⟩
  | cons b bytes ih =>
    obtain ⟨mem, hmem⟩ := ih (n + 1) (k.loadByte n b)
    exact ⟨mem, hmem⟩

theorem systemExecute_of_followed {command : CStr} (h : Followed command) (img : Image)
    (junk : Nat → UInt8) (caller : Caller) (k : Kernel) :
    systemExecute img command junk caller k =
      executeFile img (parseCommand command).1 junk caller (k.storeArgs (parseCommand command).2) :=
  if_pos h

/-- Of a command that fits, execute stores the argument text and nothing else. -/
theorem systemExecute_of_fits {command : CStr} (h : CommandFits command) (img : Image)
    (junk : Nat → UInt8) (caller : Caller) (k : Kernel) :
    systemExecute img command junk caller k =
      executeFile img (parseCommand command).1 junk caller
        { k with argBuf := (parseCommand command).2 } := by
  rw [systemExecute_of_followed h.followed, storeArgs, if_pos h.2]

/-- A program that fits and a slot for it: a process is created. -/
theorem executeFile_entered {img : Image} {word : CStr} {junk : Nat → UInt8} {prog : Program}
    (hprog : findProgram img word junk = some prog) (hlen : prog.bytes.length ≤ programRoom)
    (caller : Caller) {k : Kernel} {i : Int} (hslot : k.findSlot 6 0 = some i) (argBuf : CStr) :
    ∃ k', executeFile img word junk caller { k with argBuf } = .entered k' ∧ Created caller i k k' := by
  obtain ⟨mem, hmem⟩ := loadBytes_eq 0 prog.bytes
    ((({ k with argBuf } : Kernel).markSlot i).mapSlot i)
  obtain ⟨-, h0, h6, -⟩ := findSlot_eq_some hslot
  refine ⟨_, ?_, created_enterProgram caller prog h0 (by omega) k mem argBuf⟩
  have hslot' : ({ k with argBuf } : Kernel).findSlot 6 0 = some i := hslot
  unfold executeFile
  rw [hprog]
  dsimp only
  rw [hslot']
  dsimp only
  rw [if_neg (by omega), hmem]
  rfl

/-- Execute creates a process when the file is a program that fits and a slot can be taken. -/
theorem systemExecute_entered {img : Image} {command : CStr} {junk : Nat → UInt8} {prog : Program}
    (hcommand : CommandFits command)
    (hprog : findProgram img (parseCommand command).1 junk = some prog)
    (hlen : prog.bytes.length ≤ programRoom) (caller : Caller) {k : Kernel} {i : Int}
    (hslot : k.findSlot 6 0 = some i) :
    ∃ k', systemExecute img command junk caller k = .entered k' ∧ Created caller i k k' := by
  rw [systemExecute_of_fits hcommand]
  exact executeFile_entered hprog hlen caller hslot _

/-- Execute faults when the program does not fit: the slot is marked and mapped by then. -/
theorem systemExecute_faulted {img : Image} {command : CStr} {junk : Nat → UInt8} {prog : Program}
    (hcommand : CommandFits command)
    (hprog : findProgram img (parseCommand command).1 junk = some prog)
    (hlen : programRoom < prog.bytes.length) (caller : Caller) {k : Kernel} {i : Int}
    (hslot : k.findSlot 6 0 = some i) :
    ∃ mem, systemExecute img command junk caller k =
      .faulted { (k.markSlot i).mapSlot i with mem, argBuf := (parseCommand command).2 } := by
  obtain ⟨mem, hmem⟩ := loadBytes_eq 0 (prog.bytes.take programRoom)
    ((({ k with argBuf := (parseCommand command).2 } : Kernel).markSlot i).mapSlot i)
  have hslot' : ({ k with argBuf := (parseCommand command).2 } : Kernel).findSlot 6 0 = some i :=
    hslot
  refine ⟨mem, ?_⟩
  rw [systemExecute_of_fits hcommand]
  unfold executeFile
  rw [hprog]
  dsimp only
  rw [hslot']
  dsimp only
  rw [if_pos hlen, hmem]
  rfl

/-- **The outcomes of execute** for a command that fits: it returns and has stored the argument text,
it has created a process in the first slot it may take, or the program does not fit the page of that
slot. -/
theorem systemExecute_cases {command : CStr} (hcommand : CommandFits command) (img : Image)
    (junk : Nat → UInt8) (caller : Caller) (k : Kernel) :
    (∃ ret, systemExecute img command junk caller k =
      .returned ret { k with argBuf := (parseCommand command).2 }) ∨
    (∃ i k', systemExecute img command junk caller k = .entered k' ∧
      k.findSlot 6 0 = some i ∧ Created caller i k k') ∨
    (∃ prog i mem, findProgram img (parseCommand command).1 junk = some prog ∧
      programRoom < prog.bytes.length ∧ k.findSlot 6 0 = some i ∧
      systemExecute img command junk caller k =
        .faulted { (k.markSlot i).mapSlot i with mem, argBuf := (parseCommand command).2 }) := by
  have hsame : ({ k with argBuf := (parseCommand command).2 } : Kernel).findSlot 6 0 =
      k.findSlot 6 0 := rfl
  cases hprog : findProgram img (parseCommand command).1 junk with
  | none =>
    refine .inl ⟨-1, ?_⟩
    rw [systemExecute_of_fits hcommand]
    unfold executeFile
    rw [hprog]
  | some prog =>
    cases hslot : k.findSlot 6 0 with
    | none =>
      refine .inl ⟨0, ?_⟩
      rw [systemExecute_of_fits hcommand]
      unfold executeFile
      rw [hprog]
      dsimp only
      rw [hsame, hslot]
    | some i =>
      by_cases hlen : programRoom < prog.bytes.length
      · obtain ⟨mem, heq⟩ := systemExecute_faulted hcommand hprog hlen caller hslot
        exact .inr (.inr ⟨prog, i, mem, rfl, hlen, rfl, heq⟩)
      · obtain ⟨k', hk', hc⟩ := systemExecute_entered hcommand hprog (by omega) caller hslot
        exact .inr (.inl ⟨i, k', hk', rfl, hc⟩)

/-! ## What a halt can do -/

/-- What a release leaves behind: the slot is free and the parent takes over as current task. -/
theorem releaseSlot_pcb (status : UInt8) (k : Kernel) (p : Int) :
    ((k.releaseSlot status).pcb p).pid = (k.pcb p).pid ∧
      ((k.releaseSlot status).pcb p).parentPcb = (k.pcb p).parentPcb ∧
      ((k.releaseSlot status).pcb p).frame = (k.pcb p).frame ∧
      ((k.releaseSlot status).pcb p).pit = (k.pcb p).pit := by
  have hpcb : (k.releaseSlot status).pcb = Function.update k.pcb (k.pcb k.mainProcess).parentPcb
      { k.pcb (k.pcb k.mainProcess).parentPcb with statusRetval := status.toNat } := rfl
  rw [hpcb]
  rcases eq_or_ne p (k.pcb k.mainProcess).parentPcb with rfl | hne
  · rw [Function.update_self]
    exact ⟨rfl, rfl, rfl, rfl⟩
  · rw [Function.update_of_ne hne]
    exact ⟨rfl, rfl, rfl, rfl⟩

/-- The release, for a process whose PCB names its slot: `next` is the number in the parent's
PCB. -/
theorem releaseSlot_currTask {k : Kernel} (status : UInt8) {next : Int}
    (hpid : (k.pcb k.mainProcess).pid = k.mainProcess)
    (hnext : (k.pcb (k.pcb k.mainProcess).parentPcb).pid = next) (t : Int) :
    (k.releaseSlot status).currTask t =
      if 0 ≤ t ∧ t < 3 ∧ k.currTask t = k.mainProcess then next else k.currTask t := by
  have hcurr : (k.releaseSlot status).currTask t =
      if 0 ≤ t ∧ t < 3 ∧ k.currTask t = (k.pcb k.mainProcess).pid then
        ((k.releaseSlot status).pcb (k.pcb k.mainProcess).parentPcb).pid
      else k.currTask t := rfl
  rw [hcurr, (releaseSlot_pcb status k _).1, hpid, hnext]

/-- Returning from execute leaves the tables alone. -/
theorem returnFromExecute_tables (turns : Nat) (frame : Frame) (k : Kernel) :
    (returnFromExecute turns frame k).processNum = k.processNum ∧
      (returnFromExecute turns frame k).currTask = k.currTask := by
  induction turns generalizing frame k with
  | zero => exact ⟨rfl, rfl⟩
  | succ turns ih =>
    rw [returnFromExecute]
    split
    · exact ih _ _
    · exact ⟨rfl, rfl⟩

/-- The running process has halted and `next` runs. -/
structure Halted (next : Int) (k k' : Kernel) : Prop where
  processNum : k'.processNum = Function.update k.processNum k.mainProcess (-1)
  currTask : ∀ t, k'.currTask t =
    if 0 ≤ t ∧ t < 3 ∧ k.currTask t = k.mainProcess then next else k.currTask t
  activeTerminal : k'.activeTerminal = k.activeTerminal
  mainProcess : k'.mainProcess = next
  pcb : ∀ p, (k'.pcb p).pid = (k.pcb p).pid ∧ (k'.pcb p).parentPcb = (k.pcb p).parentPcb ∧
    (k'.pcb p).frame = (k.pcb p).frame ∧ (k'.pcb p).pit = (k.pcb p).pit
  tssEsp0 : k'.tssEsp0 = esp0 next
  paging : k'.paging = mapProgram next.toNat k.paging
  cpu : k'.cpu = ⟨(k.pcb k.mainProcess).frame.stack, (k.pcb k.mainProcess).frame.below⟩
  hung : k'.hung = k.hung
  beforeTerminals : k'.beforeTerminals = k.beforeTerminals

/-- **Halt in a shared slot**, of a process that the execute system call started: the number in
its parent's PCB becomes the running process. -/
theorem systemHalt_shared (img : Image) (status : UInt8) (junk : Nat → UInt8) {k : Kernel}
    {next : Int} (h3 : 3 ≤ k.mainProcess) (hpid : (k.pcb k.mainProcess).pid = k.mainProcess)
    (hnext : (k.pcb (k.pcb k.mainProcess).parentPcb).pid = next)
    (hframe : (k.pcb k.mainProcess).frame.caller = .syscall) :
    Halted next k (k.systemHalt img status junk) := by
  have hpcb := releaseSlot_pcb status k
  have hnext' : ((k.releaseSlot status).pcb (k.pcb k.mainProcess).parentPcb).pid = next :=
    (hpcb _).1.trans hnext
  have htail : k.systemHalt img status junk =
      { (k.releaseSlot status).remapParent (k.pcb k.mainProcess).parentPcb with
        cpu := ⟨(k.pcb k.mainProcess).frame.stack, (k.pcb k.mainProcess).frame.below⟩ } := by
    unfold systemHalt
    dsimp only
    rw [if_neg (by omega), haltTail]
    have hf : (((k.releaseSlot status).remapParent (k.pcb k.mainProcess).parentPcb).pcb
        k.mainProcess).frame = (k.pcb k.mainProcess).frame := (hpcb k.mainProcess).2.2.1
    rw [hf, returnFromExecute, hframe]
  rw [htail]
  exact
    { processNum := congrArg (fun p => Function.update k.processNum p (-1)) hpid
      currTask := releaseSlot_currTask status hpid hnext
      activeTerminal := rfl
      mainProcess := hnext'
      pcb := hpcb
      tssEsp0 := congrArg esp0 hnext'
      paging := congrArg (fun p : Int => mapProgram p.toNat k.paging) hnext'
      cpu := rfl
      hung := rfl
      beforeTerminals := rfl }

end Kernel

end SrirachOS
