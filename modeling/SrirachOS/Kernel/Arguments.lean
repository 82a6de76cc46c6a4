import SrirachOS.Kernel.Effect

/-!
# Arguments

Execute keeps the argument text of a command in one buffer, `arg_buf`, which every call rewrites
before it looks at the file; `getargs` copies whatever is in it, and behind it if there is no terminator.

- `ExecCall`: a call of execute, with the slot of the process that it created, if it did. The calls
  of a run include those that the kernel makes itself: for the first shell of a terminal and for the
  shell that replaces a root shell,
- `argBuf_run`: the buffer holds the argument text of the last call, in every run whose commands fit,
- `getargs_own_iff`: so a process gets its own arguments exactly when the last call had the same.
-/

namespace SrirachOS

open Foundation

namespace Kernel

/-! ## The system call -/

/-- `system_getargs(buf, nbytes)`: what it stores at the caller's buffer, or `none` for -1. -/
def systemGetargs (bufNull : Bool) (nbytes : Int) (k : Kernel) : Option CStr :=
  if bufNull ∨ nbytes = 0 then none
  else if k.argText.length = 0 then none
  else some k.argText

/-- What `getargs` has to give a process with these arguments. -/
def argsReply (args : CStr) : Option CStr := if args = [] then none else some args

theorem systemGetargs_eq {nbytes : Int} (h : nbytes ≠ 0) (k : Kernel) :
    k.systemGetargs false nbytes = argsReply k.argText := by
  unfold systemGetargs argsReply
  rw [if_neg (by simp [h])]
  simp

theorem argsReply_inj {a b : CStr} : argsReply a = argsReply b ↔ a = b := by
  unfold argsReply
  split_ifs <;> simp_all

/-! ## The calls of a run -/

/-- A call of execute: the argument text of its command and the slot it created a process in. -/
structure ExecCall where
  args : CStr
  slot : Option Int
  deriving DecidableEq

/-- The state that execute leaves. -/
def ExecResult.kernel : ExecResult → Kernel
  | .returned _ k => k
  | .entered k => k
  | .faulted k => k
  | .overran k => k

/-- The slot of the process that execute has entered. -/
def ExecResult.slot : ExecResult → Option Int
  | .entered k => some k.mainProcess
  | _ => none

/-- A call of execute in state `k`. -/
def execCall (img : Image) (command : CStr) (junk : Nat → UInt8) (caller : Caller) (k : Kernel) :
    ExecCall :=
  ⟨(parseCommand command).2, (systemExecute img command junk caller k).slot⟩

/-- The call that halt makes for a root shell. -/
def haltCalls (img : Image) (status : UInt8) (junk : Nat → UInt8) (k : Kernel) : List ExecCall :=
  if (k.pcb k.mainProcess).pid < 3 then
    [execCall img shell junk (.halt k.mainProcess (k.pcb k.mainProcess).parentPcb)
      (k.releaseSlot status)]
  else []

/-- A call of execute with interrupts enabled, and that of the halt that handles its fault. -/
def settledCalls (img : Image) (command : CStr) (junk : Nat → UInt8) (caller : Caller)
    (k : Kernel) : List ExecCall :=
  execCall img command junk caller k ::
    match systemExecute img command junk caller k with
    | .faulted k => haltCalls img 255 junk k
    | _ => []

/-- The calls that an event makes. -/
def execCalls (img : Image) (k : Kernel) (e : Event) : List ExecCall :=
  if k.hung then []
  else
    let k := k.enterKernel
    match e with
    | .execute command junk => settledCalls img command junk .syscall k
    | .halt status junk => haltCalls img status junk k
    | .switchTerminal terminal junk =>
      if k.activeTerminal = (terminal.val : Nat) then []
      else
        let k := { k with activeTerminal := (terminal.val : Nat) }
        if k.currTask (terminal.val : Nat) = -1 then
          settledCalls img shell junk .switchTerminal k.saveMain
        else []
    | .tick => []
    | .vidmap => []

/-- The calls of a run, the oldest first. -/
def callsAlong (img : Image) (tab : TableAddr) : Kernel → List Event → List ExecCall
  | _, [] => []
  | k, e :: es => execCalls img k e ++ callsAlong img tab (step img tab k e) es

/-- The calls of a run from boot. -/
def callsFromBoot (img : Image) (tab : TableAddr) (junk : Nat → UInt8) (k : Kernel)
    (es : List Event) : List ExecCall :=
  settledCalls img shell junk .boot (k.init tab) ++ callsAlong img tab (boot img tab junk k) es

/-- The argument text of the last call. -/
def lastArgs (calls : List ExecCall) : Option CStr := calls.getLast?.map (·.args)

/-- The argument text of the command that created the process in slot `p`. -/
def ownArgs (p : Int) (calls : List ExecCall) : Option CStr :=
  (calls.reverse.find? (·.slot = some p)).map (·.args)

theorem lastArgs_append (calls more : List ExecCall) :
    lastArgs (calls ++ more) = (lastArgs more).or (lastArgs calls) := by
  unfold lastArgs
  rw [List.getLast?_append]
  cases more.getLast? <;> rfl

/-! ## The buffer -/

/-- Execute rewrites the buffer however it ends. -/
theorem systemExecute_argBuf {command : CStr} (hcommand : CommandFits command) (img : Image)
    (junk : Nat → UInt8) (caller : Caller) (k : Kernel) :
    (systemExecute img command junk caller k).kernel.argBuf = (parseCommand command).2 := by
  rw [systemExecute_of_fits hcommand]
  unfold executeFile
  generalize (parseCommand command).2 = args
  dsimp only
  split
  · rfl
  · rename_i prog _
    split
    · rfl
    · -- the copy changes memory only
      rename_i i _
      split
      · obtain ⟨mem, hmem⟩ := loadBytes_eq 0 (prog.bytes.take programRoom)
          ((({ k with argBuf := args } : Kernel).markSlot i).mapSlot i)
        rw [hmem]
        rfl
      · obtain ⟨mem, hmem⟩ := loadBytes_eq 0 prog.bytes
          ((({ k with argBuf := args } : Kernel).markSlot i).mapSlot i)
        rw [hmem]
        rfl

/-- Returning from execute leaves the buffer alone. -/
theorem returnFromExecute_argBuf (turns : Nat) (frame : Frame) (k : Kernel) :
    (returnFromExecute turns frame k).argBuf = k.argBuf := by
  induction turns generalizing frame k with
  | zero => rfl
  | succ turns ih =>
    rw [returnFromExecute]
    split
    · exact ih _ _
    · rfl

theorem haltTail_argBuf (curr parent : Int) (k : Kernel) :
    (k.haltTail curr parent).argBuf = k.argBuf :=
  returnFromExecute_argBuf 4 _ _

/-- **Halt** rewrites the buffer only through the call it makes. -/
theorem systemHalt_argBuf (img : Image) (status : UInt8) (junk : Nat → UInt8) (k : Kernel) :
    (k.systemHalt img status junk).argBuf =
      (lastArgs (haltCalls img status junk k)).getD k.argBuf := by
  have hcall := systemExecute_argBuf commandFits_shell img junk
    (.halt k.mainProcess (k.pcb k.mainProcess).parentPcb) (k.releaseSlot status)
  unfold systemHalt haltCalls
  dsimp only
  by_cases hroot : (k.pcb k.mainProcess).pid < 3
  · rw [if_pos hroot, if_pos hroot]
    change _ = (parseCommand shell).2
    generalize systemExecute img shell junk
      (.halt k.mainProcess (k.pcb k.mainProcess).parentPcb) (k.releaseSlot status) = result at hcall
    cases result with
    | entered k' => exact hcall
    | returned ret k' => exact (haltTail_argBuf _ _ k').trans hcall
    | faulted k' => exact hcall
    | overran k' => exact hcall
  · rw [if_neg hroot, if_neg hroot]
    exact haltTail_argBuf _ _ _

/-- An execute with interrupts enabled, together with the halt that handles its fault. -/
theorem settle_argBuf {command : CStr} (hcommand : CommandFits command) (img : Image)
    (junk : Nat → UInt8) (caller : Caller) (k : Kernel) :
    lastArgs (settledCalls img command junk caller k) =
      some (settle img junk (systemExecute img command junk caller k)).argBuf := by
  have hcall := systemExecute_argBuf hcommand img junk caller k
  unfold settledCalls execCall
  generalize systemExecute img command junk caller k = result at hcall
  cases result with
  | entered k' => exact congrArg some hcall.symm
  | returned ret k' => exact congrArg some hcall.symm
  | overran k' => exact congrArg some hcall.symm
  | faulted k' =>
    have hhalt := systemHalt_argBuf img 255 junk k'
    change _ = some (k'.systemHalt img 255 junk).argBuf
    rw [hhalt]
    change lastArgs ([_] ++ haltCalls img 255 junk k') = _
    rw [lastArgs_append]
    cases lastArgs (haltCalls img 255 junk k') with
    | some args => rfl
    | none => exact congrArg some hcall.symm

/-- **One event** rewrites the buffer only through the calls it makes. -/
theorem step_argBuf (img : Image) (tab : TableAddr) (k : Kernel) {e : Event}
    (hcommand : e.CommandFits) : (step img tab k e).argBuf = (lastArgs (execCalls img k e)).getD k.argBuf := by
  unfold step execCalls
  by_cases hhung : k.hung = true
  · rw [if_pos hhung, if_pos hhung]
    rfl
  rw [if_neg hhung, if_neg hhung, ← enterKernel_argBuf k]
  cases e with
  | execute command junk =>
    dsimp only
    rw [settle_argBuf hcommand]
    rfl
  | halt status junk => exact systemHalt_argBuf img status junk k.enterKernel
  | switchTerminal terminal junk =>
    dsimp only
    unfold switchTerminal
    split
    · rfl
    · dsimp only
      split
      · rw [settle_argBuf commandFits_shell]
        rfl
      · rfl
  | tick =>
    dsimp only
    rcases schedulerHandler_cases k.enterKernel with ⟨-, heq⟩ | ⟨t, -, -, -, -, -, heq⟩ <;> rw [heq]
    · rfl
    · rfl
  | vidmap => rfl

/-- **The buffer over a run** holds the argument text of the last call. -/
theorem argBuf_run (img : Image) (tab : TableAddr) (k : Kernel) {es : List Event}
    (hcommands : ∀ e ∈ es, e.CommandFits) :
    (run (step img tab) k es).argBuf = (lastArgs (callsAlong img tab k es)).getD k.argBuf := by
  induction es generalizing k with
  | nil => rfl
  | cons e es ih =>
    rw [run_cons, ih _ fun f hf => hcommands f (List.mem_cons_of_mem e hf),
      step_argBuf img tab k (hcommands e List.mem_cons_self), callsAlong, lastArgs_append]
    cases lastArgs (callsAlong img tab (step img tab k e) es) <;> rfl

theorem argBuf_fromBoot (img : Image) (tab : TableAddr) (junk : Nat → UInt8) (k : Kernel)
    {es : List Event} (hcommands : ∀ e ∈ es, e.CommandFits) :
    lastArgs (callsFromBoot img tab junk k es) =
      some (run (step img tab) (boot img tab junk k) es).argBuf := by
  rw [argBuf_run img tab _ hcommands, callsFromBoot, lastArgs_append, settle_argBuf commandFits_shell]
  cases lastArgs (callsAlong img tab (boot img tab junk k) es) <;> rfl

/-! ## The terminator -/

/-- The argument text of a call fits. -/
def ExecCall.Short (call : ExecCall) : Prop := call.args.length < 128

theorem haltCalls_short (img : Image) (status : UInt8) (junk : Nat → UInt8) (k : Kernel) :
    ∀ call ∈ haltCalls img status junk k, call.Short := by
  intro call hcall
  unfold haltCalls at hcall
  split at hcall
  · rw [List.mem_singleton.mp hcall]
    exact commandFits_shell.2
  · cases hcall

theorem settledCalls_short {command : CStr} (hcommand : CommandFits command) (img : Image)
    (junk : Nat → UInt8) (caller : Caller) (k : Kernel) :
    ∀ call ∈ settledCalls img command junk caller k, call.Short := by
  intro call hcall
  rcases List.mem_cons.mp hcall with rfl | hcall
  · exact hcommand.2
  · split at hcall
    · exact haltCalls_short _ _ _ _ call hcall
    · cases hcall

theorem execCalls_short (img : Image) (k : Kernel) {e : Event} (hcommand : e.CommandFits) :
    ∀ call ∈ execCalls img k e, call.Short := by
  intro call hcall
  unfold execCalls at hcall
  split at hcall
  · cases hcall
  · cases e with
    | execute command junk => exact settledCalls_short hcommand _ _ _ _ call hcall
    | halt status junk => exact haltCalls_short _ _ _ _ call hcall
    | switchTerminal terminal junk =>
      dsimp only at hcall
      split at hcall
      · cases hcall
      · split at hcall
        · exact settledCalls_short commandFits_shell _ _ _ _ call hcall
        · cases hcall
    | tick => cases hcall
    | vidmap => cases hcall

theorem callsAlong_short (img : Image) (tab : TableAddr) (k : Kernel) {es : List Event}
    (hcommands : ∀ e ∈ es, e.CommandFits) : ∀ call ∈ callsAlong img tab k es, call.Short := by
  induction es generalizing k with
  | nil => nofun
  | cons e es ih =>
    intro call hcall
    rcases List.mem_append.mp hcall with hcall | hcall
    · exact execCalls_short img k (hcommands e List.mem_cons_self) call hcall
    · exact ih _ (fun f hf => hcommands f (List.mem_cons_of_mem e hf)) call hcall

/-- **The buffer keeps its terminator.** -/
theorem argBuf_length_fromBoot (img : Image) (tab : TableAddr) (junk : Nat → UInt8) (k : Kernel)
    {es : List Event} (hcommands : ∀ e ∈ es, e.CommandFits) :
    (run (step img tab) (boot img tab junk k) es).argBuf.length < 128 := by
  obtain ⟨call, hcall, hargs⟩ :=
    Option.map_eq_some_iff.mp (argBuf_fromBoot img tab junk k hcommands)
  have hshort : call.Short := by
    rcases List.mem_append.mp (List.mem_of_getLast? hcall) with hcall | hcall
    · exact settledCalls_short commandFits_shell _ _ _ _ call hcall
    · exact callsAlong_short img tab _ hcommands call hcall
  rw [← hargs]
  exact hshort

/-- So `getargs` reads what the last call has stored. -/
theorem argText_fromBoot (img : Image) (tab : TableAddr) (junk : Nat → UInt8) (k : Kernel)
    {es : List Event} (hcommands : ∀ e ∈ es, e.CommandFits) :
    lastArgs (callsFromBoot img tab junk k es) =
      some (run (step img tab) (boot img tab junk k) es).argText := by
  rw [argBuf_fromBoot img tab junk k hcommands,
    argText_of_lt (argBuf_length_fromBoot img tab junk k hcommands)]

/-! ## Whose arguments -/

/-- **A process's own arguments**: after any run whose commands fit into the arrays of the parser,
`getargs` gives the running process the argument text of the command that created it exactly when the
last call of execute, whoever made it and whether it succeeded or not, had that argument text too. -/
theorem getargs_own_iff (img : Image) (tab : TableAddr) (junk : Nat → UInt8) (k : Kernel)
    (es : List Event) (hcommands : ∀ e ∈ es, e.CommandFits) (nbytes : Int) (hbytes : nbytes ≠ 0)
    {args : CStr} :
    let s := run (step img tab) (boot img tab junk k) es
    let calls := callsFromBoot img tab junk k es
    ownArgs s.mainProcess calls = some args →
      (s.systemGetargs false nbytes = argsReply args ↔ lastArgs calls = some args) := by
  intro s calls _
  rw [systemGetargs_eq hbytes, argsReply_inj, argText_fromBoot img tab junk k hcommands]
  exact ⟨congrArg some, Option.some.inj⟩

/-- `shell x` -/
def shellX : CStr := shell ++ [32, 120]

theorem getargs_own_sample :
    (run (step sampleImage sampleTable) (boot sampleImage sampleTable noJunk
      (sampleKernel fun _ => 0)) [.execute shellX noJunk, .tick]).systemGetargs false 128 =
      argsReply [120] :=
  (getargs_own_iff sampleImage sampleTable noJunk (sampleKernel fun _ => 0)
    [.execute shellX noJunk, .tick] (by decide) 128 (by decide) (by decide +kernel)).mpr
    (by decide +kernel)

/-- A process that was executed with an argument asks for it after another terminal has been
started. -/
theorem getargs_not_own :
    let es := [Event.execute shellX noJunk, .switchTerminal 1 noJunk, .tick]
    let s := run (step sampleImage sampleTable) (boot sampleImage sampleTable noJunk
      (sampleKernel fun _ => 0)) es
    ownArgs s.mainProcess (callsFromBoot sampleImage sampleTable noJunk
      (sampleKernel fun _ => 0) es) = some [120] ∧ s.systemGetargs false 128 = none :=
  ⟨by decide +kernel, by decide +kernel⟩

end Kernel

end SrirachOS
