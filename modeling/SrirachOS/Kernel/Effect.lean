import SrirachOS.Kernel.Schedule

/-!
# What an Event Can Do

Each event ends in one of a few ways, and in each of them all that it changes can be said at once:
`Effect` lists them for a kernel at work. A fact about runs is proved by cases on it, without
looking into the code again.

- `systemHalt_root`, `switchTerminal_cases`: the ways of halt and of the terminal switch; those of
  execute, of halt in a shared slot and of the scheduler stand with the code,
- `Effect`: the ways of an event. `step_effect`, next to the invariant, says that there are no
  others.
-/

namespace SrirachOS

open Foundation

namespace Kernel

/-! ## Entering the kernel -/

@[simp] theorem enterKernel_mainProcess (k : Kernel) :
    k.enterKernel.mainProcess = k.mainProcess := by
  unfold enterKernel; split <;> rfl

@[simp] theorem enterKernel_activeTerminal (k : Kernel) :
    k.enterKernel.activeTerminal = k.activeTerminal := by
  unfold enterKernel; split <;> rfl

@[simp] theorem enterKernel_processNum (k : Kernel) : k.enterKernel.processNum = k.processNum := by
  unfold enterKernel; split <;> rfl

@[simp] theorem enterKernel_currTask (k : Kernel) : k.enterKernel.currTask = k.currTask := by
  unfold enterKernel; split <;> rfl

@[simp] theorem enterKernel_pcb (k : Kernel) : k.enterKernel.pcb = k.pcb := by
  unfold enterKernel; split <;> rfl

@[simp] theorem enterKernel_paging (k : Kernel) : k.enterKernel.paging = k.paging := by
  unfold enterKernel; split <;> rfl

@[simp] theorem enterKernel_tssEsp0 (k : Kernel) : k.enterKernel.tssEsp0 = k.tssEsp0 := by
  unfold enterKernel; split <;> rfl

@[simp] theorem enterKernel_beforeTerminals (k : Kernel) :
    k.enterKernel.beforeTerminals = k.beforeTerminals := by
  unfold enterKernel; split <;> rfl

@[simp] theorem enterKernel_hung (k : Kernel) : k.enterKernel.hung = k.hung := by
  unfold enterKernel; split <;> rfl

@[simp] theorem enterKernel_argBuf (k : Kernel) : k.enterKernel.argBuf = k.argBuf := by
  unfold enterKernel; split <;> rfl

/-- What a step does while the kernel is not hung. -/
theorem step_of_not_hung {img : Image} {tab : TableAddr} {k : Kernel} (h : k.hung = false)
    (e : Event) : step img tab k e =
      match e with
      | .execute command junk =>
        settle img junk (Kernel.systemExecute img command junk .syscall k.enterKernel)
      | .halt status junk => k.enterKernel.systemHalt img status junk
      | .switchTerminal terminal junk =>
        k.enterKernel.switchTerminal img (terminal.val : Nat) junk
      | .tick => k.enterKernel.schedulerHandler
      | .vidmap => { k.enterKernel with paging := getVidmapPage tab k.enterKernel.paging } := by
  rw [step]
  refine (if_neg (by rw [h]; exact Bool.false_ne_true)).trans ?_
  cases e <;> rfl

theorem slotFree_enterKernel (k : Kernel) (i : Int) : k.enterKernel.slotFree i ↔ k.slotFree i := by
  simp [slotFree]

theorem findSlot_enterKernel (k : Kernel) (turns : Nat) (start : Int) :
    k.enterKernel.findSlot turns start = k.findSlot turns start := by
  induction turns generalizing start with
  | zero => rfl
  | succ turns ih => simp [findSlot, ih, slotFree_enterKernel]

/-! ## Commands and programs that fit -/

/-- The command of an execute event fits into the two arrays of the parser. -/
def Event.CommandFits : Event → Prop
  | .execute command _ => Kernel.CommandFits command
  | _ => True

instance : (e : Event) → Decidable e.CommandFits
  | .execute command _ => inferInstanceAs (Decidable (Kernel.CommandFits command))
  | .halt _ _ | .switchTerminal _ _ | .tick | .vidmap => isTrue trivial

theorem commandFits_shell : CommandFits shell := by decide

/-- The image has a shell that fits, whatever the stack buffers held. -/
def ShellStarts (img : Image) : Prop :=
  ∀ junk, ∃ prog, findProgram img (parseCommand shell).1 junk = some prog ∧
    prog.bytes.length ≤ programRoom

/-- The command of an execute event fits into the arrays, and the program that it names, if there is
one, behind the load address. -/
def Event.Fits (img : Image) : Event → Prop
  | .execute command junk => Kernel.CommandFits command ∧
      ∀ prog, findProgram img (parseCommand command).1 junk = some prog →
        prog.bytes.length ≤ programRoom
  | _ => True

theorem fits_shell {img : Image} (hshell : ShellStarts img) (junk : Nat → UInt8) :
    (Event.execute shell junk).Fits img := by
  refine ⟨commandFits_shell, fun prog hprog => ?_⟩
  obtain ⟨prog', hprog', hlen⟩ := hshell junk
  obtain rfl := Option.some.inj (hprog.symm.trans hprog')
  exact hlen

/-- The shell of an image is found by its directory entry. -/
theorem shellStarts_of_inode {img : Image} {i : Int}
    (hname : (readDentryByName img (some (parseCommand shell).1)).map (·.inodeNum) = some i)
    (hmagic : (readData img (u32 i) 0 4).buf = [0x7f, 0x45, 0x4c, 0x46])
    (hfits : (readData img (u32 i) 0 0x800000).buf.length ≤ programRoom) : ShellStarts img := by
  intro junk
  obtain ⟨test, htest, rfl⟩ := Option.map_eq_some_iff.mp hname
  obtain ⟨prog, hprog, hloaded⟩ := findProgram_of_magic htest hmagic junk
  exact ⟨prog, hprog, by rw [hloaded]; exact hfits⟩

theorem shellStarts_sampleImage : ShellStarts sampleImage :=
  shellStarts_of_inode (i := 3) (by decide +kernel) (by decide +kernel) (by decide +kernel)

/-- `execute` finds a program and a slot for it. -/
def Creates (img : Image) (command : CStr) (junk : Nat → UInt8) (k : Kernel) : Prop :=
  (findProgram img (parseCommand command).1 junk).isSome ∧ (k.findSlot 6 0).isSome

/-- Execute creates a process only from a program, in a slot. -/
theorem creates_of_entered {img : Image} {command : CStr} (hcommand : CommandFits command)
    {junk : Nat → UInt8} {caller : Caller} {k k' : Kernel}
    (h : systemExecute img command junk caller k = .entered k') : k.Creates img command junk := by
  rw [systemExecute_of_fits hcommand] at h
  unfold executeFile at h
  split at h
  · cases h
  · rename_i prog hprog
    split at h
    · cases h
    · rename_i i hslot
      exact ⟨by rw [hprog]; rfl, by
        rw [show k.findSlot 6 0 = some i from hslot]
        rfl⟩

/-- An execute that returns to its caller has not created one. -/
theorem not_creates_of_returned {img : Image} {command : CStr} {junk : Nat → UInt8} {k : Kernel}
    (hfits : (Event.execute command junk).Fits img) {caller : Caller} {ret : Int} {k' : Kernel}
    (h : systemExecute img command junk caller k = .returned ret k') :
    ¬ k.Creates img command junk := by
  rintro ⟨hprog, hslot⟩
  obtain ⟨prog, hprog⟩ := Option.isSome_iff_exists.mp hprog
  obtain ⟨i, hslot⟩ := Option.isSome_iff_exists.mp hslot
  obtain ⟨k₁, hk₁, -⟩ := systemExecute_entered hfits.1 hprog (hfits.2 prog hprog) caller hslot
  rw [h] at hk₁
  cases hk₁

/-! ## The exit of a root shell -/

/-- A root shell exits only while its terminal is displayed. -/
def RootExitsShown (k : Kernel) : Event → Prop
  | .halt _ _ => k.mainProcess < 3 → k.mainProcess = k.activeTerminal
  | _ => True

instance (k : Kernel) : (e : Event) → Decidable (RootExitsShown k e)
  | .halt _ _ => inferInstanceAs (Decidable (_ → _))
  | .execute _ _ | .switchTerminal _ _ | .tick | .vidmap => isTrue trivial

/-- Execute and halt are called while the terminal of the running process is displayed. -/
def RunnerShown (k : Kernel) : Event → Prop
  | .execute _ _ | .halt _ _ => k.processNum k.mainProcess = k.activeTerminal
  | _ => True

instance (k : Kernel) : (e : Event) → Decidable (RunnerShown k e)
  | .execute _ _ | .halt _ _ => inferInstanceAs (Decidable (_ = _))
  | .switchTerminal _ _ | .tick | .vidmap => isTrue trivial

/-- A displayed root shell has exited and a new one runs in its slot. -/
structure Restarted (k k' : Kernel) : Prop where
  processNum : k'.processNum = k.processNum
  currTask : k'.currTask = k.currTask
  activeTerminal : k'.activeTerminal = k.activeTerminal
  mainProcess : k'.mainProcess = k.mainProcess
  pid : ∀ p, (k'.pcb p).pid = (k.pcb p).pid
  parentPcb : ∀ p, (k'.pcb p).parentPcb = (k.pcb p).parentPcb
  pcb_of_ne : ∀ p, p ≠ k.mainProcess →
    (k'.pcb p).frame = (k.pcb p).frame ∧ (k'.pcb p).pit = (k.pcb p).pit
  tssEsp0 : k'.tssEsp0 = esp0 k.mainProcess
  paging : k'.paging = mapProgram k.mainProcess.toNat k.paging
  cpu : k'.cpu = ⟨k.mainProcess, .user⟩
  hung : k'.hung = k.hung
  beforeTerminals : k'.beforeTerminals = k.beforeTerminals

/-- The execute that a displayed root shell's halt calls takes the slot that was released. -/
theorem releaseSlot_root_entered {img : Image} (hshell : ShellStarts img) (status : UInt8)
    (junk : Nat → UInt8) {k : Kernel} (h0 : 0 ≤ k.mainProcess) (h3 : k.mainProcess < 3)
    (hshown : k.mainProcess = k.activeTerminal) (hpid : (k.pcb k.mainProcess).pid = k.mainProcess) :
    ∃ k', systemExecute img shell junk (.halt k.mainProcess (k.pcb k.mainProcess).parentPcb)
        (k.releaseSlot status) = .entered k' ∧
      k.systemHalt img status junk = k' ∧
      Created (.halt k.mainProcess (k.pcb k.mainProcess).parentPcb) k.mainProcess
        (k.releaseSlot status) k' := by
  have hnum : (k.releaseSlot status).processNum = Function.update k.processNum k.mainProcess (-1) :=
    congrArg (fun p => Function.update k.processNum p (-1)) hpid
  obtain ⟨prog, hprog, hlen⟩ := hshell junk
  -- the slot has just been released, and it is the first that the displayed terminal may take
  have hslot : (k.releaseSlot status).findSlot 6 0 = some k.activeTerminal :=
    findSlot_displayed (hshown ▸ h0) (hshown ▸ h3) (by
      rw [hnum, hshown]
      exact Function.update_self ..)
  obtain ⟨k', hk', hc⟩ := systemExecute_entered commandFits_shell hprog hlen
    (.halt k.mainProcess (k.pcb k.mainProcess).parentPcb) hslot
  rw [← hshown] at hc
  refine ⟨k', hk', ?_, hc⟩
  unfold systemHalt
  dsimp only
  rw [hpid, if_pos h3, hk']

/-- **Halt of a displayed root shell**: the new shell takes the slot that was released. -/
theorem systemHalt_root {img : Image} (hshell : ShellStarts img) (status : UInt8)
    (junk : Nat → UInt8) {k : Kernel} (h0 : 0 ≤ k.mainProcess) (h3 : k.mainProcess < 3)
    (hshown : k.mainProcess = k.activeTerminal) (hpid : (k.pcb k.mainProcess).pid = k.mainProcess)
    (hparent : (k.pcb k.mainProcess).parentPcb = k.mainProcess)
    (hself : k.processNum k.mainProcess = k.mainProcess)
    (hcurr : k.currTask k.mainProcess = k.mainProcess) :
    Restarted k (k.systemHalt img status junk) := by
  have hpcb := releaseSlot_pcb status k
  have hnum : (k.releaseSlot status).processNum = Function.update k.processNum k.mainProcess (-1) :=
    congrArg (fun p => Function.update k.processNum p (-1)) hpid
  obtain ⟨k', -, heq, hc⟩ := releaseSlot_root_entered hshell status junk h0 h3 hshown hpid
  -- a root shell is its own parent, so the release leaves its terminal the same task
  have htask : (k.releaseSlot status).currTask = k.currTask := funext fun t => by
    have hnext : (k.pcb (k.pcb k.mainProcess).parentPcb).pid = k.mainProcess := by
      rw [hparent, hpid]
    rw [releaseSlot_currTask status hpid hnext]
    split
    · rename_i hand
      exact hand.2.2.symm
    · rfl
  have hactive : (k.releaseSlot status).activeTerminal = k.activeTerminal := rfl
  rw [heq]
  exact
    { processNum := by
        rw [hc.processNum, hnum, hactive, ← hshown, Function.update_idem]
        exact Function.update_eq_self_iff.mpr hself.symm
      currTask := by
        rw [hc.currTask, htask, hactive, ← hshown]
        exact Function.update_eq_self_iff.mpr hcurr.symm
      activeTerminal := hc.activeTerminal
      mainProcess := hc.mainProcess
      pid := fun p => by
        rcases eq_or_ne p k.mainProcess with rfl | hne
        · rw [hc.pid, hpid]
        · rw [hc.pcb_of_ne p hne, (hpcb p).1]
      parentPcb := fun p => by
        rcases eq_or_ne p k.mainProcess with rfl | hne
        · rw [hc.parentPcb, parentPid, if_pos h3, hparent]
        · rw [hc.pcb_of_ne p hne, (hpcb p).2.1]
      pcb_of_ne := fun p hne => by
        rw [hc.pcb_of_ne p hne]
        exact (hpcb p).2.2
      tssEsp0 := hc.tssEsp0
      paging := hc.paging
      cpu := hc.cpu
      hung := hc.hung
      beforeTerminals := hc.beforeTerminals }

/-! ## The terminal switch -/

/-- The saved context is all that `saveMain` changes. -/
theorem saveMain_pcb (k : Kernel) (p : Int) :
    (k.saveMain.pcb p).pid = (k.pcb p).pid ∧ (k.saveMain.pcb p).parentPcb = (k.pcb p).parentPcb ∧
      (k.saveMain.pcb p).frame = (k.pcb p).frame := by
  rcases eq_or_ne p k.mainProcess with rfl | hp
  · rw [saveMain, modifyPcb_same]
    exact ⟨rfl, rfl, rfl⟩
  · rw [saveMain, modifyPcb_of_ne hp]
    exact ⟨rfl, rfl, rfl⟩

/-- What a terminal switch does: nothing, or it displays another terminal, or it also creates
that terminal's first shell in its own slot. -/
theorem switchTerminal_cases {img : Image} (hshell : ShellStarts img) {k : Kernel} {t : Int}
    (h0 : 0 ≤ t) (h3 : t < 3) (hfree : k.currTask t = -1 → k.processNum t = -1)
    (junk : Nat → UInt8) :
    (k.activeTerminal = t ∧ k.switchTerminal img t junk = k) ∨
    (k.activeTerminal ≠ t ∧ k.currTask t ≠ -1 ∧
      k.switchTerminal img t junk = { k with activeTerminal := t }) ∨
    (k.activeTerminal ≠ t ∧ k.currTask t = -1 ∧
      Created .switchTerminal t { k with activeTerminal := t }.saveMain
        (k.switchTerminal img t junk)) := by
  unfold Kernel.switchTerminal
  -- the source returns at once on the displayed terminal, and starts a shell where there is none
  by_cases hne : k.activeTerminal = t
  · exact .inl ⟨hne, if_pos hne⟩
  rw [if_neg hne]
  dsimp only
  by_cases hnone : k.currTask t = -1
  · obtain ⟨prog, hprog, hlen⟩ := hshell junk
    have hslot : ({ k with activeTerminal := t }.saveMain).findSlot 6 0 = some t :=
      findSlot_displayed h0 h3 (hfree hnone)
    obtain ⟨k', hk', hc⟩ :=
      systemExecute_entered commandFits_shell hprog hlen .switchTerminal hslot
    rw [if_pos hnone, hk']
    exact .inr (.inr ⟨hne, hnone, hc⟩)
  · rw [if_neg hnone]
    exact .inr (.inl ⟨hne, hnone, rfl⟩)

/-! ## The effects -/

/-- **What an event can do** to a kernel at work, once the processor has entered the kernel. -/
inductive Effect (img : Image) (tab : TableAddr) (k : Kernel) : Event → Kernel → Prop
  /-- execute returned to its caller -/
  | failed (command : CStr) (junk : Nat → UInt8) (hnot : ¬ k.Creates img command junk) :
    Effect img tab k (.execute command junk) { k with argBuf := (parseCommand command).2 }
  /-- execute started a process -/
  | started (command : CStr) (junk : Nat → UInt8) {i : Int} {k' : Kernel}
    (hcreates : k.Creates img command junk)
    (hslot : k.findSlot 6 0 = some i) (hc : Created .syscall i k k') :
    Effect img tab k (.execute command junk) k'
  /-- a process that execute had started halted, and its parent runs -/
  | halted (status : UInt8) (junk : Nat → UInt8) {k' : Kernel} (h3 : 3 ≤ k.mainProcess)
    (hh : Halted (k.pcb k.mainProcess).parentPcb k k') : Effect img tab k (.halt status junk) k'
  /-- a root shell halted, and a new one runs in its slot -/
  | restarted (status : UInt8) (junk : Nat → UInt8) {k' : Kernel} (hroot : k.mainProcess < 3)
    (hshown : k.mainProcess = k.activeTerminal) (hr : Restarted k k') :
    Effect img tab k (.halt status junk) k'
  /-- the terminal was displayed already -/
  | stayed (terminal : Fin 3) (junk : Nat → UInt8)
    (hsame : k.activeTerminal = (terminal.val : Nat)) :
    Effect img tab k (.switchTerminal terminal junk) k
  /-- another terminal is displayed, the running process goes on -/
  | displayed (terminal : Fin 3) (junk : Nat → UInt8)
    (hne : k.activeTerminal ≠ (terminal.val : Nat)) (htask : k.currTask (terminal.val : Nat) ≠ -1) :
    Effect img tab k (.switchTerminal terminal junk) { k with activeTerminal := (terminal.val : Nat) }
  /-- another terminal is displayed for the first time, and its shell runs -/
  | first (terminal : Fin 3) (junk : Nat → UInt8) {k' : Kernel}
    (hne : k.activeTerminal ≠ (terminal.val : Nat)) (hnone : k.currTask (terminal.val : Nat) = -1)
    (hfree : k.processNum (terminal.val : Nat) = -1)
    (hc : Created .switchTerminal (terminal.val : Nat)
      { k with activeTerminal := (terminal.val : Nat) }.saveMain k') :
    Effect img tab k (.switchTerminal terminal junk) k'
  /-- there was no other task -/
  | unswitched (hnext : k.checkTasks k.mainProcess = -1) : Effect img tab k .tick k
  /-- the running process gave way to the task of another terminal -/
  | resumed {t : Int} {k' : Kernel} (h0 : 0 ≤ t) (h3 : t < 3)
    (hnext : k.checkTasks k.mainProcess = k.currTask t) (hne : k.currTask t ≠ k.mainProcess)
    (hlive : k.currTask t ≠ -1) (hr : Resumed (k.currTask t) k k') : Effect img tab k .tick k'
  /-- the video page was mapped for user mode -/
  | vidmap : Effect img tab k .vidmap { k with paging := getVidmapPage tab k.paging }

end Kernel

end SrirachOS
