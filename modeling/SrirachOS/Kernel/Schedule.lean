import SrirachOS.Kernel.Process

/-!
# The Scheduler and the Kernel's Events

`switch_terminal` and `check_tasks` (`syscall.c`), `scheduler_handler` (`scheduler.c`), and the
events of a run: each is one atomic step of the kernel (`Kernel.step`), started by the process
that is running (`boot` starts the first one).
-/

namespace SrirachOS

open Foundation

namespace Kernel

/-! ## The scheduler -/

/-- The loop of `check_tasks`, with the number of turns left, the counter `i` and `num`. -/
def checkTasksLoop (k : Kernel) : Nat → Int → Int → Int
  | 0, _, _ => -1
  | turns + 1, i, num =>
    let task := k.currTask ((num + i) % 3)
    if task ≠ k.mainProcess ∧ task ≠ -1 then task else checkTasksLoop k turns (i + 1) (num + 1)

/-- `check_tasks(num)`. -/
def checkTasks (k : Kernel) (num : Int) : Int := k.checkTasksLoop 3 1 (k.processNum num)

/-- What `get_vid_mem` reads of the state. -/
def vidEnv (k : Kernel) : VidEnv where
  processNum := k.processNum
  mainProcess := k.mainProcess
  activeTerminal := k.activeTerminal
  beforeTerminals := k.beforeTerminals

/-- The part of `scheduler_handler` behind `switch_task`: the running process gives way to
`next`. -/
def switchTo (next : Int) (k : Kernel) : Kernel :=
  let saved := k.mainProcess
  let pid := (k.pcb next).pid
  let cpu := k.cpu
  let k := { k with mainProcess := pid }
  let k := k.modifyPcb saved fun pcb => { pcb with pit := cpu }
  let k := k.mapSlot (k.pcb next).pid
  let k := { k with paging := mapVid (getVidMem k.vidEnv) k.paging }
  { k with tssEsp0 := esp0 (k.pcb next).pid, cpu := (k.pcb next).pit }

/-- `scheduler_handler()`. -/
def schedulerHandler (k : Kernel) : Kernel :=
  let next := k.checkTasks k.mainProcess
  if next = -1 then k else k.switchTo next

/-! ## Terminal switch -/

/-- The start of the first shell of the displayed terminal: the context of the running process
is saved, then execute is called. -/
def saveMain (k : Kernel) : Kernel :=
  k.modifyPcb k.mainProcess fun pcb => { pcb with pit := k.cpu }

/-- `switch_terminal(terminal)`, less the screen. -/
def switchTerminal (img : Image) (terminal : Int) (junk : Nat → UInt8) (k : Kernel) : Kernel :=
  if k.activeTerminal = terminal then k
  else
    let k := { k with activeTerminal := terminal }
    if k.currTask terminal = -1 then
      settle img junk (systemExecute img shell junk .switchTerminal k.saveMain)
    else k

/-! ## Events -/

/-- An event of a run. `junk` is what uninitialised stack buffers hold. -/
inductive Event where
  /-- the running process calls execute -/
  | execute (command : CStr) (junk : Nat → UInt8)
  /-- the running process calls halt -/
  | halt (status : UInt8) (junk : Nat → UInt8)
  /-- Alt and a function key -/
  | switchTerminal (terminal : Fin 3) (junk : Nat → UInt8)
  /-- a timer interrupt -/
  | tick
  /-- the running process calls vidmap with a pointer that is accepted -/
  | vidmap

/-- One event, taken as a whole. -/
def step (img : Image) (tab : TableAddr) (k : Kernel) (e : Event) : Kernel :=
  if k.hung then k
  else
    let k := k.enterKernel
    match e with
    | .execute command junk => settle img junk (systemExecute img command junk .syscall k)
    | .halt status junk => k.systemHalt img status junk
    | .switchTerminal terminal junk => k.switchTerminal img (terminal.val : Nat) junk
    | .tick => k.schedulerHandler
    | .vidmap => { k with paging := getVidmapPage tab k.paging }

/-- The kernel when the first shell has been started. -/
def boot (img : Image) (tab : TableAddr) (junk : Nat → UInt8) (k : Kernel) : Kernel :=
  settle img junk (systemExecute img shell junk .boot (k.init tab))

/-! ## What the scheduler can do -/

theorem checkTasksLoop_cases (k : Kernel) (turns : Nat) (i num : Int) :
    k.checkTasksLoop turns i num = -1 ∨
      ∃ t, 0 ≤ t ∧ t < 3 ∧ k.checkTasksLoop turns i num = k.currTask t ∧
        k.currTask t ≠ k.mainProcess ∧ k.currTask t ≠ -1 := by
  induction turns generalizing i num with
  | zero => exact .inl rfl
  | succ turns ih =>
    rw [checkTasksLoop]
    by_cases htask : k.currTask ((num + i) % 3) ≠ k.mainProcess ∧ k.currTask ((num + i) % 3) ≠ -1
    · rw [if_pos htask]
      exact .inr ⟨(num + i) % 3, by omega, by omega, rfl, htask⟩
    · rw [if_neg htask]
      exact ih (i + 1) (num + 1)

/-- The running process has given way to `next`. -/
structure Resumed (next : Int) (k k' : Kernel) : Prop where
  processNum : k'.processNum = k.processNum
  currTask : k'.currTask = k.currTask
  activeTerminal : k'.activeTerminal = k.activeTerminal
  mainProcess : k'.mainProcess = next
  pcb_of_ne : ∀ p, p ≠ k.mainProcess → k'.pcb p = k.pcb p
  pcb_saved : k'.pcb k.mainProcess = { k.pcb k.mainProcess with pit := k.cpu }
  tssEsp0 : k'.tssEsp0 = esp0 next
  paging : k'.paging = mapVid (getVidMem ⟨k.processNum, next, k.activeTerminal, k.beforeTerminals⟩)
    (mapProgram next.toNat k.paging)
  cpu : k'.cpu = (k.pcb next).pit
  mem : k'.mem = k.mem
  hung : k'.hung = k.hung
  beforeTerminals : k'.beforeTerminals = k.beforeTerminals

/-- **A context switch** to a process whose PCB names its slot. -/
theorem switchTo_resumed {k : Kernel} {next : Int} (hne : next ≠ k.mainProcess)
    (hpid : (k.pcb next).pid = next) : Resumed next k (k.switchTo next) := by
  have hpcb : (k.switchTo next).pcb =
      Function.update k.pcb k.mainProcess { k.pcb k.mainProcess with pit := k.cpu } := rfl
  have hnext : Function.update k.pcb k.mainProcess { k.pcb k.mainProcess with pit := k.cpu } next =
      k.pcb next := Function.update_of_ne hne ..
  exact
    { processNum := rfl
      currTask := rfl
      activeTerminal := rfl
      mainProcess := hpid
      pcb_of_ne := fun p hp => by rw [hpcb, Function.update_of_ne hp]
      pcb_saved := by rw [hpcb, Function.update_self]
      tssEsp0 := by
        have htss : (k.switchTo next).tssEsp0 = esp0 ((k.switchTo next).pcb next).pid := rfl
        rw [htss, hpcb, hnext, hpid]
      paging := by
        have hpaging : (k.switchTo next).paging =
            mapVid (getVidMem ⟨k.processNum, (k.pcb next).pid, k.activeTerminal, k.beforeTerminals⟩)
              (mapProgram ((k.switchTo next).pcb next).pid.toNat k.paging) := rfl
        rw [hpaging, hpcb, hnext, hpid]
      cpu := by
        have hcpu : (k.switchTo next).cpu = ((k.switchTo next).pcb next).pit := rfl
        rw [hcpu, hpcb, hnext]
      mem := rfl
      hung := rfl
      beforeTerminals := rfl }

/-- **A timer interrupt** leaves everything alone or switches to the current task of another
terminal. -/
theorem schedulerHandler_cases (k : Kernel) :
    (k.checkTasks k.mainProcess = -1 ∧ k.schedulerHandler = k) ∨
      ∃ t, 0 ≤ t ∧ t < 3 ∧ k.checkTasks k.mainProcess = k.currTask t ∧
        k.currTask t ≠ k.mainProcess ∧ k.currTask t ≠ -1 ∧
        k.schedulerHandler = k.switchTo (k.currTask t) := by
  unfold schedulerHandler
  dsimp only
  rcases checkTasksLoop_cases k 3 1 (k.processNum k.mainProcess) with
    hnone | ⟨t, h0, h3, hnext, hne, hlive⟩
  · rw [checkTasks, if_pos hnone]
    exact .inl ⟨hnone, rfl⟩
  · right
    refine ⟨t, h0, h3, hnext, hne, hlive, ?_⟩
    rw [checkTasks, hnext, if_neg hlive]

end Kernel

end SrirachOS
