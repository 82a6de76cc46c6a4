import SrirachOS.Kernel.Phases

/-!
# What an Event Can Do to Executes at the Same Time

An event of a calm run goes on with an execute, ends it with a new process, halts a process, or
suspends one.

- `halted`, `restarted`, `resumed`, `displayed`, `began`: halts and interrupts keep `Concurrent`,
- `Turn`: the list of what an event can do, and `Concurrent.turn`: every event of a calm run is on it.
-/

namespace SrirachOS

open Foundation

/-- What an event does to the processes. -/
inductive Deed where
  /-- the owner of slot `i` has been stored -/
  | stored (i : Int)
  /-- a new process has been entered in slot `i` -/
  | entered (i : Int)
  /-- the running process exits -/
  | exited (status : UInt8) (junk : Nat → UInt8)
  /-- the running process is suspended and `next` is resumed -/
  | resumed (next : Int)
  /-- the running process is suspended for the first shell of a terminal -/
  | suspended
  /-- the running process goes on, or an execute -/
  | other

/-- What a step of execute does. -/
def Phase.deed : Phase → Deed
  | .mark _ i => .stored i
  | .enter _ i => .entered i
  | .parse _ _ | .search _ _ | .test _ _ | .map _ _ | .load _ _ _ => .other

namespace Kernel

section Turn

variable {owner : Int → Int} {k k' : Kernel}

/-! ## Halt -/

/-- Whatever is going on has not marked a slot while the processor is in user mode. -/
theorem marked_other (huser : k.cpu.kont = .user) {p : Int} (hp : k.Marked p) :
    ∃ t, 0 ≤ t ∧ t < 3 ∧ k.currTask t ≠ -1 ∧ k.currTask t ≠ k.mainProcess ∧
      (k.taskKont (k.currTask t)).marked = some p := by
  rcases hp with ⟨t, h0, h3, hlive, ht⟩ | ⟨hs, -⟩
  · refine ⟨t, h0, h3, hlive, fun heq => ?_, ht⟩
    rw [heq, taskKont_main, huser] at ht
    cases ht
  · rw [huser] at hs
    cases hs

/-- A child halts: its parent takes over, in user mode. -/
theorem Concurrent.halted (h : k.Concurrent owner) (huser : k.cpu.kont = .user)
    (h3 : 3 ≤ k.mainProcess) (img : Image) (status : UInt8) (junk : Nat → UInt8) :
    Halted (k.pcb k.mainProcess).parentPcb k (k.systemHalt img status junk) ∧
      (k.systemHalt img status junk).Concurrent (Function.update owner k.mainProcess (-1)) := by
  obtain ⟨hm0, hm6, hown0, hown3, hcurr, hnum⟩ := h.main_live
  obtain ⟨hq0, hqm, hqown⟩ := h.parent_live h3
  have hpid := h.pid hm0 hm6 (by omega)
  have hnext := h.pid hq0 (by omega) (by omega)
  have hlive : owner k.mainProcess ≠ -1 := by omega
  have hh := systemHalt_shared img status junk h3 hpid hnext (h.inv.1.frame _ h3 hm6 hlive)
  refine ⟨hh, ?_⟩
  generalize hq : (k.pcb k.mainProcess).parentPcb = q at *
  generalize k.systemHalt img status junk = k' at hh
  have hinv : (k'.owned (Function.update owner k.mainProcess (-1))).Inv := by
    refine h.inv.halted h3 ?_
    change Halted (k.pcb k.mainProcess).parentPcb _ _
    rw [hq]
    exact { hh with processNum := rfl }
  have howner : ∀ p, Function.update owner k.mainProcess (-1) p =
      if p = k.mainProcess then -1 else owner p := fun p => Function.update_apply ..
  have hnum' : ∀ p, k'.processNum p = if p = k.mainProcess then -1 else k.processNum p :=
    fun p => by rw [hh.processNum, Function.update_apply]
  have hkont' : k'.cpu.kont = .user := by
    rw [hh.cpu]
    exact h.frame _ h3 hm6 (by omega)
  -- the task of another terminal is neither the process that halts nor its parent
  have hne : ∀ t, 0 ≤ t → t < 3 → k.currTask t ≠ k.mainProcess → k.currTask t ≠ -1 →
      k'.currTask t = k.currTask t ∧ k.currTask t ≠ q ∧
        k'.taskKont (k.currTask t) = k.taskKont (k.currTask t) := fun t h0 ht hmain hlive => by
    have hown := (h.curr_live h0 ht hlive).2.2
    have hqne : k.currTask t ≠ q := fun heq => by
      rw [heq, hqown] at hown
      rw [← hown, hcurr] at hmain
      exact hmain rfl
    refine ⟨?_, hqne, ?_⟩
    · rw [hh.currTask, if_neg fun hand => hmain hand.2.2]
    · rw [taskKont_of_ne hmain, taskKont_of_ne (by rw [hh.mainProcess]; exact hqne),
        (hh.pcb _).2.2.2]
  have htask : ∀ t, 0 ≤ t → t < 3 → k'.currTask t ≠ -1 →
      (k'.taskKont (k'.currTask t) = .user) ∨ (k.currTask t ≠ k.mainProcess ∧ k.currTask t ≠ -1) :=
    fun t h0 ht hlive => by
      by_cases hmain : k.currTask t = k.mainProcess
      · left
        rw [hh.currTask, if_pos ⟨h0, ht, hmain⟩, ← hh.mainProcess, taskKont_main, hkont']
        rfl
      · rw [hh.currTask, if_neg fun hand => hmain hand.2.2] at hlive
        exact .inr ⟨hmain, hlive⟩
  exact
    { inv := hinv
      own := fun p hp => by
        rw [howner] at hp ⊢
        rw [hnum']
        split
        · rfl
        · next hpm =>
          rw [if_neg hpm] at hp
          exact h.own p hp
      mark := fun p hp hpnum => by
        rw [howner] at hp
        rw [hnum'] at hpnum
        split at hpnum
        · exact absurd rfl hpnum
        · next hpm =>
          rw [if_neg hpm] at hp
          obtain ⟨t, h0, ht, hlive, hmain, hm⟩ := marked_other huser (h.mark p hp hpnum)
          obtain ⟨heq, -, hkont⟩ := hne t h0 ht hmain hlive
          refine .inl ⟨t, h0, ht, ?_⟩
          rw [heq, hkont]
          exact ⟨hlive, hm⟩
      task := fun t h0 ht hlive => by
        rcases htask t h0 ht hlive with heq | ⟨hmain, hlive'⟩
        · rw [heq]
          trivial
        · obtain ⟨heq, -, hkont⟩ := hne t h0 ht hmain hlive'
          rw [heq, hkont]
          exact h.task t h0 ht hlive'
      marked := fun t h0 ht hlive j hj => by
        rcases htask t h0 ht hlive with heq | ⟨hmain, hlive'⟩
        · rw [heq] at hj
          cases hj
        · obtain ⟨heq, -, hkont⟩ := hne t h0 ht hmain hlive'
          rw [heq, hkont] at hj
          obtain ⟨hj3, hj6, hjfree, hjnum⟩ := h.marked t h0 ht hlive' j hj
          have hjm : j ≠ k.mainProcess := fun heq => by
            rw [heq] at hjfree
            omega
          rw [howner, if_neg hjm, hnum', if_neg hjm]
          exact ⟨hj3, hj6, hjfree, hjnum⟩
      starts := fun phase below hk => by
        rw [hkont'] at hk
        cases hk
      frame := fun p hp3 hp6 hp => by
        rw [howner] at hp
        rw [(hh.pcb p).2.2.1]
        split at hp
        · exact absurd rfl hp
        · exact h.frame p hp3 hp6 hp }

/-- A displayed root shell halts, and another one runs in its slot. -/
theorem Concurrent.restarted (h : k.Concurrent owner) (huser : k.cpu.kont = .user) {img : Image}
    (hshell : ShellStarts img) (hroot : k.mainProcess < 3) (hshown : k.mainProcess = k.activeTerminal)
    (status : UInt8) (junk : Nat → UInt8) :
    Restarted k (k.systemHalt img status junk) ∧ (k.systemHalt img status junk).Concurrent owner := by
  obtain ⟨hm0, -, -, -, -, hnum⟩ := h.main_live
  obtain ⟨hpid, hparent, hself, hcurr, -, -⟩ := h.inv.releaseSlot_root hroot status
  have hr := systemHalt_root hshell status junk hm0 hroot hshown hpid hparent (hnum.trans hself) hcurr
  refine ⟨hr, ?_⟩
  -- from here on only what `systemHalt_root` says of the new state is used
  generalize k.systemHalt img status junk = k' at hr
  refine h.kept (h.inv.restarted hroot ?_) hr.processNum hr.currTask ?_ ?_ ?_ ?_
  · exact { hr with processNum := rfl }
  · intro t h0 h3 hlive
    -- the task of the displayed terminal is the new shell, the others are untouched
    rcases eq_or_ne (k.currTask t) k.mainProcess with heq | hne
    · rw [heq, taskKont_main, ← hr.mainProcess, taskKont_main, hr.cpu, huser]
      exact ⟨trivial, rfl⟩
    · rw [taskKont_of_ne hne, taskKont_of_ne (by rw [hr.mainProcess]; exact hne),
        (hr.pcb_of_ne _ hne).2, ← taskKont_of_ne hne]
      exact ⟨h.task t h0 h3 hlive, rfl⟩
  · intro p hs
    rw [huser] at hs
    cases hs
  · intro phase below hk
    rw [hr.cpu] at hk
    cases hk
  · intro p h3
    exact (hr.pcb_of_ne p (by omega)).1

/-! ## Interrupts -/

/-- A timer interrupt suspends the running process and resumes the task of another terminal. -/
theorem Concurrent.resumed (h : k.Concurrent owner) (hstart : k.cpu.kont.starting = false) {t : Int}
    (h0 : 0 ≤ t) (h3 : t < 3) (hne : k.currTask t ≠ k.mainProcess) (hlive : k.currTask t ≠ -1) :
    Resumed (k.currTask t) k (k.switchTo (k.currTask t)) ∧
      (k.switchTo (k.currTask t)).Concurrent owner := by
  obtain ⟨hc0, hc6, hown⟩ := h.curr_live h0 h3 hlive
  have hr := switchTo_resumed hne (h.pid hc0 hc6 (by omega))
  refine ⟨hr, ?_⟩
  have hnext : (k.taskKont (k.currTask t)).InCall := h.task t h0 h3 hlive
  have hcpu : (k.switchTo (k.currTask t)).cpu.kont = k.taskKont (k.currTask t) := by
    rw [hr.cpu, taskKont_of_ne hne]
  have hpcb : ∀ p, ((k.switchTo (k.currTask t)).pcb p).pid = (k.pcb p).pid ∧
      ((k.switchTo (k.currTask t)).pcb p).parentPcb = (k.pcb p).parentPcb ∧
      ((k.switchTo (k.currTask t)).pcb p).frame = (k.pcb p).frame := fun p => by
    rcases eq_or_ne p k.mainProcess with rfl | hp
    · rw [hr.pcb_saved]
      exact ⟨rfl, rfl, rfl⟩
    · rw [hr.pcb_of_ne p hp]
      exact ⟨rfl, rfl, rfl⟩
  generalize k.switchTo (k.currTask t) = k' at hr hcpu hpcb
  -- every process goes on with what it would have gone on with
  have hsame : ∀ p, k'.taskKont p = k.taskKont p := fun p => by
    rcases eq_or_ne p (k.currTask t) with rfl | hpt
    · rw [← hr.mainProcess, taskKont_main, hcpu, hr.mainProcess, hnext.own]
    · rw [taskKont_of_ne (by rw [hr.mainProcess]; exact hpt)]
      rcases eq_or_ne p k.mainProcess with rfl | hpm
      · rw [hr.pcb_saved, taskKont_main, Kont.own_of_not_starting hstart]
      · rw [hr.pcb_of_ne p hpm, taskKont_of_ne hpm]
  refine h.kept ⟨h.inv.1.congr rfl hr.currTask ?_ ?_ hr.hung, t, h0, h3, ?_, ?_⟩ hr.processNum
    hr.currTask ?_ ?_ ?_ ?_
  · change 0 ≤ k'.activeTerminal ∧ k'.activeTerminal < 3
    rw [hr.activeTerminal]
    exact h.active
  · exact fun p => ⟨(hpcb p).1, (hpcb p).2.1, fun _ => (hpcb p).2.2⟩
  · change k'.currTask t = k'.mainProcess
    rw [hr.currTask, hr.mainProcess]
  · change k'.mainProcess ≠ -1
    rw [hr.mainProcess]
    exact hlive
  · intro u hu0 hu3 hulive
    rw [hsame]
    exact ⟨h.task u hu0 hu3 hulive, rfl⟩
  · intro p hs
    rw [hstart] at hs
    cases hs
  · intro phase below hk
    have hnot := hnext.starting
    rw [← hcpu, hk] at hnot
    cases hnot
  · exact fun p _ => (hpcb p).2.2

/-- Another terminal is displayed. -/
theorem Concurrent.displayed (h : k.Concurrent owner) (hstart : k.cpu.kont.starting = false)
    {t : Int} (h0 : 0 ≤ t) (h3 : t < 3) :
    ({ k with activeTerminal := t } : Kernel).Concurrent owner := by
  refine h.kept (h.inv.congr (h.inv.1.congr rfl rfl ⟨h0, h3⟩ (fun p => ⟨rfl, rfl, fun _ => rfl⟩) rfl)
    rfl rfl) rfl rfl (fun u hu0 hu3 hulive => ⟨h.task u hu0 hu3 hulive, rfl⟩)
    (fun p hs hm => ⟨hs, hm⟩) (fun phase below hk => ?_) fun _ _ => rfl
  change k.cpu.kont = _ at hk
  rw [hk] at hstart
  cases hstart

/-- Another terminal is displayed for the first time: the running process is suspended, and the
execute of a shell begins. -/
theorem Concurrent.began (h : k.Concurrent owner) (hstart : k.cpu.kont.starting = false)
    {t : Int} (h0 : 0 ≤ t) (h3 : t < 3) (hnone : k.currTask t = -1) (junk : Nat → UInt8) :
    (({ k with activeTerminal := t } : Kernel).saveMain.goOn .switchTerminal (.parse shell junk)
      k.cpu.kont).Concurrent owner := by
  have hpcb := saveMain_pcb { k with activeTerminal := t }
  have hown := Kont.own_of_not_starting hstart
  -- the context moves from the CPU into the PCB, so no process loses its place
  have hsame : ∀ p, (({ k with activeTerminal := t } : Kernel).saveMain.goOn .switchTerminal
      (.parse shell junk) k.cpu.kont).taskKont p = k.taskKont p := fun p => by
    rcases eq_or_ne p k.mainProcess with rfl | hp
    · rw [taskKont_main, hown]
      exact if_pos rfl
    · rw [taskKont_of_ne hp]
      refine (if_neg hp).trans ?_
      change (({ k with activeTerminal := t } : Kernel).saveMain.pcb p).pit.kont = _
      rw [saveMain, modifyPcb_of_ne hp]
  refine h.kept (h.inv.congr (h.inv.1.congr rfl rfl ⟨h0, h3⟩
    (fun p => ⟨(hpcb p).1, (hpcb p).2.1, fun _ => (hpcb p).2.2⟩) rfl) rfl rfl) rfl rfl
    (fun u hu0 hu3 hulive => ?_) (fun p hs => ?_) (fun phase below hk => ?_)
    fun p _ => (hpcb p).2.2
  · rw [hsame]
    exact ⟨h.task u hu0 hu3 hulive, rfl⟩
  · rw [hstart] at hs
    cases hs
  · cases hk
    refine ⟨hnone, ?_, trivial⟩
    change (({ k with activeTerminal := t } : Kernel).saveMain.pcb k.mainProcess).pit.kont = _
    rw [saveMain, modifyPcb_same]

end Turn

/-! ## Turns -/

/-- What an event does to the processes of `k`. -/
def deed (k : Kernel) (e : PreemptEvent) : Deed :=
  if k.hung then .other
  else
    match e with
    | .advance junk =>
      if k.cpu.kont.overruns then .exited 255 junk
      else
        match k.cpu.kont with
        | .exec _ phase _ => phase.deed
        | .user | .idle => .other
    | .halt status junk => if k.cpu.kont = .user then .exited status junk else .other
    | .switchTerminal terminal _ =>
      if k.activeTerminal ≠ (terminal.val : Nat) ∧ k.currTask (terminal.val : Nat) = -1 then
        .suspended
      else .other
    | .tick =>
      if k.checkTasks k.mainProcess = -1 then .other else .resumed (k.checkTasks k.mainProcess)
    | .execute _ _ | .vidmap => .other

/-- **What an event can do** to a kernel in which executes are going on; the owners of the slots with
a process are `owner` before and the second table afterwards. -/
inductive Turn (owner : Int → Int) (k : Kernel) : Deed → (Int → Int) → Kernel → Prop
  /-- the running process goes on, or an execute -/
  | other {k' : Kernel} (hnum : k'.processNum = k.processNum) (htask : k'.currTask = k.currTask)
    (hmain : k'.mainProcess = k.mainProcess) (hpcb : k'.pcb = k.pcb)
    (hstart : k'.cpu.kont.starting = true → k.cpu.kont.starting = true) : Turn owner k .other owner k'
  /-- an execute has stored the owner of a slot without a process -/
  | stored {caller : Caller} {prog : Program} {i : Int} {below : Kont}
    (hkont : k.cpu.kont = .exec caller (.mark prog i) below) (h0 : 0 ≤ i) (hfree : owner i = -1)
    (hnone : k.processNum i = -1) :
    Turn owner k (.stored i) owner ((k.markSlot i).goOn caller (.map prog i) below)
  /-- an execute has entered a new process: a child of the caller's terminal -/
  | child {prog : Program} {i : Int} (hkont : k.cpu.kont = .exec .syscall (.enter prog i) .user)
    (h3 : 3 ≤ i) (h6 : i < 6) (hfree : owner i = -1) (hnum : k.processNum i = k.activeTerminal)
    (hshown : k.activeTerminal = k.processNum k.mainProcess) :
    Turn owner k (.entered i) (Function.update owner i k.activeTerminal)
      (k.enterProgram .syscall .user prog i)
  /-- or the first shell of the displayed terminal -/
  | first {prog : Program} {below : Kont}
    (hkont : k.cpu.kont = .exec .switchTerminal (.enter prog k.activeTerminal) below)
    (hfree : owner k.activeTerminal = -1) (hnone : k.currTask k.activeTerminal = -1) :
    Turn owner k (.entered k.activeTerminal)
      (Function.update owner k.activeTerminal k.activeTerminal)
      (k.enterProgram .switchTerminal below prog k.activeTerminal)
  /-- a child has halted, and its parent goes on -/
  | halted {status : UInt8} {junk : Nat → UInt8} {k' : Kernel} (h3 : 3 ≤ k.mainProcess)
    (hh : Halted (k.pcb k.mainProcess).parentPcb k.enterKernel k') :
    Turn owner k (.exited status junk) (Function.update owner k.mainProcess (-1)) k'
  /-- a root shell has halted, and another one runs in its slot -/
  | restarted {status : UInt8} {junk : Nat → UInt8} {k' : Kernel} (hroot : k.mainProcess < 3)
    (hshown : k.mainProcess = k.activeTerminal) (hr : Restarted k.enterKernel k') :
    Turn owner k (.exited status junk) owner k'
  /-- the timer has resumed the task of another terminal -/
  | resumed {t : Int} {k' : Kernel} (h0 : 0 ≤ t) (h3 : t < 3) (hne : k.currTask t ≠ k.mainProcess)
    (hlive : k.currTask t ≠ -1) (hstart : k.cpu.kont.starting = false)
    (hr : Resumed (k.currTask t) k.enterKernel k') : Turn owner k (.resumed (k.currTask t)) owner k'
  /-- the execute of the first shell of a terminal has begun -/
  | suspended {t : Int} (h0 : 0 ≤ t) (h3 : t < 3) (hnone : k.currTask t = -1)
    (hstart : k.cpu.kont.starting = false) (junk : Nat → UInt8) :
    Turn owner k .suspended owner (({ k.enterKernel with activeTerminal := t } : Kernel).saveMain.goOn
      .switchTerminal (.parse shell junk) k.cpu.kont)

theorem enterKernel_kont (k : Kernel) : k.enterKernel.cpu.kont = k.cpu.kont := by
  unfold enterKernel
  split
  · next huser => exact huser.symm
  · rfl

theorem checkTasks_enterKernel (k : Kernel) (num : Int) :
    k.enterKernel.checkTasks num = k.checkTasks num := by
  unfold enterKernel
  split <;> rfl

theorem quiet_enterKernel (k : Kernel) : Quiet k k.enterKernel :=
  ⟨enterKernel_processNum k, enterKernel_currTask k, enterKernel_activeTerminal k,
    enterKernel_mainProcess k, enterKernel_pcb k, enterKernel_hung k⟩

section Step

variable {owner : Int → Int} {k : Kernel}

theorem Concurrent.enterKernel (h : k.Concurrent owner) : k.enterKernel.Concurrent owner := by
  have hkont := enterKernel_kont k
  refine h.moved (quiet_enterKernel k) ?_ ?_ (fun phase below hk => ?_) (fun p hs hm => ?_)
  · rw [hkont]
    exact h.inCall
  · rw [hkont]
  · rw [hkont] at hk
    exact ⟨phase, hk, fun hfirst => hfirst.congr (quiet_enterKernel k)⟩
  · rw [hkont]
    exact ⟨hs, hm⟩

theorem PhaseStep.deed {phase phase' : Phase} (h : PhaseStep k phase phase') :
    phase.deed = .other := by
  cases h <;> rfl

/-- What a step of the execute that is going on does to the processes. -/
theorem deed_exec (hhung : k.hung = false) {caller : Caller} {phase : Phase} {below : Kont}
    (hkont : k.cpu.kont = .exec caller phase below) (hroom : ¬ k.cpu.kont.overruns)
    (junk : Nat → UInt8) : k.deed (.advance junk) = phase.deed := by
  unfold deed
  rw [if_neg (by rw [hhung]; exact Bool.false_ne_true)]
  dsimp only
  rw [if_neg hroom, hkont]

/-- A step of the execute that is going on. -/
theorem Concurrent.turn_advance (h : k.Concurrent owner) (hhung : k.hung = false) {img : Image}
    {junk : Nat → UInt8} (hcalm : Calm k (.advance junk)) :
    ∃ owner', Turn owner k (k.deed (.advance junk)) owner' (k.execStep img junk) ∧
      (k.execStep img junk).Concurrent owner' := by
  have hroom : ¬ k.cpu.kont.overruns := hcalm.fits
  have hon : ¬ k.hung = true := by rw [hhung]; exact Bool.false_ne_true
  rcases h.cpu_cases with huser | hexec
  · -- there is no execute
    have hstep : k.execStep img junk = k := by
      unfold execStep
      rw [huser]
    have hdeed : k.deed (.advance junk) = .other := by
      unfold deed
      rw [if_neg hon]
      dsimp only
      rw [if_neg hroom, huser]
    rw [hstep, hdeed]
    exact ⟨owner, .other rfl rfl rfl rfl id, h⟩
  obtain ⟨caller, phase, below, hkont⟩ : ∃ caller phase below,
      k.cpu.kont = .exec caller phase below := by
    rcases hexec with ⟨phase, hkont⟩ | ⟨phase, below, hkont, -⟩
    · exact ⟨_, phase, _, hkont⟩
    · exact ⟨_, phase, below, hkont⟩
  have hcaller := h.exec_cases hkont
  have hdeed := deed_exec hhung hkont hroom junk
  -- the four ways in which a step of execute ends
  rcases execStep_cases hkont hcalm.text hroom img junk with ⟨prog, i, rfl, hstep⟩ | ⟨prog, i, rfl, hstep⟩ |
    ⟨hnone, hmark, hquiet, hkont'⟩ | ⟨phase', hnext, hquiet, hkont'⟩
  · -- the owner of a slot is stored
    refine ⟨owner, ?_⟩
    rw [hstep, hdeed]
    rcases hcaller with ⟨rfl, rfl⟩ | ⟨rfl, -⟩
    · have hstoring : i ∈ k.cpu.kont.storing := by rw [hkont]; rfl
      have hnone := hcalm.free i hstoring
      have hshown := hcalm.caller (.inl (Option.isSome_of_mem hstoring))
      have htest := hcalm.test i hstoring
      have h0 : 0 ≤ i := by
        have := h.active.1
        omega
      exact ⟨.stored hkont h0 (h.free hnone) hnone, h.marked_shared hkont hnone htest hshown⟩
    · obtain ⟨rfl, hfree, hnone⟩ := h.first_free hkont
      exact ⟨.stored hkont h.active.1 hfree hnone, h.marked_first hkont⟩
  · -- a program is entered
    rw [hstep, hdeed]
    refine ⟨Function.update owner i k.activeTerminal, ?_⟩
    rcases hcaller with ⟨rfl, rfl⟩ | ⟨rfl, -⟩
    · have hshown := hcalm.caller (.inr (by rw [hkont]; rfl))
      obtain ⟨⟨h3, h6, hfree, hnum⟩, hnext⟩ := h.entered_shared hkont hshown
      exact ⟨.child hkont h3 h6 hfree hnum hshown, hnext⟩
    · obtain ⟨⟨rfl, hfree, -⟩, hnext⟩ := h.entered_first hkont
      exact ⟨.first hkont hfree (h.starts _ _ hkont).1, hnext⟩
  · -- execute returns to its caller
    refine ⟨owner, ?_, h.returned hquiet hkont hnone hkont'⟩
    have hquiet' : phase.deed = .other := by
      cases phase with
      | mark prog i => exact absurd rfl (hmark prog i)
      | enter prog i => cases hnone
      | _ => rfl
    rw [hdeed, hquiet']
    refine .other hquiet.processNum hquiet.currTask hquiet.mainProcess hquiet.pcb fun hs => ?_
    rw [hkont'] at hs
    rw [hkont]
    rcases hcaller with ⟨rfl, rfl⟩ | ⟨rfl, -⟩
    · cases hs
    · rfl
  · -- or goes on
    refine ⟨owner, ?_, h.goesOn hquiet hkont hnext hkont'⟩
    rw [hdeed, hnext.deed]
    refine .other hquiet.processNum hquiet.currTask hquiet.mainProcess hquiet.pcb fun hs => ?_
    rw [hkont'] at hs
    rw [hkont]
    rcases hcaller with ⟨rfl, -⟩ | ⟨rfl, -⟩
    · cases hs
    · rfl

/-- The way into the kernel, and nothing else. -/
theorem turn_enterKernel (owner : Int → Int) (k : Kernel) : Turn owner k .other owner k.enterKernel := by
  have hquiet := quiet_enterKernel k
  refine .other hquiet.processNum hquiet.currTask hquiet.mainProcess hquiet.pcb fun hs => ?_
  rwa [enterKernel_kont] at hs

/-- Another terminal is displayed, and its first shell begun if it has none. -/
theorem Concurrent.turn_switchTerminal (h : k.Concurrent owner) {terminal : Fin 3} {junk : Nat → UInt8}
    (hcalm : Calm k (.switchTerminal terminal junk)) :
    Turn owner k (k.deed (.switchTerminal terminal junk)) owner
        (k.enterKernel.beginSwitch (terminal.val : Nat) junk) ∧
      (k.enterKernel.beginSwitch (terminal.val : Nat) junk).Concurrent owner := by
  have hon : ¬ k.hung = true := by rw [show k.hung = false from h.inv.1.hung]; exact Bool.false_ne_true
  have hk := h.enterKernel
  have hkont := enterKernel_kont k
  have hquiet := quiet_enterKernel k
  have hactive := enterKernel_activeTerminal k
  have htask := enterKernel_currTask k
  have h0 : (0 : Int) ≤ (terminal.val : Nat) := by omega
  have h3 : ((terminal.val : Nat) : Int) < 3 := by omega
  rw [deed, if_neg hon]
  unfold beginSwitch
  dsimp only
  by_cases hsame : k.activeTerminal = (terminal.val : Nat)
  · rw [if_pos (hactive.trans hsame), if_neg fun hand => hand.1 hsame]
    exact ⟨turn_enterKernel owner k, hk⟩
  · -- another terminal is displayed while no first shell is being started
    have hstart : k.cpu.kont.starting = false := by
      by_contra hs
      exact hsame (hcalm.alone (by simpa using hs))
    have hstart' : k.enterKernel.cpu.kont.starting = false := by rw [hkont]; exact hstart
    rw [if_neg fun heq => hsame (hactive.symm.trans heq)]
    by_cases hnone : k.currTask (terminal.val : Nat) = -1
    · have hnone' : k.enterKernel.currTask (terminal.val : Nat) = -1 := by rw [htask]; exact hnone
      rw [if_pos hnone', if_pos ⟨hsame, hnone⟩]
      have hbegan := hk.began hstart' h0 h3 hnone' junk
      rw [hkont] at hbegan ⊢
      exact ⟨.suspended h0 h3 hnone hstart junk, hbegan⟩
    · rw [if_neg (show ¬ k.enterKernel.currTask (terminal.val : Nat) = -1 by rw [htask]; exact hnone),
        if_neg fun hand => hnone hand.2]
      exact ⟨.other hquiet.processNum hquiet.currTask hquiet.mainProcess hquiet.pcb fun hs => by
        rwa [← hkont], hk.displayed hstart' h0 h3⟩

/-- A timer interrupt resumes the task of another terminal, if there is one. -/
theorem Concurrent.turn_tick (h : k.Concurrent owner) (hcalm : Calm k .tick) :
    Turn owner k (k.deed .tick) owner k.enterKernel.schedulerHandler ∧
      k.enterKernel.schedulerHandler.Concurrent owner := by
  have hon : ¬ k.hung = true := by rw [show k.hung = false from h.inv.1.hung]; exact Bool.false_ne_true
  have hk := h.enterKernel
  have hcheck : k.enterKernel.checkTasks k.enterKernel.mainProcess = k.checkTasks k.mainProcess := by
    rw [enterKernel_mainProcess, checkTasks_enterKernel]
  rw [deed, if_neg hon]
  rcases schedulerHandler_cases k.enterKernel with ⟨hnone, heq⟩ | ⟨t, h0, h3, hnext, hne, hlive, heq⟩
  · rw [heq, if_pos (hcheck.symm.trans hnone)]
    exact ⟨turn_enterKernel owner k, hk⟩
  · rw [hcheck] at hnext
    rw [enterKernel_currTask] at hnext hne hlive heq
    rw [enterKernel_mainProcess] at hne
    have hstart : k.cpu.kont.starting = false := by
      by_contra hs
      exact hlive (hnext.symm.trans (hcalm.alone (by simpa using hs)))
    have hr := hk.resumed (by rw [enterKernel_kont]; exact hstart) h0 h3
      (by rw [enterKernel_currTask, enterKernel_mainProcess]; exact hne)
      (by rw [enterKernel_currTask]; exact hlive)
    rw [enterKernel_currTask] at hr
    rw [heq, hnext, if_neg hlive]
    exact ⟨.resumed h0 h3 hne hlive hstart hr.1, hr.2⟩

/-- **Every event of a calm run** does one of the listed things, and keeps the invariant. -/
theorem Concurrent.turn (h : k.Concurrent owner) {img : Image} (hshell : ShellStarts img)
    (tab : TableAddr) {e : PreemptEvent} (hcalm : Calm k e) :
    ∃ owner', Turn owner k (k.deed e) owner' (preemptStep img tab k e) ∧
      (preemptStep img tab k e).Concurrent owner' := by
  have hhung : k.hung = false := h.inv.1.hung
  have hon : ¬ k.hung = true := by rw [hhung]; exact Bool.false_ne_true
  have hk := h.enterKernel
  have hkont := enterKernel_kont k
  have hquiet := quiet_enterKernel k
  cases e with
  | advance junk =>
    rw [preemptStep, if_neg hon]
    exact h.turn_advance hhung hcalm
  | switchTerminal terminal junk =>
    rw [preemptStep, if_neg hon]
    exact ⟨owner, h.turn_switchTerminal hcalm⟩
  | tick =>
    rw [preemptStep, if_neg hon]
    exact ⟨owner, h.turn_tick hcalm⟩
  | execute command junk =>
    rw [preemptStep, if_neg hon, deed, if_neg hon]
    refine ⟨owner, ?_⟩
    split
    · next huser =>
      rw [huser] at hkont
      refine ⟨.other hquiet.processNum hquiet.currTask hquiet.mainProcess hquiet.pcb
        (fun hs => by cases hs), ?_⟩
      refine hk.moved ⟨rfl, rfl, rfl, rfl, rfl, rfl⟩ trivial ?_ (fun phase below hs => by cases hs)
        (fun p hs => ?_)
      · rw [hkont]
        rfl
      · rw [hkont] at hs
        cases hs
    · exact ⟨.other rfl rfl rfl rfl id, h⟩
  | halt status junk =>
    rw [preemptStep, if_neg hon, deed, if_neg hon]
    split
    · next huser =>
      have huser' : k.enterKernel.cpu.kont = .user := hkont.trans huser
      by_cases hroot : k.mainProcess < 3
      · have hshown := hcalm.root huser hroot
        have hr := hk.restarted huser' hshell (by rw [enterKernel_mainProcess]; exact hroot)
          (by rw [enterKernel_mainProcess, enterKernel_activeTerminal]; exact hshown) status junk
        exact ⟨owner, .restarted hroot hshown hr.1, hr.2⟩
      · have hh := hk.halted huser' (by rw [enterKernel_mainProcess]; omega) img status junk
        rw [enterKernel_mainProcess, enterKernel_pcb] at hh
        exact ⟨_, .halted (by omega) hh.1, hh.2⟩
    · exact ⟨owner, .other rfl rfl rfl rfl id, h⟩
  | vidmap =>
    rw [preemptStep, if_neg hon, deed, if_neg hon]
    dsimp only
    refine ⟨owner, ?_⟩
    split
    · next huser =>
      refine ⟨.other hquiet.processNum hquiet.currTask hquiet.mainProcess hquiet.pcb fun hs => by
        rwa [← hkont], ?_⟩
      exact hk.moved ⟨rfl, rfl, rfl, rfl, rfl, rfl⟩ hk.inCall rfl
        (fun phase below hs => ⟨phase, hs, fun hfirst => hfirst.congr ⟨rfl, rfl, rfl, rfl, rfl, rfl⟩⟩)
        (fun p hs hm => ⟨hs, hm⟩)
    · exact ⟨.other rfl rfl rfl rfl id, h⟩

end Step

/-! ## The start -/

/-- The first shell runs alone. -/
theorem concurrent_boot {img : Image} (hshell : ShellStarts img) (tab : TableAddr)
    (junk : Nat → UInt8) (k : Kernel) :
    (boot img tab junk k).Concurrent (Function.update (fun _ => -1) 0 0) := by
  have hc := boot_created hshell tab junk k
  have hinv := inv_boot hshell tab junk k
  generalize boot img tab junk k = k' at hc hinv
  have hnum : k'.processNum = Function.update (fun _ => -1) 0 0 := hc.processNum
  have htask : ∀ t, k'.currTask t ≠ -1 → k'.taskKont (k'.currTask t) = .user := fun t ht => by
    have hcurr : k'.currTask t = if t = 0 then 0 else -1 := by
      rw [hc.currTask]
      exact Function.update_apply ..
    rw [hcurr] at ht ⊢
    split at ht
    · next h0 =>
      rw [if_pos h0, taskKont, if_pos hc.mainProcess.symm, hc.cpu]
      rfl
    · exact absurd rfl ht
  exact
    { inv := by
        have heq : k'.owned (Function.update (fun _ => -1) 0 0) = k' := by rw [← hnum]; rfl
        rw [heq]
        exact hinv
      own := fun p _ => congrFun hnum p
      mark := fun p hp hpnum => absurd ((congrFun hnum p).trans hp) hpnum
      task := fun t _ _ ht => by
        rw [htask t ht]
        trivial
      marked := fun t _ _ ht i hi => by
        rw [htask t ht] at hi
        cases hi
      starts := fun phase below hk => by
        rw [hc.cpu] at hk
        cases hk
      frame := fun p h3 _ hp => absurd (Function.update_of_ne (by omega) ..) hp }

end Kernel

end SrirachOS
