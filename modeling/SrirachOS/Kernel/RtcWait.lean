import SrirachOS.Kernel.Schedule
import Mathlib.Data.List.TakeWhile

/-!
# Waiting for the Clock

`rtc_read` clears the one `rtc_flag` of the kernel and polls until `rtc_handler` sets it. It runs
with interrupts enabled, so the scheduler may take the processor away between any two of its
accesses, and another process may enter `rtc_read` meanwhile.

- `rtcStep`: the machine, over the processes and the scheduler of the kernel,
- `rtcInv_step`: the flag tells whether an interrupt or a call of `rtc_read` came last,
- `wakeUp_iff`: a waiter that an interrupt has reached returns the next time it runs exactly when
  no other process has started a read since.
-/

namespace SrirachOS

open Foundation

namespace Kernel

/-! ## The machine -/

/-- Where a process is in `rtc_read`. -/
inductive RtcPhase where
  | idle
  /-- before `rtc_flag=0` -/
  | reset
  /-- in `while(rtc_flag==0)` -/
  | poll
  deriving DecidableEq

/-- What happens to the clock and its readers. -/
inductive RtcAct where
  | interrupt
  | called (p : Int)
  | cleared (p : Int)
  | returned (p : Int)
  deriving DecidableEq

/-- The kernel, `rtc_flag`, what each process is doing in `rtc_read`, and what has happened so far, the
latest first. -/
structure RtcSystem where
  kernel : Kernel
  rtcFlag : Int
  phase : Int → RtcPhase
  log : List RtcAct

/-- Nobody has read the clock yet. -/
def RtcSystem.start (k : Kernel) : RtcSystem := ⟨k, 0, fun _ => .idle, []⟩

inductive RtcEvent where
  /-- an event of the processes; a system call only by one that is not inside `rtc_read` -/
  | kernel (e : Event)
  /-- `rtc_handler()` -/
  | interrupt
  /-- the running process calls `rtc_read` -/
  | read
  /-- the running process takes a step in `rtc_read` -/
  | advance

/-- The event is an interrupt, which comes at any time. -/
def Event.isInterrupt : Event → Bool
  | .tick => true
  | .switchTerminal _ _ => true
  | _ => false

/-- One step of the running process in `rtc_read`. -/
def rtcAdvance (x : RtcSystem) : RtcSystem :=
  let p := x.kernel.mainProcess
  match x.phase p with
  | .idle => x
  | .reset =>
    { x with rtcFlag := 0, phase := Function.update x.phase p .poll, log := .cleared p :: x.log }
  | .poll =>
    if x.rtcFlag = 0 then x
    else { x with phase := Function.update x.phase p .idle, log := .returned p :: x.log }

/-- One event. The slots that it leaves free are in no call. -/
def rtcStep (img : Image) (tab : TableAddr) (x : RtcSystem) (e : RtcEvent) : RtcSystem :=
  if x.kernel.hung then x
  else
    match e with
    | .kernel e =>
      if e.isInterrupt = true ∨ x.phase x.kernel.mainProcess = .idle then
        let k := step img tab x.kernel e
        { x with kernel := k, phase := fun p => if k.processNum p = -1 then .idle else x.phase p }
      else x
    | .interrupt => { x with rtcFlag := 1, log := .interrupt :: x.log }
    | .read =>
      let p := x.kernel.mainProcess
      if x.phase p = .idle then
        { x with phase := Function.update x.phase p .reset, log := .called p :: x.log }
      else x
    | .advance => rtcAdvance x

/-! ## The flag and the log -/

/-- What has happened since the latest `a`. -/
def since (a : RtcAct) (log : List RtcAct) : List RtcAct := log.takeWhile (· ≠ a)

theorem since_cons_self (a : RtcAct) (log : List RtcAct) : since a (a :: log) = [] := by
  simp [since]

theorem since_cons_of_ne {a b : RtcAct} (h : b ≠ a) (log : List RtcAct) :
    since a (b :: log) = b :: since a log := by
  simp [since, h]

/-- An interrupt came later than the latest start of a read. -/
def raised : List RtcAct → Bool
  | [] => false
  | .interrupt :: _ => true
  | .cleared _ :: _ => false
  | _ :: log => raised log

/-- With an interrupt in the log, it came last exactly when no read has been started since. -/
theorem raised_iff {log : List RtcAct} (h : .interrupt ∈ log) :
    raised log = true ↔ ∀ q, RtcAct.cleared q ∉ since .interrupt log := by
  induction log with
  | nil => exact absurd h List.not_mem_nil
  | cons a log ih =>
    cases a with
    | interrupt => exact iff_of_true rfl fun q => by simp [since_cons_self]
    | cleared p =>
      refine iff_of_false Bool.false_ne_true fun hall => hall p ?_
      rw [since_cons_of_ne (by simp)]
      exact List.mem_cons_self
    | called p =>
      rw [since_cons_of_ne (by simp)]
      simpa [raised] using ih (by simpa using h)
    | returned p =>
      rw [since_cons_of_ne (by simp)]
      simpa [raised] using ih (by simpa using h)

/-- A process that has started a read, and polls. -/
def Polls (p : Int) (log : List RtcAct) : Prop :=
  .cleared p ∈ log ∧ .called p ∉ since (.cleared p) log

/-- **A raised flag tells a poller of an interrupt** that came after its own call. -/
theorem interrupt_since_called {p : Int} {log : List RtcAct} (hraised : raised log = true)
    (hpolls : Polls p log) : .interrupt ∈ since (.called p) log := by
  induction log with
  | nil => exact absurd hraised Bool.false_ne_true
  | cons a log ih =>
    obtain ⟨hcleared, hcalled⟩ := hpolls
    cases a with
    | interrupt =>
      rw [since_cons_of_ne (by simp)]
      exact List.mem_cons_self
    | cleared q => exact absurd hraised Bool.false_ne_true
    | called q =>
      rw [since_cons_of_ne (by simp), List.mem_cons, not_or] at hcalled
      rw [since_cons_of_ne fun h => hcalled.1 h.symm]
      exact List.mem_cons_of_mem _ (ih hraised ⟨by simpa using hcleared, hcalled.2⟩)
    | returned q =>
      rw [since_cons_of_ne (by simp), List.mem_cons, not_or] at hcalled
      rw [since_cons_of_ne (by simp)]
      exact List.mem_cons_of_mem _ (ih hraised ⟨by simpa using hcleared, hcalled.2⟩)

/-- An interrupt since its own start hides that start from what came after the last interrupt. -/
theorem not_cleared_since {p : Int} {log : List RtcAct}
    (h : .interrupt ∈ since (.cleared p) log) : .cleared p ∉ since .interrupt log := by
  induction log with
  | nil => exact List.not_mem_nil
  | cons a log ih =>
    by_cases hint : a = .interrupt
    · rw [hint, since_cons_self]
      exact List.not_mem_nil
    by_cases hclr : a = .cleared p
    · rw [hclr, since_cons_self] at h
      exact absurd h List.not_mem_nil
    · rw [since_cons_of_ne hclr, List.mem_cons] at h
      rw [since_cons_of_ne hint, List.mem_cons, not_or]
      exact ⟨fun heq => hclr heq.symm, ih (h.resolve_left fun heq => hint heq.symm)⟩

/-- The flag tells what came last, and whoever polls has started its read. -/
structure RtcInv (x : RtcSystem) : Prop where
  flag : x.rtcFlag ≠ 0 ↔ raised x.log = true
  polls : ∀ p, x.phase p = .poll → Polls p x.log

/-- An act that is no start of `p`'s read leaves a poller `p` polling. -/
theorem Polls.cons {p : Int} {log : List RtcAct} (h : Polls p log) {a : RtcAct}
    (hcalled : a ≠ .called p) : Polls p (a :: log) := by
  obtain ⟨hcleared, hnot⟩ := h
  refine ⟨List.mem_cons_of_mem _ hcleared, ?_⟩
  by_cases ha : a = .cleared p
  · rw [ha, since_cons_self]
    exact List.not_mem_nil
  · rw [since_cons_of_ne ha, List.mem_cons, not_or]
    exact ⟨fun h => hcalled h.symm, hnot⟩

theorem rtcInv_start (k : Kernel) : RtcInv (.start k) where
  flag := ⟨fun h => absurd rfl h, fun h => absurd h Bool.false_ne_true⟩
  polls p hp := by cases hp

theorem rtcInv_advance {x : RtcSystem} (hx : RtcInv x) : RtcInv (rtcAdvance x) := by
  obtain ⟨hflag, hpolls⟩ := hx
  unfold rtcAdvance
  dsimp only
  cases hphase : x.phase x.kernel.mainProcess with
  | idle => exact ⟨hflag, hpolls⟩
  | reset =>
    refine ⟨iff_of_false (fun h => h rfl) Bool.false_ne_true, fun p hp => ?_⟩
    by_cases hmain : p = x.kernel.mainProcess
    · rw [hmain]
      exact ⟨List.mem_cons_self, by simp [since_cons_self]⟩
    · dsimp only at hp
      rw [Function.update_of_ne hmain] at hp
      exact (hpolls p hp).cons (by simp)
  | poll =>
    dsimp only
    by_cases hzero : x.rtcFlag = 0
    · rw [if_pos hzero]
      exact ⟨hflag, hpolls⟩
    · rw [if_neg hzero]
      refine ⟨hflag, fun p hp => ?_⟩
      by_cases hmain : p = x.kernel.mainProcess
      · dsimp only at hp
        rw [hmain, Function.update_self] at hp
        cases hp
      · dsimp only at hp
        rw [Function.update_of_ne hmain] at hp
        exact (hpolls p hp).cons (by simp)

/-- **One event** keeps the flag and the log in step. -/
theorem rtcInv_step (img : Image) (tab : TableAddr) {x : RtcSystem} (hx : RtcInv x) (e : RtcEvent) :
    RtcInv (rtcStep img tab x e) := by
  unfold rtcStep
  by_cases hhung : x.kernel.hung = true
  · rw [if_pos hhung]
    exact hx
  rw [if_neg hhung]
  cases e with
  | kernel e =>
    dsimp only
    split
    · refine ⟨hx.flag, fun p hp => hx.polls p ?_⟩
      dsimp only at hp
      split at hp
      · cases hp
      · exact hp
    · exact hx
  | interrupt =>
    exact ⟨iff_of_true (show (1 : Int) ≠ 0 by decide) rfl, fun p hp =>
      (hx.polls p hp).cons (by simp)⟩
  | read =>
    dsimp only
    split
    · refine ⟨hx.flag, fun p hp => ?_⟩
      by_cases hmain : p = x.kernel.mainProcess
      · dsimp only at hp
        rw [hmain, Function.update_self] at hp
        cases hp
      · dsimp only at hp
        rw [Function.update_of_ne hmain] at hp
        refine (hx.polls p hp).cons ?_
        rw [Ne, RtcAct.called.injEq]
        exact fun h => hmain h.symm
    · exact hx
  | advance => exact rtcInv_advance hx

/-! ## Waking up -/

/-- The running process tests the flag in `rtc_read`. -/
def Tests (x : RtcSystem) (e : RtcEvent) : Prop :=
  e = .advance ∧ x.kernel.hung = false ∧ x.phase x.kernel.mainProcess = .poll

/-- The test sends the process back to its caller. -/
def Returns (img : Image) (tab : TableAddr) (x : RtcSystem) (e : RtcEvent) : Prop :=
  (rtcStep img tab x e).phase x.kernel.mainProcess = .idle

/-- A process that tests the flag returns only after an interrupt since it called `rtc_read`, and does
return if an interrupt has come since it began to wait. -/
def WakesUp (img : Image) (tab : TableAddr) (x : RtcSystem) (e : RtcEvent) : Prop :=
  Tests x e →
    (Returns img tab x e → .interrupt ∈ since (.called x.kernel.mainProcess) x.log) ∧
    (.interrupt ∈ since (.cleared x.kernel.mainProcess) x.log → Returns img tab x e)

/-- When a process that an interrupt has reached tests the flag, no other process has started a read
since the last interrupt. -/
def ReadAlone (x : RtcSystem) (e : RtcEvent) : Prop :=
  Tests x e → .interrupt ∈ since (.cleared x.kernel.mainProcess) x.log →
    ∀ q ≠ x.kernel.mainProcess, RtcAct.cleared q ∉ since .interrupt x.log

theorem returns_iff (img : Image) (tab : TableAddr) {x : RtcSystem} {e : RtcEvent} (h : Tests x e) :
    Returns img tab x e ↔ x.rtcFlag ≠ 0 := by
  obtain ⟨rfl, hhung, hphase⟩ := h
  unfold Returns rtcStep rtcAdvance
  rw [if_neg (by rw [hhung]; exact Bool.false_ne_true)]
  dsimp only
  rw [hphase]
  dsimp only
  by_cases hzero : x.rtcFlag = 0
  · rw [if_pos hzero, hphase]
    exact iff_of_false (by simp) (not_not.mpr hzero)
  · rw [if_neg hzero]
    exact iff_of_true (Function.update_self ..) hzero

theorem wakesUp_iff (img : Image) (tab : TableAddr) {x : RtcSystem} (hx : RtcInv x) (e : RtcEvent) :
    WakesUp img tab x e ↔ ReadAlone x e := by
  unfold WakesUp ReadAlone
  by_cases htests : Tests x e
  swap
  · exact iff_of_true (fun h => absurd h htests) fun h => absurd h htests
  have hpolls := hx.polls _ htests.2.2
  rw [returns_iff img tab htests, hx.flag]
  constructor
  · intro h _ hsince q _
    have hmem : RtcAct.interrupt ∈ x.log := (List.takeWhile_sublist _).subset hsince
    exact (raised_iff hmem).mp ((h htests).2 hsince) q
  · intro h _
    refine ⟨fun hraised => interrupt_since_called hraised hpolls, fun hsince => ?_⟩
    have hmem : RtcAct.interrupt ∈ x.log := (List.takeWhile_sublist _).subset hsince
    refine (raised_iff hmem).mpr fun q => ?_
    by_cases hq : q = x.kernel.mainProcess
    · rw [hq]
      exact not_cleared_since hsince
    · exact h htests hsince q hq

/-- **No lost wake-up**: along every run each test wakes its process up as it should exactly when no
waiter that an interrupt has reached finds that another process has started a read since. -/
theorem wakeUp_iff (img : Image) (tab : TableAddr) (k : Kernel) (es : List RtcEvent) :
    Along (rtcStep img tab) (WakesUp img tab) (.start k) es ↔
      Along (rtcStep img tab) ReadAlone (.start k) es :=
  along_iff_of_invariant (I := RtcInv) (fun _ e hx => rtcInv_step img tab hx e)
    (fun _ e hx => wakesUp_iff img tab hx e) (rtcInv_start k) es

/-- The first shell waits for the clock; another terminal's shell reads it after the interrupt. -/
def lostWakeUp : List RtcEvent :=
  [.read, .advance, .kernel (.switchTerminal 1 noJunk), .interrupt, .read, .advance, .kernel .tick]

/-- The first shell runs again, and goes on waiting for an interrupt that has come. -/
theorem wakeUp_lost :
    let x := run (rtcStep sampleImage sampleTable)
      (.start (boot sampleImage sampleTable noJunk (sampleKernel fun _ => 0))) lostWakeUp
    x.kernel.mainProcess = 0 ∧ x.phase 0 = .poll ∧ .interrupt ∈ since (.cleared 0) x.log ∧
      (rtcStep sampleImage sampleTable x .advance).phase 0 = .poll ∧
      ¬ WakesUp sampleImage sampleTable x .advance := by
  intro x
  have hmain : x.kernel.mainProcess = 0 := by decide +kernel
  have hphase : x.phase 0 = .poll := by decide +kernel
  have hsince : .interrupt ∈ since (.cleared 0) x.log := by decide +kernel
  have hstays : (rtcStep sampleImage sampleTable x .advance).phase 0 = .poll := by decide +kernel
  refine ⟨hmain, hphase, hsince, hstays, fun h => ?_⟩
  have hwakes := h ⟨rfl, by decide +kernel, by rw [hmain]; exact hphase⟩
  rw [hmain] at hwakes
  have hreturns : (rtcStep sampleImage sampleTable x .advance).phase x.kernel.mainProcess = .idle :=
    hwakes.2 hsince
  rw [hmain, hstays] at hreturns
  cases hreturns

end Kernel

end SrirachOS
