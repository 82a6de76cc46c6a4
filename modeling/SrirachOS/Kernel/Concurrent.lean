import SrirachOS.Kernel.Invariant
import SrirachOS.Kernel.Preemption

/-!
# Executes at the Same Time

Between the test of a slot and its `cli` an execute can be suspended, and others run. In the tables
of the kernel a slot is then marked that no process occupies yet.

- `Calm`: what has to be so when execute parses its command, stores the owner of a slot, copies and
  enters a program, when a root shell exits, and while an execute that `switch_terminal` has begun is
  going on,
- `Concurrent`: the invariant. Beside the marks of the executes that are going on the tables are
  those of the kernel whose events are taken as a whole,
- `execStep_cases`: what one step of an execute can do.
-/

namespace SrirachOS

open Foundation

/-! ## Contexts -/

/-- The slot that an execute has marked, and not entered. -/
def Phase.marked : Phase → Option Int
  | .map _ i | .load _ i _ | .enter _ i => some i
  | .parse _ _ | .search _ _ | .test _ _ | .mark _ _ => none

namespace Kont

/-- The slot that the execute of a context has marked. -/
def marked : Kont → Option Int
  | .exec _ phase _ => phase.marked
  | .user | .idle => none

/-- What is left to do of the running process itself, below an execute that `switch_terminal` has
begun. -/
def own : Kont → Kont
  | .exec .switchTerminal _ below => below
  | kont => kont

/-- An execute that `switch_terminal` has begun is going on. -/
def starting : Kont → Bool
  | .exec .switchTerminal _ _ => true
  | _ => false

/-- The slot whose owner a program's execute is about to store. -/
def storing : Kont → Option Int
  | .exec .syscall (.mark _ i) _ => some i
  | _ => none

/-- The slot in which a program's execute is about to enter a process. -/
def entering : Kont → Option Int
  | .exec .syscall (.enter _ i) _ => some i
  | _ => none

/-- The command that an execute is about to parse. -/
def parsing : Kont → Option CStr
  | .exec _ (.parse command _) _ => some command
  | _ => none

/-- The copy has come to the end of the program page. -/
def overruns : Kont → Prop
  | .exec _ (.load prog _ n) _ => n < prog.bytes.length ∧ ¬ n < Kernel.programRoom
  | _ => False

instance instDecidableOverruns (kont : Kont) : Decidable kont.overruns :=
  match kont with
  | .exec _ (.load prog _ n) _ =>
    inferInstanceAs (Decidable (n < prog.bytes.length ∧ ¬ n < Kernel.programRoom))
  | .exec _ (.parse ..) _ | .exec _ (.search ..) _ | .exec _ (.test ..) _ | .exec _ (.mark ..) _
  | .exec _ (.map ..) _ | .exec _ (.enter ..) _ | .user | .idle => isFalse id

/-- A program in user mode or in a call of execute. -/
def InCall : Kont → Prop
  | .user => True
  | .exec .syscall _ .user => True
  | _ => False

theorem InCall.cases {kont : Kont} (h : kont.InCall) :
    kont = .user ∨ ∃ phase, kont = .exec .syscall phase .user := by
  cases kont with
  | user => exact .inl rfl
  | idle => exact h.elim
  | exec caller phase below =>
    cases caller with
    | syscall =>
      cases below with
      | user => exact .inr ⟨phase, rfl⟩
      | idle => exact h.elim
      | exec caller' phase' below' => exact h.elim
    | switchTerminal => exact h.elim
    | halt curr parent => exact h.elim
    | boot => exact h.elim

theorem InCall.own {kont : Kont} (h : kont.InCall) : kont.own = kont := by
  rcases h.cases with rfl | ⟨phase, rfl⟩ <;> rfl

theorem InCall.starting {kont : Kont} (h : kont.InCall) : kont.starting = false := by
  rcases h.cases with rfl | ⟨phase, rfl⟩ <;> rfl

theorem exists_of_starting {kont : Kont} (h : kont.starting = true) :
    ∃ phase below, kont = .exec .switchTerminal phase below := by
  unfold Kont.starting at h
  split at h
  · next phase below => exact ⟨phase, below, rfl⟩
  · cases h

theorem exists_of_storing {kont : Kont} {i : Int} (h : i ∈ kont.storing) :
    ∃ prog below, kont = .exec .syscall (.mark prog i) below := by
  unfold storing at h
  split at h
  · next prog j below =>
    obtain rfl := Option.some.inj h
    exact ⟨prog, below, rfl⟩
  · cases h

theorem exists_of_entering {kont : Kont} {i : Int} (h : i ∈ kont.entering) :
    ∃ prog below, kont = .exec .syscall (.enter prog i) below := by
  unfold entering at h
  split at h
  · next prog j below =>
    obtain rfl := Option.some.inj h
    exact ⟨prog, below, rfl⟩
  · cases h

theorem own_of_not_starting {kont : Kont} (h : kont.starting = false) : kont.own = kont := by
  unfold Kont.own
  split
  · cases h
  · rfl

end Kont

namespace Kernel

/-- What process `p` goes on with when it runs. -/
def taskKont (k : Kernel) (p : Int) : Kont :=
  if p = k.mainProcess then k.cpu.kont.own else (k.pcb p).pit.kont

/-! ## One step of execute -/

/-- An execute goes from one phase to the next, with the tables of `k`. -/
inductive PhaseStep (k : Kernel) : Phase → Phase → Prop
  | parsed (command : CStr) (junk : Nat → UInt8) (prog : Program) :
    PhaseStep k (.parse command junk) (.search prog 0)
  | free (prog : Program) {i : Int} (hfree : k.processNum i = -1) :
    PhaseStep k (.search prog i) (.test prog i)
  | taken (prog : Program) {i : Int} (htaken : k.processNum i ≠ -1) :
    PhaseStep k (.search prog i) (.search prog (i + 1))
  | chosen (prog : Program) {i : Int}
    (hown : (i < 3 ∧ i = k.activeTerminal) ∨ (3 ≤ i ∧ i < 6)) :
    PhaseStep k (.test prog i) (.mark prog i)
  | passed (prog : Program) {i : Int}
    (hown : ¬ ((i < 3 ∧ i = k.activeTerminal) ∨ (3 ≤ i ∧ i < 6))) :
    PhaseStep k (.test prog i) (.search prog (i + 1))
  | mapped (prog : Program) (i : Int) : PhaseStep k (.map prog i) (.load prog i 0)
  | copied (prog : Program) (i : Int) (n : Nat) :
    PhaseStep k (.load prog i n) (.load prog i (n + 1))
  | loaded (prog : Program) (i : Int) (n : Nat) : PhaseStep k (.load prog i n) (.enter prog i)

theorem PhaseStep.marked {k : Kernel} {phase phase' : Phase} (h : PhaseStep k phase phase') :
    phase'.marked = phase.marked := by
  cases h <;> rfl

/-- Nothing but the mapping, the memory, the argument buffer and the processor changes. -/
structure Quiet (k k' : Kernel) : Prop where
  processNum : k'.processNum = k.processNum
  currTask : k'.currTask = k.currTask
  activeTerminal : k'.activeTerminal = k.activeTerminal
  mainProcess : k'.mainProcess = k.mainProcess
  pcb : k'.pcb = k.pcb
  hung : k'.hung = k.hung

theorem Quiet.refl (k : Kernel) : Quiet k k := ⟨rfl, rfl, rfl, rfl, rfl, rfl⟩

/-- **A step of execute** stores an owner, enters a program, returns to the caller or goes on to the
next phase. -/
theorem execStep_cases {k : Kernel} {caller : Caller} {phase : Phase} {below : Kont}
    (hkont : k.cpu.kont = .exec caller phase below)
    (hcommand : ∀ command ∈ k.cpu.kont.parsing, CommandFits command) (hroom : ¬ k.cpu.kont.overruns)
    (img : Image) (junk : Nat → UInt8) :
    (∃ prog i, phase = .mark prog i ∧
      k.execStep img junk = (k.markSlot i).goOn caller (.map prog i) below) ∨
    (∃ prog i, phase = .enter prog i ∧
      k.execStep img junk = k.enterProgram caller below prog i) ∨
    (phase.marked = none ∧ (∀ prog i, phase ≠ .mark prog i) ∧ Quiet k (k.execStep img junk) ∧
      (k.execStep img junk).cpu.kont = below) ∨
    ∃ phase', PhaseStep k phase phase' ∧ Quiet k (k.execStep img junk) ∧
      (k.execStep img junk).cpu.kont = .exec caller phase' below := by
  unfold execStep
  rw [hkont] at hcommand hroom ⊢
  dsimp only
  cases phase with
  | parse command junk' =>
    have hfits : CommandFits command := hcommand command rfl
    dsimp only
    rw [if_pos hfits.followed, storeArgs, if_pos hfits.2]
    split
    · exact .inr (.inr (.inl ⟨rfl, by rintro _ _ ⟨⟩, ⟨rfl, rfl, rfl, rfl, rfl, rfl⟩, rfl⟩))
    · next prog _ =>
      exact .inr (.inr (.inr ⟨_, .parsed command junk' prog, ⟨rfl, rfl, rfl, rfl, rfl, rfl⟩, rfl⟩))
  | search prog i =>
    dsimp only
    split
    · exact .inr (.inr (.inl ⟨rfl, by rintro _ _ ⟨⟩, ⟨rfl, rfl, rfl, rfl, rfl, rfl⟩, rfl⟩))
    · split
      · next hfree =>
        exact .inr (.inr (.inr ⟨_, .free prog hfree, ⟨rfl, rfl, rfl, rfl, rfl, rfl⟩, rfl⟩))
      · next htaken =>
        exact .inr (.inr (.inr ⟨_, .taken prog htaken, ⟨rfl, rfl, rfl, rfl, rfl, rfl⟩, rfl⟩))
  | test prog i =>
    dsimp only
    split
    · next hown =>
      exact .inr (.inr (.inr ⟨_, .chosen prog hown, ⟨rfl, rfl, rfl, rfl, rfl, rfl⟩, rfl⟩))
    · next hown =>
      exact .inr (.inr (.inr ⟨_, .passed prog hown, ⟨rfl, rfl, rfl, rfl, rfl, rfl⟩, rfl⟩))
  | mark prog i => exact .inl ⟨prog, i, rfl, rfl⟩
  | map prog i =>
    exact .inr (.inr (.inr ⟨_, .mapped prog i, ⟨rfl, rfl, rfl, rfl, rfl, rfl⟩, rfl⟩))
  | load prog i n =>
    dsimp only
    cases hbyte : prog.bytes[n]? with
    | none =>
      exact .inr (.inr (.inr ⟨_, .loaded prog i n, ⟨rfl, rfl, rfl, rfl, rfl, rfl⟩, rfl⟩))
    | some b =>
      have hn : n < programRoom := by
        by_contra hn
        exact hroom ⟨(List.getElem?_eq_some_iff.mp hbyte).1, hn⟩
      dsimp only
      rw [if_pos hn]
      exact .inr (.inr (.inr ⟨_, .copied prog i n, ⟨rfl, rfl, rfl, rfl, rfl, rfl⟩, rfl⟩))
  | enter prog i => exact .inr (.inl ⟨prog, i, rfl, rfl⟩)

/-! ## The conditions -/

/-- A program's execute stores the owner of a slot that is still free. -/
def MarksFree (k : Kernel) : PreemptEvent → Prop
  | .advance _ => ∀ i ∈ k.cpu.kont.storing, k.processNum i = -1
  | _ => True

/-- When a program's execute stores the owner of a slot, and when it enters the new program, the
terminal of the caller is displayed. -/
def CallerShown (k : Kernel) : PreemptEvent → Prop
  | .advance _ => k.cpu.kont.storing.isSome = true ∨ k.cpu.kont.entering.isSome = true →
    k.activeTerminal = k.processNum k.mainProcess
  | _ => True

/-- When a program's execute stores the owner of a slot, the slot is a shared one or still the
displayed terminal's own. -/
def TestHolds (k : Kernel) : PreemptEvent → Prop
  | .advance _ =>
    ∀ i ∈ k.cpu.kont.storing, (i < 3 ∧ i = k.activeTerminal) ∨ (3 ≤ i ∧ i < 6)
  | _ => True

/-- Until the first shell of a terminal has been entered, no other task is resumed and no other
terminal is displayed. -/
def StartsAlone (k : Kernel) : PreemptEvent → Prop
  | .tick => k.cpu.kont.starting = true → k.checkTasks k.mainProcess = -1
  | .switchTerminal terminal _ =>
    k.cpu.kont.starting = true → k.activeTerminal = (terminal.val : Nat)
  | _ => True

/-- A root shell exits only while its terminal is displayed. -/
def RootShown (k : Kernel) : PreemptEvent → Prop
  | .halt _ _ => k.cpu.kont = .user → k.mainProcess < 3 → k.mainProcess = k.activeTerminal
  | _ => True

/-- No copy comes to the end of the program page. -/
def CopyFits (k : Kernel) : PreemptEvent → Prop
  | .advance _ => ¬ k.cpu.kont.overruns
  | _ => True

/-- The command that execute parses fits into its arrays. -/
def TextFits (k : Kernel) : PreemptEvent → Prop
  | .advance _ => ∀ command ∈ k.cpu.kont.parsing, CommandFits command
  | _ => True

/-- The event does not meet the kernel at a bad time, as far as terminals, exits and what execute has
room for are concerned. -/
structure Orderly (k : Kernel) (e : PreemptEvent) : Prop where
  text : TextFits k e
  test : TestHolds k e
  alone : StartsAlone k e
  root : RootShown k e
  fits : CopyFits k e

/-- The event does not meet the kernel at a bad time. -/
structure Calm (k : Kernel) (e : PreemptEvent) : Prop extends Orderly k e where
  free : MarksFree k e
  caller : CallerShown k e

instance instDecidableMarksFree (k : Kernel) : (e : PreemptEvent) → Decidable (MarksFree k e)
  | .advance _ => inferInstanceAs (Decidable (∀ i ∈ k.cpu.kont.storing, _))
  | .execute _ _ | .halt _ _ | .switchTerminal _ _ | .tick | .vidmap => isTrue trivial

instance instDecidableCallerShown (k : Kernel) : (e : PreemptEvent) → Decidable (CallerShown k e)
  | .advance _ => inferInstanceAs (Decidable (_ ∨ _ → _))
  | .execute _ _ | .halt _ _ | .switchTerminal _ _ | .tick | .vidmap => isTrue trivial

instance instDecidableTestHolds (k : Kernel) : (e : PreemptEvent) → Decidable (TestHolds k e)
  | .advance _ => inferInstanceAs (Decidable (∀ i ∈ k.cpu.kont.storing, _))
  | .execute _ _ | .halt _ _ | .switchTerminal _ _ | .tick | .vidmap => isTrue trivial

instance instDecidableStartsAlone (k : Kernel) : (e : PreemptEvent) → Decidable (StartsAlone k e)
  | .tick => inferInstanceAs (Decidable (_ → _))
  | .switchTerminal _ _ => inferInstanceAs (Decidable (_ → _))
  | .advance _ | .execute _ _ | .halt _ _ | .vidmap => isTrue trivial

instance instDecidableRootShown (k : Kernel) : (e : PreemptEvent) → Decidable (RootShown k e)
  | .halt _ _ => inferInstanceAs (Decidable (_ → _ → _))
  | .advance _ | .execute _ _ | .switchTerminal _ _ | .tick | .vidmap => isTrue trivial

instance instDecidableCopyFits (k : Kernel) : (e : PreemptEvent) → Decidable (CopyFits k e)
  | .advance _ => inferInstanceAs (Decidable (¬ _))
  | .execute _ _ | .halt _ _ | .switchTerminal _ _ | .tick | .vidmap => isTrue trivial

instance instDecidableTextFits (k : Kernel) : (e : PreemptEvent) → Decidable (TextFits k e)
  | .advance _ => inferInstanceAs (Decidable (∀ command ∈ k.cpu.kont.parsing, _))
  | .execute _ _ | .halt _ _ | .switchTerminal _ _ | .tick | .vidmap => isTrue trivial

instance instDecidableOrderly (k : Kernel) (e : PreemptEvent) : Decidable (Orderly k e) :=
  decidable_of_iff (TextFits k e ∧ TestHolds k e ∧ StartsAlone k e ∧ RootShown k e ∧ CopyFits k e)
    ⟨fun h => ⟨h.1, h.2.1, h.2.2.1, h.2.2.2.1, h.2.2.2.2⟩,
      fun h => ⟨h.text, h.test, h.alone, h.root, h.fits⟩⟩

instance instDecidableCalm (k : Kernel) (e : PreemptEvent) : Decidable (Calm k e) :=
  decidable_of_iff (Orderly k e ∧ MarksFree k e ∧ CallerShown k e)
    ⟨fun h => ⟨h.1, h.2.1, h.2.2⟩, fun h => ⟨h.toOrderly, h.free, h.caller⟩⟩

/-! ## The invariant -/

/-- How far the execute is that `switch_terminal` has begun for the displayed terminal. -/
def FirstShell (k : Kernel) : Phase → Prop
  | .parse _ _ => True
  | .search _ i | .test _ i => 0 ≤ i ∧ i ≤ k.activeTerminal
  | .mark _ i => i = k.activeTerminal
  | .map _ i | .load _ i _ | .enter _ i => i = k.activeTerminal ∧ k.processNum i = i

/-- The slot has been marked by an execute that is going on. -/
def Marked (k : Kernel) (p : Int) : Prop :=
  (∃ t, 0 ≤ t ∧ t < 3 ∧ k.currTask t ≠ -1 ∧ (k.taskKont (k.currTask t)).marked = some p) ∨
  (k.cpu.kont.starting = true ∧ k.cpu.kont.marked = some p)

/-- The process tables with `owner` in place of `process_num`. -/
def owned (owner : Int → Int) (k : Kernel) : Kernel := { k with processNum := owner }

/-- **The invariant of executes at the same time**: `owner` is the owner of each slot with a
process in it. -/
structure Concurrent (owner : Int → Int) (k : Kernel) : Prop where
  /-- the tables, without the marks, are those of a kernel at work -/
  inv : (k.owned owner).Inv
  own : ∀ p, owner p ≠ -1 → k.processNum p = owner p
  /-- what the code takes for an owner beside them is a mark -/
  mark : ∀ p, owner p = -1 → k.processNum p ≠ -1 → k.Marked p
  /-- the current tasks are in user mode or in a call of execute -/
  task : ∀ t, 0 ≤ t → t < 3 → k.currTask t ≠ -1 → (k.taskKont (k.currTask t)).InCall
  /-- the slot that such a call has marked is a shared one, and marked for the caller's terminal -/
  marked : ∀ t, 0 ≤ t → t < 3 → k.currTask t ≠ -1 → ∀ i,
    (k.taskKont (k.currTask t)).marked = some i →
    3 ≤ i ∧ i < 6 ∧ owner i = -1 ∧ k.processNum i = t
  /-- an execute that `switch_terminal` has begun is one for the displayed terminal, which has no
  task yet, and the running process has been suspended for it -/
  starts : ∀ phase below, k.cpu.kont = .exec .switchTerminal phase below →
    k.currTask k.activeTerminal = -1 ∧ (k.pcb k.mainProcess).pit.kont = below ∧ k.FirstShell phase
  /-- a child was started from user mode -/
  frame : ∀ p, 3 ≤ p → p < 6 → owner p ≠ -1 → (k.pcb p).frame.below = .user

section Concurrent

variable {owner : Int → Int} {k k' : Kernel}

/-- The running process is a live task of its terminal. -/
theorem Concurrent.main_live (h : k.Concurrent owner) :
    0 ≤ k.mainProcess ∧ k.mainProcess < 6 ∧ 0 ≤ owner k.mainProcess ∧ owner k.mainProcess < 3 ∧
      k.currTask (owner k.mainProcess) = k.mainProcess ∧
      k.processNum k.mainProcess = owner k.mainProcess := by
  obtain ⟨hm0, hm6, hown0, hown3, hcurr⟩ := h.inv.main_live
  exact ⟨hm0, hm6, hown0, hown3, hcurr, h.own _ (by
    change 0 ≤ owner k.mainProcess at hown0
    omega)⟩

theorem Concurrent.hung (h : k.Concurrent owner) : k.hung = false := h.inv.1.hung

/-- There are three terminals. -/
theorem Concurrent.active (h : k.Concurrent owner) :
    0 ≤ k.activeTerminal ∧ k.activeTerminal < 3 := h.inv.1.active

/-- A terminal has a task exactly when it has a root process. -/
theorem Concurrent.started (h : k.Concurrent owner) {t : Int} (h0 : 0 ≤ t) (h3 : t < 3) :
    k.currTask t = -1 ↔ owner t = -1 := h.inv.1.started t h0 h3

/-- A current task is a live process of its terminal. -/
theorem Concurrent.curr_live (h : k.Concurrent owner) {t : Int} (h0 : 0 ≤ t) (h3 : t < 3)
    (hlive : k.currTask t ≠ -1) :
    0 ≤ k.currTask t ∧ k.currTask t < 6 ∧ owner (k.currTask t) = t :=
  h.inv.1.curr t h0 h3 hlive

/-- No process is in a slot that the code takes for free. -/
theorem Concurrent.free (h : k.Concurrent owner) {p : Int} (hnone : k.processNum p = -1) :
    owner p = -1 := by
  by_contra hne
  rw [h.own p hne] at hnone
  exact hne hnone

/-- The PCB of a live process names its slot. -/
theorem Concurrent.pid (h : k.Concurrent owner) {p : Int} (h0 : 0 ≤ p) (h6 : p < 6)
    (hlive : owner p ≠ -1) : (k.pcb p).pid = p := h.inv.1.pid p h0 h6 hlive

/-- The parent of a running child is a live process of the same terminal. -/
theorem Concurrent.parent_live (h : k.Concurrent owner) (h3 : 3 ≤ k.mainProcess) :
    0 ≤ (k.pcb k.mainProcess).parentPcb ∧ (k.pcb k.mainProcess).parentPcb < k.mainProcess ∧
      owner (k.pcb k.mainProcess).parentPcb = owner k.mainProcess := h.inv.parent_live h3

/-- The running process is the task of one terminal. -/
theorem Concurrent.curr_eq_main (h : k.Concurrent owner) {t : Int} (h0 : 0 ≤ t) (h3 : t < 3)
    (hmain : k.currTask t = k.mainProcess) : t = owner k.mainProcess := by
  have hlive : k.currTask t ≠ -1 := by
    have := h.main_live.1
    omega
  rw [← hmain]
  exact (h.curr_live h0 h3 hlive).2.2.symm

/-- What the running process goes on with. -/
theorem Concurrent.inCall (h : k.Concurrent owner) : k.cpu.kont.own.InCall := by
  obtain ⟨hm0, -, hown0, hown3, hcurr, -⟩ := h.main_live
  have htask := h.task _ hown0 hown3 (by omega)
  rwa [hcurr, taskKont, if_pos rfl] at htask

/-- The processor is in user mode, in a call of execute, or in an execute that `switch_terminal` has
begun. -/
theorem Concurrent.cpu_cases (h : k.Concurrent owner) :
    k.cpu.kont = .user ∨ (∃ phase, k.cpu.kont = .exec .syscall phase .user) ∨
      ∃ phase below, k.cpu.kont = .exec .switchTerminal phase below ∧ below.InCall := by
  have hcall := h.inCall
  by_cases hstart : k.cpu.kont.starting = true
  · obtain ⟨phase, below, hkont⟩ := Kont.exists_of_starting hstart
    rw [hkont] at hcall
    exact .inr (.inr ⟨phase, below, hkont, hcall⟩)
  · rw [Kont.own_of_not_starting (by simpa using hstart)] at hcall
    exact hcall.cases.imp_right .inl

/-- An execute that is going on was called by a program or by `switch_terminal`. -/
theorem Concurrent.exec_cases (h : k.Concurrent owner) {caller : Caller} {phase : Phase}
    {below : Kont} (hkont : k.cpu.kont = .exec caller phase below) :
    (caller = .syscall ∧ below = .user) ∨ (caller = .switchTerminal ∧ below.InCall) := by
  rcases h.cpu_cases with huser | ⟨phase₁, hcall⟩ | ⟨phase₁, below₁, hfirst, hbelow⟩
  · rw [hkont] at huser
    cases huser
  · rw [hkont] at hcall
    cases hcall
    exact .inl ⟨rfl, rfl⟩
  · rw [hkont] at hfirst
    cases hfirst
    exact .inr ⟨rfl, hbelow⟩

end Concurrent

end Kernel

end SrirachOS
