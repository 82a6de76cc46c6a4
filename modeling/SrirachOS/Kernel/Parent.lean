import SrirachOS.Kernel.Coherence

/-!
# The Recorded Parent

`create_pcb` does not record who called execute: `find_parent_process` reconstructs the parent as
the highest slot below the new one that the displayed terminal owns. When that is the caller, the
halt of the child brings the caller back, on the kernel stack that its execute left; when it is
not, halt resumes that stack under the name of another process.

- `parentPid_eq_caller_iff`: when the search finds the caller,
- `ChildAt.effect`: nothing but its own halt changes what a child's PCB says,
- `parent_is_caller_iff`: both together, over every continuation of a run.
-/

namespace SrirachOS

open Foundation

namespace Kernel

/-- No slot between the running process's and slot `i` belongs to the displayed terminal, and `i`
is above. -/
def NothingBetween (k : Kernel) (i : Int) : Prop :=
  k.mainProcess < i ∧ ∀ j, k.mainProcess < j → j < i → k.processNum j ≠ k.activeTerminal

/-- **What the search finds**: the caller, exactly when nothing lies between it and the new
slot. -/
theorem parentPid_eq_caller_iff {k : Kernel} (h : k.Inv)
    (hshown : k.processNum k.mainProcess = k.activeTerminal) {i : Int} (h3 : 3 ≤ i)
    (hroot : k.processNum k.activeTerminal = k.activeTerminal) :
    (k.markSlot i).parentPid i = k.mainProcess ↔ k.NothingBetween i := by
  obtain ⟨hr0, hri, hrown, hrmax⟩ := parentPid_shared h.1.active.1 h.1.active.2 h3 hroot
  constructor
  · intro heq
    rw [heq] at hri hrmax
    exact ⟨hri, hrmax⟩
  · intro ⟨hlt, hnone⟩
    rcases lt_trichotomy ((k.markSlot i).parentPid i) k.mainProcess with hbelow | heq | habove
    · exact absurd hshown (hrmax _ hbelow hlt)
    · exact heq
    · exact absurd hrown (hnone _ habove hri)

/-! ## The child waits -/

/-- The event is the halt of process `c`. -/
def HaltOf (c : Int) (k : Kernel) : Event → Prop
  | .halt _ _ => k.mainProcess = c
  | _ => False

/-- A child's slot and PCB, as its parent's execute left them. -/
structure ChildAt (c owner parent : Int) (frame : Frame) (k : Kernel) : Prop where
  owner : k.processNum c = owner
  parentPcb : (k.pcb c).parentPcb = parent
  frame : (k.pcb c).frame = frame

theorem ChildAt.congr {c owner parent : Int} {frame : Frame} {k k' : Kernel}
    (h : k.ChildAt c owner parent frame) (hnum : k'.processNum c = k.processNum c)
    (hpcb : (k'.pcb c).parentPcb = (k.pcb c).parentPcb ∧ (k'.pcb c).frame = (k.pcb c).frame) :
    k'.ChildAt c owner parent frame where
  owner := by rw [hnum]; exact h.owner
  parentPcb := by rw [hpcb.1]; exact h.parentPcb
  frame := by rw [hpcb.2]; exact h.frame

/-- Creating another process leaves a child alone. -/
theorem ChildAt.created {c owner parent : Int} {frame : Frame} {k k' : Kernel}
    (h : k.ChildAt c owner parent frame) {caller : Caller} {i : Int} (hne : c ≠ i)
    (hc : Created caller i k k') : k'.ChildAt c owner parent frame := by
  apply h.congr
  · rw [hc.processNum, Function.update_of_ne hne]
  · rw [hc.pcb_of_ne c hne]
    exact ⟨rfl, rfl⟩

/-- **A child's PCB is its own**: no event but its halt changes what it says. -/
theorem ChildAt.effect {img : Image} {tab : TableAddr} {k k' : Kernel} {e : Event} {c owner parent : Int}
    {frame : Frame} (h : k.ChildAt c owner parent frame) (h3 : 3 ≤ c) (howner : owner ≠ -1)
    (hother : ¬ HaltOf c k e) (he : Effect img tab k e k') : k'.ChildAt c owner parent frame := by
  cases he with
  | failed command junk hnot => exact h.congr rfl ⟨rfl, rfl⟩
  | started command junk hcreates hslot hc =>
    apply h.created _ hc
    -- the slot that execute takes was free
    intro hci
    have hfree := (findSlot_eq_some hslot).1.1
    rw [← hci, h.owner] at hfree
    exact howner hfree
  | halted status junk hm3 hh =>
    have hne : c ≠ k.mainProcess := fun hci => hother hci.symm
    apply h.congr
    · rw [hh.processNum, Function.update_of_ne hne]
    · exact ⟨(hh.pcb c).2.1, (hh.pcb c).2.2.1⟩
  | restarted status junk hroot hshown hr =>
    have hne : c ≠ k.mainProcess := fun hci => hother hci.symm
    apply h.congr
    · rw [hr.processNum]
    · exact ⟨hr.parentPcb c, (hr.pcb_of_ne c hne).1⟩
  | stayed terminal junk hsame => exact h
  | displayed terminal junk hne htask => exact h.congr rfl ⟨rfl, rfl⟩
  | first terminal junk hne hnone hfree hc =>
    have hpcb := saveMain_pcb { k with activeTerminal := (terminal.val : Nat) } c
    have hsaved : ({ k with activeTerminal := (terminal.val : Nat) } : Kernel).saveMain.ChildAt
        c owner parent frame := h.congr rfl hpcb.2
    exact hsaved.created (by omega) hc
  | unswitched hnext => exact h
  | resumed h0 ht3 hnext hne hlive hr =>
    apply h.congr
    · rw [hr.processNum]
    · rcases eq_or_ne c k.mainProcess with rfl | hcm
      · rw [hr.pcb_saved]
        exact ⟨rfl, rfl⟩
      · rw [hr.pcb_of_ne c hcm]
        exact ⟨rfl, rfl⟩
  | vidmap => exact h.congr rfl ⟨rfl, rfl⟩

/-! ## From execute to halt -/

/-- A process in user mode, whose terminal is displayed, calls execute, and the program and the
shared slot `c` are found. -/
structure ExecutesShown (img : Image) (command : CStr) (junk : Nat → UInt8) (c : Int)
    (k : Kernel) : Prop where
  user : k.cpu.kont = .user
  shown : k.processNum k.mainProcess = k.activeTerminal
  program : (findProgram img (parseCommand command).1 junk).isSome
  slot : k.findSlot 6 0 = some c
  shared : 3 ≤ c

/-- `caller` runs again where it called execute: on its own kernel stack, with its frame mapped, as
the task of terminal `t`. -/
structure BroughtBack (caller t : Int) (k : Kernel) : Prop where
  mainProcess : k.mainProcess = caller
  mapped : k.paging.pageDir 32 = frameAddr caller.toNat + 0x87
  tssEsp0 : k.tssEsp0 = esp0 caller
  currTask : k.currTask t = caller
  cpu : k.cpu = ⟨caller, .user⟩

/-- Nothing but the child's halt, and what keeps the invariant. -/
def Waits (img : Image) (c : Int) (k : Kernel) (e : Event) : Prop :=
  e.Fits img ∧ RootExitsShown k e ∧ ¬ HaltOf c k e

theorem haltOf_enterKernel (c : Int) (k : Kernel) (e : Event) :
    HaltOf c k.enterKernel e ↔ HaltOf c k e := by
  cases e <;> simp [HaltOf]

/-- The child is there for as long as its caller waits. -/
theorem childAt_run {img : Image} (hshell : ShellStarts img) (tab : TableAddr) {k : Kernel}
    (h : k.Inv) {c owner parent : Int} {frame : Frame} (h3 : 3 ≤ c) (howner : owner ≠ -1)
    (hchild : k.ChildAt c owner parent frame) {mid : List Event}
    (hwaits : Along (step img tab) (Waits img c) k mid) :
    (run (step img tab) k mid).Inv ∧
      (run (step img tab) k mid).ChildAt c owner parent frame := by
  apply invariant_run (I := fun k => k.Inv ∧ k.ChildAt c owner parent frame) _ ⟨h, hchild⟩ hwaits
  intro k e ⟨h, hchild⟩ ⟨hfits, hshown, hother⟩
  have heffect := step_effect hshell tab h hfits hshown
  refine ⟨h.enterKernel.effect heffect, ?_⟩
  have henter : k.enterKernel.ChildAt c owner parent frame :=
    hchild.congr (by rw [enterKernel_processNum]) (by rw [enterKernel_pcb]; exact ⟨rfl, rfl⟩)
  exact henter.effect h3 howner (fun hhalt => hother ((haltOf_enterKernel c k e).mp hhalt)) heffect

/-- **The halt of a child** brings back the process that its PCB and its saved frame agree on. -/
theorem halt_broughtBack {img : Image} (hshell : ShellStarts img) (tab : TableAddr) {k : Kernel}
    (h : k.Inv) {caller owner : Int} {entry : Caller} (h3 : 3 ≤ k.mainProcess)
    (hchild : k.ChildAt k.mainProcess owner caller ⟨caller, entry, .user⟩)
    (status : UInt8) (junk : Nat → UInt8) :
    BroughtBack caller owner (step img tab k (.halt status junk)) := by
  have hshown : RootExitsShown k (.halt status junk) := fun hroot => by omega
  have heffect := step_effect hshell tab h (e := .halt status junk) trivial hshown
  generalize step img tab k (.halt status junk) = k' at heffect
  obtain ⟨hown0, hown3, hcurr, -⟩ := h.running
  have howner : k.runningTerminal = owner := hchild.owner
  rw [howner] at hown0 hown3 hcurr
  cases heffect with
  | halted _ _ _ hh =>
    have hparent : (k.enterKernel.pcb k.enterKernel.mainProcess).parentPcb = caller := by
      rw [enterKernel_pcb, enterKernel_mainProcess, hchild.parentPcb]
    rw [hparent] at hh
    exact
      { mainProcess := hh.mainProcess
        mapped := by rw [hh.paging, mapProgram_pageDir]
        tssEsp0 := hh.tssEsp0
        currTask := by
          rw [hh.currTask, enterKernel_currTask, enterKernel_mainProcess,
            if_pos ⟨hown0, hown3, hcurr⟩]
        cpu := by
          rw [hh.cpu, enterKernel_pcb, enterKernel_mainProcess, hchild.frame] }
  | restarted _ _ hroot =>
    rw [enterKernel_mainProcess] at hroot
    omega

/-- **The recorded parent**: in every run whose commands and programs fit and whose root shells exit
on the displayed terminal, an execute called by a process of the displayed terminal that takes a shared slot
records its caller as the parent, and the child's halt brings the caller back whatever happens in
between, exactly when the displayed terminal owns no slot between the caller's and the child's. -/
theorem parent_is_caller_iff (img : Image) (hshell : ShellStarts img) (tab : TableAddr)
    (junk : Nat → UInt8) (k : Kernel) (pre : List Event) (hfits : ∀ e ∈ pre, e.Fits img)
    (hshown : Along (step img tab) RootExitsShown (boot img tab junk k) pre) (command : CStr)
    (junk' : Nat → UInt8) (hfits' : (Event.execute command junk').Fits img) (c : Int)
    (hexec : ExecutesShown img command junk' c (run (step img tab) (boot img tab junk k) pre)) :
    let s := run (step img tab) (boot img tab junk k) pre
    let s' := step img tab s (.execute command junk')
    ((s'.pcb c).parentPcb = s.mainProcess ∧
        ∀ mid status junk'', Along (step img tab) (Waits img c) s' mid →
          (run (step img tab) s' mid).mainProcess = c →
          BroughtBack s.mainProcess s.activeTerminal
            (step img tab (run (step img tab) s' mid) (.halt status junk''))) ↔
      s.NothingBetween c := by
  intro s s'
  have hs : s.Inv := invariant_run (fun _ _ h hC => inv_step hshell tab h hC.1 hC.2)
    (inv_boot hshell tab junk k) (along_and.mpr ⟨along_of_forall hfits _, hshown⟩)
  have hsteady : s.Steady := invariant_run (fun _ _ h hf => steady_step hshell tab h hf)
    (steady_boot hshell tab junk k) (along_of_forall hfits _)
  obtain ⟨huser, hshown', hprog, hslot, h3⟩ := hexec
  change s.cpu.kont = _ at huser
  change s.processNum s.mainProcess = s.activeTerminal at hshown'
  change s.findSlot 6 0 = some c at hslot
  obtain ⟨prog, hprog⟩ := Option.isSome_iff_exists.mp hprog
  have henter : s.enterKernel = { s with cpu := ⟨s.mainProcess, .user⟩ } := by
    unfold enterKernel
    rw [huser]
    dsimp only
    rw [hsteady.coherent.stack, stackOf_esp0]
  -- the child, as the execute leaves it
  have hslot' : s.enterKernel.findSlot 6 0 = some c := by rw [findSlot_enterKernel, hslot]
  obtain ⟨k', hk', hc⟩ := systemExecute_entered hfits'.1 hprog (hfits'.2 prog hprog) .syscall hslot'
  have hs' : s' = k' := by
    change step img tab s _ = _
    rw [step_of_not_hung hs.1.hung]
    dsimp only
    rw [hk']
    rfl
  rw [← hs'] at hc
  have hroot : s.processNum s.activeTerminal = s.activeTerminal := by
    rcases hs.1.findSlot_cases hslot with ⟨heq, -⟩ | ⟨-, -, -, hroot, -⟩
    · have := hs.1.active
      omega
    · exact hroot
  have hparent : (s'.pcb c).parentPcb = s.mainProcess ↔ s.NothingBetween c := by
    rw [hc.parentPcb, ← parentPid_eq_caller_iff hs hshown' h3 hroot, henter]
    rfl
  refine ⟨fun h => hparent.mp h.1, fun h => ?_⟩
  have hrecorded := hparent.mpr h
  refine ⟨hrecorded, ?_⟩
  intro mid status junk'' hwaits hmain
  have hframe : (s'.pcb c).frame = ⟨s.mainProcess, .syscall, .user⟩ := by
    rw [hc.frame, henter]
  have howner : s'.processNum c = s.activeTerminal := by
    rw [hc.processNum, Function.update_self, enterKernel_activeTerminal]
  have hinv' : s'.Inv := inv_step hshell tab hs hfits' trivial
  obtain ⟨hinv, hchild⟩ := childAt_run hshell tab hinv' h3 (by have := hs.1.active; omega)
    ⟨howner, hrecorded, hframe⟩ hwaits
  apply halt_broughtBack hshell tab hinv (by omega)
  rw [hmain]
  exact hchild

/-- The first shell starts a child. -/
theorem parent_is_caller_iff_sample :
    let s := boot sampleImage sampleTable noJunk (sampleKernel fun _ => 0)
    ((step sampleImage sampleTable s (.execute shell noJunk)).pcb 3).parentPcb = s.mainProcess := by
  have hmain : (boot sampleImage sampleTable noJunk (sampleKernel fun _ => 0)).mainProcess = 0 := by
    decide +kernel
  refine ((parent_is_caller_iff sampleImage shellStarts_sampleImage sampleTable noJunk
    (sampleKernel fun _ => 0) [] (by simp) trivial shell noJunk
    (fits_shell shellStarts_sampleImage noJunk) 3
    ⟨by decide +kernel, by decide +kernel, by decide +kernel, by decide +kernel, by decide⟩).mpr
    ⟨?_, ?_⟩).1
  · rw [run_nil, hmain]
    decide
  · intro j h0 h3
    rw [run_nil] at h0 ⊢
    rw [hmain] at h0
    have hj : j = 1 ∨ j = 2 := by omega
    rcases hj with rfl | rfl <;> decide +kernel

/-- A child in slot 3 starts one in slot 5, because another terminal holds slot 4; slot 4 is released,
and the process in slot 5 starts a child there. Slot 3 is recorded as its parent, and when it halts,
process 3 runs on the kernel stack of process 5. -/
theorem parent_not_caller :
    let s := run (step sampleImage sampleTable)
      (boot sampleImage sampleTable noJunk (sampleKernel fun _ => 0))
      [.execute shell noJunk, .switchTerminal 1 noJunk, .execute shell noJunk,
        .switchTerminal 0 noJunk, .tick, .execute shell noJunk, .switchTerminal 1 noJunk, .tick,
        .halt 0 noJunk, .switchTerminal 0 noJunk, .tick]
    let s' := step sampleImage sampleTable s (.execute shell noJunk)
    let s'' := step sampleImage sampleTable s' (.halt 0 noJunk)
    s.mainProcess = 5 ∧ s.cpu.kont = .user ∧ s.processNum s.mainProcess = s.activeTerminal ∧
      s'.mainProcess = 4 ∧ (s'.pcb 4).parentPcb = 3 ∧
      s''.mainProcess = 3 ∧ s''.currTask 0 = 3 ∧ s''.cpu.stack = 5 := by
  decide +kernel

end Kernel

end SrirachOS
