import SrirachOS.Kernel.Leak
import SrirachOS.Kernel.Slots
import Mathlib

/-!
# The Running Process

Execute, halt and the scheduler each recompute the mapping, the top of the kernel stack and
`main_process` from a slot number that they obtain in their own way. They agree: after every
event the three name one slot, and the PCB of that slot knows its number.

- `Created`, `releaseSlot` and `switchTo` take slot numbers from PCBs; `Grounded` says which PCBs
  can be asked,
- `coherent_run`: the running process is coherent in every state of a run whose commands
  and programs fit,
- `frames_disjoint`, `stacks_disjoint`: the memory of two slots.
-/

namespace SrirachOS

open Foundation

namespace Kernel

/-! ## Which PCBs have been created -/

/-- `made` holds of slots whose PCB has been created; the kernel takes slot numbers from these
PCBs only. -/
structure Grounded (made : Int → Prop) (k : Kernel) : Prop where
  range : ∀ p, made p → 0 ≤ p ∧ p < 6
  pid : ∀ p, made p → (k.pcb p).pid = p
  parent : ∀ p, made p → made (k.pcb p).parentPcb
  frame : ∀ p, made p → ∀ curr parent, (k.pcb p).frame.caller = .halt curr parent →
    made curr ∧ made parent
  used : ∀ p, 0 ≤ p → p < 6 → k.processNum p ≠ -1 → made p
  curr : ∀ t, 0 ≤ t → t < 3 → k.currTask t ≠ -1 → made (k.currTask t)

/-- The mapping, the stack top and the PCB of the running process agree. -/
structure Coherent (k : Kernel) : Prop where
  mapped : k.paging.pageDir 32 = frameAddr k.mainProcess.toNat + 0x87
  stack : k.tssEsp0 = esp0 k.mainProcess
  pid : (k.pcb k.mainProcess).pid = k.mainProcess

theorem Grounded.congr {made : Int → Prop} {k k' : Kernel} (h : k.Grounded made)
    (hnum : k'.processNum = k.processNum) (htask : k'.currTask = k.currTask)
    (hpcb : ∀ p, (k'.pcb p).pid = (k.pcb p).pid ∧ (k'.pcb p).parentPcb = (k.pcb p).parentPcb ∧
      (k'.pcb p).frame = (k.pcb p).frame) : k'.Grounded made where
  range := h.range
  pid p hp := (hpcb p).1.trans (h.pid p hp)
  parent p hp := by rw [(hpcb p).2.1]; exact h.parent p hp
  frame p hp := by rw [(hpcb p).2.2]; exact h.frame p hp
  used p h0 h6 := by rw [hnum]; exact h.used p h0 h6
  curr t h0 h3 := by rw [htask]; exact h.curr t h0 h3

theorem mapProgram_pageDir (pid : Nat) (pg : Paging) :
    (mapProgram pid pg).pageDir 32 = frameAddr pid + 0x87 := by
  simp [mapProgram, mapPage, frameAddr_or_flags]

/-- A new process is coherent. -/
theorem Created.coherent {caller : Caller} {i : Int} {k k' : Kernel} (hc : Created caller i k k') :
    k'.Coherent where
  mapped := by rw [hc.paging, hc.mainProcess, mapProgram_pageDir]
  stack := by rw [hc.tssEsp0, hc.mainProcess]
  pid := by rw [hc.mainProcess, hc.pid]

/-- Creation adds a PCB. -/
theorem Grounded.created {made : Int → Prop} {k k' : Kernel} (h : k.Grounded made)
    (ha0 : 0 ≤ k.activeTerminal) (ha3 : k.activeTerminal < 3) {caller : Caller} {i : Int}
    (h0 : 0 ≤ i) (h6 : i < 6)
    (hroot : 3 ≤ i → k.processNum k.activeTerminal = k.activeTerminal)
    (hcaller : ∀ curr parent, caller = .halt curr parent → made curr ∧ made parent)
    (hc : Created caller i k k') : k'.Grounded fun p => p = i ∨ made p where
  range p hp := by
    rcases hp with rfl | hp
    · exact ⟨h0, h6⟩
    · exact h.range p hp
  pid p hp := by
    rcases eq_or_ne p i with rfl | hne
    · exact hc.pid
    · rw [hc.pcb_of_ne p hne]
      exact h.pid p (hp.resolve_left hne)
  parent p hp := by
    rcases eq_or_ne p i with rfl | hne
    · rw [hc.parentPcb]
      by_cases h3 : p < 3
      · rw [parentPid, if_pos h3]
        exact .inl rfl
      · obtain ⟨hr0, hri, hrown, -⟩ := parentPid_shared (i := p) ha0 ha3 (by omega) (hroot (by omega))
        refine .inr (h.used ((k.markSlot p).parentPid p) hr0 (by omega) ?_)
        rw [hrown]
        omega
    · rw [hc.pcb_of_ne p hne]
      exact .inr (h.parent p (hp.resolve_left hne))
  frame p hp curr parent hframe := by
    rcases eq_or_ne p i with rfl | hne
    · rw [hc.frame] at hframe
      exact (hcaller curr parent hframe).imp .inr .inr
    · rw [hc.pcb_of_ne p hne] at hframe
      exact (h.frame p (hp.resolve_left hne) curr parent hframe).imp .inr .inr
  used p hp0 hp6 hp := by
    rw [hc.processNum, Function.update_apply] at hp
    split at hp
    · rename_i heq
      exact .inl heq
    · exact .inr (h.used p hp0 hp6 hp)
  curr t ht0 ht3 ht := by
    rw [hc.currTask, Function.update_apply] at ht ⊢
    split
    · exact .inl rfl
    · rename_i hne
      rw [if_neg hne] at ht
      exact .inr (h.curr t ht0 ht3 ht)

/-- Releasing the slot of a created process takes no other slot number than its parent's. -/
theorem Grounded.releaseSlot {made : Int → Prop} {k : Kernel} (h : k.Grounded made)
    (hmain : made k.mainProcess) (status : UInt8) : (k.releaseSlot status).Grounded made := by
  -- a release changes the contexts of the parent and two tables, no pid, parent or frame
  have hpcb := releaseSlot_pcb status k
  have hpid := h.pid _ hmain
  have hparent := h.parent _ hmain
  exact
    { range := h.range
      pid := fun p hp => (hpcb p).1.trans (h.pid p hp)
      parent := fun p hp => by rw [(hpcb p).2.1]; exact h.parent p hp
      frame := fun p hp => by rw [(hpcb p).2.2.1]; exact h.frame p hp
      used := fun p h0 h6 hp => by
        have hnum : (k.releaseSlot status).processNum p =
            if p = (k.pcb k.mainProcess).pid then -1 else k.processNum p :=
          Function.update_apply ..
        rw [hnum] at hp
        split at hp
        · exact absurd rfl hp
        · exact h.used p h0 h6 hp
      curr := fun t h0 h3 ht => by
        rw [releaseSlot_currTask status hpid (h.pid _ hparent)] at ht ⊢
        split
        · exact hparent
        · rename_i hne
          rw [if_neg hne] at ht
          exact h.curr t h0 h3 ht }

/-- Halt makes the parent the running process. -/
theorem Grounded.remapParent {made : Int → Prop} {k : Kernel} (h : k.Grounded made) {parent : Int}
    (hparent : made parent) :
    (k.remapParent parent).Grounded made ∧ (k.remapParent parent).Coherent ∧
      (k.remapParent parent).mainProcess = parent := by
  have hpid := h.pid parent hparent
  have hmain : (k.remapParent parent).mainProcess = parent := hpid
  refine ⟨h.congr rfl rfl fun p => ⟨rfl, rfl, rfl⟩, ⟨?_, ?_, ?_⟩, hmain⟩
  · rw [hmain]
    have hpaging : (k.remapParent parent).paging = mapProgram (k.pcb parent).pid.toNat k.paging := rfl
    rw [hpaging, mapProgram_pageDir, hpid]
  · rw [hmain]
    exact congrArg esp0 hpid
  · rw [hmain]
    exact hpid

/-- Returning from execute, through whatever halts called it, ends in a coherent state. -/
theorem Grounded.returnFromExecute {made : Int → Prop} (turns : Nat) {k : Kernel} {frame : Frame}
    (h : k.Grounded made) (hk : k.Coherent) (hmain : made k.mainProcess)
    (hframe : ∀ curr parent, frame.caller = .halt curr parent → made curr ∧ made parent) :
    (returnFromExecute turns frame k).Grounded made ∧ (returnFromExecute turns frame k).Coherent ∧
      made (returnFromExecute turns frame k).mainProcess := by
  induction turns generalizing k frame with
  | zero => exact ⟨h.congr rfl rfl fun p => ⟨rfl, rfl, rfl⟩, ⟨hk.mapped, hk.stack, hk.pid⟩, hmain⟩
  | succ turns ih =>
    rw [Kernel.returnFromExecute]
    cases hcaller : frame.caller with
    | halt curr parent =>
      obtain ⟨hcurr, hparent⟩ := hframe curr parent hcaller
      obtain ⟨h', hk', hmain'⟩ := h.remapParent hparent
      exact ih h' hk' (by rw [hmain']; exact hparent) (h'.frame curr hcurr)
    | syscall =>
      exact ⟨h.congr rfl rfl fun p => ⟨rfl, rfl, rfl⟩, ⟨hk.mapped, hk.stack, hk.pid⟩, hmain⟩
    | switchTerminal =>
      exact ⟨h.congr rfl rfl fun p => ⟨rfl, rfl, rfl⟩, ⟨hk.mapped, hk.stack, hk.pid⟩, hmain⟩
    | boot =>
      exact ⟨h.congr rfl rfl fun p => ⟨rfl, rfl, rfl⟩, ⟨hk.mapped, hk.stack, hk.pid⟩, hmain⟩

/-! ## Steps -/

/-- What a run keeps: the reservations, and a coherent process whose PCB has been created. -/
structure Steady (k : Kernel) : Prop where
  slots : k.SlotTable
  coherent : k.Coherent
  grounded : ∃ made, k.Grounded made ∧ made k.mainProcess

/-- Creation, by an execute that whoever holds created PCBs has called. -/
theorem Grounded.steady {made : Int → Prop} {k k' : Kernel} (h : k.Grounded made)
    (hslots : k.SlotTable) {caller : Caller} {i : Int} (hslot : k.findSlot 6 0 = some i)
    (hcaller : ∀ curr parent, caller = .halt curr parent → made curr ∧ made parent)
    (hc : Created caller i k k') : k'.Steady where
  slots := by
    obtain ⟨hfree, h0, -, -⟩ := findSlot_eq_some hslot
    exact hslots.marked hfree hc.processNum (.inr hc.currTask) h0 hc.activeTerminal
  coherent := hc.coherent
  grounded := by
    obtain ⟨-, h0, h6, -⟩ := findSlot_eq_some hslot
    exact ⟨_, h.created hslots.active.1 hslots.active.2 h0 (by omega)
      (fun h3 => (hslots.sharedSlotHasParent i hslot h3).1) hcaller hc, .inl hc.mainProcess⟩

theorem Steady.congr {k k' : Kernel} (h : k.Steady) (hnum : k'.processNum = k.processNum)
    (htask : k'.currTask = k.currTask) (hactive : k'.activeTerminal = k.activeTerminal)
    (hmain : k'.mainProcess = k.mainProcess)
    (hdir : k'.paging.pageDir 32 = k.paging.pageDir 32) (htss : k'.tssEsp0 = k.tssEsp0)
    (hpcb : ∀ p, (k'.pcb p).pid = (k.pcb p).pid ∧ (k'.pcb p).parentPcb = (k.pcb p).parentPcb ∧
      (k'.pcb p).frame = (k.pcb p).frame) : k'.Steady where
  slots := h.slots.congr hnum htask hactive
  coherent :=
    { mapped := by rw [hdir, hmain]; exact h.coherent.mapped
      stack := by rw [htss, hmain]; exact h.coherent.stack
      pid := by rw [hmain, (hpcb _).1]; exact h.coherent.pid }
  grounded := by
    obtain ⟨made, hg, hmade⟩ := h.grounded
    exact ⟨made, hg.congr hnum htask hpcb, by rw [hmain]; exact hmade⟩

/-- The tail of a halt, from a state in which nothing but the running process is to be set. -/
theorem Grounded.haltTail {made : Int → Prop} {k : Kernel} (h : k.Grounded made)
    (hslots : k.SlotTable) {curr parent : Int} (hcurr : made curr) (hparent : made parent) :
    (k.haltTail curr parent).Steady := by
  obtain ⟨h', hk', hmain'⟩ := h.remapParent hparent
  obtain ⟨hg, hc, hm⟩ := h'.returnFromExecute 4 hk' (by rw [hmain']; exact hparent)
    (h'.frame curr hcurr)
  exact ⟨hslots.haltTail curr parent, hc, made, hg, hm⟩

theorem Steady.systemHalt {k : Kernel} (h : k.Steady) {img : Image} (hshell : ShellStarts img)
    (status : UInt8) (junk : Nat → UInt8) : (k.systemHalt img status junk).Steady := by
  obtain ⟨hslots, -, made, hg, hmain⟩ := h
  have hparent := hg.parent _ hmain
  have hrel := hg.releaseSlot hmain status
  have hslots' := hslots.releaseSlot status
  unfold Kernel.systemHalt
  dsimp only
  generalize k.releaseSlot status = k₁ at hrel hslots' ⊢
  split
  · -- a root shell: execute fails, or creates the next shell, or faults in the copy
    rcases systemExecute_cases commandFits_shell img junk
        (.halt k.mainProcess (k.pcb k.mainProcess).parentPcb) k₁ with
      ⟨ret, heq⟩ | ⟨i, k', heq, hslot, hc⟩ | ⟨prog, -, -, hprog, hlen, -⟩
    · rw [heq]
      generalize (parseCommand shell).2 = text
      have hg' : ({ k₁ with argBuf := text } : Kernel).Grounded made :=
        hrel.congr rfl rfl fun p => ⟨rfl, rfl, rfl⟩
      exact hg'.haltTail (hslots'.congr rfl rfl rfl) hmain hparent
    · rw [heq]
      refine hrel.steady hslots' hslot (fun curr parent hcaller => ?_) hc
      cases hcaller
      exact ⟨hmain, hparent⟩
    · -- the shell fits in its page, so the copy of it does not fault
      obtain ⟨prog', hprog', hlen'⟩ := hshell junk
      obtain rfl := Option.some.inj (hprog.symm.trans hprog')
      omega
  · exact hrel.haltTail hslots' hmain hparent

theorem Steady.systemExecute {k : Kernel} (h : k.Steady) {img : Image} {command : CStr}
    {junk : Nat → UInt8} (hfits : (Event.execute command junk).Fits img) :
    (settle img junk (Kernel.systemExecute img command junk .syscall k)).Steady := by
  rcases systemExecute_cases hfits.1 img junk .syscall k with
    ⟨ret, heq⟩ | ⟨i, k', heq, hslot, hc⟩ | ⟨prog, -, -, hprog, hlen, -⟩
  · rw [heq]
    exact h.congr rfl rfl rfl rfl rfl rfl fun p => ⟨rfl, rfl, rfl⟩
  · rw [heq]
    obtain ⟨made, hg, -⟩ := h.grounded
    exact hg.steady h.slots hslot (fun _ _ hcaller => by cases hcaller) hc
  · exact absurd (hfits.2 prog hprog) (by omega)

theorem Steady.switchTerminal {k : Kernel} (h : k.Steady) {img : Image} (hshell : ShellStarts img)
    {t : Int} (h0 : 0 ≤ t) (h3 : t < 3) (junk : Nat → UInt8) :
    (k.switchTerminal img t junk).Steady := by
  have hslots := h.slots.switchTerminal hshell h0 h3 junk
  obtain ⟨made, hg, hmain⟩ := h.grounded
  rcases switchTerminal_cases hshell h0 h3 (h.slots.unstarted t h0 h3) junk with
    ⟨-, heq⟩ | ⟨-, -, heq⟩ | ⟨-, -, hc⟩
  · rw [heq]
    exact h
  · rw [heq] at hslots ⊢
    exact ⟨hslots, ⟨h.coherent.mapped, h.coherent.stack, h.coherent.pid⟩, made,
      hg.congr rfl rfl fun p => ⟨rfl, rfl, rfl⟩, hmain⟩
  · have hsaved : ({ k with activeTerminal := t }.saveMain).Grounded made :=
      hg.congr rfl rfl (saveMain_pcb { k with activeTerminal := t })
    exact ⟨hslots, hc.coherent, _, hsaved.created h0 h3 h0 (by omega)
      (fun ht3 => absurd h3 (by omega)) (fun _ _ hcaller => by cases hcaller) hc,
      .inl hc.mainProcess⟩

theorem Steady.schedulerHandler {k : Kernel} (h : k.Steady) : k.schedulerHandler.Steady := by
  rcases schedulerHandler_cases k with ⟨-, heq⟩ | ⟨t, h0, h3, -, hne, hlive, heq⟩ <;> rw [heq]
  · exact h
  -- the process switched to has been created, so its PCB holds its own number
  obtain ⟨made, hg, -⟩ := h.grounded
  have hmade := hg.curr t h0 h3 hlive
  have hr := switchTo_resumed hne (hg.pid _ hmade)
  have hpcb : ∀ p, ((k.switchTo (k.currTask t)).pcb p).pid = (k.pcb p).pid ∧
      ((k.switchTo (k.currTask t)).pcb p).parentPcb = (k.pcb p).parentPcb ∧
      ((k.switchTo (k.currTask t)).pcb p).frame = (k.pcb p).frame := fun p => by
    rcases eq_or_ne p k.mainProcess with rfl | hp
    · rw [hr.pcb_saved]
      exact ⟨rfl, rfl, rfl⟩
    · rw [hr.pcb_of_ne p hp]
      exact ⟨rfl, rfl, rfl⟩
  exact
    { slots := h.slots.congr hr.processNum hr.currTask hr.activeTerminal
      coherent :=
        { mapped := by
            rw [hr.paging, hr.mainProcess]
            exact mapProgram_pageDir _ k.paging
          stack := by rw [hr.tssEsp0, hr.mainProcess]
          pid := by rw [hr.mainProcess, (hpcb _).1, hg.pid _ hmade] }
      grounded := ⟨made, hg.congr hr.processNum hr.currTask hpcb, by rw [hr.mainProcess]; exact hmade⟩ }

/-- **Every event keeps the running process coherent**, as long as commands and programs fit. -/
theorem steady_step {img : Image} (hshell : ShellStarts img) (tab : TableAddr) {k : Kernel}
    {e : Event} (h : k.Steady) (hfits : e.Fits img) : (step img tab k e).Steady := by
  by_cases hhung : k.hung = true
  · rw [step, if_pos hhung]
    exact h
  have hk : k.enterKernel.Steady := by
    unfold enterKernel
    split
    · exact h.congr rfl rfl rfl rfl rfl rfl fun p => ⟨rfl, rfl, rfl⟩
    · exact h
  rw [step_of_not_hung (by simpa using hhung)]
  cases e with
  | execute command junk => exact hk.systemExecute hfits
  | halt status junk => exact hk.systemHalt hshell status junk
  | switchTerminal terminal junk => exact hk.switchTerminal hshell (by omega) (by omega) junk
  | tick => exact hk.schedulerHandler
  | vidmap =>
    have hdir : (getVidmapPage tab k.enterKernel.paging).pageDir 32 =
        k.enterKernel.paging.pageDir 32 := by simp [getVidmapPage]
    exact hk.congr rfl rfl rfl rfl hdir rfl fun p => ⟨rfl, rfl, rfl⟩

theorem steady_boot {img : Image} (hshell : ShellStarts img) (tab : TableAddr) (junk : Nat → UInt8)
    (k : Kernel) : (boot img tab junk k).Steady := by
  have hc := boot_created hshell tab junk k
  have hnone : (k.init tab).Grounded fun _ => False :=
    { range := fun _ hp => hp.elim
      pid := fun _ hp => hp.elim
      parent := fun _ hp => hp.elim
      frame := fun _ hp => hp.elim
      used := fun _ _ _ hp => hp rfl
      curr := fun _ _ _ ht => ht rfl }
  exact ⟨slotTable_boot hshell tab junk k, hc.coherent, _,
    hnone.created (le_refl 0) (show (0 : Int) < 3 by decide) (le_refl 0) (by decide)
      (fun h3 => absurd h3 (by decide)) (fun _ _ hcaller => by cases hcaller) hc,
    .inl hc.mainProcess⟩

/-! ## The memory of two slots -/

/-- The 4 MB frame of a slot. -/
def frameOf (p : Int) : Set Nat := Set.Ico (frameAddr p.toNat) (frameAddr p.toNat + 0x400000)

/-- The 32 KB above the PCB of a slot: the PCB and the kernel stack. -/
def stackRegion (p : Int) : Set Int := Set.Ico (0x800000 - (1 + p) * 0x8000) (0x800000 - p * 0x8000)

/-- The kernel's 4 MB page. -/
def kernelPage : Set Nat := Set.Ico 0x400000 0x800000

theorem frames_disjoint {p q : Int} (hp : 0 ≤ p) (hq : 0 ≤ q) (hne : p ≠ q) :
    Disjoint (frameOf p) (frameOf q) := by
  unfold frameOf frameAddr
  rw [Set.Ico_disjoint_Ico]
  omega

theorem stacks_disjoint {p q : Int} (hne : p ≠ q) : Disjoint (stackRegion p) (stackRegion q) := by
  unfold stackRegion
  rw [Set.Ico_disjoint_Ico]
  omega

theorem frame_disjoint_kernelPage (p : Int) : Disjoint (frameOf p) kernelPage := by
  unfold frameOf frameAddr kernelPage
  rw [Set.Ico_disjoint_Ico]
  omega

/-! ## Runs -/

/-- **The running process**: in every state of a run whose commands and programs fit, the mapping,
the stack top and the PCB name the running process, and two slots in use share no memory, neither with
each other nor with the kernel's page. -/
theorem coherent_run (img : Image) (hshell : ShellStarts img) (tab : TableAddr)
    (junk : Nat → UInt8) (k : Kernel) (es : List Event) (hfits : ∀ e ∈ es, e.Fits img) :
    let s := run (step img tab) (boot img tab junk k) es
    ((s.paging.pageDir 32 : Int) = 0x800000 + 0x1000000 * s.mainProcess + 0x87 ∧
      s.tssEsp0 = 0x800000 - 0x8000 * s.mainProcess - 4 ∧
      (s.pcb s.mainProcess).pid = s.mainProcess) ∧
    ∀ p q, 0 ≤ p → p < 6 → 0 ≤ q → q < 6 → s.processNum p ≠ -1 → s.processNum q ≠ -1 → p ≠ q →
      Disjoint (frameOf p) (frameOf q) ∧ Disjoint (stackRegion p) (stackRegion q) ∧
        Disjoint (frameOf p) kernelPage := by
  intro s
  have hs : s.Steady := invariant_run (fun _ _ h hf => steady_step hshell tab h hf)
    (steady_boot hshell tab junk k) (along_of_forall hfits _)
  obtain ⟨made, hg, hmain⟩ := hs.grounded
  have h0 := (hg.range _ hmain).1
  refine ⟨⟨?_, hs.coherent.stack, hs.coherent.pid⟩, fun p q hp _ hq _ _ _ hne =>
    ⟨frames_disjoint hp hq hne, stacks_disjoint hne, frame_disjoint_kernelPage p⟩⟩
  rw [hs.coherent.mapped, frameAddr]
  omega

/-- A child is started, the second terminal is started, the child runs again and halts. -/
theorem coherent_run_sample :
    let s := run (step sampleImage sampleTable)
      (boot sampleImage sampleTable noJunk (sampleKernel fun _ => 0))
      [.execute shell noJunk, .switchTerminal 1 noJunk, .tick, .halt 0 noJunk]
    (s.pcb s.mainProcess).pid = s.mainProcess :=
  (coherent_run sampleImage shellStarts_sampleImage sampleTable noJunk (sampleKernel fun _ => 0)
    [.execute shell noJunk, .switchTerminal 1 noJunk, .tick, .halt 0 noJunk]
    (by
      intro e he
      simp only [List.mem_cons, List.not_mem_nil, or_false] at he
      rcases he with rfl | rfl | rfl | rfl
      · exact fits_shell shellStarts_sampleImage noJunk
      all_goals trivial)).1.2.2

/-- With a program that does not fit, the running process becomes the number in a PCB that was
never created. -/
theorem coherent_run_leaks :
    let s := run (step bigImage sampleTable)
      (boot bigImage sampleTable noJunk (sampleKernel fun p => if p = 3 then 9 else 0))
      [.execute bigCommand noJunk, .execute shell noJunk, .halt 0 noJunk]
    s.mainProcess = 9 ∧ (s.pcb s.mainProcess).pid ≠ s.mainProcess := by
  have hinv := inv_boot shellStarts_bigImage sampleTable noJunk
    (sampleKernel fun p => if p = 3 then 9 else 0)
  obtain ⟨prog, hprog, hlen⟩ := findProgram_bigImage noJunk
  obtain ⟨hmain, -, -, -, hpid, -, -⟩ := leaked_slot shellStarts_bigImage sampleTable hinv
    (by decide +kernel) (by decide +kernel) (by decide +kernel) (by decide) hprog hlen 0
  have hstale : ((boot bigImage sampleTable noJunk
      (sampleKernel fun p => if p = 3 then 9 else 0)).pcb 3).pid = 9 := by decide +kernel
  rw [hstale] at hmain
  refine ⟨hmain, ?_⟩
  rw [hmain, hpid 9 (by decide)]
  decide +kernel

end Kernel

end SrirachOS
