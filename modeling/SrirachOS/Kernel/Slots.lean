import SrirachOS.Kernel.Invariant

/-!
# Slot Reservation

What holds of the slots in every run whose commands fit, also after a background root shell has exited
and after the copy of a program has faulted: the first three slots are reserved, each for its terminal,
and a terminal that has no task has its slot free.

- `SlotTable`: the invariant,
- `slots_reserved`: what execute and the terminal switch rely on follows,
- `slot_not_reserved`: an argument text that runs over `active_terminal` gives a slot to no terminal.
-/

namespace SrirachOS

open Foundation

namespace Kernel

/-! ## The invariant -/

/-- The owners of the slots, and the terminals that have been started. -/
structure SlotTable (k : Kernel) : Prop where
  active : 0 ≤ k.activeTerminal ∧ k.activeTerminal < 3
  root : ∀ t, 0 ≤ t → t < 3 → k.processNum t = -1 ∨ k.processNum t = t
  shared : ∀ p, 3 ≤ p → p < 6 →
    k.processNum p = -1 ∨ (0 ≤ k.processNum p ∧ k.processNum p < 3)
  /-- a terminal without a task has its own slot free -/
  unstarted : ∀ t, 0 ≤ t → t < 3 → k.currTask t = -1 → k.processNum t = -1
  /-- the displayed terminal has a task -/
  shown : k.currTask k.activeTerminal ≠ -1

/-- The invariant reads three variables. -/
theorem SlotTable.congr {k k' : Kernel} (h : k.SlotTable) (hnum : k'.processNum = k.processNum)
    (htask : k'.currTask = k.currTask) (hactive : k'.activeTerminal = k.activeTerminal) :
    k'.SlotTable where
  active := by rw [hactive]; exact h.active
  root t h0 h3 := by rw [hnum]; exact h.root t h0 h3
  shared p h3 h6 := by rw [hnum]; exact h.shared p h3 h6
  unstarted t h0 h3 := by rw [hnum, htask]; exact h.unstarted t h0 h3
  shown := by rw [htask, hactive]; exact h.shown

/-- Marking the slot that execute has found keeps the reservations. -/
theorem SlotTable.marked {k k' : Kernel} (h : k.SlotTable) {i : Int} (hfree : k.slotFree i)
    (hnum : k'.processNum = Function.update k.processNum i k.activeTerminal)
    (htask : k'.currTask = k.currTask ∨
      k'.currTask = Function.update k.currTask k.activeTerminal i) (h0 : 0 ≤ i)
    (hactive : k'.activeTerminal = k.activeTerminal) : k'.SlotTable := by
  obtain ⟨ha0, ha3⟩ := h.active
  have hown : ∀ p, k'.processNum p = if p = i then k.activeTerminal else k.processNum p :=
    fun p => by rw [hnum, Function.update_apply]
  -- a terminal that has no task now had none before, and is not the displayed one
  have hcurr : ∀ t, k'.currTask t = -1 → t ≠ k.activeTerminal ∧ k.currTask t = -1 := fun t ht => by
    rcases htask with htask | htask <;> rw [htask] at ht
    · exact ⟨fun heq => h.shown (by rw [← heq]; exact ht), ht⟩
    · rw [Function.update_apply] at ht
      split at ht
      · omega
      · rename_i hne
        exact ⟨hne, ht⟩
  exact
    { active := by rw [hactive]; exact h.active
      root := fun t ht0 ht3 => by
        rw [hown]
        split
        · rename_i heq
          rcases hfree.2 with ⟨-, hslot⟩ | ⟨hslot, -⟩
          · right; omega
          · omega
        · exact h.root t ht0 ht3
      shared := fun p hp3 hp6 => by
        rw [hown]
        split
        · exact .inr ⟨ha0, ha3⟩
        · exact h.shared p hp3 hp6
      unstarted := fun t ht0 ht3 ht => by
        obtain ⟨hne, hnone⟩ := hcurr t ht
        rw [hown, if_neg ?_]
        · exact h.unstarted t ht0 ht3 hnone
        · rcases hfree.2 with ⟨-, hslot⟩ | ⟨hslot, -⟩ <;> omega
      shown := fun hnone => (hcurr _ hnone).1 hactive }

/-- Releasing a slot keeps the reservations: no task becomes -1. -/
theorem SlotTable.releaseSlot {k : Kernel} (h : k.SlotTable) (status : UInt8) :
    (k.releaseSlot status).SlotTable := by
  have hnum : ∀ p, (k.releaseSlot status).processNum p =
      if p = (k.pcb k.mainProcess).pid then -1 else k.processNum p := fun p =>
    Function.update_apply ..
  have hcurr : ∀ t, (k.releaseSlot status).currTask t = -1 → k.currTask t = -1 := fun t ht => by
    -- the released task is replaced by the pid of its parent, which is never -1
    have heq : (k.releaseSlot status).currTask t =
        if 0 ≤ t ∧ t < 3 ∧ k.currTask t = (k.pcb k.mainProcess).pid then
          ((k.releaseSlot status).pcb (k.pcb k.mainProcess).parentPcb).pid
        else k.currTask t := rfl
    rw [heq] at ht
    split at ht
    · have := Pcb.pid_nonneg ((k.releaseSlot status).pcb (k.pcb k.mainProcess).parentPcb)
      omega
    · exact ht
  exact
    { active := h.active
      root := fun t h0 h3 => by
        rw [hnum]
        split
        · exact .inl rfl
        · exact h.root t h0 h3
      shared := fun p h3 h6 => by
        rw [hnum]
        split
        · exact .inl rfl
        · exact h.shared p h3 h6
      unstarted := fun t h0 h3 ht => by
        rw [hnum]
        split
        · rfl
        · exact h.unstarted t h0 h3 (hcurr t ht)
      shown := fun ht => h.shown (hcurr _ ht) }

/-! ## Steps -/

theorem returnFromExecute_activeTerminal (turns : Nat) (frame : Frame) (k : Kernel) :
    (returnFromExecute turns frame k).activeTerminal = k.activeTerminal := by
  induction turns generalizing frame k with
  | zero => rfl
  | succ turns ih =>
    rw [returnFromExecute]
    split
    · exact ih _ _
    · rfl

theorem SlotTable.haltTail {k : Kernel} (h : k.SlotTable) (curr parent : Int) :
    (k.haltTail curr parent).SlotTable := by
  obtain ⟨hnum, htask⟩ := returnFromExecute_tables 4 ((k.remapParent parent).pcb curr).frame
    (k.remapParent parent)
  exact h.congr hnum htask (returnFromExecute_activeTerminal ..)

/-- A kernel that execute leaves behind, however it ended. -/
theorem SlotTable.systemExecute {k : Kernel} (h : k.SlotTable) {command : CStr}
    (hcommand : CommandFits command) (img : Image) (junk : Nat → UInt8) (caller : Caller) :
    (∃ ret k', Kernel.systemExecute img command junk caller k = .returned ret k' ∧ k'.SlotTable) ∨
    (∃ k', Kernel.systemExecute img command junk caller k = .entered k' ∧ k'.SlotTable) ∨
    (∃ k', Kernel.systemExecute img command junk caller k = .faulted k' ∧ k'.SlotTable) := by
  rcases systemExecute_cases hcommand img junk caller k with
    ⟨ret, heq⟩ | ⟨i, k', heq, hslot, hc⟩ | ⟨-, i, mem, -, -, hslot, heq⟩
  · exact .inl ⟨ret, _, heq, h.congr rfl rfl rfl⟩
  · obtain ⟨hfree, h0, -, -⟩ := findSlot_eq_some hslot
    exact .inr (.inl ⟨k', heq, h.marked hfree hc.processNum (.inr hc.currTask) h0 hc.activeTerminal⟩)
  · obtain ⟨hfree, h0, -, -⟩ := findSlot_eq_some hslot
    exact .inr (.inr ⟨_, heq, h.marked hfree rfl (.inl rfl) h0 rfl⟩)

theorem SlotTable.systemHalt {k : Kernel} (h : k.SlotTable) (img : Image) (status : UInt8)
    (junk : Nat → UInt8) : (k.systemHalt img status junk).SlotTable := by
  have hrel := h.releaseSlot status
  unfold Kernel.systemHalt
  dsimp only
  split
  · rcases hrel.systemExecute commandFits_shell img junk
        (.halt k.mainProcess (k.pcb k.mainProcess).parentPcb) with
      ⟨ret, k', heq, hk'⟩ | ⟨k', heq, hk'⟩ | ⟨k', heq, hk'⟩ <;> rw [heq]
    · exact hk'.haltTail _ _
    · exact hk'
    · exact hk'.congr rfl rfl rfl
  · exact hrel.haltTail _ _

theorem SlotTable.settle {k : Kernel} (h : k.SlotTable) {command : CStr}
    (hcommand : CommandFits command) (img : Image) (junk : Nat → UInt8) (caller : Caller) :
    (settle img junk (Kernel.systemExecute img command junk caller k)).SlotTable := by
  rcases h.systemExecute hcommand img junk caller with
    ⟨ret, k', heq, hk'⟩ | ⟨k', heq, hk'⟩ | ⟨k', heq, hk'⟩ <;> rw [heq]
  · exact hk'
  · exact hk'
  · exact hk'.systemHalt img 255 junk

/-- The first shell of a terminal gets the terminal's own slot, however many shared slots are
taken. -/
theorem SlotTable.first_shell {k : Kernel} (h : k.SlotTable) {img : Image}
    (hshell : ShellStarts img) {t : Int} (h0 : 0 ≤ t) (h3 : t < 3) (hnone : k.currTask t = -1)
    (junk : Nat → UInt8) :
    Created .switchTerminal t { k with activeTerminal := t }.saveMain
      (k.switchTerminal img t junk) := by
  rcases switchTerminal_cases hshell h0 h3 (h.unstarted t h0 h3) junk with
    ⟨hsame, -⟩ | ⟨-, hlive, -⟩ | ⟨-, -, hc⟩
  · exact absurd hnone (hsame ▸ h.shown)
  · exact absurd hnone hlive
  · exact hc

theorem SlotTable.switchTerminal {k : Kernel} (h : k.SlotTable) {img : Image}
    (hshell : ShellStarts img) {t : Int} (h0 : 0 ≤ t) (h3 : t < 3) (junk : Nat → UInt8) :
    (k.switchTerminal img t junk).SlotTable := by
  rcases switchTerminal_cases hshell h0 h3 (h.unstarted t h0 h3) junk with
    ⟨-, heq⟩ | ⟨-, hlive, heq⟩ | ⟨-, hnone, hc⟩
  · rw [heq]
    exact h
  · rw [heq]
    exact
      { active := ⟨h0, h3⟩
        root := h.root
        shared := h.shared
        unstarted := h.unstarted
        shown := hlive }
  · have hown : ∀ p, (k.switchTerminal img t junk).processNum p =
        if p = t then t else k.processNum p := fun p => by
      rw [hc.processNum]
      exact Function.update_apply ..
    have hcurr : ∀ u, (k.switchTerminal img t junk).currTask u =
        if u = t then t else k.currTask u := fun u => by
      rw [hc.currTask]
      exact Function.update_apply ..
    have hactive : (k.switchTerminal img t junk).activeTerminal = t := hc.activeTerminal
    exact
      { active := by rw [hactive]; exact ⟨h0, h3⟩
        root := fun u hu0 hu3 => by
          rw [hown]
          split
          · rename_i heq
            exact .inr heq.symm
          · exact h.root u hu0 hu3
        shared := fun p hp3 hp6 => by
          rw [hown, if_neg (by omega)]
          exact h.shared p hp3 hp6
        unstarted := fun u hu0 hu3 => by
          rw [hown, hcurr]
          split
          · omega
          · exact h.unstarted u hu0 hu3
        shown := by
          rw [hactive, hcurr, if_pos rfl]
          omega }

theorem SlotTable.schedulerHandler {k : Kernel} (h : k.SlotTable) : k.schedulerHandler.SlotTable := by
  rcases schedulerHandler_cases k with ⟨-, heq⟩ | ⟨t, -, -, -, -, -, heq⟩ <;> rw [heq]
  · exact h
  · exact h.congr rfl rfl rfl

/-- **Every event keeps the reservations**, as long as commands fit. -/
theorem slotTable_step {img : Image} (hshell : ShellStarts img) (tab : TableAddr) {k : Kernel}
    {e : Event} (h : k.SlotTable) (hcommand : e.CommandFits) : (step img tab k e).SlotTable := by
  by_cases hhung : k.hung = true
  · rw [step, if_pos hhung]
    exact h
  have hk : k.enterKernel.SlotTable :=
    h.congr (enterKernel_processNum k) (enterKernel_currTask k) (enterKernel_activeTerminal k)
  rw [step_of_not_hung (by simpa using hhung)]
  cases e with
  | execute command junk => exact hk.settle hcommand img junk .syscall
  | halt status junk => exact hk.systemHalt img status junk
  | switchTerminal terminal junk =>
    exact hk.switchTerminal hshell (by omega) (by omega) junk
  | tick => exact hk.schedulerHandler
  | vidmap => exact hk.congr rfl rfl rfl

theorem slotTable_boot {img : Image} (hshell : ShellStarts img) (tab : TableAddr)
    (junk : Nat → UInt8) (k : Kernel) : (boot img tab junk k).SlotTable := by
  have hc := boot_created hshell tab junk k
  have h := (inv_boot hshell tab junk k).1
  exact
    { active := h.active
      root := h.root
      shared := fun p h3 h6 => by
        by_cases hp : (boot img tab junk k).processNum p = -1
        · exact .inl hp
        · exact .inr ⟨(h.shared p h3 h6 hp).1, (h.shared p h3 h6 hp).2.1⟩
      unstarted := fun t h0 h3 => (h.started t h0 h3).mp
      shown := by
        rw [hc.currTask, hc.activeTerminal, Function.update_self]
        decide }

/-! ## Reservation -/

/-- What an execute relies on: it takes a shared slot only while the displayed terminal's own
slot is occupied, and then it finds a parent. -/
def SharedSlotHasParent (k : Kernel) : Prop :=
  ∀ i, k.findSlot 6 0 = some i → 3 ≤ i →
    k.processNum k.activeTerminal = k.activeTerminal ∧
      (k.markSlot i).findParentProcess i k.activeTerminal ≠ -1

theorem SlotTable.sharedSlotHasParent {k : Kernel} (h : k.SlotTable) :
    k.SharedSlotHasParent := by
  intro i hslot h3
  obtain ⟨ha0, ha3⟩ := h.active
  obtain ⟨-, -, -, hfirst⟩ := findSlot_eq_some hslot
  have hown : k.processNum k.activeTerminal = k.activeTerminal := by
    rcases h.root k.activeTerminal ha0 ha3 with hroot | hroot
    · exact absurd ⟨hroot, .inl ⟨ha3, rfl⟩⟩ (hfirst k.activeTerminal ha0 (by omega))
    · exact hroot
  refine ⟨hown, ?_⟩
  have hmarked : Function.update k.processNum i k.activeTerminal k.activeTerminal =
      k.activeTerminal := by rw [Function.update_of_ne (by omega), hown]
  have hscan := (scanOwned_spec (n := i.toNat) ha0 (by omega) hmarked).1
  have hparent : (k.markSlot i).findParentProcess i k.activeTerminal =
      scanOwned (Function.update k.processNum i k.activeTerminal) k.activeTerminal i.toNat := by
    rw [findParentProcess, if_neg (by omega)]
    rfl
  rw [hparent]
  omega

/-- **Slot reservation**: in every state of a run whose commands fit into the arrays of the parser, slot
`t` of the first three is free or belongs to terminal `t` and the others are free or belong to a
terminal; whenever execute is called, it takes a shared slot only for a terminal whose own slot is
occupied, and its search for the parent succeeds; and the first shell of a terminal gets that
terminal's own slot. -/
theorem slots_reserved (img : Image) (hshell : ShellStarts img) (tab : TableAddr)
    (junk : Nat → UInt8) (k : Kernel) (es : List Event) (hcommands : ∀ e ∈ es, e.CommandFits) :
    let s := run (step img tab) (boot img tab junk k) es
    (∀ t, 0 ≤ t → t < 3 → s.processNum t = -1 ∨ s.processNum t = t) ∧
    (∀ p, 3 ≤ p → p < 6 → s.processNum p = -1 ∨ (0 ≤ s.processNum p ∧ s.processNum p < 3)) ∧
    (s.SharedSlotHasParent ∧ ∀ status, (s.releaseSlot status).SharedSlotHasParent) ∧
    ∀ (t : Fin 3) (junk' : Nat → UInt8), s.hung = false → s.currTask (t.val : Nat) = -1 →
      (step img tab s (.switchTerminal t junk')).processNum (t.val : Nat) = (t.val : Nat) ∧
      (step img tab s (.switchTerminal t junk')).currTask (t.val : Nat) = (t.val : Nat) ∧
      (step img tab s (.switchTerminal t junk')).mainProcess = (t.val : Nat) := by
  intro s
  have hs : s.SlotTable := invariant_run (fun _ _ h hcommand => slotTable_step hshell tab h hcommand)
    (slotTable_boot hshell tab junk k) (along_of_forall hcommands _)
  refine ⟨hs.root, hs.shared, ⟨hs.sharedSlotHasParent,
    fun status => (hs.releaseSlot status).sharedSlotHasParent⟩, fun t junk' hhung hnone => ?_⟩
  -- the switch is made behind the interrupt entry
  have hk : s.enterKernel.SlotTable :=
    hs.congr (enterKernel_processNum s) (enterKernel_currTask s) (enterKernel_activeTerminal s)
  have hc := hk.first_shell hshell (t := (t.val : Nat)) (by omega) (by omega)
    (by rw [enterKernel_currTask]; exact hnone) junk'
  rw [step_of_not_hung hhung]
  dsimp only
  refine ⟨?_, ?_, hc.mainProcess⟩
  · rw [hc.processNum]
    exact Function.update_self ..
  · rw [hc.currTask]
    exact Function.update_self ..

/-- All three shared slots belong to the first terminal when the second is started. -/
theorem slots_reserved_sample :
    (step sampleImage sampleTable (run (step sampleImage sampleTable)
      (boot sampleImage sampleTable noJunk (sampleKernel fun _ => 0))
      [.execute shell noJunk, .execute shell noJunk, .execute shell noJunk])
      (.switchTerminal 1 noJunk)).processNum 1 = 1 :=
  ((slots_reserved sampleImage shellStarts_sampleImage sampleTable noJunk (sampleKernel fun _ => 0)
    [.execute shell noJunk, .execute shell noJunk, .execute shell noJunk] (by decide)).2.2.2 1 noJunk
    (by decide +kernel) (by decide +kernel)).1

/-- `shell` with 129 letters `a` for an argument: the last letter and the terminator go behind `arg_buf`,
so that execute gives slot 3 to terminal 97 and finds no parent there. -/
theorem slot_not_reserved :
    let s := run (step sampleImage sampleTable) (boot sampleImage sampleTable noJunk
      (sampleKernel fun _ => 0)) [.execute (shell ++ 32 :: List.replicate 129 97) noJunk]
    s.mainProcess = 3 ∧ s.activeTerminal = 97 ∧ s.processNum 3 = 97 ∧ (s.pcb 3).parentPcb = -1 ∧
      ¬ (s.processNum 3 = -1 ∨ (0 ≤ s.processNum 3 ∧ s.processNum 3 < 3)) := by
  decide +kernel

end Kernel

end SrirachOS
