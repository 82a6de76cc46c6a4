import SrirachOS.Kernel.Effect

/-!
# The Process Tables

What holds of the process slots, the current tasks and the parent links in every run, and which
steps keep it.

- `Tables`: a terminal is started exactly when its own slot is taken; its current task is a live
  process that it owns; the parents of the processes that can halt next are live processes of
  the same terminal,
- `Inv`: and the running process is the current task of some terminal,
- `step_effect`: under the invariant an event has one of the effects listed in `Effect`,
- `inv_step`: every event keeps `Inv`, except that a root shell that exits while another
  terminal is displayed loses it.
-/

namespace SrirachOS

open Foundation

namespace Kernel

/-! ## The invariant -/

/-- The process tables of a kernel at work. -/
structure Tables (k : Kernel) : Prop where
  active : 0 ≤ k.activeTerminal ∧ k.activeTerminal < 3
  /-- the first three slots are reserved -/
  root : ∀ t, 0 ≤ t → t < 3 → k.processNum t = -1 ∨ k.processNum t = t
  /-- the owner of a shared slot has a root process -/
  shared : ∀ p, 3 ≤ p → p < 6 → k.processNum p ≠ -1 →
    0 ≤ k.processNum p ∧ k.processNum p < 3 ∧ k.processNum (k.processNum p) = k.processNum p
  started : ∀ t, 0 ≤ t → t < 3 → (k.currTask t = -1 ↔ k.processNum t = -1)
  curr : ∀ t, 0 ≤ t → t < 3 → k.currTask t ≠ -1 →
    0 ≤ k.currTask t ∧ k.currTask t < 6 ∧ k.processNum (k.currTask t) = t
  pid : ∀ p, 0 ≤ p → p < 6 → k.processNum p ≠ -1 → (k.pcb p).pid = p
  rootParent : ∀ t, 0 ≤ t → t < 3 → k.processNum t ≠ -1 → (k.pcb t).parentPcb = t
  parent3 : k.processNum 3 ≠ -1 → (k.pcb 3).parentPcb = k.processNum 3
  /-- slot 4 has a child of slot 3 only while slot 3 waits for it -/
  parent4 : k.processNum 4 ≠ -1 → (k.pcb 4).parentPcb = k.processNum 4 ∨
    ((k.pcb 4).parentPcb = 3 ∧ k.processNum 3 = k.processNum 4 ∧
      (k.currTask (k.processNum 4) = 4 ∨
        (k.currTask (k.processNum 4) = 5 ∧ (k.pcb 5).parentPcb = 4)))
  parent5 : ∀ t, 0 ≤ t → t < 3 → k.currTask t = 5 → (k.pcb 5).parentPcb = t ∨
    ((k.pcb 5).parentPcb = 3 ∧ k.processNum 3 = t) ∨
    ((k.pcb 5).parentPcb = 4 ∧ k.processNum 4 = t)
  /-- processes in shared slots were started by the execute system call -/
  frame : ∀ p, 3 ≤ p → p < 6 → k.processNum p ≠ -1 → (k.pcb p).frame.caller = .syscall
  hung : k.hung = false

/-- The running process is the current task of a terminal. -/
def MainCurrent (k : Kernel) : Prop :=
  ∃ t, 0 ≤ t ∧ t < 3 ∧ k.currTask t = k.mainProcess ∧ k.mainProcess ≠ -1

/-- The invariant of a run. -/
def Inv (k : Kernel) : Prop := k.Tables ∧ k.MainCurrent

/-- The running process is a live process of the terminal whose current task it is. -/
theorem Inv.main_live {k : Kernel} (h : k.Inv) :
    0 ≤ k.mainProcess ∧ k.mainProcess < 6 ∧ 0 ≤ k.processNum k.mainProcess ∧
      k.processNum k.mainProcess < 3 ∧
      k.currTask (k.processNum k.mainProcess) = k.mainProcess := by
  obtain ⟨htab, t, h0, h3, hcurr, hne⟩ := h
  obtain ⟨hm0, hm6, hown⟩ := htab.curr t h0 h3 (by rw [hcurr]; exact hne)
  rw [hcurr] at hm0 hm6 hown
  rw [hown]
  exact ⟨hm0, hm6, h0, h3, hcurr⟩

/-- The terminal of the running process. -/
def runningTerminal (k : Kernel) : Int := k.processNum k.mainProcess

/-- The running process is the task of its terminal. -/
theorem Inv.running {k : Kernel} (h : k.Inv) :
    0 ≤ k.runningTerminal ∧ k.runningTerminal < 3 ∧ k.currTask k.runningTerminal = k.mainProcess ∧
      k.mainProcess ≠ -1 := by
  obtain ⟨hm0, -, hown0, hown3, hcurr⟩ := h.main_live
  exact ⟨hown0, hown3, hcurr, by omega⟩

/-! ## Creation -/

/-- The slot that execute takes: the displayed terminal's own slot, if it is free, or else the
first free shared slot. -/
theorem Tables.findSlot_cases {k : Kernel} (h : k.Tables) {i : Int}
    (hfind : k.findSlot 6 0 = some i) :
    (i = k.activeTerminal ∧ k.processNum i = -1) ∨
    (3 ≤ i ∧ i < 6 ∧ k.processNum i = -1 ∧ k.processNum k.activeTerminal = k.activeTerminal ∧
      ∀ j, 3 ≤ j → j < i → k.processNum j ≠ -1) := by
  obtain ⟨hfree, h0, h6, hfirst⟩ := findSlot_eq_some hfind
  obtain ⟨ha0, ha3⟩ := h.active
  obtain ⟨hnum, ⟨-, heq⟩ | ⟨h3, hlt⟩⟩ := hfree
  · exact .inl ⟨heq, hnum⟩
  · right
    refine ⟨h3, hlt, hnum, ?_, fun j hj3 hji hj => ?_⟩
    · rcases h.root k.activeTerminal ha0 ha3 with hroot | hroot
      · exact absurd ⟨hroot, .inl ⟨ha3, rfl⟩⟩ (hfirst k.activeTerminal ha0 (by omega))
      · exact hroot
    · exact hfirst j (by omega) hji ⟨hj, .inr ⟨hj3, by omega⟩⟩

/-- The parent recorded for a shared slot: the highest slot below that the displayed terminal
owns. -/
theorem parentPid_shared {k : Kernel} (ha0 : 0 ≤ k.activeTerminal) (ha3 : k.activeTerminal < 3)
    {i : Int} (h3 : 3 ≤ i) (hroot : k.processNum k.activeTerminal = k.activeTerminal) :
    0 ≤ (k.markSlot i).parentPid i ∧ (k.markSlot i).parentPid i < i ∧
      k.processNum ((k.markSlot i).parentPid i) = k.activeTerminal ∧
      ∀ j, (k.markSlot i).parentPid i < j → j < i → k.processNum j ≠ k.activeTerminal := by
  have hpid : (k.markSlot i).parentPid i =
      scanOwned (Function.update k.processNum i k.activeTerminal) k.activeTerminal i.toNat := by
    unfold parentPid findParentProcess
    rw [if_neg (by omega), if_neg (by omega)]
    rfl
  have hbelow : ∀ j, j < i → Function.update k.processNum i k.activeTerminal j = k.processNum j :=
    fun j hj => Function.update_of_ne (by omega) ..
  obtain ⟨hle, hlt, hown, hnone⟩ := scanOwned_spec (n := i.toNat) ha0 (by omega)
    ((hbelow k.activeTerminal (by omega)).trans hroot)
  rw [← hpid] at hle hlt hown hnone
  refine ⟨by omega, by omega, ?_, fun j h1 h2 => ?_⟩
  · rwa [hbelow _ (by omega)] at hown
  · have := hnone j h1 (by omega)
    rwa [hbelow j h2] at this

/-- Creation in the displayed terminal's own slot. -/
theorem Tables.created_root {k k' : Kernel} (h : k.Tables) {caller : Caller}
    (hfree : k.processNum k.activeTerminal = -1) (hc : Created caller k.activeTerminal k k') :
    k'.Tables := by
  obtain ⟨ha0, ha3⟩ := h.active
  have hnum : ∀ p, k'.processNum p =
      if p = k.activeTerminal then k.activeTerminal else k.processNum p :=
    fun p => by rw [hc.processNum, Function.update_apply]
  have htask : ∀ t, k'.currTask t =
      if t = k.activeTerminal then k.activeTerminal else k.currTask t :=
    fun t => by rw [hc.currTask, Function.update_apply]
  have hshared : ∀ p, 3 ≤ p → k'.processNum p = k.processNum p ∧ k'.pcb p = k.pcb p :=
    fun p hp => ⟨by rw [hnum, if_neg (by omega)], hc.pcb_of_ne p (by omega)⟩
  -- no process belongs to a terminal that has not been started
  have howner : ∀ p, 3 ≤ p → p < 6 → k.processNum p ≠ -1 → k.processNum p ≠ k.activeTerminal :=
    fun p h3 h6 hp heq => by
      have hroot := (h.shared p h3 h6 hp).2.2
      rw [heq, hfree] at hroot
      omega
  exact
    { active := by rw [hc.activeTerminal]; exact h.active
      root := fun t h0 h3 => by
        rw [hnum]
        split
        · right; omega
        · exact h.root t h0 h3
      shared := fun p h3 h6 hp => by
        rw [(hshared p h3).1] at hp ⊢
        rw [hnum, if_neg (howner p h3 h6 hp)]
        exact h.shared p h3 h6 hp
      started := fun t h0 h3 => by
        rw [hnum, htask]
        split
        · omega
        · exact h.started t h0 h3
      curr := fun t h0 h3 ht => by
        rw [htask] at ht ⊢
        split
        · rw [hnum, if_pos rfl]
          omega
        · rename_i hne
          rw [if_neg hne] at ht
          obtain ⟨hq0, hq6, hq⟩ := h.curr t h0 h3 ht
          rw [hnum, if_neg fun heq => by rw [heq, hfree] at hq; omega]
          exact ⟨hq0, hq6, hq⟩
      pid := fun p h0 h6 hp => by
        rcases eq_or_ne p k.activeTerminal with rfl | hne
        · exact hc.pid
        · rw [hc.pcb_of_ne p hne]
          rw [hnum, if_neg hne] at hp
          exact h.pid p h0 h6 hp
      rootParent := fun t h0 h3 ht => by
        rcases eq_or_ne t k.activeTerminal with rfl | hne
        · rw [hc.parentPcb, parentPid, if_pos h3]
        · rw [hc.pcb_of_ne t hne]
          rw [hnum, if_neg hne] at ht
          exact h.rootParent t h0 h3 ht
      parent3 := by
        rw [(hshared 3 (by omega)).1, (hshared 3 (by omega)).2]
        exact h.parent3
      parent4 := fun hp => by
        rw [(hshared 4 (by omega)).1] at hp
        rw [(hshared 4 (by omega)).1, (hshared 4 (by omega)).2, (hshared 3 (by omega)).1,
          (hshared 5 (by omega)).2, htask, if_neg (howner 4 (by omega) (by omega) hp)]
        exact h.parent4 hp
      parent5 := fun t h0 h3 ht => by
        rw [htask] at ht
        split at ht
        · omega
        · rw [(hshared 5 (by omega)).2, (hshared 3 (by omega)).1, (hshared 4 (by omega)).1]
          exact h.parent5 t h0 h3 ht
      frame := fun p h3 h6 hp => by
        rw [(hshared p h3).1] at hp
        rw [(hshared p h3).2]
        exact h.frame p h3 h6 hp
      hung := by rw [hc.hung]; exact h.hung }

/-- Creation in a shared slot. -/
theorem Tables.created_shared {k k' : Kernel} (h : k.Tables) {i : Int} (hi3 : 3 ≤ i)
    (hi6 : i < 6) (hfree : k.processNum i = -1)
    (hroot : k.processNum k.activeTerminal = k.activeTerminal)
    (hc : Created .syscall i k k') : k'.Tables := by
  obtain ⟨ha0, ha3⟩ := h.active
  have hnum : ∀ p, k'.processNum p = if p = i then k.activeTerminal else k.processNum p :=
    fun p => by rw [hc.processNum, Function.update_apply]
  have htask : ∀ t, k'.currTask t = if t = k.activeTerminal then i else k.currTask t :=
    fun t => by rw [hc.currTask, Function.update_apply]
  have hlow : ∀ t, t < 3 → k'.processNum t = k.processNum t :=
    fun t ht => by rw [hnum, if_neg (by omega)]
  -- a slot in use is not the new one
  have hused : ∀ p, k.processNum p ≠ -1 → k'.processNum p = k.processNum p ∧ k'.pcb p = k.pcb p :=
    fun p hp => by
      have hne : p ≠ i := fun heq => hp (by rw [heq]; exact hfree)
      exact ⟨by rw [hnum, if_neg hne], hc.pcb_of_ne p hne⟩
  obtain ⟨r, hr⟩ : ∃ r, r = (k.markSlot i).parentPid i := ⟨_, rfl⟩
  obtain ⟨hr0, hri, hrown, hrmax⟩ := parentPid_shared ha0 ha3 hi3 hroot
  have hparent := hc.parentPcb
  rw [← hr] at hr0 hri hrown hrmax hparent
  have hrused := (hused r (by omega)).1
  -- below the shared slots, the displayed terminal owns its root slot only
  have hrroot : r < 3 → r = k.activeTerminal := fun hlt => by
    rcases h.root r hr0 hlt with hd | hd
    · omega
    · omega
  exact
    { active := by rw [hc.activeTerminal]; exact h.active
      root := fun t h0 h3 => by rw [hlow t h3]; exact h.root t h0 h3
      shared := fun p h3 h6 hp => by
        rw [hnum] at hp ⊢
        split
        · rw [hlow _ ha3]
          exact ⟨ha0, ha3, hroot⟩
        · rename_i hne
          rw [if_neg hne] at hp
          have hold := h.shared p h3 h6 hp
          rw [hlow _ hold.2.1]
          exact hold
      started := fun t h0 h3 => by
        rw [hlow t h3, htask]
        split
        · rename_i heq
          rw [heq, hroot]
          omega
        · exact h.started t h0 h3
      curr := fun t h0 h3 ht => by
        rw [htask] at ht ⊢
        split
        · rename_i heq
          rw [hnum, if_pos rfl]
          omega
        · rename_i hne
          rw [if_neg hne] at ht
          obtain ⟨hq0, hq6, hq⟩ := h.curr t h0 h3 ht
          rw [(hused _ (by omega)).1]
          exact ⟨hq0, hq6, hq⟩
      pid := fun p h0 h6 hp => by
        rcases eq_or_ne p i with rfl | hne
        · exact hc.pid
        · rw [hc.pcb_of_ne p hne]
          rw [hnum, if_neg hne] at hp
          exact h.pid p h0 h6 hp
      rootParent := fun t h0 h3 ht => by
        rw [hc.pcb_of_ne t (by omega)]
        rw [hlow t h3] at ht
        exact h.rootParent t h0 h3 ht
      parent3 := fun hp => by
        rcases eq_or_ne 3 i with rfl | hne
        · rw [hparent, hnum, if_pos rfl]
          exact hrroot hri
        · rw [hnum, if_neg hne] at hp ⊢
          rw [hc.pcb_of_ne 3 hne]
          exact h.parent3 hp
      parent4 := fun hp => by
        rcases eq_or_ne 4 i with rfl | hne
        · rw [hparent, hnum 4, if_pos rfl, htask, if_pos rfl]
          by_cases h3 : r < 3
          · exact .inl (hrroot h3)
          · obtain rfl : r = 3 := by omega
            exact .inr ⟨rfl, hrused.trans hrown, .inl rfl⟩
        · rw [hnum 4, if_neg hne] at hp ⊢
          rw [hc.pcb_of_ne 4 hne]
          refine (h.parent4 hp).imp_right fun ⟨hpar, h3, hwait⟩ => ?_
          refine ⟨hpar, ((hused 3 (by omega)).1).trans h3, ?_⟩
          have howner := h.shared 4 (by omega) (by omega) hp
          have hwait4 : k.currTask (k.processNum 4) = 4 ∨ i ≠ 5 := by
            rcases hwait with h4 | ⟨h5, -⟩
            · exact .inl h4
            · refine .inr fun heq => ?_
              have hlive := (h.curr _ howner.1 howner.2.1 (by omega)).2.2
              rw [h5, ← heq, hfree] at hlive
              omega
          rw [htask]
          split
          · -- the new process is a child of slot 4
            rename_i heq
            obtain rfl : i = 5 := by
              have := (hused 3 (by omega)).1
              have h3i : i ≠ 3 := fun hi => by rw [hi] at hfree; omega
              omega
            right
            refine ⟨rfl, ?_⟩
            rw [hparent]
            by_contra hr4
            exact hrmax 4 (by omega) (by omega) heq
          · rcases hwait with h4 | ⟨h5, hpar5⟩
            · exact .inl h4
            · refine .inr ⟨h5, ?_⟩
              have hi5 : (5 : Int) ≠ i := by omega
              rw [hc.pcb_of_ne 5 hi5]
              exact hpar5
      parent5 := fun t h0 h3 ht => by
        rw [htask] at ht
        split at ht
        · rename_i heq
          subst ht
          rw [hparent, heq]
          by_cases hlt : r < 3
          · exact .inl (hrroot hlt)
          · have hr34 : r = 3 ∨ r = 4 := by omega
            rcases hr34 with rfl | rfl
            · exact .inr (.inl ⟨rfl, hrused.trans hrown⟩)
            · exact .inr (.inr ⟨rfl, hrused.trans hrown⟩)
        · have hlive := (h.curr t h0 h3 (by omega)).2.2
          rw [ht] at hlive
          rw [(hused 5 (by omega)).2]
          refine (h.parent5 t h0 h3 ht).imp_right fun hpar => hpar.imp ?_ ?_
          · exact fun ⟨hp, hown⟩ => ⟨hp, ((hused 3 (by omega)).1).trans hown⟩
          · exact fun ⟨hp, hown⟩ => ⟨hp, ((hused 4 (by omega)).1).trans hown⟩
      frame := fun p h3 h6 hp => by
        rcases eq_or_ne p i with rfl | hne
        · rw [hc.frame]
        · rw [hnum, if_neg hne] at hp
          rw [hc.pcb_of_ne p hne]
          exact h.frame p h3 h6 hp
      hung := by rw [hc.hung]; exact h.hung }

/-- **Creation** keeps the tables, and the new process runs as the current task of the displayed
terminal. -/
theorem Tables.created {k k' : Kernel} (h : k.Tables) {caller : Caller} {i : Int}
    (hfind : k.findSlot 6 0 = some i) (hc : Created caller i k k')
    (hcaller : 3 ≤ i → caller = .syscall) : k'.Inv := by
  have hmain : k'.MainCurrent := by
    refine ⟨k.activeTerminal, h.active.1, h.active.2, ?_, ?_⟩
    · rw [hc.currTask, Function.update_self, hc.mainProcess]
    · rw [hc.mainProcess]
      have := (findSlot_eq_some hfind).2.1
      omega
  rcases h.findSlot_cases hfind with ⟨rfl, hfree⟩ | ⟨h3, h6, hfree, hroot, -⟩
  · exact ⟨h.created_root hfree hc, hmain⟩
  · obtain rfl := hcaller h3
    exact ⟨h.created_shared h3 h6 hfree hroot hc, hmain⟩

/-! ## Halt in a shared slot -/

/-- The parent of the running process is a live process of the same terminal, in a lower slot. -/
theorem Inv.parent_live {k : Kernel} (h : k.Inv) (h3 : 3 ≤ k.mainProcess) :
    0 ≤ (k.pcb k.mainProcess).parentPcb ∧ (k.pcb k.mainProcess).parentPcb < k.mainProcess ∧
      k.processNum (k.pcb k.mainProcess).parentPcb = k.processNum k.mainProcess := by
  obtain ⟨hm0, hm6, hown0, hown3, hcurr⟩ := h.main_live
  have hroot := (h.1.shared k.mainProcess h3 hm6 (by omega)).2.2
  have hmain : k.mainProcess = 3 ∨ k.mainProcess = 4 ∨ k.mainProcess = 5 := by omega
  rcases hmain with hm | hm | hm <;> rw [hm] at hown0 hown3 hcurr hroot ⊢
  · rw [h.1.parent3 (by omega)]
    exact ⟨hown0, hown3, hroot⟩
  · rcases h.1.parent4 (by omega) with hpar | ⟨hpar, heq, -⟩ <;> rw [hpar]
    · exact ⟨hown0, by omega, hroot⟩
    · exact ⟨by omega, by omega, heq⟩
  · rcases h.1.parent5 _ hown0 hown3 hcurr with hpar | ⟨hpar, heq⟩ | ⟨hpar, heq⟩ <;> rw [hpar]
    · exact ⟨hown0, by omega, hroot⟩
    · exact ⟨by omega, by omega, heq⟩
    · exact ⟨by omega, by omega, heq⟩

/-- **Halt of a child** keeps the invariant: its parent takes over. -/
theorem Inv.halted {k k' : Kernel} (h : k.Inv) (h3 : 3 ≤ k.mainProcess)
    (hk : Halted (k.pcb k.mainProcess).parentPcb k k') : k'.Inv := by
  obtain ⟨hm0, hm6, hown0, hown3, hcurr⟩ := h.main_live
  obtain ⟨hq0, hqm, hqown⟩ := h.parent_live h3
  obtain ⟨htab, -⟩ := h
  obtain ⟨m, hm⟩ : ∃ m, m = k.mainProcess := ⟨_, rfl⟩
  obtain ⟨q, hq⟩ : ∃ q, q = (k.pcb k.mainProcess).parentPcb := ⟨_, rfl⟩
  obtain ⟨o, ho⟩ : ∃ o, o = k.processNum k.mainProcess := ⟨_, rfl⟩
  have hnum : ∀ p, k'.processNum p = if p = m then -1 else k.processNum p := fun p => by
    rw [hk.processNum, Function.update_apply, hm]
  -- the terminal of the running process is the only one whose current task changes
  have htask : ∀ t, 0 ≤ t → t < 3 → k'.currTask t = if t = o then q else k.currTask t :=
    fun t h0 ht => by
      rw [hk.currTask, ← hq]
      by_cases heq : k.currTask t = k.mainProcess
      · have hown := (htab.curr t h0 ht (by omega)).2.2
        rw [heq] at hown
        rw [if_pos ⟨h0, ht, heq⟩, if_pos (by omega)]
      · rw [if_neg fun hand => heq hand.2.2, if_neg fun hto => heq (by rw [hto, ho]; exact hcurr)]
  rw [← hq] at hq0 hqm hqown
  rw [← ho] at hown0 hown3 hcurr hqown
  rw [← hm] at h3 hm0 hm6 hcurr hqm
  have hmown : k.processNum m = o := by rw [hm, ho]
  have hused : ∀ p, p ≠ m → k'.processNum p = k.processNum p := fun p hp => by
    rw [hnum, if_neg hp]
  have hlow : ∀ t, t < 3 → k'.processNum t = k.processNum t := fun t ht => hused t (by omega)
  have hpid := fun p => (hk.pcb p).1
  have hpar := fun p => (hk.pcb p).2.1
  -- a slot that is still in use was in use before
  have hlive : ∀ p, k'.processNum p ≠ -1 → p ≠ m ∧ k.processNum p ≠ -1 := fun p hp => by
    rw [hnum] at hp
    split at hp
    · exact absurd rfl hp
    · rename_i hne
      exact ⟨hne, hp⟩
  have hother : ∀ t, 0 ≤ t → t < 3 → t ≠ o → k'.currTask t = k.currTask t := fun t h0 ht hne => by
    rw [htask t h0 ht, if_neg hne]
  refine ⟨?_, o, hown0, hown3, ?_, ?_⟩
  · exact
      { active := by rw [hk.activeTerminal]; exact htab.active
        root := fun t h0 ht => by rw [hlow t ht]; exact htab.root t h0 ht
        shared := fun p hp3 hp6 hp => by
          obtain ⟨hne, hp'⟩ := hlive p hp
          have hold := htab.shared p hp3 hp6 hp'
          rw [hused p hne, hlow _ hold.2.1]
          exact hold
        started := fun t h0 ht => by
          rw [hlow t ht, htask t h0 ht]
          have hold := htab.started t h0 ht
          split
          · rename_i heq
            subst heq
            omega
          · exact hold
        curr := fun t h0 ht hne => by
          rw [htask t h0 ht] at hne ⊢
          split
          · rename_i heq
            rw [hused q (by omega), hqown]
            omega
          · rename_i hto
            rw [if_neg hto] at hne
            obtain ⟨hc0, hc6, hcown⟩ := htab.curr t h0 ht hne
            rw [hused _ fun heq => hto (by rw [← hcown, heq, hmown])]
            exact ⟨hc0, hc6, hcown⟩
        pid := fun p h0 h6 hp => by
          rw [hpid]
          exact htab.pid p h0 h6 (hlive p hp).2
        rootParent := fun t h0 ht hp => by
          rw [hpar]
          exact htab.rootParent t h0 ht (hlive t hp).2
        parent3 := fun hp => by
          obtain ⟨hne, hp'⟩ := hlive 3 hp
          rw [hpar, hused 3 hne]
          exact htab.parent3 hp'
        parent4 := fun hp => by
          obtain ⟨hne, hp'⟩ := hlive 4 hp
          obtain ⟨ho0, ho3, -⟩ := htab.shared 4 (by omega) (by omega) hp'
          rw [hpar, hpar, hused 4 hne]
          refine (htab.parent4 hp').imp_right fun ⟨hpar4, hown4, hwait⟩ => ?_
          have hm3 : m ≠ 3 := fun heq => by
            have ho4 : k.processNum 4 = o := by rw [← hown4, ← heq, hmown]
            rw [ho4, hcurr] at hwait
            omega
          refine ⟨hpar4, (hused 3 (Ne.symm hm3)).trans hown4, ?_⟩
          rw [htask _ ho0 ho3]
          split
          · -- slot 5 of the same terminal has halted
            rename_i heq
            left
            rw [heq, hcurr] at hwait
            have hm5 : m = 5 := by omega
            rcases hwait with h4 | ⟨-, h5⟩
            · omega
            · rw [hq, ← hm, hm5, h5]
          · exact hwait
        parent5 := fun t h0 ht hp => by
          rw [htask t h0 ht] at hp
          split at hp
          · omega
          · rename_i hto
            rw [hpar]
            refine (htab.parent5 t h0 ht hp).imp_right fun hold => hold.imp ?_ ?_
            · rintro ⟨hpar5, hown5⟩
              exact ⟨hpar5, (hused 3 fun heq => hto (by rw [← hown5, heq, hmown])).trans hown5⟩
            · rintro ⟨hpar5, hown5⟩
              exact ⟨hpar5, (hused 4 fun heq => hto (by rw [← hown5, heq, hmown])).trans hown5⟩
        frame := fun p h3 h6 hp => by
          rw [(hk.pcb p).2.2.1]
          exact htab.frame p h3 h6 (hlive p hp).2
        hung := by rw [hk.hung]; exact htab.hung }
  · rw [htask o hown0 hown3, if_pos rfl, hk.mainProcess, hq]
  · rw [hk.mainProcess, ← hq]
    omega

/-! ## The other steps -/

/-- What the tables read of the state. -/
theorem Tables.congr {k k' : Kernel} (h : k.Tables) (hnum : k'.processNum = k.processNum)
    (htask : k'.currTask = k.currTask)
    (hactive : 0 ≤ k'.activeTerminal ∧ k'.activeTerminal < 3)
    (hpcb : ∀ p, (k'.pcb p).pid = (k.pcb p).pid ∧ (k'.pcb p).parentPcb = (k.pcb p).parentPcb ∧
      (3 ≤ p → (k'.pcb p).frame = (k.pcb p).frame))
    (hhung : k'.hung = k.hung) : k'.Tables where
  active := hactive
  root := by rw [hnum]; exact h.root
  shared := by rw [hnum]; exact h.shared
  started := by rw [hnum, htask]; exact h.started
  curr := by rw [hnum, htask]; exact h.curr
  pid := fun p => by rw [hnum, (hpcb p).1]; exact h.pid p
  rootParent := fun t => by rw [hnum, (hpcb t).2.1]; exact h.rootParent t
  parent3 := by rw [hnum, (hpcb 3).2.1]; exact h.parent3
  parent4 := by rw [hnum, htask, (hpcb 4).2.1, (hpcb 5).2.1]; exact h.parent4
  parent5 := by rw [hnum, htask, (hpcb 5).2.1]; exact h.parent5
  frame := fun p h3 => by rw [hnum, (hpcb p).2.2 h3]; exact h.frame p h3
  hung := hhung.trans h.hung

/-- Only the running process and the display matter beside the tables. -/
theorem Inv.congr {k k' : Kernel} (h : k.Inv) (htab : k'.Tables)
    (htask : k'.currTask = k.currTask) (hmain : k'.mainProcess = k.mainProcess) : k'.Inv := by
  obtain ⟨-, t, h0, h3, hcurr, hne⟩ := h
  exact ⟨htab, t, h0, h3, by rw [htask, hmain, hcurr], by rw [hmain]; exact hne⟩

theorem Inv.enterKernel {k : Kernel} (h : k.Inv) : k.enterKernel.Inv := by
  unfold Kernel.enterKernel
  split
  · exact h.congr (h.1.congr rfl rfl h.1.active (fun p => ⟨rfl, rfl, fun _ => rfl⟩) rfl) rfl rfl
  · exact h

/-- The release of a root process leaves its own terminal's current task as it is. -/
theorem Inv.releaseSlot_root {k : Kernel} (h : k.Inv) (hroot : k.mainProcess < 3)
    (status : UInt8) :
    (k.pcb k.mainProcess).pid = k.mainProcess ∧
      (k.pcb k.mainProcess).parentPcb = k.mainProcess ∧
      k.processNum k.mainProcess = k.mainProcess ∧
      k.currTask k.mainProcess = k.mainProcess ∧
      (k.releaseSlot status).processNum = Function.update k.processNum k.mainProcess (-1) ∧
      (k.releaseSlot status).currTask = k.currTask := by
  obtain ⟨hm0, hm6, hown0, hown3, hcurr⟩ := h.main_live
  have hself : k.processNum k.mainProcess = k.mainProcess := by
    rcases h.1.root _ hm0 hroot with hd | hd <;> omega
  have hpid := h.1.pid _ hm0 hm6 (by omega)
  have hparent := h.1.rootParent _ hm0 hroot (by omega)
  rw [hself] at hcurr
  refine ⟨hpid, hparent, hself, hcurr,
    congrArg (fun p => Function.update k.processNum p (-1)) hpid, funext fun t => ?_⟩
  have hnext : (k.pcb (k.pcb k.mainProcess).parentPcb).pid = k.mainProcess := by rw [hparent, hpid]
  rw [releaseSlot_currTask status hpid hnext]
  split
  · rename_i hand
    exact hand.2.2.symm
  · rfl

/-- The root shell of a kernel at work exits on the displayed terminal. -/
theorem Inv.systemHalt_root {k : Kernel} (h : k.Inv) {img : Image} (hshell : ShellStarts img)
    (hroot : k.mainProcess < 3) (hshown : k.mainProcess = k.activeTerminal) (status : UInt8)
    (junk : Nat → UInt8) : Restarted k (k.systemHalt img status junk) := by
  obtain ⟨hpid, hparent, hself, hcurr, -, -⟩ := h.releaseSlot_root hroot status
  exact Kernel.systemHalt_root hshell status junk h.main_live.1 hroot hshown hpid hparent hself hcurr

/-- A restart keeps the invariant. -/
theorem Inv.restarted {k k' : Kernel} (h : k.Inv) (hroot : k.mainProcess < 3)
    (hr : Restarted k k') : k'.Inv := by
  refine h.congr (h.1.congr hr.processNum hr.currTask (by rw [hr.activeTerminal]; exact h.1.active)
    (fun p => ⟨hr.pid p, hr.parentPcb p, fun h3 => (hr.pcb_of_ne p (by omega)).1⟩) hr.hung)
    hr.currTask hr.mainProcess

/-- **A context switch** keeps the invariant. -/
theorem Inv.resumed {k k' : Kernel} (h : k.Inv) {t : Int} (h0 : 0 ≤ t) (h3 : t < 3)
    (hlive : k.currTask t ≠ -1) (hr : Resumed (k.currTask t) k k') : k'.Inv := by
  refine ⟨h.1.congr hr.processNum hr.currTask (by rw [hr.activeTerminal]; exact h.1.active)
    (fun p => ?_) hr.hung, t, h0, h3, by rw [hr.currTask, hr.mainProcess],
    by rw [hr.mainProcess]; exact hlive⟩
  rcases eq_or_ne p k.mainProcess with rfl | hp
  · rw [hr.pcb_saved]
    exact ⟨rfl, rfl, fun _ => rfl⟩
  · rw [hr.pcb_of_ne p hp]
    exact ⟨rfl, rfl, fun _ => rfl⟩

/-- **The start of a terminal** keeps the invariant: it gets a shell in its own slot. -/
theorem Inv.first {k k' : Kernel} (h : k.Inv) {t : Int} (h0 : 0 ≤ t) (h3 : t < 3)
    (hfree : k.processNum t = -1)
    (hc : Created .switchTerminal t { k with activeTerminal := t }.saveMain k') : k'.Inv := by
  have hpcb := saveMain_pcb { k with activeTerminal := t }
  have htab : ({ k with activeTerminal := t }.saveMain).Tables :=
    h.1.congr rfl rfl ⟨h0, h3⟩ (fun p => ⟨(hpcb p).1, (hpcb p).2.1, fun _ => (hpcb p).2.2⟩) rfl
  have hslot : ({ k with activeTerminal := t }.saveMain).findSlot 6 0 = some t :=
    findSlot_displayed h0 h3 hfree
  exact htab.created hslot hc fun ht3 => absurd h3 (by omega)

/-! ## Steps -/

/-- **Every event has one of the listed effects**, as long as commands and programs fit and root
shells exit on the displayed terminal. -/
theorem step_effect {img : Image} (hshell : ShellStarts img) (tab : TableAddr) {k : Kernel}
    {e : Event} (h : k.Inv) (hfits : e.Fits img) (hshown : RootExitsShown k e) :
    Effect img tab k.enterKernel e (step img tab k e) := by
  have hk := h.enterKernel
  rw [step_of_not_hung h.1.hung]
  cases e with
  | execute command junk =>
    dsimp only
    rcases systemExecute_cases hfits.1 img junk .syscall k.enterKernel with
      ⟨ret, heq⟩ | ⟨i, k', heq, hslot, hc⟩ | ⟨prog, -, -, hprog, hlen, -⟩
    · have hnot := not_creates_of_returned hfits heq
      rw [heq]
      exact .failed command junk hnot
    · have hcreates := creates_of_entered hfits.1 heq
      rw [heq]
      exact .started command junk hcreates hslot hc
    · exact absurd (hfits.2 prog hprog) (by omega)
  | halt status junk =>
    dsimp only
    by_cases hroot : k.enterKernel.mainProcess < 3
    · have hshown' : k.enterKernel.mainProcess = k.enterKernel.activeTerminal := by
        rw [enterKernel_mainProcess] at hroot
        rw [enterKernel_mainProcess, enterKernel_activeTerminal]
        exact hshown hroot
      exact .restarted status junk hroot hshown' (hk.systemHalt_root hshell hroot hshown' status junk)
    · have h3 : 3 ≤ k.enterKernel.mainProcess := by omega
      obtain ⟨hm0, hm6, hown0, -, -⟩ := hk.main_live
      obtain ⟨hq0, hqm, hqown⟩ := hk.parent_live h3
      exact .halted status junk h3 (systemHalt_shared img status junk h3
        (hk.1.pid _ hm0 hm6 (by omega)) (hk.1.pid _ hq0 (by omega) (by omega))
        (hk.1.frame _ h3 hm6 (by omega)))
  | switchTerminal terminal junk =>
    dsimp only
    have h0 : (0 : Int) ≤ (terminal.val : Nat) := by omega
    have h3 : ((terminal.val : Nat) : Int) < 3 := by omega
    have hfree := (hk.1.started _ h0 h3).mp
    rcases switchTerminal_cases hshell h0 h3 hfree junk with
      ⟨hsame, heq⟩ | ⟨hne, htask, heq⟩ | ⟨hne, hnone, hc⟩
    · rw [heq]
      exact .stayed terminal junk hsame
    · rw [heq]
      exact .displayed terminal junk hne htask
    · exact .first terminal junk hne hnone (hfree hnone) hc
  | tick =>
    dsimp only
    rcases schedulerHandler_cases k.enterKernel with ⟨hnext, heq⟩ | ⟨t, h0, h3, hnext, hne, hlive, heq⟩
    · rw [heq]
      exact .unswitched hnext
    · rw [heq]
      obtain ⟨hc0, hc6, hown⟩ := hk.1.curr t h0 h3 hlive
      exact .resumed h0 h3 hnext hne hlive
        (switchTo_resumed hne (hk.1.pid _ hc0 hc6 (by omega)))
  | vidmap => exact .vidmap

/-- Each effect keeps the invariant. -/
theorem Inv.effect {img : Image} {tab : TableAddr} {k k' : Kernel} {e : Event} (h : k.Inv)
    (he : Effect img tab k e k') : k'.Inv := by
  cases he with
  | failed command junk hnot =>
    exact h.congr (h.1.congr rfl rfl h.1.active (fun p => ⟨rfl, rfl, fun _ => rfl⟩) rfl) rfl rfl
  | started command junk hcreates hslot hc => exact h.1.created hslot hc fun _ => rfl
  | halted status junk h3 hh => exact h.halted h3 hh
  | restarted status junk hroot hshown hr => exact h.restarted hroot hr
  | stayed terminal junk hsame => exact h
  | displayed terminal junk hne htask =>
    have h0 : (0 : Int) ≤ (terminal.val : Nat) := by omega
    have h3 : ((terminal.val : Nat) : Int) < 3 := by omega
    exact h.congr (h.1.congr rfl rfl ⟨h0, h3⟩ (fun p => ⟨rfl, rfl, fun _ => rfl⟩) rfl) rfl rfl
  | first terminal junk hne hnone hfree hc => exact h.first (by omega) (by omega) hfree hc
  | unswitched hnext => exact h
  | resumed h0 h3 hnext hne hlive hr => exact h.resumed h0 h3 hlive hr
  | vidmap =>
    exact h.congr (h.1.congr rfl rfl h.1.active (fun p => ⟨rfl, rfl, fun _ => rfl⟩) rfl) rfl rfl

/-- **Every event keeps the invariant**, as long as commands and programs fit and root shells exit on
the displayed terminal. -/
theorem inv_step {img : Image} (hshell : ShellStarts img) (tab : TableAddr) {k : Kernel} {e : Event}
    (h : k.Inv) (hfits : e.Fits img) (hshown : RootExitsShown k e) : (step img tab k e).Inv :=
  h.enterKernel.effect (step_effect hshell tab h hfits hshown)

/-! ## The start -/

theorem tables_init (tab : TableAddr) (k : Kernel) : (k.init tab).Tables where
  active := ⟨le_refl 0, show (0 : Int) < 3 by decide⟩
  root _ _ _ := .inl rfl
  shared _ _ _ hp := absurd rfl hp
  started _ _ _ := ⟨fun _ => rfl, fun _ => rfl⟩
  curr _ _ _ ht := absurd rfl ht
  pid _ _ _ hp := absurd rfl hp
  rootParent _ _ _ hp := absurd rfl hp
  parent3 hp := absurd rfl hp
  parent4 hp := absurd rfl hp
  parent5 t _ _ ht := absurd (show (-1 : Int) = 5 from ht) (by decide)
  frame _ _ _ hp := absurd rfl hp
  hung := rfl

/-- The kernel starts with the creation of a shell in slot 0. -/
theorem boot_created {img : Image} (hshell : ShellStarts img) (tab : TableAddr) (junk : Nat → UInt8)
    (k : Kernel) : Created .boot 0 (k.init tab) (boot img tab junk k) := by
  obtain ⟨prog, hprog, hlen⟩ := hshell junk
  have htab := tables_init tab k
  have hslot := findSlot_displayed htab.active.1 htab.active.2 rfl
  obtain ⟨k', hk', hc⟩ := systemExecute_entered commandFits_shell hprog hlen .boot hslot
  rw [boot, hk']
  exact hc

/-- **The first shell** sets the invariant up, whatever the memory held. -/
theorem inv_boot {img : Image} (hshell : ShellStarts img) (tab : TableAddr) (junk : Nat → UInt8)
    (k : Kernel) : (boot img tab junk k).Inv := by
  have htab := tables_init tab k
  have hc := boot_created hshell tab junk k
  have hslot := findSlot_displayed htab.active.1 htab.active.2 rfl
  exact htab.created hslot hc fun h3 => absurd (show (3 : Int) ≤ 0 from h3) (by decide)

end Kernel

end SrirachOS
