import SrirachOS.Kernel.Concurrent

/-!
# The Phases of an Execute Among Others

Each step of an execute keeps `Concurrent`, under the conditions of a calm run.

- `kept`, `moved`: steps that mark nothing,
- `marked_shared`, `marked_first`: the owner of a slot is stored,
- `entered_shared`, `entered_first`: the new process is entered. In the tables that have no marks this
  is a creation as in a run whose events are taken as a whole.
-/

namespace SrirachOS

open Foundation

namespace Kernel

section Phases

variable {owner : Int → Int} {k k' : Kernel}

@[simp] theorem taskKont_main (k : Kernel) : k.taskKont k.mainProcess = k.cpu.kont.own := if_pos rfl

theorem taskKont_of_ne {p : Int} (h : p ≠ k.mainProcess) :
    k.taskKont p = (k.pcb p).pit.kont := if_neg h

/-! ## Steps of an execute -/

/-- The tables in which nothing but the marks may have changed. -/
theorem Concurrent.inv_congr (h : k.Concurrent owner) (htask : k'.currTask = k.currTask)
    (hactive : k'.activeTerminal = k.activeTerminal) (hmain : k'.mainProcess = k.mainProcess)
    (hpcb : k'.pcb = k.pcb) (hhung : k'.hung = k.hung) : (k'.owned owner).Inv := by
  refine h.inv.congr (h.inv.1.congr rfl htask ?_ (fun p => ?_) hhung) htask hmain
  · change 0 ≤ k'.activeTerminal ∧ k'.activeTerminal < 3
    rw [hactive]
    exact h.inv.1.active
  · change (k'.pcb p).pid = (k.pcb p).pid ∧ _
    change _ ∧ (k'.pcb p).parentPcb = (k.pcb p).parentPcb ∧ (3 ≤ p → (k'.pcb p).frame = (k.pcb p).frame)
    rw [hpcb]
    exact ⟨rfl, rfl, fun _ => rfl⟩

/-- No mark is made, and each task goes on with what it has marked. -/
theorem Concurrent.kept (h : k.Concurrent owner) (hinv : (k'.owned owner).Inv)
    (hnum : k'.processNum = k.processNum) (htask : k'.currTask = k.currTask)
    (hkont : ∀ t, 0 ≤ t → t < 3 → k.currTask t ≠ -1 → (k'.taskKont (k.currTask t)).InCall ∧
      (k'.taskKont (k.currTask t)).marked = (k.taskKont (k.currTask t)).marked)
    (hstart : ∀ p, k.cpu.kont.starting = true → k.cpu.kont.marked = some p →
      k'.cpu.kont.starting = true ∧ k'.cpu.kont.marked = some p)
    (hshell : ∀ phase below, k'.cpu.kont = .exec .switchTerminal phase below →
      k'.currTask k'.activeTerminal = -1 ∧ (k'.pcb k'.mainProcess).pit.kont = below ∧
        k'.FirstShell phase)
    (hframe : ∀ p, 3 ≤ p → (k'.pcb p).frame = (k.pcb p).frame) : k'.Concurrent owner where
  inv := hinv
  own p hp := by rw [hnum]; exact h.own p hp
  mark p hp hpnum := by
    rw [hnum] at hpnum
    -- a marked slot is that of a task, or of the execute that is about to begin
    rcases h.mark p hp hpnum with ⟨t, h0, h3, hlive, ht⟩ | ⟨hs, hm⟩
    · refine .inl ⟨t, h0, h3, ?_⟩
      rw [htask, (hkont t h0 h3 hlive).2]
      exact ⟨hlive, ht⟩
    · exact .inr (hstart p hs hm)
  task t h0 h3 hlive := by
    rw [htask] at hlive ⊢
    exact (hkont t h0 h3 hlive).1
  marked t h0 h3 hlive i hi := by
    rw [htask] at hlive hi
    rw [(hkont t h0 h3 hlive).2] at hi
    rw [hnum]
    exact h.marked t h0 h3 hlive i hi
  starts := hshell
  frame p h3 h6 hp := by rw [hframe p h3]; exact h.frame p h3 h6 hp

/-- The execute that is going on, or the running program, goes on and marks nothing. -/
theorem Concurrent.moved (h : k.Concurrent owner) (hquiet : Quiet k k')
    (hcall : k'.cpu.kont.own.InCall)
    (hmarked : k'.cpu.kont.own.marked = k.cpu.kont.own.marked)
    (hshell : ∀ phase below, k'.cpu.kont = .exec .switchTerminal phase below →
      ∃ phase', k.cpu.kont = .exec .switchTerminal phase' below ∧
        (k.FirstShell phase' → k'.FirstShell phase))
    (hstart : ∀ p, k.cpu.kont.starting = true → k.cpu.kont.marked = some p →
      k'.cpu.kont.starting = true ∧ k'.cpu.kont.marked = some p) : k'.Concurrent owner := by
  refine h.kept (h.inv_congr hquiet.currTask hquiet.activeTerminal hquiet.mainProcess hquiet.pcb
    hquiet.hung) hquiet.processNum hquiet.currTask ?_ hstart ?_ fun p _ => by rw [hquiet.pcb]
  · intro t h0 h3 hlive
    -- the tasks that do not run keep their continuation, and the running one keeps its mark
    rcases eq_or_ne (k.currTask t) k.mainProcess with heq | hne
    · rw [heq, taskKont_main, ← hquiet.mainProcess, taskKont_main]
      exact ⟨hcall, hmarked⟩
    · rw [taskKont_of_ne hne, taskKont_of_ne (by rw [hquiet.mainProcess]; exact hne), hquiet.pcb,
        ← taskKont_of_ne hne]
      exact ⟨h.task t h0 h3 hlive, rfl⟩
  · intro phase below hkont
    obtain ⟨phase', hkont', himp⟩ := hshell phase below hkont
    obtain ⟨hnone, hpit, hfirst⟩ := h.starts phase' below hkont'
    rw [hquiet.currTask, hquiet.activeTerminal, hquiet.mainProcess, hquiet.pcb]
    exact ⟨hnone, hpit, himp hfirst⟩

/-- A program's execute stores the owner of a slot. -/
theorem Concurrent.marked_shared (h : k.Concurrent owner) {prog : Program} {i : Int}
    (hkont : k.cpu.kont = .exec .syscall (.mark prog i) .user) (hnone : k.processNum i = -1)
    (hslot : (i < 3 ∧ i = k.activeTerminal) ∨ (3 ≤ i ∧ i < 6))
    (hshown : k.activeTerminal = k.processNum k.mainProcess) :
    ((k.markSlot i).goOn .syscall (.map prog i) .user).Concurrent owner := by
  obtain ⟨hm0, hm6, hown0, hown3, hcurr, hnum⟩ := h.main_live
  have hactive : k.activeTerminal = owner k.mainProcess := hshown.trans hnum
  -- the slot of the displayed terminal is the caller's root slot, which is taken
  have hroot : owner k.activeTerminal ≠ -1 := fun hno => by
    have hnotask := (h.started h.active.1 h.active.2).mpr hno
    rw [hactive, hcurr] at hnotask
    omega
  have hi3 : 3 ≤ i := by
    rcases hslot with ⟨-, heq⟩ | ⟨hi3, -⟩
    · rw [heq, h.own _ hroot] at hnone
      exact absurd hnone hroot
    · exact hi3
  have hi6 : i < 6 := by
    rcases hslot with ⟨hlt, -⟩ | ⟨-, hlt⟩ <;> omega
  have hfree := h.free hnone
  have hother : ∀ p, p ≠ k.mainProcess →
      ((k.markSlot i).goOn .syscall (.map prog i) .user).taskKont p = k.taskKont p := fun p hp => by
    rw [taskKont_of_ne hp]
    exact if_neg hp
  have hmain : ((k.markSlot i).goOn .syscall (.map prog i) .user).taskKont k.mainProcess =
      .exec .syscall (.map prog i) .user := if_pos rfl
  have hnum' : ∀ p, ((k.markSlot i).goOn .syscall (.map prog i) .user).processNum p =
      if p = i then k.activeTerminal else k.processNum p := fun p => Function.update_apply ..
  exact
    { inv := h.inv_congr rfl rfl rfl rfl rfl
      own := fun p hp => by
        rw [hnum', if_neg fun heq => hp (by rw [heq]; exact hfree)]
        exact h.own p hp
      mark := fun p hp hpnum => by
        rw [hnum'] at hpnum
        split at hpnum
        · next heq =>
          refine .inl ⟨owner k.mainProcess, hown0, hown3, ?_⟩
          change k.currTask _ ≠ -1 ∧ _
          change _ ∧ (Kernel.taskKont _ (k.currTask _)).marked = some p
          rw [hcurr, hmain, heq]
          exact ⟨by omega, rfl⟩
        · rcases h.mark p hp hpnum with ⟨t, h0, h3, hlive, ht⟩ | ⟨hs, -⟩
          · refine .inl ⟨t, h0, h3, hlive, ?_⟩
            change (Kernel.taskKont _ (k.currTask t)).marked = some p
            rcases eq_or_ne (k.currTask t) k.mainProcess with heq | hne
            · rw [heq, taskKont_main, hkont] at ht
              cases ht
            · rw [hother _ hne]
              exact ht
          · rw [hkont] at hs
            cases hs
      task := fun t h0 h3 hlive => by
        change (Kernel.taskKont _ (k.currTask t)).InCall
        rcases eq_or_ne (k.currTask t) k.mainProcess with heq | hne
        · rw [heq, hmain]
          trivial
        · rw [hother _ hne]
          exact h.task t h0 h3 hlive
      marked := fun t h0 h3 hlive j hj => by
        change (Kernel.taskKont _ (k.currTask t)).marked = some j at hj
        rw [hnum']
        rcases eq_or_ne (k.currTask t) k.mainProcess with heq | hne
        · rw [heq, hmain] at hj
          obtain rfl : i = j := Option.some.inj hj
          rw [if_pos rfl, hactive]
          exact ⟨hi3, hi6, hfree, (h.curr_eq_main h0 h3 heq).symm⟩
        · rw [hother _ hne] at hj
          obtain ⟨hj3, hj6, hjfree, hjnum⟩ := h.marked t h0 h3 hlive j hj
          rw [if_neg fun heq => by rw [heq, hnone] at hjnum; omega]
          exact ⟨hj3, hj6, hjfree, hjnum⟩
      starts := fun phase below hk => by cases hk
      frame := h.frame }

/-- No execute that is going on has marked the slot of a terminal that is started. -/
theorem Concurrent.marked_root (h : k.Concurrent owner) {t : Int} (h3 : t < 3)
    (hnone : owner t = -1) (hnum : k.processNum t ≠ -1) :
    k.cpu.kont.starting = true ∧ k.cpu.kont.marked = some t := by
  rcases h.mark t hnone hnum with ⟨u, hu0, hu3, hlive, hu⟩ | hshell
  · have := (h.marked u hu0 hu3 hlive t hu).1
    omega
  · exact hshell

/-- The terminal's own slot is free when the execute that `switch_terminal` has begun is to store its
owner. -/
theorem Concurrent.first_free (h : k.Concurrent owner) {prog : Program} {i : Int} {below : Kont}
    (hkont : k.cpu.kont = .exec .switchTerminal (.mark prog i) below) :
    i = k.activeTerminal ∧ owner i = -1 ∧ k.processNum i = -1 := by
  obtain ⟨hnotask, -, rfl⟩ := h.starts _ _ hkont
  have hfree : owner k.activeTerminal = -1 := (h.started h.active.1 h.active.2).mp hnotask
  refine ⟨rfl, hfree, ?_⟩
  by_contra hnum
  have hmarked := (h.marked_root h.active.2 hfree hnum).2
  rw [hkont] at hmarked
  cases hmarked

/-- The execute that `switch_terminal` has begun stores the owner of the terminal's own slot. -/
theorem Concurrent.marked_first (h : k.Concurrent owner) {prog : Program} {i : Int} {below : Kont}
    (hkont : k.cpu.kont = .exec .switchTerminal (.mark prog i) below) :
    ((k.markSlot i).goOn .switchTerminal (.map prog i) below).Concurrent owner := by
  obtain ⟨rfl, hfree, hnone⟩ := h.first_free hkont
  obtain ⟨hnotask, hpit, -⟩ := h.starts _ _ hkont
  -- the mark changes no continuation
  have hsame : ∀ p, ((k.markSlot k.activeTerminal).goOn .switchTerminal
      (.map prog k.activeTerminal) below).taskKont p = k.taskKont p := fun p => by
    rcases eq_or_ne p k.mainProcess with rfl | hp
    · rw [taskKont_main, hkont]
      exact if_pos rfl
    · rw [taskKont_of_ne hp]
      exact if_neg hp
  have hnum' : ∀ p, ((k.markSlot k.activeTerminal).goOn .switchTerminal
      (.map prog k.activeTerminal) below).processNum p =
      if p = k.activeTerminal then k.activeTerminal else k.processNum p :=
    fun p => Function.update_apply ..
  exact
    { inv := h.inv_congr rfl rfl rfl rfl rfl
      own := fun p hp => by
        rw [hnum', if_neg fun heq => hp (by rw [heq]; exact hfree)]
        exact h.own p hp
      mark := fun p hp hpnum => by
        rw [hnum'] at hpnum
        split at hpnum
        · next heq => exact .inr ⟨rfl, congrArg some heq.symm⟩
        · -- the slot that has just been marked, or one marked before
          rcases h.mark p hp hpnum with ⟨t, h0, h3, hlive, ht⟩ | ⟨-, hm⟩
          · refine .inl ⟨t, h0, h3, hlive, ?_⟩
            rw [hsame]
            exact ht
          · rw [hkont] at hm
            cases hm
      task := fun t h0 h3 hlive => by
        rw [hsame]
        exact h.task t h0 h3 hlive
      marked := fun t h0 h3 hlive j hj => by
        rw [hsame] at hj
        obtain ⟨hj3, hj6, hjfree, hjnum⟩ := h.marked t h0 h3 hlive j hj
        have := h.active.2
        rw [hnum', if_neg (by omega)]
        exact ⟨hj3, hj6, hjfree, hjnum⟩
      starts := fun phase below' hk => by
        cases hk
        exact ⟨hnotask, hpit, rfl, (hnum' _).trans (if_pos rfl)⟩
      frame := h.frame }

theorem FirstShell.congr {phase : Phase} (h : k.FirstShell phase) (hquiet : Quiet k k') :
    k'.FirstShell phase := by
  have heq : k'.FirstShell phase = k.FirstShell phase := by
    unfold FirstShell
    rw [hquiet.activeTerminal, hquiet.processNum]
  rw [heq]
  exact h

/-- An execute that `switch_terminal` has begun does not pass the terminal's own slot. -/
theorem Concurrent.firstShell_next (h : k.Concurrent owner) {phase phase' : Phase} {below : Kont}
    (hkont : k.cpu.kont = .exec .switchTerminal phase below) (hnext : PhaseStep k phase phase') :
    k.FirstShell phase' := by
  obtain ⟨hnotask, -, hfirst⟩ := h.starts _ _ hkont
  obtain ⟨ha0, ha3⟩ := h.active
  have hfree : owner k.activeTerminal = -1 := (h.started ha0 ha3).mp hnotask
  cases hnext with
  | parsed command junk prog => exact ⟨le_refl 0, ha0⟩
  | free prog hnone => exact hfirst
  | @taken prog i htaken =>
    obtain ⟨hi0, hi⟩ := hfirst
    refine ⟨by omega, ?_⟩
    -- the terminal's own slot is free
    by_contra hlt
    obtain rfl : i = k.activeTerminal := by omega
    have hmarked := (h.marked_root ha3 hfree htaken).2
    rw [hkont] at hmarked
    cases hmarked
  | chosen prog hown =>
    obtain ⟨hi0, hi⟩ := hfirst
    rcases hown with ⟨-, heq⟩ | ⟨hi3, -⟩
    · exact heq
    · omega
  | passed prog hown =>
    obtain ⟨hi0, hi⟩ := hfirst
    refine ⟨by omega, ?_⟩
    by_contra hlt
    exact hown (.inl ⟨by omega, by omega⟩)
  | mapped prog i => exact hfirst
  | copied prog i n => exact hfirst
  | loaded prog i n => exact hfirst

/-- An execute goes on to its next phase. -/
theorem Concurrent.goesOn (h : k.Concurrent owner) (hquiet : Quiet k k') {caller : Caller}
    {phase phase' : Phase} {below : Kont} (hkont : k.cpu.kont = .exec caller phase below)
    (hnext : PhaseStep k phase phase') (hkont' : k'.cpu.kont = .exec caller phase' below) :
    k'.Concurrent owner := by
  -- an execute that a program has called, or the first shell of a terminal
  rcases h.exec_cases hkont with ⟨rfl, rfl⟩ | ⟨rfl, hbelow⟩
  · refine h.moved hquiet ?_ ?_ (fun phase₂ below₂ hk => ?_) (fun p hs => ?_)
    · rw [hkont']
      trivial
    · rw [hkont, hkont']
      exact hnext.marked
    · rw [hkont'] at hk
      cases hk
    · rw [hkont] at hs
      cases hs
  · refine h.moved hquiet ?_ ?_ (fun phase₂ below₂ hk => ?_) (fun p _ hp => ?_)
    · rw [hkont']
      exact hbelow
    · rw [hkont, hkont']
      rfl
    · rw [hkont'] at hk
      cases hk
      exact ⟨phase, hkont, fun _ => (h.firstShell_next hkont hnext).congr hquiet⟩
    · rw [hkont] at hp
      rw [hkont']
      exact ⟨rfl, hnext.marked.trans hp⟩

/-- An execute that has marked nothing returns to its caller. -/
theorem Concurrent.returned (h : k.Concurrent owner) (hquiet : Quiet k k') {caller : Caller}
    {phase : Phase} {below : Kont} (hkont : k.cpu.kont = .exec caller phase below)
    (hnone : phase.marked = none) (hkont' : k'.cpu.kont = below) : k'.Concurrent owner := by
  have hbelow : below.InCall ∧ k.cpu.kont.own.marked = below.marked := by
    rw [hkont]
    rcases h.exec_cases hkont with ⟨rfl, rfl⟩ | ⟨rfl, hbelow⟩
    · exact ⟨trivial, hnone⟩
    · exact ⟨hbelow, rfl⟩
  obtain ⟨hcall, hmarked⟩ := hbelow
  refine h.moved hquiet ?_ ?_ ?_ ?_
  · rw [hkont', hcall.own]
    exact hcall
  · rw [hkont', hcall.own, hmarked]
  · intro phase₂ below₂ hk
    have hstart := hcall.starting
    rw [← hkont', hk] at hstart
    cases hstart
  · intro p _ hp
    rw [hkont] at hp
    cases hnone.symm.trans hp

/-! ## The entry of a program -/

/-- The scan finds the same slot in a table with the same slots of the terminal. -/
theorem scanOwned_congr {f g : Int → Int} {terminal : Int} {n : Nat}
    (h : ∀ j : Nat, j < n → (f j = terminal ↔ g j = terminal)) :
    scanOwned f terminal n = scanOwned g terminal n := by
  induction n with
  | zero => rfl
  | succ n ih =>
    rw [scanOwned, scanOwned, ih fun j hj => h j (by omega)]
    simp only [h n (by omega)]

/-- A new process has been entered, and the tables have it. -/
theorem Concurrent.entered (h : k.Concurrent owner) {caller : Caller} {prog : Program} {i : Int}
    {below : Kont} (hfree : owner i = -1) (hnum : k.processNum i = k.activeTerminal)
    (hbelow : 3 ≤ i → below = .user)
    (hinv : ((k.enterProgram caller below prog i).owned
      (Function.update owner i k.activeTerminal)).Inv)
    (hpit : ∀ t, 0 ≤ t → t < 3 → t ≠ k.activeTerminal → k.currTask t ≠ -1 →
      k.taskKont (k.currTask t) = (k.pcb (k.currTask t)).pit.kont)
    (hmark : ∀ p, p ≠ i → k.Marked p → ∃ t, 0 ≤ t ∧ t < 3 ∧ t ≠ k.activeTerminal ∧
      k.currTask t ≠ -1 ∧ (k.taskKont (k.currTask t)).marked = some p) :
    (k.enterProgram caller below prog i).Concurrent (Function.update owner i k.activeTerminal) := by
  obtain ⟨ha0, ha3⟩ := h.active
  have howner : ∀ p, Function.update owner i k.activeTerminal p =
      if p = i then k.activeTerminal else owner p := fun p => Function.update_apply ..
  have hold : ∀ p, Function.update owner i k.activeTerminal p = -1 → p ≠ i ∧ owner p = -1 :=
    fun p hp => by
      rw [howner] at hp
      split at hp
      · omega
      · next hne => exact ⟨hne, hp⟩
  have hcurr : ∀ t, (k.enterProgram caller below prog i).currTask t =
      if t = k.activeTerminal then i else k.currTask t := fun t => Function.update_apply ..
  have hpcb := enterProgram_pcb caller below prog i k
  -- the new process is in user mode, the tasks of the other terminals are as they were
  have hnew : (k.enterProgram caller below prog i).taskKont i = .user := if_pos rfl
  have hother : ∀ t, 0 ≤ t → t < 3 → t ≠ k.activeTerminal → k.currTask t ≠ -1 →
      (k.enterProgram caller below prog i).taskKont (k.currTask t) =
        k.taskKont (k.currTask t) := fun t h0 h3 hne hlive => by
    have hnei : k.currTask t ≠ i := fun heq => by
      have hown := (h.curr_live h0 h3 hlive).2.2
      rw [heq, hfree] at hown
      omega
    rw [hpit t h0 h3 hne hlive, taskKont_of_ne hnei, hpcb, Function.update_of_ne hnei]
  exact
    { inv := hinv
      own := fun p hp => by
        rw [howner] at hp ⊢
        split
        · next heq =>
          rw [heq]
          exact hnum
        · next hne =>
          rw [if_neg hne] at hp
          exact h.own p hp
      mark := fun p hp hpnum => by
        obtain ⟨hne, hpfree⟩ := hold p hp
        obtain ⟨t, h0, h3, hta, hlive, ht⟩ := hmark p hne (h.mark p hpfree hpnum)
        refine .inl ⟨t, h0, h3, ?_⟩
        rw [hcurr, if_neg hta, hother t h0 h3 hta hlive]
        exact ⟨hlive, ht⟩
      task := fun t h0 h3 hlive => by
        rw [hcurr] at hlive ⊢
        split
        · rw [hnew]
          trivial
        · next hta =>
          rw [if_neg hta] at hlive
          rw [hother t h0 h3 hta hlive]
          exact h.task t h0 h3 hlive
      marked := fun t h0 h3 hlive j hj => by
        rw [hcurr] at hlive hj
        split at hj
        · rw [hnew] at hj
          cases hj
        · next hta =>
          rw [if_neg hta] at hlive
          rw [hother t h0 h3 hta hlive] at hj
          obtain ⟨hj3, hj6, hjfree, hjnum⟩ := h.marked t h0 h3 hlive j hj
          have hji : j ≠ i := fun heq => hta (by rw [← hjnum, heq, hnum])
          exact ⟨hj3, hj6, by rw [howner, if_neg hji]; exact hjfree, hjnum⟩
      starts := fun phase below' hk => by cases hk
      frame := fun p h3 h6 hp => by
        rw [hpcb]
        rcases eq_or_ne p i with rfl | hne
        · rw [Function.update_self]
          exact hbelow h3
        · rw [Function.update_of_ne hne]
          rw [howner, if_neg hne] at hp
          exact h.frame p h3 h6 hp }

/-- Entering a program is a creation in the tables that have no marks. -/
theorem created_owned (caller : Caller) (prog : Program) (below : Kont) {i : Int} (h0 : 0 ≤ i)
    (h6 : i < 6)
    (hscan : ∀ j : Nat, (j : Int) < i →
      (k.processNum j = k.activeTerminal ↔ owner j = k.activeTerminal)) :
    Created caller i { k.owned owner with cpu := ⟨k.cpu.stack, below⟩ }
      { (k.enterProgram caller below prog i).owned (Function.update owner i k.activeTerminal) with
        paging := mapProgram i.toNat k.paging } := by
  have hpcb := enterProgram_pcb caller below prog i k
  exact
    { processNum := rfl
      currTask := rfl
      activeTerminal := rfl
      mainProcess := rfl
      pid := by
        change ((k.enterProgram caller below prog i).pcb i).pid = i
        rw [hpcb, Function.update_self]
        exact toNat_pidByteOf h0 h6
      parentPcb := by
        change ((k.enterProgram caller below prog i).pcb i).parentPcb =
          if i < 3 then i else if i < 3 then -1 else
            scanOwned (Function.update owner i k.activeTerminal) k.activeTerminal i.toNat
        rw [hpcb, Function.update_self]
        change (if i < 3 then i else if i < 3 then -1 else
          scanOwned k.processNum k.activeTerminal i.toNat) = _
        -- the scan for the parent finds the same slots in both tables
        rw [scanOwned_congr fun j hj => ?_]
        rw [Function.update_of_ne (by omega)]
        exact hscan j (by omega)
      frame := by
        change ((k.enterProgram caller below prog i).pcb i).frame = _
        rw [hpcb, Function.update_self]
      pcb_of_ne := fun p hp => by
        change (k.enterProgram caller below prog i).pcb p = _
        rw [hpcb, Function.update_of_ne hp]
        rfl
      tssEsp0 := rfl
      paging := rfl
      cpu := rfl
      hung := rfl
      beforeTerminals := rfl }

/-- A program's execute is about to enter a shared slot, which belongs to the caller's terminal. -/
theorem Concurrent.marked_main (h : k.Concurrent owner) {prog : Program} {i : Int}
    (hkont : k.cpu.kont = .exec .syscall (.enter prog i) .user) :
    3 ≤ i ∧ i < 6 ∧ owner i = -1 ∧ k.processNum i = k.processNum k.mainProcess := by
  obtain ⟨hm0, -, hown0, hown3, hcurr, hnum⟩ := h.main_live
  rw [hnum]
  refine h.marked _ hown0 hown3 (by omega) i ?_
  rw [hcurr, taskKont_main, hkont]
  rfl

/-- What the mapping of the new program does not matter for. -/
theorem inv_of_mapped {k : Kernel} {paging : Paging} (h : ({ k with paging } : Kernel).Inv) : k.Inv :=
  h.congr (h.1.congr rfl rfl h.1.active (fun _ => ⟨rfl, rfl, fun _ => rfl⟩) rfl) rfl rfl

/-- A program's execute enters the new process: a child of the caller's terminal. -/
theorem Concurrent.entered_shared (h : k.Concurrent owner) {prog : Program} {i : Int}
    (hkont : k.cpu.kont = .exec .syscall (.enter prog i) .user)
    (hshown : k.activeTerminal = k.processNum k.mainProcess) :
    (3 ≤ i ∧ i < 6 ∧ owner i = -1 ∧ k.processNum i = k.activeTerminal) ∧
      (k.enterProgram .syscall .user prog i).Concurrent
        (Function.update owner i k.activeTerminal) := by
  obtain ⟨hm0, hm6, hown0, hown3, hcurr, hnum⟩ := h.main_live
  have hactive : k.activeTerminal = owner k.mainProcess := hshown.trans hnum
  have hmain : k.taskKont k.mainProcess = .exec .syscall (.enter prog i) .user := by
    rw [taskKont_main, hkont]
    rfl
  obtain ⟨hi3, hi6, hfree, hinum⟩ := h.marked_main hkont
  rw [← hshown] at hinum
  -- only the caller's own mark is one for its terminal
  have hmine : ∀ p, k.processNum p = k.activeTerminal → owner p = -1 → p = i := fun p hp hpfree => by
    rcases h.mark p hpfree (by rw [hp]; have := h.active.1; omega) with
      ⟨t, h0, h3, hlive, ht⟩ | ⟨hs, -⟩
    · have hpt := (h.marked t h0 h3 hlive p ht).2.2.2
      rw [← hpt, hp, hactive, hcurr, hmain] at ht
      exact (Option.some.inj ht).symm
    · rw [hkont] at hs
      cases hs
  have hscan : ∀ j : Nat, (j : Int) < i →
      (k.processNum j = k.activeTerminal ↔ owner j = k.activeTerminal) := fun j hj => by
    by_cases hjfree : owner j = -1
    · have := h.active.1
      refine iff_of_false (fun hp => ?_) (by omega)
      have := hmine j hp hjfree
      omega
    · rw [h.own j hjfree]
  have hroot : owner k.activeTerminal = k.activeTerminal := by
    rcases h.inv.1.root _ h.active.1 h.active.2 with hno | hroot
    · have hnotask := (h.started h.active.1 h.active.2).mpr hno
      rw [hactive, hcurr] at hnotask
      omega
    · exact hroot
  have hcreated := created_owned .syscall prog .user (by omega : 0 ≤ i) hi6 hscan
  have htables : Tables { k.owned owner with cpu := ⟨k.cpu.stack, .user⟩ } :=
    h.inv.1.congr rfl rfl h.active (fun _ => ⟨rfl, rfl, fun _ => rfl⟩) rfl
  refine ⟨⟨hi3, hi6, hfree, hinum⟩, h.entered hfree hinum (fun _ => rfl) ?_ ?_ ?_⟩
  · refine inv_of_mapped ⟨htables.created_shared hi3 hi6 hfree hroot hcreated, k.activeTerminal,
      h.active.1, h.active.2, ?_, ?_⟩
    · exact Function.update_self ..
    · change i ≠ -1
      omega
  · intro t h0 h3 hne hlive
    exact taskKont_of_ne fun heq => hne ((h.curr_eq_main h0 h3 heq).trans hactive.symm)
  · rintro p hp (⟨t, h0, h3, hlive, ht⟩ | ⟨hs, -⟩)
    · refine ⟨t, h0, h3, fun heq => hp ?_, hlive, ht⟩
      rw [heq, hactive, hcurr, hmain] at ht
      exact (Option.some.inj ht).symm
    · rw [hkont] at hs
      cases hs

/-- The first shell of a terminal is entered, in the terminal's own slot. -/
theorem Concurrent.entered_first (h : k.Concurrent owner) {prog : Program} {i : Int} {below : Kont}
    (hkont : k.cpu.kont = .exec .switchTerminal (.enter prog i) below) :
    (i = k.activeTerminal ∧ owner i = -1 ∧ k.processNum i = k.activeTerminal) ∧
      (k.enterProgram .switchTerminal below prog i).Concurrent
        (Function.update owner i k.activeTerminal) := by
  obtain ⟨hm0, -, -, -, -, -⟩ := h.main_live
  obtain ⟨hnotask, hpit, rfl, hinum⟩ := h.starts _ _ hkont
  obtain ⟨ha0, ha3⟩ := h.active
  have hfree : owner k.activeTerminal = -1 := (h.started ha0 ha3).mp hnotask
  -- below the own slot of the terminal no slot is only marked
  have hscan : ∀ j : Nat, (j : Int) < k.activeTerminal →
      (k.processNum j = k.activeTerminal ↔ owner j = k.activeTerminal) := fun j hj => by
    by_cases hjfree : owner j = -1
    · refine iff_of_false (fun hp => ?_) (by omega)
      have hmarked := (h.marked_root (by omega) hjfree (by omega)).2
      rw [hkont] at hmarked
      have := Option.some.inj hmarked
      omega
    · rw [h.own j hjfree]
  have hcreated := created_owned .switchTerminal prog below ha0 (by omega : k.activeTerminal < 6) hscan
  have htables : Tables { k.owned owner with cpu := ⟨k.cpu.stack, below⟩ } :=
    h.inv.1.congr rfl rfl h.active (fun _ => ⟨rfl, rfl, fun _ => rfl⟩) rfl
  refine ⟨⟨rfl, hfree, hinum⟩, h.entered hfree hinum (by omega) ?_ ?_ ?_⟩
  · refine inv_of_mapped ⟨htables.created_root hfree hcreated, k.activeTerminal, ha0, ha3, ?_, ?_⟩
    · exact Function.update_self ..
    · change k.activeTerminal ≠ -1
      omega
  · intro t h0 h3 hne hlive
    rcases eq_or_ne (k.currTask t) k.mainProcess with heq | hmain
    · -- the suspended process goes on below the execute
      rw [heq, taskKont_main, hkont, hpit]
      rfl
    · exact taskKont_of_ne hmain
  · rintro p hp (⟨t, h0, h3, hlive, ht⟩ | ⟨-, hm⟩)
    · exact ⟨t, h0, h3, fun heq => hlive (by rw [heq]; exact hnotask), hlive, ht⟩
    · rw [hkont] at hm
      exact absurd (Option.some.inj hm).symm hp

end Phases

end Kernel

end SrirachOS
