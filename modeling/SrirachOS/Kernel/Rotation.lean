import SrirachOS.Kernel.Leak

/-!
# The Rotation of the Terminals

`check_tasks` looks at the terminal after the running one, at the running one itself and at the
one after that. So the terminals that have a task take turns, and one that is started in between
joins in.

- `checkTasks_eq`: the terminal that a tick switches to,
- `turnsAhead`: how many ticks go to others before a terminal runs; no event raises it and each
  tick lowers it,
- `rotation_fair`: hence one of any three ticks schedules each terminal with a task.
-/

namespace SrirachOS

open Foundation

namespace Kernel

/-- No other terminal has the running process for its task. -/
theorem Inv.task_ne_main {k : Kernel} (h : k.Inv) {t : Int} (h0 : 0 ≤ t) (h3 : t < 3)
    (hne : t ≠ k.runningTerminal) : k.currTask t ≠ k.mainProcess := by
  intro heq
  obtain ⟨-, -, -, hlive⟩ := h.running
  have hown := (h.1.curr t h0 h3 (by rw [heq]; exact hlive)).2.2
  rw [heq] at hown
  exact hne hown.symm

/-- **The choice of the scheduler**: the task of the next terminal, or of the one after it. -/
theorem checkTasks_eq {k : Kernel} (h : k.Inv) :
    k.checkTasks k.mainProcess =
      if k.currTask ((k.runningTerminal + 1) % 3) ≠ -1 then k.currTask ((k.runningTerminal + 1) % 3)
      else k.currTask ((k.runningTerminal + 2) % 3) := by
  obtain ⟨hm0, hm3, hcurr, -⟩ := h.running
  have h1 := h.task_ne_main (t := (k.runningTerminal + 1) % 3) (by omega) (by omega) (by omega)
  have h2 := h.task_ne_main (t := (k.runningTerminal + 2) % 3) (by omega) (by omega) (by omega)
  unfold checkTasks
  change k.checkTasksLoop 3 1 k.runningTerminal = _
  simp only [checkTasksLoop]
  -- the counter and the index both advance, so the second turn looks at the running terminal
  have hsecond : (k.runningTerminal + 1 + (1 + 1)) % 3 = k.runningTerminal := by omega
  have hthird : (k.runningTerminal + 1 + 1 + (1 + 1 + 1)) % 3 = (k.runningTerminal + 2) % 3 := by omega
  rw [hsecond, hthird, hcurr]
  by_cases hlive1 : k.currTask ((k.runningTerminal + 1) % 3) = -1
  · by_cases hlive2 : k.currTask ((k.runningTerminal + 2) % 3) = -1
    · simp [hlive1, hlive2]
    · simp [hlive1, hlive2, h2]
  · simp [hlive1, h1]

/-- Without a task elsewhere, the scheduler finds nothing. -/
theorem checkTasks_none {k : Kernel} (h : k.Inv) (hnone : k.checkTasks k.mainProcess = -1) {t : Int}
    (h0 : 0 ≤ t) (h3 : t < 3) (hne : t ≠ k.runningTerminal) : k.currTask t = -1 := by
  obtain ⟨hm0, hm3, -, -⟩ := h.running
  rw [checkTasks_eq h] at hnone
  have ht : t = (k.runningTerminal + 1) % 3 ∨ t = (k.runningTerminal + 2) % 3 := by omega
  by_cases hlive1 : k.currTask ((k.runningTerminal + 1) % 3) = -1
  · rw [if_neg (not_not.mpr hlive1)] at hnone
    rcases ht with rfl | rfl
    · exact hlive1
    · exact hnone
  · rw [if_pos hlive1] at hnone
    exact absurd hnone hlive1

/-- The terminal that the scheduler finds comes next, or comes after one without a task. -/
theorem checkTasks_some {k : Kernel} (h : k.Inv) {n : Int} (h0 : 0 ≤ n) (h3 : n < 3)
    (hlive : k.currTask n ≠ -1) (hnext : k.checkTasks k.mainProcess = k.currTask n) :
    n = (k.runningTerminal + 1) % 3 ∨
      (n = (k.runningTerminal + 2) % 3 ∧ k.currTask ((k.runningTerminal + 1) % 3) = -1) := by
  obtain ⟨hm0, hm3, -, -⟩ := h.running
  -- distinct terminals have distinct tasks
  have hinj : ∀ t, 0 ≤ t → t < 3 → k.currTask n = k.currTask t → n = t := by
    intro t ht0 ht3 heq
    have hown := (h.1.curr n h0 h3 hlive).2.2
    rw [heq] at hown hlive
    exact hown.symm.trans (h.1.curr t ht0 ht3 hlive).2.2
  rw [checkTasks_eq h] at hnext
  by_cases hlive1 : k.currTask ((k.runningTerminal + 1) % 3) = -1
  · rw [if_neg (not_not.mpr hlive1)] at hnext
    exact .inr ⟨hinj _ (by omega) (by omega) hnext.symm, hlive1⟩
  · rw [if_pos hlive1] at hnext
    exact .inl (hinj _ (by omega) (by omega) hnext.symm)

/-! ## Whose turn it is -/

/-- How many ticks may go to other terminals before one goes to `t`. With a task on the third
terminal, that is one when `t` comes after it and none when `t` comes next; without one, a shell
that is started there runs at once, and the terminal after it is next. -/
def turnsAhead (t : Int) (k : Kernel) : Nat :=
  if t = k.runningTerminal then 2
  else if t = (k.runningTerminal + 1) % 3 then
    if k.currTask ((k.runningTerminal + 2) % 3) = -1 then 1 else 0
  else if k.currTask ((k.runningTerminal + 1) % 3) = -1 then 0 else 1

theorem turnsAhead_lt (t : Int) (k : Kernel) : turnsAhead t k < 3 := by
  unfold turnsAhead
  split_ifs <;> decide

/-- What an event does to the rotation, if it is not a tick: nothing, or a terminal that had no
task has been started and runs. -/
theorem Effect.rotation {img : Image} {tab : TableAddr} {k k' : Kernel} {e : Event} (h : k.Inv)
    (he : Effect img tab k e k') (hshown : RunnerShown k e) (htick : e ≠ .tick) :
    (k'.runningTerminal = k.runningTerminal ∧
      ∀ t, 0 ≤ t → t < 3 → (k'.currTask t = -1 ↔ k.currTask t = -1)) ∨
    ∃ n, 0 ≤ n ∧ n < 3 ∧ k.currTask n = -1 ∧ k'.runningTerminal = n ∧
      ∀ t, 0 ≤ t → t < 3 → (k'.currTask t = -1 ↔ k.currTask t = -1 ∧ t ≠ n) := by
  have hk' := h.effect he
  obtain ⟨hm0, hm3, hcurr, hmain⟩ := h.running
  obtain ⟨hm0', hm3', hcurr', hmain'⟩ := hk'.running
  -- the runner is displayed, so a new process belongs to the terminal that runs already
  cases he with
  | failed command junk hnot => exact .inl ⟨rfl, fun t _ _ => Iff.rfl⟩
  | started command junk hcreates hslot hc =>
    left
    have hrun : k.runningTerminal = k.activeTerminal := hshown
    have hown := hc.processNum
    have htask := hc.currTask
    constructor
    · unfold runningTerminal
      rw [hc.mainProcess, hown, Function.update_self]
      exact hrun.symm
    · intro t _ _
      rw [htask, Function.update_apply]
      split
      · rename_i heq
        obtain ⟨-, hi0, -, -⟩ := findSlot_eq_some hslot
        rw [heq, ← hrun, hcurr]
        omega
      · exact Iff.rfl
  | halted status junk h3 hh =>
    left
    obtain ⟨hq0, hqm, hqown⟩ := h.parent_live h3
    constructor
    · unfold runningTerminal
      rw [hh.mainProcess, hh.processNum, Function.update_of_ne (by omega)]
      exact hqown
    · intro t h0 ht3
      rw [hh.currTask]
      split
      · rename_i hand
        omega
      · exact Iff.rfl
  | restarted status junk hroot hshown' hr =>
    left
    refine ⟨?_, fun t _ _ => by rw [hr.currTask]⟩
    unfold runningTerminal
    rw [hr.mainProcess, hr.processNum]
  | stayed terminal junk hsame => exact .inl ⟨rfl, fun t _ _ => Iff.rfl⟩
  | displayed terminal junk hne htask => exact .inl ⟨rfl, fun t _ _ => Iff.rfl⟩
  | first terminal junk hne hnone hfree hc =>
    right
    refine ⟨(terminal.val : Nat), by omega, by omega, hnone, ?_, fun t h0 ht3 => ?_⟩
    · unfold runningTerminal
      rw [hc.mainProcess, hc.processNum]
      exact Function.update_self ..
    · rw [hc.currTask]
      change Function.update k.currTask ((terminal.val : Nat) : Int) _ t = -1 ↔ _
      rw [Function.update_apply]
      split
      · omega
      · rename_i hne'
        exact ⟨fun ht => ⟨ht, hne'⟩, And.left⟩
  | unswitched hnext => exact absurd rfl htick
  | resumed h0 h3 hnext hne hlive hr => exact absurd rfl htick
  | vidmap => exact .inl ⟨rfl, fun t _ _ => Iff.rfl⟩

/-- No event but a tick makes a terminal with a task wait longer, or takes its task away. -/
theorem Effect.turnsAhead_le {img : Image} {tab : TableAddr} {k k' : Kernel} {e : Event} (h : k.Inv)
    (he : Effect img tab k e k') (hshown : RunnerShown k e) (htick : e ≠ .tick) {t : Int} (h0 : 0 ≤ t)
    (h3 : t < 3) (hlive : k.currTask t ≠ -1) :
    turnsAhead t k' ≤ turnsAhead t k ∧ k'.currTask t ≠ -1 := by
  obtain ⟨hm0, hm3, hcurr, hmain⟩ := h.running
  rcases he.rotation h hshown htick with ⟨hrun, htask⟩ | ⟨n, hn0, hn3, hnone, hrun, htask⟩
  · refine ⟨le_of_eq ?_, fun ht => hlive ((htask t h0 h3).mp ht)⟩
    have htask1 := htask ((k.runningTerminal + 1) % 3) (by omega) (by omega)
    have htask2 := htask ((k.runningTerminal + 2) % 3) (by omega) (by omega)
    simp only [turnsAhead, hrun, htask1, htask2]
  · refine ⟨?_, fun ht => hlive ((htask t h0 h3).mp ht).1⟩
    -- the new terminal is neither `t` nor the running one
    have hnt : n ≠ t := fun heq => hlive (by rw [← heq]; exact hnone)
    have hnm : n ≠ k.runningTerminal := fun heq => hmain (by rw [← hcurr, ← heq]; exact hnone)
    have hthird : t = k.runningTerminal ∨
        (t = (k.runningTerminal + 1) % 3 ∧ (k.runningTerminal + 2) % 3 = n) ∨
        (t ≠ (k.runningTerminal + 1) % 3 ∧ (k.runningTerminal + 1) % 3 = n ∧ t = (n + 1) % 3 ∧
          (n + 2) % 3 = k.runningTerminal) := by
      clear htask
      omega
    have htask1 := htask ((n + 1) % 3) (by omega) (by omega)
    have htask2 := htask ((n + 2) % 3) (by omega) (by omega)
    simp only [turnsAhead, hrun, htask1, htask2, if_neg (Ne.symm hnt)]
    rcases hthird with htm | ⟨hnext, hnn⟩ | ⟨hnext, hnn, hafter, hback⟩
    · rw [if_pos htm]
      split_ifs <;> decide
    · have htm : t ≠ k.runningTerminal := by clear htask1 htask2 htask; omega
      rw [if_neg htm, if_pos hnext, hnn, if_pos hnone]
      split_ifs <;> decide
    · have htm : t ≠ k.runningTerminal := by clear htask1 htask2 htask; omega
      rw [if_neg htm, if_neg hnext, hnn, if_pos hnone, if_pos hafter, hback, hcurr, if_neg]
      rintro ⟨heq, -⟩
      exact hmain heq

/-- A tick goes to a terminal with a task or brings its turn closer. -/
theorem Effect.turnsAhead_lt {img : Image} {tab : TableAddr} {k k' : Kernel} (h : k.Inv)
    (he : Effect img tab k .tick k') {t : Int} (h0 : 0 ≤ t) (h3 : t < 3) (hlive : k.currTask t ≠ -1) :
    (k'.mainProcess = k'.currTask t ∨ turnsAhead t k' < turnsAhead t k) ∧ k'.currTask t ≠ -1 := by
  obtain ⟨hm0, hm3, hcurr, hmain⟩ := h.running
  cases he with
  | unswitched hnone =>
    refine ⟨.inl ?_, hlive⟩
    have htm : t = k.runningTerminal := by
      by_contra hne
      exact hlive (checkTasks_none h hnone h0 h3 hne)
    rw [htm, hcurr]
  | @resumed n _ hn0 hn3 hnext' hne hlive' hr =>
    have htask : k'.currTask = k.currTask := hr.currTask
    have hrun : k'.runningTerminal = n := by
      unfold runningTerminal
      rw [hr.mainProcess, hr.processNum]
      exact (h.1.curr n hn0 hn3 hlive').2.2
    rw [htask, hr.mainProcess]
    refine ⟨?_, hlive⟩
    -- either the tick has gone to `t` itself, or to a terminal on the way to it
    by_cases htn : t = n
    · exact .inl (by rw [htn])
    right
    have hfound := checkTasks_some h hn0 hn3 hlive' hnext'
    unfold turnsAhead
    rw [hrun, htask, if_neg htn]
    by_cases htm : t = k.runningTerminal
    · rw [if_pos htm]
      split_ifs <;> decide
    · rw [if_neg htm]
      have hnm : n ≠ k.runningTerminal := fun heq => hne (by rw [heq, hcurr])
      rcases hfound with heq | ⟨heq, hnone⟩
      · -- the running terminal is the last of the three
        have hnn : (n + 2) % 3 = k.runningTerminal := by omega
        have hnt : t = (n + 1) % 3 := by omega
        have htask1 : k.currTask ((k.runningTerminal + 1) % 3) ≠ -1 := by rw [← heq]; exact hlive'
        rw [if_pos hnt, hnn, hcurr, if_neg hmain, if_neg (by omega), if_neg htask1]
        decide
      · exact absurd hnone (by rw [show (k.runningTerminal + 1) % 3 = t by omega]; exact hlive)

/-! ## Runs -/

/-- A tick. -/
def Event.isTick : Event → Bool
  | .tick => true
  | _ => false

theorem runnerShown_rootExits {k : Kernel} (h : k.Inv) {e : Event} (hshown : RunnerShown k e) :
    RootExitsShown k e := by
  cases e with
  | halt status junk =>
    intro hroot
    obtain ⟨hm0, -, hown0, -, -⟩ := h.main_live
    have hself := h.1.root _ hm0 hroot
    have hshown' : k.processNum k.mainProcess = k.activeTerminal := hshown
    omega
  | _ => trivial

/-- The rotation reads nothing that entering the kernel changes. -/
theorem turnsAhead_enterKernel (t : Int) (k : Kernel) :
    turnsAhead t k.enterKernel = turnsAhead t k := by
  unfold turnsAhead runningTerminal
  simp only [enterKernel_processNum, enterKernel_mainProcess, enterKernel_currTask]

/-- **One event**: a terminal with a task keeps one; its turn comes closer with each tick that does
not schedule it, and no other event takes it further away. -/
theorem step_rotation {img : Image} (hshell : ShellStarts img) (tab : TableAddr) {k : Kernel}
    {e : Event} (h : k.Inv) (hfits : e.Fits img) (hshown : RunnerShown k e) {t : Int} (h0 : 0 ≤ t)
    (h3 : t < 3) (hlive : k.currTask t ≠ -1) :
    (step img tab k e).currTask t ≠ -1 ∧
      (¬ e.isTick → turnsAhead t (step img tab k e) ≤ turnsAhead t k) ∧
      (e.isTick → (step img tab k e).mainProcess = (step img tab k e).currTask t ∨
        turnsAhead t (step img tab k e) < turnsAhead t k) := by
  have he := step_effect hshell tab h hfits (runnerShown_rootExits h hshown)
  have hshown' : RunnerShown k.enterKernel e := by
    cases e <;> simp_all [RunnerShown]
  rw [← enterKernel_currTask k] at hlive
  rw [← turnsAhead_enterKernel t k]
  -- the interrupt entry changes neither the tasks nor the distance, so both are read behind it
  generalize step img tab k e = k' at he
  generalize k.enterKernel = k₁, h.enterKernel = h₁ at he hshown' hlive
  by_cases htick : e = .tick
  · subst htick
    obtain ⟨hserved, hlive'⟩ := he.turnsAhead_lt h₁ h0 h3 hlive
    exact ⟨hlive', fun hno => absurd rfl hno, fun _ => hserved⟩
  · obtain ⟨hle, hlive'⟩ := he.turnsAhead_le h₁ hshown' htick h0 h3 hlive
    refine ⟨hlive', fun _ => hle, fun hyes => absurd hyes ?_⟩
    cases e with
    | tick => exact absurd rfl htick
    | _ => exact Bool.false_ne_true

/-- **No starvation**: in a run whose commands and programs fit and whose processes call execute and halt
on displayed terminals, every terminal with a task is scheduled by one of any three ticks, and a tick
leaves the running task in place only if no other terminal has a task. -/
theorem rotation_fair (img : Image) (hshell : ShellStarts img) (tab : TableAddr) (k : Kernel)
    (h : k.Inv) (pre seg : List Event) (hfits : ∀ e ∈ pre ++ seg, e.Fits img)
    (hshown : Along (step img tab) RunnerShown k (pre ++ seg)) :
    let s := run (step img tab) k pre
    (∀ t, 0 ≤ t → t < 3 → s.currTask t ≠ -1 → seg.countP Event.isTick = 3 →
      ∃ before after, seg = before ++ .tick :: after ∧
        let s' := run (step img tab) s (before ++ [.tick])
        s'.mainProcess = s'.currTask t) ∧
    ((step img tab s .tick).mainProcess = s.mainProcess →
      ∀ t, 0 ≤ t → t < 3 → s.currTask t ≠ -1 → t = s.runningTerminal) := by
  intro s
  have hstep : ∀ k e, Inv k → (Event.Fits img e ∧ RunnerShown k e) → (step img tab k e).Inv :=
    fun k e hk hC => inv_step hshell tab hk hC.1 (runnerShown_rootExits hk hC.2)
  have hboth : Along (step img tab) (fun k e => Event.Fits img e ∧ RunnerShown k e) k (pre ++ seg) :=
    along_and.mpr ⟨along_of_forall hfits k, hshown⟩
  obtain ⟨hpre, hseg⟩ := (along_append k pre seg).mp hboth
  have hs : s.Inv := invariant_run hstep h hpre
  constructor
  · intro t h0 h3 hlive hticks
    -- `turnsAhead` is at most two, and each of the three ticks serves the terminal or lowers it
    obtain ⟨before, e, after, heq, htick, hserved⟩ := served_within
      (fun k => k.Inv ∧ k.currTask t ≠ -1) Event.isTick
      (fun k e => (step img tab k e).mainProcess = (step img tab k e).currTask t) (turnsAhead t)
      (fun k e hk hC =>
        ⟨hstep k e hk.1 hC, (step_rotation hshell tab hk.1 hC.1 hC.2 h0 h3 hk.2).1⟩)
      (fun k e hk hC => (step_rotation hshell tab hk.1 hC.1 hC.2 h0 h3 hk.2).2.1)
      (fun k e hk hC => (step_rotation hshell tab hk.1 hC.1 hC.2 h0 h3 hk.2).2.2)
      ⟨hs, hlive⟩ hseg (by rw [hticks]; exact turnsAhead_lt t s)
    cases e with
    | tick => exact ⟨before, after, heq, by rw [run_append]; exact hserved⟩
    | _ => cases htick
  · -- a switch would make another process the running one
    intro hsame t h0 h3 hlive
    by_contra hne
    have he := step_effect hshell tab hs (e := .tick) trivial trivial
    generalize step img tab s .tick = s' at he hsame
    cases he with
    | unswitched hnone =>
      apply hlive
      rw [← enterKernel_currTask]
      apply checkTasks_none hs.enterKernel hnone h0 h3
      unfold runningTerminal
      rw [enterKernel_processNum, enterKernel_mainProcess]
      exact hne
    | resumed _ _ _ hne' _ hr =>
      apply hne'
      rw [← hr.mainProcess, hsame, enterKernel_mainProcess]

/-- Two terminals, the second one with a child: one of three ticks goes to the first. -/
theorem rotation_fair_sample :
    ∃ before after, [Event.execute shell noJunk, .tick, .tick, .tick] = before ++ .tick :: after ∧
      let s := run (step sampleImage sampleTable) (run (step sampleImage sampleTable)
        (boot sampleImage sampleTable noJunk (sampleKernel fun _ => 0)) [.switchTerminal 1 noJunk])
        (before ++ [.tick])
      s.mainProcess = s.currTask 0 :=
  (rotation_fair sampleImage shellStarts_sampleImage sampleTable _
    (inv_boot shellStarts_sampleImage sampleTable noJunk (sampleKernel fun _ => 0))
    [.switchTerminal 1 noJunk] [.execute shell noJunk, .tick, .tick, .tick]
    (by
      intro e he
      simp only [List.cons_append, List.nil_append, List.mem_cons, List.not_mem_nil, or_false] at he
      rcases he with rfl | rfl | rfl | rfl | rfl
      · trivial
      · exact fits_shell shellStarts_sampleImage noJunk
      all_goals trivial)
    (by decide +kernel)).1 0 (by decide) (by decide) (by decide +kernel) (by decide)

/-- On the second terminal, a program that does not fit is executed, then the shell, which exits.
The number in the PCB of slot 3, which was never created, makes process 0 the task of both
terminals, and a tick finds no other. -/
theorem rotation_stuck {k : Kernel} (h : k.Inv) (hmain1 : k.mainProcess = 1)
    (hactive1 : k.activeTerminal = 1) (hnum0 : k.processNum 0 = 0) (hfree3 : k.processNum 3 = -1)
    (hfree4 : k.processNum 4 = -1) (htask0 : k.currTask 0 = 0) (htask2 : k.currTask 2 = -1)
    (hstale : (k.pcb 3).pid = 0) :
    let es := [Event.execute bigCommand noJunk, .execute shell noJunk, .halt 0 noJunk]
    let s := run (step bigImage sampleTable) k es
    Along (step bigImage sampleTable) RunnerShown k (es ++ [.tick]) ∧
      (step bigImage sampleTable s .tick).mainProcess = s.mainProcess ∧
      s.currTask 1 ≠ -1 ∧ 1 ≠ s.runningTerminal := by
  intro es s
  obtain ⟨prog, hprog, hlen⟩ := findProgram_bigImage noJunk
  obtain ⟨hmain, -, hnum, htask, -, hhung, hshown⟩ := leaked_slot shellStarts_bigImage
    sampleTable h (by rw [hmain1, hactive1]) hfree3 hfree4 (by decide) hprog hlen 0
  change s.mainProcess = _ at hmain
  change s.processNum = _ at hnum
  change ∀ t, 0 ≤ t → t < 3 → s.currTask t = _ at htask
  change s.hung = false at hhung
  refine ⟨(along_append k es [Event.tick]).mpr ⟨hshown, trivial, trivial⟩, ?_⟩
  generalize s = s at *
  rw [hstale, hactive1] at htask
  -- both terminals now have process 0 for their task
  have hs0 : s.mainProcess = 0 := hmain.trans hstale
  have hn0 : s.processNum 0 = 0 := by
    rw [hnum, Function.update_of_ne (by decide), hnum0]
  have h0 : s.currTask 0 = 0 := (htask 0 (by decide) (by decide)).trans htask0
  have h1 : s.currTask 1 = 0 := htask 1 (by decide) (by decide)
  have h2 : s.currTask 2 = -1 := (htask 2 (by decide) (by decide)).trans htask2
  have hnone : s.enterKernel.checkTasks s.enterKernel.mainProcess = -1 := by
    simp [checkTasks, checkTasksLoop, hs0, hn0, h0, h1, h2]
  refine ⟨?_, ?_, ?_⟩
  · rw [step_of_not_hung hhung]
    dsimp only
    rw [schedulerHandler, if_pos hnone, enterKernel_mainProcess]
  · rw [h1]
    decide
  · unfold runningTerminal
    rw [hs0, hn0]
    decide

theorem rotation_not_fair :
    let k := step bigImage sampleTable (boot bigImage sampleTable noJunk (sampleKernel fun _ => 0))
      (.switchTerminal 1 noJunk)
    let es := [Event.execute bigCommand noJunk, .execute shell noJunk, .halt 0 noJunk]
    let s := run (step bigImage sampleTable) k es
    k.Inv ∧ Along (step bigImage sampleTable) RunnerShown k (es ++ [.tick]) ∧
      (step bigImage sampleTable s .tick).mainProcess = s.mainProcess ∧
      s.currTask 1 ≠ -1 ∧ 1 ≠ s.runningTerminal :=
  have hinv := inv_step (e := .switchTerminal 1 noJunk) shellStarts_bigImage sampleTable
    (inv_boot shellStarts_bigImage sampleTable noJunk (sampleKernel fun _ => 0)) trivial trivial
  ⟨hinv, rotation_stuck hinv (by decide +kernel) (by decide +kernel) (by decide +kernel)
    (by decide +kernel) (by decide +kernel) (by decide +kernel) (by decide +kernel)
    (by decide +kernel)⟩

end Kernel

end SrirachOS
