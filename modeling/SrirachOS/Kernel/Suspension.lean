import SrirachOS.Kernel.Turn

/-!
# Contexts Are Resumed Once

A task's context is saved in three places: by the scheduler, by `switch_terminal` before it starts a
shell, and, in fields of its own, by execute. The scheduler resumes whatever `pit_ebp` and `pit_esp`
hold.

- `suspendStep`: a run with the contexts beside it that were saved when their tasks were last
  suspended, and that have not been resumed,
- `Suspended`: under the invariant the PCBs of all tasks that can be resumed hold these,
- `contexts_fresh`: so the scheduler resumes no other.
-/

namespace SrirachOS

open Foundation

/-- The task that the timer resumes. -/
def Deed.resumes : Deed → Option Int
  | .resumed next => some next
  | .stored _ | .entered _ | .exited _ _ | .suspended | .other => none

namespace Kernel

/-! ## The saved contexts -/

/-- What an event that leads from `k` to `k'` does to the contexts of the suspended tasks. A process
that goes on itself has none: one from before would be out of date. -/
def resave (saved : Int → Option Context) : Kernel × Deed × Kernel → Int → Option Context
  | (k, .resumed next, _) =>
    Function.update (Function.update saved k.mainProcess (some k.enterKernel.cpu)) next none
  | (k, .suspended, _) => Function.update saved k.mainProcess (some k.enterKernel.cpu)
  | (_, .stored _, k') | (_, .entered _, k') | (_, .exited _ _, k') | (_, .other, k') =>
    if k'.cpu.kont.starting then saved else Function.update saved k'.mainProcess none

/-- The machine with the contexts of the suspended tasks beside it. -/
def suspendStep (img : Image) (tab : TableAddr) :
    Kernel × (Int → Option Context) → PreemptEvent → Kernel × (Int → Option Context) :=
  driven (preemptStep img tab) (fun k e => some (k, k.deed e, preemptStep img tab k e)) resave

/-- The context that the scheduler loads was saved when its task was last suspended, and has not been
loaded before. -/
def ResumesSaved (s : Kernel × (Int → Option Context)) (e : PreemptEvent) : Prop :=
  ∀ next ∈ (s.1.deed e).resumes, s.2 next = some (s.1.pcb next).pit

/-! ## The invariant -/

/-- What the PCBs of the tasks that can be resumed hold has been saved for it. -/
structure Suspended (saved : Int → Option Context) (k : Kernel) : Prop where
  task : ∀ t, 0 ≤ t → t < 3 → k.currTask t ≠ -1 → k.currTask t ≠ k.mainProcess →
    saved (k.currTask t) = some (k.pcb (k.currTask t)).pit
  /-- the running process, too, while a first shell is being started -/
  main : k.cpu.kont.starting = true → saved k.mainProcess = some (k.pcb k.mainProcess).pit

section Suspended

variable {owner : Int → Int} {k k' : Kernel} {saved : Int → Option Context}

/-- The running process goes on, or an execute. -/
theorem Suspended.goesOn (h : Suspended saved k) (htask : k'.currTask = k.currTask)
    (hmain : k'.mainProcess = k.mainProcess) (hpcb : k'.pcb = k.pcb)
    (hstart : k'.cpu.kont.starting = true → k.cpu.kont.starting = true) :
    Suspended (if k'.cpu.kont.starting then saved else Function.update saved k'.mainProcess none)
      k' where
  task t h0 h3 hlive hne := by
    rw [htask] at hlive hne ⊢
    rw [hpcb, ← h.task t h0 h3 hlive (by rw [← hmain]; exact hne)]
    split
    · rfl
    · exact Function.update_of_ne hne ..
  main hs := by
    rw [if_pos hs, hmain, hpcb]
    exact h.main (hstart hs)

/-- Another process runs, and the tasks of the other terminals are as they were. -/
theorem Suspended.replaced (h : Suspended saved k) (hstart : k'.cpu.kont.starting = false)
    (hsame : ∀ t, 0 ≤ t → t < 3 → k'.currTask t ≠ -1 → k'.currTask t ≠ k'.mainProcess →
      k'.currTask t = k.currTask t ∧ (k'.pcb (k.currTask t)).pit = (k.pcb (k.currTask t)).pit ∧
        (k.currTask t = k.mainProcess → k.cpu.kont.starting = true)) :
    Suspended (if k'.cpu.kont.starting then saved else Function.update saved k'.mainProcess none)
      k' where
  task t h0 h3 hlive hne := by
    obtain ⟨heq, hpit, hmain⟩ := hsame t h0 h3 hlive hne
    rw [if_neg (by rw [hstart]; exact Bool.false_ne_true), Function.update_of_ne hne, heq, hpit]
    rw [heq] at hlive
    by_cases hm : k.currTask t = k.mainProcess
    · rw [hm]
      exact h.main (hmain hm)
    · exact h.task t h0 h3 hlive hm
  main hs := by
    rw [hstart] at hs
    cases hs

/-- A new process is entered. The task of another terminal was suspended before, or is for a first
shell. -/
theorem Suspended.entered (h : Suspended saved k) {caller : Caller} {below : Kont} {prog : Program}
    {i : Int} (hmain : ∀ t, 0 ≤ t → t < 3 → t ≠ k.activeTerminal → k.currTask t = k.mainProcess →
      k.cpu.kont.starting = true) :
    Suspended (resave saved (k, .entered i, k.enterProgram caller below prog i))
      (k.enterProgram caller below prog i) := by
  have hpcb := enterProgram_pcb caller below prog i k
  have htask : ∀ t, (k.enterProgram caller below prog i).currTask t =
      if t = k.activeTerminal then i else k.currTask t := fun t => Function.update_apply ..
  have hstart : (k.enterProgram caller below prog i).cpu.kont.starting = false := rfl
  refine h.replaced hstart fun t h0 ht hlive hne => ?_
  change (k.enterProgram caller below prog i).currTask t ≠ i at hne
  rw [htask] at hne ⊢
  split at hne
  · exact absurd rfl hne
  · next hta =>
    rw [if_neg hta, hpcb, Function.update_of_ne hne]
    exact ⟨rfl, rfl, hmain t h0 ht hta⟩

/-- What a turn does to the contexts of the suspended tasks. -/
theorem Suspended.turn (h : Suspended saved k) (hk : k.Concurrent owner) {d : Deed}
    {owner' : Int → Int} (hturn : Turn owner k d owner' k') :
    Suspended (resave saved (k, d, k')) k' := by
  obtain ⟨hm0, hm6, hown0, hown3, hcurr, hnum⟩ := hk.main_live
  cases hturn with
  | other hnum htask hmain hpcb hstart => exact h.goesOn htask hmain hpcb hstart
  | @stored caller prog i below hkont h0 hfree hnone =>
    refine h.goesOn rfl rfl rfl fun hs => ?_
    rw [hkont]
    cases caller <;> exact hs
  | child hkont h3 h6 hfree hinum hshown =>
    refine h.entered fun t h0 ht hta hm => absurd ?_ hta
    exact (hk.curr_eq_main h0 ht hm).trans (hnum.symm.trans hshown.symm)
  | first hkont hfree hnone => exact h.entered fun _ _ _ _ _ => by rw [hkont]; rfl
  | halted h3 hh =>
    have hkont : k'.cpu.kont = .user := by
      rw [hh.cpu, enterKernel_pcb, enterKernel_mainProcess]
      exact hk.frame _ h3 hm6 (by omega)
    have hmain := hh.mainProcess
    refine h.replaced (by rw [hkont]; rfl) fun t h0 ht hlive hne => ?_
    have htask := hh.currTask t
    rw [enterKernel_currTask, enterKernel_mainProcess] at htask
    have hpit := (hh.pcb (k.currTask t)).2.2.2
    rw [enterKernel_pcb] at hpit
    split at htask
    · exact absurd (htask.trans hmain.symm) hne
    · next hnot => exact ⟨htask, hpit, fun hm => absurd ⟨h0, ht, hm⟩ hnot⟩
  | restarted hroot hshown hr =>
    have hmain := hr.mainProcess
    have htask := hr.currTask
    rw [enterKernel_mainProcess] at hmain
    rw [enterKernel_currTask] at htask
    refine h.replaced (by rw [hr.cpu]; rfl) fun t h0 ht hlive hne => ?_
    rw [htask, hmain] at hne
    have hpit := (hr.pcb_of_ne (k.currTask t) (by rw [enterKernel_mainProcess]; exact hne)).2
    rw [enterKernel_pcb] at hpit
    exact ⟨congrFun htask t, hpit, fun hm => absurd hm hne⟩
  | @resumed u _ h0 h3 hne hlive hstart hr =>
    have hmain := hr.mainProcess
    have htask := hr.currTask
    have hsaved := hr.pcb_saved
    have hcpu := hr.cpu
    rw [enterKernel_currTask] at htask
    rw [enterKernel_mainProcess, enterKernel_pcb] at hsaved
    rw [enterKernel_pcb] at hcpu
    have hcall := hk.task u h0 h3 hlive
    rw [taskKont_of_ne hne] at hcall
    exact
      { task := fun t ht0 ht3 htlive htne => by
          rw [htask] at htlive htne ⊢
          rw [hmain] at htne
          unfold resave
          dsimp only
          rw [Function.update_of_ne htne]
          by_cases hm : k.currTask t = k.mainProcess
          · rw [hm, Function.update_self, hsaved]
          · have hpcb := hr.pcb_of_ne (k.currTask t) (by rw [enterKernel_mainProcess]; exact hm)
            rw [enterKernel_pcb] at hpcb
            rw [Function.update_of_ne hm, hpcb]
            exact h.task t ht0 ht3 htlive hm
        main := fun hs => by
          rw [hcpu, hcall.starting] at hs
          cases hs }
  | @suspended u h0 h3 hnone hstart junk =>
    have hmain := enterKernel_mainProcess k
    have hpcb := enterKernel_pcb k
    exact
      { task := fun t ht0 ht3 htlive htne => by
          change k.enterKernel.currTask t ≠ -1 at htlive
          change k.enterKernel.currTask t ≠ k.enterKernel.mainProcess at htne
          change resave saved _ (k.enterKernel.currTask t) =
            some (({ k.enterKernel with activeTerminal := u } : Kernel).saveMain.pcb
              (k.enterKernel.currTask t)).pit
          rw [saveMain, modifyPcb_of_ne htne]
          rw [enterKernel_currTask] at htlive htne ⊢
          rw [hmain] at htne
          unfold resave
          dsimp only
          rw [Function.update_of_ne htne, hpcb]
          exact h.task t ht0 ht3 htlive htne
        main := fun _ => by
          change resave saved _ k.enterKernel.mainProcess =
            some (({ k.enterKernel with activeTerminal := u } : Kernel).saveMain.pcb
              k.enterKernel.mainProcess).pit
          rw [saveMain, modifyPcb_same, hmain]
          exact Function.update_self .. }

/-- The scheduler resumes the task of another terminal. -/
theorem Suspended.resumes (h : Suspended saved k) {d : Deed} {owner' : Int → Int}
    (hturn : Turn owner k d owner' k') : ∀ next ∈ d.resumes, saved next = some (k.pcb next).pit := by
  intro next hnext
  cases hturn with
  | resumed h0 h3 hne hlive hstart hr =>
    obtain rfl := Option.some.inj hnext
    exact h.task _ h0 h3 hlive hne
  | _ => cases hnext

end Suspended

/-! ## Runs -/

theorem suspended_boot {img : Image} (hshell : ShellStarts img) (tab : TableAddr)
    (junk : Nat → UInt8) (k : Kernel) : Suspended (fun _ => none) (boot img tab junk k) := by
  have hc := boot_created hshell tab junk k
  generalize boot img tab junk k = k' at hc
  exact
    { task := fun t _ _ hlive hne => by
        rw [hc.currTask, Function.update_apply] at hlive hne
        rw [hc.mainProcess] at hne
        split at hne
        · exact absurd rfl hne
        · next hta =>
          rw [if_neg hta] at hlive
          exact absurd rfl hlive
      main := fun hs => by
        rw [hc.cpu] at hs
        cases hs }

/-- **Contexts are resumed once**: in a calm run from boot the context that the scheduler loads is
always the one that was saved when its task was last suspended. -/
theorem contexts_fresh (img : Image) (hshell : ShellStarts img) (tab : TableAddr)
    (junk : Nat → UInt8) (k : Kernel) (es : List PreemptEvent)
    (hcalm : Along (preemptStep img tab) Calm (boot img tab junk k) es) :
    Along (suspendStep img tab) ResumesSaved (boot img tab junk k, fun _ => none) es := by
  have halong : Along (suspendStep img tab) (fun s e => Calm s.1 e)
      (boot img tab junk k, fun _ => none) es := along_driven hcalm _
  refine along_of_invariant (I := fun s => ∃ owner, s.1.Concurrent owner ∧ Suspended s.2 s.1)
    (fun s e h hc => ?_) (fun s e h hc => ?_)
    ⟨_, concurrent_boot hshell tab junk k, suspended_boot hshell tab junk k⟩ halong
  · obtain ⟨owner, hk, hsaved⟩ := h
    obtain ⟨owner', hturn, hk'⟩ := hk.turn hshell tab hc
    exact ⟨owner', hk', hsaved.turn hk hturn⟩
  · obtain ⟨owner, hk, hsaved⟩ := h
    obtain ⟨owner', hturn, -⟩ := hk.turn hshell tab hc
    exact hsaved.resumes hturn

/-- The shell of the second terminal is suspended in a call of execute, and resumed there. -/
theorem contexts_fresh_sample :
    Along (suspendStep sampleImage sampleTable) ResumesSaved
      (boot sampleImage sampleTable noJunk (sampleKernel fun _ => 0), fun _ => none)
      (.switchTerminal 1 noJunk :: steps 40 ++ .execute shell noJunk :: steps 5 ++ [.tick, .tick] ++
        steps 40 ++ [.tick]) :=
  contexts_fresh sampleImage shellStarts_sampleImage sampleTable noJunk (sampleKernel fun _ => 0) _
    (by decide +kernel)

/-- The timer interrupts the execute that `switch_terminal` has begun for the third terminal: the
shell of the second one, below it, is later resumed in that execute once more. -/
theorem context_resumed_twice :
    let s := run (suspendStep sampleImage sampleTable)
      (boot sampleImage sampleTable noJunk (sampleKernel fun _ => 0), fun _ => none)
      (.switchTerminal 1 noJunk :: steps 40 ++ [.switchTerminal 2 noJunk, .tick, .tick] ++ steps 40 ++
        [.tick])
    ¬ ResumesSaved s .tick ∧ s.1.currTask 2 = 2 ∧
      (preemptStep sampleImage sampleTable s.1 .tick).mainProcess = 1 ∧
      (preemptStep sampleImage sampleTable s.1 .tick).cpu.kont.starting = true := by
  intro s
  have hresumes : 1 ∈ (s.1.deed .tick).resumes := by decide +kernel
  have hnone : s.2 1 = none := by decide +kernel
  refine ⟨fun hsaved => ?_, by decide +kernel, by decide +kernel, by decide +kernel⟩
  have hsome := hsaved 1 hresumes
  rw [hnone] at hsome
  cases hsome

end Kernel

end SrirachOS
