import SrirachOS.Kernel.Invariant

/-!
# Live Tasks

Each terminal's current task, and the running process, is a live process, as long as root shells
exit on the displayed terminal: the shell that replaces a root shell is started for the displayed
terminal, whichever terminal has lost its own.

- `tasksLive_broken`: what the exit of a background root shell leaves behind,
- `tasksLive_iff`: so the tasks are live in every state of a run exactly when there is no such exit.
-/

namespace SrirachOS

open Foundation

namespace Kernel

/-- Each terminal has no task or a live one of its own, and the running process is live. -/
def TasksLive (k : Kernel) : Prop :=
  (∀ t, 0 ≤ t → t < 3 → k.currTask t = -1 ∨
    (0 ≤ k.currTask t ∧ k.currTask t < 6 ∧ k.processNum (k.currTask t) = t)) ∧
  0 ≤ k.mainProcess ∧ k.mainProcess < 6 ∧ k.processNum k.mainProcess ≠ -1

theorem Inv.tasksLive {k : Kernel} (h : k.Inv) : k.TasksLive := by
  obtain ⟨hm0, hm6, hown0, -, -⟩ := h.main_live
  refine ⟨fun t h0 h3 => ?_, hm0, hm6, by omega⟩
  by_cases hnone : k.currTask t = -1
  · exact .inl hnone
  · exact .inr (h.1.curr t h0 h3 hnone)

/-- **The exit of a background root shell** leaves its terminal with a dead task: the new shell
belongs to the displayed terminal. -/
theorem tasksLive_broken {img : Image} (hshell : ShellStarts img) (tab : TableAddr) {k : Kernel}
    {e : Event} (h : k.Inv) (hhidden : ¬ RootExitsShown k e) : ¬ (step img tab k e).TasksLive := by
  cases e with
  | halt status junk =>
    have hand : k.mainProcess < 3 ∧ k.mainProcess ≠ k.activeTerminal := by
      by_contra hno
      exact hhidden fun hroot => by
        by_contra hne
        exact hno ⟨hroot, hne⟩
    obtain ⟨hroot, hne⟩ := hand
    have hk := h.enterKernel
    rw [step_of_not_hung h.1.hung]
    dsimp only
    rw [← enterKernel_mainProcess k] at hroot hne
    rw [← enterKernel_activeTerminal k] at hne
    generalize k.enterKernel = k at hk hroot hne
    obtain ⟨hpid, hparent, hself, hcurr, hnum, htask⟩ := hk.releaseSlot_root hroot status
    obtain ⟨hm0, -⟩ := hk.main_live
    -- whatever execute does, the released slot stays free and stays the terminal's task
    have hdead : ∀ k' : Kernel, k'.processNum k.mainProcess = -1 →
        k'.currTask k.mainProcess = k.mainProcess → ¬ k'.TasksLive := fun k' hnum' htask' hlive => by
      rcases hlive.1 k.mainProcess hm0 hroot with hnone | ⟨-, -, hown⟩
      · omega
      · rw [htask', hnum'] at hown
        omega
    have hrel : (k.releaseSlot status).processNum k.mainProcess = -1 := by
      rw [hnum]; exact Function.update_self ..
    have hrelTask : (k.releaseSlot status).currTask k.mainProcess = k.mainProcess := by
      rw [htask]; exact hcurr
    unfold systemHalt
    dsimp only
    rw [hpid, if_pos hroot]
    rcases systemExecute_cases commandFits_shell img junk (.halt k.mainProcess (k.pcb k.mainProcess).parentPcb)
        (k.releaseSlot status) with ⟨ret, heq⟩ | ⟨i, k', heq, hslot, hc⟩ | ⟨prog, -, -, hprog, hlen, -⟩
    · rw [heq]
      obtain ⟨hn, ht⟩ := returnFromExecute_tables 4
        ((({ k.releaseSlot status with argBuf := (parseCommand shell).2 } : Kernel).remapParent
          (k.pcb k.mainProcess).parentPcb).pcb k.mainProcess).frame
        (({ k.releaseSlot status with argBuf := (parseCommand shell).2 } : Kernel).remapParent
          (k.pcb k.mainProcess).parentPcb)
      exact hdead _ ((congrFun hn _).trans hrel) ((congrFun ht _).trans hrelTask)
    · rw [heq]
      have hi : k.mainProcess ≠ i := fun hmi => by
        rcases (findSlot_eq_some hslot).1.2 with ⟨-, hia⟩ | ⟨h3, -⟩
        · exact hne (hmi.trans hia)
        · omega
      refine hdead _ ?_ ?_
      · rw [hc.processNum, Function.update_of_ne hi, hrel]
      · rw [hc.currTask, show (k.releaseSlot status).activeTerminal = k.activeTerminal from rfl,
          Function.update_of_ne hne, hrelTask]
    · obtain ⟨prog', hprog', hlen'⟩ := hshell junk
      obtain rfl := Option.some.inj (hprog.symm.trans hprog')
      omega
  | _ => exact absurd trivial hhidden

/-- **Live tasks**: in a run from boot whose commands and programs fit, every terminal's task and the
running process are live in every state exactly when root shells exit on the displayed terminal
only. -/
theorem tasksLive_iff (img : Image) (hshell : ShellStarts img) (tab : TableAddr)
    (junk : Nat → UInt8) (k : Kernel) (es : List Event) (hfits : ∀ e ∈ es, e.Fits img) :
    (∀ pre, pre <+: es → (run (step img tab) (boot img tab junk k) pre).TasksLive) ↔
      Along (step img tab) RootExitsShown (boot img tab junk k) es := by
  exact prefix_iff_along (I := Inv) (B := fun _ e => e.Fits img)
    (fun s e h hf hs => inv_step hshell tab h hf hs) (fun s h => h.tasksLive)
    (fun s e h _ hs => tasksLive_broken hshell tab h hs) (inv_boot hshell tab junk k)
    (along_of_forall hfits _)

/-- A shell on a second terminal runs a program, which halts, and then exits. -/
theorem tasksLive_iff_sample :
    (run (step sampleImage sampleTable) (boot sampleImage sampleTable noJunk
      (sampleKernel fun _ => 0)) [Event.switchTerminal 1 noJunk, .execute shell noJunk, .tick, .tick,
        .halt 0 noJunk, .halt 0 noJunk]).TasksLive :=
  (tasksLive_iff sampleImage shellStarts_sampleImage sampleTable noJunk (sampleKernel fun _ => 0)
    _ (by
      intro e he
      simp only [List.mem_cons, List.not_mem_nil, or_false] at he
      rcases he with rfl | rfl | rfl | rfl | rfl | rfl
      · trivial
      · exact fits_shell shellStarts_sampleImage noJunk
      all_goals trivial)).mpr (by decide +kernel) _ List.prefix_rfl

/-- The root shell of the first terminal exits while the second is displayed. -/
theorem tasksLive_not_always :
    ¬ (run (step sampleImage sampleTable) (boot sampleImage sampleTable noJunk
      (sampleKernel fun _ => 0)) [.switchTerminal 1 noJunk, .tick, .halt 0 noJunk]).TasksLive :=
  fun h => absurd (h.1 0 (by decide) (by decide)) (by decide +kernel)

end Kernel

end SrirachOS
