import SrirachOS.Kernel.Invariant

/-!
# The Screen of a vidmap User

`vidmap` maps one page at 136 MB, through entry 34 of the directory and entry 0 of the page table.
The scheduler maps it again for the process that it resumes; execute, halt and the terminal switch
do not. So the page is right as long as none of them changes what it has to be.

- `VidCoherent`: the page is the one of the running process's terminal,
- `KeepsVideo`: the events that leave it right, by what they find,
- `vidCoherent_iff`: the page is right in every state of a run exactly when each event is one of
  these.
-/

namespace SrirachOS

open Foundation

namespace Kernel

/-! ## The page -/

/-- The page that the process of terminal `t` has to see, when `active` is displayed. -/
def screenOf (active t : Int) : Nat := if t = active then 0xB8000 else 0xB9000 + 0x1000 * t.toNat

/-- Between two events, the page at 136 MB, if there is one, is the screen of the running
process. -/
def VidCoherent (k : Kernel) : Prop :=
  Present (k.paging.pageDir 34) →
    k.paging.pageTable 0 = screenOf k.activeTerminal k.runningTerminal + 7

/-- `get_vid_mem` finds it for a process that a terminal owns. -/
theorem getVidMem_eq_screenOf (env : VidEnv) (h0 : 0 ≤ env.processNum env.mainProcess)
    (h3 : env.processNum env.mainProcess < 3) :
    getVidMem env = screenOf env.activeTerminal (env.processNum env.mainProcess) := by
  unfold getVidMem screenOf terminalVideoAddr
  split
  · rfl
  · rw [if_pos ⟨h0, h3⟩]
    omega

theorem screenPage_screenOf (active : Int) {t : Int} (h0 : 0 ≤ t) (h3 : t < 3) :
    ScreenPage (screenOf active t) := by
  unfold ScreenPage screenOf
  split <;> omega

/-- Two views of the displays agree on a terminal's page exactly when they agree on whether it is
displayed. -/
theorem screenOf_inj {a b t u : Int} (ht0 : 0 ≤ t) (hu0 : 0 ≤ u) :
    screenOf a t = screenOf b u ↔ (t = a ∧ u = b) ∨ (t ≠ a ∧ u ≠ b ∧ t = u) := by
  unfold screenOf
  split_ifs <;> omega

/-- Mapping a program leaves the page of `vidmap` alone. -/
theorem mapProgram_video (pid : Nat) (pg : Paging) :
    (mapProgram pid pg).pageDir 34 = pg.pageDir 34 ∧ (mapProgram pid pg).pageTable = pg.pageTable := by
  constructor
  · simp [mapProgram, mapPage]
  · rfl

/-- A step that keeps the page of `vidmap` as it is. -/
theorem vidCoherent_congr {k k' : Kernel} (hdir : k'.paging.pageDir 34 = k.paging.pageDir 34)
    (htable : k'.paging.pageTable = k.paging.pageTable)
    (hscreen : screenOf k'.activeTerminal k'.runningTerminal =
      screenOf k.activeTerminal k.runningTerminal) : k'.VidCoherent ↔ k.VidCoherent := by
  unfold VidCoherent
  rw [hdir, htable, hscreen]

/-- When what it has to be changes, the page is right only if it is not there. -/
theorem vidCoherent_changed {k : Kernel} (k' : Kernel) (h : k.VidCoherent)
    (hdir : k'.paging.pageDir 34 = k.paging.pageDir 34)
    (htable : k'.paging.pageTable = k.paging.pageTable) :
    k'.VidCoherent ↔ (Present (k.paging.pageDir 34) →
      screenOf k'.activeTerminal k'.runningTerminal =
        screenOf k.activeTerminal k.runningTerminal) := by
  unfold VidCoherent at h ⊢
  rw [hdir, htable]
  constructor
  · intro h' hpresent
    have h1 := h hpresent
    have h2 := h' hpresent
    omega
  · intro hsame hpresent
    rw [hsame hpresent]
    exact h hpresent

/-- **The events that keep the page right.** `vidmap` maps the video page itself, so the caller's
terminal has to be displayed. Once the page is there, a new process, which belongs to the displayed
terminal, must be started from that terminal; and a terminal switch must not concern the terminal
of the running process. -/
def KeepsVideo (img : Image) (k : Kernel) : Event → Prop
  | .vidmap => k.runningTerminal = k.activeTerminal
  | .execute command junk => Present (k.paging.pageDir 34) → k.Creates img command junk →
      k.runningTerminal = k.activeTerminal
  | .switchTerminal terminal _ => Present (k.paging.pageDir 34) →
      k.activeTerminal ≠ (terminal.val : Nat) →
      if k.currTask (terminal.val : Nat) = -1 then k.runningTerminal = k.activeTerminal
      else k.runningTerminal ≠ k.activeTerminal ∧ k.runningTerminal ≠ (terminal.val : Nat)
  | .halt _ _ => True
  | .tick => True

instance (img : Image) (k : Kernel) : (e : Event) → Decidable (KeepsVideo img k e)
  | .vidmap => inferInstanceAs (Decidable (_ = _))
  | .execute command junk =>
    have : Decidable (k.Creates img command junk) := inferInstanceAs (Decidable (_ ∧ _))
    inferInstanceAs (Decidable (_ → _ → _))
  | .switchTerminal _ _ => inferInstanceAs (Decidable (_ → _ → ite _ _ _))
  | .halt _ _ | .tick => isTrue trivial

/-! ## One event -/

/-- Entering the kernel changes nothing that the page depends on. -/
theorem vidCoherent_enterKernel (k : Kernel) : k.enterKernel.VidCoherent ↔ k.VidCoherent := by
  apply vidCoherent_congr
  · rw [enterKernel_paging]
  · rw [enterKernel_paging]
  · unfold runningTerminal
    rw [enterKernel_activeTerminal, enterKernel_processNum, enterKernel_mainProcess]

/-- A new process of the displayed terminal sees the page of the terminal that ran before. -/
theorem vidCoherent_created {k k' : Kernel} (h : k.Inv) (hvid : k.VidCoherent) {active i : Int}
    (ha0 : 0 ≤ active) (hpaging : k'.paging = mapProgram i.toNat k.paging)
    (hactive : k'.activeTerminal = active) (hrun : k'.runningTerminal = active) :
    k'.VidCoherent ↔
      (Present (k.paging.pageDir 34) → k.runningTerminal = k.activeTerminal) := by
  obtain ⟨hdir, htable⟩ := mapProgram_video i.toNat k.paging
  rw [vidCoherent_changed k' hvid (by rw [hpaging, hdir]) (by rw [hpaging, htable]), hactive, hrun,
    screenOf_inj ha0 h.running.1]
  simp

/-- **One event** leaves the page right exactly when it is one of those listed. -/
theorem Effect.vidCoherent {img : Image} {tab : TableAddr} {k k' : Kernel} {e : Event}
    (h : k.Inv) (hvid : k.VidCoherent) (he : Effect img tab k e k') :
    k'.VidCoherent ↔ KeepsVideo img k e := by
  obtain ⟨hr0, hr3, -, -⟩ := h.running
  cases he with
  | failed command junk hnot =>
    exact ⟨fun _ _ hcreates => absurd hcreates hnot, fun _ => hvid⟩
  | started command junk hcreates hslot hc =>
    have hrun : k'.runningTerminal = k.activeTerminal := by
      unfold runningTerminal
      rw [hc.mainProcess, hc.processNum]
      exact Function.update_self ..
    rw [vidCoherent_created h hvid h.1.active.1 hc.paging hc.activeTerminal hrun]
    exact ⟨fun hp hpresent _ => hp hpresent, fun hk hpresent => hk hpresent hcreates⟩
  | halted status junk h3 hh =>
    refine ⟨fun _ => trivial, fun _ => ?_⟩
    obtain ⟨hdir, htable⟩ := mapProgram_video (k.pcb k.mainProcess).parentPcb.toNat k.paging
    obtain ⟨hq0, hqm, hqown⟩ := h.parent_live h3
    -- the parent belongs to the same terminal
    have hrun : k'.runningTerminal = k.runningTerminal := by
      unfold runningTerminal
      rw [hh.mainProcess, hh.processNum, Function.update_of_ne (by omega)]
      exact hqown
    exact (vidCoherent_congr (by rw [hh.paging, hdir]) (by rw [hh.paging, htable])
      (by rw [hrun, hh.activeTerminal])).mpr hvid
  | restarted status junk hroot hshown hr =>
    refine ⟨fun _ => trivial, fun _ => ?_⟩
    obtain ⟨hdir, htable⟩ := mapProgram_video k.mainProcess.toNat k.paging
    have hrun : k'.runningTerminal = k.runningTerminal := by
      unfold runningTerminal
      rw [hr.mainProcess, hr.processNum]
    exact (vidCoherent_congr (by rw [hr.paging, hdir]) (by rw [hr.paging, htable])
      (by rw [hrun, hr.activeTerminal])).mpr hvid
  | stayed terminal junk hsame =>
    exact ⟨fun _ _ hne => absurd hsame hne, fun _ => hvid⟩
  | displayed terminal junk hne htask =>
    refine (vidCoherent_changed { k with activeTerminal := (terminal.val : Nat) } hvid rfl rfl).trans
      (imp_congr_right fun _ => ?_)
    change screenOf (terminal.val : Nat) k.runningTerminal = _ ↔ (_ → _)
    rw [screenOf_inj hr0 hr0, if_neg htask]
    constructor
    · intro hsame _
      omega
    · intro hboth
      obtain ⟨hold, hnew⟩ := hboth hne
      exact .inr ⟨hnew, hold, rfl⟩
  | first terminal junk hne hnone hfree hc =>
    have hrun : k'.runningTerminal = (terminal.val : Nat) := by
      unfold runningTerminal
      rw [hc.mainProcess, hc.processNum]
      exact Function.update_self ..
    have ht0 : (0 : Int) ≤ (terminal.val : Nat) := by omega
    refine (vidCoherent_created h hvid ht0 hc.paging hc.activeTerminal hrun).trans ?_
    change _ ↔ (_ → _ → _)
    rw [if_pos hnone]
    exact ⟨fun hp hpresent _ => hp hpresent, fun hk hpresent => hk hpresent hne⟩
  | unswitched hnext => exact ⟨fun _ => trivial, fun _ => hvid⟩
  | @resumed t _ h0 h3 hnext hne hlive hr =>
    refine ⟨fun _ => trivial, fun _ _ => ?_⟩
    -- the scheduler asks `get_vid_mem` for the process that it resumes
    have hrun : k'.runningTerminal = t := by
      unfold runningTerminal
      rw [hr.mainProcess, hr.processNum]
      exact (h.1.curr t h0 h3 hlive).2.2
    have henv : k.processNum (k.currTask t) = t := (h.1.curr t h0 h3 hlive).2.2
    have hpage := getVidMem_eq_screenOf
      ⟨k.processNum, k.currTask t, k.activeTerminal, k.beforeTerminals⟩
      (by change 0 ≤ k.processNum (k.currTask t); omega)
      (by change k.processNum (k.currTask t) < 3; omega)
    change _ = screenOf k.activeTerminal (k.processNum (k.currTask t)) at hpage
    rw [hrun, hr.paging, hr.activeTerminal, hpage, henv, ← screenPage_or_flags
      (screenPage_screenOf k.activeTerminal h0 h3)]
    simp [mapVid]
  | vidmap =>
    constructor
    · intro hvid'
      have hpresent : Present ((getVidmapPage tab k.paging).pageDir 34) := by
        have hentry : (getVidmapPage tab k.paging).pageDir 34 = tab.addr ||| 0x7 := by
          simp [getVidmapPage]
        rw [hentry, TableAddr.addr, or_flags _ (by omega)]
        unfold Present
        omega
      have hpage : (getVidmapPage tab k.paging).pageTable 0 = 0xB8000 + 7 := by
        simp [getVidmapPage]
      have hscreen := hpage.symm.trans (hvid' hpresent)
      change 0xB8000 + 7 = screenOf k.activeTerminal k.runningTerminal + 7 at hscreen
      change k.runningTerminal = k.activeTerminal
      unfold screenOf at hscreen
      split at hscreen
      · assumption
      · omega
    · intro hshown _
      change k.runningTerminal = k.activeTerminal at hshown
      change Function.update k.paging.pageTable 0 (0xB8000 ||| 0x7) 0 =
        screenOf k.activeTerminal k.runningTerminal + 7
      rw [Function.update_self, screenOf, if_pos hshown]
      decide

/-! ## Runs -/

/-- The condition reads nothing that entering the kernel changes. -/
theorem keepsVideo_enterKernel (img : Image) (k : Kernel) (e : Event) :
    KeepsVideo img k.enterKernel e ↔ KeepsVideo img k e := by
  have hrun : k.enterKernel.runningTerminal = k.runningTerminal := by
    unfold runningTerminal
    rw [enterKernel_processNum, enterKernel_mainProcess]
  cases e <;> simp only [KeepsVideo, Creates, hrun, findSlot_enterKernel, enterKernel_paging,
    enterKernel_activeTerminal, enterKernel_currTask]

/-- **The page of vidmap**: in a run from boot whose commands and programs fit and whose root shells exit
on the displayed terminal, the page at 136 MB is the screen of the running process in every state exactly
when every event is one of those that keep it right. -/
theorem vidCoherent_iff (img : Image) (hshell : ShellStarts img) (tab : TableAddr)
    (junk : Nat → UInt8) (k : Kernel) (es : List Event) (hfits : ∀ e ∈ es, e.Fits img)
    (hshown : Along (step img tab) RootExitsShown (boot img tab junk k) es) :
    (∀ pre, pre <+: es → (run (step img tab) (boot img tab junk k) pre).VidCoherent) ↔
      Along (step img tab) (KeepsVideo img) (boot img tab junk k) es := by
  have hstep : ∀ s e, Inv s ∧ VidCoherent s → Event.Fits img e ∧ RootExitsShown s e →
      ((step img tab s e).VidCoherent ↔ KeepsVideo img s e) := by
    intro s e hs hB
    have he := step_effect hshell tab hs.1 hB.1 hB.2
    rw [he.vidCoherent hs.1.enterKernel ((vidCoherent_enterKernel s).mpr hs.2),
      keepsVideo_enterKernel]
  have hfirst : (boot img tab junk k).VidCoherent := by
    intro hpresent
    have hpaging : (boot img tab junk k).paging =
        mapProgram (0 : Int).toNat (setupPaging tab k.paging) :=
      (boot_created hshell tab junk k).paging
    rw [hpaging, (mapProgram_video _ _).1] at hpresent
    rw [(shape_setupPaging tab k.paging).video.resolve_right fun hvid => hvid.1] at hpresent
    exact absurd hpresent (by decide)
  exact prefix_iff_along (I := fun s => Inv s ∧ VidCoherent s)
    (fun s e hs hB hC => ⟨inv_step hshell tab hs.1 hB.1 hB.2, (hstep s e hs hB).mpr hC⟩)
    (fun s hs => hs.2) (fun s e hs hB hC hvid => hC ((hstep s e hs hB).mp hvid))
    ⟨inv_boot hshell tab junk k, hfirst⟩
    (along_and.mpr ⟨along_of_forall hfits _, hshown⟩)

/-- A vidmap user runs in the background while another terminal starts a program. -/
theorem vidCoherent_iff_sample :
    (run (step sampleImage sampleTable) (boot sampleImage sampleTable noJunk
      (sampleKernel fun _ => 0)) [Event.vidmap, .switchTerminal 1 noJunk, .tick, .tick,
        .execute shell noJunk, .halt 0 noJunk]).VidCoherent :=
  (vidCoherent_iff sampleImage shellStarts_sampleImage sampleTable noJunk (sampleKernel fun _ => 0)
    _ (by
      intro e he
      simp only [List.mem_cons, List.not_mem_nil, or_false] at he
      rcases he with rfl | rfl | rfl | rfl | rfl | rfl
      on_goal 5 => exact fits_shell shellStarts_sampleImage noJunk
      all_goals trivial) (by decide +kernel)).mpr (by decide +kernel) _ List.prefix_rfl

/-- The shell of the first terminal calls vidmap while the second is displayed. -/
theorem vidCoherent_not_always :
    ¬ (run (step sampleImage sampleTable) (boot sampleImage sampleTable noJunk
      (sampleKernel fun _ => 0)) [.switchTerminal 1 noJunk, .tick, .vidmap]).VidCoherent :=
  fun h => absurd (h (by decide +kernel)) (by decide +kernel)

end Kernel

end SrirachOS
