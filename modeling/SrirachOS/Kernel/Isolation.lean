import SrirachOS.Kernel.Coherence

/-!
# Memory Isolation

What user mode can reach: first for any sequence of the calls that change the mapping, then for
the states of a run of the kernel, whose events are such sequences.

- `user_isolation`: after any sequence of calls, user mode reaches the frame mapped last and,
  after a `vidmap`, one page of video memory, and nothing else,
- `step_paging`: what an event of the kernel does to the mapping is a sequence of calls,
- `user_isolation_run`: the running process reaches its own frame and a page of the screen.
-/

namespace SrirachOS

open Foundation

/-! ## Sequences of calls -/

/-- **Memory isolation**: after any sequence of calls in which `get_vid_mem` is only asked while
a terminal owns the running process, a user-mode access that succeeds lies in the program page,
and goes to the frame mapped last, or, after a `vidmap`, in the video page, and goes to a page
of the screen. It never reaches the kernel's page or another frame. -/
theorem user_isolation (tab : TableAddr) (pg : Paging) (words : Nat → Nat → Nat)
    (calls : List PagingCall) (hlive : ∀ call ∈ calls, LiveMain call) (va pa : Nat)
    (hva : userTranslate tab words (run (pagingStep tab) (setupPaging tab pg) calls) va = some pa) :
    ((∃ pid, lastMapped calls = some pid ∧ 0x8000000 ≤ va ∧ va < 0x8400000 ∧
        pa = frameAddr pid.toNat + (va - 0x8000000)) ∨
      (Vidmapped calls ∧ 0x8800000 ≤ va ∧ va < 0x8801000 ∧
        ∃ page, ScreenPage page ∧ pa = page + (va - 0x8800000))) ∧
    ¬ (0x400000 ≤ pa ∧ pa < 0x800000) ∧
    ∀ pid, frameAddr pid ≤ pa → pa < frameAddr pid + 0x400000 →
      ∃ mapped, lastMapped calls = some mapped ∧ mapped.toNat = pid := by
  have hshape := shape_run calls (shape_setupPaging tab pg) hlive
  rcases userTranslate_of_shape hshape words hva with
    ⟨mapped, hlast, hdir, hpa⟩ | ⟨hvid, hdir, htable, page, hpage, hpa⟩
  · have hmod : va % 0x400000 = va - 0x8000000 := by omega
    refine ⟨.inl ⟨mapped, hlast, by omega, by omega, by omega⟩, ?_, fun pid hge hlt => ?_⟩
    · unfold frameAddr at hpa
      omega
    · refine ⟨mapped, hlast, ?_⟩
      unfold frameAddr at hpa hge hlt
      omega
  · have hvid : Vidmapped calls := hvid.resolve_left id
    have hlow : pa < 0x400000 := by
      rcases hpage with rfl | rfl | rfl | rfl <;> omega
    refine ⟨.inr ⟨hvid, by omega, by omega, page, hpage, by omega⟩, by omega,
      fun pid hge _ => ?_⟩
    unfold frameAddr at hge
    omega

/-- Slot 2 is mapped, a process of the first terminal calls `vidmap`, and slot 2 is mapped again
while the first terminal is displayed. -/
theorem user_isolation_sample :
    let calls : List PagingCall := [.mapProgram 2, .getVidmapPage, .mapProgram 2,
      .mapVid ⟨fun _ => 2, 2, 0, 0⟩]
    ∀ va pa, userTranslate Kernel.sampleTable (fun _ _ => 0)
        (run (pagingStep Kernel.sampleTable) (setupPaging Kernel.sampleTable
          ⟨fun _ => 0, fun _ => 0⟩) calls) va = some pa →
      ¬ (0x400000 ≤ pa ∧ pa < 0x800000) :=
  fun va pa hva => (user_isolation Kernel.sampleTable ⟨fun _ => 0, fun _ => 0⟩ (fun _ _ => 0) _
    (by
      intro call hcall
      simp only [List.mem_cons, List.not_mem_nil, or_false] at hcall
      rcases hcall with rfl | rfl | rfl | rfl
      · trivial
      · trivial
      · trivial
      · exact .inr (.inr rfl)) va pa hva).2.1

/-- A process of the first terminal calls `vidmap`; its root shell exits in the background and is
scheduled again: the page at 136 MB is the one that the word in front of `terminals` names. -/
theorem user_not_isolated :
    userTranslate Kernel.sampleTable (fun _ _ => 0)
      (run (Kernel.step sampleImage Kernel.sampleTable)
        (Kernel.boot sampleImage Kernel.sampleTable Kernel.noJunk (Kernel.sampleKernel fun _ => 0))
        [.vidmap, .switchTerminal 1 Kernel.noJunk, .tick, .halt 0 Kernel.noJunk, .tick]).paging
      0x8800000 = some 0 ∧ ¬ ScreenPage 0 :=
  ⟨by decide +kernel, by unfold ScreenPage; decide⟩

namespace Kernel

/-! ## The kernel's calls -/

/-- The mapping of `k'` comes from that of `k` by calls that are made while a terminal owns the
running process. -/
def CallsLead (tab : TableAddr) (k k' : Kernel) : Prop :=
  ∃ calls, (∀ call ∈ calls, LiveMain call) ∧ k'.paging = run (pagingStep tab) k.paging calls

theorem callsLead_nil (tab : TableAddr) {k k' : Kernel} (h : k'.paging = k.paging) :
    CallsLead tab k k' :=
  ⟨[], by simp, h⟩

theorem callsLead_mapProgram (tab : TableAddr) {k k' : Kernel} {p : Int} (h0 : 0 ≤ p) (h6 : p < 6)
    (h : k'.paging = mapProgram p.toNat k.paging) : CallsLead tab k k' := by
  refine ⟨[.mapProgram (pidByteOf p)], fun call hcall => ?_, ?_⟩
  · rw [List.mem_singleton] at hcall
    rw [hcall]
    trivial
  · have hbyte : (pidByteOf p).toNat = p.toNat := by
      have := toNat_pidByteOf h0 h6
      omega
    rw [h, run_cons, run_nil, pagingStep, hbyte]

/-- **The calls of an event**: they are made for a live process. -/
theorem Effect.callsLead {img : Image} {tab : TableAddr} {k k' : Kernel} {e : Event} (h : k.Inv)
    (he : Effect img tab k e k') : CallsLead tab k k' := by
  cases he with
  | failed command junk hnot => exact callsLead_nil tab rfl
  | started command junk hcreates hslot hc =>
    obtain ⟨-, h0, h6, -⟩ := findSlot_eq_some hslot
    exact callsLead_mapProgram tab h0 (by omega) hc.paging
  | halted status junk h3 hh =>
    obtain ⟨hm0, hm6, -⟩ := h.main_live
    obtain ⟨hq0, hqm, -⟩ := h.parent_live h3
    exact callsLead_mapProgram tab hq0 (by omega) hh.paging
  | restarted status junk hroot hshown hr =>
    obtain ⟨hm0, hm6, -⟩ := h.main_live
    exact callsLead_mapProgram tab hm0 hm6 hr.paging
  | stayed terminal junk hsame => exact callsLead_nil tab rfl
  | displayed terminal junk hne htask => exact callsLead_nil tab rfl
  | first terminal junk hne hnone hfree hc =>
    exact callsLead_mapProgram tab (by omega) (by omega) hc.paging
  | unswitched hnext => exact callsLead_nil tab rfl
  | @resumed t _ h0 h3 hnext hne hlive hr =>
    obtain ⟨hc0, hc6, hown⟩ := h.1.curr t h0 h3 hlive
    -- the program page first, then the video page
    have hlead : CallsLead tab k { k with paging := mapProgram (k.currTask t).toNat k.paging } :=
      callsLead_mapProgram tab hc0 hc6 rfl
    obtain ⟨calls, hcalls, hmap⟩ := hlead
    refine ⟨calls ++ [.mapVid ⟨k.processNum, k.currTask t, k.activeTerminal, k.beforeTerminals⟩],
      fun call hcall => ?_, ?_⟩
    · rcases List.mem_append.mp hcall with hcall | hcall
      · exact hcalls call hcall
      · rw [List.mem_singleton] at hcall
        rw [hcall]
        unfold LiveMain
        dsimp only
        rw [hown]
        omega
    · rw [run_append, ← hmap, hr.paging]
      rfl
  | vidmap =>
    refine ⟨[.getVidmapPage], fun call hcall => ?_, rfl⟩
    rw [List.mem_singleton] at hcall
    rw [hcall]
    trivial

theorem step_paging {img : Image} (hshell : ShellStarts img) (tab : TableAddr) {k : Kernel} {e : Event}
    (h : k.Inv) (hfits : e.Fits img) (hshown : RootExitsShown k e) :
    CallsLead tab k (step img tab k e) := by
  obtain ⟨calls, hlive, heq⟩ :=
    (step_effect hshell tab h hfits hshown).callsLead h.enterKernel
  exact ⟨calls, hlive, by rw [heq, enterKernel_paging]⟩

/-- **Isolation of the running process**: in every state of a run whose commands and programs fit and
whose root shells exit on the displayed terminal, a user-mode access that succeeds goes to the frame of
the running process or to a page of the screen. -/
theorem user_isolation_run (img : Image) (hshell : ShellStarts img) (tab : TableAddr)
    (junk : Nat → UInt8) (k : Kernel) (es : List Event) (hfits : ∀ e ∈ es, e.Fits img)
    (hshown : Along (step img tab) RootExitsShown (boot img tab junk k) es)
    (words : Nat → Nat → Nat) (va pa : Nat) :
    let s := run (step img tab) (boot img tab junk k) es
    userTranslate tab words s.paging va = some pa →
      (0x8000000 ≤ va ∧ va < 0x8400000 ∧ pa = frameAddr s.mainProcess.toNat + (va - 0x8000000)) ∨
      (0x8800000 ≤ va ∧ va < 0x8801000 ∧ ∃ page, ScreenPage page ∧ pa = page + (va - 0x8800000)) := by
  intro s hva
  have hcoherent := (coherent_run img hshell tab junk k es hfits).1.1
  -- the calls of all events, one after the other
  have hcalls : ∀ (es : List Event) (k' : Kernel), k'.Inv → (∀ e ∈ es, e.Fits img) →
      Along (step img tab) RootExitsShown k' es → CallsLead tab k' (run (step img tab) k' es) := by
    intro es
    induction es with
    | nil => exact fun k' _ _ _ => callsLead_nil tab rfl
    | cons e es ih =>
      intro k' hk' hfits' hshown'
      have hfit := hfits' e List.mem_cons_self
      obtain ⟨calls, hlive, heq⟩ := step_paging hshell tab hk' hfit hshown'.1
      obtain ⟨calls', hlive', heq'⟩ := ih _ (inv_step hshell tab hk' hfit hshown'.1)
        (fun f hf => hfits' f (List.mem_cons_of_mem e hf)) hshown'.2
      refine ⟨calls ++ calls', fun call hcall => ?_, ?_⟩
      · exact (List.mem_append.mp hcall).elim (hlive call) (hlive' call)
      · rw [run_cons, heq', heq, run_append]
  have hboot := boot_created hshell tab junk k
  obtain ⟨calls, hlive, hrun⟩ := hcalls es _ (inv_boot hshell tab junk k) hfits hshown
  have hfirst : (boot img tab junk k).paging =
      run (pagingStep tab) (setupPaging tab k.paging) [.mapProgram 0] := hboot.paging
  rw [hfirst, ← run_append] at hrun
  have hlive' : ∀ call ∈ [PagingCall.mapProgram 0] ++ calls, LiveMain call := fun call hcall => by
    rcases List.mem_append.mp hcall with hcall | hcall
    · rw [List.mem_singleton] at hcall
      rw [hcall]
      trivial
    · exact hlive call hcall
  have hshape := shape_run _ (shape_setupPaging tab k.paging) hlive'
  rw [← hrun] at hshape
  rcases userTranslate_of_shape hshape words hva with
    ⟨pid, hlast, hdir, hpa⟩ | ⟨-, hdir, htable, page, hpage, hpa⟩
  · left
    have hprogram := hshape.program
    rw [hlast] at hprogram
    dsimp only at hprogram
    change ((run (step img tab) (boot img tab junk k) es).paging.pageDir 32 : Int) = _ at hcoherent
    rw [hprogram] at hcoherent
    have hframe : frameAddr pid.toNat = frameAddr s.mainProcess.toNat := by
      unfold frameAddr at hcoherent ⊢
      change _ = 0x800000 + 0x1000000 * s.mainProcess + 0x87 at hcoherent
      omega
    exact ⟨by omega, by omega, by omega⟩
  · exact .inr ⟨by omega, by omega, page, hpage, by omega⟩

end Kernel

end SrirachOS
