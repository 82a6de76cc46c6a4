import SrirachOS.Kernel.Coherence
import SrirachOS.Kernel.Turn

/-!
# No Slot Is Shared

The search of execute tests a slot and stores its owner in two steps, with interrupts on. A slot is
occupied from the store on: the program is copied to its frame before the process is there.

- `Occupied`, `occupiedStep`: the slots of the processes, kept beside a run,
- `Counted`: under the invariant they are the slots that the code takes for occupied,
- `slots_exclusive`: so in a calm run no slot is shared, and with it no PCB, no kernel stack and no
  frame.
-/

namespace SrirachOS

open Foundation

/-! ## Who occupies a slot -/

/-- The slots of the processes. -/
structure Occupied where
  /-- of those that have been entered and have not exited -/
  alive : List Int
  /-- of those that an execute has stored the owner of, and is about to enter -/
  coming : List Int

/-- Two slots that have nothing in common. -/
def Apart (p q : Int) : Prop :=
  p ≠ q ∧ Disjoint (Kernel.frameOf p) (Kernel.frameOf q) ∧
    Disjoint (Kernel.stackRegion p) (Kernel.stackRegion q)

/-- No two processes share a slot. -/
def Occupied.Exclusive (o : Occupied) : Prop := (o.alive ++ o.coming).Pairwise Apart

namespace Kernel

/-- The slot in which the shell runs that replaces the running process, a root shell that exits. -/
def replacement (img : Image) (status : UInt8) (junk : Nat → UInt8) (k : Kernel) : Option Int :=
  if (k.pcb k.mainProcess).pid < 3 then
    match systemExecute img shell junk (.halt k.mainProcess (k.pcb k.mainProcess).parentPcb)
        (k.releaseSlot status) with
    | .entered k' => some k'.mainProcess
    | .returned _ _ | .faulted _ | .overran _ => none
  else none

/-- What an event does to the slots of the processes. -/
def occupy (img : Image) (o : Occupied) : Kernel × Deed → Occupied
  | (_, .stored i) => { o with coming := i :: o.coming }
  | (_, .entered i) => ⟨i :: o.alive, o.coming.erase i⟩
  | (k, .exited status junk) =>
    { o with alive := (k.enterKernel.replacement img status junk).toList ++ o.alive.erase k.mainProcess }
  | (_, .resumed _) | (_, .suspended) | (_, .other) => o

/-- The machine with the slots of its processes beside it. -/
def occupiedStep (img : Image) (tab : TableAddr) :
    Kernel × Occupied → PreemptEvent → Kernel × Occupied :=
  driven (preemptStep img tab) (fun k e => some (k, k.deed e)) (occupy img)

/-! ## The count -/

/-- The slots of the processes are those that the code takes for occupied. -/
structure Counted (owner : Int → Int) (k : Kernel) (o : Occupied) : Prop where
  nodup : (o.alive ++ o.coming).Nodup
  alive : ∀ p, p ∈ o.alive ↔ owner p ≠ -1
  coming : ∀ p, p ∈ o.coming ↔ owner p = -1 ∧ k.processNum p ≠ -1
  nonneg : ∀ p ∈ o.alive ++ o.coming, 0 ≤ p

section Counted

variable {owner : Int → Int} {k k' : Kernel} {o : Occupied}

/-- Different slots have nothing in common. -/
theorem Counted.exclusive (h : Counted owner k o) : o.Exclusive := by
  refine List.Pairwise.imp_of_mem (fun {p q} hp hq hne => ?_) h.nodup
  exact ⟨hne, frames_disjoint (h.nonneg p hp) (h.nonneg q hq) hne, stacks_disjoint hne⟩

/-- A slot that the code takes for occupied is one of them. -/
theorem Counted.mem (h : Counted owner k o) {p : Int} (hnum : k.processNum p ≠ -1) :
    p ∈ o.alive ++ o.coming := by
  rw [List.mem_append, h.alive, h.coming]
  by_cases hfree : owner p = -1
  · exact .inr ⟨hfree, hnum⟩
  · exact .inl hfree

theorem Counted.congr (h : Counted owner k o) (hnum : k'.processNum = k.processNum) :
    Counted owner k' o where
  nodup := h.nodup
  alive := h.alive
  coming p := by rw [hnum]; exact h.coming p
  nonneg := h.nonneg

/-- An execute stores the owner of a free slot. -/
theorem Counted.stored (h : Counted owner k o) {i : Int} (h0 : 0 ≤ i) (hfree : owner i = -1)
    (hnone : k.processNum i = -1) (hactive : 0 ≤ k.activeTerminal)
    (hnum : k'.processNum = Function.update k.processNum i k.activeTerminal) :
    Counted owner k' { o with coming := i :: o.coming } := by
  have hnum' : ∀ p, k'.processNum p = if p = i then k.activeTerminal else k.processNum p :=
    fun p => by rw [hnum, Function.update_apply]
  have hi : i ∉ o.alive ++ o.coming := fun hmem => by
    rw [List.mem_append, h.alive, h.coming] at hmem
    exact hmem.elim (fun hne => hne hfree) fun hand => hand.2 hnone
  exact
    { nodup := (List.perm_middle.nodup_iff).mpr (List.nodup_cons.mpr ⟨hi, h.nodup⟩)
      alive := h.alive
      coming := fun p => by
        rw [List.mem_cons, h.coming, hnum']
        split
        · next heq =>
          rw [heq]
          exact iff_of_true (.inl rfl) ⟨hfree, by omega⟩
        · next hne => exact or_iff_right hne
      nonneg := fun p hp => by
        rcases List.mem_cons.mp (List.perm_middle.mem_iff.mp hp) with rfl | hp
        · exact h0
        · exact h.nonneg p hp }

/-- The process is entered. -/
theorem Counted.entered (h : Counted owner k o) {i : Int} (hfree : owner i = -1)
    (hmarked : k.processNum i ≠ -1) {t : Int} (ht : t ≠ -1) (hnum : k'.processNum = k.processNum) :
    Counted (Function.update owner i t) k' ⟨i :: o.alive, o.coming.erase i⟩ := by
  have hmem : i ∈ o.coming := (h.coming i).mpr ⟨hfree, hmarked⟩
  have hperm : (i :: o.alive ++ o.coming.erase i).Perm (o.alive ++ o.coming) :=
    List.perm_middle.symm.trans ((List.perm_cons_erase hmem).symm.append_left o.alive)
  have howner : ∀ p, Function.update owner i t p = if p = i then t else owner p :=
    fun p => Function.update_apply ..
  exact
    { nodup := hperm.nodup_iff.mpr h.nodup
      alive := fun p => by
        rw [List.mem_cons, h.alive, howner]
        split
        · next heq => exact iff_of_true (.inl heq) ht
        · next hne => exact or_iff_right hne
      coming := fun p => by
        rw [List.Nodup.mem_erase_iff (List.Nodup.of_append_right h.nodup), h.coming, howner, hnum]
        split
        · next heq => exact iff_of_false (fun hand => hand.1 heq) fun hand => ht hand.1
        · next hne => exact and_iff_right hne
      nonneg := fun p hp => h.nonneg p (hperm.mem_iff.mp hp) }

/-- A process exits, and its slot is free. -/
theorem Counted.halted (h : Counted owner k o) {p : Int} (hlive : owner p ≠ -1)
    (hnum : k'.processNum = Function.update k.processNum p (-1)) :
    Counted (Function.update owner p (-1)) k' { o with alive := o.alive.erase p } := by
  have hsub : (o.alive.erase p ++ o.coming).Sublist (o.alive ++ o.coming) :=
    List.erase_sublist.append (List.Sublist.refl _)
  have howner : ∀ q, Function.update owner p (-1) q = if q = p then -1 else owner q :=
    fun q => Function.update_apply ..
  exact
    { nodup := h.nodup.sublist hsub
      alive := fun q => by
        rw [List.Nodup.mem_erase_iff (List.Nodup.of_append_left h.nodup), h.alive, howner]
        split
        · next heq => exact iff_of_false (fun hand => hand.1 heq) fun hne => hne rfl
        · next hne => exact and_iff_right hne
      coming := fun q => by
        rw [h.coming, howner, hnum, Function.update_apply]
        split
        · next heq =>
          rw [heq]
          exact iff_of_false (fun hand => hlive hand.1) fun hand => hand.2 rfl
        · next hne => exact Iff.rfl
      nonneg := fun q hq => h.nonneg q (hsub.mem hq) }

/-- A process is replaced by another one in its slot. -/
theorem Counted.restarted (h : Counted owner k o) {p : Int} (hlive : owner p ≠ -1)
    (hnum : k'.processNum = k.processNum) :
    Counted owner k' { o with alive := p :: o.alive.erase p } := by
  have hperm : (p :: o.alive.erase p).Perm o.alive :=
    (List.perm_cons_erase ((h.alive p).mpr hlive)).symm
  exact
    { nodup := (hperm.append_right o.coming).nodup_iff.mpr h.nodup
      alive := fun q => hperm.mem_iff.trans (h.alive q)
      coming := fun q => by rw [hnum]; exact h.coming q
      nonneg := fun q hq => h.nonneg q ((hperm.append_right o.coming).mem_iff.mp hq) }

/-! ## Runs -/

/-- What a turn does to the slots of the processes. -/
theorem Counted.turn (h : Counted owner k o) (hk : k.Concurrent owner) {img : Image}
    (hshell : ShellStarts img) {d : Deed} {owner' : Int → Int} (hturn : Turn owner k d owner' k') :
    Counted owner' k' (occupy img o (k, d)) := by
  obtain ⟨hm0, hm6, hown0, -, -, -⟩ := hk.main_live
  have ha0 := hk.active.1
  cases hturn with
  | other hnum htask hmain hpcb hstart => exact h.congr hnum
  | stored hkont h0 hfree hnone => exact h.stored h0 hfree hnone ha0 rfl
  | child hkont h3 h6 hfree hnum hshown => exact h.entered hfree (by omega) (by omega) rfl
  | first hkont hfree hnone =>
    exact h.entered hfree (by rw [(hk.entered_first hkont).1.2.2]; omega) (by omega) rfl
  | @halted status junk _ h3 hh =>
    have hpid : (k.enterKernel.pcb k.enterKernel.mainProcess).pid = k.mainProcess := by
      rw [enterKernel_pcb, enterKernel_mainProcess]
      exact hk.pid hm0 hm6 (by omega)
    have hno : k.enterKernel.replacement img status junk = none := by
      unfold replacement
      rw [hpid, if_neg (by omega)]
    have hnum := hh.processNum
    rw [enterKernel_processNum, enterKernel_mainProcess] at hnum
    have hcount := h.halted (by omega : owner k.mainProcess ≠ -1) hnum
    unfold occupy
    dsimp only
    rw [hno]
    exact hcount
  | @restarted status junk _ hroot hshown hr =>
    have hyes : k.enterKernel.replacement img status junk = some k.mainProcess := by
      have hpid : (k.enterKernel.pcb k.enterKernel.mainProcess).pid = k.enterKernel.mainProcess := by
        rw [enterKernel_pcb, enterKernel_mainProcess]
        exact hk.pid hm0 hm6 (by omega)
      obtain ⟨k₁, hk₁, -, hc⟩ := releaseSlot_root_entered (k := k.enterKernel) hshell status junk
        (by rw [enterKernel_mainProcess]; exact hm0) (by rw [enterKernel_mainProcess]; exact hroot)
        (by rw [enterKernel_mainProcess, enterKernel_activeTerminal]; exact hshown) hpid
      unfold replacement
      rw [if_pos (by rw [hpid, enterKernel_mainProcess]; exact hroot), hk₁]
      dsimp only
      rw [hc.mainProcess, enterKernel_mainProcess]
    have hnum := hr.processNum
    rw [enterKernel_processNum] at hnum
    have hcount := h.restarted (by omega : owner k.mainProcess ≠ -1) hnum
    unfold occupy
    dsimp only
    rw [hyes]
    exact hcount
  | resumed h0 h3 hne hlive hstart hr =>
    exact h.congr (hr.processNum.trans (enterKernel_processNum k))
  | suspended h0 h3 hnone hstart junk => exact h.congr (enterKernel_processNum k)

end Counted

/-- The kernel and the slots of its processes. -/
def Accounted (s : Kernel × Occupied) : Prop :=
  ∃ owner, s.1.Concurrent owner ∧ Counted owner s.1 s.2

theorem Accounted.step {img : Image} (hshell : ShellStarts img) (tab : TableAddr)
    {s : Kernel × Occupied} {e : PreemptEvent} (h : Accounted s) (hcalm : Calm s.1 e) :
    Accounted (occupiedStep img tab s e) := by
  obtain ⟨owner, hk, hcount⟩ := h
  obtain ⟨owner', hturn, hk'⟩ := hk.turn hshell tab hcalm
  exact ⟨owner', hk', hcount.turn hk hshell hturn⟩

/-- A store that does not find its slot free shares it. -/
theorem Accounted.broken {img : Image} (tab : TableAddr) {s : Kernel × Occupied} {e : PreemptEvent}
    (h : Accounted s) (htaken : ¬ MarksFree s.1 e) : ¬ (occupiedStep img tab s e).2.Exclusive := by
  obtain ⟨k, o⟩ := s
  obtain ⟨owner, hk, hcount⟩ := h
  cases e with
  | advance junk =>
    obtain ⟨i, hstoring, hnum⟩ : ∃ i, i ∈ k.cpu.kont.storing ∧ k.processNum i ≠ -1 := by
      by_contra hno
      exact htaken fun i hi => by
        by_contra hnum
        exact hno ⟨i, hi, hnum⟩
    obtain ⟨prog, below, hkont⟩ := Kont.exists_of_storing hstoring
    have hdeed : k.deed (.advance junk) = .stored i :=
      deed_exec hk.hung hkont (by rw [hkont]; exact id) junk
    have hstep : (occupiedStep img tab (k, o) (.advance junk)).2 = occupy img o (k, .stored i) := by
      rw [← hdeed]
      rfl
    rw [hstep]
    intro hexclusive
    have hmem := hcount.mem hnum
    have hnodup := (List.perm_middle.nodup_iff).mp (hexclusive.imp fun hapart => hapart.1)
    exact (List.nodup_cons.mp hnodup).1 hmem
  | _ => exact absurd trivial htaken

theorem accounted_boot {img : Image} (hshell : ShellStarts img) (tab : TableAddr)
    (junk : Nat → UInt8) (k : Kernel) : Accounted (boot img tab junk k, ⟨[0], []⟩) := by
  have hnum := (boot_created hshell tab junk k).processNum
  have howner : ∀ p : Int, Function.update (fun _ => (-1 : Int)) 0 0 p = if p = 0 then 0 else -1 :=
    fun p => Function.update_apply ..
  refine ⟨_, concurrent_boot hshell tab junk k, ?_⟩
  generalize boot img tab junk k = k' at hnum
  exact
    { nodup := List.nodup_singleton 0
      alive := fun p => by
        change p ∈ [0] ↔ _
        rw [howner, List.mem_singleton]
        split
        · next heq => exact iff_of_true heq (by decide)
        · next hne => exact iff_of_false hne fun hno => hno rfl
      coming := fun p =>
        iff_of_false List.not_mem_nil fun hand => hand.2 ((congrFun hnum p).trans hand.1)
      nonneg := fun p hp => by
        change p ∈ [0] at hp
        rw [List.mem_singleton.mp hp] }

/-- In a run from boot that is calm but for the slots that are stored to, no slot is shared exactly when
each store finds its slot free. -/
theorem exclusive_run (img : Image) (hshell : ShellStarts img) (tab : TableAddr)
    (junk : Nat → UInt8) (k : Kernel) (es : List PreemptEvent)
    (horderly : Along (preemptStep img tab) (fun s e => Orderly s e ∧ CallerShown s e)
      (boot img tab junk k) es) :
    (∀ pre, pre <+: es →
      (run (occupiedStep img tab) (boot img tab junk k, ⟨[0], []⟩) pre).2.Exclusive) ↔
      Along (preemptStep img tab) MarksFree (boot img tab junk k) es := by
  have halong : Along (occupiedStep img tab) (fun s e => Orderly s.1 e ∧ CallerShown s.1 e)
      (boot img tab junk k, ⟨[0], []⟩) es := along_driven horderly _
  have hexact := prefix_iff_along (I := Accounted) (P := fun s => s.2.Exclusive)
    (C := fun s e => MarksFree s.1 e)
    (fun s e h hb hc => h.step hshell tab ⟨hb.1, hc, hb.2⟩)
    (fun s ⟨_, _, hcount⟩ => hcount.exclusive)
    (fun s e h _ hc => h.broken tab hc) (accounted_boot hshell tab junk k) halong
  exact hexact.trans (along_driven_iff _)

/-- **No slot is shared**: in every state of a calm run from boot, two processes have no slot, no PCB,
no kernel stack and no frame in common. Of the conditions of a calm run the one on the slots that are
stored to is exact: a run that breaks no other has a state in which a slot is shared. -/
theorem slots_exclusive (img : Image) (hshell : ShellStarts img) (tab : TableAddr)
    (junk : Nat → UInt8) (k : Kernel) (es : List PreemptEvent) :
    (Along (preemptStep img tab) Calm (boot img tab junk k) es → ∀ pre, pre <+: es →
      (run (occupiedStep img tab) (boot img tab junk k, ⟨[0], []⟩) pre).2.Exclusive) ∧
    (Along (preemptStep img tab) (fun s e => Orderly s e ∧ CallerShown s e) (boot img tab junk k) es →
      ¬ Along (preemptStep img tab) MarksFree (boot img tab junk k) es → ∃ pre, pre <+: es ∧
        ¬ (run (occupiedStep img tab) (boot img tab junk k, ⟨[0], []⟩) pre).2.Exclusive) := by
  constructor
  · intro hcalm
    have horderly : Along (preemptStep img tab) (fun s e => Orderly s e ∧ CallerShown s e)
        (boot img tab junk k) es := hcalm.mono fun s e h => ⟨h.toOrderly, h.caller⟩
    exact (exclusive_run img hshell tab junk k es horderly).mpr (hcalm.mono fun s e h => h.free)
  · intro horderly hnot
    by_contra hno
    refine hnot ((exclusive_run img hshell tab junk k es horderly).mp fun pre hpre => ?_)
    by_contra hshared
    exact hno ⟨pre, hpre, hshared⟩

/-- The searches of two terminals overlap, and each finds another slot; in the second run the first
search has tested its slot when the other one begins. -/
theorem slots_exclusive_sample :
    let start := boot sampleImage sampleTable noJunk (sampleKernel fun _ => 0)
    (run (occupiedStep sampleImage sampleTable) (start, ⟨[0], []⟩)
      (.switchTerminal 1 noJunk :: steps 40 ++ .execute shell noJunk :: steps 2 ++
        [.tick, .switchTerminal 0 noJunk, .execute shell noJunk] ++ steps 42 ++
        [.switchTerminal 1 noJunk, .tick] ++ steps 42)).2.Exclusive ∧
    ∃ pre, pre <+: .switchTerminal 1 noJunk :: steps 40 ++ .execute shell noJunk :: steps 7 ++
        [.switchTerminal 0 noJunk, .tick, .execute shell noJunk] ++ steps 42 ++
        [.switchTerminal 1 noJunk, .tick] ++ steps 42 ∧
      ¬ (run (occupiedStep sampleImage sampleTable) (start, ⟨[0], []⟩) pre).2.Exclusive := by
  intro start
  have hslots := fun es => slots_exclusive sampleImage shellStarts_sampleImage sampleTable noJunk
    (sampleKernel fun _ => 0) es
  exact ⟨(hslots _).1 (by decide +kernel) _ List.prefix_rfl,
    (hslots _).2 (by decide +kernel) (by decide +kernel)⟩

/-- The timer interrupts an execute between the test of slot 3 and the store of its owner: the
execute of another terminal takes the slot, and so does the first one when it goes on. -/
theorem slot_shared :
    let s := run (occupiedStep sampleImage sampleTable)
      (boot sampleImage sampleTable noJunk (sampleKernel fun _ => 0), ⟨[0], []⟩)
      (.switchTerminal 1 noJunk :: steps 40 ++ .execute shell noJunk :: steps 7 ++
        [.switchTerminal 0 noJunk, .tick, .execute shell noJunk] ++ steps 42 ++
        [.switchTerminal 1 noJunk, .tick] ++ steps 42)
    s.2.alive = [3, 3, 1, 0] ∧ ¬ s.2.Exclusive := by
  intro s
  have halive : s.2.alive = [3, 3, 1, 0] := by decide +kernel
  refine ⟨halive, fun hexclusive => ?_⟩
  have hpair := (List.pairwise_append.mp hexclusive).1
  rw [halive] at hpair
  exact (List.rel_of_pairwise_cons hpair List.mem_cons_self).1 rfl

end Kernel

end SrirachOS
