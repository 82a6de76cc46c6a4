import SrirachOS.Kernel.Turn

/-!
# A Child's Terminal

Execute gives a new process to the displayed terminal, and makes it that terminal's current task;
whose program has called execute, it does not ask.

- `ChildAtHome`: the child of a program belongs to the terminal of the program,
- `childAtHome_iff`: so it is exactly when the caller's terminal is displayed at the two moments at
  which execute reads which one is,
- `children_at_home`: so it is in every calm run.
-/

namespace SrirachOS

open Foundation

namespace Kernel

/-- When a program's execute stores the owner of a slot, it is the owner of the caller; and when it
enters the new process, that process belongs to the caller's terminal, whose current task it is, and
no other terminal has another current task than before. -/
def ChildAtHome (img : Image) (tab : TableAddr) (k : Kernel) (e : PreemptEvent) : Prop :=
  let k' := preemptStep img tab k e
  match e with
  | .advance _ =>
    (∀ i ∈ k.cpu.kont.storing, k'.processNum i = k.processNum k.mainProcess) ∧
    ∀ i ∈ k.cpu.kont.entering,
      k'.processNum i = k'.processNum k.mainProcess ∧
      k'.currTask (k'.processNum k.mainProcess) = i ∧
      ∀ t : Fin 3, k'.currTask (t.val : Nat) ≠ k.currTask (t.val : Nat) →
        (t.val : Nat) = k'.processNum k.mainProcess
  | _ => True

instance (img : Image) (tab : TableAddr) (k : Kernel) : (e : PreemptEvent) →
    Decidable (ChildAtHome img tab k e)
  | .advance _ => inferInstanceAs (Decidable ((∀ i ∈ k.cpu.kont.storing, _) ∧
      ∀ i ∈ k.cpu.kont.entering, _ ∧ _ ∧ ∀ _ : Fin 3, _ → _))
  | .execute _ _ | .halt _ _ | .switchTerminal _ _ | .tick | .vidmap => isTrue trivial

section Advance

variable {owner : Int → Int} {k : Kernel} {img : Image} {tab : TableAddr} {junk : Nat → UInt8}

/-- The moment of the store. -/
theorem childAtHome_storing (h : k.Concurrent owner) {i : Int} (hi : i ∈ k.cpu.kont.storing) :
    ChildAtHome img tab k (.advance junk) ↔ CallerShown k (.advance junk) := by
  obtain ⟨prog, below, hkont⟩ := Kont.exists_of_storing hi
  have hno : k.cpu.kont.entering = none := by rw [hkont]; rfl
  have hstep : preemptStep img tab k (.advance junk) =
      (k.markSlot i).goOn .syscall (.map prog i) below := by
    rw [preemptStep_advance h.hung, execStep, hkont]
  have hnum : ((k.markSlot i).goOn .syscall (.map prog i) below).processNum i = k.activeTerminal :=
    Function.update_self ..
  unfold ChildAtHome CallerShown
  dsimp only
  rw [hstep, hno, Option.mem_def.mp hi]
  constructor
  · rintro ⟨hstored, -⟩ -
    rw [← hnum]
    exact hstored i rfl
  · intro hshown
    refine ⟨fun j hj => ?_, nofun⟩
    obtain rfl := Option.some.inj hj
    rw [hnum]
    exact hshown (.inl rfl)

/-- The moment at which the new process is entered. -/
theorem childAtHome_entering (h : k.Concurrent owner) {i : Int} (hi : i ∈ k.cpu.kont.entering) :
    ChildAtHome img tab k (.advance junk) ↔ CallerShown k (.advance junk) := by
  obtain ⟨prog, below, hkont⟩ := Kont.exists_of_entering hi
  obtain ⟨-, rfl⟩ | ⟨hcaller, -⟩ := h.exec_cases hkont
  swap
  · cases hcaller
  obtain ⟨hi3, -, hfree, hinum⟩ := h.marked_main hkont
  obtain ⟨ha0, ha3⟩ := h.active
  have hno : k.cpu.kont.storing = none := by rw [hkont]; rfl
  have hstep : preemptStep img tab k (.advance junk) = k.enterProgram .syscall .user prog i := by
    rw [preemptStep_advance h.hung, execStep, hkont]
  have hnum : (k.enterProgram .syscall .user prog i).processNum = k.processNum := rfl
  have htask : ∀ t, (k.enterProgram .syscall .user prog i).currTask t =
      if t = k.activeTerminal then i else k.currTask t := fun t => Function.update_apply ..
  -- the new process was not the task of a terminal
  have hnew : k.currTask k.activeTerminal ≠ i := fun heq => by
    have hown := (h.curr_live ha0 ha3 (by omega)).2.2
    rw [heq, hfree] at hown
    omega
  unfold ChildAtHome CallerShown
  dsimp only
  rw [hstep, hno, Option.mem_def.mp hi, hnum]
  constructor
  · rintro ⟨-, hentered⟩ -
    obtain ⟨-, -, honly⟩ := hentered i rfl
    have hterminal : ((⟨k.activeTerminal.toNat, by omega⟩ : Fin 3).val : Int) = k.activeTerminal := by
      simp only
      omega
    have hchanged := honly ⟨k.activeTerminal.toNat, by omega⟩ (by
      rw [hterminal, htask, if_pos rfl]
      exact Ne.symm hnew)
    rwa [hterminal] at hchanged
  · intro hshown
    have hactive := hshown (.inr rfl)
    refine ⟨nofun, fun j hj => ?_⟩
    obtain rfl := Option.some.inj hj
    refine ⟨hinum, ?_, fun t ht => ?_⟩
    · rw [htask, if_pos hactive.symm]
    · by_contra hne
      rw [htask, if_neg fun heq => hne (heq.trans hactive)] at ht
      exact ht rfl

/-- A step of an execute keeps the child at home exactly when the caller's terminal is displayed. -/
theorem childAtHome_iff (h : k.Concurrent owner) (e : PreemptEvent) :
    ChildAtHome img tab k e ↔ CallerShown k e := by
  cases e with
  | advance junk =>
    cases hs : k.cpu.kont.storing with
    | some i => exact childAtHome_storing h hs
    | none =>
      cases he : k.cpu.kont.entering with
      | some i => exact childAtHome_entering h he
      | none =>
        unfold ChildAtHome CallerShown
        dsimp only
        rw [hs, he]
        exact iff_of_true ⟨nofun, nofun⟩ fun hsome => by rcases hsome with h | h <;> cases h
  | _ => exact iff_of_true trivial trivial

end Advance

/-- In a run from boot that is calm but for the displayed terminal, the children are at home exactly when
the terminal of the calling program is displayed whenever its execute stores an owner or enters the new
process. -/
theorem childAtHome_run (img : Image) (hshell : ShellStarts img) (tab : TableAddr)
    (junk : Nat → UInt8) (k : Kernel) (es : List PreemptEvent)
    (horderly : Along (preemptStep img tab) (fun s e => Orderly s e ∧ MarksFree s e)
      (boot img tab junk k) es) :
    Along (preemptStep img tab) (ChildAtHome img tab) (boot img tab junk k) es ↔
      Along (preemptStep img tab) CallerShown (boot img tab junk k) es := by
  refine along_iff_along (I := fun s => ∃ owner, s.Concurrent owner) (fun s e h hb hc => ?_)
    (fun s e ⟨_, h⟩ _ => childAtHome_iff h e) ⟨_, concurrent_boot hshell tab junk k⟩ horderly
  obtain ⟨owner, h⟩ := h
  obtain ⟨owner', -, h'⟩ := h.turn hshell tab ⟨hb.1, hb.2, hc⟩
  exact ⟨owner', h'⟩

/-- **Children stay at home**: in every calm run from boot a process that a program starts belongs to
the terminal of the program, and becomes the current task of no other terminal. Of the conditions of a
calm run the one on the displayed terminal is exact: a run that breaks no other has a child that is
not at home. -/
theorem children_at_home (img : Image) (hshell : ShellStarts img) (tab : TableAddr)
    (junk : Nat → UInt8) (k : Kernel) (es : List PreemptEvent) :
    (Along (preemptStep img tab) Calm (boot img tab junk k) es →
      Along (preemptStep img tab) (ChildAtHome img tab) (boot img tab junk k) es) ∧
    (Along (preemptStep img tab) (fun s e => Orderly s e ∧ MarksFree s e) (boot img tab junk k) es →
      ¬ Along (preemptStep img tab) CallerShown (boot img tab junk k) es →
      ¬ Along (preemptStep img tab) (ChildAtHome img tab) (boot img tab junk k) es) := by
  constructor
  · intro hcalm
    have horderly : Along (preemptStep img tab) (fun s e => Orderly s e ∧ MarksFree s e)
        (boot img tab junk k) es := hcalm.mono fun s e h => ⟨h.toOrderly, h.free⟩
    exact (childAtHome_run img hshell tab junk k es horderly).mpr (hcalm.mono fun s e h => h.caller)
  · intro horderly hnot hhome
    exact hnot ((childAtHome_run img hshell tab junk k es horderly).mp hhome)

/-- Another terminal is displayed while a program is loaded, and is left again; in the second run it is
not. -/
theorem children_at_home_sample :
    let start := boot sampleImage sampleTable noJunk (sampleKernel fun _ => 0)
    Along (preemptStep sampleImage sampleTable) (ChildAtHome sampleImage sampleTable) start
      (.switchTerminal 1 noJunk :: steps 40 ++ .execute shell noJunk :: steps 10 ++
        [.switchTerminal 0 noJunk, .tick, .tick] ++ steps 5 ++
        .switchTerminal 1 noJunk :: steps 30) ∧
    ¬ Along (preemptStep sampleImage sampleTable) (ChildAtHome sampleImage sampleTable) start
      (.switchTerminal 1 noJunk :: steps 40 ++ .execute shell noJunk :: steps 10 ++
        .switchTerminal 0 noJunk :: steps 35) := by
  intro start
  have hhome := fun es => children_at_home sampleImage shellStarts_sampleImage sampleTable noJunk
    (sampleKernel fun _ => 0) es
  exact ⟨(hhome _).1 (by decide +kernel), (hhome _).2 (by decide +kernel) (by decide +kernel)⟩

/-- The first terminal is displayed while the shell of the second one loads a program: the program is
a task of the first terminal, whose shell is not resumed any more; the shell that waits for it is. -/
theorem child_leaves_home :
    let start := boot sampleImage sampleTable noJunk (sampleKernel fun _ => 0)
    let es := .switchTerminal 1 noJunk :: steps 40 ++
      [.execute shell noJunk, .switchTerminal 0 noJunk] ++ steps 42
    let s := run (preemptStep sampleImage sampleTable) start es
    ¬ Along (preemptStep sampleImage sampleTable) (ChildAtHome sampleImage sampleTable) start es ∧
      s.mainProcess = 3 ∧ s.processNum 3 = 0 ∧ s.processNum 1 = 1 ∧ s.currTask 0 = 3 ∧
      s.currTask 1 = 1 := by
  decide +kernel

end Kernel

end SrirachOS
