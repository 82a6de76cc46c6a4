import SrirachOS.Kernel.Effect

/-!
# Preemption

The wrapper of the system calls enables interrupts, and `switch_terminal` does so before it starts a
shell: up to its `cli`, execute is interrupted by the timer and by the keyboard. Here the execute
that is going on is a context of its own (`Kont.exec`) and goes on step by step; halt, the scheduler
and the parts of `switch_terminal` behind a `cli` are single steps as before.

- `execStep`: one step of the execute that is going on,
- `preemptStep`: the machine,
- `advances_execute`: an execute that nothing interrupts is the execute of one step,
- `run_uninterrupted`: so every run of whole events is a run of the machine.
-/

namespace SrirachOS

open Foundation

namespace Kernel

/-! ## The steps of execute -/

/-- The execute that is going on reaches `phase`. -/
def goOn (caller : Caller) (phase : Phase) (below : Kont) (k : Kernel) : Kernel :=
  { k with cpu := ⟨k.cpu.stack, .exec caller phase below⟩ }

/-- The execute that is going on returns to its caller. -/
def goBack (below : Kont) (k : Kernel) : Kernel := { k with cpu := ⟨k.cpu.stack, below⟩ }

/-- One step of `system_execute`. `junk` is for the halt of a program that does not fit. -/
def execStep (img : Image) (junk : Nat → UInt8) (k : Kernel) : Kernel :=
  match k.cpu.kont with
  | .exec caller phase below =>
    match phase with
    | .parse command junk =>
      if Followed command then
        let k := k.storeArgs (parseCommand command).2
        match findProgram img (parseCommand command).1 junk with
        | none => k.goBack below
        | some prog => k.goOn caller (.search prog 0) below
      else { k with hung := true }
    | .search prog i =>
      if 6 ≤ i then k.goBack below
      else if k.processNum i = -1 then k.goOn caller (.test prog i) below
      else k.goOn caller (.search prog (i + 1)) below
    | .test prog i =>
      if (i < 3 ∧ i = k.activeTerminal) ∨ (3 ≤ i ∧ i < 6) then k.goOn caller (.mark prog i) below
      else k.goOn caller (.search prog (i + 1)) below
    | .mark prog i => (k.markSlot i).goOn caller (.map prog i) below
    | .map prog i => (k.mapSlot i).goOn caller (.load prog i 0) below
    | .load prog i n =>
      match prog.bytes[n]? with
      | none => k.goOn caller (.enter prog i) below
      | some b =>
        if n < programRoom then (k.loadByte n b).goOn caller (.load prog i (n + 1)) below
        else k.systemHalt img 255 junk
    | .enter prog i => k.enterProgram caller below prog i
  | _ => k

/-! ## Interrupts -/

/-- `switch_terminal(terminal)` up to its call of execute. -/
def beginSwitch (terminal : Int) (junk : Nat → UInt8) (k : Kernel) : Kernel :=
  if k.activeTerminal = terminal then k
  else
    let k := { k with activeTerminal := terminal }
    if k.currTask terminal = -1 then
      k.saveMain.goOn .switchTerminal (.parse shell junk) k.cpu.kont
    else k

/-- What happens between two instructions. -/
inductive PreemptEvent where
  /-- the execute that is going on takes a step -/
  | advance (junk : Nat → UInt8)
  /-- the running program calls execute -/
  | execute (command : CStr) (junk : Nat → UInt8)
  /-- the running program calls halt -/
  | halt (status : UInt8) (junk : Nat → UInt8)
  /-- Alt and a function key -/
  | switchTerminal (terminal : Fin 3) (junk : Nat → UInt8)
  /-- a timer interrupt -/
  | tick
  /-- the running program calls vidmap with a pointer that is accepted -/
  | vidmap

/-- One event. System calls come from user mode; interrupts come at any time. -/
def preemptStep (img : Image) (tab : TableAddr) (k : Kernel) (e : PreemptEvent) : Kernel :=
  if k.hung then k
  else
    match e with
    | .advance junk => k.execStep img junk
    | .execute command junk =>
      if k.cpu.kont = .user then k.enterKernel.goOn .syscall (.parse command junk) .user else k
    | .halt status junk => if k.cpu.kont = .user then k.enterKernel.systemHalt img status junk else k
    | .switchTerminal terminal junk => k.enterKernel.beginSwitch (terminal.val : Nat) junk
    | .tick => k.enterKernel.schedulerHandler
    | .vidmap =>
      if k.cpu.kont = .user then
        let k := k.enterKernel
        { k with paging := getVidmapPage tab k.paging }
      else k

theorem preemptStep_advance {img : Image} {tab : TableAddr} {k : Kernel} (hhung : k.hung = false)
    (junk : Nat → UInt8) : preemptStep img tab k (.advance junk) = k.execStep img junk :=
  if_neg (by rw [hhung]; exact Bool.false_ne_true)

/-- The execute that is going on takes `n` steps. -/
def steps (n : Nat) : List PreemptEvent := List.replicate n (.advance noJunk)

/-! ## Executes that nothing interrupts -/

/-- The execute that is going on takes steps from `k` to `k'`. -/
def Advances (img : Image) (tab : TableAddr) (junk : Nat → UInt8) (k k' : Kernel) : Prop :=
  ∃ n, run (preemptStep img tab) k (List.replicate n (.advance junk)) = k'

section Advances

variable {img : Image} {tab : TableAddr} {junk : Nat → UInt8} {k k' k'' : Kernel} {caller : Caller}
  {below : Kont} {prog : Program} {i : Int}

theorem Advances.trans (h : Advances img tab junk k k') (h' : Advances img tab junk k' k'') :
    Advances img tab junk k k'' := by
  obtain ⟨n, rfl⟩ := h
  obtain ⟨n', rfl⟩ := h'
  exact ⟨n + n', by rw [List.replicate_add, run_append]⟩

theorem Advances.step {phase : Phase} (hhung : k.hung = false)
    (h : (k.goOn caller phase below).execStep img junk = k') :
    Advances img tab junk (k.goOn caller phase below) k' := by
  have hon : ¬ (k.goOn caller phase below).hung = true := by
    change ¬ k.hung = true
    rw [hhung]
    exact Bool.false_ne_true
  refine ⟨1, ?_⟩
  change preemptStep img tab (k.goOn caller phase below) (.advance junk) = k'
  rw [preemptStep, if_neg hon]
  exact h

variable (img tab junk caller below prog) in
/-- The search ends at the slot that `findSlot` finds. -/
theorem advances_search (hhung : k.hung = false) (turns : Nat) (hturns : i + turns = 6) :
    Advances img tab junk (k.goOn caller (.search prog i) below)
      (match k.findSlot turns i with
        | none => k.goBack below
        | some j => k.goOn caller (.mark prog j) below) := by
  induction turns generalizing i with
  | zero =>
    apply Advances.step hhung
    change (if 6 ≤ i then _ else _) = _
    rw [if_pos (by omega)]
    rfl
  | succ turns ih =>
    -- the turns count down while the slot counts up: what is left ends where `findSlot` does
    have hnext := ih (i := i + 1) (by omega)
    have hlt : ¬ 6 ≤ i := by omega
    rw [findSlot]
    by_cases hnone : k.processNum i = -1
    · -- the slot is free
      have htest : Advances img tab junk (k.goOn caller (.search prog i) below)
          (k.goOn caller (.test prog i) below) := by
        apply Advances.step hhung
        change (if 6 ≤ i then _ else if k.processNum i = -1 then _ else _) = _
        rw [if_neg hlt, if_pos hnone]
        rfl
      by_cases hown : (i < 3 ∧ i = k.activeTerminal) ∨ (3 ≤ i ∧ i < 6)
      · rw [if_pos ⟨hnone, hown⟩]
        refine htest.trans (Advances.step hhung ?_)
        change (if (i < 3 ∧ i = k.activeTerminal) ∨ (3 ≤ i ∧ i < 6) then _ else _) = _
        rw [if_pos hown]
        rfl
      · rw [if_neg fun h => hown h.2]
        refine htest.trans (Advances.trans (Advances.step hhung ?_) hnext)
        change (if (i < 3 ∧ i = k.activeTerminal) ∨ (3 ≤ i ∧ i < 6) then _ else _) = _
        rw [if_neg hown]
        rfl
    · rw [if_neg fun h => hnone h.1]
      refine Advances.trans (Advances.step hhung ?_) hnext
      change (if 6 ≤ i then _ else if k.processNum i = -1 then _ else _) = _
      rw [if_neg hlt, if_neg hnone]
      rfl

/-- What runs does not matter for the copy. -/
theorem loadBytes_cpu (n : Nat) (bytes : List UInt8) (k : Kernel) (cpu : Context) :
    ({ k with cpu } : Kernel).loadBytes n bytes = { k.loadBytes n bytes with cpu } := by
  induction bytes generalizing n k with
  | nil => rfl
  | cons b bytes ih => exact ih (n + 1) (k.loadByte n b)

variable (img tab junk caller below i) in
/-- The copy goes on to the end of a program that fits. -/
theorem advances_load (hhung : k.hung = false) (hfits : prog.bytes.length ≤ programRoom)
    (bytes : List UInt8) (n : Nat) (hrest : prog.bytes.drop n = bytes) :
    Advances img tab junk (k.goOn caller (.load prog i n) below)
      ((k.loadBytes n bytes).goOn caller (.enter prog i) below) := by
  -- on what is left of the file, so that one byte is one step
  induction bytes generalizing n k with
  | nil =>
    have hend : prog.bytes[n]? = none := by
      rw [List.getElem?_eq_none_iff]
      exact List.drop_eq_nil_iff.mp hrest
    apply Advances.step hhung
    unfold execStep goOn
    dsimp only
    rw [hend]
    rfl
  | cons b bytes ih =>
    have hbyte : prog.bytes[n]? = some b := by
      rw [← List.head?_drop, hrest]
      rfl
    have hn : n < programRoom := by
      have hlt := (List.getElem?_eq_some_iff.mp hbyte).1
      omega
    refine Advances.trans (Advances.step hhung ?_)
      (ih (k := k.loadByte n b) hhung (n + 1) (by rw [← List.tail_drop, hrest]; rfl))
    unfold execStep goOn
    dsimp only
    rw [hbyte]
    dsimp only
    rw [if_pos hn]
    rfl

variable (img tab junk caller below i) in
/-- From a slot that has been found to the new program. -/
theorem advances_enter (hhung : k.hung = false) (hfits : prog.bytes.length ≤ programRoom) :
    Advances img tab junk (k.goOn caller (.mark prog i) below)
      (((((k.goBack below).markSlot i).mapSlot i).loadBytes 0 prog.bytes).enterProgram caller below prog
        i) := by
  obtain ⟨k₁, hk₁⟩ : ∃ k₁, k₁ = (k.markSlot i).mapSlot i := ⟨_, rfl⟩
  obtain ⟨mem, hmem⟩ := loadBytes_eq 0 prog.bytes k₁
  have hon : k₁.hung = false := by
    rw [hk₁]
    exact hhung
  have hload := advances_load img tab junk caller below i hon hfits prog.bytes 0 rfl
  have hmark : Advances img tab junk (k.goOn caller (.mark prog i) below)
      (k₁.goOn caller (.load prog i 0) below) :=
    Advances.trans (Advances.step hhung rfl) (Advances.step hhung (by rw [hk₁]; rfl))
  refine hmark.trans (hload.trans (Advances.step (by rw [hmem]; exact hon) ?_))
  -- the copy writes memory only, and the last step finds the stack where it was
  have hback : (((k.goBack below).markSlot i).mapSlot i).loadBytes 0 prog.bytes =
      { k₁.loadBytes 0 prog.bytes with cpu := ⟨k.cpu.stack, below⟩ } := by
    rw [hk₁]
    exact loadBytes_cpu 0 prog.bytes ((k.markSlot i).mapSlot i) ⟨k.cpu.stack, below⟩
  have hstack : (k₁.loadBytes 0 prog.bytes).cpu.stack = k.cpu.stack := by
    rw [hmem, hk₁]
    rfl
  rw [hback]
  unfold execStep goOn enterProgram
  dsimp only
  rw [hstack]
  rfl

/-- **An execute that nothing interrupts** is the execute of one step, for a command and a program that
fit. -/
theorem advances_execute (hhung : k.hung = false) {command : CStr} {junk' : Nat → UInt8}
    (hfits : (Event.execute command junk').Fits img) (junk'' : Nat → UInt8) :
    Advances img tab junk (k.goOn caller (.parse command junk') below)
      (settle img junk'' (systemExecute img command junk' caller (k.goBack below))) := by
  obtain ⟨hcommand, hprogram⟩ := hfits
  obtain ⟨k₁, hk₁⟩ : ∃ k₁ : Kernel, k₁ = { k with argBuf := (parseCommand command).2 } := ⟨_, rfl⟩
  have hon : k₁.hung = false := by rw [hk₁, ← hhung]
  have hstore : ({ k.goBack below with argBuf := (parseCommand command).2 } : Kernel) =
      k₁.goBack below := by
    rw [hk₁]
    rfl
  have hfind : (k₁.goBack below).findSlot 6 0 = k₁.findSlot 6 0 := rfl
  -- the first step stores the arguments and looks the word up
  have hparse : Advances img tab junk (k.goOn caller (.parse command junk') below)
      (match findProgram img (parseCommand command).1 junk' with
        | none => k₁.goBack below
        | some prog => k₁.goOn caller (.search prog 0) below) := by
    apply Advances.step hhung
    unfold execStep goOn
    dsimp only
    rw [if_pos hcommand.followed, storeArgs, if_pos hcommand.2, hk₁]
    cases findProgram img (parseCommand command).1 junk' <;> rfl
  rw [systemExecute_of_fits hcommand, hstore]
  unfold executeFile
  rw [hfind]
  cases hprog : findProgram img (parseCommand command).1 junk' with
  | none =>
    rw [hprog] at hparse
    exact hparse
  | some prog =>
    rw [hprog] at hparse
    have hsearch := advances_search img tab junk caller below prog (i := 0) hon 6 (by omega)
    dsimp only
    cases hslot : k₁.findSlot 6 0 with
    | none =>
      rw [hslot] at hsearch
      exact hparse.trans hsearch
    | some i =>
      rw [hslot] at hsearch
      have hlen := hprogram prog hprog
      dsimp only
      rw [if_neg (by omega)]
      exact (hparse.trans hsearch).trans (advances_enter img tab junk caller below i hon hlen)

/-- A system call that nothing interrupts. -/
theorem advances_step_execute (hhung : k.hung = false) (huser : k.cpu.kont = .user) {command : CStr}
    {junk' : Nat → UInt8} (hfits : (Event.execute command junk').Fits img) :
    Advances img tab junk (preemptStep img tab k (.execute command junk'))
      (step img tab k (.execute command junk')) := by
  have hback : k.enterKernel.goBack .user = k.enterKernel := by
    unfold enterKernel
    rw [huser]
    rfl
  have hadvances : Advances img tab junk (k.enterKernel.goOn .syscall (.parse command junk') .user)
      (settle img junk' (systemExecute img command junk' .syscall (k.enterKernel.goBack .user))) :=
    advances_execute (by rw [enterKernel_hung]; exact hhung) hfits junk'
  rw [hback] at hadvances
  rw [step_of_not_hung hhung, preemptStep, if_neg (by rw [hhung]; exact Bool.false_ne_true)]
  dsimp only
  rw [if_pos huser]
  exact hadvances

/-- A terminal switch that nothing interrupts. -/
theorem advances_step_switchTerminal (hshell : ShellStarts img) (hhung : k.hung = false)
    (terminal : Fin 3) (junk' : Nat → UInt8) :
    Advances img tab junk (preemptStep img tab k (.switchTerminal terminal junk'))
      (step img tab k (.switchTerminal terminal junk')) := by
  rw [step_of_not_hung hhung, preemptStep, if_neg (by rw [hhung]; exact Bool.false_ne_true)]
  dsimp only
  unfold beginSwitch Kernel.switchTerminal
  split
  · exact ⟨0, rfl⟩
  · dsimp only
    split
    · have hon : k.enterKernel.hung = false := by rw [enterKernel_hung]; exact hhung
      exact advances_execute (k := { k.enterKernel with activeTerminal := (terminal.val : Nat) }.saveMain)
        hon (fits_shell hshell junk') junk'
    · exact ⟨0, rfl⟩

end Advances

/-! ## Runs that nothing interrupts -/

/-- The interrupt or the call that an event begins with. -/
def Event.begins : Event → PreemptEvent
  | .execute command junk => .execute command junk
  | .halt status junk => .halt status junk
  | .switchTerminal terminal junk => .switchTerminal terminal junk
  | .tick => .tick
  | .vidmap => .vidmap

/-- A system call comes from user mode. -/
def FromUser (k : Kernel) : Event → Prop
  | .execute _ _ | .halt _ _ | .vidmap => k.cpu.kont = .user
  | .switchTerminal _ _ | .tick => True

instance (k : Kernel) : (e : Event) → Decidable (FromUser k e)
  | .execute _ _ | .halt _ _ | .vidmap => inferInstanceAs (Decidable (_ = _))
  | .switchTerminal _ _ | .tick => isTrue trivial

/-- Every event is followed by steps of the execute that it has begun, and by nothing else. -/
inductive Uninterrupted : List Event → List PreemptEvent → Prop
  | nil : Uninterrupted [] []
  | cons (e : Event) (n : Nat) {es : List Event} {es' : List PreemptEvent} (h : Uninterrupted es es') :
    Uninterrupted (e :: es) (e.begins :: steps n ++ es')

/-- An event that nothing interrupts. -/
theorem advances_step {img : Image} (hshell : ShellStarts img) (tab : TableAddr) {k : Kernel} {e : Event}
    (hfits : e.Fits img) (huser : FromUser k e) :
    Advances img tab noJunk (preemptStep img tab k e.begins) (step img tab k e) := by
  by_cases hhung : k.hung = true
  · -- a kernel that hangs takes part in nothing
    exact ⟨0, (if_pos hhung).trans (if_pos hhung).symm⟩
  have hon : k.hung = false := by simpa using hhung
  cases e with
  | execute command junk => exact advances_step_execute hon huser hfits
  | switchTerminal terminal junk => exact advances_step_switchTerminal hshell hon terminal junk
  | halt status junk =>
    refine ⟨0, ?_⟩
    change preemptStep img tab k (.halt status junk) = _
    rw [step_of_not_hung hon, preemptStep, if_neg hhung]
    exact if_pos huser
  | tick =>
    refine ⟨0, ?_⟩
    change preemptStep img tab k .tick = _
    rw [step_of_not_hung hon, preemptStep, if_neg hhung]
  | vidmap =>
    refine ⟨0, ?_⟩
    change preemptStep img tab k .vidmap = _
    rw [step_of_not_hung hon, preemptStep, if_neg hhung]
    exact if_pos huser

/-- **A run of whole events** is a run of the machine that nothing interrupts: what the machine may
do includes what the kernel does when every call is one step. -/
theorem run_uninterrupted {img : Image} (hshell : ShellStarts img) (tab : TableAddr) (k : Kernel)
    (es : List Event) (hfits : ∀ e ∈ es, e.Fits img) (huser : Along (step img tab) FromUser k es) :
    ∃ es', Uninterrupted es es' ∧ run (preemptStep img tab) k es' = run (step img tab) k es := by
  induction es generalizing k with
  | nil => exact ⟨[], .nil, rfl⟩
  | cons e es ih =>
    obtain ⟨hfit, hrest⟩ := List.forall_mem_cons.mp hfits
    obtain ⟨n, hn⟩ := advances_step hshell tab hfit huser.1
    obtain ⟨es', hserial, hrun⟩ := ih (step img tab k e) hrest huser.2
    refine ⟨e.begins :: steps n ++ es', .cons e n hserial, ?_⟩
    rw [List.cons_append, run_cons, run_append, run_cons]
    exact (congrArg (run (preemptStep img tab) · es') hn).trans hrun

/-- The first shell starts another one, which halts while the second terminal is displayed. -/
theorem run_uninterrupted_sample :
    ∃ es', Uninterrupted [.execute shell noJunk, .switchTerminal 1 noJunk, .tick, .halt 0 noJunk] es' ∧
      (run (preemptStep sampleImage sampleTable)
        (boot sampleImage sampleTable noJunk (sampleKernel fun _ => 0)) es').mainProcess = 0 := by
  obtain ⟨es', hserial, hrun⟩ := run_uninterrupted shellStarts_sampleImage sampleTable
    (boot sampleImage sampleTable noJunk (sampleKernel fun _ => 0))
    [.execute shell noJunk, .switchTerminal 1 noJunk, .tick, .halt 0 noJunk]
    (by
      intro e he
      simp only [List.mem_cons, List.not_mem_nil, or_false] at he
      rcases he with rfl | rfl | rfl | rfl
      · exact fits_shell shellStarts_sampleImage noJunk
      all_goals trivial)
    ⟨by decide +kernel, trivial, trivial, by decide +kernel, trivial⟩
  refine ⟨es', hserial, ?_⟩
  rw [hrun]
  decide +kernel

end Kernel

end SrirachOS
