import Mathlib.Tactic.Common
import Mathlib.Data.List.Infix

/-!
# Runs of an Event Machine

A machine is a total step function `step : σ → ε → σ`; a run is a list of events. `Along`
says that every event of a run meets a condition in the state in which it is taken.

The rules below carry a fact about one step to a whole run:
- `invariant_run`, `invariant_always`: an invariant kept by every step that meets the condition,
  or by every step,
- `along_of_invariant`: a fact about each step that the invariant implies,
- `along_iff_along`: two conditions on steps that agree while the invariant holds,
- `along_iff_prefix`: what holds along a run is what holds at the end of each of its prefixes,
- `prefix_iff_along`: when leaving the condition breaks the property at once, the property
  holds in every state of the run exactly when the condition holds along it,
- `served_within`: a rank that each turn lowers bounds how long one waits,
- `simulation_run`, `run_stepAt`: a run leads to a run of an abstract machine, and an abstract
  machine of independent parts runs part by part.
-/

namespace Foundation

variable {σ τ ε δ : Type*}

/-- The state reached from `s` by the events `es`, taken in order. -/
def run (step : σ → ε → σ) (s : σ) (es : List ε) : σ := es.foldl step s

/-- Every event of the run from `s` meets `C` in the state in which it is taken. -/
def Along (step : σ → ε → σ) (C : σ → ε → Prop) : σ → List ε → Prop
  | _, [] => True
  | s, e :: es => C s e ∧ Along step C (step s e) es

variable {step : σ → ε → σ} {C D : σ → ε → Prop}

@[simp] theorem run_nil (s : σ) : run step s [] = s := rfl

@[simp] theorem run_cons (s : σ) (e : ε) (es : List ε) :
    run step s (e :: es) = run step (step s e) es := rfl

theorem run_append (s : σ) (es fs : List ε) :
    run step s (es ++ fs) = run step (run step s es) fs :=
  List.foldl_append

@[simp] theorem along_nil (s : σ) : Along step C s [] := trivial

@[simp] theorem along_cons (s : σ) (e : ε) (es : List ε) :
    Along step C s (e :: es) ↔ C s e ∧ Along step C (step s e) es := Iff.rfl

instance instDecidableAlong [∀ s e, Decidable (C s e)] :
    (s : σ) → (es : List ε) → Decidable (Along step C s es)
  | _, [] => isTrue trivial
  | s, e :: es =>
    have := instDecidableAlong (step s e) es
    inferInstanceAs (Decidable (C s e ∧ Along step C (step s e) es))

theorem along_append (s : σ) (es fs : List ε) :
    Along step C s (es ++ fs) ↔ Along step C s es ∧ Along step C (run step s es) fs := by
  induction es generalizing s with
  | nil => simp
  | cons e es ih => simp [ih, and_assoc]

theorem Along.mono (h : ∀ s e, C s e → D s e) {s : σ} {es : List ε}
    (hC : Along step C s es) : Along step D s es := by
  induction es generalizing s with
  | nil => trivial
  | cons e es ih => exact ⟨h s e hC.1, ih hC.2⟩

theorem along_and {s : σ} {es : List ε} :
    Along step (fun s e => C s e ∧ D s e) s es ↔ Along step C s es ∧ Along step D s es := by
  induction es generalizing s with
  | nil => simp
  | cons e es ih =>
    simp only [along_cons, ih]
    tauto

/-- A condition on the events alone. -/
theorem along_iff_forall {E : ε → Prop} {s : σ} {es : List ε} :
    Along step (fun _ e => E e) s es ↔ ∀ e ∈ es, E e := by
  induction es generalizing s with
  | nil => simp
  | cons e es ih => simp [ih]

theorem along_of_forall {E : ε → Prop} {es : List ε} (h : ∀ e ∈ es, E e) (s : σ) :
    Along step (fun _ e => E e) s es := along_iff_forall.mpr h

/-- Every step of a run is the last one of a prefix of it. -/
theorem along_iff_prefix {s : σ} {es : List ε} :
    Along step C s es ↔ ∀ pre e, pre ++ [e] <+: es → C (run step s pre) e := by
  induction es generalizing s with
  | nil => simp
  | cons f es ih =>
    rw [along_cons, ih]
    constructor
    · rintro ⟨hf, hrest⟩ pre e hpre
      cases pre with
      | nil =>
        obtain ⟨rfl, -⟩ := List.cons_prefix_cons.mp hpre
        exact hf
      | cons g pre =>
        obtain ⟨rfl, htail⟩ := List.cons_prefix_cons.mp hpre
        exact hrest pre e htail
    · intro h
      exact ⟨h [] f (by simp), fun pre e hpre =>
        h (f :: pre) e (List.cons_prefix_cons.mpr ⟨rfl, hpre⟩)⟩

/-! ## Invariants -/

/-- An invariant kept by every step that meets `C` holds at the end of every run along
which `C` holds. -/
theorem invariant_run {I : σ → Prop} (hstep : ∀ s e, I s → C s e → I (step s e))
    {s : σ} {es : List ε} (h0 : I s) (hC : Along step C s es) : I (run step s es) := by
  induction es generalizing s with
  | nil => exact h0
  | cons e es ih => exact ih (hstep s e h0 hC.1) hC.2

/-- An invariant kept by every step holds at the end of every run. -/
theorem invariant_always {I : σ → Prop} (hstep : ∀ s e, I s → I (step s e)) {s : σ} (h0 : I s)
    (es : List ε) : I (run step s es) := by
  induction es generalizing s with
  | nil => exact h0
  | cons e es ih => exact ih (hstep s e h0)

/-- A fact that the invariant gives about each step holds along the whole run. -/
theorem along_of_invariant {I : σ → Prop} (hstep : ∀ s e, I s → C s e → I (step s e))
    (hD : ∀ s e, I s → C s e → D s e)
    {s : σ} {es : List ε} (h0 : I s) (hC : Along step C s es) : Along step D s es := by
  induction es generalizing s with
  | nil => trivial
  | cons e es ih => exact ⟨hD s e h0 hC.1, ih (hstep s e h0 hC.1) hC.2⟩

/-- Two conditions that agree wherever the invariant holds. -/
theorem along_iff_of_invariant {I : σ → Prop} (hstep : ∀ s e, I s → I (step s e))
    (hCD : ∀ s e, I s → (C s e ↔ D s e)) {s : σ} (h0 : I s) (es : List ε) :
    Along step C s es ↔ Along step D s es := by
  induction es generalizing s with
  | nil => exact Iff.rfl
  | cons e es ih => exact and_congr (hCD s e h0) (ih (hstep s e h0))

/-- Two conditions that agree while the invariant holds, which each step that meets one of them
keeps. -/
theorem along_iff_along {I : σ → Prop} {B : σ → ε → Prop}
    (hstep : ∀ s e, I s → B s e → C s e → I (step s e))
    (hDC : ∀ s e, I s → B s e → (D s e ↔ C s e))
    {s : σ} {es : List ε} (h0 : I s) (hB : Along step B s es) :
    Along step D s es ↔ Along step C s es := by
  induction es generalizing s with
  | nil => exact Iff.rfl
  | cons e es ih =>
    have hhead := hDC s e h0 hB.1
    constructor
    · rintro ⟨hD, hrest⟩
      have hC := hhead.mp hD
      exact ⟨hC, (ih (hstep s e h0 hB.1 hC) hB.2).mp hrest⟩
    · rintro ⟨hC, hrest⟩
      exact ⟨hhead.mpr hC, (ih (hstep s e h0 hB.1 hC) hB.2).mpr hrest⟩

/-- **Exactness of a step condition**: if the invariant gives `P`, and a step outside `C`
leads from the invariant to a state without `P`, then `P` holds in every state of a run
exactly when `C` holds along it. -/
theorem prefix_iff_along {I P : σ → Prop} {B : σ → ε → Prop}
    (hstep : ∀ s e, I s → B s e → C s e → I (step s e))
    (hP : ∀ s, I s → P s)
    (hbreak : ∀ s e, I s → B s e → ¬ C s e → ¬ P (step s e))
    {s : σ} {es : List ε} (h0 : I s) (hB : Along step B s es) :
    (∀ pre, pre <+: es → P (run step s pre)) ↔ Along step C s es := by
  induction es generalizing s with
  | nil =>
    refine ⟨fun _ => trivial, fun _ pre hpre => ?_⟩
    rw [List.prefix_nil.mp hpre]
    exact hP s h0
  | cons e es ih =>
    constructor
    · intro hall
      have hC : C s e := by
        by_contra hne
        exact hbreak s e h0 hB.1 hne (hall [e] (by simp))
      refine ⟨hC, (ih (hstep s e h0 hB.1 hC) hB.2).mp fun pre hpre => ?_⟩
      exact hall (e :: pre) (List.cons_prefix_cons.mpr ⟨rfl, hpre⟩)
    · rintro ⟨hC, hrest⟩ pre hpre
      cases pre with
      | nil => exact hP s h0
      | cons f pre =>
        obtain ⟨rfl, htail⟩ := List.cons_prefix_cons.mp hpre
        exact (ih (hstep s f h0 hB.1 hC) hB.2).mpr hrest pre htail

/-! ## Turns -/

/-- **Nobody waits longer than their rank**: if only turns raise the rank, and each turn serves or
lowers it, then one of any `n` turns serves, once the rank is below `n`. -/
theorem served_within (I : σ → Prop) (turn : ε → Bool) (served : σ → ε → Prop) (rank : σ → Nat)
    (hstep : ∀ s e, I s → C s e → I (step s e))
    (hrank : ∀ s e, I s → C s e → ¬ turn e → rank (step s e) ≤ rank s)
    (hturn : ∀ s e, I s → C s e → turn e → served s e ∨ rank (step s e) < rank s)
    {s : σ} {es : List ε} (h0 : I s) (hC : Along step C s es) (hn : rank s < es.countP turn) :
    ∃ pre e post, es = pre ++ e :: post ∧ turn e ∧ served (run step s pre) e := by
  induction es generalizing s with
  | nil => exact absurd hn (by simp)
  | cons e es ih =>
    -- either this event serves, or it leaves a rank that the turns to come still exceed
    have hrest : rank (step s e) < es.countP turn →
        ∃ pre f post, e :: es = pre ++ f :: post ∧ turn f ∧ served (run step s pre) f := by
      intro hlt
      obtain ⟨pre, f, post, heq, hf, hserved⟩ := ih (hstep s e h0 hC.1) hC.2 hlt
      exact ⟨e :: pre, f, post, by rw [heq]; rfl, hf, hserved⟩
    by_cases hturn' : turn e = true
    · rw [List.countP_cons_of_pos hturn'] at hn
      rcases hturn s e h0 hC.1 hturn' with hserved | hlt
      · exact ⟨[], e, es, rfl, hturn', hserved⟩
      · exact hrest (by omega)
    · have hle := hrank s e h0 hC.1 hturn'
      rw [List.countP_cons_of_neg hturn'] at hn
      exact hrest (by omega)

/-! ## Refinement -/

/-- What `obs` sees in the events of a run from `s`. -/
def observe (step : σ → ε → σ) (obs : σ → ε → Option δ) : σ → List ε → List δ
  | _, [] => []
  | s, e :: es => (obs s e).toList ++ observe step obs (step s e) es

theorem observe_append {obs : σ → ε → Option δ} (s : σ) (es fs : List ε) :
    observe step obs s (es ++ fs) =
      observe step obs s es ++ observe step obs (run step s es) fs := by
  induction es generalizing s with
  | nil => rfl
  | cons e es ih =>
    rw [List.cons_append, observe, observe, ih, List.append_assoc]
    rfl

/-- **Simulation**: if each concrete step leads along `R` to the abstract step of what `obs` sees in
it, or to no step if it sees nothing, then a run leads to the abstract run. -/
theorem simulation_run {step' : τ → δ → τ} {R : σ → τ → Prop} {obs : σ → ε → Option δ}
    (hsim : ∀ s a e, R s a → C s e → R (step s e) ((obs s e).elim a (step' a)))
    {s : σ} {a : τ} {es : List ε} (h0 : R s a) (hC : Along step C s es) :
    R (run step s es) (run step' a (observe step obs s es)) := by
  induction es generalizing s a with
  | nil => exact h0
  | cons e es ih =>
    have hnext := hsim s a e h0 hC.1
    rw [observe, run_append]
    cases hobs : obs s e with
    | none =>
      rw [hobs] at hnext
      exact ih hnext hC.2
    | some d =>
      rw [hobs] at hnext
      exact ih hnext hC.2

/-- A machine that is driven by what `obs` sees in the events of another one. -/
def driven (step : σ → ε → σ) (obs : σ → ε → Option δ) (step' : τ → δ → τ) (sa : σ × τ) (e : ε) :
    σ × τ :=
  (step sa.1 e, (obs sa.1 e).elim sa.2 (step' sa.2))

theorem run_driven (step : σ → ε → σ) (obs : σ → ε → Option δ) (step' : τ → δ → τ) (s : σ) (a : τ)
    (es : List ε) : run (driven step obs step') (s, a) es =
      (run step s es, run step' a (observe step obs s es)) := by
  induction es generalizing s a with
  | nil => rfl
  | cons e es ih =>
    rw [run_cons, driven, ih, observe, run_append]
    cases obs s e <;> rfl

theorem along_driven_iff {obs : σ → ε → Option δ} {step' : τ → δ → τ} {s : σ} {es : List ε} (a : τ) :
    Along (driven step obs step') (fun sa e => C sa.1 e) (s, a) es ↔ Along step C s es := by
  induction es generalizing s a with
  | nil => exact Iff.rfl
  | cons e es ih => exact and_congr_right fun _ => ih _

theorem along_driven {obs : σ → ε → Option δ} {step' : τ → δ → τ} {s : σ} {es : List ε}
    (h : Along step C s es) (a : τ) :
    Along (driven step obs step') (fun sa e => C sa.1 e) (s, a) es := (along_driven_iff a).mpr h

/-- A family of machines of which each event moves one. -/
def stepAt {ι : Type*} [DecidableEq ι] (step' : τ → δ → τ) (S : ι → τ) (d : ι × δ) : ι → τ :=
  Function.update S d.1 (step' (S d.1) d.2)

/-- The events of member `i`. -/
def eventsAt {ι : Type*} [DecidableEq ι] (i : ι) (ds : List (ι × δ)) : List δ :=
  ds.filterMap fun d => if d.1 = i then some d.2 else none

/-- **Independence**: each member of the family runs through its own events. -/
theorem run_stepAt {ι : Type*} [DecidableEq ι] (step' : τ → δ → τ) (S : ι → τ) (ds : List (ι × δ))
    (i : ι) : run (stepAt step') S ds i = run step' (S i) (eventsAt i ds) := by
  induction ds generalizing S with
  | nil => rfl
  | cons d ds ih =>
    rw [run_cons, ih]
    by_cases hd : d.1 = i
    · have hevents : eventsAt i (d :: ds) = d.2 :: eventsAt i ds := by simp [eventsAt, hd]
      rw [hevents, ← hd, stepAt, Function.update_self]
      rfl
    · have hevents : eventsAt i (d :: ds) = eventsAt i ds := by simp [eventsAt, hd]
      rw [hevents, stepAt, Function.update_of_ne (Ne.symm hd)]

end Foundation
