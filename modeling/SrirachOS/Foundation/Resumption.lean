import SrirachOS.Foundation.Trace
import Mathlib.Logic.Function.Basic

/-!
# Programs over Atomic Operations, Alone and Interleaved

A program is a tree of atomic operations (`Prog.op`), each continued by a function of its
response. The same program can be run alone (`Prog.run`, `Prog.soloSteps`) or as one of a
pool of programs whose operations are interleaved by a schedule (`poolStep`).

A program may only perform operations of a certain kind as long as it gets answers of a
certain kind (`Prog.Within`): a pointer it has just loaded is only as good as the load.

`pool_project` is the isolation rule: if a relation between the shared state and a private
copy is kept by the program's own operations, which also answer alike on both, and by every
operation of the others, then the program behaves in the pool as it does alone.
-/

namespace Foundation

/-- A program that returns an `α` after operations `o : Op` with responses in `Res o`. -/
inductive Prog (Op : Type) (Res : Op → Type) (α : Type) where
  | ret (a : α)
  | op (o : Op) (next : Res o → Prog Op Res α)

namespace Prog

variable {Op : Type} {Res : Op → Type} {α β σ : Type}

/-- Sequential composition. -/
def bind : Prog Op Res α → (α → Prog Op Res β) → Prog Op Res β
  | ret a, f => f a
  | op o next, f => op o fun r => (next r).bind f

instance : Monad (Prog Op Res) where
  pure := ret
  bind := bind

@[simp] theorem pure_eq (a : α) : (pure a : Prog Op Res α) = ret a := rfl

@[simp] theorem ret_bind (a : α) (f : α → Prog Op Res β) : (ret a >>= f) = f a := rfl

theorem op_bind (o : Op) (next : Res o → Prog Op Res α) (f : α → Prog Op Res β) :
    (op o next >>= f) = op o fun r => next r >>= f := rfl

/-! ## Running alone -/

/-- Run the program to its end; each operation acts on the state and answers. -/
def run (sem : (o : Op) → σ → Res o × σ) : Prog Op Res α → σ → α × σ
  | ret a, s => (a, s)
  | op o next, s => (next (sem o s).1).run sem (sem o s).2

variable (sem : (o : Op) → σ → Res o × σ)

@[simp] theorem run_ret (a : α) (s : σ) : (ret a : Prog Op Res α).run sem s = (a, s) := rfl

theorem run_op (o : Op) (next : Res o → Prog Op Res α) (s : σ) :
    (op o next).run sem s = (next (sem o s).1).run sem (sem o s).2 := rfl

theorem run_bind (p : Prog Op Res α) (f : α → Prog Op Res β) (s : σ) :
    (p >>= f).run sem s = (f (p.run sem s).1).run sem (p.run sem s).2 := by
  induction p generalizing s with
  | ret a => rfl
  | op o next ih =>
    rw [op_bind, run_op, run_op]
    exact ih (sem o s).1 (sem o s).2

/-- One operation of a program running alone. -/
def soloStep : Prog Op Res α × σ → Prog Op Res α × σ
  | (ret a, s) => (ret a, s)
  | (op o next, s) => (next (sem o s).1, (sem o s).2)

/-- The first `n` operations of a program running alone. -/
def soloSteps (n : Nat) (c : Prog Op Res α × σ) : Prog Op Res α × σ := (soloStep sem)^[n] c

theorem soloSteps_succ (n : Nat) (c : Prog Op Res α × σ) :
    soloSteps sem (n + 1) c = soloSteps sem n (soloStep sem c) :=
  Function.iterate_succ_apply ..

/-- Stepping does not change what the run ends with. -/
theorem run_soloSteps (n : Nat) (c : Prog Op Res α × σ) :
    (soloSteps sem n c).1.run sem (soloSteps sem n c).2 = c.1.run sem c.2 := by
  induction n generalizing c with
  | zero => rfl
  | succ n ih =>
    have hstep : (soloStep sem c).1.run sem (soloStep sem c).2 = c.1.run sem c.2 := by
      obtain ⟨p, s⟩ := c
      cases p <;> rfl
    rw [soloSteps_succ]
    exact (ih (soloStep sem c)).trans hstep

/-- A program that has ended by stepping has ended as its run does. -/
theorem run_eq_of_soloSteps {n : Nat} {c : Prog Op Res α × σ} {a : α}
    (h : (soloSteps sem n c).1 = ret a) : c.1.run sem c.2 = (a, (soloSteps sem n c).2) := by
  rw [← run_soloSteps sem n c, h, run_ret]

/-! ## Programs that stay within their means -/

/-- The operations of the program meet `ok` as long as the answers it gets meet `resp`. -/
def Within (ok : Op → Prop) (resp : (o : Op) → Res o → Prop) : Prog Op Res α → Prop
  | ret _ => True
  | op o next => ok o ∧ ∀ r, resp o r → (next r).Within ok resp

variable {ok : Op → Prop} {resp : (o : Op) → Res o → Prop}

@[simp] theorem within_ret (a : α) : (ret a : Prog Op Res α).Within ok resp := trivial

@[simp] theorem within_op (o : Op) (next : Res o → Prog Op Res α) :
    (op o next).Within ok resp ↔ ok o ∧ ∀ r, resp o r → (next r).Within ok resp := Iff.rfl

theorem Within.bind {p : Prog Op Res α} {f : α → Prog Op Res β} (hp : p.Within ok resp)
    (hf : ∀ a, (f a).Within ok resp) : (p >>= f).Within ok resp := by
  induction p with
  | ret a => exact hf a
  | op o next ih =>
    obtain ⟨ho, hnext⟩ := hp
    exact ⟨ho, fun r hr => ih r (hnext r hr)⟩

end Prog

/-! ## Interleaving -/

section Interleaving

variable {ι Op : Type} {Res : Op → Type} {β σ τ : Type} [DecidableEq ι]

/-- The next operation of program `i` of the pool. -/
def poolStep (sem : ι → (o : Op) → σ → Res o × σ) (c : (ι → Prog Op Res β) × σ) (i : ι) :
    (ι → Prog Op Res β) × σ :=
  match c.1 i with
  | .ret _ => c
  | .op o next => (Function.update c.1 i (next (sem i o c.2).1), (sem i o c.2).2)

/-- The first operation of a program meets `C`. -/
def Prog.First (C : Op → Prop) : Prog Op Res β → Prop
  | .ret _ => True
  | .op o _ => C o

instance {C : Op → Prop} [DecidablePred C] : (p : Prog Op Res β) → Decidable (p.First C)
  | .ret _ => isTrue trivial
  | .op o _ => inferInstanceAs (Decidable (C o))

/-- The operation that program `i` takes next meets `Fair i`. -/
def FairStep (Fair : ι → Op → σ → Prop) (c : (ι → Prog Op Res β) × σ) (i : ι) : Prop :=
  (c.1 i).First fun o => Fair i o c.2

instance {Fair : ι → Op → σ → Prop} [∀ i o s, Decidable (Fair i o s)]
    (c : (ι → Prog Op Res β) × σ) (i : ι) : Decidable (FairStep Fair c i) :=
  inferInstanceAs (Decidable ((c.1 i).First fun o => Fair i o c.2))

omit [DecidableEq ι] in
theorem FairStep.of_op {Fair : ι → Op → σ → Prop} {c : (ι → Prog Op Res β) × σ} {i : ι} {o : Op}
    {next : Res o → Prog Op Res β} (h : FairStep Fair c i) (hp : c.1 i = .op o next) :
    Fair i o c.2 := by
  unfold FairStep at h
  rwa [hp] at h

variable {sem : ι → (o : Op) → σ → Res o × σ} {Fair : ι → Op → σ → Prop}
  {ok : ι → Op → Prop} {resp : ι → (o : Op) → Res o → Prop}

theorem poolStep_ret {c : (ι → Prog Op Res β) × σ} {i : ι} {a : β} (h : c.1 i = .ret a) :
    poolStep sem c i = c := by
  unfold poolStep; rw [h]

theorem poolStep_op {c : (ι → Prog Op Res β) × σ} {i : ι} {o : Op}
    {next : Res o → Prog Op Res β} (h : c.1 i = .op o next) :
    poolStep sem c i =
      (Function.update c.1 i (next (sem i o c.2).1), (sem i o c.2).2) := by
  unfold poolStep; rw [h]

/-- A fair step keeps every program within its means. -/
theorem within_poolStep {c : (ι → Prog Op Res β) × σ} {j : ι}
    (hresp : ∀ o, Fair j o c.2 → resp j o (sem j o c.2).1)
    (hwithin : ∀ i, (c.1 i).Within (ok i) (resp i)) (hfair : FairStep Fair c j) (i : ι) :
    ((poolStep sem c j).1 i).Within (ok i) (resp i) := by
  cases hp : c.1 j with
  | ret a => rw [poolStep_ret hp]; exact hwithin i
  | op o next =>
    rw [poolStep_op hp]
    by_cases hij : i = j
    · subst hij
      have hmeans := hwithin i
      rw [hp] at hmeans
      simpa using hmeans.2 _ (hresp o (hfair.of_op hp))
    · simpa [Function.update_of_ne hij] using hwithin i

/-- **Isolation**: under the fairness condition, program `i` of the pool has taken exactly
the operations, with exactly the answers, that it takes alone. -/
theorem pool_project {i : ι} {R : σ → τ → Prop} {solo : (o : Op) → τ → Res o × τ}
    (hresp : ∀ j o s t, R s t → Fair j o s → resp j o (sem j o s).1)
    (hown : ∀ o s t, R s t → ok i o → Fair i o s →
      (sem i o s).1 = (solo o t).1 ∧ R (sem i o s).2 (solo o t).2)
    (hother : ∀ j, j ≠ i → ∀ o s t, R s t → ok j o → Fair j o s → R (sem j o s).2 t)
    (sched : List ι) (c : (ι → Prog Op Res β) × σ) (t : τ) (hR : R c.2 t)
    (hwithin : ∀ j, (c.1 j).Within (ok j) (resp j))
    (hfair : Along (poolStep sem) (FairStep Fair) c sched) :
    (run (poolStep sem) c sched).1 i =
      (Prog.soloSteps solo (sched.count i) (c.1 i, t)).1 ∧
    R (run (poolStep sem) c sched).2
      (Prog.soloSteps solo (sched.count i) (c.1 i, t)).2 := by
  induction sched generalizing c t with
  | nil => exact ⟨rfl, hR⟩
  | cons j sched ih =>
    obtain ⟨hj, hrest⟩ := hfair
    have hwithin' := within_poolStep (fun o => hresp j o c.2 t hR) hwithin hj
    rw [run_cons]
    cases hp : c.1 j with
    | ret a =>
      rw [poolStep_ret hp] at hrest ⊢
      have hrun := ih c t hR hwithin hrest
      by_cases hij : j = i
      · -- program `i` has ended: stepping it alone changes nothing either
        subst hij
        rw [hp] at hrun
        rwa [List.count_cons_self, hp, Prog.soloSteps_succ]
      · rwa [List.count_cons_of_ne hij]
    | op o next =>
      have hmeans := hwithin j
      rw [hp] at hmeans
      rw [poolStep_op hp] at hrest hwithin' ⊢
      by_cases hij : j = i
      · -- an operation of program `i`: both sides take it
        subst hij
        obtain ⟨hres, hR'⟩ := hown o c.2 t hR hmeans.1 (hj.of_op hp)
        have hsolo : Prog.soloStep solo (.op o next, t) =
            (next (solo o t).1, (solo o t).2) := rfl
        rw [List.count_cons_self, hp, Prog.soloSteps_succ, hsolo, ← hres]
        simpa using ih _ _ hR' hwithin' hrest
      · -- an operation of another program: only the shared state moves
        have hrun := ih _ t (hother j hij o c.2 t hR hmeans.1 (hj.of_op hp)) hwithin' hrest
        have hsame : Function.update c.1 j (next (sem j o c.2).1) i = c.1 i :=
          Function.update_of_ne (Ne.symm hij) ..
        rwa [List.count_cons_of_ne hij, ← hsame]

end Interleaving

end Foundation
