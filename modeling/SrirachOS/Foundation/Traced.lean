import Mathlib.Tactic.Common

/-!
# Computations that Record what they Touch

A `Traced A α` is a value together with the places of memory (`A`) that its computation has read or
written. A function written in this monad is the plain function with its accesses made visible: the
rules for `value` take the accesses off again, and the rules for `Within` say that a computation
stays inside a region of memory when each of its parts does.
-/

namespace Foundation

/-- A value, and the places touched on the way to it. -/
structure Traced (A α : Type) where
  touched : List A
  value : α

namespace Traced

variable {A α β : Type}

instance : Monad (Traced A) where
  pure a := ⟨[], a⟩
  bind m f := ⟨m.touched ++ (f m.value).touched, (f m.value).value⟩

/-- Touch one place. -/
def touch (a : A) : Traced A Unit := ⟨[a], ()⟩

/-- Every place touched is in `P`. -/
def Within (P : A → Prop) (m : Traced A α) : Prop := ∀ a ∈ m.touched, P a

instance (P : A → Prop) [DecidablePred P] (m : Traced A α) : Decidable (m.Within P) :=
  inferInstanceAs (Decidable (∀ a ∈ m.touched, P a))

/-! ## Values -/

@[simp] theorem value_pure (a : α) : (pure a : Traced A α).value = a := rfl

@[simp] theorem value_bind (m : Traced A α) (f : α → Traced A β) :
    (m >>= f).value = (f m.value).value := rfl

@[simp] theorem value_ite (p : Prop) [Decidable p] (m n : Traced A α) :
    (if p then m else n).value = if p then m.value else n.value :=
  apply_ite Traced.value p m n

/-! ## Places -/

variable {P : A → Prop}

@[simp] theorem within_pure (a : α) : (pure a : Traced A α).Within P := by
  intro b hb
  cases hb

@[simp] theorem within_touch (a : A) : (touch a).Within P ↔ P a := List.forall_mem_singleton

/-- **The bind rule**: the places of the first part and those of the rest. -/
@[simp] theorem within_bind (m : Traced A α) (f : α → Traced A β) :
    (m >>= f).Within P ↔ m.Within P ∧ (f m.value).Within P := List.forall_mem_append

theorem within_ite (p : Prop) [Decidable p] (m n : Traced A α) :
    (if p then m else n).Within P ↔ if p then m.Within P else n.Within P := by
  split <;> rfl

end Traced

end Foundation
