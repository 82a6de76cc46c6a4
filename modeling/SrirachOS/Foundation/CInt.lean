import Mathlib.Tactic.Common

/-!
# Machine Integers of a 32-bit C Target

A C expression is evaluated over `Int` and converted where the source converts it:
`u32` is the conversion to a 32-bit unsigned type, `i32` to a 32-bit signed type
(two's complement) and `i8` reads a byte as a signed `char`.

Each conversion is the identity on the values its type can hold; these are the facts
that let a proof drop it once the ranges are known. The conversions are irreducible: a
proof unfolds them by name, and comparing two terms never evaluates them.
-/

namespace Foundation

/-- Conversion to `uint32_t`. -/
@[irreducible] def u32 (x : Int) : Int := x % 4294967296

/-- Conversion to `int32_t`. -/
@[irreducible] def i32 (x : Int) : Int :=
  if x % 4294967296 < 2147483648 then x % 4294967296 else x % 4294967296 - 4294967296

/-- A byte read through a signed `char` type. -/
def i8 (b : UInt8) : Int := if b.toNat < 128 then (b.toNat : Int) else (b.toNat : Int) - 256

/-! ## Ranges -/

theorem u32_nonneg (x : Int) : 0 ≤ u32 x := by
  unfold u32; omega

theorem i32_ge (x : Int) : -2147483648 ≤ i32 x := by
  unfold i32; split <;> omega

theorem i32_lt (x : Int) : i32 x < 2147483648 := by
  unfold i32; split <;> omega

/-! ## Values that fit -/

theorem u32_of_fits {x : Int} (h0 : 0 ≤ x) (h1 : x < 4294967296) : u32 x = x := by
  unfold u32; omega

theorem i32_of_fits {x : Int} (h0 : -2147483648 ≤ x) (h1 : x < 2147483648) : i32 x = x := by
  unfold i32; split <;> omega

theorem u32_natCast {n : Nat} (h : n < 4294967296) : u32 n = n :=
  u32_of_fits (Int.natCast_nonneg n) (Int.ofNat_lt.mpr h)

theorem i32_natCast {n : Nat} (h : n < 2147483648) : i32 n = n :=
  i32_of_fits (by omega) (Int.ofNat_lt.mpr h)

/-! ## Comparisons -/

/-- A signed `char` and an unsigned byte are equal only below 128. -/
theorem i8_eq_toNat_iff {a b : UInt8} : i8 a = (b.toNat : Int) ↔ a = b ∧ a.toNat < 128 := by
  rw [← UInt8.toNat_inj]
  have := a.toNat_lt
  unfold i8
  split <;> omega

end Foundation
