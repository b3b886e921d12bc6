/-
Exact square roots of an ordered field.
-/
import Mathlib.Algebra.Order.Field.Basic
import Mathlib.Analysis.Real.Sqrt

namespace Js

/-- A function that takes exact square roots. -/
structure IsSqrt {K : Type} [Field K] [LinearOrder K] (sqrt : K → K) : Prop where
  nonneg : ∀ x, 0 ≤ x → 0 ≤ sqrt x
  mul_self : ∀ x, 0 ≤ x → sqrt x * sqrt x = x

theorem IsSqrt.of_mul_self {K : Type} [Field K] [LinearOrder K] [IsStrictOrderedRing K]
    {sqrt : K → K} (h : IsSqrt sqrt) {a : K} (ha : 0 ≤ a) : sqrt (a * a) = a :=
  (mul_self_inj (h.nonneg _ (mul_self_nonneg a)) ha).mp (h.mul_self _ (mul_self_nonneg a))

theorem IsSqrt.sq_eq {K : Type} [Field K] [LinearOrder K] {sqrt : K → K} (h : IsSqrt sqrt) {x : K}
    (hx : 0 ≤ x) : sqrt x ^ 2 = x := by
  rw [pow_two, h.mul_self x hx]

theorem isSqrt_real : IsSqrt Real.sqrt where
  nonneg := fun x _ => Real.sqrt_nonneg x
  mul_self := fun _ hx => Real.mul_self_sqrt hx

end Js
