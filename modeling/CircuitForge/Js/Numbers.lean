/-
What the numbers of a runtime stand for.

The finite numbers have values in an ordered field.  Comparisons are exact in every runtime; the
arithmetic is exact where a result says so.
-/
import CircuitForge.Js.Decimal
import Mathlib.Algebra.Order.Field.Basic
import Mathlib.Tactic.NormNum

namespace Js

section

variable [Runtime] {K : Type}

/-- Finite numbers compare as their values do, and `<=` is transitive. -/
structure OrderedNumbers [LinearOrder K] (value : Runtime.Num → K) : Prop where
  lt_iff : ∀ a b, Runtime.isFinite a = true → Runtime.isFinite b = true →
    (Runtime.lt a b = true ↔ value a < value b)
  eq_iff : ∀ a b, Runtime.isFinite a = true → Runtime.isFinite b = true →
    (Runtime.eq a b = true ↔ value a = value b)
  le_trans : ∀ a b c, Runtime.le a b = true → Runtime.le b c = true → Runtime.le a c = true

/-- Finite numbers have a zero and exact opposites. -/
structure SignedNumbers [Field K] [LinearOrder K] (value : Runtime.Num → K) : Prop
    extends OrderedNumbers value where
  zero : Runtime.isFinite (Runtime.lit 0 0) = true ∧ value (Runtime.lit 0 0) = 0
  neg : ∀ a, Runtime.isFinite a = true →
    Runtime.isFinite (Runtime.sub (Runtime.lit 0 0) a) = true ∧
      value (Runtime.sub (Runtime.lit 0 0) a) = -value a

/-- Arithmetic on finite numbers is exact, and stays among them. -/
structure ExactNumbers [Field K] [LinearOrder K] (value : Runtime.Num → K) : Prop
    extends OrderedNumbers value where
  lit : ∀ m e, Runtime.isFinite (Runtime.lit m e) = true ∧
    value (Runtime.lit m e) = (m : K) * 10 ^ e
  add : ∀ a b, Runtime.isFinite a = true → Runtime.isFinite b = true →
    Runtime.isFinite (Runtime.add a b) = true ∧ value (Runtime.add a b) = value a + value b
  sub : ∀ a b, Runtime.isFinite a = true → Runtime.isFinite b = true →
    Runtime.isFinite (Runtime.sub a b) = true ∧ value (Runtime.sub a b) = value a - value b
  mul : ∀ a b, Runtime.isFinite a = true → Runtime.isFinite b = true →
    Runtime.isFinite (Runtime.mul a b) = true ∧ value (Runtime.mul a b) = value a * value b
  div : ∀ a b, Runtime.isFinite a = true → Runtime.isFinite b = true → value b ≠ 0 →
    Runtime.isFinite (Runtime.div a b) = true ∧ value (Runtime.div a b) = value a / value b

namespace OrderedNumbers

variable [LinearOrder K] {value : Runtime.Num → K} {a b : Runtime.Num}

theorem le_iff (h : OrderedNumbers value) (ha : Runtime.isFinite a = true)
    (hb : Runtime.isFinite b = true) : Runtime.le a b = true ↔ value a ≤ value b := by
  rw [Runtime.le, Bool.or_eq_true, h.lt_iff a b ha hb, h.eq_iff a b ha hb, le_iff_lt_or_eq]

/-- `Math.min` of finite numbers is one of them, of the smaller value. -/
theorem min (h : OrderedNumbers value) (ha : Runtime.isFinite a = true)
    (hb : Runtime.isFinite b = true) :
    (Runtime.min a b = a ∨ Runtime.min a b = b) ∧
      value (Runtime.min a b) = Min.min (value a) (value b) := by
  unfold Runtime.min
  split_ifs with hlt
  · rw [h.lt_iff b a hb ha] at hlt
    exact ⟨Or.inr rfl, (min_eq_right hlt.le).symm⟩
  · rw [h.lt_iff b a hb ha, not_lt] at hlt
    exact ⟨Or.inl rfl, (min_eq_left hlt).symm⟩

/-- `Math.max` of finite numbers is one of them, of the larger value. -/
theorem max (h : OrderedNumbers value) (ha : Runtime.isFinite a = true)
    (hb : Runtime.isFinite b = true) :
    (Runtime.max a b = a ∨ Runtime.max a b = b) ∧
      value (Runtime.max a b) = Max.max (value a) (value b) := by
  unfold Runtime.max
  split_ifs with hlt
  · rw [h.lt_iff a b ha hb] at hlt
    exact ⟨Or.inr rfl, (max_eq_right hlt.le).symm⟩
  · rw [h.lt_iff a b ha hb, not_lt] at hlt
    exact ⟨Or.inl rfl, (max_eq_left hlt).symm⟩

end OrderedNumbers

/-- `Math.abs` of a finite number. -/
theorem SignedNumbers.abs [Field K] [LinearOrder K] [IsStrictOrderedRing K]
    {value : Runtime.Num → K} (h : SignedNumbers value) {a : Runtime.Num}
    (ha : Runtime.isFinite a = true) :
    Runtime.isFinite (Runtime.abs a) = true ∧ value (Runtime.abs a) = |value a| := by
  unfold Runtime.abs
  split_ifs with hlt
  · rw [h.lt_iff _ _ ha h.zero.1, h.zero.2] at hlt
    exact ⟨(h.neg a ha).1, (h.neg a ha).2.trans (abs_of_neg hlt).symm⟩
  · rw [h.lt_iff _ _ ha h.zero.1, h.zero.2, not_lt] at hlt
    exact ⟨ha, (abs_of_nonneg hlt).symm⟩

namespace ExactNumbers

variable [Field K] [LinearOrder K] {value : Runtime.Num → K}

theorem zero (h : ExactNumbers value) : value (Runtime.lit 0 0) = 0 := by
  rw [(h.lit 0 0).2, Int.cast_zero, zero_mul]

theorem nat (h : ExactNumbers value) (n : Nat) : value (Runtime.lit n 0) = n := by
  rw [(h.lit n 0).2, zpow_zero, mul_one, Int.cast_natCast]

theorem toSigned (h : ExactNumbers value) : SignedNumbers value where
  toOrderedNumbers := h.toOrderedNumbers
  zero := ⟨(h.lit 0 0).1, h.zero⟩
  neg a ha := by
    have hsub := h.sub _ a (h.lit 0 0).1 ha
    rw [h.zero, zero_sub] at hsub
    exact hsub

end ExactNumbers

end

/-- A number of the exact runtime is its own value. -/
def exactValue (a : Rat) : Rat := a

theorem exact_le_iff {a b : Rat} : Runtime.le a b = true ↔ a ≤ b := by
  rw [Runtime.le, Bool.or_eq_true]
  exact (or_congr decide_eq_true_iff decide_eq_true_iff).trans le_iff_lt_or_eq.symm

theorem exact_le_trans (a b c : Rat) (hab : Runtime.le a b = true) (hbc : Runtime.le b c = true) :
    Runtime.le a c = true :=
  exact_le_iff.mpr ((exact_le_iff.mp hab).trans (exact_le_iff.mp hbc))

theorem exactNumbers_exact : ExactNumbers exactValue where
  lt_iff _ _ _ _ := decide_eq_true_iff
  eq_iff _ _ _ _ := decide_eq_true_iff
  le_trans := exact_le_trans
  lit m e := ⟨rfl, congrArg ((m : Rat) * ·) (Exact.pow10_eq e)⟩
  add _ _ _ _ := ⟨rfl, rfl⟩
  sub _ _ _ _ := ⟨rfl, rfl⟩
  mul _ _ _ _ := ⟨rfl, rfl⟩
  div _ _ _ _ _ := ⟨rfl, rfl⟩

end Js
