/-
Weighted means kept by accumulators.

A running mean is three numbers: the weight so far, the weighted sum and the weighted sum of
squares.  What is kept is that the mean of the weights lies among the values, that its square does
not pass the mean of the squares, and that the latter does not pass the largest square.
-/
import Mathlib.Algebra.Order.Field.Basic
import Mathlib.Tactic.Linarith
import Mathlib.Tactic.Positivity
import Mathlib.Tactic.Ring

namespace Means

variable {K : Type} [Field K] [LinearOrder K] [IsStrictOrderedRing K]

/-- The weight `w`, the sum `a` and the sum of squares `q` of weighted values between `lo` and
`hi`. -/
structure Weighs (lo hi w a q : K) : Prop where
  weight : 0 ≤ w
  lower : w * lo ≤ a
  upper : a ≤ w * hi
  squares : 0 ≤ q
  jensen : a ^ 2 ≤ w * q
  largest : q ≤ w * max (lo ^ 2) (hi ^ 2)

variable {lo hi w a q y d : K}

omit [IsStrictOrderedRing K] in
theorem Weighs.zero (lo hi : K) : Weighs lo hi 0 0 0 := by
  constructor <;> simp

/-- A square between two numbers does not pass the larger of their squares. -/
theorem sq_le_max (hlo : lo ≤ y) (hhi : y ≤ hi) : y ^ 2 ≤ max (lo ^ 2) (hi ^ 2) := by
  rcases le_total 0 y with hy | hy
  · exact le_max_of_le_right (pow_le_pow_left₀ hy hhi 2)
  · have hneg : (-y) ^ 2 ≤ (-lo) ^ 2 := pow_le_pow_left₀ (by linarith) (by linarith) 2
    rw [neg_sq, neg_sq] at hneg
    exact le_max_of_le_left hneg

/-- The mean of the squares and the square of a value pass twice their product. -/
theorem Weighs.cross (h : Weighs lo hi w a q) (y : K) : 2 * a * y ≤ w * y ^ 2 + q := by
  rcases h.weight.eq_or_lt with hw | hw
  · have hzero : a = 0 := by
      have hsq := h.jensen
      rw [← hw, zero_mul] at hsq
      exact pow_eq_zero_iff two_ne_zero |>.mp (le_antisymm hsq (sq_nonneg a))
    rw [hzero, ← hw]
    linarith [h.squares]
  · -- times the weight, the difference is a square and the slack of `jensen`
    have hprod : 0 ≤ w * (w * y ^ 2 + q - 2 * a * y) := by
      have hsplit : w * (w * y ^ 2 + q - 2 * a * y) = (w * y - a) ^ 2 + (w * q - a ^ 2) := by ring
      rw [hsplit]
      exact add_nonneg (sq_nonneg _) (sub_nonneg.mpr h.jensen)
    linarith [nonneg_of_mul_nonneg_right hprod hw]

/-- One more value. -/
theorem Weighs.add (h : Weighs lo hi w a q) (hlo : lo ≤ y) (hhi : y ≤ hi) (hd : 0 ≤ d) :
    Weighs lo hi (w + d) (a + d * y) (q + d * y ^ 2) where
  weight := add_nonneg h.weight hd
  lower := by
    rw [add_mul]
    exact add_le_add h.lower (mul_le_mul_of_nonneg_left hlo hd)
  upper := by
    rw [add_mul]
    exact add_le_add h.upper (mul_le_mul_of_nonneg_left hhi hd)
  squares := add_nonneg h.squares (mul_nonneg hd (sq_nonneg y))
  jensen := by
    have hcross := mul_le_mul_of_nonneg_left (h.cross y) hd
    have hjensen := h.jensen
    calc (a + d * y) ^ 2 = a ^ 2 + d * (2 * a * y) + d ^ 2 * y ^ 2 := by ring
      _ ≤ w * q + d * (w * y ^ 2 + q) + d ^ 2 * y ^ 2 := by linarith
      _ = (w + d) * (q + d * y ^ 2) := by ring
  largest := by
    rw [add_mul]
    exact add_le_add h.largest (mul_le_mul_of_nonneg_left (sq_le_max hlo hhi) hd)

/-- A wider range. -/
theorem Weighs.widen (h : Weighs lo hi w a q) {lo' hi' : K} (hlo : lo' ≤ lo) (hhi : hi ≤ hi')
    (hle : lo ≤ hi) : Weighs lo' hi' w a q where
  weight := h.weight
  lower := (mul_le_mul_of_nonneg_left hlo h.weight).trans h.lower
  upper := h.upper.trans (mul_le_mul_of_nonneg_left hhi h.weight)
  squares := h.squares
  jensen := h.jensen
  largest := by
    refine h.largest.trans (mul_le_mul_of_nonneg_left (max_le ?_ ?_) h.weight)
    · exact sq_le_max hlo (hle.trans hhi)
    · exact sq_le_max (hlo.trans hle) hhi

/-- A trapezoid is two values of half its width. -/
theorem Weighs.trapezoid (h : Weighs lo hi w a q) {y' : K} (hlo : lo ≤ y) (hhi : y ≤ hi)
    (hlo' : lo ≤ y') (hhi' : y' ≤ hi) (hd : 0 ≤ d) :
    Weighs lo hi (w + d) (a + 1 / 2 * (y + y') * d) (q + 1 / 2 * (y * y + y' * y') * d) := by
  have hhalf : 0 ≤ d / 2 := by positivity
  have htwo := (h.add hlo hhi hhalf).add hlo' hhi' hhalf
  have hw : w + d / 2 + d / 2 = w + d := by ring
  have ha : a + d / 2 * y + d / 2 * y' = a + 1 / 2 * (y + y') * d := by ring
  have hq : q + d / 2 * y ^ 2 + d / 2 * y' ^ 2 = q + 1 / 2 * (y * y + y' * y') * d := by ring
  rwa [hw, ha, hq] at htwo

/-- The mean and the mean of the squares. -/
theorem Weighs.mean (h : Weighs lo hi w a q) (hw : 0 < w) :
    lo ≤ a / w ∧ a / w ≤ hi ∧ (a / w) ^ 2 ≤ q / w ∧ q / w ≤ max (lo ^ 2) (hi ^ 2) := by
  refine ⟨?_, ?_, ?_, ?_⟩
  · rw [le_div_iff₀' hw]
    exact h.lower
  · rw [div_le_iff₀' hw]
    exact h.upper
  · rw [div_pow, div_le_div_iff₀ (pow_pos hw 2) hw]
    calc a ^ 2 * w ≤ w * q * w := mul_le_mul_of_nonneg_right h.jensen hw.le
      _ = q * w ^ 2 := by ring
  · rw [div_le_iff₀' hw]
    exact h.largest

end Means
