/-
Rounding to the multiples of a step, halves upwards.

Rounding moves a number by half a step at most.  A multiple of the step is what a number is rounded
to just where the number lies within half a step of it.
-/
import Mathlib.Algebra.Order.Field.Basic
import Mathlib.Algebra.Order.Floor.Ring
import Mathlib.Tactic.Linarith

namespace Rounding

variable {K : Type} [Field K] [LinearOrder K] [FloorRing K]

/-- The multiple of `g` that is nearest to `v`, and the upper one of two. -/
def toStep (g v : K) : K := ⌊v / g + ((2 : ℕ) : K)⁻¹⌋ * g

/-- A multiple of `g`. -/
def OnStep (g v : K) : Prop := ∃ n : Int, v = n * g

theorem onStep_toStep (g v : K) : OnStep g (toStep g v) := ⟨_, rfl⟩

section

omit [LinearOrder K] [FloorRing K]

theorem onStep_zero (g : K) : OnStep g 0 := ⟨0, by rw [Int.cast_zero, zero_mul]⟩

/-- The difference of two multiples. -/
theorem OnStep.sub {g a b : K} (ha : OnStep g a) (hb : OnStep g b) : OnStep g (a - b) := by
  obtain ⟨m, rfl⟩ := ha
  obtain ⟨k, rfl⟩ := hb
  exact ⟨m - k, by rw [Int.cast_sub, sub_mul]⟩

/-- A multiple of a step that is itself a multiple of a finer one. -/
theorem OnStep.trans {g h a : K} (ha : OnStep g a) (hg : OnStep h g) : OnStep h a := by
  obtain ⟨m, rfl⟩ := ha
  obtain ⟨k, rfl⟩ := hg
  exact ⟨m * k, by rw [Int.cast_mul, mul_assoc]⟩

end

variable [IsStrictOrderedRing K] {g : K}

theorem toStep_eq_iff (hg : 0 < g) {v x : K} (hx : OnStep g x) :
    toStep g v = x ↔ -(g / 2) ≤ v - x ∧ v - x < g / 2 := by
  obtain ⟨n, rfl⟩ := hx
  rw [toStep, Nat.cast_ofNat, mul_left_inj' hg.ne', Int.cast_inj, Int.floor_eq_iff,
    ← sub_le_iff_le_add, ← lt_sub_iff_add_lt, le_div_iff₀ hg, div_lt_iff₀ hg]
  constructor
  · rintro ⟨hle, hlt⟩
    constructor <;> linarith
  · rintro ⟨hle, hlt⟩
    constructor <;> linarith

/-- A multiple of the step is kept. -/
theorem toStep_of_onStep (hg : 0 < g) {x : K} (hx : OnStep g x) : toStep g x = x :=
  (toStep_eq_iff hg hx).mpr (by constructor <;> linarith)

/-- What rounding adds. -/
theorem toStep_sub_mem (hg : 0 < g) (v : K) :
    -(g / 2) < toStep g v - v ∧ toStep g v - v ≤ g / 2 := by
  obtain ⟨hle, hlt⟩ := (toStep_eq_iff hg (onStep_toStep g v)).mp rfl
  constructor <;> linarith

theorem abs_sub_toStep_le_half (hg : 0 < g) (v : K) : |v - toStep g v| ≤ g / 2 := by
  obtain ⟨hlo, hhi⟩ := toStep_sub_mem hg v
  rw [abs_le]
  constructor <;> linarith

/-- A number is rounded to a multiple that is no further away than zero is. -/
theorem abs_sub_toStep_le (hg : 0 < g) (v : K) : |v - toStep g v| ≤ |v| := by
  by_cases hv : |v| < g / 2
  · have hzero : toStep g v = 0 := by
      rw [toStep_eq_iff hg (onStep_zero g), sub_zero]
      exact ⟨(abs_lt.mp hv).1.le, (abs_lt.mp hv).2⟩
    rw [hzero, sub_zero]
  · exact (abs_sub_toStep_le_half hg v).trans (not_lt.mp hv)

end Rounding
