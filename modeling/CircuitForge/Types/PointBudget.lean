/-
The point budget of a swept request.

`clampStepToPointBudget` replaces a step that asks for more than `MAX_SIM_POINTS` points by the
span over the budget, printed at four digits.  It leaves a negative step alone, and where the
four digits round down the new step still asks for too many points.
-/
import CircuitForge.Schemas.Analysis
import CircuitForge.Utils.SpiceValues

namespace CircuitForge

open Js Js.Exact

/-- The number of a SPICE value. -/
def numberOf (s : Text) : Option Rat := (parseSpiceValue s).map ParsedValue.value

theorem numberOf_eq_some {s : Text} {x : Rat} (h : numberOf s = some x) :
    ∃ unit, parseSpiceValue s = some { value := x, unit := unit } := by
  obtain ⟨⟨value, unit⟩, hparse, rfl⟩ := Option.map_eq_some_iff.mp h
  exact ⟨unit, hparse⟩

/-- The start, the stop and the step a swept request asks for. -/
def AnalysisConfig.asked : AnalysisConfig → Option (Text × Text × Text)
  | .tran a =>
    some (a.start, a.stopTime, (truthy a.stepTime).getD (calculateDefaultStep a.stopTime))
  | .dc a => some (a.startVal, a.stopVal, a.increment)
  | _ => none

/-- The field of the card that holds the step. -/
def AnalysisConfig.stepField : AnalysisConfig → Option Text
  | .tran a => a.fields[1]?
  | .dc a => a.fields[4]?
  | _ => none

theorem stepField_of_asked {a : AnalysisConfig} {start stop step : Text}
    (h : a.asked = some (start, stop, step)) :
    a.stepField = some (clampStepToPointBudget start stop step) := by
  cases a with
  | tran a => cases h; rfl
  | dc a => cases h; rfl
  | ac a => cases h
  | op a => cases h
  | noise a => cases h
  | sens a => cases h

/-- The points from `start` to `stop` are within the budget. -/
def WithinBudget (start stop step : Rat) : Prop := |stop - start| / |step| ≤ 1000000

instance (start stop step : Rat) : Decidable (WithinBudget start stop step) :=
  inferInstanceAs (Decidable (_ ≤ _))

theorem maxSimPoints_eq : maxSimPoints = (1000000 : Rat) := mul_one (1000000 : Rat)

theorem lt_zero_iff (x : Rat) : Runtime.lt (Runtime.lit 0 0) x = true ↔ 0 < x := by
  show decide (0 * pow10 0 < x) = true ↔ 0 < x
  rw [zero_mul, decide_eq_true_eq]

/-- The clamp over the numbers of its three texts. -/
theorem clamp_eq {start stop step : Text} {x y s : Rat} (hstart : numberOf start = some x)
    (hstop : numberOf stop = some y) (hstep : numberOf step = some s) (hs : s ≠ 0) :
    clampStepToPointBudget start stop step =
      if WithinBudget x y s ∨ s < 0 then step else formatSpiceValue (|y - x| / 1000000) := by
  obtain ⟨ux, hx⟩ := numberOf_eq_some hstart
  obtain ⟨uy, hy⟩ := numberOf_eq_some hstop
  obtain ⟨us, hu⟩ := numberOf_eq_some hstep
  have hspan : (Runtime.abs (Runtime.sub y x) : Rat) = |y - x| := abs_eq (y - x)
  have hwithin : WithinBudget x y s ↔ |y - x| / |s| ≤ 1000000 := Iff.rfl
  have hspan₀ : 0 ≤ |y - x| := abs_nonneg _
  generalize |y - x| = span at hspan hwithin hspan₀ ⊢
  have hbudget : Runtime.le (Runtime.div span s) maxSimPoints = true ↔ span / s ≤ 1000000 := by
    rw [maxSimPoints_eq]
    exact le_iff _ _
  unfold clampStepToPointBudget
  rw [hx, hy, hu]
  dsimp only
  rw [hspan]
  simp only [Bool.or_eq_true, Bool.not_eq_true', ← Bool.not_eq_true, lt_zero_iff, hbudget]
  rw [maxSimPoints_eq]
  rcases lt_or_gt_of_ne hs with hneg | hpos
  · rw [if_pos (Or.inr (not_lt.mpr hneg.le)), if_pos (Or.inr hneg)]
  · rw [abs_of_pos hpos] at hwithin
    by_cases hzero : 0 < span
    · have hgo : ¬ (¬ 0 < span ∨ ¬ 0 < s) := by
        rintro (h | h)
        · exact h hzero
        · exact h hpos
      rw [if_neg hgo]
      by_cases hkept : span / s ≤ 1000000
      · rw [if_pos hkept, if_pos (Or.inl (hwithin.mpr hkept))]
      · have hnot : ¬ (WithinBudget x y s ∨ s < 0) := by
          rintro (h | h)
          · exact hkept (hwithin.mp h)
          · exact absurd h (not_lt.mpr hpos.le)
        rw [if_neg hkept, if_neg hnot]
        rfl
    · have hnone : span = 0 := le_antisymm (not_lt.mp hzero) hspan₀
      have hkept : WithinBudget x y s := by
        rw [hwithin, hnone, zero_div]
        norm_num
      rw [if_pos (Or.inl hzero), if_pos (Or.inl hkept)]

/-- The step a default is read as. -/
theorem numberOf_calculateDefaultStep {stop : Text} {y : Rat} (hstop : numberOf stop = some y)
    (hy : 0 < y) : numberOf (calculateDefaultStep stop) = some (spiceRound (y / 1000)) := by
  obtain ⟨unit, hparse⟩ := numberOf_eq_some hstop
  have hthousand : Runtime.lit 1000 0 = (1000 : Rat) := mul_one (1000 : Rat)
  unfold calculateDefaultStep
  rw [hparse]
  dsimp only
  rw [if_pos ((lt_zero_iff y).mpr hy), hthousand]
  have hformat := parse_format_plain (v := y / 1000) (by positivity)
  exact congrArg (Option.map ParsedValue.value) hformat

/-- The request is emitted with a step that is read back within the budget. -/
def EmittedWithinBudget (a : AnalysisConfig) (x y : Rat) : Prop :=
  ∃ out r, a.stepField = some out ∧ numberOf out = some r ∧ r ≠ 0 ∧ WithinBudget x y r

/-- A thousand volts by a microvolt at a time. -/
def wideSweep : DcAnalysis :=
  { source := "V1".toList, startVal := "0".toList, stopVal := "1000".toList
    increment := "1u".toList }

/-- The wide sweep in the other direction. -/
def downwardSweep : DcAnalysis :=
  { source := "V1".toList, startVal := "1000".toList, stopVal := "0".toList
    increment := "-1u".toList }

end CircuitForge
