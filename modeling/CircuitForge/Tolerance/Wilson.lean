/-
The Wilson interval and the run count that inverts it.

In exact arithmetic the lower bound of `n` passing samples is `n / (n + z²)`, so the count that
`requiredRunsForBar` computes is the least one that reaches a bar.  A batch of default length that
only passes runs for just that long, up to the guard of fifty thousand runs.
-/
import CircuitForge.Tolerance.Yield
import CircuitForge.Js.SquareRoots
import Mathlib.Algebra.Order.Floor.Semiring
import Mathlib.Tactic.FieldSimp
import Mathlib.Tactic.Linarith
import Mathlib.Tactic.Positivity

namespace CircuitForge

open Js

section

variable {K : Type} [Field K] [LinearOrder K] (sqrt : K → K)

/-- `Z95`. -/
def z95 : K := 1959963984540054 / 10 ^ 15

/-- `Z95_SQ`. -/
def z95Sq : K := z95 * z95

/-- An interval of yields. -/
structure YieldInterval (K : Type) where
  low : K
  high : K

/-- `wilson95`. -/
def wilson95 (passed n : Nat) : YieldInterval K :=
  if n = 0 then { low := 0, high := 1 }
  else
    let p : K := passed / n
    let denom : K := 1 + z95Sq / n
    let center : K := (p + z95Sq / (2 * n)) / denom
    let half : K := z95 * sqrt (p * (1 - p) / n + z95Sq / (4 * n * n)) / denom
    { low := max 0 (center - half), high := min 1 (center + half) }

/-- `RobustnessBars`, less the temperature corners. -/
structure RobustnessBars (K : Type) where
  robustMin : K
  marginalMin : K

/-- `tierDecided`. -/
def tierDecided (ci : YieldInterval K) (bars : RobustnessBars K) : Bool :=
  decide (bars.robustMin ≤ ci.low) || decide (ci.high < bars.marginalMin) ||
    decide (bars.marginalMin ≤ ci.low) && decide (ci.high < bars.robustMin)

/-- `requiredRunsForBar`, of a number that is not NaN or infinite. -/
def requiredRunsForBar [FloorSemiring K] (robustMin : K) : Nat :=
  if robustMin ≤ 0 ∨ 1 ≤ robustMin then absoluteMaxRuns
  else ⌈z95Sq * robustMin / (1 - robustMin)⌉₊

/-- What a batch reads of the bars. -/
def stopBars [FloorSemiring K] (bars : RobustnessBars K) : StopBars where
  required := requiredRunsForBar bars.robustMin
  decided := fun passed evaluated => tierDecided (wilson95 sqrt passed evaluated) bars

/-- `yield` of `computeYield`. -/
def YieldCounts.yield (c : YieldCounts) : K :=
  if 0 < c.evaluated then (c.passed : K) / c.evaluated else 0

/-- `ci95` of `computeYield`. -/
def YieldCounts.ci95 (c : YieldCounts) : YieldInterval K := wilson95 sqrt c.passed c.evaluated

end

section

variable {K : Type} [Field K] [LinearOrder K] [IsStrictOrderedRing K] {sqrt : K → K}

theorem z95_pos : (0 : K) < z95 := by
  unfold z95
  positivity

theorem z95Sq_pos : (0 : K) < z95Sq := mul_pos z95_pos z95_pos

/-! ## A flawless sample -/

/-- At a perfect sample the lower bound collapses, and the upper one is one. -/
theorem wilson95_all_pass (hsqrt : IsSqrt sqrt) (n : Nat) :
    (wilson95 sqrt n n).low = (n : K) / (n + z95Sq) ∧ (wilson95 sqrt n n).high = 1 := by
  unfold wilson95
  by_cases hn : n = 0
  · rw [if_pos hn, hn, Nat.cast_zero, zero_div]
    exact ⟨rfl, rfl⟩
  · rw [if_neg hn]
    have hpos : (0 : K) < n := by exact_mod_cast Nat.pos_of_ne_zero hn
    have hz : (0 : K) < z95 := z95_pos
    have hroot : sqrt ((n : K) / n * (1 - n / n) / n + z95Sq / (4 * n * n)) = z95 / (2 * n) := by
      have harg : (n : K) / n * (1 - n / n) / n + z95Sq / (4 * n * n) =
          z95 / (2 * n) * (z95 / (2 * n)) := by
        rw [div_self hpos.ne', z95Sq]
        field_simp
        ring
      rw [harg]
      exact hsqrt.of_mul_self (by positivity)
    have hlow : ((n : K) / n + z95Sq / (2 * n)) / (1 + z95Sq / n) -
        z95 * (z95 / (2 * n)) / (1 + z95Sq / n) = n / (n + z95Sq) := by
      have hsq : (0 : K) < z95Sq := z95Sq_pos
      rw [div_self hpos.ne', ← sub_div, z95Sq] at *
      field_simp
      ring
    have hhigh : ((n : K) / n + z95Sq / (2 * n)) / (1 + z95Sq / n) +
        z95 * (z95 / (2 * n)) / (1 + z95Sq / n) = 1 := by
      have hsq : (0 : K) < z95Sq := z95Sq_pos
      rw [div_self hpos.ne', ← add_div, z95Sq] at *
      field_simp
      ring
    dsimp only
    rw [hroot, hlow, hhigh]
    have hsq : (0 : K) < z95Sq := z95Sq_pos
    exact ⟨max_eq_right (by positivity), min_self 1⟩

variable [FloorSemiring K] {robustMin marginalMin : K}

/-- The bar is reached from the required count of passing samples on. -/
theorem robustMin_le_iff (hsqrt : IsSqrt sqrt) (h0 : 0 < robustMin) (h1 : robustMin < 1) (n : Nat) :
    robustMin ≤ (wilson95 sqrt n n).low ↔ requiredRunsForBar robustMin ≤ n := by
  have hsq : (0 : K) < z95Sq := z95Sq_pos
  have hn : (0 : K) ≤ n := Nat.cast_nonneg n
  rw [(wilson95_all_pass hsqrt n).1, requiredRunsForBar,
    if_neg (not_or.mpr ⟨not_le.mpr h0, not_le.mpr h1⟩), Nat.ceil_le,
    le_div_iff₀ (by positivity), div_le_iff₀ (sub_pos.mpr h1)]
  constructor
  · intro h
    linarith
  · intro h
    linarith

theorem requiredRunsForBar_pos (h0 : 0 < robustMin) (h1 : robustMin < 1) :
    0 < requiredRunsForBar robustMin := by
  have hsq : (0 : K) < z95Sq := z95Sq_pos
  rw [requiredRunsForBar, if_neg (not_or.mpr ⟨not_le.mpr h0, not_le.mpr h1⟩), Nat.ceil_pos]
  exact div_pos (mul_pos hsq h0) (sub_pos.mpr h1)

/-- Of flawless samples only those that reach the bar decide a tier. -/
theorem decided_iff (hsqrt : IsSqrt sqrt) (h0 : 0 < marginalMin) (hle : marginalMin ≤ robustMin)
    (h1 : robustMin < 1) (n : Nat) :
    (stopBars sqrt { robustMin := robustMin, marginalMin := marginalMin }).decided n n = true ↔
      requiredRunsForBar robustMin ≤ n := by
  rw [← robustMin_le_iff hsqrt (lt_of_lt_of_le h0 hle) h1]
  have hhigh := (wilson95_all_pass hsqrt n).2
  simp only [stopBars, tierDecided, hhigh, Bool.or_eq_true, Bool.and_eq_true, decide_eq_true_eq,
    not_lt.mpr (hle.trans h1.le), not_lt.mpr h1.le, or_false, and_false]

section

variable [Runtime] {M : Type} (gaussian : Runtime.Num → Runtime.Num → Runtime.Num)
  (circuit : CircuitJson) (evaluate : M → List Bool) (rand : Nat → Runtime.Num)
  (dist : TolDistribution) (runVariant : CircuitJson → Nat → Option M)

/-- A flawless batch of default length runs up to its bar, or to the guard of all batches. -/
theorem flawless_ran (hsqrt : IsSqrt sqrt) (h0 : 0 < marginalMin) (hle : marginalMin ≤ robustMin)
    (h1 : robustMin < 1) (o : MonteCarloOptions) (hn : o.n = none)
    (hbars : o.stopBars = some (stopBars sqrt
      { robustMin := robustMin, marginalMin := marginalMin }))
    (hpass : ∀ attempt,
      runnerOutcome gaussian circuit evaluate rand dist runVariant attempt = .pass)
    (hhit : (runMonteCarlo gaussian circuit evaluate runVariant rand dist o).budgetHit = false) :
    (runMonteCarlo gaussian circuit evaluate runVariant rand dist o).ran =
      min (requiredRunsForBar robustMin) absoluteMaxRuns := by
  have hsome : o.stopBars.isSome := by rw [hbars]; rfl
  have hpos := requiredRunsForBar_pos (lt_of_lt_of_le h0 hle) h1
  have htarget : o.target = min (requiredRunsForBar robustMin) absoluteMaxRuns := by
    have hmax : 0 < absoluteMaxRuns := by decide
    unfold MonteCarloOptions.target MonteCarloOptions.defaultN MonteCarloOptions.cap
    rw [hn, hbars]
    simp only [Option.getD_none, Option.elim_some, stopBars]
    omega
  rw [← htarget]
  refine (runOutcomes_answered o _).ran_eq_target hsome hhit hpass fun e he => ?_
  rw [htarget] at he
  rw [Bool.eq_false_iff, MonteCarloOptions.enough, hbars]
  intro hdecided
  have := (decided_iff hsqrt h0 hle h1 e).mp hdecided
  omega

/-- The counts of a flawless batch. -/
theorem flawless_counts (o : MonteCarloOptions)
    (hpass : ∀ attempt,
      runnerOutcome gaussian circuit evaluate rand dist runVariant attempt = .pass) :
    let r := runMonteCarlo gaussian circuit evaluate runVariant rand dist o
    r.passed = r.ran ∧ r.evaluated = r.ran := by
  intro r
  have h : Answered o (runnerOutcome gaussian circuit evaluate rand dist runVariant) r :=
    runOutcomes_answered o _
  have husable : ∀ i,
      (runnerOutcome gaussian circuit evaluate rand dist runVariant i).usable = true :=
    fun i => by rw [hpass i]; rfl
  have hcounted := counted_of_usable husable
  have hevaluated : r.evaluated = r.ran := by
    rw [h.evaluated_eq, hcounted, Stopping.upTo_length]
  refine ⟨?_, hevaluated⟩
  rw [h.passed_eq, hcounted, List.count_eq_length.mpr fun v hv => ?_, Stopping.upTo_length]
  obtain ⟨i, -, rfl⟩ := Stopping.mem_upTo.mp hv
  exact (hpass i).symm

/-- The top robustness tier is reachable, and no earlier than earned, where its bar is within the
guard of all batches. -/
theorem robust_tier_reachable (hsqrt : IsSqrt sqrt) (h0 : 0 < marginalMin)
    (hle : marginalMin ≤ robustMin) (h1 : robustMin < 1)
    (hguard : requiredRunsForBar robustMin ≤ absoluteMaxRuns) (o : MonteCarloOptions)
    (hn : o.n = none)
    (hbars : o.stopBars = some (stopBars sqrt
      { robustMin := robustMin, marginalMin := marginalMin }))
    (hpass : ∀ attempt,
      runnerOutcome gaussian circuit evaluate rand dist runVariant attempt = .pass)
    (hhit : (runMonteCarlo gaussian circuit evaluate runVariant rand dist o).budgetHit = false) :
    let r := runMonteCarlo gaussian circuit evaluate runVariant rand dist o
    (r.ran = max o.least (requiredRunsForBar robustMin) ∨
      r.ran < max o.least (requiredRunsForBar robustMin) ∧
        robustMin ≤ (wilson95 sqrt r.ran r.ran).low) ∧
    robustMin ≤ (r.toYieldCounts.ci95 sqrt).low ∧
    IsLeast { n : Nat | robustMin ≤ (wilson95 sqrt n n).low } (requiredRunsForBar robustMin) := by
  intro r
  have hran : r.ran = requiredRunsForBar robustMin :=
    (flawless_ran gaussian circuit evaluate rand dist runVariant hsqrt h0 hle h1 o hn hbars
      hpass hhit).trans (min_eq_left hguard)
  have hlow : robustMin ≤ (wilson95 sqrt r.ran r.ran).low :=
    (robustMin_le_iff hsqrt (lt_of_lt_of_le h0 hle) h1 _).mpr hran.ge
  obtain ⟨hpassed, hevaluated⟩ := flawless_counts gaussian circuit evaluate rand dist runVariant o
    hpass
  refine ⟨?_, ?_, ?_, fun n hn => (robustMin_le_iff hsqrt (lt_of_lt_of_le h0 hle) h1 n).mp hn⟩
  · rcases Nat.lt_or_ge r.ran (max o.least (requiredRunsForBar robustMin)) with hlt | hge
    · exact Or.inr ⟨hlt, hlow⟩
    · exact Or.inl (le_antisymm (hran.le.trans (le_max_right _ _)) hge)
  · rw [YieldCounts.ci95]
    have hp : r.toYieldCounts.passed = r.ran := hpassed
    have he : r.toYieldCounts.evaluated = r.ran := hevaluated
    rw [hp, he]
    exact hlow
  · exact (robustMin_le_iff hsqrt (lt_of_lt_of_le h0 hle) h1 _).mpr le_rfl

end

end

/-- The options of a batch that is graded with these bars. -/
noncomputable def gradedWith (robustMin marginalMin : ℝ) : MonteCarloOptions where
  stopBars := some (stopBars Real.sqrt { robustMin := robustMin, marginalMin := marginalMin })

theorem faultyRun_not_hit (robustMin marginalMin : ℝ) :
    (faultyRun 0 (gradedWith robustMin marginalMin)).budgetHit = false :=
  (runOutcomes_answered _ _).not_hit fun _ => rfl

/-- The bar of a consumer product is reached. -/
theorem robust_tier_reachable_consumer :
    (99 / 100 : ℝ) ≤ ((faultyRun 0 (gradedWith (99 / 100) (9 / 10))).toYieldCounts.ci95
      Real.sqrt).low := by
  refine (robust_tier_reachable (fun a _ => a) (resistorBank 1) (fun pass => [pass])
    (fun _ => (0 : Rat)) .uniform (faultyRunner 0) isSqrt_real (by norm_num) (by norm_num)
    (by norm_num) ?_ (gradedWith (99 / 100) (9 / 10)) rfl rfl (fun _ => rfl)
    (faultyRun_not_hit _ _)).2.1
  rw [requiredRunsForBar, if_neg (by norm_num), Nat.ceil_le, z95Sq, z95, absoluteMaxRuns]
  norm_num

/-- A bar beyond the guard is not reached by a batch that only passes. -/
theorem guard_cuts_bar :
    (faultyRun 0 (gradedWith (99999 / 100000) (9 / 10))).ran = 50000 ∧
    ((faultyRun 0 (gradedWith (99999 / 100000) (9 / 10))).toYieldCounts.ci95 Real.sqrt).low <
      (99999 / 100000 : ℝ) := by
  have hlarge : absoluteMaxRuns < requiredRunsForBar (99999 / 100000 : ℝ) := by
    rw [requiredRunsForBar, if_neg (by norm_num), Nat.lt_ceil, z95Sq, z95, absoluteMaxRuns]
    norm_num
  have hran : (faultyRun 0 (gradedWith (99999 / 100000) (9 / 10))).ran = absoluteMaxRuns :=
    (flawless_ran (fun a _ => a) (resistorBank 1) (fun pass => [pass]) (fun _ => (0 : Rat))
      .uniform (faultyRunner 0) isSqrt_real (by norm_num) (by norm_num) (by norm_num)
      (gradedWith (99999 / 100000) (9 / 10)) rfl rfl (fun _ => rfl)
      (faultyRun_not_hit _ _)).trans (min_eq_right hlarge.le)
  obtain ⟨hpassed, hevaluated⟩ := flawless_counts (fun a _ => a) (resistorBank 1)
    (fun pass => [pass]) (fun _ => (0 : Rat)) .uniform (faultyRunner 0)
    (gradedWith (99999 / 100000) (9 / 10)) fun _ => rfl
  have hp : (faultyRun 0 (gradedWith (99999 / 100000) (9 / 10))).toYieldCounts.passed =
      absoluteMaxRuns := hpassed.trans hran
  have he : (faultyRun 0 (gradedWith (99999 / 100000) (9 / 10))).toYieldCounts.evaluated =
      absoluteMaxRuns := hevaluated.trans hran
  refine ⟨hran, ?_⟩
  rw [YieldCounts.ci95, hp, he, ← not_le,
    robustMin_le_iff isSqrt_real (by norm_num) (by norm_num)]
  exact not_le.mpr hlarge

end CircuitForge
