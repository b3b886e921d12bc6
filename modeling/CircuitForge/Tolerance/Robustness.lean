/-
The robustness tier: `classifyRobustness` of `montecarlo.ts`.

A bound of the Wilson interval passes a bar exactly when the count of passing samples passes a
threshold that is explicit in the bar and in the length of the sample.  One more sample that passes
never takes the count behind a threshold, so that the tier never moves down.
-/
import CircuitForge.Tolerance.Wilson
import Mathlib.Tactic.LinearCombination

namespace CircuitForge

open Js

/-! ## Profiles -/

inductive RobustnessTier where
  | robust | marginal | atRisk | unknown
  deriving DecidableEq

/-- `DEFAULT_ROBUSTNESS_PROFILE`. -/
def defaultRobustnessProfile : Text := "consumer".toList

section

variable (K : Type) [Field K]

/-- `ROBUSTNESS_PROFILES`. -/
def robustnessProfiles : List (Text × RobustnessBars K) :=
  [("consumer".toList, { robustMin := 99 / 100, marginalMin := 9 / (10 : ℕ) }),
    ("automotive".toList, { robustMin := 999 / 1000, marginalMin := 99 / 100 }),
    ("medical".toList, { robustMin := 999 / 1000, marginalMin := 99 / 100 })]

/-- `barsForProfile`, where an absent name is the empty one. -/
def barsForProfile (profileName : Text) : RobustnessBars K :=
  ((robustnessProfiles K).lookup profileName).getD
    { robustMin := 99 / 100, marginalMin := 9 / (10 : ℕ) }

end

/-! ## The verdict -/

/-- The fields of a yield report that hold numbers. -/
structure YieldReport (K : Type) where
  yield : Option K := none
  low : Option K := none
  high : Option K := none
  evaluated : Option K := none
  errored : Option K := none

structure RobustnessVerdict (K : Type) where
  tier : RobustnessTier
  profile : Text
  yield : Option K
  yieldLowerBound : Option K
  evaluated : Option K
  note : Text

section

variable {K : Type} [Field K] [LinearOrder K]

/-- The tier of an interval. -/
def tierOf {K : Type} [LinearOrder K] (ci : YieldInterval K) (bars : RobustnessBars K) :
    RobustnessTier :=
  if bars.robustMin ≤ ci.low then .robust
  else if bars.marginalMin ≤ ci.low then .marginal
  else if ci.high < bars.marginalMin then .atRisk
  else .unknown

variable [FloorSemiring K] (fixed1 num : K → Text)

/-- `pct`, over `toFixed(1)`. -/
def pct (x : K) : Text := fixed1 (x * 100) ++ "%".toList

/-- The note of a report without samples. -/
def notAssessed (errored : Option K) : Text :=
  if 0 < errored.getD 0 then
    "Robustness not assessed — all ".toList ++ (errored.elim "null".toList num) ++
      " Monte-Carlo variants failed to run (an infrastructure fault, NOT a design ".toList ++
      "signal). Verified at NOMINAL component values only; re-run to obtain a tier.".toList
  else
    "Robustness not assessed (no toleranced parts or no Monte-Carlo) — verified at ".toList ++
      "NOMINAL component values only.".toList

/-- The note of a graded report. -/
def gradedNote (bars : RobustnessBars K) (ci : YieldInterval K) (evaluated : K) : Text :=
  let needed := num (requiredRunsForBar bars.robustMin : Nat)
  let tail := "(component-tolerance Monte-Carlo, ".toList ++ num evaluated ++ " runs; ~".toList ++
    pct fixed1 ci.low ++ " is the 95% lower bound; short-term, not long-term-drift-adjusted)".toList
  match tierOf ci bars with
  | .unknown =>
    "Not assessed — ".toList ++ num evaluated ++
      " variant(s) is too small a sample to place this design: the 95% interval [".toList ++
      pct fixed1 ci.low ++ ", ".toList ++ pct fixed1 ci.high ++ "] still spans the ".toList ++
      pct fixed1 bars.marginalMin ++ " bar, so the data neither clears nor condemns it. ".toList ++
      "Re-run with more variants (about ".toList ++ needed ++
      " clean runs earn the top tier for this profile). NOT a design fault — no verdict ".toList ++
      "is gated on this.".toList
  | .robust =>
    "Robust — at least ".toList ++ pct fixed1 bars.robustMin ++
      " of units expected to meet spec under component tolerances ".toList ++ tail ++ ".".toList
  | .marginal =>
    if bars.robustMin ≤ ci.high then
      "Undecided — ~".toList ++ pct fixed1 ci.low ++
        " is only the 95% LOWER bound and the run was too short to reach the ".toList ++
        pct fixed1 bars.robustMin ++ " bar; the data has not ruled out \"robust\". ".toList ++
        "Re-run with more variants (about ".toList ++ needed ++
        " clean runs are needed for this bar) before changing the design ".toList ++ tail ++
        ".".toList
    else
      "Marginal — ~".toList ++ pct fixed1 ci.low ++ " expected yield, below the ".toList ++
        pct fixed1 bars.robustMin ++ " production bar. Tighten component tolerances ".toList ++
        "(e.g. ±1% parts) or re-center values ".toList ++ tail ++ ".".toList
  | .atRisk =>
    "At risk — only ~".toList ++ pct fixed1 ci.low ++
      " expected yield; passes at nominal but is NOT production-robust ".toList ++ tail ++
      ".".toList

/-- The verdict on a report without samples. -/
def ungraded (yieldReport : YieldReport K) (profileName : Text) : RobustnessVerdict K where
  tier := .unknown
  profile := profileName
  yield := none
  yieldLowerBound := none
  evaluated := yieldReport.evaluated
  note := notAssessed num yieldReport.errored

/-- `classifyRobustness`, once the bars of the profile are known. -/
def classifyWith (bars : RobustnessBars K) (yieldReport : YieldReport K) (profileName : Text) :
    RobustnessVerdict K :=
  match yieldReport.low, yieldReport.evaluated with
  | some low, some evaluated =>
    if evaluated ≤ 0 then ungraded num yieldReport profileName
    else
      let ci : YieldInterval K := { low := low, high := yieldReport.high.getD 1 }
      { tier := tierOf ci bars
        profile := profileName
        yield := yieldReport.yield
        yieldLowerBound := some low
        evaluated := some evaluated
        note := gradedNote fixed1 num bars ci evaluated }
  | _, _ => ungraded num yieldReport profileName

/-- `classifyRobustness`; a report that is not there has no fields. -/
def classifyRobustness (yieldReport : YieldReport K) (profileName : Option Text) :
    RobustnessVerdict K :=
  let profileName := profileName.getD defaultRobustnessProfile
  classifyWith fixed1 num (barsForProfile K profileName) yieldReport profileName

/-- What `computeYield` reports. -/
def YieldCounts.report (sqrt : K → K) (c : YieldCounts) : YieldReport K where
  yield := some c.yield
  low := some (c.ci95 sqrt).low
  high := some (c.ci95 sqrt).high
  evaluated := some c.evaluated
  errored := some c.errored

end

/-! ## Thresholds -/

section

variable {K : Type} [Field K] [LinearOrder K] [IsStrictOrderedRing K]

/-- The quadratic of the interval decides on which side of the lower root a bar lies: `t` is the
distance of the count from the bar, `c` the threshold and `r` the half width. -/
theorem root_le_iff {t c r z n bar : K} (hn : 0 < n) (hz : 0 < z) (h0 : 0 < bar) (h1 : bar < 1)
    (hc : 0 < c) (hr : 0 ≤ r) (hsq : c ^ 2 = z * (n * (bar * (1 - bar))))
    (hlow : -(n * bar) ≤ t) (hhigh : t ≤ n * (1 - bar))
    (hquad : (t + z * (1 / 2 - bar)) ^ 2 - r ^ 2 = (1 + z / n) * (t ^ 2 - c ^ 2)) :
    r ≤ t + z * (1 / 2 - bar) ↔ c ≤ t := by
  have hk : 0 < 1 + z / n := by positivity
  constructor
  · intro h
    have hsquares : c ^ 2 ≤ t ^ 2 := by
      have : r ^ 2 ≤ (t + z * (1 / 2 - bar)) ^ 2 := pow_le_pow_left₀ hr h 2
      have hprod : 0 ≤ (1 + z / n) * (t ^ 2 - c ^ 2) := by linarith
      linarith [nonneg_of_mul_nonneg_right hprod hk]
    by_contra hlt
    -- the count is too far below the bar
    have hneg : t ≤ -c := by
      by_contra hgt
      exact absurd (sq_lt_sq' (not_le.mp hgt) (not_le.mp hlt)) (not_lt.mpr hsquares)
    have hfar : z * (1 - bar) ≤ -t := by
      have ht : 0 < -t := by linarith
      have hbound : z * (1 - bar) * -t ≤ z * (1 - bar) * (n * bar) :=
        mul_le_mul_of_nonneg_left (by linarith) (mul_nonneg hz.le (by linarith))
      refine le_of_mul_le_mul_right (a := -t) ?_ ht
      calc z * (1 - bar) * -t ≤ c ^ 2 := by rw [hsq]; linarith
        _ ≤ -t * -t := by rw [neg_mul_neg, ← pow_two]; exact hsquares
    linarith
  · intro h
    have ht : 0 < t := hc.trans_le h
    have hnear : z * bar ≤ t := by
      have hbound : z * bar * t ≤ z * bar * (n * (1 - bar)) :=
        mul_le_mul_of_nonneg_left hhigh (mul_nonneg hz.le h0.le)
      refine le_of_mul_le_mul_right (a := t) ?_ ht
      calc z * bar * t ≤ c ^ 2 := by rw [hsq]; linarith
        _ ≤ t * t := by rw [← pow_two]; exact pow_le_pow_left₀ hc.le h 2
    have hsquares : r ^ 2 ≤ (t + z * (1 / 2 - bar)) ^ 2 := by
      have := mul_nonneg hk.le (sub_nonneg.mpr (pow_le_pow_left₀ hc.le h 2))
      linarith
    exact le_of_sq_le_sq hsquares (by linarith)

theorem root_lt_iff {t c r z n bar : K} (hn : 0 < n) (hz : 0 < z) (h0 : 0 < bar) (h1 : bar < 1)
    (hc : 0 < c) (hr : 0 ≤ r) (hsq : c ^ 2 = z * (n * (bar * (1 - bar))))
    (hlow : -(n * bar) ≤ t) (hhigh : t ≤ n * (1 - bar))
    (hquad : (t + z * (1 / 2 - bar)) ^ 2 - r ^ 2 = (1 + z / n) * (t ^ 2 - c ^ 2)) :
    r < t + z * (1 / 2 - bar) ↔ c < t := by
  have hle := root_le_iff hn hz h0 h1 hc hr hsq hlow hhigh hquad
  have hk : 0 < 1 + z / n := by positivity
  constructor
  · intro h
    refine lt_of_le_of_ne (hle.mp h.le) fun he => ?_
    rw [he, sub_self, mul_zero] at hquad
    exact absurd (pow_lt_pow_left₀ h hr two_ne_zero) (by linarith)
  · intro h
    refine lt_of_le_of_ne (hle.mpr h.le) fun he => ?_
    rw [← he, sub_self, eq_comm, mul_eq_zero, or_iff_right hk.ne', sub_eq_zero] at hquad
    exact absurd (pow_lt_pow_left₀ h hc.le two_ne_zero) (by linarith)

variable {sqrt : K → K} {bar : K} {n x : Nat}

/-- The distance of a count from a bar at which the bar leaves the interval. -/
def threshold (sqrt : K → K) (bar : K) (n : Nat) : K := z95 * sqrt (n * (bar * (1 - bar)))

theorem threshold_sq (hsqrt : IsSqrt sqrt) (h0 : 0 < bar) (h1 : bar < 1) :
    threshold sqrt bar n ^ 2 = z95Sq * (n * (bar * (1 - bar))) := by
  have hx : 0 ≤ n * (bar * (1 - bar)) :=
    mul_nonneg (Nat.cast_nonneg n) (mul_nonneg h0.le (sub_nonneg.mpr h1.le))
  rw [threshold, mul_pow, hsqrt.sq_eq hx, z95Sq, pow_two]

theorem threshold_pos (hsqrt : IsSqrt sqrt) (h0 : 0 < bar) (h1 : bar < 1) (hn : 0 < n) :
    0 < threshold sqrt bar n := by
  have hn' : (0 : K) < n := Nat.cast_pos.mpr hn
  have hx : 0 < n * (bar * (1 - bar)) := mul_pos hn' (mul_pos h0 (sub_pos.mpr h1))
  have hnonneg : 0 ≤ threshold sqrt bar n := mul_nonneg z95_pos.le (hsqrt.nonneg _ hx.le)
  refine lt_of_le_of_ne hnonneg fun hz => ?_
  have := threshold_sq (n := n) hsqrt h0 h1
  rw [← hz, zero_pow two_ne_zero] at this
  exact (mul_pos z95Sq_pos hx).ne this

omit [LinearOrder K] [IsStrictOrderedRing K] in
theorem threshold_one_sub : threshold sqrt (1 - bar) n = threshold sqrt bar n := by
  rw [threshold, threshold, sub_sub_cancel, mul_comm (1 - bar)]

/-- A longer sample has its threshold farther out, by less than a bar leaves for one sample. -/
theorem threshold_succ (hsqrt : IsSqrt sqrt) (h0 : 0 < bar) (h1 : bar < 1) (hn : 0 < n) :
    threshold sqrt bar n ≤ threshold sqrt bar (n + 1) ∧
      (threshold sqrt bar n ≤ n * (1 - bar) →
        threshold sqrt bar (n + 1) ≤ threshold sqrt bar n + (1 - bar)) := by
  have hn' : (0 : K) < n := Nat.cast_pos.mpr hn
  have hv : 0 < z95Sq * (bar * (1 - bar)) := mul_pos z95Sq_pos (mul_pos h0 (sub_pos.mpr h1))
  have ha := threshold_pos hsqrt h0 h1 hn
  have hb := threshold_pos hsqrt h0 h1 n.succ_pos
  have hsq := threshold_sq (n := n) hsqrt h0 h1
  have hsucc := threshold_sq (n := n + 1) hsqrt h0 h1
  rw [Nat.cast_add, Nat.cast_one] at hsucc
  refine ⟨?_, fun hle => ?_⟩
  · refine le_of_sq_le_sq ?_ hb.le
    rw [hsq, hsucc]
    linarith
  · have hsmall : z95Sq * bar ≤ threshold sqrt bar n := by
      refine le_of_mul_le_mul_right (a := n * (1 - bar)) ?_ (mul_pos hn' (sub_pos.mpr h1))
      calc z95Sq * bar * (n * (1 - bar)) = threshold sqrt bar n * threshold sqrt bar n := by
            rw [← pow_two, hsq]; ring
        _ ≤ threshold sqrt bar n * (n * (1 - bar)) := mul_le_mul_of_nonneg_left hle ha.le
    refine le_of_sq_le_sq ?_ (by linarith)
    have hprod : z95Sq * bar * (1 - bar) ≤ threshold sqrt bar n * (1 - bar) :=
      mul_le_mul_of_nonneg_right hsmall (by linarith)
    have hextra : 0 ≤ threshold sqrt bar n * (1 - bar) := mul_nonneg ha.le (by linarith)
    rw [hsucc, add_sq, hsq]
    linarith [sq_nonneg (1 - bar)]

/-- `n` times the half width of the interval, before the division by `1 + z² / n`. -/
def reach (sqrt : K → K) (x n : Nat) : K :=
  n * (z95 * sqrt ((x : K) / n * (1 - x / n) / n + z95Sq / ((4 : ℕ) * n * n)))

omit [LinearOrder K] [IsStrictOrderedRing K] in
theorem reach_eq (sqrt : K → K) (x n : Nat) : reach sqrt x n =
    n * (z95 * sqrt ((x : K) / n * (1 - x / n) / n + z95Sq / (4 * n * n))) := by
  rw [reach, Nat.cast_ofNat]

theorem spread_nonneg (hx : x ≤ n) :
    0 ≤ (x : K) / n * (1 - x / n) / n + z95Sq / (4 * n * n) := by
  have hn : (0 : K) ≤ n := Nat.cast_nonneg n
  have hx0 : (0 : K) ≤ x := Nat.cast_nonneg x
  have hle : (x : K) / n ≤ 1 := div_le_one_of_le₀ (Nat.cast_le.mpr hx) hn
  have hz := (z95Sq_pos (K := K)).le
  have h1 : (0 : K) ≤ 1 - x / n := sub_nonneg.mpr hle
  positivity

theorem reach_nonneg (hsqrt : IsSqrt sqrt) (hx : x ≤ n) : 0 ≤ reach sqrt x n := by
  rw [reach_eq]
  exact mul_nonneg (Nat.cast_nonneg n) (mul_nonneg z95_pos.le (hsqrt.nonneg _ (spread_nonneg hx)))

theorem reach_sq (hsqrt : IsSqrt sqrt) (hn : 0 < n) (hx : x ≤ n) :
    reach sqrt x n ^ 2 = z95Sq * ((x : K) * (n - x) / n + z95Sq / 4) := by
  have hn' : (n : K) ≠ 0 := Nat.cast_ne_zero.mpr hn.ne'
  rw [reach_eq, mul_pow, mul_pow, hsqrt.sq_eq (spread_nonneg hx), pow_two z95, ← z95Sq]
  field_simp

/-- The bounds of the interval are the roots of one quadratic. -/
theorem quadratic (hsqrt : IsSqrt sqrt) (h0 : 0 < bar) (h1 : bar < 1) (hn : 0 < n) (hx : x ≤ n) :
    ((x : K) - n * bar + z95Sq * (1 / 2 - bar)) ^ 2 - reach sqrt x n ^ 2 =
      (1 + z95Sq / n) * ((x - n * bar) ^ 2 - threshold sqrt bar n ^ 2) := by
  have hn' : (n : K) ≠ 0 := Nat.cast_ne_zero.mpr hn.ne'
  rw [reach_sq hsqrt hn hx, threshold_sq hsqrt h0 h1]
  field_simp
  ring

theorem wilson95_eq (hn : 0 < n) (x : Nat) :
    (wilson95 sqrt x n).low = max 0 ((x + z95Sq / 2 - reach sqrt x n) / (n + z95Sq)) ∧
      (wilson95 sqrt x n).high = min 1 ((x + z95Sq / 2 + reach sqrt x n) / (n + z95Sq)) := by
  have hn' : (n : K) ≠ 0 := Nat.cast_ne_zero.mpr hn.ne'
  have hd : (n : K) + z95Sq ≠ 0 := (add_pos_of_nonneg_of_pos (Nat.cast_nonneg n) z95Sq_pos).ne'
  rw [wilson95, if_neg hn.ne', reach_eq]
  dsimp only
  constructor
  · congr 1
    field_simp
  · congr 1
    field_simp

/-- A bar is reached by the lower bound where the count is past its threshold. -/
theorem le_low_iff (hsqrt : IsSqrt sqrt) (h0 : 0 < bar) (h1 : bar < 1) (hn : 0 < n) (hx : x ≤ n) :
    bar ≤ (wilson95 sqrt x n).low ↔ threshold sqrt bar n ≤ x - n * bar := by
  have hn' : (0 : K) < n := Nat.cast_pos.mpr hn
  have hx' : (x : K) ≤ n := Nat.cast_le.mpr hx
  have hx0 : (0 : K) ≤ x := Nat.cast_nonneg x
  rw [(wilson95_eq hn x).1, le_max_iff, or_iff_right (not_le.mpr h0),
    le_div_iff₀ (add_pos hn' z95Sq_pos),
    ← root_le_iff hn' z95Sq_pos h0 h1 (threshold_pos hsqrt h0 h1 hn) (reach_nonneg hsqrt hx)
      (threshold_sq hsqrt h0 h1) (by linarith) (by linarith) (quadratic hsqrt h0 h1 hn hx)]
  constructor
  · intro h
    linarith
  · intro h
    linarith

theorem reach_sub (hn : 0 < n) (hx : x ≤ n) : reach sqrt (n - x) n = reach sqrt x n := by
  have hn' : (n : K) ≠ 0 := Nat.cast_ne_zero.mpr hn.ne'
  have h : ((n - x : Nat) : K) / n = 1 - x / n := by
    rw [Nat.cast_sub hx, sub_div, div_self hn']
  rw [reach, reach, h, sub_sub_cancel, mul_comm (1 - (x : K) / n)]

/-- The upper bound is under a bar where the count is behind its threshold. -/
theorem high_lt_iff (hsqrt : IsSqrt sqrt) (h0 : 0 < bar) (h1 : bar < 1) (hn : 0 < n) (hx : x ≤ n) :
    (wilson95 sqrt x n).high < bar ↔ threshold sqrt bar n < n * bar - x := by
  have hn' : (0 : K) < n := Nat.cast_pos.mpr hn
  have hx' : (x : K) ≤ n := Nat.cast_le.mpr hx
  have hx0 : (0 : K) ≤ x := Nat.cast_nonneg x
  -- the mirrored sample and the mirrored bar
  have h0' : 0 < 1 - bar := sub_pos.mpr h1
  have h1' : 1 - bar < 1 := by linarith
  have hquad := quadratic hsqrt h0' h1' hn (Nat.sub_le n x)
  have hsq := threshold_sq (n := n) hsqrt h0' h1'
  rw [reach_sub hn hx, Nat.cast_sub hx, threshold_one_sub] at hquad
  rw [threshold_one_sub] at hsq
  have hmirror := root_lt_iff hn' z95Sq_pos h0' h1' (threshold_pos hsqrt h0 h1 hn)
    (reach_nonneg hsqrt hx) hsq (by linarith) (by linarith) hquad
  rw [(wilson95_eq hn x).2, min_lt_iff, or_iff_right (not_lt.mpr h1.le),
    div_lt_iff₀ (add_pos hn' z95Sq_pos)]
  constructor
  · intro h
    have := hmirror.mp (by linarith)
    linarith
  · intro h
    have := hmirror.mpr (by linarith)
    linarith

/-! ## One more sample -/

/-- A lower bound that passes a bar still passes it with one more sample that passes. -/
theorem le_low_append (hsqrt : IsSqrt sqrt) (h0 : 0 < bar) (h1 : bar < 1) (hn : 0 < n) (hx : x ≤ n)
    (h : bar ≤ (wilson95 sqrt x n).low) : bar ≤ (wilson95 sqrt (x + 1) (n + 1)).low := by
  have hx' : (x : K) ≤ n := Nat.cast_le.mpr hx
  rw [le_low_iff hsqrt h0 h1 hn hx] at h
  rw [le_low_iff hsqrt h0 h1 n.succ_pos (Nat.succ_le_succ hx), Nat.cast_succ, Nat.cast_succ]
  have := (threshold_succ hsqrt h0 h1 hn).2 (by linarith)
  linarith

/-- An upper bound that is under a bar with one more sample that passes was under it before. -/
theorem high_lt_append (hsqrt : IsSqrt sqrt) (h0 : 0 < bar) (h1 : bar < 1) (hn : 0 < n)
    (hx : x ≤ n) (h : (wilson95 sqrt (x + 1) (n + 1)).high < bar) :
    (wilson95 sqrt x n).high < bar := by
  rw [high_lt_iff hsqrt h0 h1 n.succ_pos (Nat.succ_le_succ hx), Nat.cast_succ, Nat.cast_succ] at h
  rw [high_lt_iff hsqrt h0 h1 hn hx]
  have := (threshold_succ hsqrt h0 h1 hn).1
  linarith

theorem le_low_turn (hsqrt : IsSqrt sqrt) (h0 : 0 < bar) (h1 : bar < 1) (hx : x < n)
    (h : bar ≤ (wilson95 sqrt x n).low) : bar ≤ (wilson95 sqrt (x + 1) n).low := by
  have hn : 0 < n := Nat.zero_lt_of_lt hx
  rw [le_low_iff hsqrt h0 h1 hn hx.le] at h
  rw [le_low_iff hsqrt h0 h1 hn hx, Nat.cast_succ]
  linarith

theorem high_lt_turn (hsqrt : IsSqrt sqrt) (h0 : 0 < bar) (h1 : bar < 1) (hx : x < n)
    (h : (wilson95 sqrt (x + 1) n).high < bar) : (wilson95 sqrt x n).high < bar := by
  have hn : 0 < n := Nat.zero_lt_of_lt hx
  rw [high_lt_iff hsqrt h0 h1 hn hx, Nat.cast_succ] at h
  rw [high_lt_iff hsqrt h0 h1 hn hx.le]
  linarith

/-- A bar cannot be above the interval and below it. -/
theorem low_lt_of_high_lt (hsqrt : IsSqrt sqrt) (h0 : 0 < bar) (h1 : bar < 1) (hn : 0 < n)
    (hx : x ≤ n) (h : (wilson95 sqrt x n).high < bar) : (wilson95 sqrt x n).low < bar := by
  rw [← not_le, le_low_iff hsqrt h0 h1 hn hx]
  rw [high_lt_iff hsqrt h0 h1 hn hx] at h
  have := threshold_pos hsqrt h0 h1 hn
  intro hle
  linarith

end

/-! ## The order of the tiers -/

/-- The tiers from the worst one up. -/
def RobustnessTier.rank : RobustnessTier → Nat
  | .atRisk => 0
  | .unknown => 1
  | .marginal => 2
  | .robust => 3

section

variable {K : Type} [LinearOrder K] {ci ci' : YieldInterval K} {bars : RobustnessBars K}

/-- A tier follows from the bars that each bound passes. -/
theorem rank_tierOf_le (hrobust : bars.robustMin ≤ ci.low → bars.robustMin ≤ ci'.low)
    (hmarginal : bars.marginalMin ≤ ci.low → bars.marginalMin ≤ ci'.low)
    (hrisk : ci'.high < bars.marginalMin → ci.high < bars.marginalMin) :
    (tierOf ci bars).rank ≤ (tierOf ci' bars).rank := by
  unfold tierOf
  by_cases h₁ : bars.robustMin ≤ ci.low
  · rw [if_pos h₁, if_pos (hrobust h₁)]
  · rw [if_neg h₁]
    by_cases h₂ : bars.marginalMin ≤ ci.low
    · rw [if_pos h₂, if_pos (hmarginal h₂)]
      split
      · decide
      · decide
    · rw [if_neg h₂]
      by_cases h₃ : ci'.high < bars.marginalMin
      · rw [if_pos (hrisk h₃)]
        exact Nat.zero_le _
      · rw [if_neg h₃]
        split_ifs <;> decide

end

/-- The tier that `tierDecided` finds settled, by its three cases. -/
def settledTier {K : Type} [LinearOrder K] (ci : YieldInterval K) (bars : RobustnessBars K) :
    Option RobustnessTier :=
  if bars.robustMin ≤ ci.low then some .robust
  else if ci.high < bars.marginalMin then some .atRisk
  else if bars.marginalMin ≤ ci.low ∧ ci.high < bars.robustMin then some .marginal
  else none

theorem isSome_settledTier {K : Type} [LinearOrder K] (ci : YieldInterval K)
    (bars : RobustnessBars K) : (settledTier ci bars).isSome = tierDecided ci bars := by
  unfold settledTier tierDecided
  split_ifs <;> simp_all

theorem settledTier_ne_unknown {K : Type} [LinearOrder K] {ci : YieldInterval K}
    {bars : RobustnessBars K} : settledTier ci bars ≠ some .unknown := by
  unfold settledTier
  split_ifs <;> exact fun h => nomatch h

section

variable {bars : RobustnessBars ℝ} (fixed1 num : ℝ → Text) (profileName : Text)

/-- The tier that the outcomes of a batch are graded with. -/
noncomputable def gradedTier (bars : RobustnessBars ℝ) (outcomes : List VariantOutcome) :
    RobustnessTier :=
  (classifyWith fixed1 num bars ((yieldCounts outcomes).report Real.sqrt) profileName).tier

theorem gradedTier_eq (outcomes : List VariantOutcome) :
    gradedTier fixed1 num profileName bars outcomes =
      if (yieldCounts outcomes).evaluated = 0 then .unknown
      else tierOf ((yieldCounts outcomes).ci95 Real.sqrt) bars := by
  unfold gradedTier classifyWith YieldCounts.report
  by_cases h : (yieldCounts outcomes).evaluated = 0
  · rw [if_pos h]
    simp only [h, Nat.cast_zero, le_refl, if_true]
    rfl
  · have hpos : (0 : ℝ) < (yieldCounts outcomes).evaluated :=
      Nat.cast_pos.mpr (Nat.pos_of_ne_zero h)
    rw [if_neg h]
    simp only [not_le.mpr hpos, if_false, Option.getD_some]

/-- Errored outcomes are not graded. -/
theorem gradedTier_filter {outcomes outcomes' : List VariantOutcome}
    (h : outcomes.filter VariantOutcome.usable = outcomes'.filter VariantOutcome.usable) :
    gradedTier fixed1 num profileName bars outcomes =
      gradedTier fixed1 num profileName bars outcomes' := by
  have hcount : ∀ v : VariantOutcome, v.usable = true → outcomes.count v = outcomes'.count v :=
    fun v hv => by rw [← List.count_filter hv, h, List.count_filter hv]
  have hpassed : (yieldCounts outcomes).passed = (yieldCounts outcomes').passed := hcount _ rfl
  have hevaluated : (yieldCounts outcomes).evaluated = (yieldCounts outcomes').evaluated :=
    congrArg₂ (· + ·) (hcount _ rfl) (hcount _ rfl)
  rw [gradedTier_eq, gradedTier_eq, YieldCounts.ci95, YieldCounts.ci95, hpassed, hevaluated]

variable (h0 : 0 < bars.marginalMin) (hle : bars.marginalMin ≤ bars.robustMin)
  (h1 : bars.robustMin < 1)

include hle h1

/-- At risk is what has a failed outcome. -/
theorem fail_mem_of_atRisk {outcomes : List VariantOutcome}
    (h : gradedTier fixed1 num profileName bars outcomes = .atRisk) : .fail ∈ outcomes := by
  rw [gradedTier_eq] at h
  split_ifs at h with hne
  by_contra hmem
  have heq : (yieldCounts outcomes).evaluated = (yieldCounts outcomes).passed := by
    simp [yieldCounts, List.count_eq_zero.mpr hmem]
  have hhigh : ((yieldCounts outcomes).ci95 Real.sqrt).high = 1 := by
    rw [YieldCounts.ci95, heq]
    exact (wilson95_all_pass isSqrt_real _).2
  unfold tierOf at h
  rw [hhigh, if_neg (not_lt.mpr (hle.trans h1.le))] at h
  split_ifs at h

include h0

/-- A failed outcome that passes does not move the tier down. -/
theorem gradedTier_turn (l₁ l₂ : List VariantOutcome) :
    (gradedTier fixed1 num profileName bars (l₁ ++ .fail :: l₂)).rank ≤
      (gradedTier fixed1 num profileName bars (l₁ ++ .pass :: l₂)).rank := by
  have hm : bars.marginalMin < 1 := hle.trans_lt h1
  have hr : 0 < bars.robustMin := h0.trans_le hle
  set before := yieldCounts (l₁ ++ .fail :: l₂) with hbefore
  have hpassed : (yieldCounts (l₁ ++ .pass :: l₂)).passed = before.passed + 1 := by
    simp [hbefore, yieldCounts]
    omega
  have hevaluated : (yieldCounts (l₁ ++ .pass :: l₂)).evaluated = before.evaluated := by
    simp [hbefore, yieldCounts]
    omega
  have hlt : before.passed < before.evaluated := by
    simp [hbefore, yieldCounts]
  have hne : before.evaluated ≠ 0 := Nat.ne_zero_of_lt hlt
  rw [gradedTier_eq, gradedTier_eq, ← hbefore, hevaluated, if_neg hne, if_neg hne,
    YieldCounts.ci95, YieldCounts.ci95, hevaluated, hpassed]
  exact rank_tierOf_le (le_low_turn isSqrt_real hr h1 hlt) (le_low_turn isSqrt_real h0 hm hlt)
    (high_lt_turn isSqrt_real h0 hm hlt)

/-- One more outcome that passes does not move the tier down. -/
theorem gradedTier_append (outcomes : List VariantOutcome) :
    (gradedTier fixed1 num profileName bars outcomes).rank ≤
      (gradedTier fixed1 num profileName bars (outcomes ++ [.pass])).rank := by
  have hm : bars.marginalMin < 1 := hle.trans_lt h1
  have hr : 0 < bars.robustMin := h0.trans_le hle
  set before := yieldCounts outcomes with hbefore
  have hpassed : (yieldCounts (outcomes ++ [.pass])).passed = before.passed + 1 := by
    simp [hbefore, yieldCounts]
  have hevaluated : (yieldCounts (outcomes ++ [.pass])).evaluated = before.evaluated + 1 := by
    simp [hbefore, yieldCounts]
    omega
  have hx : before.passed ≤ before.evaluated := Nat.le_add_right _ _
  by_cases hn : before.evaluated = 0
  · -- an outcome that passes is not at risk by itself
    have hzero : gradedTier fixed1 num profileName bars outcomes = .unknown := by
      rw [gradedTier_eq, ← hbefore, if_pos hn]
    have hnot : gradedTier fixed1 num profileName bars (outcomes ++ [.pass]) ≠ .atRisk := by
      intro h
      have hmem := fail_mem_of_atRisk fixed1 num profileName hle h1 h
      rw [List.mem_append, List.mem_singleton, or_iff_left (by decide)] at hmem
      have : 0 < outcomes.count VariantOutcome.fail := List.count_pos_iff.mpr hmem
      have : before.evaluated = outcomes.count .pass + outcomes.count .fail := rfl
      omega
    rw [hzero]
    cases ht : gradedTier fixed1 num profileName bars (outcomes ++ [.pass]) with
    | atRisk => exact absurd ht hnot
    | unknown => exact le_rfl
    | marginal => decide
    | robust => decide
  · have hpos : 0 < before.evaluated := Nat.pos_of_ne_zero hn
    rw [gradedTier_eq, gradedTier_eq, ← hbefore, hevaluated, if_neg hn, if_neg (Nat.succ_ne_zero _),
      YieldCounts.ci95, YieldCounts.ci95, hevaluated, hpassed]
    exact rank_tierOf_le (le_low_append isSqrt_real hr h1 hpos hx)
      (le_low_append isSqrt_real h0 hm hpos hx) (high_lt_append isSqrt_real h0 hm hpos hx)

/-- The sampler settles on samples only. -/
theorem evaluated_of_tierDecided {outcomes : List VariantOutcome}
    (h : tierDecided ((yieldCounts outcomes).ci95 Real.sqrt) bars = true) :
    (yieldCounts outcomes).evaluated ≠ 0 := by
  intro hz
  rw [YieldCounts.ci95, hz, wilson95, if_pos rfl] at h
  simp only [tierDecided, not_le.mpr (h0.trans_le hle), not_le.mpr h0,
    not_lt.mpr (hle.trans h1.le), decide_false, Bool.false_and, Bool.or_false] at h
  exact Bool.false_ne_true h

/-- The tier of a settled sample is the one that it was settled for. -/
theorem settledTier_gradedTier {outcomes : List VariantOutcome}
    (h : tierDecided ((yieldCounts outcomes).ci95 Real.sqrt) bars = true) :
    settledTier ((yieldCounts outcomes).ci95 Real.sqrt) bars =
      some (gradedTier fixed1 num profileName bars outcomes) := by
  have hne := evaluated_of_tierDecided h0 hle h1 h
  have hx : (yieldCounts outcomes).passed ≤ (yieldCounts outcomes).evaluated := Nat.le_add_right _ _
  set ci : YieldInterval ℝ := (yieldCounts outcomes).ci95 Real.sqrt
  have hbelow : ∀ bar, 0 < bar → bar < 1 → ci.high < bar → ci.low < bar := fun bar hb hb' =>
    low_lt_of_high_lt isSqrt_real hb hb' (Nat.pos_of_ne_zero hne) hx
  rw [gradedTier_eq, if_neg hne]
  rw [← isSome_settledTier] at h
  unfold settledTier at h ⊢
  unfold tierOf
  by_cases hrobust : bars.robustMin ≤ ci.low
  · rw [if_pos hrobust, if_pos hrobust]
  · rw [if_neg hrobust] at h
    rw [if_neg hrobust, if_neg hrobust]
    by_cases hrisk : ci.high < bars.marginalMin
    · have hlow := hbelow _ h0 (hle.trans_lt h1) hrisk
      rw [if_pos hrisk, if_neg (not_le.mpr hlow), if_pos hrisk]
    · rw [if_neg hrisk] at h
      by_cases hinside : bars.marginalMin ≤ ci.low ∧ ci.high < bars.robustMin
      · rw [if_neg hrisk, if_pos hinside, if_pos hinside.1]
      · rw [if_neg hinside] at h
        exact absurd h Bool.false_ne_true

/-- The tier moves up with the samples that pass, does not see those that errored, condemns on a
failed sample only, and is the one for which the sampler stops. -/
theorem robustness_tier_sound :
    (∀ l₁ l₂, (gradedTier fixed1 num profileName bars (l₁ ++ .fail :: l₂)).rank ≤
      (gradedTier fixed1 num profileName bars (l₁ ++ .pass :: l₂)).rank) ∧
    (∀ outcomes, (gradedTier fixed1 num profileName bars outcomes).rank ≤
      (gradedTier fixed1 num profileName bars (outcomes ++ [.pass])).rank) ∧
    (∀ outcomes outcomes' : List VariantOutcome,
      outcomes.filter VariantOutcome.usable = outcomes'.filter VariantOutcome.usable →
      gradedTier fixed1 num profileName bars outcomes =
        gradedTier fixed1 num profileName bars outcomes') ∧
    (∀ outcomes, gradedTier fixed1 num profileName bars outcomes = .atRisk → .fail ∈ outcomes) ∧
    ∀ outcomes, tierDecided ((yieldCounts outcomes).ci95 Real.sqrt) bars = true →
      settledTier ((yieldCounts outcomes).ci95 Real.sqrt) bars =
          some (gradedTier fixed1 num profileName bars outcomes) ∧
        gradedTier fixed1 num profileName bars outcomes ≠ .unknown := by
  refine ⟨gradedTier_turn fixed1 num profileName h0 hle h1,
    gradedTier_append fixed1 num profileName h0 hle h1,
    fun _ _ => gradedTier_filter fixed1 num profileName,
    fun _ => fail_mem_of_atRisk fixed1 num profileName hle h1, fun outcomes h => ?_⟩
  have hsettled := settledTier_gradedTier fixed1 num profileName h0 hle h1 h
  exact ⟨hsettled, fun hunknown => settledTier_ne_unknown (hunknown ▸ hsettled)⟩

end

/-- The bars of every profile are in order. -/
theorem barsForProfile_ordered (profileName : Text) :
    0 < (barsForProfile ℝ profileName).marginalMin ∧
      (barsForProfile ℝ profileName).marginalMin ≤ (barsForProfile ℝ profileName).robustMin ∧
      (barsForProfile ℝ profileName).robustMin < 1 := by
  have hall : ∀ e ∈ robustnessProfiles ℝ, 0 < e.2.marginalMin ∧ e.2.marginalMin ≤ e.2.robustMin ∧
      e.2.robustMin < 1 := by
    unfold robustnessProfiles
    intro e he
    rcases List.mem_cons.mp he with rfl | he
    · norm_num
    · rcases List.mem_cons.mp he with rfl | he
      · norm_num
      · rw [List.mem_singleton.mp he]
        norm_num
  unfold barsForProfile
  cases hl : (robustnessProfiles ℝ).lookup profileName with
  | none => norm_num [Option.getD]
  | some bars =>
    obtain ⟨before, after, htable, -⟩ := List.lookup_eq_some_iff.mp hl
    refine hall (profileName, bars) ?_
    rw [htable]
    exact List.mem_append_right _ List.mem_cons_self

/-- A batch of the automotive profile. -/
theorem robustness_tier_automotive :
    (classifyRobustness (fun _ => []) (fun _ => [])
        ((yieldCounts [.pass, .fail]).report Real.sqrt) (some "automotive".toList)).tier.rank ≤
      (classifyRobustness (fun _ => []) (fun _ => [])
        ((yieldCounts [.pass, .fail, .pass]).report Real.sqrt)
        (some "automotive".toList)).tier.rank := by
  obtain ⟨h0, hle, h1⟩ := barsForProfile_ordered "automotive".toList
  exact (robustness_tier_sound (fun _ => []) (fun _ => []) "automotive".toList h0 hle h1).2.1
    [.pass, .fail]

end CircuitForge
