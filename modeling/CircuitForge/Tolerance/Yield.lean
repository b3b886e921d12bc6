/-
Monte Carlo yield: `montecarlo.ts`.

A batch draws variants one at a time, runs each, and counts those that pass, those that fail and
those that could not be run.  It stops at its target of usable samples, at a cap of attempts, on
its budget, on a runner that never works, or on a verdict that no further sample can change.
-/
import CircuitForge.Tolerance.Corners
import CircuitForge.Js.Stopping

namespace CircuitForge

open Js Stopping

inductive VariantOutcome where
  | pass | fail | errored
  deriving DecidableEq

namespace VariantOutcome

/-- The variant was run. -/
def usable (o : VariantOutcome) : Bool := o ≠ .errored

end VariantOutcome

/-! ## Options -/

/-- `ABSOLUTE_MAX_RUNS`. -/
def absoluteMaxRuns : Nat := 50000

/-- `ERRORED_ATTEMPT_HEADROOM`. -/
def erroredAttemptHeadroom : Nat := 3

/-- What a batch reads of `stopBars`: `requiredRunsForBar(robustMin)`, and whether
`tierDecided(wilson95(passed, evaluated), bars)`. -/
structure StopBars where
  required : Nat
  decided : Nat → Nat → Bool

/-- `MonteCarloOptions`, less the draws and the progress hook.  `narrow` says that `ciStop > 0` and
that the interval is no wider than twice `ciStop`; `shouldStop` is asked with the number of the
attempt. -/
structure MonteCarloOptions where
  n : Option Nat := none
  minRuns : Option Nat := none
  stopBars : Option StopBars := none
  narrow : Nat → Nat → Bool := fun _ _ => false
  shouldStop : Nat → Bool := fun _ => false

namespace MonteCarloOptions

def cap (o : MonteCarloOptions) : Nat := o.stopBars.elim 2000 fun bars => max 2000 bars.required

def defaultN (o : MonteCarloOptions) : Nat :=
  o.stopBars.elim 300 fun bars => min bars.required o.cap

/-- `n`. -/
def target (o : MonteCarloOptions) : Nat :=
  max 1 (min (min (o.n.getD o.defaultN) o.cap) absoluteMaxRuns)

/-- `minRuns`. -/
def least (o : MonteCarloOptions) : Nat := max 1 (o.minRuns.getD 24)

def attemptCap (o : MonteCarloOptions) : Nat :=
  if o.stopBars.isSome then min absoluteMaxRuns (o.target * erroredAttemptHeadroom) else o.target

/-- The adaptive stop: a decided tier, or an interval that is narrow enough. -/
def enough (o : MonteCarloOptions) (passed evaluated : Nat) : Bool :=
  o.stopBars.elim (o.narrow passed evaluated) fun bars => bars.decided passed evaluated

end MonteCarloOptions

/-! ## The batch -/

/-- The variables of the loop.  `budgetHit` is set by the caller's `shouldStop`. -/
structure Batch where
  outcomes : List VariantOutcome := []
  stoppedEarly : Bool := false
  ran : Nat := 0
  passed : Nat := 0
  evaluated : Nat := 0
  budgetHit : Bool := false

namespace Batch

/-- An attempt that could not be run. -/
def fault (b : Batch) : Batch :=
  { b with ran := b.ran + 1, outcomes := b.outcomes ++ [.errored] }

/-- An attempt that passed or failed. -/
def sample (b : Batch) (v : VariantOutcome) : Batch :=
  { b with
    ran := b.ran + 1
    outcomes := b.outcomes ++ [v]
    evaluated := b.evaluated + 1
    passed := if v = .pass then b.passed + 1 else b.passed }

/-- The end of a batch that stops early. -/
def stop (b : Batch) (budgetHit : Bool) : Batch :=
  { b with stoppedEarly := true, budgetHit := budgetHit }

end Batch

/-- The loop, from an attempt on, with as many attempts as are left. -/
def runBatch (o : MonteCarloOptions) (outcome : Nat → VariantOutcome) : Nat → Nat → Batch → Batch
  | 0, _, b => b
  | left + 1, attempt, b =>
    if o.stopBars.isSome ∧ o.target ≤ b.evaluated then b
    else if o.shouldStop attempt then b.stop true
    else if outcome attempt = .errored then
      let b := b.fault
      -- Nothing is running at all.
      if b.evaluated = 0 ∧ o.least ≤ b.outcomes.length then b.stop false
      else runBatch o outcome left (attempt + 1) b
    else
      let b := b.sample (outcome attempt)
      if o.least ≤ b.evaluated ∧ o.enough b.passed b.evaluated then b.stop false
      else runBatch o outcome left (attempt + 1) b

/-- The counts of `computeYield`. -/
structure YieldCounts where
  total : Nat
  evaluated : Nat
  passed : Nat
  failed : Nat
  errored : Nat
  deriving DecidableEq

def yieldCounts (outcomes : List VariantOutcome) : YieldCounts :=
  let passed := outcomes.count .pass
  let failed := outcomes.count .fail
  { total := outcomes.length
    evaluated := passed + failed
    passed := passed
    failed := failed
    errored := outcomes.count .errored }

/-- What `runMonteCarlo` answers, less the yield and its interval, which are read off the counts. -/
structure MonteCarloRun extends YieldCounts where
  stoppedEarly : Bool
  ran : Nat
  budgetHit : Bool

/-- A batch over the outcomes of its attempts. -/
def runOutcomes (o : MonteCarloOptions) (outcome : Nat → VariantOutcome) : MonteCarloRun :=
  let b := runBatch o outcome o.attemptCap 0 {}
  { yieldCounts b.outcomes with
    stoppedEarly := b.stoppedEarly, ran := b.ran, budgetHit := b.budgetHit }

section

variable [Runtime]

/-- The draws a variant takes. -/
def drawsPerVariant (circuit : CircuitJson) (dist : TolDistribution) : Nat :=
  drawsBefore dist circuit.components circuit.components.length

/-- The variant of an attempt: `perturbCircuit` at the place the one stream of draws has reached. -/
def variantOf (gaussian : Runtime.Num → Runtime.Num → Runtime.Num) (circuit : CircuitJson)
    (rand : Nat → Runtime.Num) (dist : TolDistribution) (attempt : Nat) : CircuitJson :=
  perturbCircuit gaussian circuit
    (fun k => rand (attempt * drawsPerVariant circuit dist + k)) dist

/-- The outcome of an attempt.  The runner answers nothing when it gave `null` or threw. -/
def attemptOutcome {M : Type} (evaluate : M → List Bool)
    (runVariant : CircuitJson → Nat → Option M) (variant : Nat → CircuitJson) (attempt : Nat) :
    VariantOutcome :=
  match runVariant (variant attempt) attempt with
  | none => .errored
  | some m => if allPass (evaluate m) then .pass else .fail

/-- `runMonteCarlo`. -/
def runMonteCarlo {M : Type} (gaussian : Runtime.Num → Runtime.Num → Runtime.Num)
    (circuit : CircuitJson) (evaluate : M → List Bool)
    (runVariant : CircuitJson → Nat → Option M) (rand : Nat → Runtime.Num)
    (dist : TolDistribution) (o : MonteCarloOptions) : MonteCarloRun :=
  runOutcomes o (attemptOutcome evaluate runVariant (variantOf gaussian circuit rand dist))

end

/-! ## How a batch ends -/

section

variable (o : MonteCarloOptions) (outcome : Nat → VariantOutcome)

/-- The usable outcomes of the first attempts. -/
def counted (k : Nat) : List VariantOutcome := visible VariantOutcome.usable outcome k

/-- The target of usable samples is met. -/
def Sated (k : Nat) : Prop := o.stopBars.isSome ∧ o.target ≤ (counted outcome k).length

/-- The verdict is decided with the usable sample of an attempt. -/
def Settled (j : Nat) : Prop :=
  (outcome j).usable = true ∧ o.least ≤ (counted outcome (j + 1)).length ∧
    o.enough ((counted outcome (j + 1)).count .pass) (counted outcome (j + 1)).length = true

/-- Nothing was usable, and that for long enough. -/
def Broken (j : Nat) : Prop := counted outcome (j + 1) = [] ∧ o.least ≤ j + 1

/-- The variables of the loop in front of an attempt. -/
def soFar (k : Nat) : Batch where
  outcomes := upTo outcome k
  ran := k
  passed := (counted outcome k).count .pass
  evaluated := (counted outcome k).length

/-- Why a batch ended after `k` attempts, and what it reports of it. -/
inductive Ending (k : Nat) : Bool → Bool → Prop where
  | capped (h : k = o.attemptCap) : Ending k false false
  | sated (h : Sated o outcome k) : Ending k false false
  | cut (h : o.shouldStop k = true) : Ending k true true
  | broken (j : Nat) (hk : k = j + 1) (h : Broken o outcome j) : Ending k true false
  | settled (j : Nat) (hk : k = j + 1) (h : Settled o outcome j) : Ending k true false

variable {o outcome}

theorem counted_succ_usable {j : Nat} (h : (outcome j).usable = true) :
    counted outcome (j + 1) = counted outcome j ++ [outcome j] := by
  rw [counted, visible_succ, if_pos h]
  rfl

theorem counted_succ_errored {j : Nat} (h : outcome j = .errored) :
    counted outcome (j + 1) = counted outcome j := by
  rw [counted, visible_succ, if_neg (by rw [h]; decide), List.append_nil]
  rfl

theorem usable_iff {v : VariantOutcome} : v.usable = true ↔ v ≠ .errored := decide_eq_true_iff

theorem soFar_fault {j : Nat} (h : outcome j = .errored) :
    (soFar outcome j).fault = soFar outcome (j + 1) := by
  unfold Batch.fault soFar
  rw [counted_succ_errored h, upTo_succ, h]

theorem soFar_sample {j : Nat} (h : outcome j ≠ .errored) :
    (soFar outcome j).sample (outcome j) = soFar outcome (j + 1) := by
  unfold Batch.sample soFar
  rw [counted_succ_usable (usable_iff.mpr h), upTo_succ, List.length_append, List.count_append,
    List.count_singleton]
  by_cases hpass : outcome j = .pass
  · simp [hpass]
  · simp [hpass]

/-- The loop ends after some attempts, for a reason it did not have before. -/
structure Ended (o : MonteCarloOptions) (outcome : Nat → VariantOutcome) (attempt k : Nat)
    (b : Batch) : Prop where
  from_le : attempt ≤ k
  le_cap : k ≤ o.attemptCap
  eq : ∃ early hit, b = { soFar outcome k with stoppedEarly := early, budgetHit := hit } ∧
    Ending o outcome k early hit
  open_before : ∀ j, attempt ≤ j → j < k → ¬ Sated o outcome j
  unsettled_before : ∀ j, attempt ≤ j → j + 1 < k → ¬ Settled o outcome j

theorem Ended.extend {attempt k : Nat} {b : Batch} (h : Ended o outcome (attempt + 1) k b)
    (hsated : ¬ Sated o outcome attempt) (hsettled : ¬ Settled o outcome attempt) :
    Ended o outcome attempt k b where
  from_le := by
    have := h.from_le
    omega
  le_cap := h.le_cap
  eq := h.eq
  open_before := fun j hj hjk => by
    rcases Nat.eq_or_lt_of_le hj with rfl | hj
    · exact hsated
    · exact h.open_before j hj hjk
  unsettled_before := fun j hj hjk => by
    rcases Nat.eq_or_lt_of_le hj with rfl | hj
    · exact hsettled
    · exact h.unsettled_before j hj hjk

theorem runBatch_ended (left attempt : Nat) (hcap : attempt + left = o.attemptCap) :
    ∃ k, Ended o outcome attempt k (runBatch o outcome left attempt (soFar outcome attempt)) := by
  induction left generalizing attempt with
  | zero =>
    exact ⟨attempt, le_rfl, by omega, ⟨false, false, rfl, .capped (by omega)⟩,
      fun j h h' => by omega, fun j h h' => by omega⟩
  | succ left ih =>
    rw [runBatch]
    split_ifs with hsated hcut herrored
    · exact ⟨attempt, le_rfl, by omega, ⟨false, false, rfl, .sated hsated⟩,
        fun j h h' => by omega, fun j h h' => by omega⟩
    · exact ⟨attempt, le_rfl, by omega, ⟨true, true, rfl, .cut hcut⟩,
        fun j h h' => by omega, fun j h h' => by omega⟩
    · rw [soFar_fault herrored]
      dsimp only
      split_ifs with hbroken
      · have hnil : counted outcome (attempt + 1) = [] := List.length_eq_zero_iff.mp hbroken.1
        have hlength : (soFar outcome (attempt + 1)).outcomes.length = attempt + 1 :=
          upTo_length _ _
        rw [hlength] at hbroken
        refine ⟨attempt + 1, by omega, by omega,
          ⟨true, false, rfl, .broken attempt rfl ⟨hnil, hbroken.2⟩⟩, fun j hj hlt => ?_,
          fun j h h' => by omega⟩
        obtain rfl : j = attempt := by omega
        exact hsated
      · obtain ⟨k, h⟩ := ih (attempt + 1) (by omega)
        exact ⟨k, h.extend hsated fun h' => usable_iff.mp h'.1 herrored⟩
    · rw [soFar_sample herrored]
      dsimp only
      split_ifs with hsettled
      · refine ⟨attempt + 1, by omega, by omega,
          ⟨true, false, rfl, .settled attempt rfl ⟨usable_iff.mpr herrored, hsettled⟩⟩,
          fun j hj hlt => ?_, fun j h h' => by omega⟩
        obtain rfl : j = attempt := by omega
        exact hsated
      · obtain ⟨k, h⟩ := ih (attempt + 1) (by omega)
        exact ⟨k, h.extend hsated fun h' => hsettled h'.2⟩

/-- What a batch answers. -/
structure Answered (o : MonteCarloOptions) (outcome : Nat → VariantOutcome) (r : MonteCarloRun) :
    Prop where
  counts : r.toYieldCounts = yieldCounts (upTo outcome r.ran)
  le_cap : r.ran ≤ o.attemptCap
  ending : Ending o outcome r.ran r.stoppedEarly r.budgetHit
  open_before : ∀ j < r.ran, ¬ Sated o outcome j
  unsettled_before : ∀ j, j + 1 < r.ran → ¬ Settled o outcome j

theorem runOutcomes_answered (o : MonteCarloOptions) (outcome : Nat → VariantOutcome) :
    Answered o outcome (runOutcomes o outcome) := by
  obtain ⟨k, h⟩ : ∃ k, Ended o outcome 0 k (runBatch o outcome o.attemptCap 0 (soFar outcome 0)) :=
    runBatch_ended o.attemptCap 0 (by omega)
  obtain ⟨early, hit, heq, hending⟩ := h.eq
  have hrun : runOutcomes o outcome = { yieldCounts (upTo outcome k) with
      stoppedEarly := early, ran := k, budgetHit := hit } := by
    unfold runOutcomes
    have hstart : ({} : Batch) = soFar outcome 0 := rfl
    rw [hstart, heq]
    rfl
  rw [hrun]
  exact ⟨rfl, h.le_cap, hending, fun j => h.open_before j (Nat.zero_le j),
    fun j => h.unsettled_before j (Nat.zero_le j)⟩

/-! ## Counts -/

theorem count_add_count (outcomes : List VariantOutcome) :
    outcomes.count .pass + outcomes.count .fail = (outcomes.filter VariantOutcome.usable).length := by
  induction outcomes with
  | nil => rfl
  | cons v outcomes ih =>
    cases v with
    | pass => simp [VariantOutcome.usable, ← ih]; omega
    | fail => simp [VariantOutcome.usable, ← ih]; omega
    | errored => simp [VariantOutcome.usable, ← ih]

theorem count_errored (outcomes : List VariantOutcome) :
    outcomes.length = outcomes.count .pass + outcomes.count .fail + outcomes.count .errored := by
  induction outcomes with
  | nil => rfl
  | cons v outcomes ih =>
    cases v with
    | pass => simp [ih]; omega
    | fail => simp [ih]; omega
    | errored => simp [ih]; omega

theorem count_counted (k : Nat) {v : VariantOutcome} (hv : v.usable = true) :
    (upTo outcome k).count v = (counted outcome k).count v := (List.count_filter hv).symm

variable {r : MonteCarloRun}

theorem Answered.evaluated_eq (h : Answered o outcome r) :
    r.evaluated = (counted outcome r.ran).length := by
  rw [h.counts]
  exact count_add_count _

theorem Answered.total_eq (h : Answered o outcome r) : r.total = r.ran :=
  (congrArg YieldCounts.total h.counts).trans (upTo_length outcome r.ran)

theorem Answered.passed_eq (h : Answered o outcome r) :
    r.passed = (counted outcome r.ran).count .pass :=
  (congrArg YieldCounts.passed h.counts).trans (count_counted r.ran rfl)

theorem Answered.failed_eq (h : Answered o outcome r) :
    r.failed = (counted outcome r.ran).count .fail :=
  (congrArg YieldCounts.failed h.counts).trans (count_counted r.ran rfl)

/-- Every attempt is counted. -/
theorem Answered.ran_eq (h : Answered o outcome r) :
    r.ran = r.passed + r.failed + r.errored := by
  rw [h.counts]
  exact (upTo_length outcome r.ran).symm.trans (count_errored _)

theorem Answered.evaluated_le (h : Answered o outcome r) (hbars : o.stopBars.isSome) :
    r.evaluated ≤ o.target := by
  rw [h.evaluated_eq]
  cases hran : r.ran with
  | zero => exact Nat.zero_le _
  | succ j =>
    have hopen := h.open_before j (by omega)
    have hlt : (counted outcome j).length < o.target := by
      by_contra hge
      exact hopen ⟨hbars, by omega⟩
    have hone : (if (outcome j).usable then [outcome j] else []).length ≤ 1 := by
      split_ifs
      · exact le_rfl
      · exact Nat.zero_le _
    rw [counted, visible_succ, List.length_append]
    have hcounted : counted outcome j = visible VariantOutcome.usable outcome j := rfl
    rw [hcounted] at hlt
    omega

/-- A batch that stops early does so on its budget, without a usable sample, or on enough. -/
theorem Answered.early (h : Answered o outcome r) (hearly : r.stoppedEarly = true)
    (hhit : r.budgetHit = false) (hsome : r.evaluated ≠ 0) : o.least ≤ r.evaluated := by
  have hending := h.ending
  rw [hearly, hhit] at hending
  rw [h.evaluated_eq] at hsome ⊢
  cases hending with
  | broken j hk hbroken =>
    rw [hk, hbroken.1] at hsome
    exact absurd rfl hsome
  | settled j hk hsettled =>
    rw [hk]
    exact hsettled.2.1

theorem Answered.not_hit (h : Answered o outcome r) (hstop : ∀ i, o.shouldStop i = false) :
    r.budgetHit = false := by
  have hending := h.ending
  generalize r.stoppedEarly = early, r.budgetHit = hit at hending
  cases hending with
  | capped _ => rfl
  | sated _ => rfl
  | cut h => exact absurd h (by rw [hstop]; decide)
  | broken _ _ _ => rfl
  | settled _ _ _ => rfl

/-- Where no sample faults, as many are counted as were run. -/
theorem counted_of_usable (h : ∀ i, (outcome i).usable = true) (k : Nat) :
    counted outcome k = upTo outcome k :=
  List.filter_eq_self.mpr fun v hv => by
    obtain ⟨i, -, rfl⟩ := mem_upTo.mp hv
    exact h i

/-- A batch that only passes, and is not decided before its target, runs for its target. -/
theorem Answered.ran_eq_target (h : Answered o outcome r) (hbars : o.stopBars.isSome)
    (hhit : r.budgetHit = false) (hpass : ∀ i, outcome i = .pass)
    (hundecided : ∀ e < o.target, o.enough e e = false) : r.ran = o.target := by
  have husable : ∀ i, (outcome i).usable = true := fun i => by rw [hpass i]; rfl
  have hcounted := counted_of_usable husable
  have hall : ∀ k, (upTo outcome k).count .pass = k := fun k => by
    rw [List.count_eq_length.mpr fun v hv => ?_, upTo_length]
    obtain ⟨i, -, rfl⟩ := mem_upTo.mp hv
    exact (hpass i).symm
  have hle : r.ran ≤ o.target := by
    have hevaluated := h.evaluated_le hbars
    rwa [h.evaluated_eq, hcounted, upTo_length] at hevaluated
  refine le_antisymm hle ?_
  have htarget : o.target ≤ absoluteMaxRuns :=
    max_le (by decide) (min_le_right _ _)
  have hcap : o.target ≤ o.attemptCap := by
    rw [MonteCarloOptions.attemptCap, if_pos hbars]
    exact le_min htarget (Nat.le_mul_of_pos_right _ (by decide))
  have hending := h.ending
  rw [hhit] at hending
  generalize r.stoppedEarly = early at hending
  cases hending with
  | capped hk => omega
  | sated hsated =>
    have hge := hsated.2
    rwa [hcounted, upTo_length] at hge
  | broken j hk hbroken =>
    have hlength := congrArg List.length hbroken.1
    rw [hcounted, upTo_length, List.length_nil] at hlength
    omega
  | settled j hk hsettled =>
    have henough := hsettled.2.2
    rw [hcounted, hall, upTo_length] at henough
    by_contra hlt
    rw [hundecided (j + 1) (by omega)] at henough
    cases henough

/-! ## Faults between the samples -/

/-- The usable samples end the batch. -/
def Enough (o : MonteCarloOptions) (samples : List VariantOutcome) : Prop :=
  o.target ≤ samples.length ∨
    o.least ≤ samples.length ∧ o.enough (samples.count .pass) samples.length = true

/-- A batch that neither its budget nor its attempts cut ends on its samples. -/
theorem Answered.enough (h : Answered o outcome r) (hcap : r.ran < o.attemptCap)
    (hhit : r.budgetHit = false) (hfirst : ∃ i < o.least, (outcome i).usable = true) :
    Enough o (counted outcome r.ran) := by
  have hending := h.ending
  rw [hhit] at hending
  generalize r.stoppedEarly = early at hending
  cases hending with
  | capped hk => omega
  | sated hsated => exact Or.inl hsated.2
  | broken j hk hbroken =>
    obtain ⟨i, hi, husable⟩ := hfirst
    have hmem : outcome i ∈ counted outcome (j + 1) :=
      List.mem_filter.mpr ⟨mem_upTo.mpr ⟨i, by have := hbroken.2; omega, rfl⟩, husable⟩
    rw [hbroken.1] at hmem
    cases hmem
  | settled j hk hsettled =>
    rw [hk]
    exact Or.inr hsettled.2

/-- No fewer samples would have ended it. -/
theorem Answered.minimal (h : Answered o outcome r) (hbars : o.stopBars.isSome)
    {w : List VariantOutcome} (hw : w <+: counted outcome r.ran) (henough : Enough o w) :
    w = counted outcome r.ran := by
  have htarget : 1 ≤ o.target := le_max_left _ _
  have hleast : 1 ≤ o.least := le_max_left _ _
  rcases prefix_visible hw with rfl | ⟨j, hj, husable, hv⟩
  · rcases henough with h' | h'
    · rw [List.length_nil] at h'
      omega
    · rw [List.length_nil] at h'
      omega
  · rcases Nat.lt_or_ge (j + 1) r.ran with hlt | hge
    · exfalso
      have hv' : counted outcome (j + 1) = w := hv
      rcases henough with h' | h'
      · exact h.open_before (j + 1) hlt ⟨hbars, hv' ▸ h'⟩
      · exact h.unsettled_before j hlt ⟨husable, hv' ▸ h'.1, hv' ▸ h'.2⟩
    · have hran : r.ran = j + 1 := by omega
      rw [← hv, hran]
      rfl

/-- Batches on the same samples, neither cut by its budget or its attempts, count alike. -/
theorem counted_eq {outcome' : Nat → VariantOutcome} {shouldStop' : Nat → Bool}
    {r' : MonteCarloRun} (h : Answered o outcome r)
    (h' : Answered { o with shouldStop := shouldStop' } outcome' r') (hbars : o.stopBars.isSome)
    (hsame : SameVisible VariantOutcome.usable outcome outcome')
    (hfirst : ∃ i < o.least, (outcome i).usable = true)
    (hfirst' : ∃ i < o.least, (outcome' i).usable = true) (hcap : r.ran < o.attemptCap)
    (hcap' : r'.ran < o.attemptCap) (hhit : r.budgetHit = false) (hhit' : r'.budgetHit = false) :
    counted outcome r.ran = counted outcome' r'.ran :=
  first_halt_eq hsame (Enough o) (h.enough hcap hhit hfirst)
    (h'.enough hcap' hhit' hfirst') (fun _ => h.minimal hbars) fun _ => h'.minimal hbars

end

section

variable [Runtime] {M : Type} (gaussian : Runtime.Num → Runtime.Num → Runtime.Num)
  (circuit : CircuitJson) (evaluate : M → List Bool) (rand : Nat → Runtime.Num)
  (dist : TolDistribution)

/-- The outcomes of the attempts of a runner. -/
def runnerOutcome (runVariant : CircuitJson → Nat → Option M) : Nat → VariantOutcome :=
  attemptOutcome evaluate runVariant (variantOf gaussian circuit rand dist)

/-- Infrastructure faults never move the yield, as long as the budget does not cut the batch. -/
theorem faults_keep_yield (o : MonteCarloOptions) (hbars : o.stopBars.isSome) :
    (∀ runVariant : CircuitJson → Nat → Option M,
      let r := runMonteCarlo gaussian circuit evaluate runVariant rand dist o
      r.total = r.ran ∧ r.ran = r.passed + r.failed + r.errored ∧
        r.ran ≤ min absoluteMaxRuns (3 * o.target) ∧ r.evaluated ≤ o.target ∧
        (r.stoppedEarly = true → r.budgetHit = false → r.evaluated ≠ 0 →
          o.least ≤ r.evaluated)) ∧
    ∀ (runVariant runVariant' : CircuitJson → Nat → Option M) (shouldStop' : Nat → Bool),
      let r := runMonteCarlo gaussian circuit evaluate runVariant rand dist o
      let r' := runMonteCarlo gaussian circuit evaluate runVariant' rand dist
        { o with shouldStop := shouldStop' }
      let outcome := runnerOutcome gaussian circuit evaluate rand dist runVariant
      let outcome' := runnerOutcome gaussian circuit evaluate rand dist runVariant'
      SameVisible VariantOutcome.usable outcome outcome' →
      (∃ i < o.least, (outcome i).usable = true) → (∃ i < o.least, (outcome' i).usable = true) →
      r.ran < o.attemptCap → r'.ran < o.attemptCap → r.budgetHit = false → r'.budgetHit = false →
        r.passed = r'.passed ∧ r.failed = r'.failed := by
  constructor
  · intro runVariant
    have h := runOutcomes_answered o (runnerOutcome gaussian circuit evaluate rand dist runVariant)
    have hcap := h.le_cap
    rw [MonteCarloOptions.attemptCap, if_pos hbars, Nat.mul_comm] at hcap
    exact ⟨h.total_eq, h.ran_eq, hcap, h.evaluated_le hbars, h.early⟩
  · intro runVariant runVariant' shouldStop' r r' outcome outcome' hsame hfirst hfirst' hcap hcap'
      hhit hhit'
    have h : Answered o outcome r := runOutcomes_answered o _
    have h' : Answered { o with shouldStop := shouldStop' } outcome' r' :=
      runOutcomes_answered _ _
    have heq := counted_eq h h' hbars hsame hfirst hfirst' hcap hcap' hhit hhit'
    exact ⟨by rw [h.passed_eq, heq, h'.passed_eq], by rw [h.failed_eq, heq, h'.failed_eq]⟩

end

/-- A batch of four samples. -/
def fourSamples : MonteCarloOptions where
  stopBars := some { required := 4, decided := fun _ _ => false }

/-- A runner of one resistor whose attempts all pass, but for the first ones, which fault. -/
def faultyRunner (faults : Nat) (_ : CircuitJson) (attempt : Nat) : Option Bool :=
  if attempt < faults then none else some true

/-- The outcomes of such a runner. -/
def faultyOutcome (faults : Nat) : Nat → VariantOutcome :=
  runnerOutcome (fun a _ => a) (resistorBank 1) (fun pass => [pass]) (fun _ => (0 : Rat)) .uniform
    (faultyRunner faults)

/-- A batch over such a runner. -/
def faultyRun (faults : Nat) (o : MonteCarloOptions) : MonteCarloRun :=
  runMonteCarlo (fun a _ => a) (resistorBank 1) (fun pass => [pass]) (faultyRunner faults)
    (fun _ => (0 : Rat)) .uniform o

theorem faultyOutcome_same : SameVisible VariantOutcome.usable (faultyOutcome 0) (faultyOutcome 1) := by
  have hinsert : faultyOutcome 1 = insertAt (faultyOutcome 0) 0 .errored := by
    funext i
    cases i with
    | zero => rfl
    | succ i => rfl
  rw [hinsert]
  exact sameVisible_insertAt _ 0 rfl

/-- A fault in front of four passing samples leaves all four of them. -/
theorem faults_keep_yield_four :
    (faultyRun 0 fourSamples).passed = (faultyRun 1 fourSamples).passed ∧
      (faultyRun 0 fourSamples).failed = (faultyRun 1 fourSamples).failed :=
  (faults_keep_yield (fun a _ => a) (resistorBank 1) (fun pass => [pass]) (fun _ => (0 : Rat))
    .uniform fourSamples rfl).2 (faultyRunner 0) (faultyRunner 1) (fun _ => false)
    faultyOutcome_same ⟨0, by decide, rfl⟩ ⟨1, by decide, rfl⟩ (by decide +kernel)
    (by decide +kernel) (by decide +kernel) (by decide +kernel)

/-- A budget of two attempts is spent on the fault. -/
theorem budget_moves_yield :
    let o : MonteCarloOptions := { fourSamples with shouldStop := fun attempt => decide (2 ≤ attempt) }
    SameVisible VariantOutcome.usable (faultyOutcome 0) (faultyOutcome 1) ∧
    (∃ i < o.least, (faultyOutcome 0 i).usable = true) ∧
    (∃ i < o.least, (faultyOutcome 1 i).usable = true) ∧
    (faultyRun 0 o).ran < o.attemptCap ∧ (faultyRun 1 o).ran < o.attemptCap ∧
    (faultyRun 0 o).passed = 2 ∧ (faultyRun 1 o).passed = 1 :=
  ⟨faultyOutcome_same, ⟨0, by decide, rfl⟩, ⟨1, by decide, rfl⟩, by decide +kernel,
    by decide +kernel, by decide +kernel, by decide +kernel⟩

end CircuitForge
