/-
Verdicts: `analysis/assertions.ts`.

A criterion names a probe; the probe is turned into a key, the key finds the measurement of a
series, and the verdict compares one number of it.  Ground is answered without a measurement, and
every other way out is a failure.
-/
import CircuitForge.Analysis.Measurements
import CircuitForge.Netlist.ProbeMap
import CircuitForge.Netlist.Names

namespace CircuitForge

open Js

/-! ## Criteria -/

inductive Metric where
  | min | max | final | pp | avg | rms | cutoff | thd | gain
  deriving DecidableEq

def Metric.text : Metric → Text
  | .min => "min".toList
  | .max => "max".toList
  | .final => "final".toList
  | .pp => "pp".toList
  | .avg => "avg".toList
  | .rms => "rms".toList
  | .cutoff => "cutoff".toList
  | .thd => "thd".toList
  | .gain => "gain".toList

/-- `isVoltageMetric`: the metrics of a series over time. -/
def Metric.isVoltageMetric : Metric → Bool
  | .cutoff | .thd | .gain => false
  | _ => true

/-- `op`. -/
inductive Comparison where
  | lt | lte | gt | gte | approx
  deriving DecidableEq

def Comparison.text : Comparison → Text
  | .lt => "lt".toList
  | .lte => "lte".toList
  | .gt => "gt".toList
  | .gte => "gte".toList
  | .approx => "approx".toList

/-! ## Forms of a probe -/

/-- What `\s*(x+?)\s*` captures of a whole text, for a class `x`: the text without the blanks
around it, or the last character of the class when there are only blanks. -/
def lazyCapture (ok : Char → Bool) (body : Text) : Option Text :=
  match trim body with
  | [] => (body.reverse.find? ok).map fun c => [c]
  | c :: core => if (c :: core).all ok then some (c :: core) else none

/-- The argument of `/^l\s*\(\s*(x+?)\s*\)$/i`. -/
def wrappedIn (l : Char) (ok : Char → Bool) (s : Text) : Option Text :=
  match s with
  | [] => none
  | c :: r =>
    if sameLetter l c then
      match trimStart r with
      | '(' :: t => if t.getLast? = some ')' then lazyCapture ok t.dropLast else none
      | _ => none
    else none

/-- `.` without flags. -/
def isDot (c : Char) : Bool := !isLineBreak c && c.toNat != 0x2028 && c.toNat != 0x2029

/-- `/^v\s*\(\s*(.+?)\s*\)$/i`. -/
def voltageArgument (s : Text) : Option Text := wrappedIn 'v' isDot s

/-- A letter `i` and then `bracket`, blanks before each. -/
def iThen (bracket : Char) (s : Text) : Bool :=
  match trimStart s with
  | c :: r => sameLetter 'i' c && startsWith (trimStart r) [bracket]
  | [] => false

/-- `/\[\s*i\s*\]\s*$/i`, read from the end. -/
def endsInCurrent (s : Text) : Bool :=
  match trimStart s.reverse with
  | ']' :: r => iThen '[' r
  | _ => false

def isCurrentProbe (probe : Text) : Bool := iThen '(' probe || endsInCurrent probe

/-- The device of `/^@\s*([^[\s]+?)\s*\[\s*i\s*\]$/i`. -/
def deviceOfAt (s : Text) : Option Text :=
  match s with
  | '@' :: r =>
    let inDevice := fun c => c != '[' && !isSpace c
    let device := (trimStart r).takeWhile inDevice
    match trimStart ((trimStart r).dropWhile inDevice) with
    | '[' :: r =>
      match trimStart r with
      | i :: r => if device ≠ [] ∧ sameLetter 'i' i = true ∧ trimStart r = [']'] then some device
        else none
      | [] => none
    | _ => none
  | _ => none

section

variable [Runtime]

def currentKey (probe : Text) : Option Text :=
  match wrappedIn 'i' (· != ')') (trim probe) with
  | some device => some (Runtime.lower device)
  | none => (deviceOfAt (trim probe)).map Runtime.lower

/-! ## Keys -/

/-- `inner` of `nodeKey`: each argument, sanitized. -/
def sanitizedArguments (inner : Text) : Text :=
  join ",".toList ((inner.splitOn ',').map fun p => Runtime.lower (sanitizeNodeName (trim p)))

def nodeKey (probe : Text) (resolver : Option ProbeResolver := none) : Text :=
  let map := (resolver.map ProbeResolver.netRefToNode).getD []
  let t := trim (rewriteProbeNodeRefs (normalizeProbe (trim probe)) map)
  if t = [] then [] else sanitizedArguments ((voltageArgument t).getD t)

/-- `GROUND_KEY`. -/
def groundKey : Text := "v:".toList ++ Char.ofNat 0 :: "ground".toList

/-- `SIGN_AMBIGUOUS_KEY`. -/
def signAmbiguousKey : Text := "v:".toList ++ Char.ofNat 0 :: "sign-ambiguous".toList

def namesGroundOnly (probe : Text) (resolver : ProbeResolver) : Bool :=
  match voltageArgument (normalizeProbe (trim probe)) with
  | none => false
  | some inner =>
    match (inner.splitOn ',').map fun p => Runtime.lower (trim p) with
    | [part] => resolver.groundRefs.contains part
    | _ => false

def matchKey (probeOrNode : Text) (resolver : Option ProbeResolver := none) : Text :=
  if isCurrentProbe probeOrNode then
    "i:".toList ++ (currentKey probeOrNode).getD (Runtime.lower (trim probeOrNode))
  else if resolver.any (namesGroundOnly probeOrNode) then groundKey
  else
    let k := nodeKey probeOrNode resolver
    if k = [] then signAmbiguousKey else "v:".toList ++ k

/-- The last argument of `evaluateAssertions`. -/
inductive ProbeSource where
  | absent
  | circuit (circuit : CircuitJson)
  | resolver (resolver : ProbeResolver)
  | nets (nets : List Net)

def toResolver : ProbeSource → Option ProbeResolver
  | .absent => none
  | .circuit circuit => some (buildProbeResolver circuit)
  | .resolver resolver => some resolver
  | .nets [] => none
  | .nets nets => some (buildProbeResolver { components := [], nets := nets })

/-! ## Verdicts -/

structure AcceptanceCriterion where
  probe : Text
  metric : Metric
  op : Comparison
  value : Runtime.Num
  tol : Option Runtime.Num := none
  label : Option Text := none

structure AssertionResult where
  label : Text
  probe : Text
  metric : Metric
  op : Comparison
  target : Runtime.Num
  tol : Option Runtime.Num
  actual : Option Runtime.Num
  pass : Bool
  distance : Option Runtime.Num
  detail : Text

def compareAssertion (actual : Runtime.Num) (op : Comparison) (target : Runtime.Num)
    (tol : Option Runtime.Num) : Bool :=
  match op with
  | .lt => Runtime.lt actual target
  | .lte => Runtime.le actual target
  | .gt => Runtime.lt target actual
  | .gte => Runtime.le target actual
  | .approx =>
    let t := tol.getD (Runtime.max (Runtime.mul (Runtime.abs target) (Runtime.lit 5 (-2)))
      (Runtime.lit 1 (-9)))
    Runtime.le (Runtime.abs (Runtime.sub actual target)) t

/-- `src[a.metric]`, of the metrics of a series. -/
def SeriesStats.get (s : SeriesStats) : Metric → Option Runtime.Num
  | .min => some s.min
  | .max => some s.max
  | .final => some s.final
  | .pp => some s.pp
  | .avg => some s.avg
  | .rms => some s.rms
  | .cutoff | .thd | .gain => none

/-- `src`: the full-precision statistics, or the shown ones. -/
def SimMeasurement.source (m : SimMeasurement) : SeriesStats := m.raw.getD m.toSeriesStats

/-- A statistic of a current, as a magnitude: an extreme is that of the larger excursion. -/
def SeriesStats.magnitude (s : SeriesStats) (metric : Metric) : Option Runtime.Num :=
  match metric with
  | .min | .max => some (Runtime.max (Runtime.abs s.min) (Runtime.abs s.max))
  | metric => (s.get metric).map Runtime.abs

/-- `measured`, if there is such a number: of the frequency response, of the `fourier` and `tf`
requests, or of the series. -/
def measuredValue (m : SimMeasurement) (a : AcceptanceCriterion) : Option Runtime.Num :=
  match a.metric with
  | .cutoff => m.cutoff.join
  | .thd => m.thd.filter Runtime.isFinite
  | .gain => m.gain.filter Runtime.isFinite
  | metric =>
    if isCurrentProbe a.probe then m.source.magnitude metric else m.source.get metric

/-- `Number(measured.toPrecision(4))`, but a cutoff is shown as it is. -/
def shownValue (metric : Metric) (measured : Runtime.Num) : Runtime.Num :=
  if metric = .cutoff then measured else round4 measured

namespace AcceptanceCriterion

/-- What is left of a detail after the value: the mark, the comparison and the target. -/
def mark (a : AcceptanceCriterion) (pass : Bool) : Text :=
  (if pass then " ✓ " else " ✗ ").toList ++ a.op.text ++ " ".toList ++ Runtime.toText a.value

/-- `metric(probe)`. -/
def quantity (a : AcceptanceCriterion) : Text :=
  a.metric.text ++ "(".toList ++ a.probe ++ ")".toList

/-- A result, with the fields of the criterion. -/
def result (a : AcceptanceCriterion) (actual : Option Runtime.Num) (pass : Bool)
    (detail : Text) : AssertionResult where
  label := a.label.getD (a.probe ++ " ".toList ++ a.metric.text ++ " ".toList ++ a.op.text ++
    " ".toList ++ Runtime.toText a.value)
  probe := a.probe
  metric := a.metric
  op := a.op
  target := a.value
  tol := a.tol
  actual := actual
  pass := pass
  distance := actual.map fun v => Runtime.sub v a.value
  detail := detail

/-- A criterion that is not met because nothing was measured. -/
def unmeasured (a : AcceptanceCriterion) (detail : Text) : AssertionResult :=
  a.result none false detail

/-- Why there is no number of the metric. -/
def notDeterminable (a : AcceptanceCriterion) : Text :=
  match a.metric with
  | .cutoff => a.quantity ++ (" not determinable — use an AC analysis (\"type\":\"ac\") on a source " ++
      "declared \"AC 1\" and widen the sweep so |H| crosses −3 dB exactly once around the corner").toList
  | .thd => a.quantity ++ (" not determinable — needs a \"tran\" analysis with a \"fourier\" " ++
      "request on this probe").toList
  | _ => a.quantity ++ (" not determinable — needs an \"op\" analysis with a \"tf\" request to " ++
      "this probe").toList

end AcceptanceCriterion

/-- `byKey`. -/
def byKey (measurements : List SimMeasurement) : Map Text SimMeasurement :=
  Map.fill (fun m => matchKey m.node) id measurements []

/-- The verdict of a criterion bound to a measurement. -/
def boundVerdict (m : SimMeasurement) (a : AcceptanceCriterion) : AssertionResult :=
  match measuredValue m a with
  | none => a.unmeasured a.notDeterminable
  | some measured =>
    if Runtime.isFinite measured then
      let pass := compareAssertion measured a.op a.value a.tol
      let actual := shownValue a.metric measured
      a.result (some actual) pass (a.quantity ++ " = ".toList ++ Runtime.toText actual ++ a.mark pass)
    else
      a.unmeasured (a.quantity ++
        " not measurable — the probe's series had no finite samples (empty / all-NaN)".toList)

/-- The verdict of a criterion that names ground. -/
def groundVerdict (a : AcceptanceCriterion) : AssertionResult :=
  if a.metric.isVoltageMetric then
    let pass := compareAssertion (Runtime.lit 0 0) a.op a.value a.tol
    a.result (some (Runtime.lit 0 0)) pass
      (a.quantity ++ " = 0 — the ground reference, derived not measured".toList ++ a.mark pass)
  else
    a.unmeasured ("\"".toList ++ a.probe ++ "\" names the ground reference — ".toList ++
      a.metric.text ++ " is not defined for it".toList)

/-- The verdict of one criterion. -/
def evaluateAssertion (measurements : List SimMeasurement) (simOk : Bool)
    (resolver : Option ProbeResolver) (a : AcceptanceCriterion) : AssertionResult :=
  let key := matchKey a.probe resolver
  if simOk && !measurements.isEmpty && resolver.isSome && key = groundKey then groundVerdict a
  else if simOk && resolver.isSome && key = signAmbiguousKey then
    a.unmeasured ("\"".toList ++ a.probe ++ ("\" measures ground MINUS a node, which is the " ++
      "negative of a node voltage — write the operands the other way round " ++
      "(e.g. \"v(out,gnd)\") so the sign is unambiguous").toList)
  else
    match if simOk then (byKey measurements).get? key else none with
    | none =>
      a.unmeasured (if simOk then
        "probe \"".toList ++ a.probe ++ "\" not found in simulation output".toList
      else "simulation did not produce results".toList)
    | some m => boundVerdict m a

def evaluateAssertions (measurements : List SimMeasurement)
    (assertions : List AcceptanceCriterion) (simOk : Bool) (circuit : ProbeSource) :
    List AssertionResult :=
  assertions.map (evaluateAssertion measurements simOk (toResolver circuit))

/-! ## Evidence -/

theorem mem_byKey {measurements : List SimMeasurement} {key : Text} {m : SimMeasurement}
    (h : (byKey measurements).get? key = some m) :
    m ∈ measurements ∧ matchKey m.node = key := by
  rcases Map.mem_fill (Map.mem_of_get? h) with ⟨m', hm', he⟩ | hnone
  · obtain ⟨rfl, rfl⟩ := Prod.mk.inj he
    exact ⟨hm', rfl⟩
  · exact absurd hnone List.not_mem_nil

/-- A key made of sanitized arguments has no NUL in it. -/
theorem nul_notMem_nodeKey (probe : Text) (resolver : Option ProbeResolver) :
    Char.ofNat 0 ∉ nodeKey probe resolver := by
  unfold nodeKey
  dsimp only
  split_ifs
  · exact List.not_mem_nil
  · intro h
    rcases mem_join h with h | ⟨x, hx, h⟩
    · exact absurd h (by decide)
    · obtain ⟨p, -, rfl⟩ := List.mem_map.mp hx
      rw [Runtime.lower_of_isWord (isWord_sanitizeNodeName _)] at h
      obtain ⟨c, hc, he⟩ := List.mem_map.mp h
      have hword := isWord_toLower (isWord_sanitizeNodeName _ c hc)
      rw [he] at hword
      exact absurd hword (by decide)

/-- A probe that names ground alone, and no current. -/
def NamesGround (resolver : Option ProbeResolver) (probe : Text) : Prop :=
  isCurrentProbe probe = false ∧ ∃ r, resolver = some r ∧ namesGroundOnly probe r = true

/-- Only such a probe has the key of ground. -/
theorem namesGround_of_key {probe : Text} {resolver : Option ProbeResolver}
    (h : matchKey probe resolver = groundKey) : NamesGround resolver probe := by
  unfold matchKey at h
  dsimp only at h
  split_ifs at h with hcurrent hground hempty
  · have hhead : some 'i' = some 'v' := congrArg List.head? h
    exact absurd hhead (by decide)
  · rw [Bool.not_eq_true] at hcurrent
    cases resolver with
    | none => exact absurd hground Bool.false_ne_true
    | some r => exact ⟨hcurrent, r, rfl, hground⟩
  · exact absurd h (by decide)
  · have hnul : Char.ofNat 0 ∈ "v:".toList ++ nodeKey probe resolver := by
      rw [h]
      decide
    rcases List.mem_append.mp hnul with hnul | hnul
    · exact absurd hnul (by decide)
    · exact absurd hnul (nul_notMem_nodeKey probe resolver)

/-- What a passing verdict on a criterion rests on: the definition of ground, or a finite number
of a measurement that has the key of the probe. -/
def Evidence (measurements : List SimMeasurement) (resolver : Option ProbeResolver)
    (a : AcceptanceCriterion) : Prop :=
  (NamesGround resolver a.probe ∧ a.metric.isVoltageMetric = true ∧
      compareAssertion (Runtime.lit 0 0) a.op a.value a.tol = true) ∨
    ∃ m ∈ measurements, matchKey m.node = matchKey a.probe resolver ∧
      ∃ measured, measuredValue m a = some measured ∧ Runtime.isFinite measured = true ∧
        compareAssertion measured a.op a.value a.tol = true

/-- A verdict without a number fails. -/
def AssertionResult.Sound (r : AssertionResult) : Prop := r.actual = none → r.pass = false

theorem unmeasured_sound (a : AcceptanceCriterion) (detail : Text) :
    (a.unmeasured detail).Sound ∧ (a.unmeasured detail).pass = false :=
  ⟨fun _ => rfl, rfl⟩

theorem boundVerdict_evidence (m : SimMeasurement) (a : AcceptanceCriterion) :
    (boundVerdict m a).Sound ∧ ((boundVerdict m a).pass = true →
      ∃ measured, measuredValue m a = some measured ∧ Runtime.isFinite measured = true ∧
        compareAssertion measured a.op a.value a.tol = true) := by
  unfold boundVerdict
  cases hmeasured : measuredValue m a with
  | none => exact ⟨fun _ => rfl, fun h => absurd h Bool.false_ne_true⟩
  | some measured =>
    dsimp only
    split_ifs with hfinite
    · exact ⟨fun h => absurd h (Option.some_ne_none _), fun h => ⟨measured, rfl, hfinite, h⟩⟩
    · exact ⟨fun _ => rfl, fun h => absurd h Bool.false_ne_true⟩

theorem groundVerdict_evidence (a : AcceptanceCriterion) :
    (groundVerdict a).Sound ∧ ((groundVerdict a).pass = true →
      a.metric.isVoltageMetric = true ∧
        compareAssertion (Runtime.lit 0 0) a.op a.value a.tol = true) := by
  unfold groundVerdict
  split_ifs with hmetric
  · exact ⟨fun h => absurd h (Option.some_ne_none _), fun h => ⟨hmetric, h⟩⟩
  · exact ⟨fun _ => rfl, fun h => absurd h Bool.false_ne_true⟩

theorem evaluateAssertion_evidence (measurements : List SimMeasurement) (simOk : Bool)
    (resolver : Option ProbeResolver) (a : AcceptanceCriterion) :
    (evaluateAssertion measurements simOk resolver a).Sound ∧
      ((evaluateAssertion measurements simOk resolver a).pass = true →
        simOk = true ∧ measurements ≠ [] ∧ Evidence measurements resolver a) := by
  unfold evaluateAssertion
  dsimp only
  split
  · rename_i hground
    simp only [Bool.and_eq_true, decide_eq_true_eq] at hground
    obtain ⟨⟨⟨hok, hsome⟩, -⟩, hkey⟩ := hground
    refine ⟨(groundVerdict_evidence a).1, fun h => ⟨hok, ?_, Or.inl ⟨?_, ?_⟩⟩⟩
    · rintro rfl
      exact absurd hsome (by simp)
    · exact namesGround_of_key hkey
    · exact (groundVerdict_evidence a).2 h
  · split
    · exact ⟨fun _ => rfl, fun h => absurd h Bool.false_ne_true⟩
    · cases hget : (if simOk = true then (byKey measurements).get? (matchKey a.probe resolver)
          else none) with
      | none => exact ⟨fun _ => rfl, fun h => absurd h Bool.false_ne_true⟩
      | some m =>
        cases simOk with
        | false => exact absurd hget (by simp)
        | true =>
          obtain ⟨hm, hkey⟩ := mem_byKey hget
          exact ⟨(boundVerdict_evidence m a).1, fun h => ⟨rfl, List.ne_nil_of_mem hm, Or.inr
            ⟨m, hm, hkey, (boundVerdict_evidence m a).2 h⟩⟩⟩

section

variable {K : Type} [Field K] [LinearOrder K] [IsStrictOrderedRing K] {value : Runtime.Num → K}

/-- A passing criterion on the current of one measurement compares a magnitude of it. -/
theorem current_pass {m : SimMeasurement} {a : AcceptanceCriterion} {simOk : Bool}
    {circuit : ProbeSource} {r : AssertionResult} (hcurrent : isCurrentProbe a.probe = true)
    (hr : r ∈ evaluateAssertions [m] [a] simOk circuit) (hpass : r.pass = true)
    (hmetric : a.metric.isVoltageMetric = true) :
    ∃ measured, m.source.magnitude a.metric = some measured ∧
      compareAssertion measured a.op a.value a.tol = true := by
  obtain rfl := List.mem_singleton.mp hr
  obtain ⟨-, -, hevidence⟩ := (evaluateAssertion_evidence [m] simOk (toResolver circuit) a).2 hpass
  rcases hevidence with ⟨⟨hvoltage, -⟩, -⟩ | ⟨m', hm', -, measured, hvalue, -, hcompare⟩
  · rw [hcurrent] at hvoltage
    exact absurd hvoltage.symm Bool.false_ne_true
  · obtain rfl := List.mem_singleton.mp hm'
    refine ⟨measured, ?_, hcompare⟩
    unfold measuredValue at hvalue
    cases hm : a.metric <;> rw [hm] at hvalue hmetric
    case cutoff | thd | gain => exact absurd hmetric Bool.false_ne_true
    all_goals exact (if_pos hcurrent).symm.trans hvalue

/-- No sample passes the peak of the series. -/
theorem abs_le_peak (hnum : SignedNumbers value) {points : List (DataPoint Runtime.Num)}
    {s : Summary} {lo hi y : Runtime.Num} (h : Extremes value points s lo hi)
    (hy : IsSample points y) :
    Runtime.le (Runtime.abs y) (Runtime.max (Runtime.abs lo) (Runtime.abs hi)) = true := by
  have hlo := hnum.abs h.lo_sample.1
  have hhi := hnum.abs h.hi_sample.1
  have habs := hnum.abs hy.1
  have hmax := hnum.toOrderedNumbers.max hlo.1 hhi.1
  have hfinite : Runtime.isFinite (Runtime.max (Runtime.abs lo) (Runtime.abs hi)) = true := by
    rcases hmax.1 with heq | heq
    · rw [heq]
      exact hlo.1
    · rw [heq]
      exact hhi.1
  rw [hnum.toOrderedNumbers.le_iff habs.1 hfinite, habs.2, hmax.2, hlo.2, hhi.2]
  exact abs_le_max_abs_abs (h.between y hy).1 (h.between y hy).2

/-- The peak is the magnitude of a sample. -/
theorem exists_peak (hnum : SignedNumbers value) {points : List (DataPoint Runtime.Num)}
    {s : Summary} {lo hi : Runtime.Num} (h : Extremes value points s lo hi) :
    ∃ y, IsSample points y ∧
      Runtime.max (Runtime.abs lo) (Runtime.abs hi) = Runtime.abs y := by
  rcases (hnum.toOrderedNumbers.max (hnum.abs h.lo_sample.1).1 (hnum.abs h.hi_sample.1).1).1
    with heq | heq
  · exact ⟨lo, h.lo_sample, heq⟩
  · exact ⟨hi, h.hi_sample, heq⟩

omit [Field K] [IsStrictOrderedRing K] in
/-- Of a series with a sample, a current criterion reads the peak for either extreme. -/
theorem summarizeSeries_peak (sqrt : Runtime.Num → Runtime.Num) (nan : Runtime.Num)
    (s : DataSeries Runtime.Num) (analysisType : Option Text) {lo hi : Runtime.Num}
    (h : Extremes value s.points (Summary.of nan s.points) lo hi) {metric : Metric}
    (hmetric : metric = .min ∨ metric = .max) :
    (summarizeSeries sqrt nan s analysisType).source.magnitude metric =
      some (Runtime.max (Runtime.abs lo) (Runtime.abs hi)) := by
  rw [summarizeSeries, h.rawStats sqrt nan]
  rcases hmetric with rfl | rfl
  · rfl
  · rfl

/-- A current verdict bounds the peak of a series: a passing `max <= T` bounds every magnitude, and
a passing `min >= T` says that some sample reaches the magnitude. -/
theorem current_verdict_peak (hnum : SignedNumbers value) (sqrt : Runtime.Num → Runtime.Num)
    (nan : Runtime.Num) (s : DataSeries Runtime.Num) (analysisType : Option Text)
    (hne : s.points ≠ []) (hfinite : ∀ p ∈ s.points, Runtime.isFinite p.y = true)
    (a : AcceptanceCriterion) (hcurrent : isCurrentProbe a.probe = true) (simOk : Bool)
    (circuit : ProbeSource) (r : AssertionResult)
    (hr : r ∈ evaluateAssertions [summarizeSeries sqrt nan s analysisType] [a] simOk circuit)
    (hpass : r.pass = true) :
    (a.metric = .max → a.op = .lte →
      ∀ p ∈ s.points, Runtime.le (Runtime.abs p.y) a.value = true) ∧
    (a.metric = .min → a.op = .gte →
      ∃ p ∈ s.points, Runtime.le a.value (Runtime.abs p.y) = true) := by
  have hsample : ∀ p ∈ s.points, IsSample s.points p.y := fun p hp => ⟨hfinite p hp, p, hp, rfl⟩
  obtain ⟨p, hp⟩ := List.exists_mem_of_ne_nil _ hne
  rcases of_extremes hnum.toOrderedNumbers nan s.points with h | ⟨lo, hi, h⟩
  · exact absurd (hsample p hp) (h.none _)
  · constructor
    · intro hmax hop q hq
      obtain ⟨measured, hvalue, hcompare⟩ := current_pass hcurrent hr hpass (hmax ▸ rfl)
      rw [summarizeSeries_peak sqrt nan s analysisType h (Or.inr hmax)] at hvalue
      obtain rfl := Option.some.inj hvalue
      rw [hop] at hcompare
      exact hnum.le_trans _ _ _ (abs_le_peak hnum h (hsample q hq)) hcompare
    · intro hmin hop
      obtain ⟨measured, hvalue, hcompare⟩ := current_pass hcurrent hr hpass (hmin ▸ rfl)
      rw [summarizeSeries_peak sqrt nan s analysisType h (Or.inl hmin)] at hvalue
      obtain rfl := Option.some.inj hvalue
      obtain ⟨y, ⟨-, q, hq, rfl⟩, hpeak⟩ := exists_peak hnum h
      rw [hop, hpeak] at hcompare
      exact ⟨q, hq, hcompare⟩

end

end

/-- A current that swings to minus five and rests at a tenth. -/
def swingSeries : DataSeries Rat := { name := "@r1[i]".toList, points := [⟨0, -5⟩, ⟨1, 1 / 10⟩] }

/-- The current of `R1` as a criterion, against three. -/
def swingCriterion (metric : Metric) (op : Comparison) : AcceptanceCriterion :=
  { probe := "i(R1)".toList, metric := metric, op := op, value := (3 : Rat) }

/-- A passing `min >= 3` over a sample of a tenth. -/
theorem min_verdict_misses_sample :
    isCurrentProbe (swingCriterion .min .gte).probe = true ∧
    (∀ p ∈ swingSeries.points, Runtime.isFinite p.y = true) ∧
    (evaluateAssertions [summarizeSeries id (0 : Rat) swingSeries] [swingCriterion .min .gte] true
      .absent).map AssertionResult.pass = [true] ∧
    ∃ p ∈ swingSeries.points, Runtime.le (3 : Rat) (Runtime.abs p.y) = false := by
  refine ⟨by decide, fun _ _ => rfl, by decide +kernel, ⟨1, 1 / 10⟩,
    List.mem_cons_of_mem _ List.mem_cons_self, by decide +kernel⟩

theorem current_verdict_peak_swing :
    ∃ p ∈ swingSeries.points, Runtime.le (3 : Rat) (Runtime.abs p.y) = true := by
  have hpass : ∀ r ∈ evaluateAssertions [summarizeSeries id (0 : Rat) swingSeries]
      [swingCriterion .min .gte] true .absent, r.pass = true := by
    decide +kernel
  exact (current_verdict_peak exactNumbers_exact.toSigned id (0 : Rat) swingSeries none
    (List.cons_ne_nil _ _) (fun _ _ => rfl) (swingCriterion .min .gte) (by decide) true .absent _
    (List.mem_cons_self) (hpass _ List.mem_cons_self)).2 rfl rfl

end CircuitForge
