/-
Candidates of a design: `screenCandidate` and `selectFinalists` of `llm-core/src/design-core.ts`.

A candidate is generated and simulated once.  The screened candidates are ranked, and the best of
each topology go on.
-/
import CircuitForge.Llm.DesignLoop
import Mathlib.Data.List.Sort

namespace CircuitForge.Design

open Js Effects

section

variable [Runtime]

/-! ## Screening -/

/-- `ScreenResult`. -/
structure ScreenResult where
  circuit : CircuitJson
  analysisConfig : AnalysisConfig
  explanation : Option Text
  acceptanceCriteria : List AcceptanceCriterion
  assertions : List AssertionResult
  simHealthy : Bool
  pointsCount : Runtime.Num
  specsMet : Bool
  /-- None is `Infinity`. -/
  closeness : Option Runtime.Num
  /-- None is `'UNKNOWN'`. -/
  simStatus : Option RunStatus

/-- What the one simulation of a candidate shows. -/
structure Evidence where
  assertions : List AssertionResult := []
  simHealthy : Bool := false
  pointsCount : Runtime.Num := Runtime.lit 0 0
  simStatus : Option RunStatus := none

/-- `Math.abs(target) > 1e-12 ? … : …`. -/
def specScale (a : AssertionResult) : Runtime.Num :=
  let tiny := Runtime.lit 1 (-12)
  if Runtime.lt tiny (Runtime.abs a.target) then Runtime.abs a.target
  else
    match a.tol with
    | some tol => if Runtime.lt tiny tol then tol else Runtime.lit 1 0
    | none => Runtime.lit 1 0

def specCloseness (assertions : List AssertionResult) : Option Runtime.Num :=
  if assertions.isEmpty then none
  else
    some (assertions.foldl (fun sum a =>
      Runtime.add sum (match a.distance with
        | none => Runtime.lit 1 0
        | some distance => Runtime.div (Runtime.abs distance) (specScale a))) (Runtime.lit 0 0))

def screenSpecsMet (assertions : List AssertionResult) (prompt : Text)
    (criteria : List AcceptanceCriterion) : Bool :=
  !assertions.isEmpty && assertions.all AssertionResult.pass &&
    (uncoveredRequiredDimensions prompt criteria).isEmpty

section

variable (deps : DesignDeps)

/-- The results of a screening simulation. -/
def screenEvidence (circuit : CircuitJson) (analysis : AnalysisConfig)
    (criteria : List AcceptanceCriterion) (status : JobStatus) (result : JobResult) : Evidence :=
  let pointsCount := pointsCountOf status result
  let simHealthy := isHealthy status.status pointsCount
  let measurements := attachTransferFunction
    (attachFourierThd (measure deps analysis result) result.fourier) result.transferFunction
  { assertions :=
      if simHealthy && !criteria.isEmpty then
        evaluateAssertions measurements criteria true (.circuit circuit)
      else []
    simHealthy
    pointsCount
    simStatus := some status.status }

/-- The simulation of a candidate; what throws leaves the evidence so far. -/
def screenSimulate (circuit : CircuitJson) (analysis : AnalysisConfig)
    (criteria : List AcceptanceCriterion) : Run deps Evidence := do
  let probes := currentProbesOf criteria
  let options : NetlistOptions := if probes.isEmpty then {} else { extraProbes := some probes }
  let now ← Proc.call fun w => (.ok (deps.clock w), w)
  match generateNetlist now circuit analysis options with
  | .error _ => Proc.done {}
  | .ok netlist =>
    Proc.catching
      (do
        let jobId ← outside (deps.createQuickSim netlist analysis)
        let status ← outside (deps.pollJob jobId)
        Proc.catching
          (do
            let result ← outside (deps.getResult jobId)
            Proc.done (screenEvidence deps circuit analysis criteria status result))
          fun _ => Proc.done { simStatus := some status.status })
      fun _ => Proc.done {}

/-- `screenCandidate`. -/
def screenCandidate (input : DesignLoopInput) : Run deps ScreenResult := do
  let gen ← outside (deps.generateCircuit input.prompt input.constraints)
  let circuit := attachGenericModels gen.circuit
  let criteria := gen.acceptanceCriteria.getD []
  let evidence ← screenSimulate deps circuit gen.analysisConfig criteria
  Proc.done
    { circuit
      analysisConfig := gen.analysisConfig
      explanation := gen.explanation
      acceptanceCriteria := criteria
      assertions := evidence.assertions
      simHealthy := evidence.simHealthy
      pointsCount := evidence.pointsCount
      specsMet := screenSpecsMet evidence.assertions input.prompt criteria
      closeness := if evidence.simHealthy then specCloseness evidence.assertions else none
      simStatus := evidence.simStatus }

end

/-! ## Ranking -/

def partCount (c : CircuitJson) : Nat := (c.components.filter (·.type ≠ .ground)).length

/-- `topologyKey`. -/
def topologyKey (c : CircuitJson) : Text :=
  join [','] ((c.components.map fun x => x.type.name).insertionSort fun a b =>
    ¬ b.map Char.toNat < a.map Char.toNat) ++ '|' :: Nat.toDigits 10 c.nets.length

/-- `slack` of one verdict. -/
def slackOf (a : AssertionResult) (distance : Runtime.Num) : Runtime.Num :=
  let scale := specScale a
  match a.op with
  | .gt | .gte => Runtime.div distance scale
  | .lt | .lte => Runtime.div (Runtime.sub (Runtime.lit 0 0) distance) scale
  | .approx =>
    let tiny := Runtime.lit 1 (-12)
    let band := Runtime.max (Runtime.mul (Runtime.abs a.target) (Runtime.lit 5 (-2)))
      (Runtime.lit 1 (-9))
    let tol := match a.tol with
      | some tol => if Runtime.lt tiny tol then tol else band
      | none => band
    Runtime.div (Runtime.sub tol (Runtime.abs distance)) scale

/-- `robustnessSlack`; no verdict is `Infinity`, which is written as 0. -/
def robustnessSlack (assertions : List AssertionResult) : Runtime.Num :=
  let slacks := assertions.map fun a => match a.distance with
    | none => Runtime.lit 0 0
    | some distance => slackOf a distance
  match slacks with
  | [] => Runtime.lit 0 0
  | first :: rest =>
    let least := rest.foldl Runtime.min first
    if Runtime.isFinite least then least else Runtime.lit 0 0

/-- The sign of `a - b`; of no number, none. -/
def compareNums (a b : Runtime.Num) : Ordering :=
  let d := Runtime.sub a b
  if Runtime.lt d (Runtime.lit 0 0) then .lt
  else if Runtime.lt (Runtime.lit 0 0) d then .gt
  else .eq

/-- The sign of `a.closeness - b.closeness`. -/
def compareCloseness : Option Runtime.Num → Option Runtime.Num → Ordering
  | some a, some b => compareNums a b
  | some _, none => .lt
  | none, some _ => .gt
  | none, none => .eq

/-- The sign of `compareCandidates`. -/
def compareCandidates (a b : ScreenResult) : Ordering :=
  if a.simHealthy ≠ b.simHealthy then if a.simHealthy then .lt else .gt
  else if a.specsMet ≠ b.specsMet then if a.specsMet then .lt else .gt
  else
    let first :=
      if a.specsMet && b.specsMet then
        compareNums (robustnessSlack b.assertions) (robustnessSlack a.assertions)
      else compareCloseness a.closeness b.closeness
    if first ≠ .eq then first else compare (partCount a.circuit) (partCount b.circuit)

/-- A candidate takes the place of its topology where it is better. -/
def keepBest (best : Map Text ScreenResult) (cand : ScreenResult) : Map Text ScreenResult :=
  let key := topologyKey cand.circuit
  match best.get? key with
  | some prev => if compareCandidates cand prev = .lt then best.set key cand else best
  | none => best.set key cand

/-- The best candidate of each topology. -/
def bestByTopology (screened : List ScreenResult) : Map Text ScreenResult :=
  screened.foldl keepBest []

def selectFinalists (screened : List ScreenResult) (k : Int) : List ScreenResult :=
  (((bestByTopology screened).map Prod.snd).insertionSort
    fun a b => compareCandidates a b ≠ .gt).take (max 1 k).toNat

/-! ## The finalists -/

omit [Runtime] in
theorem set_ne_nil {κ β : Type} [DecidableEq κ] (m : Map κ β) (k : κ) (v : β) :
    m.set k v ≠ [] :=
  List.ne_nil_of_mem (Map.mem_of_get? (Map.get?_set_self m k v))

omit [Runtime] in
theorem length_set_le {κ β : Type} [DecidableEq κ] (m : Map κ β) (k : κ) (v : β) :
    (m.set k v).length ≤ m.length + 1 := by
  have hkeys := congrArg List.length (Map.keys_set m k v)
  rw [List.length_map] at hkeys
  rw [hkeys]
  split
  · rw [List.length_map]
    exact Nat.le_succ _
  · rw [List.length_append, List.length_map]
    exact Nat.le_refl _

theorem length_keepBest_le (best : Map Text ScreenResult) (cand : ScreenResult) :
    (keepBest best cand).length ≤ best.length + 1 := by
  unfold keepBest
  dsimp only
  split
  · split
    · exact length_set_le _ _ _
    · exact Nat.le_succ _
  · exact length_set_le _ _ _

theorem length_bestByTopology_le (screened : List ScreenResult) :
    (bestByTopology screened).length ≤ screened.length := by
  induction screened using List.reverseRecOn with
  | nil => exact Nat.le_refl 0
  | append_singleton screened cand ih =>
    rw [bestByTopology, List.foldl_concat, List.length_append]
    exact (length_keepBest_le _ _).trans (Nat.succ_le_succ ih)

theorem bestByTopology_ne_nil {screened : List ScreenResult} (h : screened ≠ []) :
    bestByTopology screened ≠ [] := by
  obtain ⟨front, last, rfl⟩ := (List.eq_nil_or_concat screened).resolve_left h
  rw [bestByTopology, List.concat_eq_append, List.foldl_concat, keepBest]
  split
  · rename_i hget
    split
    · exact set_ne_nil _ _ _
    · exact List.ne_nil_of_mem (Map.mem_of_get? hget)
  · exact set_ne_nil _ _ _

/-- Candidates of different topologies are all kept. -/
theorem bestByTopology_of_nodup {screened : List ScreenResult}
    (h : (screened.map fun r => topologyKey r.circuit).Nodup) :
    bestByTopology screened = screened.map fun r => (topologyKey r.circuit, r) := by
  induction screened using List.reverseRecOn with
  | nil => rfl
  | append_singleton screened cand ih =>
    rw [List.map_append, List.map_singleton, List.nodup_append_comm, List.singleton_append,
      List.nodup_cons] at h
    have hkeys : topologyKey cand.circuit ∉ (bestByTopology screened).map Prod.fst := by
      rw [ih h.2, List.map_map]
      exact h.1
    rw [bestByTopology, List.foldl_concat]
    change keepBest (bestByTopology screened) cand = _
    rw [keepBest, Map.get?_eq_none_iff.mpr hkeys, List.map_append, ← ih h.2]
    exact Map.set_of_notMem hkeys cand

/-- `selectFinalists` is a sort of the best candidates that is cut off. -/
theorem length_selectFinalists (screened : List ScreenResult) (k : Int) :
    (selectFinalists screened k).length = min (max 1 k).toNat (bestByTopology screened).length := by
  rw [selectFinalists, List.length_take, List.length_insertionSort, List.length_map]

theorem selectFinalists_ne_nil {screened : List ScreenResult} (h : screened ≠ []) (k : Int) :
    selectFinalists screened k ≠ [] := by
  have hbest := List.length_pos_iff.mpr (bestByTopology_ne_nil h)
  rw [← List.length_pos_iff, length_selectFinalists]
  omega

/-- A finalist is one of the best candidates. -/
theorem mem_of_mem_selectFinalists {screened : List ScreenResult} {k : Int} {r : ScreenResult}
    (h : r ∈ selectFinalists screened k) : ∃ key, (key, r) ∈ bestByTopology screened := by
  have hsorted := (List.mem_insertionSort _).mp (List.mem_of_mem_take h)
  obtain ⟨e, he, rfl⟩ := List.mem_map.mp hsorted
  exact ⟨e.1, he⟩

end

end CircuitForge.Design
