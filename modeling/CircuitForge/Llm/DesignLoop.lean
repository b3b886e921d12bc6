/-
The design loop: `runDesignLoop` of `llm-core/src/design-core.ts`.

A design is generated, checked, simulated and fixed, for so many rounds at most.  The language
model, the job queue and the catalog are fields of `DesignDeps` and may answer or throw as they
like; the rule check, the generator and the verdicts are those of the core package.
-/
import CircuitForge.Analysis.Coverage
import CircuitForge.Erc.Checker
import CircuitForge.Js.Effects
import CircuitForge.Netlist.Generator

namespace CircuitForge.Design

open Js Effects

variable [Runtime]

/-! ## What the outside answers -/

/-- `GenerateCircuitResult`. -/
structure Generation where
  circuit : CircuitJson
  analysisConfig : AnalysisConfig
  explanation : Option Text := none
  acceptanceCriteria : Option (List AcceptanceCriterion) := none

/-- The `status` of a job that is polled to its end. -/
inductive RunStatus where
  | succeeded | failed | timedOut | canceled | pollTimeout
  deriving DecidableEq

/-- `metrics.convergence`. -/
structure Convergence where
  diagnosis : Option Text
  triedRemedies : Option (List Text)

/-- The `metrics` of a job, as far as the loop reads them. -/
structure JobMetrics where
  pointsCount : Option Runtime.Num := none
  /-- `failureClass === 'infra'`. -/
  infra : Bool := false
  convergence : Option Convergence := none

structure JobStatus where
  status : RunStatus
  metrics : Option JobMetrics := none

/-- What `getResult` answers. -/
structure JobResult where
  /-- `metrics?.pointsCount`. -/
  metricsPoints : Option Runtime.Num := none
  /-- `result?.meta?.pointsCount`. -/
  resultPoints : Option Runtime.Num := none
  /-- `result?.series`. -/
  series : Option (List (DataSeries Runtime.Num)) := none
  fourier : List FourierResult := []
  transferFunction : Option TransferFunctionResult := none
  error : Option Text := none

/-- What the fix is asked for; the wording is left to the model. -/
inductive Problem where
  | rules (issues : List ErcIssue)
  | netlist (e : CircuitForge.Thrown)
  | simulation (status : RunStatus) (error : Option Text) (convergence : Option Convergence)
  | specification (failed : List AssertionResult)
  | coverage (uncovered : List SpecDimension)

/-- `DesignLoopInput`. -/
structure DesignLoopInput where
  prompt : Text
  constraints : Option Text := none
  maxRounds : Option Int := none
  seedCircuit : Option CircuitJson := none
  seedAnalysisConfig : Option AnalysisConfig := none
  seedCriteria : Option (List AcceptanceCriterion) := none
  seedExplanation : Option Text := none

/-- `DesignDeps`, with the calls of the language model, the clock and `Math`. -/
structure DesignDeps where
  World : Type
  /-- The yield report. -/
  Report : Type
  /-- `isAborted`; where it is not given it answers no. -/
  isAborted : World → Except Text Bool × World
  generateCircuit : Text → Option Text → World → Except Text Generation × World
  fixCircuit : CircuitJson → AnalysisConfig → Problem → World → Except Text Generation × World
  createQuickSim : Text → AnalysisConfig → World → Except Text Text × World
  pollJob : Text → World → Except Text JobStatus × World
  getResult : Text → World → Except Text JobResult × World
  /-- `!!ground.grounding()`. -/
  grounding : Bool
  /-- Fills in the sourcing of the parts, which no other function reads. -/
  enrichSourcing : CircuitJson → World → Except Text Unit × World
  /-- `runYieldAnalysis`, which does not throw. -/
  runYieldAnalysis : CircuitJson → AnalysisConfig → List AcceptanceCriterion → World →
    Option Report × World
  isIntentfulError : Text → Bool
  /-- The clock of the deck's header. -/
  clock : World → Timestamp
  /-- `Math.sqrt`. -/
  sqrt : Runtime.Num → Runtime.Num
  /-- `Number.NaN`. -/
  nan : Runtime.Num

/-! ## What is kept of a run -/

/-- `RoundRecord.status`. -/
inductive RoundStatus where
  | ercError | netlistError | infraError
  | ran (status : RunStatus)
  deriving DecidableEq

/-- `RoundRecord`, less its note. -/
structure RoundRecord where
  round : Nat
  status : RoundStatus
  pointsCount : Runtime.Num := Runtime.lit 0 0
  jobId : Option Text := none

/-- `DesignResult`, less the texts and the scope that are derived from it. -/
structure DesignResult (Report : Type) where
  ok : Bool
  verified : Bool := false
  inconclusive : Bool := false
  circuit : CircuitJson
  analysisConfig : AnalysisConfig
  explanation : Option Text
  acceptanceCriteria : Option (List AcceptanceCriterion) := none
  assertions : Option (List AssertionResult) := none
  rounds : Nat
  history : List RoundRecord
  status : Option RoundStatus
  yield : Option Report := none

/-- A simulation whose measurements were judged, with all that went into it. -/
structure Trial where
  circuit : CircuitJson
  analysis : AnalysisConfig
  criteria : List AcceptanceCriterion
  netlist : Text
  status : RunStatus
  pointsCount : Runtime.Num
  measurements : List SimMeasurement
  assertions : List AssertionResult

/-- What a run leaves behind: the criteria each round starts with, the trials, and the rounds that
end without one because the circuit, the deck or the simulation failed. -/
inductive Event where
  | round (criteria : List AcceptanceCriterion)
  | trial (t : Trial)
  | skipped

inductive Thrown where
  | aborted
  | fault (text : Text)
  deriving DecidableEq

/-- The variables of the loop. -/
structure Loop where
  circuit : CircuitJson
  analysis : AnalysisConfig
  explanation : Option Text
  criteria : List AcceptanceCriterion
  currentProbes : List Text
  lastAssertions : List AssertionResult := []
  history : List RoundRecord := []

/-! ## Pure steps -/

/-- The probes of the current criteria. -/
def currentProbesOf (criteria : List AcceptanceCriterion) : List Text :=
  (criteria.filter fun c => isCurrentProbe c.probe).map AcceptanceCriterion.probe

/-- `key` of `mergeCriteria`. -/
def criterionKey (c : AcceptanceCriterion) : Text :=
  let probe := if isCurrentProbe c.probe then
    "i:".toList ++ (currentKey c.probe).getD (Runtime.lower c.probe) else c.probe
  join "|".toList [probe, c.metric.text, c.op.text, Runtime.toText c.value]

/-- The criteria of a fix that measure what is wanted and are new. -/
def newCriteria (wanted : List SpecDimension) : List Text → List AcceptanceCriterion →
    List AcceptanceCriterion
  | _, [] => []
  | seen, c :: rest =>
    if wanted.contains (criterionDimension c) && !seen.contains (criterionKey c) then
      c :: newCriteria wanted (criterionKey c :: seen) rest
    else newCriteria wanted seen rest

def mergeCriteria (original fixReturned : List AcceptanceCriterion)
    (required : List SpecDimension) : List AcceptanceCriterion :=
  if fixReturned.isEmpty then original
  else
    let covered := original.map criterionDimension
    match required.filter fun d => !covered.contains d with
    | [] => original
    | wanted => original ++ newCriteria wanted (original.map criterionKey) fixReturned

/-- Carries the `fourier` request over. -/
def keepFourier (prev next : AnalysisConfig) (criteria : List AcceptanceCriterion) :
    AnalysisConfig :=
  match prev, next with
  | .tran p, .tran n =>
    if criteria.any (·.metric = .thd) && p.fourier.isSome && n.fourier.isNone then
      .tran { n with fourier := p.fourier }
    else next
  | _, _ => next

/-- Carries the `tf` request over. -/
def keepTf (prev next : AnalysisConfig) (criteria : List AcceptanceCriterion) : AnalysisConfig :=
  match prev, next with
  | .op p, .op n =>
    if criteria.any (·.metric = .gain) && p.tf.isSome && n.tf.isNone then .op { n with tf := p.tf }
    else next
  | _, _ => next

def preserveMetricOverlays (prev next : AnalysisConfig) (criteria : List AcceptanceCriterion) :
    AnalysisConfig :=
  keepTf prev (keepFourier prev next criteria) criteria

/-- `pointsCount` of a round. -/
def pointsCountOf (status : JobStatus) (result : JobResult) : Runtime.Num :=
  ((status.metrics.bind JobMetrics.pointsCount).or
    (result.metricsPoints.or result.resultPoints)).getD (Runtime.lit 0 0)

def isHealthy (status : RunStatus) (pointsCount : Runtime.Num) : Bool :=
  status = .succeeded && Runtime.lt (Runtime.lit 0 0) pointsCount

def Loop.record (l : Loop) (round : Nat) (status : RoundStatus)
    (pointsCount : Runtime.Num := Runtime.lit 0 0) (jobId : Option Text := none) : Loop :=
  { l with history := l.history ++
      [{ round := round, status := status, pointsCount := pointsCount, jobId := jobId }] }

/-! ## Rounds -/

variable (deps : DesignDeps)

abbrev Run (α : Type) := Proc Thrown deps.World Event α

variable {deps} in
/-- A call of the outside. -/
def outside {α : Type} (f : deps.World → Except Text α × deps.World) : Run deps α :=
  Proc.call fun w => ((f w).1.mapError .fault, (f w).2)

def checkAbort : Run deps Unit := do
  let aborted ← outside deps.isAborted
  if aborted then Proc.throw .aborted else Proc.done ()

def applyFix (l : Loop) (problem : Problem) : Run deps Generation := do
  let fixed ← outside (deps.fixCircuit l.circuit l.analysis problem)
  Proc.done { fixed with circuit := attachGenericModels fixed.circuit }

/-- A fix that may add criteria. -/
def fixDesign (prompt : Text) (l : Loop) (problem : Problem) : Run deps Loop := do
  checkAbort deps
  let fixed ← applyFix deps l problem
  let criteria :=
    mergeCriteria l.criteria (fixed.acceptanceCriteria.getD []) (requiredDimensions prompt)
  Proc.done { l with
    circuit := fixed.circuit
    explanation := fixed.explanation
    criteria := criteria
    analysis := preserveMetricOverlays l.analysis fixed.analysisConfig criteria
    currentProbes := currentProbesOf criteria }

/-- A fix of a circuit that has no deck. -/
def fixDeck (l : Loop) (problem : Problem) : Run deps Loop := do
  let fixed ← applyFix deps l problem
  Proc.done { l with
    circuit := fixed.circuit
    analysis := fixed.analysisConfig
    explanation := fixed.explanation }

/-- How a round ends. -/
inductive Turn where
  | returns (result : DesignResult deps.Report)
  | stops (l : Loop)
  | goesOn (l : Loop)

/-- `enrichSourcing`, where the catalog is there. -/
def enrich (circuit : CircuitJson) : Run deps Unit :=
  if deps.grounding then outside (deps.enrichSourcing circuit) else Proc.done ()

def inconclusive (l : Loop) : Run deps (Turn deps) := do
  enrich deps l.circuit
  Proc.done (.returns
    { ok := false, inconclusive := true, circuit := l.circuit, analysisConfig := l.analysis
      explanation := l.explanation, rounds := l.history.length, history := l.history
      status := l.history.getLast?.map RoundRecord.status })

/-- A fix before the next round, or the end of the rounds. -/
def goOn (l : Loop) (isLast : Bool) (fix : Run deps Loop) : Run deps (Turn deps) :=
  if isLast then Proc.done (.stops l)
  else do
    let l ← fix
    Proc.done (.goesOn l)

/-- What is wrong with a round that did not succeed. -/
def problemOf (l : Loop) (status : JobStatus) (result : JobResult) (healthy : Bool)
    (uncovered : List SpecDimension) : Problem :=
  if !healthy then
    .simulation status.status result.error (status.metrics.bind JobMetrics.convergence)
  else if !l.lastAssertions.all AssertionResult.pass then
    .specification (l.lastAssertions.filter fun a => !a.pass)
  else .coverage uncovered

/-- From the verdicts of a round to its end. -/
def settle (prompt : Text) (round : Nat) (isLast : Bool) (l : Loop) (jobId : Text)
    (status : JobStatus) (result : JobResult) : Run deps (Turn deps) :=
  let pointsCount := pointsCountOf status result
  let healthy := isHealthy status.status pointsCount
  let specsMet := l.lastAssertions.all AssertionResult.pass
  let uncovered :=
    if healthy && specsMet then uncoveredRequiredDimensions prompt l.criteria else []
  let l := l.record round (.ran status.status) pointsCount (some jobId)
  if healthy && specsMet && uncovered.isEmpty then do
    enrich deps l.circuit
    let report ← Proc.call fun w =>
      (.ok (deps.runYieldAnalysis l.circuit l.analysis l.criteria w).1,
        (deps.runYieldAnalysis l.circuit l.analysis l.criteria w).2)
    Proc.done (.returns
      { ok := true, verified := !l.criteria.isEmpty, circuit := l.circuit
        analysisConfig := l.analysis, explanation := l.explanation
        acceptanceCriteria := some l.criteria, assertions := some l.lastAssertions, rounds := round
        history := l.history, status := some (.ran status.status), yield := report })
  else goOn deps l isLast
    (fixDesign deps prompt l (problemOf l status result healthy uncovered))

/-- The measurements of a run. -/
def measure (analysis : AnalysisConfig) (result : JobResult) : List SimMeasurement :=
  (result.series.getD []).map fun s =>
    summarizeSeries deps.sqrt deps.nan s (some (analysisType analysis))

/-- The trial of a run. -/
def trialOf (l : Loop) (netlist : Text) (status : JobStatus) (result : JobResult) : Trial :=
  let measurements := attachTransferFunction
    (attachFourierThd (measure deps l.analysis result) result.fourier) result.transferFunction
  { circuit := l.circuit, analysis := l.analysis, criteria := l.criteria, netlist := netlist
    status := status.status, pointsCount := pointsCountOf status result
    measurements := measurements
    assertions := evaluateAssertions measurements l.criteria true (.circuit l.circuit) }

/-- A run that came to its end. -/
def judgeRun (prompt : Text) (round : Nat) (isLast : Bool) (l : Loop) (netlist jobId : Text)
    (status : JobStatus) (result : JobResult) : Run deps (Turn deps) :=
  let pointsCount := pointsCountOf status result
  if status.status ≠ .succeeded ∧ status.metrics.any JobMetrics.infra then
    inconclusive deps (l.record round (.ran status.status) (Runtime.lit 0 0) (some jobId))
  else if isHealthy status.status pointsCount then
    if l.criteria.isEmpty then settle deps prompt round isLast l jobId status result
    else if (measure deps l.analysis result).isEmpty && (truthy result.error).isSome then
      inconclusive deps (l.record round (.ran status.status) pointsCount (some jobId))
    else do
      let t := trialOf deps l netlist status result
      Proc.note (.trial t)
      settle deps prompt round isLast { l with lastAssertions := t.assertions } jobId status result
  else do
    Proc.note .skipped
    settle deps prompt round isLast l jobId status result

/-- What comes of a job. -/
inductive Simulated where
  | ran (jobId : Text) (status : JobStatus) (result : JobResult)
  | unavailable (jobId : Text) (status : RunStatus)
  | down

def simulate (l : Loop) (netlist : Text) : Run deps Simulated :=
  Proc.catching
    (do
      let jobId ← outside (deps.createQuickSim netlist l.analysis)
      let status ← outside (deps.pollJob jobId)
      if status.status = .pollTimeout ∨ status.status = .canceled then
        Proc.done (.unavailable jobId status.status)
      else do
        let result ← outside (deps.getResult jobId)
        Proc.done (.ran jobId status result))
    fun e =>
      match e with
      | .fault text => if deps.isIntentfulError text then Proc.throw e else Proc.done .down
      | .aborted => Proc.throw e

def netlistOptions (l : Loop) : NetlistOptions :=
  if l.currentProbes.isEmpty then {} else { extraProbes := some l.currentProbes }

/-- One round. -/
def playRound (prompt : Text) (round : Nat) (isLast : Bool) (l : Loop) : Run deps (Turn deps) := do
  checkAbort deps
  Proc.note (.round l.criteria)
  if !(ercErrors l.circuit).isEmpty then do
    Proc.note .skipped
    let l := l.record round .ercError
    goOn deps l isLast (fixDesign deps prompt l (.rules (ercErrors l.circuit)))
  else do
    let now ← Proc.call fun w => (.ok (deps.clock w), w)
    match generateNetlist now l.circuit l.analysis (netlistOptions l) with
    | .error e => do
      Proc.note .skipped
      let l := l.record round .netlistError
      goOn deps l isLast (fixDeck deps l (.netlist e))
    | .ok netlist => do
      let simulated ← simulate deps l netlist
      match simulated with
      | .unavailable jobId status =>
        inconclusive deps (l.record round (.ran status) (Runtime.lit 0 0) (some jobId))
      | .down => inconclusive deps (l.record round .infraError)
      | .ran jobId status result =>
        judgeRun deps prompt round isLast l netlist jobId status result

/-- The rounds: a result, or the variables when they are used up. -/
def playRounds (prompt : Text) : Nat → Nat → Loop →
    Run deps (DesignResult deps.Report ⊕ Loop)
  | 0, _, l => Proc.done (.inr l)
  | left + 1, round, l => do
    let turn ← playRound deps prompt round (left = 0) l
    match turn with
    | .returns result => Proc.done (.inl result)
    | .stops l => Proc.done (.inr l)
    | .goesOn l => playRounds prompt left (round + 1) l

/-- The first design: the seed, or what the model generates. -/
def firstDesign (input : DesignLoopInput) : Run deps Generation :=
  match input.seedCircuit with
  | some circuit => Proc.done
    { circuit := circuit, analysisConfig := input.seedAnalysisConfig.getD (.op {})
      explanation := input.seedExplanation, acceptanceCriteria := input.seedCriteria }
  | none => outside (deps.generateCircuit input.prompt input.constraints)

/-- What the loop starts from. -/
def startLoop (input : DesignLoopInput) : Run deps Loop := do
  let gen ← firstDesign deps input
  let criteria := gen.acceptanceCriteria.getD []
  Proc.done
    { circuit := attachGenericModels gen.circuit, analysis := gen.analysisConfig
      explanation := gen.explanation, criteria := criteria
      currentProbes := currentProbesOf criteria }

/-- `maxRounds`. -/
def maxRounds (input : DesignLoopInput) : Nat := (min (max (input.maxRounds.getD 2) 1) 4).toNat

/-- The result of a design whose rounds are used up. -/
def spent (l : Loop) : DesignResult deps.Report where
  ok := false
  circuit := l.circuit
  analysisConfig := l.analysis
  explanation := l.explanation
  acceptanceCriteria := some l.criteria
  assertions := some l.lastAssertions
  rounds := l.history.length
  history := l.history
  status := l.history.getLast?.map RoundRecord.status

def runDesignLoop (input : DesignLoopInput) : Run deps (DesignResult deps.Report) := do
  checkAbort deps
  let l ← startLoop deps input
  match ← playRounds deps input.prompt (maxRounds input) 1 l with
  | .inl result => Proc.done result
  | .inr l => do
    enrich deps l.circuit
    Proc.done (spent deps l)

end CircuitForge.Design
