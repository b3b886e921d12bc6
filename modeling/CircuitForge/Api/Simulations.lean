/-
Simulations: creating them (`apps/api/src/simulation/simulation.service.ts`), running them
(`apps/worker-sim/src/simulation/claim.ts`, `processor.ts` and `outcome.ts`), and the cancel
and the retry of an administrator (`apps/api/src/admin/admin.service.ts`).
-/
import CircuitForge.Api.Jobs

namespace CircuitForge.Jobs

open Js Requests

/-! ## Creation -/

/-- The row is stored and then the job, under an id of the queue's own. -/
def createSimulation (guards : List (Check × String)) : Request Reply := do
  match ← checks guards with
  | some message => pure (.refused message)
  | none =>
    let jobId ← ask (.insert .simulation)
    match ← ask (.add .simulation none) with
    | some error => pure (.threw error)
    | none => pure (.created jobId)

def fromVersionGuards (versionId : String) : List (Check × String) :=
  [(.version, ""), (.analysis, "Invalid analysis config: "),
    (.circuit, "Version " ++ versionId ++ " has an invalid circuit: "), (.modelAssets, ""),
    (.netlist, "Netlist generation failed: "), (.quota, "")]

/-- `SimulationService.createFromVersion`. -/
def createFromVersion (versionId : String) : Request Reply :=
  createSimulation (fromVersionGuards versionId)

def quickSimGuards : List (Check × String) :=
  [(.organization, "No organization found for user"), (.modelAssets, ""), (.quota, "")]

/-- `SimulationService.createQuickSim`. -/
def createQuickSim : Request Reply := createSimulation quickSimGuards

/-- The creators of a batch differ in the name of their circuit. -/
def batchGuards (name : String) : List (Check × String) :=
  [(.organization, "No organization found for user"),
    (.circuit, "Invalid circuit for " ++ name ++ ": "),
    (.analysis, "Invalid analysis config for " ++ name ++ ": "), (.quota, "")]

/-- `SimulationService.createMonteCarloJob`. -/
def createMonteCarloJob : Request Reply := createSimulation (batchGuards "Monte-Carlo")

/-- `SimulationService.createCornerJob`. -/
def createCornerJob : Request Reply := createSimulation (batchGuards "worst-case")

/-- `SimulationService.createTempCornerJob`. -/
def createTempCornerJob : Request Reply := createSimulation (batchGuards "temperature-corner")

/-- `SimulationService.createSupplyCornerJob`. -/
def createSupplyCornerJob : Request Reply := createSimulation (batchGuards "supply-corner")

/-! ## The worker -/

/-- A job as it is taken off the queue.  The mode is one whose payload is there. -/
structure SimulationJob where
  jobId : Text
  mode : Option Mode := none
  modelAssets : List Text := []
  attemptsMade : Nat := 0
  attempts : Option Nat := none

def SimulationJob.key (job : SimulationJob) : Key := (.simulation, job.jobId)

def isFinalAttempt (attemptsMade : Nat) (attempts : Option Nat) : Bool :=
  attempts.getD 1 ≤ attemptsMade + 1

inductive JobAction where
  | success
  | fault
  | retry
  | terminalInfra
deriving DecidableEq

def classifyJobOutcome (result : SimulationJobResult) (finalAttempt : Bool) : JobAction :=
  if result.success ∧ result.result.isSome then .success
  else if result.infra = false then .fault
  else if finalAttempt then .terminalInfra
  else .retry

def deriveFailureStatus (result : SimulationJobResult) : Status :=
  if result.infra = false ∧ result.timedOut = true then .timedOut else .failed

def buildFailureMetrics (result : SimulationJobResult) : SimJobMetrics where
  runtimeMs := result.runtimeMs
  error := result.error
  failureClass := some (if result.infra then .infra else .sim)
  convergence := result.convergence

def buildSuccessMetrics (result : SimulationJobResult) (storedResultBytes : Nat) :
    SimJobMetrics where
  runtimeMs := result.runtimeMs
  outputSizeBytes := result.outputSizeBytes
  storedResultBytes := storedResultBytes
  pointsCount := result.result.map SimulationResult.pointsCount
  convergence := result.convergence

inductive ClaimOutcome where
  /-- With how often the status was written by then. -/
  | claimed (seen : Nat)
  | terminal
  | orphaned

/-- `claimSimulationJob`: a row that runs can be claimed again. -/
def claimSimulationJob (jobId : Text) : Request ClaimOutcome := do
  let now ← ask .now
  match ← ask (.claim (.simulation, jobId) [.queued, .running] now) with
  | some seen => pure (.claimed seen)
  | none =>
    match ← ask (.find (.simulation, jobId)) with
    | some _ => pure .terminal
    | none => pure .orphaned

/-- What an attempt can throw. -/
inductive Thrown where
  | retryableInfra (message : Text)
  | recordNotFound
  | error (message : Text)

def recordNotFound : Text := "Record to update not found".toList

def Thrown.message : Thrown → Text
  | .retryableInfra message => message
  | .recordNotFound => Jobs.recordNotFound
  | .error message => message

/-- The row of an attempt gets its outcome, by id. -/
def writeOutcome (key : Key) (patch : Patch) (seen : Nat) : Request (Except Thrown Unit) := do
  match ← ask (.update key patch seen false) with
  | some _ => pure (.ok ())
  | none => pure (.error .recordNotFound)

def byteLength (s : Text) : Nat := s.foldl (fun n c => n + c.utf8Size) 0

/-- A larger result goes to the object store. -/
def maxStoredResult : Nat := 1024 * 1024

/-- `handleSuccess`. -/
def handleSuccess (key : Key) (result : SimulationJobResult) (seen : Nat) :
    Request (Except Thrown Unit) := do
  let resultJson := result.result.map SimulationResult.json
  let resultSize := byteLength (resultJson.getD "null".toList)
  let write := fun (stored s3Key : Option Text) => do
    let now ← ask .now
    writeOutcome key
      ⟨.succeeded, fun j =>
        { j with
          stdout := some (result.stdout.take 10000)
          stderr := some (result.stderr.take 10000)
          result := stored
          resultS3Key := s3Key.or j.resultS3Key
          finishedAt := some now
          metrics := some (buildSuccessMetrics result resultSize) }⟩ seen
  if resultJson.isSome ∧ maxStoredResult < resultSize then do
    match ← ask (.upload (resultJson.getD [])) with
    | .error message => pure (.error (.error message))
    | .ok s3Key => write none (some s3Key)
  else write resultJson none

/-- `handleFailure`. -/
def handleFailure (key : Key) (result : SimulationJobResult) (seen : Nat) :
    Request (Except Thrown Unit) := do
  let now ← ask .now
  writeOutcome key
    ⟨deriveFailureStatus result, fun j =>
      { j with
        stdout := some (result.stdout.take 10000)
        stderr := some ((result.stderr ++ '\n' :: result.error.getD []).take 10000)
        finishedAt := some now
        metrics := some (buildFailureMetrics result) }⟩ seen

/-- `handleMonteCarlo`, `handleCorner`, `handleTempCorner` and `handleSupplyCorner`: a batch that
fails is not run again. -/
def handleBatch (key : Key) (mode : Mode) (seen : Nat) : Request (Except Thrown Unit) := do
  let fail := fun (message : Text) => do
    let now ← ask .now
    writeOutcome key
      ⟨.failed, fun j =>
        { j with
          finishedAt := some now
          metrics := some { error := some message, failureClass := some .infra } }⟩ seen
  match ← ask (.batch key mode) with
  | .error message => fail message
  | .ok (runtimeMs, summary) => do
    let now ← ask .now
    match ← writeOutcome key
      ⟨.succeeded, fun j =>
        { j with
          finishedAt := some now
          metrics := some { runtimeMs := some runtimeMs, batch := some (mode, summary) } }⟩ seen with
    | .ok _ => pure (.ok ())
    | .error thrown => fail thrown.message

/-- The model files of a simulation. -/
def downloads : List Text → Request (Option Text)
  | [] => pure none
  | s3Key :: rest => do
    match ← ask (.download s3Key) with
    | some message => pure (some message)
    | none => downloads rest

/-- What the result of a run means for the row. -/
def actOn (key : Key) (result : SimulationJobResult) (seen : Nat) :
    JobAction → Request (Except Thrown Unit)
  | .success => handleSuccess key result seen
  | .fault => handleFailure key result seen
  | .terminalInfra => do
    match ← handleFailure key result seen with
    | .error thrown => pure (.error thrown)
    | .ok _ =>
      pure (.error (.retryableInfra
        (result.error.getD "simulation infrastructure failure".toList)))
  | .retry =>
    pure (.error (.retryableInfra
      (result.error.getD "simulation infrastructure failure (will retry)".toList)))

/-- What an attempt does once it has claimed its row. -/
def runClaimed (job : SimulationJob) (finalAttempt : Bool) (seen : Nat) :
    Request (Except Thrown Unit) := do
  match ← downloads job.modelAssets with
  | some message => pure (.error (.error message))
  | none =>
    match job.mode with
    | some mode => handleBatch job.key mode seen
    | none =>
      match ← ask (.simulate job.key) with
      | .error message => pure (.error (.error message))
      | .ok result => actOn job.key result seen (classifyJobOutcome result finalAttempt)

/-- The attempt throws, and BullMQ runs the job again while attempts remain. -/
def rethrow (key : Key) (finalAttempt : Bool) (seen : Nat) (message : Text) : Request Reply :=
  if finalAttempt then pure (.threw message)
  else do
    ask (.retryLater key seen)
    pure (.threw message)

/-- `processJob`. -/
def processJob (job : SimulationJob) : Request Reply := do
  let finalAttempt := isFinalAttempt job.attemptsMade job.attempts
  match ← claimSimulationJob job.jobId with
  | .terminal => pure .skipped
  | .orphaned => pure .skipped
  | .claimed seen =>
    match ← runClaimed job finalAttempt seen with
    | .ok _ => pure .finished
    | .error (.retryableInfra message) => rethrow job.key finalAttempt seen message
    | .error .recordNotFound => pure .skipped
    | .error (.error message) =>
      if finalAttempt then do
        let now ← ask .now
        match ← ask (.update job.key
          ⟨.failed, fun j =>
            { j with
              stderr := some message
              finishedAt := some now
              metrics := some { error := some message, failureClass := some .infra } }⟩
          seen false) with
        | none => pure (.threw recordNotFound)
        | some _ => pure (.threw message)
      else rethrow job.key finalAttempt seen message

/-! ## The administrator -/

/-- `AdminService.cancelSimJob`. -/
def cancelSimJob (id : Text) : Request Reply := do
  match ← ask (.find (.simulation, id)) with
  | none => pure (.notFound "Simulation job not found")
  | some look =>
    if look.job.status = .running then
      pure (.conflict "A running simulation is not interruptible; wait for it to finish.")
    else if look.job.status ≠ .queued then
      pure (.conflict ("Job is " ++ look.job.status.name ++ " and cannot be canceled."))
    else do
      let removedFromQueue ← ask (.remove (.simulation, id))
      if removedFromQueue = false then
        pure (.conflict "Simulation has already started or is no longer cancelable.")
      else do
        let now ← ask .now
        let count ← ask (.updateMany (.simulation, id) [.queued]
          ⟨.canceled, fun j => { j with finishedAt := some now }⟩)
        if count = 0 then pure (.conflict "Job started before it could be canceled.")
        else pure (.status id .canceled)

def retriable : List Status := [.failed, .timedOut, .canceled]

/-- `AdminService.retrySimJob`. -/
def retrySimJob (id : Text) : Request Reply := do
  match ← ask (.find (.simulation, id)) with
  | none => pure (.notFound "Simulation job not found")
  | some look =>
    if look.job.status ∉ retriable then
      pure (.conflict ("Only failed/timed-out/canceled jobs can be retried (status: " ++
        look.job.status.name ++ ")."))
    else do
      match ← ask (.update (.simulation, id)
        ⟨.queued, fun j =>
          { j with
            startedAt := none
            finishedAt := none
            errorMessage := none
            result := none
            resultS3Key := none
            metrics := none
            stdout := none
            stderr := none }⟩ look.changes true) with
      | none => pure (.threw recordNotFound)
      | some seen => do
        let _ ← ask (.remove (.simulation, id))
        match ← ask (.add .simulation (some id)) with
        | none => pure (.status id .queued)
        | some error => do
          let now ← ask .now
          match ← ask (.update (.simulation, id)
            ⟨.failed, fun j =>
              { j with
                errorMessage := some ("retry re-enqueue failed: ".toList ++ error)
                finishedAt := some now }⟩ seen true) with
          | none => pure (.threw recordNotFound)
          | some _ =>
            pure (.unavailable
              "Failed to re-enqueue the simulation; it was returned to FAILED.")

end CircuitForge.Jobs
