/-
The rows of simulations, designs and layouts and the jobs of their queues:
`apps/api/prisma/schema.prisma`, and the statements that the API and the workers execute on
them.  A single statement is atomic; between two statements anybody may act.
-/
import CircuitForge.Js.Map
import CircuitForge.Js.Requests
import CircuitForge.Js.Text

namespace CircuitForge.Jobs

open Js Requests

/-- A table of jobs, and the queue of the same jobs. -/
inductive Kind where
  | simulation
  | design
  | layout
deriving DecidableEq

/-- A layout and a design do not time out. -/
inductive Status where
  | queued
  | running
  | succeeded
  | failed
  | timedOut
  | canceled
deriving DecidableEq

def Status.terminal : Status → Bool
  | .queued | .running => false
  | .succeeded | .failed | .timedOut | .canceled => true

def Status.name : Status → String
  | .queued => "QUEUED"
  | .running => "RUNNING"
  | .succeeded => "SUCCEEDED"
  | .failed => "FAILED"
  | .timedOut => "TIMED_OUT"
  | .canceled => "CANCELED"

/-- The `mode` of a batch of simulations. -/
inductive Mode where
  | monteCarlo
  | corner
  | tempCorner
  | supplyCorner
deriving DecidableEq

inductive FailureClass where
  | infra
  | sim
deriving DecidableEq

/-- `SimJobMetrics`, and the summary of a batch. -/
structure SimJobMetrics where
  runtimeMs : Option Nat := none
  error : Option Text := none
  failureClass : Option FailureClass := none
  outputSizeBytes : Option Nat := none
  storedResultBytes : Option Nat := none
  pointsCount : Option Nat := none
  convergence : Option Text := none
  batch : Option (Mode × Text) := none

/-- The columns of the three tables; a row uses those of its table. -/
structure Job where
  status : Status := .queued
  createdAt : Nat
  startedAt : Option Nat := none
  finishedAt : Option Nat := none
  abortRequested : Bool := false
  errorMessage : Option Text := none
  result : Option Text := none
  resultS3Key : Option Text := none
  stdout : Option Text := none
  stderr : Option Text := none
  metrics : Option SimJobMetrics := none
  glbKey : Option Text := none
  gerbersKey : Option Text := none

/-- Everything but the flag that asks a worker to stop. -/
def Job.outcome (job : Job) : Job := { job with abortRequested := false }

/-- The columns of an update that sets the status. -/
structure Patch where
  status : Status
  data : Job → Job := id

def Patch.apply (patch : Patch) (job : Job) : Job := { patch.data job with status := patch.status }

/-- A row, with what nobody reads: how often its status was written, by whom last, how often
by a retry of the administrator, and whether a failed attempt is to be run again. -/
structure Row where
  job : Job
  changes : Nat := 0
  writer : Nat
  retries : Nat := 0
  retrying : Bool := false

abbrev Key : Type := Kind × Text

/-- The tables and the queues.  The logs say which program claimed a row, and which ran the
job of one. -/
structure Db where
  jobs : Map Key Row := []
  queue : List Key := []
  claims : List (Nat × Key) := []
  runs : List (Nat × Key) := []

/-- The status of a row is written. -/
def Row.write (row : Row) (i : Nat) (patch : Patch) (retry : Bool) : Row :=
  { row with
    job := patch.apply row.job
    changes := row.changes + 1
    writer := i
    retries := if retry then row.retries + 1 else row.retries }

/-! ## The statements -/

/-- What BullMQ says of a job, or that there is none. -/
inductive QueueState where
  | waiting
  | waitingChildren
  | delayed
  | prioritized
  | active
  | completed
  | failed
  | unknown
  | missing
deriving DecidableEq

/-- What has to be in order before a job is created. -/
inductive Check where
  | version
  | membership
  | organization
  | orgId
  | analysis
  | circuit
  | modelAssets
  | netlist
  | quota
deriving DecidableEq

/-- What the simulator stored of a run: the bounded result as JSON, and its original size. -/
structure SimulationResult where
  json : Text
  pointsCount : Nat

structure SimulationJobResult where
  success : Bool
  result : Option SimulationResult := none
  infra : Bool := false
  timedOut : Bool := false
  error : Option Text := none
  stdout : Text := []
  stderr : Text := []
  runtimeMs : Nat := 0
  outputSizeBytes : Option Nat := none
  convergence : Option Text := none

/-- How the design loop ends. -/
inductive DesignEnd where
  | result (json : Text)
  | aborted
  | threw (message : Text)

/-- How the layout pipeline ends, the bundle uploaded. -/
inductive LayoutEnd where
  | notOk (errors diagnostics : Text)
  | withheld (inspection : Text)
  | delivered (result : Text) (glbKey : Option Text)
  | threw (message : Text)

/-- What a program knows of a row it has looked at. -/
structure Look where
  job : Job
  changes : Nat

inductive Stmt where
  | now
  /-- Answered with what is wrong. -/
  | check (what : Check)
  | insert (kind : Kind)
  | find (key : Key)
  /-- The `updateMany` that takes a row to RUNNING. -/
  | claim (key : Key) (source : List Status) (startedAt : Nat)
  | updateMany (key : Key) (source : List Status) (patch : Patch)
  /-- What was seen, and that an administrator retries, is no part of the statement. -/
  | update (key : Key) (patch : Patch) (seen : Nat) (retry : Bool)
  | requestAbort (key : Key)
  | stale (kind : Kind) (before : Nat)
  /-- A job of BullMQ's own id, unless one is given; answered with the error. -/
  | add (kind : Kind) (jobId : Option Text)
  | remove (key : Key)
  | queueState (key : Key)
  | download (s3Key : Text)
  | upload (json : Text)
  | simulate (key : Key)
  | batch (key : Key) (mode : Mode)
  | design (key : Key)
  | layout (key : Key)
  /-- How often the pipeline looks at the flag. -/
  | polls
  /-- No statement: an attempt ends and BullMQ will run the job again. -/
  | retryLater (key : Key) (seen : Nat)

abbrev Answer : Stmt → Type
  | .now => Nat
  | .check _ => Option Text
  | .insert _ => Text
  | .find _ => Option Look
  | .claim _ _ _ => Option Nat
  | .updateMany _ _ _ => Nat
  | .update _ _ _ _ => Option Nat
  | .requestAbort _ => Bool
  | .stale _ _ => List (Text × Job)
  | .add _ _ => Option Text
  | .remove _ => Bool
  | .queueState _ => QueueState
  | .download _ => Option Text
  | .upload _ => Except Text Text
  | .simulate _ => Except Text SimulationJobResult
  | .batch _ _ => Except Text (Nat × Text)
  | .design _ => DesignEnd
  | .layout _ => LayoutEnd
  | .polls => Nat
  | .retryLater _ _ => Unit

/-- What the outside decides: the clock, a new id, and how the others answer. -/
structure Input where
  now : Nat := 0
  id : Text := []
  error : Option Text := none
  /-- Whether the queue does what it is asked to. -/
  done : Bool := true
  state : QueueState := .missing
  upload : Except Text Text := .ok []
  simulate : Except Text SimulationJobResult := .error []
  batch : Except Text (Nat × Text) := .error []
  design : DesignEnd := .aborted
  layout : LayoutEnd := .threw []
  polls : Nat := 0

def Db.put (s : Db) (key : Key) (row : Row) : Db := { s with jobs := s.jobs.set key row }

/-- The program runs the job of the row. -/
def Db.logRun (s : Db) (i : Nat) (key : Key) : Db := { s with runs := s.runs ++ [(i, key)] }

/-- A job is added to a queue; the add can fail, and its reply can be lost. -/
def Db.enqueue (s : Db) (key : Key) (input : Input) : Db × Option Text :=
  if input.done then ({ s with queue := s.queue ++ [key] }, input.error)
  else (s, some (input.error.getD []))

/-- What a statement does. -/
def sem : Semantics Input Stmt Answer Db
  | input, _, .now, s => some (s, input.now)
  | input, _, .check _, s => some (s, input.error)
  | input, i, .insert kind, s =>
    if s.jobs.has (kind, input.id) ∨ (kind, input.id) ∈ s.queue then none
    else some (s.put (kind, input.id) { job := { createdAt := input.now }, writer := i }, input.id)
  | _, _, .find key, s => some (s, (s.jobs.get? key).map fun row => ⟨row.job, row.changes⟩)
  | _, i, .claim key source startedAt, s =>
    match s.jobs.get? key with
    | none => some (s, none)
    | some row =>
      if row.job.status ∈ source then
        let row' := row.write i ⟨.running, fun j => { j with startedAt }⟩ false
        some ({ s.put key { row' with retrying := false } with claims := s.claims ++ [(i, key)] },
          some row'.changes)
      else some (s, none)
  | _, i, .updateMany key source patch, s =>
    match s.jobs.get? key with
    | none => some (s, 0)
    | some row =>
      if row.job.status ∈ source then some (s.put key (row.write i patch false), 1) else some (s, 0)
  | _, i, .update key patch _ retry, s =>
    match s.jobs.get? key with
    | none => some (s, none)
    | some row => some (s.put key (row.write i patch retry), some (row.changes + 1))
  | _, _, .requestAbort key, s =>
    match s.jobs.get? key with
    | none => some (s, false)
    | some row => some (s.put key { row with job := { row.job with abortRequested := true } }, true)
  | _, _, .stale kind before, s =>
    some (s, s.jobs.filterMap fun e =>
      if e.1.1 = kind ∧ e.2.job.status.terminal = false ∧ e.2.job.createdAt < before then
        some (e.1.2, e.2.job)
      else none)
  | input, _, .add kind jobId, s =>
    -- BullMQ's own ids are no rows' ids
    if jobId = none ∧ s.jobs.has (kind, input.id) then none
    else some (s.enqueue (kind, jobId.getD input.id) input)
  | input, _, .remove key, s =>
    if input.done ∧ key ∈ s.queue then
      some ({ s with queue := s.queue.filter (· ≠ key) }, true)
    else some (s, false)
  | input, _, .queueState _, s => some (s, input.state)
  | input, _, .download _, s => some (s, input.error)
  | input, _, .upload _, s => some (s, input.upload)
  | input, i, .simulate key, s => some (s.logRun i key, input.simulate)
  | input, i, .batch key _, s => some (s.logRun i key, input.batch)
  | input, i, .design key, s => some (s.logRun i key, input.design)
  | input, i, .layout key, s => some (s.logRun i key, input.layout)
  | input, _, .polls, s => some (s, input.polls)
  | _, _, .retryLater key _, s =>
    match s.jobs.get? key with
    | none => some (s, ())
    | some row => some (s.put key { row with retrying := true }, ())

abbrev Request : Type → Type := Prog Stmt Answer

def ask (s : Stmt) : Request (Answer s) := Prog.stmt s

/-- How a call ends. -/
inductive Reply where
  | created (id : Text)
  | status (id : Text) (status : Status)
  | finished
  /-- An attempt that ran nothing. -/
  | skipped
  | swept (examined reaped : Nat)
  | refused (message : Text)
  | notFound (message : String)
  | conflict (message : String)
  | unavailable (message : String)
  | threw (message : Text)

/-- The checks of a request, in order; the first that fails refuses it. -/
def checks : List (Check × String) → Request (Option Text)
  | [] => pure none
  | (what, message) :: rest => do
    match ← ask (.check what) with
    | some issues => pure (some (message.toList ++ issues))
    | none => checks rest

end CircuitForge.Jobs
