/-
Designs and layouts: creating and canceling them
(`apps/api/src/generation/design-job.service.ts`, `apps/api/src/layout/layout.service.ts`,
`apps/api/src/admin/admin.service.ts`), running them
(`apps/worker-sim/src/design/processor.ts`, `apps/pcb-worker/src/layout/processor.ts`), and the
reapers beside the workers.
-/
import CircuitForge.Api.Jobs

namespace CircuitForge.Jobs

open Js Requests

/-! ## Creation -/

/-- The row is stored, then the job under the id of the row; an add that fails fails the row. -/
def createPaired (kind : Kind) (name : String) (guards : List (Check × String)) :
    Request Reply := do
  match ← checks guards with
  | some message => pure (.refused message)
  | none =>
    let id ← ask (.insert kind)
    match ← ask (.add kind (some id)) with
    | none => pure (.created id)
    | some _ => do
      let now ← ask .now
      let _ ← ask (.updateMany (kind, id) [.queued]
        ⟨.failed, fun j =>
          { j with
            errorMessage := some ("Could not queue the " ++ name ++ " job; please retry.").toList
            finishedAt := some now }⟩)
      pure (.unavailable ("Could not start the " ++ name ++ " job; please retry."))

/-- `DesignJobService.create`. -/
def createDesign : Request Reply :=
  createPaired .design "design" [(.organization, "No organization found for user"), (.quota, "")]

/-- What a request for a layout names. -/
structure CreateLayoutDto where
  versionId : Option Text := none
  orgId : Option Text := none

/-- `LayoutService.create`. -/
def createLayout (dto : CreateLayoutDto) : Request Reply :=
  let guards : List (Check × String) :=
    match truthy dto.versionId, truthy dto.orgId with
    | some _, some _ =>
      [(.version, "Version not found"), (.membership, ""),
        (.orgId, "orgId conflicts with the version's organization — ")]
    | some _, none => [(.version, "Version not found"), (.membership, "")]
    | none, some _ => [(.membership, "")]
    | none, none => [(.organization, "No organization found for user")]
  createPaired .layout "layout" (guards ++ [(.quota, "")])

/-! ## Cancellation -/

/-- The `requestCancel` of a service: a queued job is canceled, a running one is asked to stop. -/
def requestCancelOf (kind : Kind) (notFound : String) (jobId : Text) : Request Reply := do
  match ← ask (.find (kind, jobId)) with
  | none => pure (.notFound notFound)
  | some look =>
    match ← ask (.check .membership) with
    | some message => pure (.refused message)
    | none =>
      if look.job.status = .queued then do
        let now ← ask .now
        match ← ask (.update (kind, jobId)
          ⟨.canceled, fun j => { j with abortRequested := true, finishedAt := some now }⟩
          look.changes false) with
        | none => pure (.threw "Record to update not found".toList)
        | some _ => pure (.status jobId .canceled)
      else if look.job.status = .running then do
        let found ← ask (.requestAbort (kind, jobId))
        if found then pure (.status jobId .running)
        else pure (.threw "Record to update not found".toList)
      else pure (.status jobId look.job.status)

/-- `LayoutService.requestCancel`. -/
def requestCancelLayout (jobId : Text) : Request Reply :=
  requestCancelOf .layout "Layout job not found" jobId

/-- `DesignJobService.requestCancel`. -/
def requestCancelDesign (jobId : Text) : Request Reply :=
  requestCancelOf .design "Design job not found" jobId

/-- `AdminService.cancelDesignJob`: a job that has ended is a conflict. -/
def cancelDesignJob (id : Text) : Request Reply := do
  match ← ask (.find (.design, id)) with
  | none => pure (.notFound "Design job not found")
  | some look =>
    if look.job.status = .queued then do
      let now ← ask .now
      match ← ask (.update (.design, id)
        ⟨.canceled, fun j => { j with abortRequested := true, finishedAt := some now }⟩
        look.changes false) with
      | none => pure (.threw "Record to update not found".toList)
      | some _ => pure (.status id .canceled)
    else if look.job.status = .running then do
      let found ← ask (.requestAbort (.design, id))
      if found then pure (.status id .running)
      else pure (.threw "Record to update not found".toList)
    else
      pure (.conflict ("Design job is " ++ look.job.status.name ++ " and cannot be canceled."))

/-! ## The worker of designs -/

/-- How a run ends; `finish` writes it. -/
structure Finish where
  status : Status
  result : Option Text := none
  glbKey : Option Text := none
  gerbersKey : Option Text := none
  errorMessage : Option Text := none

/-- `isAbortRequested`. -/
def isAbortRequested (key : Key) : Request Bool := do
  let look ← ask (.find key)
  pure (look.any fun look => look.job.abortRequested)

/-- `finish` of the design worker: the row is updated by id. -/
def finishDesign (jobId : Text) (data : Finish) (seen : Nat) : Request Reply := do
  let now ← ask .now
  let _ ← ask (.update (.design, jobId)
    ⟨data.status, fun j =>
      { j with
        finishedAt := some now
        result := data.result.or j.result
        errorMessage := (truthy data.errorMessage).or j.errorMessage }⟩ seen false)
  pure .finished

/-- `processDesignJob`; `configured` says that there is an `LLM_API_KEY`. -/
def processDesignJob (configured : Bool) (jobId : Text) : Request Reply := do
  let now ← ask .now
  match ← ask (.claim (.design, jobId) [.queued] now) with
  | none => pure .skipped
  | some seen =>
    if configured = false then
      finishDesign jobId
        { status := .failed
          errorMessage := some ("AI circuit generation is not configured on the worker " ++
            "(LLM_API_KEY is not set).").toList } seen
    else do
      match ← ask (.design (.design, jobId)) with
      | .aborted => finishDesign jobId { status := .canceled } seen
      | .threw message => finishDesign jobId { status := .failed, errorMessage := message } seen
      | .result json => do
        let aborted ← isAbortRequested (.design, jobId)
        if aborted then finishDesign jobId { status := .canceled } seen
        else finishDesign jobId { status := .succeeded, result := json } seen

/-! ## The worker of layouts -/

/-- `finish` of the layout worker: only a row that runs is written. -/
def finishLayout (jobId : Text) (data : Finish) : Request Reply := do
  let now ← ask .now
  let _ ← ask (.updateMany (.layout, jobId) [.running]
    ⟨data.status, fun j =>
      { j with
        finishedAt := some now
        result := data.result.or j.result
        glbKey := (truthy data.glbKey).or j.glbKey
        gerbersKey := (truthy data.gerbersKey).or j.gerbersKey
        errorMessage := data.errorMessage }⟩)
  pure .finished

/-- The pipeline looks at the flag now and then, until it is set. -/
def isAborted (jobId : Text) : Nat → Request Bool
  | 0 => pure false
  | n + 1 => do
    let aborted ← isAbortRequested (.layout, jobId)
    if aborted then pure true else isAborted jobId n

/-- `processLayoutJob`. -/
def processLayoutJob (jobId : Text) : Request Reply := do
  let now ← ask .now
  match ← ask (.claim (.layout, jobId) [.queued] now) with
  | none => pure .skipped
  | some _ =>
    match ← ask (.find (.layout, jobId)) with
    | none =>
      finishLayout jobId
        { status := .failed, errorMessage := some "Layout job row vanished after claim".toList }
    | some _ => do
      let polls ← ask .polls
      let abortSeen ← isAborted jobId polls
      match ← ask (.layout (.layout, jobId)) with
      | .notOk errors diagnostics =>
        finishLayout jobId
          { status := .failed
            errorMessage := some (((truthy errors).getD "layout failed".toList).take 500)
            result := diagnostics }
      | .withheld inspection => finishLayout jobId { status := .succeeded, result := inspection }
      | .delivered result glbKey =>
        finishLayout jobId
          { status := .succeeded
            result
            glbKey
            gerbersKey := some ("layouts/".toList ++ jobId ++ "/manufacturing.json".toList) }
      | .threw message =>
        if abortSeen then finishLayout jobId { status := .canceled }
        else finishLayout jobId { status := .failed, errorMessage := some (message.take 500) }

/-! ## The reapers -/

/-- `reapDecision`: the reason to reap, if there is one. -/
def reapDecision (row : Job) (state : QueueState) (nowMs runningDeadlineMs : Nat) :
    Option String :=
  match state with
  | .waiting | .waitingChildren | .delayed | .prioritized => none
  | .active =>
    if runningDeadlineMs < nowMs - row.startedAt.getD row.createdAt then
      some "reaped: exceeded the maximum runtime (the worker appears hung)"
    else none
  | .completed =>
    some ("reaped: the queue job finished but the worker never wrote the result " ++
      "(it stopped mid-job)")
  | .failed => some "reaped: the queue job failed (the worker stopped unexpectedly)"
  | .unknown | .missing =>
    some (if row.status = .queued then
      "reaped: orphaned before reaching the queue (never picked up)"
    else "reaped: the worker stopped and no active queue job remains")

/-- The rows of a sweep, one after the other. -/
def reapRows (kind : Kind) (nowMs runningDeadlineMs : Nat) :
    List (Text × Job) → Nat → Request Nat
  | [], reaped => pure reaped
  | (id, row) :: rest, reaped => do
    let state ← ask (.queueState (kind, id))
    match reapDecision row state nowMs runningDeadlineMs with
    | none => reapRows kind nowMs runningDeadlineMs rest reaped
    | some reason => do
      let count ← ask (.updateMany (kind, id) [.queued, .running]
        ⟨.failed, fun j =>
          { j with errorMessage := some reason.toList, finishedAt := some nowMs }⟩)
      reapRows kind nowMs runningDeadlineMs rest (reaped + count)

/-- `reapStaleDesignJobs` and `reapStaleLayoutJobs`. -/
def reapStaleJobs (kind : Kind) (graceMs runningDeadlineMs : Nat) : Request Reply := do
  let nowMs ← ask .now
  let rows ← ask (.stale kind (nowMs - graceMs))
  let reaped ← reapRows kind nowMs runningDeadlineMs rows 0
  pure (.swept rows.length reaped)

def reapStaleDesignJobs (graceMs runningDeadlineMs : Nat) : Request Reply :=
  reapStaleJobs .design graceMs runningDeadlineMs

def reapStaleLayoutJobs (graceMs runningDeadlineMs : Nat) : Request Reply :=
  reapStaleJobs .layout graceMs runningDeadlineMs

end CircuitForge.Jobs
