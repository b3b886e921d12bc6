/-
Usage and quotas: `apps/api/src/usage/usage.service.ts`.

The jobs and the bytes of an organization are counted where they are.  A guarded creation
counts them under the lock of its organization and then creates, and `getOrgUsageForAdmin`
reports the same counts beside the limits.
-/
import CircuitForge.Api.Jobs
import CircuitForge.Js.Months
import CircuitForge.Js.Transactions

namespace CircuitForge.Usage

open Js Requests Transactions
open Jobs (Kind Status SimJobMetrics)

/-- The environment, and how the engine reads numbers. -/
class Config where
  get : String → Option Text
  /-- `Number(s)`, unless that is not finite. -/
  number : Text → Option Rat
  /-- `Number(n)` of a `bigint`. -/
  ofBigInt : Int → Rat

structure OrgQuotaOverride where
  simConcurrent : Option Int := none
  simJobsPerMonth : Option Int := none
  simRuntimeMsPerMonth : Option Int := none
  designConcurrent : Option Int := none
  designJobsPerMonth : Option Int := none
  storageBytes : Option Int := none

structure Organization where
  suspendedAt : Option Nat := none
  suspendReason : Option Text := none
  quotaOverride : Option OrgQuotaOverride := none

/-- The columns of the three tables of jobs that are counted. -/
structure Job where
  kind : Kind
  orgId : Text
  createdAt : Nat
  status : Status := .queued
  metrics : Option SimJobMetrics := none
  resultS3Key : Option Text := none

structure Asset where
  orgId : Text
  sizeBytes : Int

structure Tables where
  organizations : Map Text Organization
  jobs : List Job := []
  assets : List Asset := []

/-! ## Counting -/

def concurrentStalenessMs : Nat := 24 * 60 * 60 * 1000

def defaultLayoutConcurrentPerOrg : Nat := 2

/-- QUEUED or RUNNING, and created since. -/
def Job.inFlight (job : Job) (kind : Kind) (orgId : Text) (since : Nat) : Bool :=
  job.kind = kind && job.orgId = orgId && !job.status.terminal && since ≤ job.createdAt

def Job.createdIn (job : Job) (kind : Kind) (orgId : Text) (start stop : Nat) : Bool :=
  job.kind = kind && job.orgId = orgId && start ≤ job.createdAt && job.createdAt < stop

/-- `simConcurrent`, `designConcurrent` and `layoutConcurrent`. -/
def Tables.concurrent (t : Tables) (kind : Kind) (orgId : Text) (now : Nat) : Nat :=
  t.jobs.countP (·.inFlight kind orgId (now - concurrentStalenessMs))

def monthRange (now : Nat) : Nat × Nat :=
  (Months.start (Months.monthOf now), Months.start (Months.monthOf now + 1))

structure MonthlyUsage where
  jobs : Nat
  runtimeMs : Nat

/-- `simUsageThisMonth`, `designJobsThisMonth` and `layoutJobsThisMonth`; only simulations have
a runtime. -/
def Tables.usageThisMonth (t : Tables) (kind : Kind) (orgId : Text) (now : Nat) : MonthlyUsage where
  jobs := t.jobs.countP (·.createdIn kind orgId (monthRange now).1 (monthRange now).2)
  runtimeMs :=
    (t.jobs.filter (·.createdIn kind orgId (monthRange now).1 (monthRange now).2)).foldl
      (fun total job => total + (job.metrics.bind (·.runtimeMs)).getD 0) 0

def Tables.assetBytes (t : Tables) (orgId : Text) : Int :=
  (t.assets.filter (·.orgId = orgId)).foldl (fun total asset => total + asset.sizeBytes) 0

/-- What the stored result of a simulation weighs. -/
def Job.resultBytes (job : Job) : Nat :=
  ((job.metrics.bind (·.storedResultBytes)).or (job.metrics.bind (·.outputSizeBytes))).getD 0

def Tables.resultBytes (t : Tables) (orgId : Text) : Nat :=
  (t.jobs.filter fun job =>
    job.kind = .simulation && job.orgId = orgId && job.resultS3Key.isSome).foldl
      (fun total job => total + job.resultBytes) 0

def Tables.storedBytes (t : Tables) (orgId : Text) : Int := t.assetBytes orgId + t.resultBytes orgId

/-! ## Limits -/

section

variable [Config]

/-- A limit of the environment: a whole number, or unlimited. -/
def limit (envKey : String) : Option Nat :=
  match Config.get envKey with
  | none => none
  | some [] => none
  | some raw =>
    match Config.number raw with
    | none => none
    | some n => if n ≤ 0 then none else some n.floor.toNat

/-- A positive override wins. -/
def effective (envKey : String) (override : Option Rat) : Option Nat :=
  match override with
  | some n => if 0 < n then some n.floor.toNat else limit envKey
  | none => limit envKey

def layoutConcurrentLimit : Option Nat :=
  match Config.get "QUOTA_LAYOUT_CONCURRENT_PER_ORG" with
  | none => some defaultLayoutConcurrentPerOrg
  | some [] => some defaultLayoutConcurrentPerOrg
  | some raw =>
    if trim raw = ['0'] then none
    else some ((limit "QUOTA_LAYOUT_CONCURRENT_PER_ORG").getD defaultLayoutConcurrentPerOrg)

end

/-- What a quota is of. -/
inductive Metric where
  | concurrent (kind : Kind)
  | jobs (kind : Kind)
  | simRuntimeMs
  | storageBytes
deriving DecidableEq

def Metric.name : Metric → String
  | .concurrent .simulation => "sim_concurrent"
  | .concurrent .design => "design_concurrent"
  | .concurrent .layout => "layout_concurrent"
  | .jobs .simulation => "sim_jobs"
  | .jobs .design => "design_jobs"
  | .jobs .layout => "layout_jobs"
  | .simRuntimeMs => "sim_runtime_ms"
  | .storageBytes => "storage_bytes"

/-! ## The report -/

structure SimLimits where
  jobsPerMonth : Option Nat
  runtimeMsPerMonth : Option Nat
  concurrent : Option Nat

structure JobLimits where
  jobsPerMonth : Option Nat
  concurrent : Option Nat

structure SimUsage where
  jobs : Nat
  runtimeMs : Nat
  concurrent : Nat
  limits : SimLimits

structure JobUsage where
  jobs : Nat
  concurrent : Nat
  limits : JobLimits

structure StorageUsage where
  assetBytes : Int
  resultBytes : Nat
  totalBytes : Int
  limit : Option Nat

structure AdminOrgUsage where
  orgId : Text
  period : Text
  sim : SimUsage
  design : JobUsage
  layout : JobUsage
  storage : StorageUsage
  override : Option OrgQuotaOverride

/-- The month as `YYYY-MM`. -/
def period (now : Nat) : Text :=
  let month := Months.monthOf now
  let mm := Nat.toDigits 10 (Months.monthOfYear month + 1)
  Nat.toDigits 10 (Months.yearOf month) ++ '-' :: (List.replicate (2 - mm.length) '0' ++ mm)

def Tables.overrideOf (t : Tables) (orgId : Text) : Option OrgQuotaOverride :=
  (t.organizations.get? orgId).bind (·.quotaOverride)

section

variable [Config]

/-- An integer column of the override. -/
def ofInt (override : Option OrgQuotaOverride) (column : OrgQuotaOverride → Option Int) :
    Option Rat :=
  (override.bind column).map fun n : Int => (n : Rat)

/-- `getOrgUsageForAdmin`. -/
def Tables.getOrgUsageForAdmin (t : Tables) (orgId : Text) (now : Nat) : AdminOrgUsage :=
  let override := t.overrideOf orgId
  let sim := t.usageThisMonth .simulation orgId now
  { orgId
    period := period now
    sim :=
      { jobs := sim.jobs
        runtimeMs := sim.runtimeMs
        concurrent := t.concurrent .simulation orgId now
        limits :=
          { jobsPerMonth := effective "QUOTA_SIM_JOBS_PER_MONTH" (ofInt override (·.simJobsPerMonth))
            runtimeMsPerMonth :=
              effective "QUOTA_SIM_RUNTIME_MS_PER_MONTH" (ofInt override (·.simRuntimeMsPerMonth))
            concurrent :=
              effective "QUOTA_SIM_CONCURRENT_PER_ORG" (ofInt override (·.simConcurrent)) } }
    design :=
      { jobs := (t.usageThisMonth .design orgId now).jobs
        concurrent := t.concurrent .design orgId now
        limits :=
          { jobsPerMonth :=
              effective "QUOTA_DESIGN_JOBS_PER_MONTH" (ofInt override (·.designJobsPerMonth))
            concurrent :=
              effective "QUOTA_DESIGN_CONCURRENT_PER_ORG" (ofInt override (·.designConcurrent)) } }
    layout :=
      { jobs := (t.usageThisMonth .layout orgId now).jobs
        concurrent := t.concurrent .layout orgId now
        limits :=
          { jobsPerMonth := limit "QUOTA_LAYOUT_JOBS_PER_MONTH"
            concurrent := layoutConcurrentLimit } }
    storage :=
      { assetBytes := t.assetBytes orgId
        resultBytes := t.resultBytes orgId
        totalBytes := t.assetBytes orgId + t.resultBytes orgId
        limit :=
          effective "QUOTA_STORAGE_BYTES_PER_ORG"
            ((override.bind (·.storageBytes)).map Config.ofBigInt) }
    override }

end

/-- The limit that is reported. -/
def AdminOrgUsage.limit (u : AdminOrgUsage) : Metric → Option Nat
  | .concurrent .simulation => u.sim.limits.concurrent
  | .concurrent .design => u.design.limits.concurrent
  | .concurrent .layout => u.layout.limits.concurrent
  | .jobs .simulation => u.sim.limits.jobsPerMonth
  | .jobs .design => u.design.limits.jobsPerMonth
  | .jobs .layout => u.layout.limits.jobsPerMonth
  | .simRuntimeMs => u.sim.limits.runtimeMsPerMonth
  | .storageBytes => u.storage.limit

/-- The usage that is reported. -/
def AdminOrgUsage.used (u : AdminOrgUsage) : Metric → Int
  | .concurrent .simulation => u.sim.concurrent
  | .concurrent .design => u.design.concurrent
  | .concurrent .layout => u.layout.concurrent
  | .jobs .simulation => u.sim.jobs
  | .jobs .design => u.design.jobs
  | .jobs .layout => u.layout.jobs
  | .simRuntimeMs => u.sim.runtimeMs
  | .storageBytes => u.storage.totalBytes

/-- The limit that is reported is reached; the bytes are those with the upload, and exceed
theirs. -/
def AdminOrgUsage.reached (u : AdminOrgUsage) (metric : Metric) (addBytes : Int) : Prop :=
  ∃ l, u.limit metric = some l ∧
    if metric = .storageBytes then (l : Int) < u.used metric + max 0 addBytes
    else (l : Int) ≤ u.used metric

/-! ## The statements -/

/-- What an advisory lock is about, beside the organization. -/
inductive Domain where
  | jobs (kind : Kind)
  | storage
deriving DecidableEq

inductive Write where
  | job (row : Job)
  | asset (row : Asset)

def Write.apply : Write → Tables → Tables
  | .job row, t => { t with jobs := t.jobs ++ [row] }
  | .asset row, t => { t with assets := t.assets ++ [row] }

def Write.assetOf : Write → Option Asset
  | .job _ => none
  | .asset row => some row

/-- A usage that was read to be checked, and the tables it was read from. -/
structure Check where
  program : Nat
  metric : Metric
  orgId : Text
  addBytes : Int := 0
  now : Nat
  tables : Tables

/-- The limit that is reported at the check is reached. -/
def Check.reached [Config] (c : Check) : Prop :=
  (c.tables.getOrgUsageForAdmin c.orgId c.now).reached c.metric c.addBytes

/-- The tables behind the commit of an asset. -/
structure Stored where
  program : Nat
  orgId : Text
  tables : Tables

/-- The clock, the locks that are held, and the tables.  The logs of the checks and of the
commits of assets are read by nobody. -/
structure Db extends Store Tables Write where
  now : Nat := 0
  locks : List ((Domain × Text) × Nat) := []
  checks : List Check := []
  stored : List Stored := []

/-- How a job goes on. -/
structure Outcome where
  status : Status
  metrics : Option SimJobMetrics := none
  resultS3Key : Option Text := none

def Job.settle (job : Job) (outcome : Outcome) : Job :=
  { job with
    status := outcome.status
    metrics := outcome.metrics
    resultS3Key := outcome.resultS3Key }

inductive Stmt where
  | now
  | orgGate (orgId : Text)
  | override (orgId : Text)
  /-- A transaction begins and waits for its lock. -/
  | lock (domain : Domain) (orgId : Text)
  | concurrent (kind : Kind) (orgId : Text) (now : Nat)
  | usageThisMonth (kind : Kind) (orgId : Text) (now : Nat)
  | assetBytes (orgId : Text)
  /-- The upload is no part of the statement. -/
  | resultBytes (orgId : Text) (addBytes : Int)
  | createJob (kind : Kind) (orgId : Text) (tx : Bool)
  | createAsset (asset : Asset) (tx : Bool)
  | commit
  | rollback
  /-- A worker goes on with a job that has not ended. -/
  | settle (row : Nat) (outcome : Outcome)

abbrev Answer : Stmt → Type
  | .now => Nat
  | .orgGate _ => Organization
  | .override _ => Option OrgQuotaOverride
  | .concurrent _ _ _ => Nat
  | .usageThisMonth _ _ _ => MonthlyUsage
  | .assetBytes _ => Int
  | .resultBytes _ _ => Nat
  | _ => Unit

/-- A write waits for the end of its transaction, if it is in one. -/
def Db.write (s : Db) (i : Nat) (tx : Bool) (w : Write) : Db :=
  if tx then { s with toStore := s.toStore.write i w }
  else { s with committed := w.apply s.committed }

def Db.logStored (s : Db) (i : Nat) (assets : List Asset) : Db :=
  { s with stored := s.stored ++ assets.map fun asset => ⟨i, asset.orgId, s.committed⟩ }

/-- A transaction ends and gives up its locks. -/
def Db.finish (s : Db) (i : Nat) (store : Store Tables Write) : Db :=
  { s with toStore := store, locks := s.locks.filter (·.2 ≠ i) }

/-- What a statement does at its time.  A lock is waited for while another program has it. -/
def exec (i : Nat) : (st : Stmt) → Db → Option (Db × Answer st)
  | .now, s => some (s, s.now)
  | .orgGate orgId, s => some (s, (s.committed.organizations.get? orgId).getD {})
  | .override orgId, s => some (s, s.committed.overrideOf orgId)
  | .lock domain orgId, s =>
    if s.locks.any (·.1 = (domain, orgId)) then none
    else some ({ s with
      toStore := s.toStore.rollback i
      locks := s.locks ++ [((domain, orgId), i)] }, ())
  | .concurrent kind orgId now, s =>
    let check := { program := i, metric := .concurrent kind, orgId, now, tables := s.committed }
    some ({ s with checks := s.checks ++ [check] }, s.committed.concurrent kind orgId now)
  | .usageThisMonth kind orgId now, s =>
    let check (metric : Metric) : Check :=
      { program := i, metric, orgId, now, tables := s.committed }
    let checks :=
      if kind = .simulation then [check (.jobs kind), check .simRuntimeMs] else [check (.jobs kind)]
    some ({ s with checks := s.checks ++ checks }, s.committed.usageThisMonth kind orgId now)
  | .assetBytes orgId, s => some (s, s.committed.assetBytes orgId)
  | .resultBytes orgId addBytes, s =>
    let check :=
      { program := i, metric := .storageBytes, orgId, addBytes, now := s.now, tables := s.committed }
    some ({ s with checks := s.checks ++ [check] }, s.committed.resultBytes orgId)
  | .createJob kind orgId tx, s => some (s.write i tx (.job { kind, orgId, createdAt := s.now }), ())
  | .createAsset asset tx, s =>
    let t := s.write i tx (.asset asset)
    some (if tx then t else t.logStored i [asset], ())
  | .commit, s =>
    let t := s.finish i (s.toStore.commit Write.apply i)
    some (t.logStored i ((s.own i).filterMap Write.assetOf), ())
  | .rollback, s => some (s.finish i (s.toStore.rollback i), ())
  | .settle row outcome, s =>
    match s.committed.jobs[row]? with
    | none => none
    | some job =>
      if job.status.terminal then none
      else some ({ s with committed.jobs := s.committed.jobs.set row (job.settle outcome) }, ())

/-- The input is the clock, which does not go back. -/
def sem : Semantics Nat Stmt Answer Db := fun now i st s =>
  if now < s.now then none else exec i st { s with now }

/-! ## The service -/

abbrev Request : Type → Type := Prog Stmt Answer

def ask (s : Stmt) : Request (Answer s) := Prog.stmt s

/-- The body of the 429. -/
structure QuotaError where
  metric : Metric
  used : Int
  limit : Nat
  period : Text

inductive Reply where
  | created (domain : Domain) (orgId : Text)
  | suspended (suspendedAt : Nat) (reason : Option Text)
  | quotaExceeded (error : QuotaError)
  | settled

section

variable [Config]

def hasSimQuota : Bool :=
  (limit "QUOTA_SIM_CONCURRENT_PER_ORG").isSome || (limit "QUOTA_SIM_JOBS_PER_MONTH").isSome ||
    (limit "QUOTA_SIM_RUNTIME_MS_PER_MONTH").isSome

def hasDesignQuota : Bool :=
  (limit "QUOTA_DESIGN_CONCURRENT_PER_ORG").isSome || (limit "QUOTA_DESIGN_JOBS_PER_MONTH").isSome

def hasLayoutQuota : Bool :=
  layoutConcurrentLimit.isSome || (limit "QUOTA_LAYOUT_JOBS_PER_MONTH").isSome

end

def simOverrideActive (o : Option OrgQuotaOverride) : Bool :=
  o.any fun o => o.simConcurrent.isSome || o.simJobsPerMonth.isSome || o.simRuntimeMsPerMonth.isSome

def designOverrideActive (o : Option OrgQuotaOverride) : Bool :=
  o.any fun o => o.designConcurrent.isSome || o.designJobsPerMonth.isSome

def storageOverrideActive (o : Option OrgQuotaOverride) : Bool := o.any (·.storageBytes.isSome)

def quotaError (metric : Metric) (used : Int) (limit : Nat) : Request QuotaError := do
  let now ← ask .now
  pure { metric, used, limit, period := period now }

/-- The error of a limit that is reached; a usage that was not read is none. -/
def enforce (metric : Metric) (used : Option Int) (limit : Option Nat) :
    Request (Option QuotaError) :=
  match used, limit with
  | some used, some limit =>
    if (limit : Int) ≤ used then do
      let error ← quotaError metric used limit
      pure (some error)
    else pure none
  | _, _ => pure none

/-- The first error stops. -/
def orElse (first next : Request (Option QuotaError)) : Request (Option QuotaError) := do
  match ← first with
  | some error => pure (some error)
  | none => next

def askIf (c : Bool) (s : Stmt) : Request (Option (Answer s)) :=
  if c then do
    let a ← ask s
    pure (some a)
  else pure none

/-- A usage, where the clock was read for it. -/
def concurrentAt (kind : Kind) (orgId : Text) (now : Option Nat) : Request (Option Nat) :=
  match now with
  | some now => do
    let n ← ask (.concurrent kind orgId now)
    pure (some n)
  | none => pure none

def usageAt (kind : Kind) (orgId : Text) (now : Option Nat) : Request (Option MonthlyUsage) :=
  match now with
  | some now => do
    let u ← ask (.usageThisMonth kind orgId now)
    pure (some u)
  | none => pure none

/-- The checks of a kind of jobs; each is skipped when its limit is unset. -/
def assertJobQuota (kind : Kind) (orgId : Text)
    (concurrentLimit jobsLimit runtimeLimit : Option Nat) : Request (Option QuotaError) := do
  let since ← askIf concurrentLimit.isSome .now
  let month ← askIf (jobsLimit.isSome || runtimeLimit.isSome) .now
  let inFlight ← concurrentAt kind orgId since
  let monthly ← usageAt kind orgId month
  orElse (enforce (.concurrent kind) (inFlight.map Int.ofNat) concurrentLimit) <|
    orElse (enforce (.jobs kind) (monthly.map fun u => u.jobs) jobsLimit) <|
      enforce .simRuntimeMs (monthly.map fun u => u.runtimeMs) runtimeLimit

section

variable [Config]

def assertSimQuota (orgId : Text) : Request (Option QuotaError) := do
  let ov ← ask (.override orgId)
  assertJobQuota .simulation orgId
    (effective "QUOTA_SIM_CONCURRENT_PER_ORG" (ofInt ov (·.simConcurrent)))
    (effective "QUOTA_SIM_JOBS_PER_MONTH" (ofInt ov (·.simJobsPerMonth)))
    (effective "QUOTA_SIM_RUNTIME_MS_PER_MONTH" (ofInt ov (·.simRuntimeMsPerMonth)))

def assertDesignQuota (orgId : Text) : Request (Option QuotaError) := do
  let ov ← ask (.override orgId)
  assertJobQuota .design orgId
    (effective "QUOTA_DESIGN_CONCURRENT_PER_ORG" (ofInt ov (·.designConcurrent)))
    (effective "QUOTA_DESIGN_JOBS_PER_MONTH" (ofInt ov (·.designJobsPerMonth))) none

def assertLayoutQuota (orgId : Text) : Request (Option QuotaError) :=
  assertJobQuota .layout orgId layoutConcurrentLimit (limit "QUOTA_LAYOUT_JOBS_PER_MONTH") none

def assertStorageQuota (orgId : Text) (addBytes : Int) : Request (Option QuotaError) := do
  let ov ← ask (.override orgId)
  match effective "QUOTA_STORAGE_BYTES_PER_ORG" ((ov.bind (·.storageBytes)).map Config.ofBigInt) with
  | none => pure none
  | some limit => do
    let assetBytes ← ask (.assetBytes orgId)
    let resultBytes ← ask (.resultBytes orgId addBytes)
    let projected := assetBytes + resultBytes + max 0 addBytes
    if (limit : Int) < projected then do
      let error ← quotaError .storageBytes projected limit
      pure (some error)
    else pure none

end

/-- `withOrgLock` around a check and what it lets create; an error rolls back. -/
def withOrgLock (domain : Domain) (orgId : Text) (assert : Request (Option QuotaError))
    (create : Request Unit) : Request Reply := do
  ask (.lock domain orgId)
  match ← assert with
  | some error => do
    ask .rollback
    pure (.quotaExceeded error)
  | none => do
    create
    ask .commit
    pure (.created domain orgId)

/-- A guarded creation: suspended organizations are refused, and where a quota is configured
the creation is behind its check. -/
def createGuarded (domain : Domain) (orgId : Text) (configured : Option OrgQuotaOverride → Bool)
    (assert : Request (Option QuotaError)) (create : Bool → Request Unit) : Request Reply := do
  let gate ← ask (.orgGate orgId)
  match gate.suspendedAt with
  | some suspendedAt => pure (.suspended suspendedAt gate.suspendReason)
  | none =>
    if configured gate.quotaOverride then withOrgLock domain orgId assert (create true)
    else do
      create false
      pure (.created domain orgId)

section

variable [Config]

def createSimGuarded (orgId : Text) (create : Bool → Request Unit) : Request Reply :=
  createGuarded (.jobs .simulation) orgId (fun o => hasSimQuota || simOverrideActive o)
    (assertSimQuota orgId) create

def createDesignGuarded (orgId : Text) (create : Bool → Request Unit) : Request Reply :=
  createGuarded (.jobs .design) orgId (fun o => hasDesignQuota || designOverrideActive o)
    (assertDesignQuota orgId) create

def createLayoutGuarded (orgId : Text) (create : Bool → Request Unit) : Request Reply :=
  createGuarded (.jobs .layout) orgId (fun _ => hasLayoutQuota) (assertLayoutQuota orgId) create

def createAssetGuarded (orgId : Text) (addBytes : Int) (create : Bool → Request Unit) :
    Request Reply :=
  createGuarded .storage orgId
    (fun o => (limit "QUOTA_STORAGE_BYTES_PER_ORG").isSome || storageOverrideActive o)
    (assertStorageQuota orgId addBytes) create

inductive Call where
  | createSim (orgId : Text)
  | createDesign (orgId : Text)
  | createLayout (orgId : Text)
  /-- `commitAsset`, with the size that was observed. -/
  | createAsset (orgId : Text) (actualSizeBytes : Int)
  | settle (row : Nat) (outcome : Outcome)

/-- Each creation inserts one row, of its organization and of the size that is checked. -/
def Call.program : Call → Request Reply
  | .createSim orgId => createSimGuarded orgId fun tx => ask (.createJob .simulation orgId tx)
  | .createDesign orgId => createDesignGuarded orgId fun tx => ask (.createJob .design orgId tx)
  | .createLayout orgId => createLayoutGuarded orgId fun tx => ask (.createJob .layout orgId tx)
  | .createAsset orgId actualSizeBytes =>
    createAssetGuarded orgId actualSizeBytes fun tx =>
      ask (.createAsset ⟨orgId, actualSizeBytes⟩ tx)
  | .settle row outcome => do
    ask (.settle row outcome)
    pure .settled

end

end CircuitForge.Usage
