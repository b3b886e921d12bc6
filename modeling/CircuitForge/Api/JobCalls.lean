/-
Jobs over every interleaving of the requests, the workers and the reapers.

A simulation that has ended changes by a retry only, and a design or a layout that has ended
does not change, as long as nobody writes the status of the row between the look of an
operation at it and its write by id.
-/
import CircuitForge.Api.JobRuns
import CircuitForge.Api.LongJobs
import CircuitForge.Api.Simulations

namespace CircuitForge.Jobs

open Js Requests

inductive Call where
  | createFromVersion (versionId : String)
  | createQuickSim
  | createMonteCarloJob
  | createCornerJob
  | createTempCornerJob
  | createSupplyCornerJob
  | processJob (job : SimulationJob)
  | cancelSimJob (id : Text)
  | retrySimJob (id : Text)
  | createDesign
  | requestCancelDesign (jobId : Text)
  | cancelDesignJob (id : Text)
  | processDesignJob (configured : Bool) (jobId : Text)
  | reapStaleDesignJobs (graceMs runningDeadlineMs : Nat)
  | createLayout (dto : CreateLayoutDto)
  | requestCancelLayout (jobId : Text)
  | processLayoutJob (jobId : Text)
  | reapStaleLayoutJobs (graceMs runningDeadlineMs : Nat)

def Call.program : Call → Request Reply
  | .createFromVersion versionId => Jobs.createFromVersion versionId
  | .createQuickSim => Jobs.createQuickSim
  | .createMonteCarloJob => Jobs.createMonteCarloJob
  | .createCornerJob => Jobs.createCornerJob
  | .createTempCornerJob => Jobs.createTempCornerJob
  | .createSupplyCornerJob => Jobs.createSupplyCornerJob
  | .processJob job => Jobs.processJob job
  | .cancelSimJob id => Jobs.cancelSimJob id
  | .retrySimJob id => Jobs.retrySimJob id
  | .createDesign => Jobs.createDesign
  | .requestCancelDesign jobId => Jobs.requestCancelDesign jobId
  | .cancelDesignJob id => Jobs.cancelDesignJob id
  | .processDesignJob configured jobId => Jobs.processDesignJob configured jobId
  | .reapStaleDesignJobs graceMs runningDeadlineMs =>
    Jobs.reapStaleDesignJobs graceMs runningDeadlineMs
  | .createLayout dto => Jobs.createLayout dto
  | .requestCancelLayout jobId => Jobs.requestCancelLayout jobId
  | .processLayoutJob jobId => Jobs.processLayoutJob jobId
  | .reapStaleLayoutJobs graceMs runningDeadlineMs =>
    Jobs.reapStaleLayoutJobs graceMs runningDeadlineMs

section

variable {key k : Key} {i : Nat} {s : Db} {H : Db → Prop} {seen : Nat}

/-- Nothing that needs to be known. -/
def Anything (_s : Db) : Prop := True

theorem anything_stable : (contract key).Stable i Anything := fun _ _ _ _ _ => trivial

theorem goesOn_checks (hH : (contract key).Stable i H) (guards : List (Check × String))
    (h : H s) : GoesOn key i (checks guards) (fun _ => H) s := by
  induction guards generalizing s with
  | nil => exact Contract.keeps_done h
  | cons guard guards ih =>
    refine goesOn_ask hH h (fun _ _ => ⟨_, rfl⟩) fun issues t ht => ?_
    cases issues with
    | some issues => exact Contract.keeps_done ht
    | none => exact ih ht

/-! ## Simulations -/

theorem goesOn_createSimulation (guards : List (Check × String)) :
    GoesOn key i (createSimulation guards) (fun _ _ => True) s := by
  refine Contract.keeps_bind ((goesOn_checks anything_stable guards trivial).mono ?_)
  rintro (_ | message) t ht
  · refine goesOn_insert anything_stable ht fun jobId u hu => ?_
    refine goesOn_add anything_stable hu fun error v _ => ?_
    cases error <;> exact goesOn_done
  · exact goesOn_done

/-- A patch of a simulation does not know of a layout's bundle. -/
theorem fits_simulation (hk : k.1 = .simulation) {patch : Patch}
    (h : ∀ j, (patch.data j).gerbersKey = j.gerbersKey) : patch.Fits k where
  requeues := fun _ => hk
  bundle := fun j hnone hne => absurd ((h j).trans hnone) hne

/-- How the work of an attempt leaves the row: written, or as it was claimed. -/
def Left (key : Key) (i : Nat) (k : Key) (seen : Nat) (finalAttempt : Bool) :
    Except Thrown Unit → Db → Prop
  | .ok _, _ => True
  | .error .recordNotFound, _ => True
  | .error (.retryableInfra _), t => finalAttempt = true ∨ Saw key i k seen .running true t
  | .error (.error _), t => Saw key i k seen .running true t

theorem goesOn_writeOutcome (hk : k.1 = .simulation) {patch : Patch}
    (hdata : ∀ j, (patch.data j).gerbersKey = j.gerbersKey)
    (h : Saw key i k seen .running true s) :
    GoesOn key i (writeOutcome k patch seen)
      (fun r t => r = .ok () ∨ r = .error .recordNotFound ∧ Saw key i k seen .running true t) s := by
  refine goesOn_update h (by decide) (fun he => nomatch he) (fun he => nomatch he) (fun _ => rfl)
    (fits_simulation hk hdata) ?_ ?_
  · exact fun t ht => Contract.keeps_done (.inr ⟨rfl, ht⟩)
  · exact fun _ t _ => Contract.keeps_done (.inl rfl)

/-- The last write of an attempt. -/
theorem left_of_written {finalAttempt : Bool} {r : Except Thrown Unit} {t : Db}
    (h : r = .ok () ∨ r = .error .recordNotFound ∧ Saw key i k seen .running true t) :
    Left key i k seen finalAttempt r t := by
  rcases h with rfl | ⟨rfl, -⟩ <;> trivial

theorem goesOn_writeNow (hk : k.1 = .simulation) {patch : Nat → Patch}
    (hdata : ∀ now j, ((patch now).data j).gerbersKey = j.gerbersKey) (finalAttempt : Bool)
    (h : Saw key i k seen .running true s) :
    GoesOn key i (.exec .now fun now => writeOutcome k (patch now) seen)
      (Left key i k seen finalAttempt) s :=
  goesOn_now saw_stable h fun now _ ht =>
    (goesOn_writeOutcome hk (hdata now) ht).mono fun _ _ => left_of_written

theorem goesOn_handleSuccess (hk : k.1 = .simulation) (result : SimulationJobResult)
    (finalAttempt : Bool) (h : Saw key i k seen .running true s) :
    GoesOn key i (handleSuccess k result seen) (Left key i k seen finalAttempt) s := by
  refine goesOn_ite (fun _ => ?_) fun _ => goesOn_writeNow hk (fun _ _ => rfl) finalAttempt h
  refine goesOn_ask saw_stable h (fun _ _ => ⟨_, rfl⟩) fun uploaded t ht => ?_
  cases uploaded with
  | error message => exact Contract.keeps_done ht
  | ok s3Key => exact goesOn_writeNow hk (fun _ _ => rfl) finalAttempt ht

theorem goesOn_handleFailure (hk : k.1 = .simulation) (result : SimulationJobResult)
    (finalAttempt : Bool) (h : Saw key i k seen .running true s) :
    GoesOn key i (handleFailure k result seen) (Left key i k seen finalAttempt) s :=
  goesOn_writeNow hk (fun _ _ => rfl) finalAttempt h

theorem goesOn_handleBatch (hk : k.1 = .simulation) (mode : Mode) (finalAttempt : Bool)
    (h : Saw key i k seen .running true s) (hclaimed : Claimed key i k s) :
    GoesOn key i (handleBatch k mode seen) (Left key i k seen finalAttempt) s := by
  refine goesOn_run saw_stable h hclaimed ?_ (fun _ ht => ht) fun outcome t ht => ?_
  · exact fun input t u a hs => (Prod.mk.inj (Option.some.inj hs)).1.symm
  cases outcome with
  | error message => exact goesOn_writeNow hk (fun _ _ => rfl) finalAttempt ht
  | ok summary =>
    refine goesOn_now saw_stable ht fun now t ht => ?_
    change GoesOn key i (writeOutcome k _ seen >>= _) _ t
    refine Contract.keeps_bind (Contract.Keeps.mono (goesOn_writeOutcome hk ?_ ht) fun r u hu => ?_)
    · exact fun _ => rfl
    · rcases hu with rfl | ⟨rfl, hu⟩
      · exact Contract.keeps_done trivial
      · exact goesOn_writeNow hk (fun _ _ => rfl) finalAttempt hu

theorem goesOn_downloads (hH : (contract key).Stable i H) (assets : List Text) (h : H s) :
    GoesOn key i (downloads assets) (fun _ => H) s := by
  induction assets generalizing s with
  | nil => exact Contract.keeps_done h
  | cons asset assets ih =>
    refine goesOn_ask hH h (fun _ _ => ⟨_, rfl⟩) fun error t ht => ?_
    cases error with
    | some message => exact Contract.keeps_done ht
    | none => exact ih ht

theorem finalAttempt_of_terminalInfra {result : SimulationJobResult} {finalAttempt : Bool}
    (h : classifyJobOutcome result finalAttempt = .terminalInfra) : finalAttempt = true := by
  cases finalAttempt with
  | true => rfl
  | false =>
    rw [classifyJobOutcome] at h
    split at h
    · cases h
    · split at h <;> cases h

theorem goesOn_actOn (hk : k.1 = .simulation) (result : SimulationJobResult)
    {finalAttempt : Bool} (h : Saw key i k seen .running true s) :
    GoesOn key i (actOn k result seen (classifyJobOutcome result finalAttempt))
      (Left key i k seen finalAttempt) s := by
  cases haction : classifyJobOutcome result finalAttempt with
  | success => exact goesOn_handleSuccess hk result finalAttempt h
  | fault => exact goesOn_handleFailure hk result finalAttempt h
  | retry => exact Contract.keeps_done (.inr h)
  | terminalInfra =>
    refine Contract.keeps_bind ((goesOn_handleFailure hk result finalAttempt h).mono ?_)
    rintro (thrown | _) u hu
    · exact Contract.keeps_done hu
    · exact Contract.keeps_done (.inl (finalAttempt_of_terminalInfra haction))

theorem goesOn_runClaimed (job : SimulationJob) (finalAttempt : Bool)
    (h : Saw key i job.key seen .running true s) (hclaimed : Claimed key i job.key s) :
    GoesOn key i (runClaimed job finalAttempt seen) (Left key i job.key seen finalAttempt) s := by
  refine Contract.keeps_bind ((goesOn_downloads
    (H := fun t => Saw key i job.key seen .running true t ∧ Claimed key i job.key t) ?_
    job.modelAssets ⟨h, hclaimed⟩).mono fun failed t ht => ?_)
  · exact fun t u hr hinv ht => ⟨saw_stable t u hr hinv ht.1, claimed_stable t u hr hinv ht.2⟩
  cases failed with
  | some message => exact Contract.keeps_done ht.1
  | none =>
    cases job.mode with
    | some mode => exact goesOn_handleBatch rfl mode finalAttempt ht.1 ht.2
    | none =>
      refine goesOn_run saw_stable ht.1 ht.2 ?_ (fun _ ht => ht) fun outcome t ht => ?_
      · exact fun input t u a hs => (Prod.mk.inj (Option.some.inj hs)).1.symm
      cases outcome with
      | error message => exact Contract.keeps_done ht
      | ok result => exact goesOn_actOn rfl result ht

theorem goesOn_rethrow (hk : k.1 = .simulation) {finalAttempt : Bool} (message : Text)
    (h : finalAttempt = true ∨ Saw key i k seen .running true s) :
    GoesOn key i (rethrow k finalAttempt seen message) (fun _ _ => True) s := by
  refine goesOn_ite (fun _ => goesOn_done) fun hfinal => ?_
  exact goesOn_retryLater (h.resolve_left hfinal) hk fun t => goesOn_done

theorem goesOn_claimSimulationJob (jobId : Text) :
    GoesOn key i (claimSimulationJob jobId) (fun outcome t => ∀ seen, outcome = .claimed seen →
      Claimed key i (.simulation, jobId) t ∧ Saw key i (.simulation, jobId) seen .running true t)
      s := by
  refine goesOn_now anything_stable trivial fun now t ht => ?_
  refine goesOn_claim (fun he => absurd rfl he) (by decide) anything_stable ht (fun t ht => ?_)
    fun seen t hclaimed hsaw => ?_
  · refine goesOn_find anything_stable ht (fun t _ => ?_) fun look t _ _ => ?_ <;>
      exact Contract.keeps_done fun _ he => nomatch he
  · refine Contract.keeps_done fun seen' he => ?_
    obtain rfl := ClaimOutcome.claimed.inj he
    exact ⟨hclaimed, hsaw⟩

theorem goesOn_processJob (job : SimulationJob) :
    GoesOn key i (processJob job) (fun _ _ => True) s := by
  refine Contract.keeps_bind ((goesOn_claimSimulationJob job.jobId).mono fun outcome t ht => ?_)
  cases outcome with
  | terminal => exact goesOn_done
  | orphaned => exact goesOn_done
  | claimed seen =>
    obtain ⟨hclaimed, hsaw⟩ := ht seen rfl
    refine Contract.keeps_bind ((goesOn_runClaimed job _ hsaw hclaimed).mono ?_)
    rintro (thrown | _) u hu
    · cases thrown with
      | retryableInfra message => exact goesOn_rethrow rfl message hu
      | recordNotFound => exact goesOn_done
      | error message =>
        refine goesOn_ite (fun _ => ?_) fun _ => goesOn_rethrow rfl message (.inr hu)
        refine goesOn_now saw_stable hu fun now t ht => ?_
        exact goesOn_update ht (by decide) (fun he => nomatch he) (fun he => nomatch he)
          (fun _ => rfl) (fits_simulation rfl fun _ => rfl) (fun t _ => goesOn_done)
          fun _ t _ => goesOn_done
    · exact goesOn_done

theorem goesOn_cancelSimJob (id : Text) :
    GoesOn key i (cancelSimJob id) (fun _ _ => True) s := by
  refine goesOn_find anything_stable trivial (fun t _ => goesOn_done) fun look t ht _ => ?_
  refine goesOn_ite (fun _ => goesOn_done) fun _ => goesOn_ite (fun _ => goesOn_done) fun _ => ?_
  refine goesOn_remove anything_stable ht fun removed t ht => ?_
  refine goesOn_ite (fun _ => goesOn_done) fun _ => ?_
  refine goesOn_now anything_stable ht fun now t ht => ?_
  refine goesOn_updateMany (by decide) (fun _ => by decide) (fits_simulation rfl fun _ => rfl)
    anything_stable ht fun count t _ => ?_
  exact goesOn_ite (fun _ => goesOn_done) fun _ => goesOn_done

theorem terminal_of_retriable {st : Status} (h : st ∈ retriable) :
    st ≠ .succeeded ∧ st ≠ .running := by
  revert h
  cases st <;> decide

theorem goesOn_retrySimJob (id : Text) :
    GoesOn key i (retrySimJob id) (fun _ _ => True) s := by
  refine goesOn_find anything_stable trivial (fun t _ => goesOn_done) fun look t _ hsaw => ?_
  refine goesOn_ite (fun _ => goesOn_done) fun hretriable => ?_
  obtain ⟨hsucceeded, hrunning⟩ := terminal_of_retriable (not_not.mp hretriable)
  refine goesOn_update hsaw hsucceeded (fun _ => rfl) (fun _ => rfl) (fun he => absurd he hrunning)
    (fits_simulation rfl fun _ => rfl) (fun t _ => goesOn_done) fun seen t ht => ?_
  refine goesOn_remove saw_stable ht fun removed t ht => ?_
  refine goesOn_add saw_stable ht fun error t ht => ?_
  cases error with
  | none => exact goesOn_done
  | some error =>
    refine goesOn_now saw_stable ht fun now t ht => ?_
    exact goesOn_update ht (by decide) (fun _ => rfl) (fun _ => rfl) (fun _ => rfl)
      (fits_simulation rfl fun _ => rfl) (fun t _ => goesOn_done) fun _ t _ => goesOn_done

/-! ## Designs and layouts -/

/-- A patch that ends a job and leaves the bundle. -/
theorem fits_ended {patch : Patch} (hstatus : patch.status ≠ .queued)
    (h : ∀ j, (patch.data j).gerbersKey = j.gerbersKey) : patch.Fits k where
  requeues := fun he => absurd he hstatus
  bundle := fun j hnone hne => absurd ((h j).trans hnone) hne

theorem goesOn_createPaired {kind : Kind} (hkind : kind ≠ .simulation) (name : String)
    (guards : List (Check × String)) :
    GoesOn key i (createPaired kind name guards) (fun _ _ => True) s := by
  refine Contract.keeps_bind ((goesOn_checks anything_stable guards trivial).mono ?_)
  rintro (_ | message) t ht
  · refine goesOn_insert anything_stable ht fun id t ht => ?_
    refine goesOn_add anything_stable ht fun error t ht => ?_
    cases error with
    | none => exact goesOn_done
    | some error =>
      refine goesOn_now anything_stable ht fun now t ht => ?_
      exact goesOn_updateMany (by decide) (fun he => absurd he hkind)
        (fits_ended Status.noConfusion fun _ => rfl) anything_stable ht fun _ t _ => goesOn_done
  · exact goesOn_done

/-- A queued row is canceled by id. -/
theorem goesOn_cancelQueued {now : Nat} {st : Status} (hst : st = .queued)
    {next : Option Nat → Request Reply} (h : Saw key i k seen st false s)
    (hnext : ∀ found t, GoesOn key i (next found) (fun _ _ => True) t) :
    GoesOn key i (.exec (.update k
      ⟨.canceled, fun j => { j with abortRequested := true, finishedAt := some now }⟩ seen false)
      next) (fun _ _ => True) s := by
  subst hst
  exact goesOn_update h (by decide) (fun he => nomatch he) (fun he => nomatch he)
    (fun he => nomatch he) (fits_ended Status.noConfusion fun _ => rfl) (fun t _ => hnext _ t)
    fun _ t _ => hnext _ t

theorem goesOn_requestCancelOf (kind : Kind) (notFound : String) (jobId : Text) :
    GoesOn key i (requestCancelOf kind notFound jobId) (fun _ _ => True) s := by
  refine goesOn_find anything_stable trivial (fun t _ => goesOn_done) fun look t _ hsaw => ?_
  refine goesOn_ask saw_stable hsaw (fun _ _ => ⟨_, rfl⟩) fun refused t ht => ?_
  cases refused with
  | some message => exact goesOn_done
  | none =>
    refine goesOn_ite (fun hqueued => ?_) fun _ => goesOn_ite (fun _ => ?_) fun _ => goesOn_done
    · refine goesOn_now saw_stable ht fun now t ht => ?_
      refine goesOn_cancelQueued hqueued ht fun found t => ?_
      cases found <;> exact goesOn_done
    · exact goesOn_requestAbort saw_stable ht fun found t _ =>
        goesOn_ite (fun _ => goesOn_done) fun _ => goesOn_done

theorem goesOn_cancelDesignJob (id : Text) :
    GoesOn key i (cancelDesignJob id) (fun _ _ => True) s := by
  refine goesOn_find anything_stable trivial (fun t _ => goesOn_done) fun look t _ ht => ?_
  refine goesOn_ite (fun hqueued => ?_) fun _ => goesOn_ite (fun _ => ?_) fun _ => goesOn_done
  · refine goesOn_now saw_stable ht fun now t ht => ?_
    refine goesOn_cancelQueued hqueued ht fun found t => ?_
    cases found <;> exact goesOn_done
  · exact goesOn_requestAbort saw_stable ht fun found t _ =>
      goesOn_ite (fun _ => goesOn_done) fun _ => goesOn_done

theorem goesOn_isAbortRequested (hH : (contract key).Stable i H) (h : H s) :
    GoesOn key i (isAbortRequested k) (fun _ => H) s :=
  goesOn_find hH h (fun _ ht => Contract.keeps_done ht) fun _ _ ht _ => Contract.keeps_done ht

theorem goesOn_finishDesign {jobId : Text} {data : Finish} (hstatus : data.status ≠ .queued)
    (h : Saw key i (.design, jobId) seen .running true s) :
    GoesOn key i (finishDesign jobId data seen) (fun _ _ => True) s := by
  refine goesOn_now saw_stable h fun now t ht => ?_
  exact goesOn_update ht (by decide) (fun he => nomatch he) (fun he => nomatch he) (fun _ => rfl)
    (fits_ended hstatus fun _ => rfl) (fun t _ => goesOn_done) fun _ t _ => goesOn_done

theorem goesOn_processDesignJob (configured : Bool) (jobId : Text) :
    GoesOn key i (processDesignJob configured jobId) (fun _ _ => True) s := by
  refine goesOn_now anything_stable trivial fun now t ht => ?_
  refine goesOn_claim (fun _ => rfl) (by decide) anything_stable ht (fun t _ => goesOn_done)
    fun seen t hclaimed hsaw => ?_
  refine goesOn_ite (fun _ => goesOn_finishDesign Status.noConfusion hsaw) fun _ => ?_
  refine goesOn_run saw_stable hsaw hclaimed ?_ (fun _ ht => ht) fun outcome t ht => ?_
  · exact fun input t u a hs => (Prod.mk.inj (Option.some.inj hs)).1.symm
  cases outcome with
  | aborted => exact goesOn_finishDesign Status.noConfusion ht
  | threw message => exact goesOn_finishDesign Status.noConfusion ht
  | result json =>
    change GoesOn key i (isAbortRequested (.design, jobId) >>= _) _ t
    refine Contract.keeps_bind ((goesOn_isAbortRequested saw_stable ht).mono fun aborted u hu => ?_)
    exact goesOn_ite (fun _ => goesOn_finishDesign Status.noConfusion hu) fun _ =>
      goesOn_finishDesign Status.noConfusion hu

theorem goesOn_finishLayout {jobId : Text} {data : Finish} (hstatus : data.status ≠ .queued)
    (hbundle : data.gerbersKey ≠ none → data.status = .succeeded) :
    GoesOn key i (finishLayout jobId data) (fun _ _ => True) s := by
  refine goesOn_now anything_stable trivial fun now t ht => ?_
  refine goesOn_updateMany (by decide) (fun he => nomatch he) ⟨?_, ?_⟩ anything_stable ht
    fun _ t _ => goesOn_done
  · exact fun he => absurd he hstatus
  · intro j hnone hne
    refine hbundle fun he => hne ?_
    change (truthy data.gerbersKey).or j.gerbersKey = none
    rw [he, hnone]
    rfl

theorem goesOn_isAborted (hH : (contract key).Stable i H) (jobId : Text) (polls : Nat) (h : H s) :
    GoesOn key i (isAborted jobId polls) (fun _ => H) s := by
  induction polls generalizing s with
  | zero => exact Contract.keeps_done h
  | succ polls ih =>
    refine Contract.keeps_bind ((goesOn_isAbortRequested hH h).mono fun aborted t ht => ?_)
    exact goesOn_ite (fun _ => Contract.keeps_done ht) fun _ => ih ht

theorem goesOn_processLayoutJob (jobId : Text) :
    GoesOn key i (processLayoutJob jobId) (fun _ _ => True) s := by
  refine goesOn_now anything_stable trivial fun now t ht => ?_
  refine goesOn_claim (fun _ => rfl) (by decide) anything_stable ht (fun t _ => goesOn_done)
    fun seen t ht _ => ?_
  have hfailed : ∀ {data : Finish} {u : Db}, data.status = .failed → data.gerbersKey = none →
      GoesOn key i (finishLayout jobId data) (fun _ _ => True) u := fun hs hkey =>
    goesOn_finishLayout (fun he => nomatch hs.symm.trans he) fun hne => absurd hkey hne
  refine goesOn_find claimed_stable ht (fun t _ => hfailed rfl rfl) fun look t ht _ => ?_
  refine goesOn_ask claimed_stable ht (fun _ _ => ⟨_, rfl⟩) fun polls t ht => ?_
  change GoesOn key i (isAborted jobId polls >>= _) _ t
  refine Contract.keeps_bind ((goesOn_isAborted claimed_stable jobId polls ht).mono ?_)
  intro abortSeen t ht
  refine goesOn_run anything_stable trivial ht ?_ (fun _ ht => ht) fun outcome t _ => ?_
  · exact fun input t u a hs => (Prod.mk.inj (Option.some.inj hs)).1.symm
  cases outcome with
  | notOk errors diagnostics => exact hfailed rfl rfl
  | withheld inspection => exact goesOn_finishLayout Status.noConfusion fun _ => rfl
  | delivered result glbKey => exact goesOn_finishLayout Status.noConfusion fun _ => rfl
  | threw message =>
    refine goesOn_ite (fun _ => ?_) fun _ => hfailed rfl rfl
    exact goesOn_finishLayout Status.noConfusion fun hne => absurd rfl hne

theorem goesOn_reapRows {kind : Kind} (hkind : kind ≠ .simulation) (nowMs runningDeadlineMs : Nat)
    (rows : List (Text × Job)) (reaped : Nat) :
    GoesOn key i (reapRows kind nowMs runningDeadlineMs rows reaped) (fun _ _ => True) s := by
  induction rows generalizing s reaped with
  | nil => exact goesOn_done
  | cons row rows ih =>
    rw [reapRows]
    refine goesOn_ask anything_stable trivial (fun _ _ => ⟨_, rfl⟩) fun state t ht => ?_
    rw [Prog.bind]
    cases reapDecision row.2 state nowMs runningDeadlineMs with
    | none => exact ih reaped
    | some reason =>
      exact goesOn_updateMany (by decide) (fun he => absurd he hkind)
        (fits_ended Status.noConfusion fun _ => rfl) anything_stable ht fun count t _ =>
          ih (reaped + count)

theorem goesOn_reapStaleJobs {kind : Kind} (hkind : kind ≠ .simulation)
    (graceMs runningDeadlineMs : Nat) :
    GoesOn key i (reapStaleJobs kind graceMs runningDeadlineMs) (fun _ _ => True) s := by
  refine goesOn_now anything_stable trivial fun now t ht => ?_
  refine goesOn_ask anything_stable ht (fun _ _ => ⟨_, rfl⟩) fun rows t _ => ?_
  change GoesOn key i (reapRows kind now runningDeadlineMs rows 0 >>= _) _ t
  refine Contract.keeps_bind ((goesOn_reapRows hkind now runningDeadlineMs rows 0).mono ?_)
  exact fun _ _ _ => goesOn_done

theorem goesOn_program (call : Call) (key : Key) (i : Nat) (s : Db) :
    GoesOn key i call.program (fun _ _ => True) s := by
  cases call with
  | createFromVersion versionId => exact goesOn_createSimulation _
  | createQuickSim => exact goesOn_createSimulation _
  | createMonteCarloJob => exact goesOn_createSimulation _
  | createCornerJob => exact goesOn_createSimulation _
  | createTempCornerJob => exact goesOn_createSimulation _
  | createSupplyCornerJob => exact goesOn_createSimulation _
  | processJob job => exact goesOn_processJob job
  | cancelSimJob id => exact goesOn_cancelSimJob id
  | retrySimJob id => exact goesOn_retrySimJob id
  | createDesign => exact goesOn_createPaired Kind.noConfusion _ _
  | requestCancelDesign jobId => exact goesOn_requestCancelOf _ _ jobId
  | cancelDesignJob id => exact goesOn_cancelDesignJob id
  | processDesignJob configured jobId => exact goesOn_processDesignJob configured jobId
  | reapStaleDesignJobs graceMs deadline => exact goesOn_reapStaleJobs Kind.noConfusion _ _
  | createLayout dto => exact goesOn_createPaired Kind.noConfusion _ _
  | requestCancelLayout jobId => exact goesOn_requestCancelOf _ _ jobId
  | processLayoutJob jobId => exact goesOn_processLayoutJob jobId
  | reapStaleLayoutJobs graceMs deadline => exact goesOn_reapStaleJobs Kind.noConfusion _ _

end

/-! ## Runs -/

def Db.statusOf (s : Db) (key : Key) : Option Status := (s.jobs.get? key).map (·.job.status)

theorem sound_start (key : Key) : Sound key {} where
  known := fun ⟨_, hi⟩ => nomatch hi
  ran := fun _ hi => nomatch hi
  claimedOnce := fun _ => Nat.zero_le 1
  ranOnce := fun _ => Nat.zero_le 1
  row := fun _ hrow => nomatch hrow

/-- The store after some calls and turns, from empty tables. -/
def storeAfter (actions : List (Action Input Call)) : Db :=
  ((Pool.start {}).run sem Call.program actions).store

/-- Nobody writes the status of the row between a look at it and a write by id, in a run. -/
def Undisturbed (key : Key) (actions : List (Action Input Call)) : Prop :=
  (Pool.start ({} : Db)).Meets sem Call.program (Unchanged key) actions

instance (key : Key) (actions : List (Action Input Call)) : Decidable (Undisturbed key actions) :=
  inferInstanceAs (Decidable (Pool.Meets _ _ _ _ _))

theorem sound_storeAfter {key : Key} {actions : List (Action Input Call)}
    (h : Undisturbed key actions) : Sound key (storeAfter actions) :=
  Contract.inv_run (c := contract key) (fun call i s _ => goesOn_program call key i s)
    (sound_start key) h

/-- What the end of a run leaves of its beginning. -/
theorem exists_relies {key : Key} {actions more : List (Action Input Call)}
    (h : Undisturbed key (actions ++ more)) :
    ∃ j, Relies key j (storeAfter actions) (storeAfter (actions ++ more)) := by
  have hprogram : ∀ (call : Call) (i : Nat) (s : Db), (contract key).inv s →
      (contract key).Keeps sem (Unchanged key) i call.program (fun _ _ => True) s :=
    fun call i s _ => goesOn_program call key i s
  obtain ⟨hfirst, hrest⟩ := Runs.along_append.mp h
  have hholds := Contract.holds_run (c := contract key) hprogram (sound_start key) hfirst
  have hrely := hholds.rely_run hprogram hrest (Nat.le_refl _)
  rw [Pool.run, Pool.run, ← Runs.final_append] at hrely
  exact ⟨_, hrely⟩

/-- What a run leaves of a simulation. -/
structure SimulationEnded (id : Text) (before after : Db) : Prop where
  /-- A simulation that has ended changes by a retry only. -/
  kept : ∀ row ∈ before.jobs.get? (.simulation, id), ∀ row' ∈ after.jobs.get? (.simulation, id),
    row.job.status.terminal = true → row'.retries = row.retries →
      row'.job.outcome = row.job.outcome
  /-- Once it is canceled, nobody runs it who has not claimed it before. -/
  notRun : ∀ row ∈ before.jobs.get? (.simulation, id), ∀ row' ∈ after.jobs.get? (.simulation, id),
    row.job.status = .canceled → row'.retries = row.retries →
      ∀ e ∈ after.runs, e.2 = (.simulation, id) → e ∈ before.claims
  /-- One that is to be run again has not ended. -/
  pending : ∀ row ∈ after.jobs.get? (.simulation, id),
    row.retrying = true → row.job.status.terminal = false

/-- What a run leaves of a design or a layout. -/
structure FirstTerminalWins (key : Key) (before after : Db) : Prop where
  oneRun : after.runs.countP (·.2 = key) ≤ 1
  kept : ∀ st ∈ before.statusOf key, st.terminal = true → after.statusOf key = some st
  bundle : ∀ row ∈ after.jobs.get? key, row.job.gerbersKey ≠ none → row.job.status = .succeeded

theorem first_terminal_wins {key : Key} (hkey : key.1 ≠ .simulation)
    {actions more : List (Action Input Call)} (h : Undisturbed key (actions ++ more)) :
    FirstTerminalWins key (storeAfter actions) (storeAfter (actions ++ more)) := by
  obtain ⟨hfirst, -⟩ := Runs.along_append.mp h
  have hbefore := sound_storeAfter hfirst
  have hsound := sound_storeAfter h
  obtain ⟨j, hrelies⟩ := exists_relies h
  refine ⟨hsound.ranOnce hkey, fun st hst ht => ?_, fun row hrow => (hsound.row row hrow).bundle⟩
  obtain ⟨row, hrow, rfl⟩ := Option.map_eq_some_iff.mp hst
  obtain ⟨row', hrow', hlater⟩ := hrelies.row row hrow
  have hretries := (hsound.row row' hrow').retried hkey
  have hretries' := (hbefore.row row hrow).retried hkey
  rw [Db.statusOf, hrow', Option.map_some,
    status_of_outcome (hlater.ended ht (hretries.trans hretries'.symm))]

/-! ## Runs of one job -/

/-- So many turns of a program. -/
def turns (i n : Nat) (input : Input) : List (Action Input Call) := List.replicate n (.turn i input)

def first : Text := "first".toList

/-- A simulation is created. -/
def submitted : List (Action Input Call) := [.call .createQuickSim] ++ turns 0 5 { id := first }

def simulated : Input where
  simulate := .ok { success := true, result := some ⟨"[]".toList, 1⟩ }

/-- The simulator could not be started. -/
def notLaunched : Input where
  simulate := .ok { success := false, infra := true }

/-- ngspice rejected the deck. -/
def rejected : Input where
  simulate := .ok { success := false }

/-- The first attempt fails and the second succeeds. -/
def secondAttempt : List (Action Input Call) :=
  submitted ++ [.call (.processJob { jobId := first, attempts := some 2 })] ++
    turns 1 4 notLaunched ++
    [.call (.processJob { jobId := first, attemptsMade := 1, attempts := some 2 })] ++
    turns 2 5 simulated

/-- The job is delivered once more. -/
def redelivered : List (Action Input Call) :=
  [.call (.processJob { jobId := first })] ++ turns 3 5 rejected

/-- Two attempts have claimed the row; the first succeeds. -/
def overlapping : List (Action Input Call) :=
  submitted ++ [.call (.processJob { jobId := first }), .call (.processJob { jobId := first })] ++
    turns 1 2 {} ++ turns 2 2 {} ++ turns 1 3 simulated

/-- A layout is created, and its owner has looked at it to cancel it. -/
def aboutToCancel : List (Action Input Call) :=
  [.call (.createLayout {})] ++ turns 0 4 { id := first } ++
    [.call (.requestCancelLayout first)] ++ turns 1 3 {}

def delivered : Input where
  layout := .delivered "{}".toList none

/-- The worker delivers the layout. -/
def thenDelivered : List (Action Input Call) :=
  [.call (.processLayoutJob first)] ++ turns 2 7 delivered

theorem first_terminal_wins_delivered :
    (storeAfter (aboutToCancel ++ turns 1 1 {})).statusOf (.layout, first) = some .canceled ∧
    FirstTerminalWins (.layout, first) (storeAfter (aboutToCancel ++ turns 1 1 {}))
      (storeAfter (aboutToCancel ++ turns 1 1 {} ++ thenDelivered)) :=
  ⟨by decide +kernel, first_terminal_wins (by decide) (by decide +kernel)⟩

/-- The cancel is written after the worker has delivered the layout. -/
theorem terminal_overwritten :
    ¬ ∀ (key : Key) (actions more : List (Action Input Call)), key.1 ≠ .simulation →
      FirstTerminalWins key (storeAfter actions) (storeAfter (actions ++ more)) := by
  intro h
  have hkept := (h (.layout, first) (aboutToCancel ++ thenDelivered) (turns 1 1 {}) (by decide)).kept
  revert hkept
  decide +kernel

end CircuitForge.Jobs
