/-
The row of a job and its job in the queue.

Two stores are written without a common transaction.  A creator that adds the job under the
id of the row, and fails the row when the add fails, leaves no queued row without its job; the
creators of simulations do neither.
-/
import CircuitForge.Api.JobCalls

namespace CircuitForge.Jobs

open Js Requests

/-- Every row that a call leaves QUEUED has its job, and an administrator can cancel it. -/
structure LeavesPaired (s t : Db) : Prop where
  stored : ∀ key, t.jobs.get? key ≠ s.jobs.get? key → t.statusOf key = some .queued →
    key ∈ t.queue
  /-- The queue removes a job that no worker has taken. -/
  cancelable : ∀ id, t.jobs.get? (.simulation, id) ≠ s.jobs.get? (.simulation, id) →
    t.statusOf (.simulation, id) = some .queued → ∀ i inputs u r,
      (∀ input ∈ inputs, input.done = true) →
      (cancelSimJob id).eval sem i inputs t = some (u, r) →
        u.statusOf (.simulation, id) = some .canceled ∧ (.simulation, id) ∉ u.queue

/-- A request is refused by one of its checks. -/
def refused (guards : List (Check × String)) (inputs : List Input) : Bool :=
  (inputs.take guards.length).any fun input => input.error.isSome

/-- The calls that create a job, or create it again. -/
def Call.creates : Call → Bool
  | .createFromVersion _ | .createQuickSim | .createMonteCarloJob | .createCornerJob
  | .createTempCornerJob | .createSupplyCornerJob | .retrySimJob _ | .createDesign
  | .createLayout _ => true
  | _ => false

/-- What a creator of simulations checks; the others pair the row with its job. -/
def Call.unpaired : Call → Option (List (Check × String))
  | .createFromVersion versionId => some (fromVersionGuards versionId)
  | .createQuickSim => some quickSimGuards
  | .createMonteCarloJob => some (batchGuards "Monte-Carlo")
  | .createCornerJob => some (batchGuards "worst-case")
  | .createTempCornerJob => some (batchGuards "temperature-corner")
  | .createSupplyCornerJob => some (batchGuards "supply-corner")
  | _ => none

section

variable {i : Nat} {inputs : List Input} {s t : Db}

theorem leavesPaired_refl (s : Db) : LeavesPaired s s where
  stored := fun _ hne => absurd rfl hne
  cancelable := fun _ hne => absurd rfl hne

/-- The checks write nothing. -/
theorem eval_checks {guards : List (Check × String)} {failed : Option Text}
    (h : (checks guards).eval sem i inputs s = some (t, failed)) :
    t = s ∧ inputs.length ≤ guards.length ∧ (failed = none → inputs.length = guards.length) ∧
      inputs.any (fun input => input.error.isSome) = failed.isSome := by
  induction guards generalizing inputs s with
  | nil =>
    obtain ⟨rfl, rfl, rfl⟩ := Prog.eval_done_iff.mp h
    exact ⟨rfl, Nat.le_refl _, fun _ => rfl, rfl⟩
  | cons guard guards ih =>
    obtain ⟨input, rest, u, a, rfl, hs, hnext⟩ := Prog.eval_exec_iff.mp h
    obtain ⟨rfl, rfl⟩ := Prod.mk.inj (Option.some.inj hs)
    cases herror : input.error with
    | some issues =>
      rw [herror] at hnext
      obtain ⟨rfl, rfl, rfl⟩ := Prog.eval_done_iff.mp hnext
      refine ⟨rfl, Nat.succ_le_succ (Nat.zero_le _), (fun he => nomatch he), ?_⟩
      rw [List.any_cons, herror]
      rfl
    | none =>
      rw [herror] at hnext
      obtain ⟨rfl, hle, hlen, hany⟩ := ih hnext
      refine ⟨rfl, Nat.succ_le_succ hle, fun he => congrArg Nat.succ (hlen he), ?_⟩
      rw [List.any_cons, herror, hany]
      rfl

/-- A creator is refused, with nothing written, or goes on from its checks. -/
theorem eval_checked {guards : List (Check × String)} {next : Request Reply} {r : Reply}
    (h : (checks guards >>= fun failed => match failed with
      | some message => Prog.done (.refused message)
      | none => next).eval sem i inputs s = some (t, r)) :
    refused guards inputs = true ∧ t = s ∨
      refused guards inputs = false ∧ ∃ rest, next.eval sem i rest s = some (t, r) := by
  obtain ⟨first, rest, u, failed, rfl, hchecks, hnext⟩ := Prog.eval_bind_iff.mp h
  obtain ⟨rfl, hle, hlen, hany⟩ := eval_checks hchecks
  cases failed with
  | some message =>
    obtain ⟨rfl, rfl, -⟩ := Prog.eval_done_iff.mp hnext
    refine .inl ⟨?_, rfl⟩
    rw [refused, List.append_nil, List.take_of_length_le hle, hany]
    rfl
  | none =>
    refine .inr ⟨?_, rest, hnext⟩
    rw [refused, ← hlen rfl, List.take_left', hany]
    · rfl
    · rfl

/-- The cancel of an administrator, where the job is in the queue under the id of its row. -/
theorem canceled_of_stored {id : Text} {u : Db} {r : Reply}
    (hdone : ∀ input ∈ inputs, input.done = true)
    (hqueued : t.statusOf (.simulation, id) = some .queued) (hstored : (.simulation, id) ∈ t.queue)
    (h : (cancelSimJob id).eval sem i inputs t = some (u, r)) :
    u.statusOf (.simulation, id) = some .canceled ∧ (.simulation, id) ∉ u.queue := by
  obtain ⟨row, hrow, hstatus⟩ := Option.map_eq_some_iff.mp hqueued
  obtain ⟨_, rest, u₁, look, rfl, hfind, h⟩ := Prog.eval_exec_iff.mp h
  obtain ⟨rfl, rfl⟩ := Prod.mk.inj (Option.some.inj hfind)
  rw [hrow] at h
  change ((if row.job.status = .running then _ else if row.job.status ≠ .queued then _ else _ :
    Request Reply).eval sem i rest t) = _ at h
  rw [if_neg (by rw [hstatus]; decide), if_neg (by rw [hstatus]; decide)] at h
  obtain ⟨input, rest, u₂, removed, rfl, hremove, h⟩ := Prog.eval_exec_iff.mp h
  rw [sem, if_pos ⟨hdone input (by simp), hstored⟩] at hremove
  obtain ⟨rfl, rfl⟩ := Prod.mk.inj (Option.some.inj hremove)
  obtain ⟨_, rest, u₃, now, rfl, hnow, h⟩ := Prog.eval_exec_iff.mp h
  obtain ⟨rfl, rfl⟩ := Prod.mk.inj (Option.some.inj hnow)
  obtain ⟨_, rest, u₄, count, rfl, hupdate, h⟩ := Prog.eval_exec_iff.mp h
  rw [sem, hrow] at hupdate
  dsimp only at hupdate
  rw [if_pos (by rw [hstatus]; decide)] at hupdate
  obtain ⟨rfl, rfl⟩ := Prod.mk.inj (Option.some.inj hupdate)
  obtain ⟨rfl, rfl, -⟩ := Prog.eval_done_iff.mp h
  constructor
  · change ((Map.set _ _ _).get? _).map _ = _
    rw [Map.get?_set_self]
    rfl
  · intro hin
    exact of_decide_eq_true (List.mem_filter.mp hin).2 rfl

/-- A new row has an id that no row and no job of the queue has. -/
theorem insert_inv {kind : Kind} {input : Input} {u : Db} {id : Text}
    (h : sem input i (.insert kind) s = some (u, id)) :
    s.jobs.get? (kind, id) = none ∧ (kind, id) ∉ s.queue ∧
      ∃ row : Row, row.job.status = .queued ∧ u = s.put (kind, id) row := by
  rw [sem] at h
  split at h
  · cases h
  case isFalse hfree =>
    obtain ⟨rfl, rfl⟩ := Prod.mk.inj (Option.some.inj h)
    obtain ⟨hrow, hqueue⟩ := not_or.mp hfree
    refine ⟨?_, hqueue, _, ?_, rfl⟩
    · cases hget : s.jobs.get? (kind, input.id) with
      | none => rfl
      | some row => exact absurd (by rw [Map.has, hget]; rfl) hrow
    · rfl

theorem statusOf_put (s : Db) (key : Key) (row : Row) :
    (s.put key row).statusOf key = some row.job.status := by
  change ((s.jobs.set key row).get? key).map _ = _
  rw [Map.get?_set_self]
  rfl

/-- The job of a new simulation is stored under an id of the queue. -/
theorem leavesPaired_createSimulation {guards : List (Check × String)} {r : Reply}
    (h : (createSimulation guards).eval sem i inputs s = some (t, r)) :
    LeavesPaired s t ↔ refused guards inputs = true := by
  rcases eval_checked h with ⟨hrefused, rfl⟩ | ⟨hpassed, rest, h⟩
  · exact iff_of_true (leavesPaired_refl t) hrefused
  refine iff_of_false (fun hpaired => ?_) (by rw [hpassed]; exact Bool.false_ne_true)
  obtain ⟨_, rest, u, id, rfl, hinsert, h⟩ := Prog.eval_exec_iff.mp h
  obtain ⟨hnew, hqueue, row, hqueued, rfl⟩ := insert_inv hinsert
  obtain ⟨input, rest, v, error, rfl, hadd, h⟩ := Prog.eval_exec_iff.mp h
  have hv : v.jobs = s.jobs.set (.simulation, id) row ∧ (.simulation, id) ∉ v.queue := by
    rw [sem] at hadd
    split at hadd
    · cases hadd
    case isFalse hown =>
      have hne : input.id ≠ id := by
        rintro rfl
        refine hown ⟨rfl, ?_⟩
        rw [Map.has]
        change ((s.jobs.set _ row).get? _).isSome = true
        rw [Map.get?_set_self]
        rfl
      rw [Db.enqueue] at hadd
      split at hadd
      · obtain ⟨rfl, -⟩ := Prod.mk.inj (Option.some.inj hadd)
        refine ⟨rfl, fun hin => ?_⟩
        rcases List.mem_append.mp hin with hin | hin
        · exact hqueue hin
        · exact hne (Prod.mk.inj (List.mem_singleton.mp hin)).2.symm
      · obtain ⟨rfl, -⟩ := Prod.mk.inj (Option.some.inj hadd)
        exact ⟨rfl, hqueue⟩
  have ht : t = v := by
    cases error <;> exact (Prog.eval_done_iff.mp h).2.1
  subst ht
  refine hv.2 (hpaired.stored (.simulation, id) ?_ ?_)
  · rw [hv.1, Map.get?_set_self, hnew]
    exact Option.some_ne_none row
  · rw [Db.statusOf, hv.1, Map.get?_set_self, Option.map_some, hqueued]

/-- One row is written, and it has its job if it is queued. -/
theorem leavesPaired_of_written {k : Key}
    (hother : ∀ key', k ≠ key' → t.jobs.get? key' = s.jobs.get? key')
    (h : t.statusOf k = some .queued → k ∈ t.queue) : LeavesPaired s t := by
  have hstored : ∀ key', t.jobs.get? key' ≠ s.jobs.get? key' →
      t.statusOf key' = some .queued → key' ∈ t.queue := by
    intro key' hne hqueued
    by_cases hk : k = key'
    · exact hk ▸ h (hk ▸ hqueued)
    · exact absurd (hother key' hk) hne
  exact
    { stored := hstored
      cancelable := fun id hne hqueued _ _ _ _ hdone he =>
        canceled_of_stored hdone hqueued (hstored _ hne hqueued) he }

/-- A job that is added under the id of its row is stored, or the add has failed. -/
theorem add_inv {kind : Kind} {id : Text} {input : Input} {u : Db} {error : Option Text}
    (h : sem input i (.add kind (some id)) s = some (u, error)) :
    u.jobs = s.jobs ∧ (error = none → (kind, id) ∈ u.queue) := by
  rw [sem, if_neg fun he => Option.some_ne_none _ he.1] at h
  rw [Db.enqueue] at h
  split at h
  · obtain ⟨rfl, -⟩ := Prod.mk.inj (Option.some.inj h)
    exact ⟨rfl, fun _ => List.mem_append_right _ (List.mem_singleton.mpr rfl)⟩
  · obtain ⟨rfl, rfl⟩ := Prod.mk.inj (Option.some.inj h)
    exact ⟨rfl, fun he => absurd he (Option.some_ne_none _)⟩

theorem leavesPaired_createPaired {kind : Kind} {name : String} {guards : List (Check × String)}
    {r : Reply} (h : (createPaired kind name guards).eval sem i inputs s = some (t, r)) :
    LeavesPaired s t := by
  rcases eval_checked h with ⟨-, rfl⟩ | ⟨-, rest, h⟩
  · exact leavesPaired_refl t
  obtain ⟨_, rest, u, id, rfl, hinsert, h⟩ := Prog.eval_exec_iff.mp h
  obtain ⟨-, -, row, hqueued, rfl⟩ := insert_inv hinsert
  obtain ⟨_, rest, v, error, rfl, hadd, h⟩ := Prog.eval_exec_iff.mp h
  obtain ⟨hjobs, hstored⟩ := add_inv hadd
  have hother : ∀ key', (kind, id) ≠ key' → v.jobs.get? key' = s.jobs.get? key' := by
    intro key' hk
    rw [hjobs]
    exact Map.get?_set_ne hk s.jobs row
  cases error with
  | none =>
    obtain ⟨-, rfl, -⟩ := Prog.eval_done_iff.mp h
    exact leavesPaired_of_written hother fun _ => hstored rfl
  | some error =>
    -- the row that is still queued is failed
    obtain ⟨_, rest, w, now, rfl, hnow, h⟩ := Prog.eval_exec_iff.mp h
    obtain ⟨rfl, rfl⟩ := Prod.mk.inj (Option.some.inj hnow)
    obtain ⟨_, rest, w, count, rfl, hupdate, h⟩ := Prog.eval_exec_iff.mp h
    obtain ⟨-, rfl, -⟩ := Prog.eval_done_iff.mp h
    have hrow : v.jobs.get? (kind, id) = some row := by
      rw [hjobs]
      exact Map.get?_set_self s.jobs _ row
    rw [sem, hrow] at hupdate
    dsimp only at hupdate
    rw [if_pos (by rw [hqueued]; decide)] at hupdate
    obtain ⟨rfl, -⟩ := Prod.mk.inj (Option.some.inj hupdate)
    refine leavesPaired_of_written (k := (kind, id)) (fun key' hk => ?_) fun he => ?_
    · exact (Map.get?_set_ne hk v.jobs _).trans (hother key' hk)
    · rw [statusOf_put] at he
      cases he

theorem remove_inv {key : Key} {input : Input} {u : Db} {removed : Bool}
    (h : sem input i (.remove key) s = some (u, removed)) : u.jobs = s.jobs := by
  rw [sem] at h
  split at h <;>
  · obtain ⟨rfl, -⟩ := Prod.mk.inj (Option.some.inj h)
    rfl

theorem leavesPaired_retrySimJob {id : Text} {r : Reply}
    (h : (retrySimJob id).eval sem i inputs s = some (t, r)) : LeavesPaired s t := by
  obtain ⟨_, rest, u, look, rfl, hfind, h⟩ := Prog.eval_exec_iff.mp h
  obtain ⟨rfl, rfl⟩ := Prod.mk.inj (Option.some.inj hfind)
  cases hrow : s.jobs.get? (.simulation, id) with
  | none =>
    rw [hrow] at h
    obtain ⟨-, rfl, -⟩ := Prog.eval_done_iff.mp h
    exact leavesPaired_refl _
  | some row =>
    rw [hrow] at h
    change ((if row.job.status ∉ retriable then _ else _ : Request Reply).eval sem i rest s) = _ at h
    split at h
    · obtain ⟨-, rfl, -⟩ := Prog.eval_done_iff.mp h
      exact leavesPaired_refl _
    obtain ⟨_, rest, u, seen, rfl, hupdate, h⟩ := Prog.eval_exec_iff.mp h
    rw [sem, hrow] at hupdate
    obtain ⟨rfl, rfl⟩ := Prod.mk.inj (Option.some.inj hupdate)
    obtain ⟨_, rest, v, removed, rfl, hremove, h⟩ := Prog.eval_exec_iff.mp h
    obtain ⟨_, rest, w, error, rfl, hadd, h⟩ := Prog.eval_exec_iff.mp h
    obtain ⟨hjobs, hstored⟩ := add_inv hadd
    rw [remove_inv hremove] at hjobs
    have hother : ∀ key', (.simulation, id) ≠ key' → w.jobs.get? key' = s.jobs.get? key' := by
      intro key' hk
      rw [hjobs]
      exact Map.get?_set_ne hk s.jobs _
    cases error with
    | none =>
      obtain ⟨-, rfl, -⟩ := Prog.eval_done_iff.mp h
      exact leavesPaired_of_written hother fun _ => hstored rfl
    | some error =>
      -- the row is failed again
      obtain ⟨_, rest, x, now, rfl, hnow, h⟩ := Prog.eval_exec_iff.mp h
      obtain ⟨rfl, rfl⟩ := Prod.mk.inj (Option.some.inj hnow)
      obtain ⟨_, rest, x, found, rfl, hfail, h⟩ := Prog.eval_exec_iff.mp h
      obtain ⟨row', hget⟩ : ∃ row', w.jobs.get? (.simulation, id) = some row' :=
        ⟨_, by rw [hjobs]; exact Map.get?_set_self s.jobs _ _⟩
      rw [sem, hget] at hfail
      obtain ⟨rfl, rfl⟩ := Prod.mk.inj (Option.some.inj hfail)
      obtain ⟨-, rfl, -⟩ := Prog.eval_done_iff.mp h
      refine leavesPaired_of_written (k := (.simulation, id)) (fun key' hk => ?_) fun he => ?_
      · exact (Map.get?_set_ne hk w.jobs _).trans (hother key' hk)
      · rw [statusOf_put] at he
        cases he

/-- A call that creates a job leaves its row paired just where it stores the job under the id of
the row, or is refused. -/
theorem row_paired_iff (call : Call) (hcreates : call.creates = true) {r : Reply}
    (h : call.program.eval sem i inputs s = some (t, r)) :
    LeavesPaired s t ↔ call.unpaired.all (fun guards => refused guards inputs) = true := by
  cases call with
  | createFromVersion versionId => exact leavesPaired_createSimulation h
  | createQuickSim => exact leavesPaired_createSimulation h
  | createMonteCarloJob => exact leavesPaired_createSimulation h
  | createCornerJob => exact leavesPaired_createSimulation h
  | createTempCornerJob => exact leavesPaired_createSimulation h
  | createSupplyCornerJob => exact leavesPaired_createSimulation h
  | retrySimJob id => exact iff_of_true (leavesPaired_retrySimJob h) rfl
  | createDesign => exact iff_of_true (leavesPaired_createPaired h) rfl
  | createLayout dto => exact iff_of_true (leavesPaired_createPaired h) rfl
  | processJob job => exact nomatch hcreates
  | cancelSimJob id => exact nomatch hcreates
  | requestCancelDesign jobId => exact nomatch hcreates
  | cancelDesignJob id => exact nomatch hcreates
  | processDesignJob configured jobId => exact nomatch hcreates
  | reapStaleDesignJobs graceMs deadline => exact nomatch hcreates
  | requestCancelLayout jobId => exact nomatch hcreates
  | processLayoutJob jobId => exact nomatch hcreates
  | reapStaleLayoutJobs graceMs deadline => exact nomatch hcreates

end

/-- A design whose job was stored, though the reply was lost: the row is failed. -/
theorem row_paired_design :
    ∃ t r, Call.createDesign.program.eval sem 0 [{}, {}, { id := first },
        { error := some "timeout".toList }, {}, {}] {} = some (t, r) ∧
      LeavesPaired {} t :=
  ⟨_, _, rfl, (@row_paired_iff 0 [{}, {}, { id := first }, { error := some "timeout".toList },
    {}, {}] {} _ .createDesign rfl _ rfl).mpr rfl⟩

/-- A quick simulation is created, and its job is stored under the id 1. -/
theorem row_unpaired :
    ¬ ∀ (call : Call) (i : Nat) (inputs : List Input) (s t : Db) (r : Reply),
      call.creates = true → call.program.eval sem i inputs s = some (t, r) → LeavesPaired s t := by
  intro h
  have hpaired :=
    h .createQuickSim 0 [{}, {}, {}, { id := first }, { id := "1".toList }] {} _ _ rfl rfl
  have hstored := hpaired.stored (.simulation, first) (fun he => nomatch he) rfl
  revert hstored
  decide

end CircuitForge.Jobs
