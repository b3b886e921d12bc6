/-
Guarded creations over every interleaving.

A creation is behind the check that its lock covers, or nothing limits it.  So an organization
stays within the limits that are reported for it, whatever else goes on.
-/
import CircuitForge.Api.QuotaChecks

namespace CircuitForge.Usage

open Js Requests Transactions
open Jobs (Kind Status)

section

variable [Config] {orgs : Map Text Organization} {org : Text} {ρ ρ' : Type} {i : Nat} {s t u : Db}
  {locks : List (Domain × Text)} {own : List Write} {checks : List Check} {K : Db → Prop}
  {Q : ρ → Db → Prop} {kind : Kind} {orgId : Text}

/-! ## Transactions -/

theorem goesOn_lock {domain : Domain} {next : Unit → Request ρ} (h : Here i [] [] checks s)
    (hnext : ∀ t, Here i [(domain, orgId)] [] checks t → GoesOn orgs org i (next ()) Q t) :
    GoesOn orgs org i (.exec (.lock domain orgId) next) Q s := by
  refine goesOn_exec (lasting_const True) h trivial fun t hinv ht _ u a hs => ?_
  rw [exec] at hs
  split at hs
  · cases hs
  case isFalse hfree =>
    obtain ⟨rfl, -⟩ := Prod.mk.inj (Option.some.inj hs)
    have hnobody : ∀ j, ((domain, orgId), j) ∉ t.locks := fun j hj =>
      hfree (List.any_eq_true.mpr ⟨_, hj, decide_eq_true rfl⟩)
    refine ⟨steps_lock hinv hnobody, hnext _ ⟨fun d => ?_, t.toStore.own_rollback_self i, ht.checks⟩⟩
    have hmine : (d, i) ∈ t.locks ↔ d ∈ [] := ht.locks d
    simp [hmine]

omit [Config] in
theorem here_finish {store : Store Tables Write} (h : Here i locks own checks s)
    (hown : store.own i = []) : Here i [] [] checks (s.finish i store) where
  locks := fun d => by simp [Db.finish]
  own := hown
  checks := h.checks

theorem goesOn_rollback {next : Unit → Request ρ} (h : Here i locks own checks s)
    (hnext : ∀ t, Here i [] [] checks t → GoesOn orgs org i (next ()) Q t) :
    GoesOn orgs org i (.exec .rollback next) Q s := by
  refine goesOn_exec (lasting_const True) h trivial fun t hinv ht _ u a hs => ?_
  obtain ⟨rfl, -⟩ := Prod.mk.inj (Option.some.inj hs)
  exact ⟨steps_rollback hinv, hnext _ (here_finish ht (t.toStore.own_rollback_self i))⟩

theorem goesOn_commit (hK : Lasting orgs org i locks K) {next : Unit → Request ρ}
    (h : Here i locks own checks s) (hk : K s)
    (hcovered : ∀ t, K t → ∀ row, .asset row ∈ own → row.orgId = org → Covered orgs org i 0 t)
    (hnext : ∀ t, Here i [] [] checks t → GoesOn orgs org i (next ()) Q t) :
    GoesOn orgs org i (.exec .commit next) Q s := by
  refine goesOn_exec hK h hk fun t hinv ht hkt u a hs => ?_
  obtain ⟨rfl, -⟩ := Prod.mk.inj (Option.some.inj hs)
  have hown := t.toStore.own_commit_self Write.apply i
  refine ⟨steps_commit hinv fun row hrow => hcovered t hkt row (ht.own ▸ hrow), hnext _ ?_⟩
  have hhere := here_finish ht hown
  exact ⟨hhere.locks, hhere.own, hhere.checks⟩

omit [Config] in
theorem here_write (h : Here i locks own checks s) (w : Write) :
    Here i locks (own ++ [w]) checks (s.write i true w) where
  locks := h.locks
  own := h.own ▸ s.toStore.own_write_self i w
  checks := h.checks

/-- A job is created, in a transaction or at once. -/
theorem goesOn_createJob (hK : Lasting orgs org i locks K) {tx : Bool} {next : Unit → Request ρ}
    (h : Here i locks own checks s) (hk : K s)
    (hclear : ∀ t, Here i locks own checks t → K t → Clear orgs org i kind orgId t)
    (hnext : ∀ row t, Here i locks (if tx then own ++ [.job row] else own) checks t →
      GoesOn orgs org i (next ()) Q t) :
    GoesOn orgs org i (.exec (.createJob kind orgId tx) next) Q s := by
  refine goesOn_exec hK h hk fun t hinv ht hkt u a hs => ?_
  obtain ⟨rfl, -⟩ := Prod.mk.inj (Option.some.inj hs)
  refine ⟨steps_createJob hinv tx (hclear t ht hkt), ?_⟩
  cases tx with
  | true => exact hnext _ _ (here_write ht _)
  | false => exact hnext { kind, orgId, createdAt := t.now } _ ⟨ht.locks, ht.own, ht.checks⟩

/-! ## Guarded creations -/

variable (orgs org) in
/-- A call about `domain` has ended as its checks say. -/
def Decided (domain : Domain) (orgId : Text) (addBytes : Int) (checks : List Check) (r : Reply) :
    Prop :=
  ((∃ e, r = .quotaExceeded e) ∨ r = .created domain orgId) ∧
    (orgId = org → Judged orgs domain orgId addBytes checks (∃ e, r = .quotaExceeded e))

omit [Config] in
theorem created_ne_quotaExceeded {domain : Domain} :
    ¬ ∃ e, Reply.created domain orgId = .quotaExceeded e := by
  rintro ⟨e, he⟩
  cases he

theorem goesOn_withOrgLock {domain : Domain} {assert : Request (Option QuotaError)}
    {create : Request Unit} {addBytes : Int} (h : Here i [] [] [] s)
    (hassert : ∀ t, Here i [(domain, orgId)] [] [] t → GoesOn orgs org i assert (fun e u => ∃ cs,
      Here i [(domain, orgId)] [] cs u ∧
        (orgId = org → Judged orgs domain orgId addBytes cs (e.isSome = true)) ∧
          (e = none → K u)) t)
    (hcreate : ∀ cs t, Here i [(domain, orgId)] [] cs t → K t → GoesOn orgs org i
      (create >>= fun _ => ask .commit >>= fun _ => pure (Reply.created domain orgId))
      (fun r u => Here i [] [] cs u ∧ r = Reply.created domain orgId) t) :
    GoesOn orgs org i (withOrgLock domain orgId assert create) (fun r t => ∃ cs,
      Here i [] [] cs t ∧ Decided orgs org domain orgId addBytes cs r) s := by
  refine goesOn_lock h fun t ht => ?_
  rw [Prog.bind]
  refine Contract.keeps_bind ((hassert t ht).mono ?_)
  rintro e u ⟨cs, hu, hjudged, hk⟩
  cases e with
  | some error =>
    refine goesOn_rollback hu fun v hv => ⟨cs, hv, .inl ⟨error, rfl⟩, fun ho => ?_⟩
    have hj := hjudged ho
    exact ⟨hj.about, (iff_of_true ⟨error, rfl⟩ rfl).trans hj.refused, hj.complete⟩
  | none =>
    refine (hcreate cs u hu (hk rfl)).mono ?_
    rintro r v ⟨hv, rfl⟩
    refine ⟨cs, hv, .inr rfl, fun ho => ?_⟩
    have hj := hjudged ho
    refine ⟨hj.about, Iff.trans ?_ hj.refused, hj.complete⟩
    exact iff_of_false created_ne_quotaExceeded Bool.false_ne_true

/-- The gate of a guarded creation is open, and then its checks decide. -/
theorem goesOn_createGuarded {domain : Domain} {assert : Request (Option QuotaError)}
    {create : Bool → Request Unit} {addBytes : Int} (h : Here i [] [] [] s)
    (hassert : ∀ t, Here i [(domain, orgId)] [] [] t → GoesOn orgs org i assert (fun e u => ∃ cs,
      Here i [(domain, orgId)] [] cs u ∧
        (orgId = org → Judged orgs domain orgId addBytes cs (e.isSome = true)) ∧
          (e = none → K u)) t)
    (hcreate : ∀ cs t, Here i [(domain, orgId)] [] cs t → K t → GoesOn orgs org i
      (create true >>= fun _ => ask .commit >>= fun _ => pure (Reply.created domain orgId))
      (fun r u => Here i [] [] cs u ∧ r = Reply.created domain orgId) t)
    (hnow : ∀ t, Here i [] [] [] t → Unlimited (overrideIn orgs orgId) domain →
      GoesOn orgs org i (create false) (fun _ u => Here i [] [] [] u) t) :
    GoesOn orgs org i (createGuarded domain orgId domain.configured assert create) (fun r t =>
      ((orgs.get? orgId).getD {}).suspendedAt = none →
        ∃ cs, Here i [] [] cs t ∧ Decided orgs org domain orgId addBytes cs r) s := by
  refine goesOn_read (lasting_const True) h trivial (fun _ => rfl) fun t hinv ht _ => ?_
  have hgate : ((t.committed.organizations.get? orgId).getD {}).quotaOverride =
      overrideIn orgs orgId := by
    rw [hinv.organizations, overrideIn]
    cases orgs.get? orgId <;> rfl
  rw [Prog.bind]
  cases hsuspended : ((t.committed.organizations.get? orgId).getD {}).suspendedAt with
  | some suspendedAt =>
    intro hopen
    rw [hinv.organizations, hopen] at hsuspended
    cases hsuspended
  | none =>
    dsimp only
    split
    · exact (goesOn_withOrgLock ht hassert hcreate).mono fun r u hu _ => hu
    case isFalse hfree =>
      have hunlimited := unlimited_of_not_configured (Bool.not_eq_true _ ▸ hgate ▸ hfree)
      refine Contract.keeps_bind ((hnow t ht hunlimited).mono fun _ u hu _ => ?_)
      refine ⟨[], hu, .inr rfl, fun _ => ⟨List.forall_mem_nil _, ?_, fun m hm => .inl ?_⟩⟩
      · exact iff_of_false created_ne_quotaExceeded (by simp)
      · exact hunlimited m hm

theorem goesOn_createGuarded_jobs (kind : Kind) (assert : Request (Option QuotaError))
    (h : Here i [] [] [] s)
    (hassert : ∀ t, Here i [(.jobs kind, orgId)] [] [] t → GoesOn orgs org i assert (fun e u =>
      ∃ cs, Here i [(.jobs kind, orgId)] [] cs u ∧
        Judged orgs (.jobs kind) orgId 0 cs (e.isSome = true) ∧
          (e = none → RoomInFlight orgs org kind orgId u ∧ RoomThisMonth orgs org kind orgId u)) t) :
    GoesOn orgs org i (createGuarded (.jobs kind) orgId (Domain.jobs kind).configured assert
      fun tx => ask (.createJob kind orgId tx)) (fun r t =>
        ((orgs.get? orgId).getD {}).suspendedAt = none →
          ∃ cs, Here i [] [] cs t ∧ Decided orgs org (.jobs kind) orgId 0 cs r) s := by
  refine goesOn_createGuarded h
    (fun t ht => (hassert t ht).mono fun e u ⟨cs, hu, hjudged, hroom⟩ =>
      ⟨cs, hu, fun _ => hjudged, hroom⟩) (fun cs t ht hroom => ?_) fun t ht hunlimited => ?_
  · refine goesOn_createJob (lasting_roomInFlight.and lasting_roomThisMonth) ht hroom
      (fun u hu hroom ho _ => ⟨?_, ?_⟩) fun row u hu => ?_
    · subst ho
      exact (hu.locks _).mpr List.mem_cons_self
    · exact ⟨hroom.1 ho, hroom.2 ho⟩
    · refine goesOn_commit (lasting_const True) hu trivial (fun _ _ asset hmem => ?_)
        fun v hv => ⟨hv, rfl⟩
      exact Write.noConfusion (List.mem_singleton.mp hmem)
  · exact goesOn_createJob (lasting_const True) ht trivial
      (fun u _ _ ho hu => absurd (ho ▸ hunlimited) hu) fun _ u hu => hu

theorem covered_write (asset : Asset)
    (h : Covered orgs asset.orgId i asset.sizeBytes s) :
    Covered orgs asset.orgId i 0 (s.write i true (.asset asset)) := by
  intro l hl
  obtain ⟨c, hc, hmetric, ho, hle⟩ := h l hl
  refine ⟨c, hc, hmetric, ho, ?_⟩
  have hown : (s.write i true (.asset asset)).own i = s.own i ++ [.asset asset] :=
    s.toStore.own_write_self i _
  have hself := bytesOf_singleton_self asset
  rw [hown, List.filterMap_append, bytesOf_append]
  change s.committed.assetBytes asset.orgId +
    (bytesOf asset.orgId ((s.own i).filterMap Write.assetOf) + bytesOf asset.orgId [asset]) + 0 +
      c.tables.resultBytes asset.orgId ≤ l
  omega

theorem goesOn_createGuarded_asset (h : Here i [] [] [] s) (addBytes : Int) :
    GoesOn orgs org i (createAssetGuarded orgId addBytes fun tx =>
      ask (.createAsset ⟨orgId, addBytes⟩ tx)) (fun r t =>
        ((orgs.get? orgId).getD {}).suspendedAt = none →
          ∃ cs, Here i [] [] cs t ∧ Decided orgs org .storage orgId addBytes cs r) s := by
  refine goesOn_createGuarded h (fun t ht => goesOn_assertStorageQuota ht addBytes)
    (fun cs t ht hcovered => ?_) fun t ht hunlimited => ?_
  · refine goesOn_exec (lasting_covered addBytes) ht hcovered fun u hinv hu hcovered v a hs => ?_
    obtain ⟨rfl, -⟩ := Prod.mk.inj (Option.some.inj hs)
    refine ⟨steps_createAsset hinv fun ho _ => ?_, ?_⟩
    · subst ho
      exact (hu.locks _).mpr List.mem_cons_self
    · refine goesOn_commit (lasting_covered 0) (here_write hu _) (fun ho => ?_)
        (fun w hw row hrow ho => hw ?_) fun w hw => ⟨hw, rfl⟩
      · subst ho
        exact covered_write ⟨orgId, addBytes⟩ (hcovered rfl)
      · obtain rfl := Write.asset.inj (List.mem_singleton.mp hrow)
        exact ho
  · refine goesOn_exec (lasting_const True) ht trivial fun u hinv hu _ v a hs => ?_
    obtain ⟨rfl, -⟩ := Prod.mk.inj (Option.some.inj hs)
    exact ⟨steps_createAsset_now hinv fun ho => ho ▸ hunlimited, hu.locks, hu.own, hu.checks⟩

/-! ## Calls -/

/-- What a call creates: what its lock is about, its organization, and the bytes. -/
def Call.creates : Call → Option (Domain × Text × Int)
  | .createSim orgId => some (.jobs .simulation, orgId, 0)
  | .createDesign orgId => some (.jobs .design, orgId, 0)
  | .createLayout orgId => some (.jobs .layout, orgId, 0)
  | .createAsset orgId actualSizeBytes => some (.storage, orgId, actualSizeBytes)
  | .settle _ _ => none

variable (orgs org) in
/-- What is known of a call that has ended. -/
def Ended (call : Call) (i : Nat) (r : Reply) (s : Db) : Prop :=
  ((orgs.get? org).getD {}).suspendedAt = none →
    ∀ domain addBytes, call.creates = some (domain, org, addBytes) →
      Decided orgs org domain org addBytes (s.checksOf i) r

theorem stable_here : (contract orgs org).Stable i (Here i locks own checks) :=
  fun _ _ hr _ h => h.relies hr

theorem stable_ended (call : Call) (r : Reply) : (contract orgs org).Stable i (Ended orgs org call i r) := by
  intro s t hr _ h hopen domain addBytes hcreates
  rw [hr.checks]
  exact h hopen domain addBytes hcreates

theorem goesOn_createSimGuarded (h : Here i [] [] [] s) :
    GoesOn orgs org i (Call.createSim orgId).program (fun r t =>
      ((orgs.get? orgId).getD {}).suspendedAt = none →
        ∃ cs, Here i [] [] cs t ∧ Decided orgs org (.jobs .simulation) orgId 0 cs r) s :=
  goesOn_createGuarded_jobs .simulation (assertSimQuota orgId) h fun _ ht =>
    goesOn_override (lasting_const True) ht trivial fun _ hu _ =>
      goesOn_assertJobQuota hu rfl rfl rfl

theorem goesOn_createDesignGuarded (h : Here i [] [] [] s) :
    GoesOn orgs org i (Call.createDesign orgId).program (fun r t =>
      ((orgs.get? orgId).getD {}).suspendedAt = none →
        ∃ cs, Here i [] [] cs t ∧ Decided orgs org (.jobs .design) orgId 0 cs r) s :=
  goesOn_createGuarded_jobs .design (assertDesignQuota orgId) h fun _ ht =>
    goesOn_override (lasting_const True) ht trivial fun _ hu _ =>
      goesOn_assertJobQuota hu rfl rfl rfl

theorem goesOn_createLayoutGuarded (h : Here i [] [] [] s) :
    GoesOn orgs org i (Call.createLayout orgId).program (fun r t =>
      ((orgs.get? orgId).getD {}).suspendedAt = none →
        ∃ cs, Here i [] [] cs t ∧ Decided orgs org (.jobs .layout) orgId 0 cs r) s :=
  goesOn_createGuarded_jobs .layout (assertLayoutQuota orgId) h fun _ ht =>
    goesOn_assertJobQuota ht rfl rfl rfl

theorem goesOn_settle (h : Here i [] [] [] s) (row : Nat) (outcome : Outcome) :
    GoesOn orgs org i (Call.settle row outcome).program (fun _ _ => True) s := by
  refine goesOn_exec (lasting_const True) h trivial fun t hinv _ _ u a hs => ?_
  rw [exec] at hs
  split at hs
  · cases hs
  case h_2 job hjob =>
    split at hs
    · cases hs
    case isFalse hlive =>
      obtain ⟨rfl, -⟩ := Prod.mk.inj (Option.some.inj hs)
      exact ⟨steps_settle hinv hjob (Bool.not_eq_true _ ▸ hlive) outcome, trivial⟩

/-- A guarded creation that has ended as its checks say. -/
theorem ended_of_decided {call : Call} {domain : Domain} {addBytes : Int} {r : Reply}
    (hcreates : call.creates = some (domain, orgId, addBytes))
    (h : ((orgs.get? orgId).getD {}).suspendedAt = none →
      ∃ cs, Here i [] [] cs s ∧ Decided orgs org domain orgId addBytes cs r) :
    Ended orgs org call i r s := by
  intro hopen domain' addBytes' hcreates'
  rw [hcreates] at hcreates'
  cases hcreates'
  obtain ⟨cs, hhere, hdecided⟩ := h hopen
  exact hhere.checks ▸ hdecided

/-- Every call keeps what holds, and ends as its checks say. -/
theorem goesOn_program (call : Call) (h : Here i [] [] [] s) :
    GoesOn orgs org i call.program (Ended orgs org call i) s := by
  cases call with
  | createSim orgId => exact (goesOn_createSimGuarded h).mono fun _ _ => ended_of_decided rfl
  | createDesign orgId => exact (goesOn_createDesignGuarded h).mono fun _ _ => ended_of_decided rfl
  | createLayout orgId => exact (goesOn_createLayoutGuarded h).mono fun _ _ => ended_of_decided rfl
  | createAsset orgId actualSizeBytes =>
    exact (goesOn_createGuarded_asset h actualSizeBytes).mono fun _ _ => ended_of_decided rfl
  | settle row outcome =>
    exact (goesOn_settle h row outcome).mono fun _ _ _ _ _ _ hcreates => (nomatch hcreates)

end

/-! ## Runs -/

/-- Nothing is under way, and no job is from the future. -/
structure Db.Quiet (s : Db) : Prop where
  pending : s.pending = []
  locks : s.locks = []
  checks : s.checks = []
  stored : s.stored = []
  past : ∀ job ∈ s.committed.jobs, job.createdAt ≤ s.now

section

variable [Config]

/-- The organization is within the limits that are reported for it.  The bytes are over theirs
by no more than what jobs have stored between the check of a commit and the commit. -/
structure WithinLimits (org : Text) (s : Db) : Prop where
  concurrent : ∀ kind l,
    (s.committed.getOrgUsageForAdmin org s.now).limit (.concurrent kind) = some l →
      ∀ now, s.now ≤ now → s.committed.concurrent kind org now ≤ l
  monthly : ∀ kind l, (s.committed.getOrgUsageForAdmin org s.now).limit (.jobs kind) = some l →
    ∀ month, s.committed.jobs.countP
      (·.createdIn kind org (Months.start month) (Months.start (month + 1))) ≤ l
  stored : ∀ e ∈ s.stored, e.orgId = org → ∀ l,
    (s.committed.getOrgUsageForAdmin org s.now).limit .storageBytes = some l →
      ∃ c ∈ s.checks, c.program = e.program ∧ c.metric = .storageBytes ∧ c.orgId = org ∧
        e.tables.storedBytes org ≤ l + (e.tables.resultBytes org - c.tables.resultBytes org : Int)

theorem sound_start {s : Db} (hs : s.Quiet) {org : Text} (h : WithinLimits org s) :
    Sound s.committed.organizations org s := by
  have hoccupied : ∀ p, s.occupied p = s.committed.jobs.countP p := by
    intro p
    rw [Db.occupied, hs.pending]
    exact Nat.add_zero _
  have hlimit : ∀ metric, limitOf (overrideIn s.committed.organizations org) metric =
      (s.committed.getOrgUsageForAdmin org s.now).limit metric :=
    fun metric => (limit_report s.committed org s.now metric).symm
  exact
    { organizations := rfl
      heldOnce := fun d i j hi => by
        rw [hs.locks] at hi
        cases hi
      jobLocked := fun i row hw => by
        rw [hs.pending] at hw
        cases hw
      assetLocked := fun i row hw => by
        rw [hs.pending] at hw
        cases hw
      past := fun kind stop => by
        rw [hoccupied]
        refine List.countP_eq_zero.mpr fun job hjob hin => ?_
        have hpast := hs.past job hjob
        have hlater := (createdIn_iff.mp hin).2.2.1
        omega
      concurrent := fun kind l hl now hnow => by
        rw [hoccupied]
        exact h.concurrent kind l (hlimit _ ▸ hl) now hnow
      monthly := fun kind l hl month => by
        rw [hoccupied]
        exact h.monthly kind l (hlimit _ ▸ hl) month
      stored := fun e he => by
        rw [hs.stored] at he
        cases he }

theorem withinLimits_of_sound {orgs : Map Text Organization} {org : Text} {s : Db}
    (h : Sound orgs org s) : WithinLimits org s := by
  have hlimit : ∀ metric, (s.committed.getOrgUsageForAdmin org s.now).limit metric =
      limitOf (overrideIn orgs org) metric := by
    intro metric
    rw [limit_report, h.overrideOf]
  exact
    { concurrent := fun kind l hl now hnow =>
        Nat.le_trans (Nat.le_add_right _ _) (h.concurrent kind l (hlimit _ ▸ hl) now hnow)
      monthly := fun kind l hl month =>
        Nat.le_trans (Nat.le_add_right _ _) (h.monthly kind l (hlimit _ ▸ hl) month)
      stored := fun e he ho l hl => by
        obtain ⟨c, hc, hprogram, hmetric, horg, hle⟩ := h.stored e he ho l (hlimit _ ▸ hl)
        refine ⟨c, hc, hprogram, hmetric, horg, ?_⟩
        rw [Tables.storedBytes]
        omega }

/-- Over every interleaving an organization stays within its limits, and a creation is refused
where a limit is reached at its check, and only there. -/
theorem quota_caps {s : Db} (hs : s.Quiet) {org : Text} (h : WithinLimits org s)
    (actions : List (Action Nat Call)) :
    WithinLimits org ((Pool.start s).run sem Call.program actions).store ∧
      (((s.committed.organizations.get? org).getD {}).suspendedAt = none →
        ∀ i call r, (Action.calls actions)[i]? = some call →
          ((Pool.start s).run sem Call.program actions).programs[i]? = some (.done r) →
            ∀ domain addBytes, call.creates = some (domain, org, addBytes) →
              Decided s.committed.organizations org domain org addBytes
                (((Pool.start s).run sem Call.program actions).store.checksOf i) r) := by
  have hfresh : ∀ i, Here i [] [] [] s := by
    intro i
    refine ⟨fun d => ?_, ?_, ?_⟩
    · rw [hs.locks]
      exact iff_of_false List.not_mem_nil List.not_mem_nil
    · rw [Store.own, hs.pending]
      rfl
    · rw [Db.checksOf, hs.checks]
      rfl
  obtain ⟨hinv, hended⟩ := (contract s.committed.organizations org).ends_run
    (F := fun i => Here i [] [] []) (fun _ => stable_here) (fun call _ => stable_ended call)
    (fun call _ _ _ hhere => goesOn_program call hhere) (sound_start hs h) hfresh
    (Pool.meets_true (Pool.start s) actions)
  exact ⟨withinLimits_of_sound hinv, fun hopen i call r hcall hdone =>
    hended i call r hcall hdone hopen⟩

end

/-! ### A result that is stored meanwhile -/

/-- Every limit is ten. -/
abbrev everyTen : Config where
  get := fun _ => some ['1', '0']
  number := fun _ => some 10
  ofBigInt := fun n => n

def oneRunning : Db where
  committed :=
    { organizations := []
      jobs := [{ kind := .simulation, orgId := ['o'], createdAt := 0, status := .running }] }

/-- Between the check of an upload and its commit the job stores its result. -/
def resultMeanwhile : List (Action Nat Call) :=
  [.call (.createAsset ['o'] 5),
    .call (.settle 0
      { status := .succeeded
        metrics := some { storedResultBytes := some 100 }
        resultS3Key := some ['k'] }),
    .turn 0 0, .turn 0 0, .turn 0 0, .turn 0 0, .turn 0 0, .turn 1 0, .turn 0 0, .turn 0 0]

theorem quiet_oneRunning : oneRunning.Quiet where
  pending := rfl
  locks := rfl
  checks := rfl
  stored := rfl
  past := by decide

theorem limitOf_everyTen (metric : Metric) : @limitOf everyTen none metric = some 10 := by
  cases metric with
  | concurrent kind => cases kind <;> rfl
  | jobs kind => cases kind <;> rfl
  | simRuntimeMs => rfl
  | storageBytes => rfl

theorem withinLimits_oneRunning : @WithinLimits everyTen ['o'] oneRunning := by
  have hlimit : ∀ metric l, (@Tables.getOrgUsageForAdmin everyTen oneRunning.committed ['o']
      oneRunning.now).limit metric = some l → 1 ≤ l := by
    intro metric l hl
    obtain rfl : 10 = l := Option.some.inj ((limitOf_everyTen metric).symm.trans
      ((@limit_report everyTen oneRunning.committed ['o'] oneRunning.now metric).symm.trans hl))
    decide
  exact @WithinLimits.mk everyTen ['o'] oneRunning
    (fun _ l hl _ _ => Nat.le_trans List.countP_le_length (hlimit _ l hl))
    (fun _ l hl _ => Nat.le_trans List.countP_le_length (hlimit _ l hl))
    fun _ he => by cases he

/-- The upload is let in at its check, and with the result the bytes are over the limit. -/
theorem stored_exceeds_limit :
    oneRunning.Quiet ∧ @WithinLimits everyTen ['o'] oneRunning ∧
      ∃ e ∈ ((Pool.start oneRunning).run sem (@Call.program everyTen) resultMeanwhile).store.stored,
        e.orgId = ['o'] ∧
          (@Tables.getOrgUsageForAdmin everyTen e.tables ['o'] 0).limit .storageBytes = some 10 ∧
            10 < e.tables.storedBytes ['o'] := by
  refine ⟨quiet_oneRunning, withinLimits_oneRunning, _, List.mem_cons_self, rfl, ?_, ?_⟩
  · decide +kernel
  · decide +kernel

theorem quota_caps_meanwhile :
    @WithinLimits everyTen ['o']
        ((Pool.start oneRunning).run sem (@Call.program everyTen) resultMeanwhile).store ∧
      @Decided everyTen [] ['o'] .storage ['o'] 5
        (((Pool.start oneRunning).run sem (@Call.program everyTen) resultMeanwhile).store.checksOf 0)
        (.created .storage ['o']) := by
  have h := @quota_caps everyTen oneRunning quiet_oneRunning ['o'] withinLimits_oneRunning
    resultMeanwhile
  exact ⟨h.1, h.2 rfl 0 (.createAsset ['o'] 5) _ rfl rfl .storage 5 rfl⟩

end CircuitForge.Usage
