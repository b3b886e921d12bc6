/-
Quotas over every interleaving of guarded creations and jobs that go on.

While a program holds the lock of a kind of jobs nobody else creates one, so what it has counted
bounds what is there until it commits.  A job that goes on does not raise a count.
-/
import CircuitForge.Api.Usage

namespace CircuitForge.Usage

open Js Requests Transactions
open Jobs (Kind Status)

/-! ## Counting -/

/-- The write creates a job that is counted. -/
def Write.isJob (p : Job → Bool) : Write → Bool
  | .job row => p row
  | .asset _ => false

/-- The jobs that are there and those that open transactions have created. -/
def Db.occupied (s : Db) (p : Job → Bool) : Nat :=
  s.committed.jobs.countP p + s.pending.countP fun e => e.2.isJob p

/-- A property of jobs of one kind and organization that a job does not come to have. -/
structure Counts (kind : Kind) (orgId : Text) (p : Job → Bool) : Prop where
  kind : ∀ job, p job = true → job.kind = kind
  orgId : ∀ job, p job = true → job.orgId = orgId
  settle : ∀ job outcome, job.status.terminal = false → p (job.settle outcome) = true →
    p job = true

theorem inFlight_iff {job : Job} {kind : Kind} {orgId : Text} {since : Nat} :
    job.inFlight kind orgId since = true ↔
      job.kind = kind ∧ job.orgId = orgId ∧ job.status.terminal = false ∧ since ≤ job.createdAt := by
  simp [Job.inFlight, and_assoc]

theorem createdIn_iff {job : Job} {kind : Kind} {orgId : Text} {start stop : Nat} :
    job.createdIn kind orgId start stop = true ↔
      job.kind = kind ∧ job.orgId = orgId ∧ start ≤ job.createdAt ∧ job.createdAt < stop := by
  simp [Job.createdIn, and_assoc]

theorem counts_inFlight (kind : Kind) (orgId : Text) (since : Nat) :
    Counts kind orgId (·.inFlight kind orgId since) where
  kind := fun _ h => (inFlight_iff.mp h).1
  orgId := fun _ h => (inFlight_iff.mp h).2.1
  settle := by
    intro job outcome hlive h
    obtain ⟨hk, ho, -, hs⟩ := inFlight_iff.mp h
    exact inFlight_iff.mpr ⟨hk, ho, hlive, hs⟩

theorem counts_createdIn (kind : Kind) (orgId : Text) (start stop : Nat) :
    Counts kind orgId (·.createdIn kind orgId start stop) where
  kind := fun _ h => (createdIn_iff.mp h).1
  orgId := fun _ h => (createdIn_iff.mp h).2.1
  settle := fun _ _ _ h => createdIn_iff.mpr (createdIn_iff.mp h)

theorem occupied_mono {s : Db} {p q : Job → Bool} (h : ∀ job, p job = true → q job = true) :
    s.occupied p ≤ s.occupied q := by
  refine Nat.add_le_add (List.countP_mono_left fun job _ => h job)
    (List.countP_mono_left fun e _ he => ?_)
  obtain ⟨i, w⟩ := e
  cases w with
  | job row => exact h row he
  | asset row => exact he

theorem occupied_inFlight_mono {s : Db} {kind : Kind} {orgId : Text} {since later : Nat}
    (h : since ≤ later) :
    s.occupied (·.inFlight kind orgId later) ≤ s.occupied (·.inFlight kind orgId since) := by
  refine occupied_mono fun job hj => ?_
  obtain ⟨hk, ho, hl, hs⟩ := inFlight_iff.mp hj
  exact inFlight_iff.mpr ⟨hk, ho, hl, Nat.le_trans h hs⟩

theorem occupied_createdIn_mono {s : Db} {kind : Kind} {orgId : Text} {start start' stop : Nat}
    (h : start ≤ start') :
    s.occupied (·.createdIn kind orgId start' stop) ≤ s.occupied (·.createdIn kind orgId start stop) := by
  refine occupied_mono fun job hj => ?_
  obtain ⟨hk, ho, hs, hl⟩ := createdIn_iff.mp hj
  exact createdIn_iff.mpr ⟨hk, ho, Nat.le_trans h hs, hl⟩

theorem countP_jobs_foldl (p : Job → Bool) (ws : List Write) (t : Tables) :
    (ws.foldl (fun t w => w.apply t) t).jobs.countP p =
      t.jobs.countP p + ws.countP (·.isJob p) := by
  induction ws generalizing t with
  | nil => rfl
  | cons w ws ih =>
    rw [List.foldl_cons, ih, List.countP_cons]
    cases w with
    | job row =>
      rw [Write.apply, List.countP_append, List.countP_singleton, Write.isJob]
      omega
    | asset row =>
      rw [Write.isJob, if_neg Bool.false_ne_true]
      rfl

theorem organizations_foldl (ws : List Write) (t : Tables) :
    (ws.foldl (fun t w => w.apply t) t).organizations = t.organizations := by
  induction ws generalizing t with
  | nil => rfl
  | cons w ws ih =>
    rw [List.foldl_cons, ih]
    cases w <;> rfl

/-- What the assets of an organization weigh. -/
def bytesOf (orgId : Text) (assets : List Asset) : Int :=
  (assets.filter (·.orgId = orgId)).foldl (fun total asset => total + asset.sizeBytes) 0

theorem foldl_sizeBytes (assets : List Asset) (total : Int) :
    assets.foldl (fun total asset => total + asset.sizeBytes) total =
      total + assets.foldl (fun total asset => total + asset.sizeBytes) 0 := by
  induction assets generalizing total with
  | nil => exact (Int.add_zero total).symm
  | cons asset assets ih =>
    rw [List.foldl_cons, ih, List.foldl_cons, ih (0 + asset.sizeBytes)]
    omega

theorem bytesOf_append (orgId : Text) (assets more : List Asset) :
    bytesOf orgId (assets ++ more) = bytesOf orgId assets + bytesOf orgId more := by
  rw [bytesOf, List.filter_append, List.foldl_append, foldl_sizeBytes]
  rfl

theorem bytesOf_singleton_of_ne {orgId : Text} {asset : Asset} (h : asset.orgId ≠ orgId) :
    bytesOf orgId [asset] = 0 := by
  simp [bytesOf, h]

theorem bytesOf_singleton_self (asset : Asset) :
    bytesOf asset.orgId [asset] = asset.sizeBytes := by
  simp [bytesOf]

theorem assetBytes_foldl (orgId : Text) (ws : List Write) (t : Tables) :
    (ws.foldl (fun t w => w.apply t) t).assetBytes orgId =
      t.assetBytes orgId + bytesOf orgId (ws.filterMap Write.assetOf) := by
  induction ws generalizing t with
  | nil => exact (Int.add_zero _).symm
  | cons w ws ih =>
    rw [List.foldl_cons, ih]
    cases w with
    | job row => rfl
    | asset row =>
      change bytesOf orgId (t.assets ++ [row]) + _ =
        bytesOf orgId t.assets + bytesOf orgId ([row] ++ ws.filterMap Write.assetOf)
      rw [bytesOf_append, bytesOf_append]
      omega

/-! ## Limits -/

theorem ofInt_none {o : Option OrgQuotaOverride} {column : OrgQuotaOverride → Option Int}
    (h : ∀ x, o = some x → column x = none) : ofInt o column = none := by
  cases o with
  | none => rfl
  | some x => rw [ofInt, Option.bind_some, h x rfl, Option.map_none]

section

variable [Config]

/-- The limits of an organization with the override `o`. -/
def limitOf (o : Option OrgQuotaOverride) : Metric → Option Nat
  | .concurrent .simulation => effective "QUOTA_SIM_CONCURRENT_PER_ORG" (ofInt o (·.simConcurrent))
  | .concurrent .design =>
    effective "QUOTA_DESIGN_CONCURRENT_PER_ORG" (ofInt o (·.designConcurrent))
  | .concurrent .layout => layoutConcurrentLimit
  | .jobs .simulation => effective "QUOTA_SIM_JOBS_PER_MONTH" (ofInt o (·.simJobsPerMonth))
  | .jobs .design => effective "QUOTA_DESIGN_JOBS_PER_MONTH" (ofInt o (·.designJobsPerMonth))
  | .jobs .layout => limit "QUOTA_LAYOUT_JOBS_PER_MONTH"
  | .simRuntimeMs =>
    effective "QUOTA_SIM_RUNTIME_MS_PER_MONTH" (ofInt o (·.simRuntimeMsPerMonth))
  | .storageBytes =>
    effective "QUOTA_STORAGE_BYTES_PER_ORG" ((o.bind (·.storageBytes)).map Config.ofBigInt)

theorem limit_report (t : Tables) (orgId : Text) (now : Nat) (metric : Metric) :
    (t.getOrgUsageForAdmin orgId now).limit metric = limitOf (t.overrideOf orgId) metric := by
  cases metric with
  | concurrent kind => cases kind <;> rfl
  | jobs kind => cases kind <;> rfl
  | simRuntimeMs => rfl
  | storageBytes => rfl

theorem used_concurrent (t : Tables) (orgId : Text) (now : Nat) (kind : Kind) :
    (t.getOrgUsageForAdmin orgId now).used (.concurrent kind) = t.concurrent kind orgId now := by
  cases kind <;> rfl

theorem used_jobs (t : Tables) (orgId : Text) (now : Nat) (kind : Kind) :
    (t.getOrgUsageForAdmin orgId now).used (.jobs kind) = (t.usageThisMonth kind orgId now).jobs := by
  cases kind <;> rfl

end

/-- The limits that a lock is taken for. -/
def Domain.metrics : Domain → List Metric
  | .jobs .simulation => [.concurrent .simulation, .jobs .simulation, .simRuntimeMs]
  | .jobs .design => [.concurrent .design, .jobs .design]
  | .jobs .layout => [.concurrent .layout, .jobs .layout]
  | .storage => [.storageBytes]

theorem concurrent_mem (kind : Kind) : Metric.concurrent kind ∈ (Domain.jobs kind).metrics := by
  cases kind <;> decide

theorem jobs_mem (kind : Kind) : Metric.jobs kind ∈ (Domain.jobs kind).metrics := by
  cases kind <;> decide

section

variable [Config]

/-- Nothing is limited. -/
def Unlimited (o : Option OrgQuotaOverride) (domain : Domain) : Prop :=
  ∀ metric ∈ domain.metrics, limitOf o metric = none

theorem effective_none {envKey : String} {override : Option Rat} (h : limit envKey = none)
    (ho : override = none) : effective envKey override = none := by
  rw [ho]
  exact h

/-- What decides whether a creation is behind a check. -/
def Domain.configured : Domain → Option OrgQuotaOverride → Bool
  | .jobs .simulation => fun o => hasSimQuota || simOverrideActive o
  | .jobs .design => fun o => hasDesignQuota || designOverrideActive o
  | .jobs .layout => fun _ => hasLayoutQuota
  | .storage => fun o => (limit "QUOTA_STORAGE_BYTES_PER_ORG").isSome || storageOverrideActive o

/-- A limit is configured where one is in effect. -/
theorem unlimited_of_not_configured {domain : Domain} {o : Option OrgQuotaOverride}
    (h : domain.configured o = false) : Unlimited o domain := by
  have hcolumn : ∀ {P : OrgQuotaOverride → Bool}, o.any P = false → ∀ x, o = some x → P x = false := by
    rintro P hP x rfl
    exact hP
  cases domain with
  | jobs kind =>
    cases kind with
    | simulation =>
      simp only [Domain.configured, hasSimQuota, simOverrideActive, Bool.or_eq_false_iff,
        Option.isSome_eq_false_iff, Option.isNone_iff_eq_none] at h
      obtain ⟨⟨⟨hc, hj⟩, hr⟩, ho⟩ := h
      have hx := hcolumn ho
      simp only [Bool.or_eq_false_iff, Option.isSome_eq_false_iff, Option.isNone_iff_eq_none] at hx
      intro metric hm
      simp only [Domain.metrics, List.mem_cons, List.not_mem_nil, or_false] at hm
      rcases hm with rfl | rfl | rfl
      · exact effective_none hc (ofInt_none fun x he => (hx x he).1.1)
      · exact effective_none hj (ofInt_none fun x he => (hx x he).1.2)
      · exact effective_none hr (ofInt_none fun x he => (hx x he).2)
    | design =>
      simp only [Domain.configured, hasDesignQuota, designOverrideActive, Bool.or_eq_false_iff,
        Option.isSome_eq_false_iff, Option.isNone_iff_eq_none] at h
      obtain ⟨⟨hc, hj⟩, ho⟩ := h
      have hx := hcolumn ho
      simp only [Bool.or_eq_false_iff, Option.isSome_eq_false_iff, Option.isNone_iff_eq_none] at hx
      intro metric hm
      simp only [Domain.metrics, List.mem_cons, List.not_mem_nil, or_false] at hm
      rcases hm with rfl | rfl
      · exact effective_none hc (ofInt_none fun x he => (hx x he).1)
      · exact effective_none hj (ofInt_none fun x he => (hx x he).2)
    | layout =>
      simp only [Domain.configured, hasLayoutQuota, Bool.or_eq_false_iff,
        Option.isSome_eq_false_iff, Option.isNone_iff_eq_none] at h
      intro metric hm
      simp only [Domain.metrics, List.mem_cons, List.not_mem_nil, or_false] at hm
      rcases hm with rfl | rfl
      · exact h.1
      · exact h.2
  | storage =>
    simp only [Domain.configured, storageOverrideActive, Bool.or_eq_false_iff,
      Option.isSome_eq_false_iff, Option.isNone_iff_eq_none] at h
    obtain ⟨hl, ho⟩ := h
    have hx := hcolumn ho
    simp only [Option.isSome_eq_false_iff, Option.isNone_iff_eq_none] at hx
    intro metric hm
    obtain rfl := List.mem_singleton.mp hm
    refine effective_none hl ?_
    cases o with
    | none => rfl
    | some x => rw [Option.bind_some, hx x rfl, Option.map_none]

end

/-! ## What holds between statements -/

def Db.checksOf (s : Db) (i : Nat) : List Check := s.checks.filter (·.program = i)

theorem checksOf_append {s : Db} {i j : Nat} (hj : j ≠ i) {checks : List Check}
    (hc : ∀ c ∈ checks, c.program = i) :
    (s.checks ++ checks).filter (·.program = j) = s.checksOf j := by
  have hnone : checks.filter (·.program = j) = [] := by
    refine List.filter_eq_nil_iff.mpr fun c h => ?_
    simpa [hc c h] using Ne.symm hj
  rw [List.filter_append, hnone, List.append_nil]
  rfl

section

variable [Config] (orgs : Map Text Organization) (org : Text)

/-- The override of an organization. -/
def overrideIn (orgId : Text) : Option OrgQuotaOverride :=
  (orgs.get? orgId).bind (·.quotaOverride)

/-- The organization is within its limits, counting what open transactions have created. -/
structure Sound (s : Db) : Prop where
  organizations : s.committed.organizations = orgs
  heldOnce : ∀ d i j, (d, i) ∈ s.locks → (d, j) ∈ s.locks → i = j
  jobLocked : ∀ i row, (i, .job row) ∈ s.pending → row.orgId = org →
    ¬ Unlimited (overrideIn orgs org) (.jobs row.kind) → ((.jobs row.kind, org), i) ∈ s.locks
  assetLocked : ∀ i row, (i, .asset row) ∈ s.pending → row.orgId = org →
    ¬ Unlimited (overrideIn orgs org) .storage → ((.storage, org), i) ∈ s.locks
  /-- Nothing was created in the future. -/
  past : ∀ kind stop, s.occupied (·.createdIn kind org (s.now + 1) stop) = 0
  concurrent : ∀ kind l, limitOf (overrideIn orgs org) (.concurrent kind) = some l → ∀ now,
    s.now ≤ now → s.occupied (·.inFlight kind org (now - concurrentStalenessMs)) ≤ l
  monthly : ∀ kind l, limitOf (overrideIn orgs org) (.jobs kind) = some l → ∀ month,
    s.occupied (·.createdIn kind org (Months.start month) (Months.start (month + 1))) ≤ l
  stored : ∀ e ∈ s.stored, e.orgId = org → ∀ l,
    limitOf (overrideIn orgs org) .storageBytes = some l →
      ∃ c ∈ s.checks, c.program = e.program ∧ c.metric = .storageBytes ∧ c.orgId = org ∧
        e.tables.assetBytes org + c.tables.resultBytes org ≤ l

/-- What a program relies on: what it has read and written is its own, and while it holds a
lock nobody else creates what the lock is about. -/
structure Relies (i : Nat) (s t : Db) : Prop where
  now : s.now ≤ t.now
  own : t.own i = s.own i
  locks : ∀ d, (d, i) ∈ t.locks ↔ (d, i) ∈ s.locks
  checks : t.checksOf i = s.checksOf i
  jobs : ∀ kind, ((.jobs kind, org), i) ∈ s.locks →
    ¬ Unlimited (overrideIn orgs org) (.jobs kind) →
      ∀ p, Counts kind org p → t.occupied p ≤ s.occupied p
  assets : ((.storage, org), i) ∈ s.locks → ¬ Unlimited (overrideIn orgs org) .storage →
    t.committed.assetBytes org = s.committed.assetBytes org

def contract : Contract Db where
  inv := Sound orgs org
  rely := Relies orgs org
  rely_refl := fun _ _ =>
    { now := Nat.le_refl _
      own := rfl
      locks := fun _ => Iff.rfl
      checks := rfl
      jobs := fun _ _ _ _ _ => Nat.le_refl _
      assets := fun _ _ => rfl }
  rely_trans := fun _ _ _ _ h h' =>
    { now := Nat.le_trans h.now h'.now
      own := h'.own.trans h.own
      locks := fun d => (h'.locks d).trans (h.locks d)
      checks := h'.checks.trans h.checks
      jobs := fun kind hl hu p hp =>
        Nat.le_trans (h'.jobs kind ((h.locks _).mpr hl) hu p hp) (h.jobs kind hl hu p hp)
      assets := fun hl hu => (h'.assets ((h.locks _).mpr hl) hu).trans (h.assets hl hu) }

/-- A step of a program keeps what holds, and what the others rely on. -/
def Steps (i : Nat) (s t : Db) : Prop :=
  Sound orgs org t ∧ ∀ j, j ≠ i → Relies orgs org j s t

variable {orgs org} {i : Nat} {s t u : Db}

theorem Steps.trans (h : Steps orgs org i s t) (h' : Steps orgs org i t u) :
    Steps orgs org i s u :=
  ⟨h'.1, fun j hj => (contract orgs org).rely_trans j s t u (h.2 j hj) (h'.2 j hj)⟩

theorem not_unlimited {o : Option OrgQuotaOverride} {domain : Domain} {metric : Metric} {l : Nat}
    (hm : metric ∈ domain.metrics) (hl : limitOf o metric = some l) : ¬ Unlimited o domain := by
  intro h
  rw [h metric hm] at hl
  cases hl

/-- Time passes and a program looks at the tables. -/
theorem steps_check (h : Sound orgs org s) {now : Nat} (hnow : s.now ≤ now) {checks : List Check}
    (hc : ∀ c ∈ checks, c.program = i) :
    Steps orgs org i s { s with now, checks := s.checks ++ checks } := by
  refine ⟨?_, fun j hj => ?_⟩
  · exact
      { organizations := h.organizations
        heldOnce := h.heldOnce
        jobLocked := h.jobLocked
        assetLocked := h.assetLocked
        past := fun kind stop => Nat.le_zero.mp (Nat.le_trans
          (occupied_createdIn_mono (s := s) (Nat.succ_le_succ hnow)) (Nat.le_of_eq (h.past kind stop)))
        concurrent := fun kind l hl later hlater =>
          h.concurrent kind l hl later (Nat.le_trans hnow hlater)
        monthly := h.monthly
        stored := fun e he ho l hl => by
          obtain ⟨c, hmem, hrest⟩ := h.stored e he ho l hl
          exact ⟨c, List.mem_append_left _ hmem, hrest⟩ }
  · exact
      { now := hnow
        own := rfl
        locks := fun _ => Iff.rfl
        checks := checksOf_append hj hc
        jobs := fun _ _ _ _ _ => Nat.le_refl _
        assets := fun _ _ => rfl }

/-- Fewer jobs are there or about to be. -/
theorem Sound.of_fewer (h : Sound orgs org s) (hnow : t.now = s.now)
    (horgs : t.committed.organizations = s.committed.organizations)
    (heldOnce : ∀ d i j, (d, i) ∈ t.locks → (d, j) ∈ t.locks → i = j)
    (jobLocked : ∀ i row, (i, .job row) ∈ t.pending → row.orgId = org →
      ¬ Unlimited (overrideIn orgs org) (.jobs row.kind) → ((.jobs row.kind, org), i) ∈ t.locks)
    (assetLocked : ∀ i row, (i, .asset row) ∈ t.pending → row.orgId = org →
      ¬ Unlimited (overrideIn orgs org) .storage → ((.storage, org), i) ∈ t.locks)
    (hjobs : ∀ kind p, Counts kind org p → t.occupied p ≤ s.occupied p)
    (hchecks : t.checks = s.checks)
    (hstored : ∀ e ∈ t.stored, e ∉ s.stored → e.orgId = org → ∀ l,
      limitOf (overrideIn orgs org) .storageBytes = some l →
        ∃ c ∈ s.checks, c.program = e.program ∧ c.metric = .storageBytes ∧ c.orgId = org ∧
          e.tables.assetBytes org + c.tables.resultBytes org ≤ l) : Sound orgs org t where
  organizations := horgs.trans h.organizations
  heldOnce := heldOnce
  jobLocked := jobLocked
  assetLocked := assetLocked
  past := fun kind stop => by
    have hle := hjobs kind _ (counts_createdIn kind org (s.now + 1) stop)
    rw [h.past] at hle
    rw [hnow]
    exact Nat.le_zero.mp hle
  concurrent := fun kind l hl now hle =>
    Nat.le_trans (hjobs kind _ (counts_inFlight kind org _))
      (h.concurrent kind l hl now (hnow ▸ hle))
  monthly := fun kind l hl month =>
    Nat.le_trans (hjobs kind _ (counts_createdIn kind org _ _)) (h.monthly kind l hl month)
  stored := fun e he ho l hl => by
    rw [hchecks]
    by_cases hmem : e ∈ s.stored
    · exact h.stored e hmem ho l hl
    · exact hstored e he hmem ho l hl

omit [Config] in
theorem occupied_rollback_le (p : Job → Bool) :
    ({ s with toStore := s.toStore.rollback i } : Db).occupied p ≤ s.occupied p :=
  Nat.add_le_add_left (List.filter_sublist.countP_le) _

/-- A transaction begins. -/
theorem steps_lock (h : Sound orgs org s) {domain : Domain} {orgId : Text}
    (hfree : ∀ j, ((domain, orgId), j) ∉ s.locks) :
    Steps orgs org i s
      { s with
        toStore := s.toStore.rollback i
        locks := s.locks ++ [((domain, orgId), i)] } := by
  have hpending : ∀ {k w}, (k, w) ∈ (s.toStore.rollback i).pending → (k, w) ∈ s.pending :=
    fun hw => (Store.mem_rollback.mp hw).1
  refine ⟨?_, fun j hj => ?_⟩
  · refine h.of_fewer rfl rfl ?_ (fun k row hw ho hu => ?_) (fun k row hw ho hu => ?_)
      (fun _ p _ => occupied_rollback_le p) rfl fun e he hne => absurd he hne
    · intro d k l hk hl
      have hnew : ∀ {e : (Domain × Text) × Nat}, e ∈ s.locks ++ [((domain, orgId), i)] →
          e ∈ s.locks ∨ e = ((domain, orgId), i) := by
        intro e he
        rwa [List.mem_append, List.mem_singleton] at he
      rcases hnew hk with hk' | hk' <;> rcases hnew hl with hl' | hl'
      · exact h.heldOnce d k l hk' hl'
      · exact absurd ((Prod.mk.inj hl').1 ▸ hk') (hfree k)
      · exact absurd ((Prod.mk.inj hk').1 ▸ hl') (hfree l)
      · exact (Prod.mk.inj hk').2.trans (Prod.mk.inj hl').2.symm
    · exact List.mem_append_left _ (h.jobLocked k row (hpending hw) ho hu)
    · exact List.mem_append_left _ (h.assetLocked k row (hpending hw) ho hu)
  · exact
      { now := Nat.le_refl _
        own := s.toStore.own_rollback_of_ne hj
        locks := fun d => by
          rw [List.mem_append, List.mem_singleton]
          exact or_iff_left fun he => hj (Prod.mk.inj he).2
        checks := rfl
        jobs := fun _ _ _ p _ => occupied_rollback_le p
        assets := fun _ _ => rfl }

omit [Config] in
theorem occupied_write (tx : Bool) (w : Write) (p : Job → Bool) :
    (s.write i tx w).occupied p = s.occupied p + if w.isJob p = true then 1 else 0 := by
  cases tx with
  | true =>
    change s.committed.jobs.countP p + (s.pending ++ [(i, w)]).countP (fun e => e.2.isJob p) = _
    rw [List.countP_append, List.countP_singleton]
    exact (Nat.add_assoc _ _ _).symm
  | false =>
    have hcount := countP_jobs_foldl p [w] s.committed
    rw [List.countP_singleton] at hcount
    change (w.apply s.committed).jobs.countP p + _ = _
    rw [show (w.apply s.committed).jobs.countP p = _ from hcount]
    exact Nat.add_right_comm _ _ _

variable (orgs org)

/-- Another job of the kind fits. -/
structure Room (kind : Kind) (s : Db) : Prop where
  concurrent : ∀ l, limitOf (overrideIn orgs org) (.concurrent kind) = some l → ∀ now,
    s.now ≤ now → s.occupied (·.inFlight kind org (now - concurrentStalenessMs)) < l
  monthly : ∀ l, limitOf (overrideIn orgs org) (.jobs kind) = some l → ∀ month,
    s.now < Months.start (month + 1) →
      s.occupied (·.createdIn kind org (Months.start month) (Months.start (month + 1))) < l

/-- The program may create a job of the organization. -/
def Clear (i : Nat) (kind : Kind) (orgId : Text) (s : Db) : Prop :=
  orgId = org → ¬ Unlimited (overrideIn orgs org) (.jobs kind) →
    ((.jobs kind, org), i) ∈ s.locks ∧ Room orgs org kind s

variable {orgs org}

/-- A job is created where there is room for it. -/
theorem steps_createJob (h : Sound orgs org s) {kind : Kind} {orgId : Text} (tx : Bool)
    (hclear : Clear orgs org i kind orgId s) :
    Steps orgs org i s (s.write i tx (.job { kind, orgId, createdAt := s.now })) := by
  have hnow : (s.write i tx (.job { kind, orgId, createdAt := s.now })).now = s.now := by
    cases tx <;> rfl
  have hlocks : (s.write i tx (.job { kind, orgId, createdAt := s.now })).locks = s.locks := by
    cases tx <;> rfl
  have hpending : ∀ {k w}, (k, w) ∈ (s.write i tx (.job { kind, orgId, createdAt := s.now })).pending →
      (k, w) ∈ s.pending ∨ k = i ∧ w = .job { kind, orgId, createdAt := s.now } := by
    intro k w hw
    cases tx with
    | true => exact Store.mem_write.mp hw
    | false => exact .inl hw
  -- a count goes up only where the job is one that is counted
  have hcount : ∀ p, ¬ p { kind, orgId, createdAt := s.now } = true →
      (s.write i tx (.job { kind, orgId, createdAt := s.now })).occupied p = s.occupied p := by
    intro p hp
    rw [occupied_write, Write.isJob, if_neg hp, Nat.add_zero]
  have hle : ∀ p, (s.write i tx (.job { kind, orgId, createdAt := s.now })).occupied p ≤
      s.occupied p + 1 := by
    intro p
    rw [occupied_write]
    split <;> omega
  refine ⟨?_, fun j hj => ?_⟩
  · exact
      { organizations := by
          cases tx <;> exact h.organizations
        heldOnce := hlocks ▸ h.heldOnce
        jobLocked := fun k row hw ho hu => by
          rw [hlocks]
          rcases hpending hw with hw | ⟨rfl, he⟩
          · exact h.jobLocked k row hw ho hu
          · cases he
            exact (hclear ho hu).1
        assetLocked := fun k row hw ho hu => by
          rw [hlocks]
          rcases hpending hw with hw | ⟨-, he⟩
          · exact h.assetLocked k row hw ho hu
          · cases he
        past := fun kind' stop => by
          have hout : ¬ Job.createdIn { kind, orgId, createdAt := s.now } kind' org (s.now + 1) stop =
              true := fun hp => Nat.not_succ_le_self s.now (createdIn_iff.mp hp).2.2.1
          rw [hnow]
          exact (hcount (·.createdIn kind' org (s.now + 1) stop) hout).trans (h.past kind' stop)
        concurrent := fun kind' l hl now hle' => by
          rw [hnow] at hle'
          by_cases hp : Job.inFlight { kind, orgId, createdAt := s.now } kind' org
              (now - concurrentStalenessMs) = true
          · obtain ⟨rfl, ho, -, -⟩ := inFlight_iff.mp hp
            have hroom := (hclear ho (not_unlimited (concurrent_mem kind) hl)).2
            exact Nat.le_trans (hle _) (hroom.concurrent l hl now hle')
          · have hsame := hcount (·.inFlight kind' org (now - concurrentStalenessMs)) hp
            exact Nat.le_trans (Nat.le_of_eq hsame) (h.concurrent kind' l hl now hle')
        monthly := fun kind' l hl month => by
          by_cases hp : Job.createdIn { kind, orgId, createdAt := s.now } kind' org
              (Months.start month) (Months.start (month + 1)) = true
          · obtain ⟨rfl, ho, -, hlt⟩ := createdIn_iff.mp hp
            have hroom := (hclear ho (not_unlimited (jobs_mem kind) hl)).2
            exact Nat.le_trans (hle _) (hroom.monthly l hl month hlt)
          · have hsame := hcount
              (·.createdIn kind' org (Months.start month) (Months.start (month + 1))) hp
            exact Nat.le_trans (Nat.le_of_eq hsame) (h.monthly kind' l hl month)
        stored := by
          cases tx <;> exact h.stored }
  · exact
      { now := Nat.le_of_eq hnow.symm
        own := by
          cases tx with
          | true => exact s.toStore.own_write_of_ne hj _
          | false => rfl
        locks := fun d => by rw [hlocks]
        checks := by
          cases tx <;> rfl
        jobs := fun kind' hl hu p hp => by
          refine Nat.le_of_eq (hcount p fun hpj => hj ?_)
          obtain rfl : kind = kind' := hp.kind _ hpj
          exact h.heldOnce _ j i hl (hclear (hp.orgId _ hpj) hu).1
        assets := fun _ _ => by
          cases tx <;> rfl }

variable (orgs org)

/-- A check of the program stands behind the bytes of the organization, with those of the
program's own assets and `more`. -/
def Covered (i : Nat) (more : Int) (s : Db) : Prop :=
  ∀ l, limitOf (overrideIn orgs org) .storageBytes = some l →
    ∃ c ∈ s.checksOf i, c.metric = .storageBytes ∧ c.orgId = org ∧
      s.committed.assetBytes org + bytesOf org ((s.own i).filterMap Write.assetOf) + more +
        c.tables.resultBytes org ≤ l

/-- The program may create an asset of the organization in its transaction. -/
def ClearAsset (i : Nat) (asset : Asset) (s : Db) : Prop :=
  asset.orgId = org → ¬ Unlimited (overrideIn orgs org) .storage → ((.storage, org), i) ∈ s.locks

variable {orgs org}

theorem unlimited_storage_iff {o : Option OrgQuotaOverride} :
    Unlimited o .storage ↔ limitOf o .storageBytes = none := by
  constructor
  · exact fun h => h _ List.mem_cons_self
  · intro h metric hm
    rwa [List.mem_singleton.mp hm]

/-- An asset is about to be created. -/
theorem steps_createAsset (h : Sound orgs org s) {asset : Asset}
    (hclear : ClearAsset orgs org i asset s) :
    Steps orgs org i s (s.write i true (.asset asset)) := by
  have hcount : ∀ p, (s.write i true (.asset asset)).occupied p ≤ s.occupied p := by
    intro p
    rw [occupied_write]
    exact Nat.le_refl _
  refine ⟨?_, fun j hj => ?_⟩
  · refine h.of_fewer rfl rfl h.heldOnce (fun k row hw ho hu => ?_) (fun k row hw ho hu => ?_)
      (fun _ p _ => hcount p) rfl fun e he hne => absurd he hne
    · rcases Store.mem_write.mp hw with hw | ⟨-, he⟩
      · exact h.jobLocked k row hw ho hu
      · cases he
    · rcases Store.mem_write.mp hw with hw | ⟨rfl, he⟩
      · exact h.assetLocked k row hw ho hu
      · cases he
        exact hclear ho hu
  · exact
      { now := Nat.le_refl _
        own := s.toStore.own_write_of_ne hj _
        locks := fun _ => Iff.rfl
        checks := rfl
        jobs := fun _ _ _ p _ => hcount p
        assets := fun _ _ => rfl }

/-- An asset is created where nothing is limited. -/
theorem steps_createAsset_now (h : Sound orgs org s) {asset : Asset}
    (hclear : asset.orgId = org → Unlimited (overrideIn orgs org) .storage) :
    Steps orgs org i s ((s.write i false (.asset asset)).logStored i [asset]) := by
  refine ⟨?_, fun j hj => ?_⟩
  · refine h.of_fewer rfl rfl h.heldOnce h.jobLocked h.assetLocked (fun _ p _ => Nat.le_refl _) rfl
      fun e he hne ho l hl => ?_
    rcases List.mem_append.mp he with he | he
    · exact absurd he hne
    · obtain rfl := List.mem_singleton.mp he
      rw [unlimited_storage_iff.mp (hclear ho)] at hl
      cases hl
  · exact
      { now := Nat.le_refl _
        own := rfl
        locks := fun _ => Iff.rfl
        checks := rfl
        jobs := fun _ _ _ p _ => Nat.le_refl _
        assets := fun _ hu => by
          have ho : asset.orgId ≠ org := fun ho => hu (hclear ho)
          change bytesOf org (s.committed.assets ++ [asset]) = _
          rw [bytesOf_append, bytesOf_singleton_of_ne ho]
          exact Int.add_zero _ }

/-- A transaction ends and gives up its locks. -/
theorem steps_finish (h : Sound orgs org s) (hnow : t.now = s.now)
    (hpending : t.pending = (s.toStore.rollback i).pending)
    (hlocks : t.locks = s.locks.filter (·.2 ≠ i)) (hchecks : t.checks = s.checks)
    (horgs : t.committed.organizations = s.committed.organizations)
    (hjobs : ∀ p, t.occupied p ≤ s.occupied p)
    (hassets : (∀ row, .asset row ∈ s.own i → row.orgId ≠ org) →
      t.committed.assetBytes org = s.committed.assetBytes org)
    (hstored : ∀ e ∈ t.stored, e ∉ s.stored → e.orgId = org → ∀ l,
      limitOf (overrideIn orgs org) .storageBytes = some l →
        ∃ c ∈ s.checks, c.program = e.program ∧ c.metric = .storageBytes ∧ c.orgId = org ∧
          e.tables.assetBytes org + c.tables.resultBytes org ≤ l) :
    Steps orgs org i s t := by
  have hkept : ∀ {d k}, (d, k) ∈ t.locks ↔ (d, k) ∈ s.locks ∧ k ≠ i := by
    intro d k
    rw [hlocks, List.mem_filter, decide_eq_true_eq]
  have hopen : ∀ {k w}, (k, w) ∈ t.pending ↔ (k, w) ∈ s.pending ∧ k ≠ i := by
    intro k w
    rw [hpending]
    exact Store.mem_rollback
  refine ⟨?_, fun j hj => ?_⟩
  · refine h.of_fewer hnow horgs (fun d k l hk hl => ?_) (fun k row hw ho hu => ?_)
      (fun k row hw ho hu => ?_) (fun _ p _ => hjobs p) hchecks hstored
    · exact h.heldOnce d k l (hkept.mp hk).1 (hkept.mp hl).1
    · obtain ⟨hw, hk⟩ := hopen.mp hw
      exact hkept.mpr ⟨h.jobLocked k row hw ho hu, hk⟩
    · obtain ⟨hw, hk⟩ := hopen.mp hw
      exact hkept.mpr ⟨h.assetLocked k row hw ho hu, hk⟩
  · exact
      { now := Nat.le_of_eq hnow.symm
        own := by
          rw [Store.own, hpending]
          exact s.toStore.own_rollback_of_ne hj
        locks := fun d => hkept.trans (and_iff_left hj)
        checks := by rw [Db.checksOf, hchecks, Db.checksOf]
        jobs := fun _ _ _ p _ => hjobs p
        assets := fun hl hu => hassets fun row hrow ho =>
          hj (h.heldOnce _ j i hl (h.assetLocked i row (Store.mem_own.mp hrow) ho hu)) }

/-- A transaction is given up. -/
theorem steps_rollback (h : Sound orgs org s) :
    Steps orgs org i s (s.finish i (s.toStore.rollback i)) :=
  steps_finish h rfl rfl rfl rfl rfl (fun p => occupied_rollback_le p) (fun _ => rfl)
    fun _ he hne => absurd he hne

omit [Config] in
theorem occupied_commit (p : Job → Bool) :
    ((s.finish i (s.toStore.commit Write.apply i)).logStored i
      ((s.own i).filterMap Write.assetOf)).occupied p = s.occupied p := by
  have hpending := s.toStore.countP_pending i (·.isJob p)
  change ((s.own i).foldl (fun t w => w.apply t) s.committed).jobs.countP p +
    (s.toStore.rollback i).pending.countP (fun e => e.2.isJob p) = _
  rw [countP_jobs_foldl, Db.occupied, hpending]
  omega

omit [Config] in
theorem bytesOf_eq_zero {assets : List Asset} (h : ∀ row ∈ assets, row.orgId ≠ org) :
    bytesOf org assets = 0 := by
  have hnone : assets.filter (·.orgId = org) = [] :=
    List.filter_eq_nil_iff.mpr fun row hrow => by simpa using h row hrow
  rw [bytesOf, hnone]
  rfl

omit [Config] in
theorem mem_assetOf {ws : List Write} {row : Asset} :
    row ∈ ws.filterMap Write.assetOf ↔ .asset row ∈ ws := by
  rw [List.mem_filterMap]
  constructor
  · rintro ⟨w, hw, he⟩
    cases w with
    | job job => cases he
    | asset asset =>
      obtain rfl : asset = row := Option.some.inj he
      exact hw
  · exact fun h => ⟨_, h, rfl⟩

/-- A transaction takes effect. -/
theorem steps_commit (h : Sound orgs org s)
    (hcovered : ∀ row, .asset row ∈ s.own i → row.orgId = org → Covered orgs org i 0 s) :
    Steps orgs org i s
      ((s.finish i (s.toStore.commit Write.apply i)).logStored i
        ((s.own i).filterMap Write.assetOf)) := by
  have hbytes := assetBytes_foldl org (s.own i) s.committed
  refine steps_finish h rfl rfl rfl rfl (organizations_foldl _ _)
    (fun p => Nat.le_of_eq (occupied_commit p)) (fun hnone => ?_) fun e he hne ho l hl => ?_
  · refine hbytes.trans ?_
    rw [bytesOf_eq_zero fun row hrow => hnone row (mem_assetOf.mp hrow), Int.add_zero]
  · rcases List.mem_append.mp he with he | he
    · exact absurd he hne
    · obtain ⟨row, hrow, rfl⟩ := List.mem_map.mp he
      obtain ⟨c, hc, hmetric, horg, hle⟩ := hcovered row (mem_assetOf.mp hrow) ho l hl
      obtain ⟨hmem, hprogram⟩ := List.mem_filter.mp hc
      refine ⟨c, hmem, of_decide_eq_true hprogram, hmetric, horg, ?_⟩
      change ((s.own i).foldl (fun t w => w.apply t) s.committed).assetBytes org + _ ≤ _
      rw [hbytes]
      omega

omit [Config] in
theorem countP_set_le {p : Job → Bool} {jobs : List Job} {n : Nat} {job job' : Job}
    (hn : jobs[n]? = some job) (hp : p job' = true → p job = true) :
    (jobs.set n job').countP p ≤ jobs.countP p := by
  obtain ⟨hlt, hjob⟩ := List.getElem?_eq_some_iff.mp hn
  rw [List.countP_set hlt, hjob]
  by_cases hj : p job = true
  · have hpos : 0 < jobs.countP p := List.countP_pos_iff.mpr ⟨job, List.mem_of_getElem? hn, hj⟩
    rw [if_pos hj]
    split <;> omega
  · rw [if_neg hj, if_neg fun h => hj (hp h)]
    exact Nat.le_refl _

/-- A job goes on. -/
theorem steps_settle (h : Sound orgs org s) {n : Nat} {job : Job}
    (hn : s.committed.jobs[n]? = some job) (hlive : job.status.terminal = false)
    (outcome : Outcome) :
    Steps orgs org i s
      { s with committed.jobs := s.committed.jobs.set n (job.settle outcome) } := by
  have hcount : ∀ kind p, Counts kind org p →
      ({ s with committed.jobs := s.committed.jobs.set n (job.settle outcome) } : Db).occupied p ≤
        s.occupied p := fun _ p hp =>
    Nat.add_le_add_right (countP_set_le hn (hp.settle job outcome hlive)) _
  refine ⟨?_, fun j hj => ?_⟩
  · exact h.of_fewer rfl rfl h.heldOnce h.jobLocked h.assetLocked hcount rfl
      fun e he hne => absurd he hne
  · exact
      { now := Nat.le_refl _
        own := rfl
        locks := fun _ => Iff.rfl
        checks := rfl
        jobs := fun kind _ _ p hp => hcount kind p hp
        assets := fun _ _ => rfl }

end

end CircuitForge.Usage
