/-
What the checks of a guarded creation know under its lock.

A check that finds no limit reached leaves room for one more, and the room lasts while the
program has the lock.
-/
import CircuitForge.Api.Quotas

namespace CircuitForge.Usage

open Js Requests Transactions
open Jobs (Kind Status)

section

variable [Config] {orgs : Map Text Organization} {org : Text} {i : Nat} {s t u : Db}

/-! ## The rules of the statements -/

variable (orgs org)

abbrev GoesOn {ρ : Type} (i : Nat) (p : Request ρ) (Q : ρ → Db → Prop) (s : Db) : Prop :=
  (contract orgs org).Keeps sem (fun _ _ _ _ => True) i p Q s

/-- What is a program's own: its locks, its writes and its checks. -/
structure Here (i : Nat) (locks : List (Domain × Text)) (own : List Write) (checks : List Check)
    (s : Db) : Prop where
  locks : ∀ d, (d, i) ∈ s.locks ↔ d ∈ locks
  own : s.own i = own
  checks : s.checksOf i = checks

/-- What lasts while the program has the locks, and its checks do not change. -/
structure Lasting (i : Nat) (locks : List (Domain × Text)) (K : Db → Prop) : Prop where
  relies : ∀ s t, Relies orgs org i s t → (∀ d, (d, i) ∈ s.locks ↔ d ∈ locks) → K s → K t
  logged : ∀ s more, K s → K { s with checks := s.checks ++ more }

variable {orgs org} {ρ ρ' : Type} {locks : List (Domain × Text)} {own : List Write}
  {checks : List Check} {K : Db → Prop} {Q : ρ → Db → Prop}

theorem Here.relies (h : Here i locks own checks s) (hr : Relies orgs org i s t) :
    Here i locks own checks t where
  locks := fun d => (hr.locks d).trans (h.locks d)
  own := hr.own.trans h.own
  checks := hr.checks.trans h.checks

theorem relies_clock {now : Nat} (hnow : s.now ≤ now) (j : Nat) :
    Relies orgs org j s { s with now } where
  now := hnow
  own := rfl
  locks := fun _ => Iff.rfl
  checks := rfl
  jobs := fun _ _ _ _ _ => Nat.le_refl _
  assets := fun _ _ => rfl

theorem sound_clock (h : Sound orgs org s) {now : Nat} (hnow : s.now ≤ now) :
    Sound orgs org { s with now } := by
  have hsound : Sound orgs org { s with now, checks := s.checks ++ [] } :=
    (steps_check (i := 0) h hnow (List.forall_mem_nil _)).1
  rwa [List.append_nil] at hsound

/-- A statement, at the time it is executed. -/
theorem goesOn_exec {st : Stmt} {next : Answer st → Request ρ} (hK : Lasting orgs org i locks K)
    (h : Here i locks own checks s) (hk : K s)
    (hstep : ∀ t, Sound orgs org t → Here i locks own checks t → K t → ∀ u a,
      exec i st t = some (u, a) → Steps orgs org i t u ∧ GoesOn orgs org i (next a) Q u) :
    GoesOn orgs org i (.exec st next) Q s := by
  intro t hr hinv now u a _ hs
  rw [sem] at hs
  split at hs
  · cases hs
  case isFalse hnow =>
    have hclock : t.now ≤ now := Nat.not_lt.mp hnow
    have hhere : Here i locks own checks t := h.relies hr
    have hkt := hK.relies s t hr h.locks hk
    have hrt : ∀ j, Relies orgs org j t { t with now } := relies_clock hclock
    obtain ⟨hsteps, hgoes⟩ := hstep { t with now } (sound_clock hinv hclock) (hhere.relies (hrt i))
      (hK.relies t _ (hrt i) hhere.locks hkt) u a hs
    exact ⟨hsteps.1, fun j hj => (contract orgs org).rely_trans j t _ u (hrt j) (hsteps.2 j hj),
      hgoes⟩

/-- A statement that only reads. -/
theorem goesOn_read {st : Stmt} {next : Answer st → Request ρ} (hK : Lasting orgs org i locks K)
    (h : Here i locks own checks s) (hk : K s) {answer : Db → Answer st}
    (hread : ∀ t, exec i st t = some (t, answer t))
    (hnext : ∀ t, Sound orgs org t → Here i locks own checks t → K t →
      GoesOn orgs org i (next (answer t)) Q t) :
    GoesOn orgs org i (.exec st next) Q s := by
  refine goesOn_exec hK h hk fun t hinv ht hkt u a hs => ?_
  obtain ⟨rfl, rfl⟩ := Prod.mk.inj (Option.some.inj ((hread t).symm.trans hs))
  exact ⟨⟨hinv, fun j _ => (contract orgs org).rely_refl j _⟩, hnext t hinv ht hkt⟩

theorem Lasting.and {K' : Db → Prop} (h : Lasting orgs org i locks K)
    (h' : Lasting orgs org i locks K') : Lasting orgs org i locks fun s => K s ∧ K' s where
  relies := fun s t hr hl hk => ⟨h.relies s t hr hl hk.1, h'.relies s t hr hl hk.2⟩
  logged := fun s more hk => ⟨h.logged s more hk.1, h'.logged s more hk.2⟩

theorem lasting_const (P : Prop) : Lasting orgs org i locks fun _ => P where
  relies := fun _ _ _ _ h => h
  logged := fun _ _ h => h

theorem lasting_imp (P : Prop) (h : Lasting orgs org i locks K) :
    Lasting orgs org i locks fun s => P → K s where
  relies := fun s t hr hl hk hp => h.relies s t hr hl (hk hp)
  logged := fun s more hk hp => h.logged s more (hk hp)

theorem lasting_forall {α : Type} {P : α → Prop} {K : α → Db → Prop}
    (h : ∀ x, P x → Lasting orgs org i locks (K x)) :
    Lasting orgs org i locks fun s => ∀ x, P x → K x s where
  relies := fun s t hr hl hk x hx => (h x hx).relies s t hr hl (hk x hx)
  logged := fun s more hk x hx => (h x hx).logged s more (hk x hx)

/-- A statement that logs its checks and reads. -/
theorem goesOn_check {st : Stmt} {next : Answer st → Request ρ} (made : Db → List Check)
    (hK : Lasting orgs org i locks K) (h : Here i locks own checks s) (hk : K s)
    {answer : Db → Answer st} (hmade : ∀ t, ∀ c ∈ made t, c.program = i)
    (hread : ∀ t, exec i st t = some ({ t with checks := t.checks ++ made t }, answer t))
    (hnext : ∀ t, Sound orgs org t → Here i locks own checks t → K t →
      Here i locks own (checks ++ made t) { t with checks := t.checks ++ made t } →
      K { t with checks := t.checks ++ made t } →
      GoesOn orgs org i (next (answer t)) Q { t with checks := t.checks ++ made t }) :
    GoesOn orgs org i (.exec st next) Q s := by
  refine goesOn_exec hK h hk fun t hinv ht hkt u a hs => ?_
  obtain ⟨rfl, rfl⟩ := Prod.mk.inj (Option.some.inj ((hread t).symm.trans hs))
  refine ⟨steps_check hinv (Nat.le_refl _) (hmade t), hnext t hinv ht hkt ?_ (hK.logged t _ hkt)⟩
  refine ⟨ht.locks, ht.own, ?_⟩
  have hown : (made t).filter (·.program = i) = made t :=
    List.filter_eq_self.mpr fun c hc => decide_eq_true (hmade t c hc)
  rw [Db.checksOf, List.filter_append, hown, ← ht.checks, Db.checksOf]

/-! ## The checks of jobs -/

variable (orgs org)

/-- The clock was read, and no job of the kind has been created since. -/
def Since (kind : Kind) (orgId : Text) (now : Nat) (s : Db) : Prop :=
  now ≤ s.now ∧ (orgId = org → ¬ Unlimited (overrideIn orgs org) (.jobs kind) →
    ∀ stop, s.occupied (·.createdIn kind org (now + 1) stop) = 0)

/-- Another job fits under the limit of those in flight. -/
def RoomInFlight (kind : Kind) (orgId : Text) (s : Db) : Prop :=
  orgId = org → ∀ l, limitOf (overrideIn orgs org) (.concurrent kind) = some l → ∀ now,
    s.now ≤ now → s.occupied (·.inFlight kind org (now - concurrentStalenessMs)) < l

/-- Another job fits under the limit of a month. -/
def RoomThisMonth (kind : Kind) (orgId : Text) (s : Db) : Prop :=
  orgId = org → ∀ l, limitOf (overrideIn orgs org) (.jobs kind) = some l → ∀ month,
    s.now < Months.start (month + 1) →
      s.occupied (·.createdIn kind org (Months.start month) (Months.start (month + 1))) < l

variable {orgs org} {kind : Kind} {orgId : Text}

theorem lasting_since (now : Nat) :
    Lasting orgs org i [(.jobs kind, orgId)] (Since orgs org kind orgId now) where
  relies := by
    rintro s t hr hl ⟨hnow, hpast⟩
    refine ⟨Nat.le_trans hnow hr.now, fun ho hu stop => ?_⟩
    subst ho
    have hle := hr.jobs kind ((hl _).mpr List.mem_cons_self) hu _
      (counts_createdIn kind orgId (now + 1) stop)
    rw [hpast rfl hu] at hle
    exact Nat.le_zero.mp hle
  logged := fun _ _ h => h

theorem lasting_roomInFlight :
    Lasting orgs org i [(.jobs kind, orgId)] (RoomInFlight orgs org kind orgId) where
  relies := by
    intro s t hr hl hroom ho l hlim now hnow
    subst ho
    exact Nat.lt_of_le_of_lt
      (hr.jobs kind ((hl _).mpr List.mem_cons_self) (not_unlimited (concurrent_mem kind) hlim) _
        (counts_inFlight kind orgId _))
      (hroom rfl l hlim now (Nat.le_trans hr.now hnow))
  logged := fun _ _ h => h

theorem lasting_roomThisMonth :
    Lasting orgs org i [(.jobs kind, orgId)] (RoomThisMonth orgs org kind orgId) where
  relies := by
    intro s t hr hl hroom ho l hlim month hmonth
    subst ho
    exact Nat.lt_of_le_of_lt
      (hr.jobs kind ((hl _).mpr List.mem_cons_self) (not_unlimited (jobs_mem kind) hlim) _
        (counts_createdIn kind orgId _ _))
      (hroom rfl l hlim month (Nat.lt_of_le_of_lt hr.now hmonth))
  logged := fun _ _ h => h

/-- The clock, if it is read. -/
theorem goesOn_askNow {own : List Write} (hK : Lasting orgs org i [(.jobs kind, orgId)] K)
    (h : Here i [(.jobs kind, orgId)] own checks s) (hk : K s) (c : Bool) :
    GoesOn orgs org i (askIf c .now) (fun now t =>
      Here i [(.jobs kind, orgId)] own checks t ∧ K t ∧ now.isSome = c ∧
        ∀ n, now = some n → Since orgs org kind orgId n t) s := by
  cases c with
  | false => exact ⟨h, hk, rfl, fun _ he => nomatch he⟩
  | true =>
    refine goesOn_read hK h hk (fun _ => rfl) fun t hinv ht hkt => ?_
    refine ⟨ht, hkt, rfl, ?_⟩
    rintro n ⟨⟩
    exact ⟨Nat.le_refl _, fun _ _ stop => hinv.past kind stop⟩

/-- The check of a program at a clock reading. -/
def checkAt (i : Nat) (metric : Metric) (orgId : Text) (now : Nat) (tables : Tables) : Check where
  program := i
  metric := metric
  orgId := orgId
  now := now
  tables := tables

theorem Sound.overrideOf (h : Sound orgs org s) (orgId : Text) :
    s.committed.overrideOf orgId = overrideIn orgs orgId := by
  rw [Tables.overrideOf, h.organizations, overrideIn]

/-- A program that has the lock and has written nothing sees every job. -/
theorem occupied_eq_committed (h : Sound orgs org s) (hl : ((.jobs kind, org), i) ∈ s.locks)
    (hown : s.own i = []) (hu : ¬ Unlimited (overrideIn orgs org) (.jobs kind)) {p : Job → Bool}
    (hp : Counts kind org p) : s.occupied p = s.committed.jobs.countP p := by
  have hnone : s.pending.countP (fun e => e.2.isJob p) = 0 := by
    refine List.countP_eq_zero.mpr fun e he hjob => ?_
    obtain ⟨k, w⟩ := e
    cases w with
    | asset row => cases hjob
    | job row =>
      obtain rfl : row.kind = kind := hp.kind row hjob
      have hlock := h.jobLocked k row he (hp.orgId row hjob) hu
      obtain rfl := h.heldOnce _ k i hlock hl
      have hmem := Store.mem_own.mpr he
      rw [hown] at hmem
      cases hmem
  rw [Db.occupied, hnone, Nat.add_zero]

variable (orgs)

/-- What was read of a usage with the limit `lim`, and the checks that were logged for it. -/
structure Reading (orgId : Text) (metric : Metric) (lim : Option Nat) (used : Option Int)
    (checks : List Check) : Prop where
  about : ∀ c ∈ checks, c.orgId = orgId ∧ c.metric = metric
  reached : (∃ c ∈ checks, c.reached) ↔ ∃ u l, used = some u ∧ lim = some l ∧ (l : Int) ≤ u
  complete : lim ≠ none → ∃ c ∈ checks, c.metric = metric

variable {orgs}

theorem reading_none (orgId : Text) (metric : Metric) (used : Option Int) :
    Reading orgId metric none used [] where
  about := fun _ hc => nomatch hc
  reached := by simp
  complete := fun hne => absurd rfl hne

theorem reading_one {orgId : Text} {metric : Metric} {lim : Option Nat} {used : Int} {c : Check}
    (ho : c.orgId = orgId) (hm : c.metric = metric)
    (hlim : limitOf (c.tables.overrideOf orgId) metric = lim) (hmetric : metric ≠ .storageBytes)
    (hused : (c.tables.getOrgUsageForAdmin orgId c.now).used metric = used) :
    Reading orgId metric lim (some used) [c] where
  about := fun c' hc => by
    rw [List.mem_singleton.mp hc]
    exact ⟨ho, hm⟩
  reached := by
    simp only [List.mem_singleton, exists_eq_left, Check.reached, AdminOrgUsage.reached,
      limit_report, ho, hm, hlim, if_neg hmetric, hused, Option.some.injEq]
    constructor
    · rintro ⟨l, hl, hle⟩
      exact ⟨used, l, rfl, hl, hle⟩
    · rintro ⟨_, l, rfl, hl, hle⟩
      exact ⟨l, hl, hle⟩
  complete := fun _ => ⟨c, List.mem_singleton.mpr rfl, hm⟩

/-- The jobs in flight, if they are counted. -/
theorem goesOn_concurrentAt (hK : Lasting orgs org i [(.jobs kind, orgId)] K)
    (h : Here i [(.jobs kind, orgId)] [] checks s) (hk : K s) {lim : Option Nat}
    (hlim : limitOf (overrideIn orgs orgId) (.concurrent kind) = lim) {now : Option Nat}
    (hnow : now.isSome = lim.isSome)
    (hsince : ∀ n, now = some n → Since orgs org kind orgId n s) :
    GoesOn orgs org i (concurrentAt kind orgId now) (fun n t => ∃ cs,
      Here i [(.jobs kind, orgId)] [] (checks ++ cs) t ∧ K t ∧
        Reading orgId (.concurrent kind) lim (n.map Int.ofNat) cs ∧
          ((¬ ∃ c ∈ cs, c.reached) → RoomInFlight orgs org kind orgId t)) s := by
  cases now with
  | none =>
    obtain rfl : lim = none := Option.isSome_eq_false_iff.mp hnow.symm |> Option.isNone_iff_eq_none.mp
    refine ⟨[], by rwa [List.append_nil], hk, reading_none _ _ _, fun _ ho l hl => ?_⟩
    subst ho
    rw [hlim] at hl
    cases hl
  | some n =>
    refine goesOn_check (fun t => [checkAt i (.concurrent kind) orgId n t.committed])
      (hK.and (lasting_since n)) h ⟨hk, hsince n rfl⟩
      (fun _ _ hc => congrArg Check.program (List.mem_singleton.mp hc)) (fun _ => rfl)
      fun t hinv ht hkt ht' hkt' => ?_
    have hlim' : limitOf (t.committed.overrideOf orgId) (.concurrent kind) = lim :=
      (congrArg (limitOf · _) (hinv.overrideOf orgId)).trans hlim
    have hreading : Reading orgId (.concurrent kind) lim
        (some (t.committed.concurrent kind orgId n : Int))
        [checkAt i (.concurrent kind) orgId n t.committed] :=
      reading_one rfl rfl hlim' Metric.noConfusion (used_concurrent _ _ _ _)
    refine ⟨_, ht', hkt'.1, hreading, fun hnot ho l hl later hlater => ?_⟩
    subst ho
    have hlt : t.committed.concurrent kind orgId n < l := by
      refine Nat.not_le.mp fun hle => hnot (hreading.reached.mpr ⟨_, l, rfl, hlim ▸ hl, ?_⟩)
      exact Int.ofNat_le.mpr hle
    refine Nat.lt_of_le_of_lt ?_ hlt
    refine Nat.le_trans (occupied_inFlight_mono (s := t)
      (Nat.sub_le_sub_right (Nat.le_trans hkt.2.1 hlater) _)) (Nat.le_of_eq ?_)
    exact occupied_eq_committed hinv ((ht.locks _).mpr List.mem_cons_self) ht.own
      (not_unlimited (concurrent_mem kind) hl) (counts_inFlight kind orgId _)

theorem roomThisMonth_of_lt (h : Sound orgs org s) {n l : Nat} (hl : ((.jobs kind, org), i) ∈ s.locks)
    (hown : s.own i = []) (hlim : limitOf (overrideIn orgs org) (.jobs kind) = some l)
    (hsince : Since orgs org kind org n s) (hlt : (s.committed.usageThisMonth kind org n).jobs < l)
    {month : Nat} (hmonth : s.now < Months.start (month + 1)) :
    s.occupied (·.createdIn kind org (Months.start month) (Months.start (month + 1))) < l := by
  have hu := not_unlimited (jobs_mem kind) hlim
  by_cases hm : month = Months.monthOf n
  · subst hm
    rw [occupied_eq_committed h hl hown hu (counts_createdIn kind org _ _)]
    exact hlt
  · -- a later month has no jobs yet
    have hle : Months.start (Months.monthOf n + 1) ≤ Months.start month := by
      refine Months.start_mono (Nat.lt_of_le_of_ne (Nat.not_lt.mp fun hlt => ?_) (Ne.symm hm))
      have hbefore : Months.start (month + 1) ≤ Months.start (Months.monthOf n) :=
        Months.start_mono (Nat.succ_le_of_lt hlt)
      have := Months.start_monthOf_le n
      have := hsince.1
      omega
    have hlater : n + 1 ≤ Months.start month :=
      Nat.le_trans (Nat.succ_le_of_lt (Months.lt_start_monthOf_succ n)) hle
    have hzero : s.occupied
        (·.createdIn kind org (Months.start month) (Months.start (month + 1))) ≤
          s.occupied (·.createdIn kind org (n + 1) (Months.start (month + 1))) :=
      occupied_createdIn_mono hlater
    rw [hsince.2 rfl hu] at hzero
    omega

/-- The jobs of the month, if they are counted. -/
theorem goesOn_usageAt (hK : Lasting orgs org i [(.jobs kind, orgId)] K)
    (h : Here i [(.jobs kind, orgId)] [] checks s) (hk : K s) {lim runtime : Option Nat}
    (hlim : limitOf (overrideIn orgs orgId) (.jobs kind) = lim)
    (hruntime : runtime =
      if kind = .simulation then limitOf (overrideIn orgs orgId) .simRuntimeMs else none)
    {now : Option Nat} (hnow : now.isSome = (lim.isSome || runtime.isSome))
    (hsince : ∀ n, now = some n → Since orgs org kind orgId n s) :
    GoesOn orgs org i (usageAt kind orgId now) (fun u t => ∃ cs cs',
      Here i [(.jobs kind, orgId)] [] (checks ++ (cs ++ cs')) t ∧ K t ∧
        Reading orgId (.jobs kind) lim (u.map fun u => u.jobs) cs ∧
          Reading orgId .simRuntimeMs runtime (u.map fun u => u.runtimeMs) cs' ∧
            (kind ≠ .simulation → cs' = []) ∧
              ((¬ ∃ c ∈ cs, c.reached) → RoomThisMonth orgs org kind orgId t)) s := by
  cases now with
  | none =>
    obtain ⟨hl, hr⟩ := Bool.or_eq_false_iff.mp hnow.symm
    rw [Option.isSome_eq_false_iff, Option.isNone_iff_eq_none] at hl hr
    subst hl hr
    refine ⟨[], [], by rwa [List.append_nil, List.append_nil], hk, reading_none _ _ _,
      reading_none _ _ _, fun _ => rfl, fun _ ho l hl => ?_⟩
    subst ho
    rw [hlim] at hl
    cases hl
  | some n =>
    refine goesOn_check
      (fun t => if kind = .simulation then
        [checkAt i (.jobs kind) orgId n t.committed, checkAt i .simRuntimeMs orgId n t.committed]
        else [checkAt i (.jobs kind) orgId n t.committed])
      (hK.and (lasting_since n)) h ⟨hk, hsince n rfl⟩ (fun t c hc => ?_) (fun _ => rfl)
      fun t hinv ht hkt ht' hkt' => ?_
    · split at hc
      · rcases List.mem_cons.mp hc with rfl | hc
        · rfl
        · exact congrArg Check.program (List.mem_singleton.mp hc)
      · exact congrArg Check.program (List.mem_singleton.mp hc)
    have horgs := hinv.overrideOf orgId
    have hjobs : Reading orgId (.jobs kind) lim
        (some ((t.committed.usageThisMonth kind orgId n).jobs : Int))
        [checkAt i (.jobs kind) orgId n t.committed] :=
      reading_one rfl rfl ((congrArg (limitOf · _) horgs).trans hlim) Metric.noConfusion
        (used_jobs _ _ _ _)
    obtain ⟨cs', hcs, hreading, hempty⟩ : ∃ cs', (if kind = .simulation then
        [checkAt i (.jobs kind) orgId n t.committed, checkAt i .simRuntimeMs orgId n t.committed]
        else [checkAt i (.jobs kind) orgId n t.committed]) =
          [checkAt i (.jobs kind) orgId n t.committed] ++ cs' ∧
        Reading orgId .simRuntimeMs runtime
          (some ((t.committed.usageThisMonth kind orgId n).runtimeMs : Int)) cs' ∧
        (kind ≠ .simulation → cs' = []) := by
      by_cases hkind : kind = .simulation
      · subst hkind
        refine ⟨[checkAt i .simRuntimeMs orgId n t.committed], rfl, ?_, fun hne => absurd rfl hne⟩
        exact reading_one rfl rfl ((congrArg (limitOf · _) horgs).trans hruntime.symm)
          Metric.noConfusion rfl
      · rw [if_neg hkind] at hruntime
        rw [if_neg hkind, hruntime]
        exact ⟨[], rfl, reading_none _ _ _, fun _ => rfl⟩
    rw [hcs] at ht' hkt' ⊢
    refine ⟨_, cs', ht', hkt'.1, hjobs, hreading, hempty, fun hnot ho l hl month hmonth => ?_⟩
    subst ho
    refine roomThisMonth_of_lt hinv ((ht.locks _).mpr List.mem_cons_self) ht.own hl hkt.2 ?_ hmonth
    refine Nat.not_le.mp fun hle => hnot (hjobs.reached.mpr ⟨_, l, rfl, hlim ▸ hl, ?_⟩)
    exact Int.ofNat_le.mpr hle

/-! ## Refusing -/

theorem goesOn_quotaError (hK : Lasting orgs org i locks K) (h : Here i locks own checks s)
    (hk : K s) {metric : Metric} {used : Int} {l : Nat} {next : QuotaError → Request ρ}
    (hnext : ∀ e t, Here i locks own checks t → K t → GoesOn orgs org i (next e) Q t) :
    GoesOn orgs org i (quotaError metric used l >>= next) Q s :=
  goesOn_read hK h hk (fun _ => rfl) fun t _ ht hkt => hnext _ t ht hkt

/-- The error is there where the limit is reached. -/
theorem goesOn_enforce (hK : Lasting orgs org i locks K) (h : Here i locks own checks s)
    (hk : K s) (metric : Metric) (used : Option Int) (lim : Option Nat) :
    GoesOn orgs org i (enforce metric used lim) (fun e t => Here i locks own checks t ∧ K t ∧
      (e.isSome = true ↔ ∃ u l, used = some u ∧ lim = some l ∧ (l : Int) ≤ u)) s := by
  rcases used with - | u <;> rcases lim with - | l
  · exact ⟨h, hk, by simp⟩
  · exact ⟨h, hk, by simp⟩
  · exact ⟨h, hk, by simp⟩
  · rw [enforce]
    split
    case isTrue hle =>
      refine goesOn_quotaError hK h hk fun e t ht hkt => ⟨ht, hkt, ?_⟩
      exact iff_of_true rfl ⟨u, l, rfl, rfl, hle⟩
    case isFalse hle =>
      refine ⟨h, hk, iff_of_false Bool.false_ne_true ?_⟩
      rintro ⟨_, _, ⟨⟩, ⟨⟩, hle'⟩
      exact hle hle'

theorem goesOn_orElse {first next : Request (Option QuotaError)} {P P' : Prop}
    (h : GoesOn orgs org i first (fun e t => Here i locks own checks t ∧ K t ∧
      (e.isSome = true ↔ P)) s)
    (hnext : ∀ t, Here i locks own checks t → K t →
      GoesOn orgs org i next (fun e u => Here i locks own checks u ∧ K u ∧
        (e.isSome = true ↔ P')) t) :
    GoesOn orgs org i (orElse first next) (fun e t => Here i locks own checks t ∧ K t ∧
      (e.isSome = true ↔ P ∨ P')) s := by
  refine Contract.keeps_bind (h.mono fun e t ht => ?_)
  obtain ⟨hhere, hkt, he⟩ := ht
  cases e with
  | some error => exact ⟨hhere, hkt, iff_of_true rfl (.inl (he.mp rfl))⟩
  | none =>
    refine (hnext t hhere hkt).mono fun e u hu => ⟨hu.1, hu.2.1, hu.2.2.trans ?_⟩
    exact (or_iff_right fun hp => Bool.false_ne_true (he.mpr hp)).symm

variable (orgs)

/-- What the checks of a call about `domain` say: whether it is refused. -/
structure Judged (domain : Domain) (orgId : Text) (addBytes : Int) (checks : List Check)
    (refused : Prop) : Prop where
  about : ∀ c ∈ checks, c.orgId = orgId ∧ c.metric ∈ domain.metrics ∧
    (c.metric = .storageBytes → c.addBytes = addBytes)
  refused : refused ↔ ∃ c ∈ checks, c.reached
  complete : ∀ metric ∈ domain.metrics, limitOf (overrideIn orgs orgId) metric = none ∨
    ∃ c ∈ checks, c.metric = metric

variable {orgs}

omit [Config] in
theorem mem_metrics_jobs {metric : Metric} :
    metric ∈ (Domain.jobs kind).metrics ↔ metric = .concurrent kind ∨ metric = .jobs kind ∨
      (metric = .simRuntimeMs ∧ kind = .simulation) := by
  cases kind <;> simp [Domain.metrics]

theorem judged_jobs {lim lim' runtime : Option Nat}
    (hlim : limitOf (overrideIn orgs orgId) (.concurrent kind) = lim)
    (hlim' : limitOf (overrideIn orgs orgId) (.jobs kind) = lim')
    (hruntime : runtime =
      if kind = .simulation then limitOf (overrideIn orgs orgId) .simRuntimeMs else none)
    {used used' used'' : Option Int} {cs cs' cs'' : List Check}
    (h : Reading orgId (.concurrent kind) lim used cs) (h' : Reading orgId (.jobs kind) lim' used' cs')
    (h'' : Reading orgId .simRuntimeMs runtime used'' cs'')
    (hnone : kind ≠ .simulation → cs'' = []) :
    Judged orgs (.jobs kind) orgId 0 (cs ++ (cs' ++ cs''))
      ((∃ u l, used = some u ∧ lim = some l ∧ (l : Int) ≤ u) ∨
        (∃ u l, used' = some u ∧ lim' = some l ∧ (l : Int) ≤ u) ∨
          ∃ u l, used'' = some u ∧ runtime = some l ∧ (l : Int) ≤ u) where
  about := by
    intro c hc
    have hstorage : ∀ {m : Metric}, m ≠ .storageBytes → c.metric = m →
        (c.metric = .storageBytes → c.addBytes = 0) := fun hne he he' => absurd (he ▸ he') hne
    rcases List.mem_append.mp hc with hc | hc
    · obtain ⟨ho, hm⟩ := h.about c hc
      exact ⟨ho, hm ▸ concurrent_mem kind, hstorage Metric.noConfusion hm⟩
    rcases List.mem_append.mp hc with hc | hc
    · obtain ⟨ho, hm⟩ := h'.about c hc
      exact ⟨ho, hm ▸ jobs_mem kind, hstorage Metric.noConfusion hm⟩
    · obtain ⟨ho, hm⟩ := h''.about c hc
      refine ⟨ho, mem_metrics_jobs.mpr (.inr (.inr ⟨hm, ?_⟩)), hstorage Metric.noConfusion hm⟩
      by_contra hkind
      rw [hnone hkind] at hc
      cases hc
  refused := by
    rw [← h.reached, ← h'.reached, ← h''.reached]
    simp only [List.mem_append, or_and_right, exists_or]
  complete := by
    intro metric hm
    have hmade : ∀ {l : Option Nat} {u : Option Int} {made : List Check}, (∀ c ∈ made,
        c ∈ cs ++ (cs' ++ cs'')) → Reading orgId metric l u made →
          limitOf (overrideIn orgs orgId) metric = l →
            limitOf (overrideIn orgs orgId) metric = none ∨
              ∃ c ∈ cs ++ (cs' ++ cs''), c.metric = metric := by
      intro l u made hsub hreading hl
      refine or_iff_not_imp_left.mpr fun hne => ?_
      obtain ⟨c, hc, hcm⟩ := hreading.complete (hl ▸ hne)
      exact ⟨c, hsub c hc, hcm⟩
    rcases mem_metrics_jobs.mp hm with rfl | rfl | ⟨rfl, hkind⟩
    · exact hmade (fun c hc => List.mem_append_left _ hc) h hlim
    · exact hmade (fun c hc => List.mem_append_right _ (List.mem_append_left _ hc)) h' hlim'
    · refine hmade (fun c hc => List.mem_append_right _ (List.mem_append_right _ hc)) h'' ?_
      rw [hruntime, if_pos hkind]

/-- The checks of a kind of jobs: without an error there is room for another. -/
theorem goesOn_assertJobQuota (h : Here i [(.jobs kind, orgId)] [] [] s) {lim lim' runtime : Option Nat}
    (hlim : limitOf (overrideIn orgs orgId) (.concurrent kind) = lim)
    (hlim' : limitOf (overrideIn orgs orgId) (.jobs kind) = lim')
    (hruntime : runtime =
      if kind = .simulation then limitOf (overrideIn orgs orgId) .simRuntimeMs else none) :
    GoesOn orgs org i (assertJobQuota kind orgId lim lim' runtime) (fun e t => ∃ cs,
      Here i [(.jobs kind, orgId)] [] cs t ∧ Judged orgs (.jobs kind) orgId 0 cs (e.isSome = true) ∧
        (e = none → RoomInFlight orgs org kind orgId t ∧ RoomThisMonth orgs org kind orgId t)) s := by
  refine Contract.keeps_bind ((goesOn_askNow (lasting_const True) h trivial _).mono ?_)
  rintro since t ⟨ht, -, hsome, hsince⟩
  have hlasting := lasting_forall fun n (_ : since = some n) =>
    show Lasting orgs org i [(.jobs kind, orgId)] (Since orgs org kind orgId n) from lasting_since n
  refine Contract.keeps_bind ((goesOn_askNow hlasting ht hsince _).mono ?_)
  rintro month t ⟨ht, hsince, hsome', hmonth⟩
  have hlasting' := lasting_forall fun n (_ : month = some n) =>
    show Lasting orgs org i [(.jobs kind, orgId)] (Since orgs org kind orgId n) from lasting_since n
  refine Contract.keeps_bind
    ((goesOn_concurrentAt hlasting' ht hmonth hlim hsome hsince).mono ?_)
  rintro inFlight t ⟨cs, ht, hmonth, hreading, hroom⟩
  have hroomLasting := lasting_imp (¬ ∃ c ∈ cs, c.reached)
    (show Lasting orgs org i [(.jobs kind, orgId)] (RoomInFlight orgs org kind orgId) from
      lasting_roomInFlight)
  refine Contract.keeps_bind
    ((goesOn_usageAt hroomLasting ht hroom hlim' hruntime hsome' hmonth).mono ?_)
  rintro monthly t ⟨cs', cs'', ht, hroom, hreading', hreading'', hempty, hroom'⟩
  have hroomLasting' := lasting_imp (¬ ∃ c ∈ cs', c.reached)
    (show Lasting orgs org i [(.jobs kind, orgId)] (RoomThisMonth orgs org kind orgId) from
      lasting_roomThisMonth)
  have hboth := hroomLasting.and hroomLasting'
  refine (goesOn_orElse (goesOn_enforce hboth ht ⟨hroom, hroom'⟩ _ _ _) fun t ht hk =>
    goesOn_orElse (goesOn_enforce hboth ht hk _ _ _) fun t ht hk =>
      goesOn_enforce hboth ht hk _ _ _).mono ?_
  rintro e t ⟨ht, hk, he⟩
  have hjudged := judged_jobs hlim hlim' hruntime hreading hreading' hreading'' hempty
  refine ⟨_, ht, ⟨hjudged.about, he.trans hjudged.refused, hjudged.complete⟩, fun hnone => ?_⟩
  have hnot := mt he.mpr (by rw [hnone]; exact Bool.false_ne_true)
  refine ⟨hk.1 fun hc => hnot (.inl (hreading.reached.mp hc)), hk.2 fun hc => hnot (.inr (.inl ?_))⟩
  exact hreading'.reached.mp hc

theorem goesOn_override (hK : Lasting orgs org i locks K) (h : Here i locks own checks s) (hk : K s)
    {next : Option OrgQuotaOverride → Request ρ}
    (hnext : ∀ t, Here i locks own checks t → K t →
      GoesOn orgs org i (next (overrideIn orgs orgId)) Q t) :
    GoesOn orgs org i (.exec (.override orgId) next) Q s :=
  goesOn_read hK h hk (fun _ => rfl) fun t hinv ht hkt => hinv.overrideOf orgId ▸ hnext t ht hkt

/-! ## The check of the bytes -/

theorem lasting_covered (more : Int) :
    Lasting orgs org i [(.storage, orgId)] fun s => orgId = org → Covered orgs org i more s where
  relies := by
    intro s t hr hl hcovered ho l hlim
    subst ho
    obtain ⟨c, hc, hmetric, horg, hle⟩ := hcovered rfl l hlim
    have hlock : ((Domain.storage, orgId), i) ∈ s.locks := (hl _).mpr List.mem_cons_self
    have hassets := hr.assets hlock (not_unlimited List.mem_cons_self hlim)
    refine ⟨c, hr.checks ▸ hc, hmetric, horg, ?_⟩
    rwa [hassets, hr.own]
  logged := by
    intro s more hcovered ho l hlim
    obtain ⟨c, hc, hrest⟩ := hcovered ho l hlim
    refine ⟨c, ?_, hrest⟩
    rw [Db.checksOf, List.filter_append]
    exact List.mem_append_left _ hc

/-- The assets of the organization weigh `a`. -/
theorem lasting_assetBytes (a : Int) : Lasting orgs org i [(.storage, orgId)] fun s =>
    orgId = org → ¬ Unlimited (overrideIn orgs org) .storage → s.committed.assetBytes orgId = a where
  relies := by
    intro s t hr hl hassets ho hu
    subst ho
    have hlock : ((Domain.storage, orgId), i) ∈ s.locks := (hl _).mpr List.mem_cons_self
    exact (hr.assets hlock hu).trans (hassets rfl hu)
  logged := fun _ _ h => h

/-- The check of an upload. -/
def storageCheck (i : Nat) (orgId : Text) (addBytes : Int) (s : Db) : Check where
  program := i
  metric := .storageBytes
  orgId := orgId
  addBytes := addBytes
  now := s.now
  tables := s.committed

theorem check_reached_storage {c : Check} (hm : c.metric = .storageBytes) :
    c.reached ↔ ∃ l, limitOf (c.tables.overrideOf c.orgId) .storageBytes = some l ∧
      (l : Int) < c.tables.storedBytes c.orgId + max 0 c.addBytes := by
  simp only [Check.reached, AdminOrgUsage.reached, limit_report, hm, if_true]
  exact Iff.rfl

/-- What one check says, where there is a limit. -/
theorem judged_storage (c : Check) {l : Nat} {refused : Prop} (hm : c.metric = .storageBytes)
    (ho : c.orgId = orgId) (hover : c.tables.overrideOf orgId = overrideIn orgs orgId)
    (hlim : limitOf (overrideIn orgs orgId) .storageBytes = some l)
    (hrefused : refused ↔ (l : Int) < c.tables.storedBytes orgId + max 0 c.addBytes) :
    Judged orgs .storage orgId c.addBytes [c] refused where
  about := by
    intro c' hc
    obtain rfl := List.mem_singleton.mp hc
    exact ⟨ho, hm ▸ List.mem_cons_self, fun _ => rfl⟩
  refused := by
    subst ho
    rw [hrefused]
    constructor
    · intro hlt
      exact ⟨c, List.mem_cons_self, (check_reached_storage hm).mpr ⟨l, hover ▸ hlim, hlt⟩⟩
    · rintro ⟨c', hc, hreached⟩
      obtain rfl := List.mem_singleton.mp hc
      obtain ⟨l', hl', hlt⟩ := (check_reached_storage hm).mp hreached
      rw [hover, hlim] at hl'
      obtain rfl := Option.some.inj hl'
      exact hlt
  complete := fun metric hmem => .inr ⟨c, List.mem_cons_self, by rw [hm, List.mem_singleton.mp hmem]⟩

/-- The check of the bytes: without an error the upload fits. -/
theorem goesOn_assertStorageQuota (h : Here i [(.storage, orgId)] [] [] s) (addBytes : Int) :
    GoesOn orgs org i (assertStorageQuota orgId addBytes) (fun e t => ∃ cs,
      Here i [(.storage, orgId)] [] cs t ∧
        (orgId = org → Judged orgs .storage orgId addBytes cs (e.isSome = true)) ∧
          (e = none → orgId = org → Covered orgs org i addBytes t)) s := by
  refine goesOn_override (lasting_const True) h trivial fun t ht _ => ?_
  rw [Prog.bind, show effective "QUOTA_STORAGE_BYTES_PER_ORG"
    (((overrideIn orgs orgId).bind (·.storageBytes)).map Config.ofBigInt) =
      limitOf (overrideIn orgs orgId) .storageBytes from rfl]
  cases hlim : limitOf (overrideIn orgs orgId) .storageBytes with
  | none =>
    refine ⟨[], ht, fun _ => ⟨fun _ hc => (nomatch hc), by simp, fun metric hm => .inl ?_⟩, ?_⟩
    · rwa [List.mem_singleton.mp hm]
    · rintro - rfl l hl
      rw [hlim] at hl
      cases hl
  | some l =>
    have hlimited : ¬ Unlimited (overrideIn orgs orgId) .storage :=
      not_unlimited List.mem_cons_self hlim
    refine goesOn_read (lasting_const True) ht trivial (fun _ => rfl) fun t _ ht _ => ?_
    refine goesOn_check (fun u => [storageCheck i orgId addBytes u])
      (lasting_assetBytes (t.committed.assetBytes orgId)) ht (fun _ _ => rfl)
      (fun _ _ hc => congrArg Check.program (List.mem_singleton.mp hc)) (fun _ => rfl)
      fun u hinv hu hassets hu' hassets' => ?_
    have hassets : orgId = org → t.committed.assetBytes orgId = u.committed.assetBytes orgId :=
      fun ho => (hassets ho (ho ▸ hlimited)).symm
    have hjudged : ∀ refused : Prop, (refused ↔ (l : Int) <
        t.committed.assetBytes orgId + u.committed.resultBytes orgId + max 0 addBytes) →
          orgId = org → Judged orgs .storage orgId addBytes
            [storageCheck i orgId addBytes u] refused := by
      intro refused hrefused ho
      refine judged_storage (storageCheck i orgId addBytes u) rfl rfl (hinv.overrideOf orgId) hlim
        (hrefused.trans ?_)
      rw [hassets ho]
      exact Iff.rfl
    dsimp only [Prog.bind]
    split
    case isTrue hlt =>
      refine goesOn_quotaError (lasting_const True) hu' trivial fun e v hv _ => ⟨_, hv, ?_, ?_⟩
      · exact hjudged _ (iff_of_true rfl hlt)
      · exact fun he => (nomatch he)
    case isFalse hle =>
      refine ⟨_, hu', hjudged _ (iff_of_false Bool.false_ne_true hle), fun _ ho l' hl' => ?_⟩
      subst ho
      rw [hlim] at hl'
      obtain rfl := Option.some.inj hl'
      refine ⟨storageCheck i orgId addBytes u, ?_, rfl, rfl, ?_⟩
      · rw [hu'.checks]
        exact List.mem_cons_self
      have hbytes : bytesOf orgId ((u.own i).filterMap Write.assetOf) = 0 := by
        rw [hu.own]
        rfl
      have hsame := hassets rfl
      change u.committed.assetBytes orgId + bytesOf orgId ((u.own i).filterMap Write.assetOf) +
        addBytes + u.committed.resultBytes orgId ≤ l
      rw [hbytes]
      omega

end

end CircuitForge.Usage
