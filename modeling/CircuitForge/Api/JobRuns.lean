/-
What the statements on a row keep, whatever the others do.

The contract is about one row.  A conditional write of a program leaves a row that has ended
alone.  A write by id does where nobody has written the status since the program last looked
at the row.
-/
import CircuitForge.Api.Jobs

namespace CircuitForge.Jobs

open Js Requests

/-- Nobody has written the status of the row since a program that writes it by id, or leaves
it to be run again, has looked at it. -/
def Unchanged (key : Key) (_input : Input) (_i : Nat) : Stmt → Db → Prop
  | .update k _ seen _, s => k = key → ∀ row ∈ s.jobs.get? key, row.changes = seen
  | .retryLater k seen, s => k = key → ∀ row ∈ s.jobs.get? key, row.changes = seen
  | _, _ => True

instance (key : Key) (input : Input) (i : Nat) : ∀ st s, Decidable (Unchanged key input i st s)
  | .update _ _ _ _, _ | .retryLater _ _, _ =>
    inferInstanceAs (Decidable (_ → ∀ row ∈ (_ : Option Row), _))
  | .now, _ | .check _, _ | .insert _, _ | .find _, _ | .claim _ _ _, _ | .updateMany _ _ _, _
  | .requestAbort _, _ | .stale _ _, _ | .add _ _, _ | .remove _, _ | .queueState _, _
  | .download _, _ | .upload _, _ | .simulate _, _ | .batch _ _, _ | .design _, _ | .layout _, _
  | .polls, _ => isTrue trivial

/-! ## The contract -/

/-- What holds of a row, with the claims of it. -/
structure RowSound (key : Key) (claims : List (Nat × Key)) (row : Row) : Prop where
  claimed : key.1 ≠ .simulation → (∃ i, (i, key) ∈ claims) → row.job.status ≠ .queued
  retrying : row.retrying = true → row.job.status = .running ∧ key.1 = .simulation
  retried : key.1 ≠ .simulation → row.retries = 0
  bundle : row.job.gerbersKey ≠ none → row.job.status = .succeeded

/-- What holds of a row between two statements. -/
structure Sound (key : Key) (s : Db) : Prop where
  known : (∃ i, (i, key) ∈ s.claims) → s.jobs.get? key ≠ none
  ran : ∀ i, (i, key) ∈ s.runs → (i, key) ∈ s.claims
  claimedOnce : key.1 ≠ .simulation → s.claims.countP (·.2 = key) ≤ 1
  ranOnce : key.1 ≠ .simulation → s.runs.countP (·.2 = key) ≤ 1
  row : ∀ row, s.jobs.get? key = some row → RowSound key s.claims row

/-- What becomes of a row while the others act. -/
structure Later (i : Nat) (row row' : Row) : Prop where
  changes : row.changes ≤ row'.changes
  retries : row.retries ≤ row'.retries
  same : row'.changes = row.changes → row'.job.status = row.job.status ∧
    row'.writer = row.writer ∧ (row.writer = i → row'.retrying = row.retrying)
  ended : row.job.status.terminal = true → row'.retries = row.retries →
    row'.job.outcome = row.job.outcome

theorem Later.refl (i : Nat) (row : Row) : Later i row row :=
  ⟨Nat.le_refl _, Nat.le_refl _, fun _ => ⟨rfl, rfl, fun _ => rfl⟩, fun _ _ => rfl⟩

theorem status_of_outcome {job job' : Job} (h : job'.outcome = job.outcome) :
    job'.status = job.status := (congrArg Job.status h :)

theorem Later.trans {i : Nat} {row row' row'' : Row} (h : Later i row row')
    (h' : Later i row' row'') : Later i row row'' where
  changes := h.changes.trans h'.changes
  retries := h.retries.trans h'.retries
  same := by
    intro he
    have hle := h.changes
    have hle' := h'.changes
    obtain ⟨hs, hw, hr⟩ := h.same (by omega)
    obtain ⟨hs', hw', hr'⟩ := h'.same (by omega)
    exact ⟨hs'.trans hs, hw'.trans hw, fun hi => (hr' (hw.trans hi)).trans (hr hi)⟩
  ended := by
    intro ht he
    have hle := h.retries
    have hle' := h'.retries
    have hfirst := h.ended ht (by omega)
    have hstatus := status_of_outcome hfirst
    exact (h'.ended (hstatus ▸ ht) (by omega)).trans hfirst

/-- What a program may rely on. -/
structure Relies (key : Key) (i : Nat) (s t : Db) : Prop where
  row : ∀ row, s.jobs.get? key = some row →
    ∃ row', t.jobs.get? key = some row' ∧ Later i row row'
  claims : (i, key) ∈ s.claims → (i, key) ∈ t.claims
  runs : (i, key) ∈ t.runs → (i, key) ∈ s.runs
  /-- A row that has ended is not claimed. -/
  unclaimed : ∀ row row', s.jobs.get? key = some row → row.job.status.terminal = true →
    t.jobs.get? key = some row' → row'.retries = row.retries →
      ∀ k, (k, key) ∈ t.claims → (k, key) ∈ s.claims

def contract (key : Key) : Contract Db where
  inv := Sound key
  rely := Relies key
  rely_refl := fun i _ =>
    { row := fun row hrow => ⟨row, hrow, Later.refl i row⟩
      claims := id
      runs := id
      unclaimed := fun _ _ _ _ _ _ _ hk => hk }
  rely_trans := by
    intro i s t u h h'
    refine ⟨fun row hrow => ?_, fun hi => h'.claims (h.claims hi), fun hi => h.runs (h'.runs hi),
      fun row row'' hrow ht hrow'' he k hk => ?_⟩
    · obtain ⟨row', hrow', hlater⟩ := h.row row hrow
      obtain ⟨row'', hrow'', hlater'⟩ := h'.row row' hrow'
      exact ⟨row'', hrow'', hlater.trans hlater'⟩
    · obtain ⟨row', hrow', hlater⟩ := h.row row hrow
      obtain ⟨row₂, hrow₂, hlater'⟩ := h'.row row' hrow'
      obtain rfl := Option.some.inj (hrow₂.symm.trans hrow'')
      have hle := hlater.retries
      have hle' := hlater'.retries
      have hstatus := status_of_outcome (hlater.ended ht (by omega))
      exact h.unclaimed row row' hrow ht hrow' (by omega) k
        (h'.unclaimed row' row₂ hrow' (hstatus ▸ ht) hrow'' (by omega) k hk)

/-! ## Statements that leave the row -/

/-- The row of the contract, its claims and its runs are as they were. -/
structure Untouched (key : Key) (s t : Db) : Prop where
  row : t.jobs.get? key = s.jobs.get? key
  claims : ∀ k, (k, key) ∈ t.claims ↔ (k, key) ∈ s.claims
  claimCount : t.claims.countP (·.2 = key) = s.claims.countP (·.2 = key)
  runs : ∀ k, (k, key) ∈ t.runs ↔ (k, key) ∈ s.runs
  runCount : t.runs.countP (·.2 = key) = s.runs.countP (·.2 = key)

theorem Untouched.sound {key : Key} {s t : Db} (h : Untouched key s t) (hs : Sound key s) :
    Sound key t where
  known := by
    rintro ⟨i, hi⟩
    rw [h.row]
    exact hs.known ⟨i, (h.claims i).mp hi⟩
  ran := fun i hi => (h.claims i).mpr (hs.ran i ((h.runs i).mp hi))
  claimedOnce := fun hk => h.claimCount ▸ hs.claimedOnce hk
  ranOnce := fun hk => h.runCount ▸ hs.ranOnce hk
  row := by
    intro row hrow
    have hsound := hs.row row (h.row ▸ hrow)
    exact { hsound with
      claimed := fun hk ⟨i, hi⟩ => hsound.claimed hk ⟨i, (h.claims i).mp hi⟩ }

theorem Untouched.relies {key : Key} {s t : Db} (h : Untouched key s t) (i : Nat) :
    Relies key i s t where
  row := fun row hrow => ⟨row, h.row.trans hrow, Later.refl i row⟩
  claims := (h.claims i).mpr
  runs := (h.runs i).mp
  unclaimed := fun _ _ _ _ _ _ k hk => (h.claims k).mp hk

theorem untouched_of_tables {key : Key} {s t : Db} (hj : t.jobs = s.jobs)
    (hc : t.claims = s.claims) (hr : t.runs = s.runs) : Untouched key s t where
  row := congrArg (fun m => Map.get? m key) hj
  claims := fun _ => by rw [hc]
  claimCount := by rw [hc]
  runs := fun _ => by rw [hr]
  runCount := by rw [hr]

/-- Another row is written. -/
theorem untouched_put {key k : Key} (hk : k ≠ key) (s : Db) (row : Row) :
    Untouched key s (s.put k row) where
  row := Map.get?_set_ne hk s.jobs row
  claims := fun _ => Iff.rfl
  claimCount := rfl
  runs := fun _ => Iff.rfl
  runCount := rfl

/-! ## Writing the row -/

/-- The row is there and is written, and the claims and the runs stay. -/
theorem put_sound {key : Key} {s : Db} (h : Sound key s) {row : Row}
    (hrow : RowSound key s.claims row) : Sound key (s.put key row) where
  known := fun _ => by
    change (s.jobs.set key row).get? key ≠ none
    rw [Map.get?_set_self]
    exact Option.some_ne_none row
  ran := h.ran
  claimedOnce := h.claimedOnce
  ranOnce := h.ranOnce
  row := by
    intro row' hrow'
    change (s.jobs.set key row).get? key = some row' at hrow'
    rw [Map.get?_set_self] at hrow'
    exact Option.some.inj hrow' ▸ hrow

theorem put_relies {key : Key} {s : Db} {i : Nat} {row row' : Row}
    (hrow : s.jobs.get? key = some row) (h : Later i row row') :
    Relies key i s (s.put key row') where
  row := by
    intro row₀ hrow₀
    obtain rfl := Option.some.inj (hrow.symm.trans hrow₀)
    exact ⟨row', Map.get?_set_self _ _ _, h⟩
  claims := id
  runs := id
  unclaimed := fun _ _ _ _ _ _ _ hk => hk

/-- A write of the status, of a row that has not ended or by a retry. -/
theorem later_write {row : Row} {i j : Nat} {patch : Patch} {retry : Bool}
    (h : row.job.status.terminal = true → retry = true) : Later j row (row.write i patch retry) where
  changes := Nat.le_succ _
  retries := by
    rw [Row.write]
    split
    · exact Nat.le_succ _
    · exact Nat.le_refl _
  same := fun he => absurd he (Nat.succ_ne_self _)
  ended := by
    intro ht he
    rw [Row.write, h ht, if_pos rfl] at he
    exact absurd he (Nat.succ_ne_self _)

/-- What every patch of the status keeps to. -/
structure Patch.Fits (patch : Patch) (key : Key) : Prop where
  requeues : patch.status = .queued → key.1 = .simulation
  bundle : ∀ j, j.gerbersKey = none → (patch.apply j).gerbersKey ≠ none → patch.status = .succeeded

theorem rowSound_write {key : Key} {claims : List (Nat × Key)} {row : Row}
    (h : RowSound key claims row) {i : Nat} {patch : Patch} {retry : Bool}
    (hpatch : patch.Fits key) (hretrying : row.retrying = false)
    (hretry : retry = true → key.1 = .simulation) (hstatus : row.job.status ≠ .succeeded) :
    RowSound key claims (row.write i patch retry) where
  claimed := fun hk _ he => hk (hpatch.requeues he)
  retrying := fun he => nomatch hretrying.symm.trans he
  retried := by
    intro hk
    rw [Row.write, if_neg fun he => hk (hretry he)]
    exact h.retried hk
  bundle := by
    refine hpatch.bundle row.job ?_
    by_contra hne
    exact hstatus (h.bundle hne)

/-! ## Claims and runs -/

theorem eq_of_countP_le_one {α : Type} {p : α → Bool} {xs : List α} (h : xs.countP p ≤ 1) {a b : α}
    (ha : a ∈ xs) (hpa : p a = true) (hb : b ∈ xs) (hpb : p b = true) : a = b := by
  rw [List.countP_eq_length_filter] at h
  have ha' : a ∈ xs.filter p := List.mem_filter.mpr ⟨ha, hpa⟩
  have hb' : b ∈ xs.filter p := List.mem_filter.mpr ⟨hb, hpb⟩
  generalize xs.filter p = ys at h ha' hb'
  cases ys with
  | nil => cases ha'
  | cons y ys =>
    obtain rfl : ys = [] := List.length_eq_zero_iff.mp (Nat.le_zero.mp (Nat.le_of_succ_le_succ h))
    rw [List.mem_singleton.mp ha', List.mem_singleton.mp hb']

/-- The one program that claimed a row has not run its job yet. -/
theorem countP_runs_eq_zero {key : Key} {s : Db} (h : Sound key s) (hk : key.1 ≠ .simulation)
    {i : Nat} (hclaim : (i, key) ∈ s.claims) (hrun : (i, key) ∉ s.runs) :
    s.runs.countP (·.2 = key) = 0 := by
  refine List.countP_eq_zero.mpr fun e he hek => ?_
  obtain ⟨k, key'⟩ := e
  obtain rfl : key' = key := of_decide_eq_true hek
  have heq := eq_of_countP_le_one (h.claimedOnce hk) (h.ran k he) hek hclaim hek
  exact hrun (heq ▸ he)

/-- The program runs the job of a row that it has claimed. -/
theorem logRun_sound {key k : Key} {s : Db} (h : Sound key s) {i : Nat}
    (hclaim : k = key → (i, key) ∈ s.claims ∧ (key.1 ≠ .simulation → (i, key) ∉ s.runs)) :
    Sound key (s.logRun i k) where
  known := h.known
  ran := by
    intro j hj
    rcases List.mem_append.mp hj with hj | hj
    · exact h.ran j hj
    · obtain ⟨rfl, rfl⟩ := Prod.mk.inj (List.mem_singleton.mp hj)
      exact (hclaim rfl).1
  claimedOnce := h.claimedOnce
  ranOnce := by
    intro hk
    change (s.runs ++ [(i, k)]).countP _ ≤ 1
    rw [List.countP_append, List.countP_singleton]
    by_cases hkey : k = key
    · rw [countP_runs_eq_zero h hk (hclaim hkey).1 ((hclaim hkey).2 hk)]
      split <;> omega
    · rw [if_neg fun he => hkey (of_decide_eq_true he)]
      exact h.ranOnce hk
  row := h.row

theorem logRun_relies (key k : Key) (s : Db) {i j : Nat} (hj : j ≠ i) :
    Relies key j s (s.logRun i k) where
  row := fun row hrow => ⟨row, hrow, Later.refl j row⟩
  claims := id
  runs := by
    intro hr
    rcases List.mem_append.mp hr with hr | hr
    · exact hr
    · exact absurd (Prod.mk.inj (List.mem_singleton.mp hr)).1 hj
  unclaimed := fun _ _ _ _ _ _ _ hk => hk

/-- A row is claimed from a status that it can be claimed from. -/
theorem claim_sound {key : Key} {s : Db} (h : Sound key s) {i : Nat} {row : Row}
    (hrow : s.jobs.get? key = some row) {source : List Status}
    (hsource : key.1 ≠ .simulation → source = [.queued]) (hin : row.job.status ∈ source)
    (hterm : ∀ st ∈ source, st.terminal = false) (startedAt : Nat) :
    Sound key { s.put key { row.write i ⟨.running, fun j => { j with startedAt }⟩ false with
      retrying := false } with claims := s.claims ++ [(i, key)] } where
  known := fun _ => by
    change (s.jobs.set key _).get? key ≠ none
    rw [Map.get?_set_self]
    exact Option.some_ne_none _
  ran := fun j hj => List.mem_append_left _ (h.ran j hj)
  claimedOnce := by
    intro hk
    change (s.claims ++ [(i, key)]).countP _ ≤ 1
    have hnone : s.claims.countP (·.2 = key) = 0 := by
      refine List.countP_eq_zero.mpr fun e he hek => ?_
      obtain ⟨k, key'⟩ := e
      obtain rfl : key' = key := of_decide_eq_true hek
      refine (h.row row hrow).claimed hk ⟨k, he⟩ ?_
      rw [hsource hk] at hin
      exact List.mem_singleton.mp hin
    rw [List.countP_append, List.countP_singleton, hnone]
    split <;> omega
  ranOnce := h.ranOnce
  row := by
    intro row' hrow'
    change (s.jobs.set key _).get? key = some row' at hrow'
    rw [Map.get?_set_self] at hrow'
    obtain rfl := Option.some.inj hrow'
    have hsound := h.row row hrow
    exact
      { claimed := fun _ _ => Status.noConfusion
        retrying := fun he => nomatch he
        retried := hsound.retried
        bundle := fun hne => by
          have hsucceeded := hsound.bundle hne
          exact nomatch (hterm _ hin).symm.trans (congrArg Status.terminal hsucceeded) }

theorem claim_relies {key : Key} {s : Db} {i j : Nat} {row : Row}
    (hrow : s.jobs.get? key = some row) {source : List Status}
    (hin : row.job.status ∈ source) (hterm : ∀ st ∈ source, st.terminal = false)
    (startedAt : Nat) :
    Relies key j s { s.put key { row.write i ⟨.running, fun j => { j with startedAt }⟩ false with
      retrying := false } with claims := s.claims ++ [(i, key)] } where
  row := by
    intro row₀ hrow₀
    obtain rfl := Option.some.inj (hrow.symm.trans hrow₀)
    refine ⟨_, Map.get?_set_self _ _ _, ?_⟩
    exact
      { changes := Nat.le_succ _
        retries := Nat.le_refl _
        same := fun he => absurd he (Nat.succ_ne_self _)
        ended := fun ht => nomatch (hterm _ hin).symm.trans ht }
  claims := fun hj => List.mem_append_left _ hj
  runs := id
  unclaimed := by
    intro row₀ _ hrow₀ ht
    obtain rfl := Option.some.inj (hrow.symm.trans hrow₀)
    exact nomatch (hterm _ hin).symm.trans ht

theorem untouched_claim {key k : Key} (hk : k ≠ key) (s : Db) (i : Nat) (row : Row) :
    Untouched key s { s.put k row with claims := s.claims ++ [(i, k)] } where
  row := Map.get?_set_ne hk s.jobs row
  claims := by
    intro j
    rw [List.mem_append, List.mem_singleton]
    exact or_iff_left fun he => hk (Prod.mk.inj he).2.symm
  claimCount := by
    rw [List.countP_append, List.countP_singleton, if_neg fun he => hk (of_decide_eq_true he)]
    rfl
  runs := fun _ => Iff.rfl
  runCount := rfl

/-! ## What a program knows -/

/-- What a program saw of a row, unless its status was written since.  Of a row that it wrote
itself it knows more. -/
def Saw (key : Key) (i : Nat) (k : Key) (seen : Nat) (st : Status) (mine : Bool) (s : Db) : Prop :=
  k = key → ∃ row, s.jobs.get? key = some row ∧ seen ≤ row.changes ∧
    (row.changes = seen → row.job.status = st ∧
      (mine = true → row.writer = i ∧ row.retrying = false))

theorem saw_stable {key : Key} {i : Nat} {k : Key} {seen : Nat} {st : Status} {mine : Bool} :
    (contract key).Stable i (Saw key i k seen st mine) := by
  intro s t hr _ h hk
  obtain ⟨row, hrow, hle, hsame⟩ := h hk
  obtain ⟨row', hrow', hlater⟩ := hr.row row hrow
  refine ⟨row', hrow', hle.trans hlater.changes, fun he => ?_⟩
  have hle' := hlater.changes
  obtain ⟨hs, hw, hretrying⟩ := hlater.same (by omega)
  obtain ⟨hst, hmine⟩ := hsame (by omega)
  refine ⟨hs.trans hst, fun hm => ?_⟩
  obtain ⟨hwriter, hnot⟩ := hmine hm
  exact ⟨hw.trans hwriter, (hretrying hwriter).trans hnot⟩

/-- A program that has claimed a row and has not run its job. -/
def Claimed (key : Key) (i : Nat) (k : Key) (s : Db) : Prop :=
  k = key → (i, key) ∈ s.claims ∧ (key.1 ≠ .simulation → (i, key) ∉ s.runs)

theorem claimed_stable {key : Key} {i : Nat} {k : Key} :
    (contract key).Stable i (Claimed key i k) := by
  intro s t hr _ h hk
  obtain ⟨hclaim, hrun⟩ := h hk
  exact ⟨hr.claims hclaim, fun hsim he => hrun hsim (hr.runs he)⟩

/-! ## Statements of a program -/

section

variable {ρ : Type} {key k : Key} {i : Nat} {s : Db} {Q : ρ → Db → Prop} {H : Db → Prop}

/-- The program goes on from here without breaking the contract. -/
def GoesOn (key : Key) (i : Nat) (p : Request ρ) (Q : ρ → Db → Prop) (s : Db) : Prop :=
  (contract key).Keeps sem (Unchanged key) i p Q s

theorem goesOn_done {r : ρ} : GoesOn key i (.done r) (fun _ _ => True) s :=
  Contract.keeps_done trivial

theorem goesOn_ite {P : Prop} [Decidable P] {p p' : Request ρ}
    (hp : P → GoesOn key i p Q s) (hp' : ¬ P → GoesOn key i p' Q s) :
    GoesOn key i (if P then p else p') Q s := by
  by_cases h : P
  · rw [if_pos h]
    exact hp h
  · rw [if_neg h]
    exact hp' h

/-- A statement that leaves the tables. -/
theorem goesOn_quiet {st : Stmt} {next : Answer st → Request ρ}
    (hH : (contract key).Stable i H) (h : H s)
    (hquiet : ∀ input t u a, sem input i st t = some (u, a) →
      u.jobs = t.jobs ∧ u.claims = t.claims ∧ u.runs = t.runs)
    (hnext : ∀ a t, H t → GoesOn key i (next a) Q t) : GoesOn key i (.exec st next) Q s := by
  refine Contract.keeps_exec hH h fun t hinv ht input u a _ hs => ?_
  obtain ⟨hj, hc, hr⟩ := hquiet input t u a hs
  have huntouched : Untouched key t u := untouched_of_tables hj hc hr
  exact ⟨huntouched.sound hinv, fun j _ => huntouched.relies j,
    hnext a u (hH t u (huntouched.relies i) (huntouched.sound hinv) ht)⟩

/-- A statement that answers and does nothing. -/
theorem goesOn_ask {st : Stmt} {next : Answer st → Request ρ}
    (hH : (contract key).Stable i H) (h : H s)
    (hread : ∀ input t, ∃ a, sem input i st t = some (t, a))
    (hnext : ∀ a t, H t → GoesOn key i (next a) Q t) : GoesOn key i (.exec st next) Q s := by
  refine goesOn_quiet hH h (fun input t u a hs => ?_) hnext
  obtain ⟨a', ha⟩ := hread input t
  obtain ⟨rfl, -⟩ := Prod.mk.inj (Option.some.inj (ha.symm.trans hs))
  exact ⟨rfl, rfl, rfl⟩

theorem goesOn_now {next : Nat → Request ρ} (hH : (contract key).Stable i H) (h : H s)
    (hnext : ∀ now t, H t → GoesOn key i (next now) Q t) : GoesOn key i (.exec .now next) Q s :=
  goesOn_ask hH h (fun _ _ => ⟨_, rfl⟩) hnext

theorem goesOn_find {next : Option Look → Request ρ} (hH : (contract key).Stable i H) (h : H s)
    (hnone : ∀ t, H t → GoesOn key i (next none) Q t)
    (hsome : ∀ look t, H t → Saw key i k look.changes look.job.status false t →
      GoesOn key i (next (some look)) Q t) :
    GoesOn key i (.exec (.find k) next) Q s := by
  refine Contract.keeps_exec hH h fun t hinv ht input u a _ hs => ?_
  obtain ⟨rfl, rfl⟩ := Prod.mk.inj (Option.some.inj hs)
  refine ⟨hinv, fun j _ => (contract key).rely_refl j t, ?_⟩
  cases hfind : t.jobs.get? k with
  | none => exact hnone t ht
  | some row =>
    refine hsome _ t ht fun hk => ⟨row, hk ▸ hfind, Nat.le_refl _, fun _ => ⟨rfl, ?_⟩⟩
    exact fun he => nomatch he

theorem goesOn_add {kind : Kind} {jobId : Option Text} {next : Option Text → Request ρ}
    (hH : (contract key).Stable i H) (h : H s)
    (hnext : ∀ e t, H t → GoesOn key i (next e) Q t) :
    GoesOn key i (.exec (.add kind jobId) next) Q s := by
  refine goesOn_quiet hH h (fun input t u a hs => ?_) hnext
  rw [sem] at hs
  split at hs
  · cases hs
  · have henqueue : ∀ key, (t.enqueue key input).1.jobs = t.jobs ∧
        (t.enqueue key input).1.claims = t.claims ∧ (t.enqueue key input).1.runs = t.runs := by
      intro key
      rw [Db.enqueue]
      split <;> exact ⟨rfl, rfl, rfl⟩
    have hkept := henqueue (kind, jobId.getD input.id)
    rw [Option.some.inj hs] at hkept
    exact hkept

theorem goesOn_remove {next : Bool → Request ρ} (hH : (contract key).Stable i H) (h : H s)
    (hnext : ∀ removed t, H t → GoesOn key i (next removed) Q t) :
    GoesOn key i (.exec (.remove k) next) Q s := by
  refine goesOn_quiet hH h (fun input t u a hs => ?_) hnext
  rw [sem] at hs
  split at hs <;>
  · obtain ⟨rfl, -⟩ := Prod.mk.inj (Option.some.inj hs)
    exact ⟨rfl, rfl, rfl⟩

theorem goesOn_insert {kind : Kind} {next : Text → Request ρ} (hH : (contract key).Stable i H)
    (h : H s) (hnext : ∀ id t, H t → GoesOn key i (next id) Q t) :
    GoesOn key i (.exec (.insert kind) next) Q s := by
  refine Contract.keeps_exec hH h fun t hinv ht input u a _ hs => ?_
  rw [sem] at hs
  split at hs
  · cases hs
  case isFalse hfree =>
    obtain ⟨rfl, rfl⟩ := Prod.mk.inj (Option.some.inj hs)
    have hstep : ∀ row : Row, row = { job := { createdAt := input.now }, writer := i } →
        Sound key (t.put (kind, input.id) row) ∧
          ∀ j, Relies key j t (t.put (kind, input.id) row) := by
      rintro row rfl
      by_cases hk : (kind, input.id) = key
      · have hnone : t.jobs.get? key = none := by
          rw [hk] at hfree
          cases hget : t.jobs.get? key with
          | none => rfl
          | some row => exact absurd (.inl (by rw [Map.has, hget]; rfl)) hfree
        rw [hk]
        refine ⟨put_sound hinv ?_, fun j => ?_⟩
        · exact
            { claimed := fun _ hc => absurd hnone (hinv.known hc)
              retrying := fun he => nomatch he
              retried := fun _ => rfl
              bundle := fun hne => absurd rfl hne }
        · exact
            { row := fun row hrow => nomatch hnone.symm.trans hrow
              claims := id
              runs := id
              unclaimed := fun _ _ hrow => nomatch hnone.symm.trans hrow }
      · exact ⟨(untouched_put hk t _).sound hinv, fun j => (untouched_put hk t _).relies j⟩
    obtain ⟨hsound, hrelies⟩ := hstep _ rfl
    exact ⟨hsound, fun j _ => hrelies j, hnext _ _ (hH t _ (hrelies i) hsound ht)⟩

theorem goesOn_claim {source : List Status} {startedAt : Nat} {next : Option Nat → Request ρ}
    (hsource : k.1 ≠ .simulation → source = [.queued])
    (hterm : ∀ st ∈ source, st.terminal = false) (hH : (contract key).Stable i H) (h : H s)
    (hnone : ∀ t, H t → GoesOn key i (next none) Q t)
    (hsome : ∀ seen t, Claimed key i k t → Saw key i k seen .running true t →
      GoesOn key i (next (some seen)) Q t) :
    GoesOn key i (.exec (.claim k source startedAt) next) Q s := by
  refine Contract.keeps_exec hH h fun t hinv ht input u a _ hs => ?_
  rw [sem] at hs
  cases hget : t.jobs.get? k with
  | none =>
    rw [hget] at hs
    obtain ⟨rfl, rfl⟩ := Prod.mk.inj (Option.some.inj hs)
    exact ⟨hinv, fun j _ => (contract key).rely_refl j t, hnone t ht⟩
  | some row =>
    rw [hget] at hs
    dsimp only at hs
    split at hs
    case isFalse =>
      obtain ⟨rfl, rfl⟩ := Prod.mk.inj (Option.some.inj hs)
      exact ⟨hinv, fun j _ => (contract key).rely_refl j t, hnone t ht⟩
    case isTrue hin =>
      obtain ⟨rfl, rfl⟩ := Prod.mk.inj (Option.some.inj hs)
      by_cases hk : k = key
      · subst hk
        have hnotRun : k.1 ≠ .simulation → (i, k) ∉ t.runs := by
          intro hsim hrun
          refine (hinv.row row hget).claimed hsim ⟨i, hinv.ran i hrun⟩ ?_
          rw [hsource hsim] at hin
          exact List.mem_singleton.mp hin
        refine ⟨claim_sound hinv hget hsource hin hterm startedAt,
          fun j _ => claim_relies hget hin hterm startedAt, hsome _ _ ?_ ?_⟩
        · exact fun _ => ⟨List.mem_append_right _ (List.mem_singleton.mpr rfl), hnotRun⟩
        · exact fun _ => ⟨_, Map.get?_set_self _ _ _, Nat.le_refl _,
            fun _ => ⟨rfl, fun _ => ⟨rfl, rfl⟩⟩⟩
      · have huntouched := untouched_claim hk t i
          { row.write i ⟨.running, fun j => { j with startedAt }⟩ false with retrying := false }
        exact ⟨huntouched.sound hinv, fun j _ => huntouched.relies j,
          hsome _ _ (fun he => absurd he hk) fun he => absurd he hk⟩

theorem goesOn_updateMany {source : List Status} {patch : Patch} {next : Nat → Request ρ}
    (hterm : ∀ st ∈ source, st.terminal = false)
    (hsim : k.1 = .simulation → Status.running ∉ source) (hpatch : patch.Fits k)
    (hH : (contract key).Stable i H) (h : H s)
    (hnext : ∀ n t, H t → GoesOn key i (next n) Q t) :
    GoesOn key i (.exec (.updateMany k source patch) next) Q s := by
  refine Contract.keeps_exec hH h fun t hinv ht input u a _ hs => ?_
  rw [sem] at hs
  cases hget : t.jobs.get? k with
  | none =>
    rw [hget] at hs
    obtain ⟨rfl, rfl⟩ := Prod.mk.inj (Option.some.inj hs)
    exact ⟨hinv, fun j _ => (contract key).rely_refl j t, hnext _ t ht⟩
  | some row =>
    rw [hget] at hs
    dsimp only at hs
    split at hs
    case isFalse =>
      obtain ⟨rfl, rfl⟩ := Prod.mk.inj (Option.some.inj hs)
      exact ⟨hinv, fun j _ => (contract key).rely_refl j t, hnext _ t ht⟩
    case isTrue hin =>
      obtain ⟨rfl, rfl⟩ := Prod.mk.inj (Option.some.inj hs)
      have hstep : Sound key (t.put k (row.write i patch false)) ∧
          ∀ j, Relies key j t (t.put k (row.write i patch false)) := by
        by_cases hk : k = key
        · subst hk
          have hsound := hinv.row row hget
          have hnot : row.retrying = false := by
            refine Bool.eq_false_iff.mpr fun hr => ?_
            obtain ⟨hrunning, hkind⟩ := hsound.retrying hr
            exact hsim hkind (hrunning ▸ hin)
          refine ⟨put_sound hinv (rowSound_write hsound hpatch hnot (fun he => nomatch he) ?_),
            fun j => put_relies hget (later_write fun ht => nomatch (hterm _ hin).symm.trans ht)⟩
          exact fun he => nomatch (hterm _ hin).symm.trans (congrArg Status.terminal he)
        · exact ⟨(untouched_put hk t _).sound hinv, fun j => (untouched_put hk t _).relies j⟩
      exact ⟨hstep.1, fun j _ => hstep.2 j, hnext _ _ (hH t _ (hstep.2 i) hstep.1 ht)⟩

/-- A write by id of a row that the program has looked at. -/
theorem goesOn_update {patch : Patch} {seen : Nat} {retry mine : Bool} {st : Status}
    {next : Option Nat → Request ρ} (h : Saw key i k seen st mine s) (hst : st ≠ .succeeded)
    (hterm : st.terminal = true → retry = true) (hretry : retry = true → k.1 = .simulation)
    (hmine : st = .running → mine = true) (hpatch : patch.Fits k)
    (hnone : ∀ t, Saw key i k seen st mine t → GoesOn key i (next none) Q t)
    (hsome : ∀ seen' t, Saw key i k seen' patch.status true t →
      GoesOn key i (next (some seen')) Q t) :
    GoesOn key i (.exec (.update k patch seen retry) next) Q s := by
  refine Contract.keeps_exec saw_stable h fun t hinv ht input u a hok hs => ?_
  rw [sem] at hs
  cases hget : t.jobs.get? k with
  | none =>
    rw [hget] at hs
    obtain ⟨rfl, rfl⟩ := Prod.mk.inj (Option.some.inj hs)
    exact ⟨hinv, fun j _ => (contract key).rely_refl j t, hnone t ht⟩
  | some row =>
    rw [hget] at hs
    obtain ⟨rfl, rfl⟩ := Prod.mk.inj (Option.some.inj hs)
    by_cases hk : k = key
    · subst hk
      have hsound := hinv.row row hget
      obtain ⟨row', hrow', -, hsame⟩ := ht rfl
      obtain rfl := Option.some.inj (hget.symm.trans hrow')
      obtain ⟨hstatus, hown⟩ := hsame (hok rfl row hget)
      have hnot : row.retrying = false := by
        refine Bool.eq_false_iff.mpr fun hr => ?_
        have hrunning := hstatus.symm.trans (hsound.retrying hr).1
        exact Bool.eq_false_iff.mp (hown (hmine hrunning)).2 hr
      refine ⟨put_sound hinv (rowSound_write hsound hpatch hnot hretry (hstatus ▸ hst)),
        fun j _ => put_relies hget (later_write fun ht => hterm (hstatus ▸ ht)), hsome _ _ ?_⟩
      exact fun _ => ⟨_, Map.get?_set_self _ _ _, Nat.le_refl _, fun _ => ⟨rfl, fun _ => ⟨rfl, hnot⟩⟩⟩
    · exact ⟨(untouched_put hk t _).sound hinv, fun j _ => (untouched_put hk t _).relies j,
        hsome _ _ fun he => absurd he hk⟩

/-- The flag is no part of the outcome. -/
theorem goesOn_requestAbort {next : Bool → Request ρ} (hH : (contract key).Stable i H) (h : H s)
    (hnext : ∀ found t, H t → GoesOn key i (next found) Q t) :
    GoesOn key i (.exec (.requestAbort k) next) Q s := by
  refine Contract.keeps_exec hH h fun t hinv ht input u a _ hs => ?_
  rw [sem] at hs
  cases hget : t.jobs.get? k with
  | none =>
    rw [hget] at hs
    obtain ⟨rfl, rfl⟩ := Prod.mk.inj (Option.some.inj hs)
    exact ⟨hinv, fun j _ => (contract key).rely_refl j t, hnext _ t ht⟩
  | some row =>
    rw [hget] at hs
    obtain ⟨rfl, rfl⟩ := Prod.mk.inj (Option.some.inj hs)
    have hstep : Sound key (t.put k { row with job := { row.job with abortRequested := true } }) ∧
        ∀ j, Relies key j t
          (t.put k { row with job := { row.job with abortRequested := true } }) := by
      by_cases hk : k = key
      · subst hk
        have hsound := hinv.row row hget
        refine ⟨put_sound hinv ?_, fun j => put_relies hget ?_⟩
        · exact ⟨hsound.claimed, hsound.retrying, hsound.retried, hsound.bundle⟩
        · exact ⟨Nat.le_refl _, Nat.le_refl _, fun _ => ⟨rfl, rfl, fun _ => rfl⟩, fun _ _ => rfl⟩
      · exact ⟨(untouched_put hk t _).sound hinv, fun j => (untouched_put hk t _).relies j⟩
    exact ⟨hstep.1, fun j _ => hstep.2 j, hnext _ _ (hH t _ (hstep.2 i) hstep.1 ht)⟩

/-- The program runs the job that it has claimed. -/
theorem goesOn_run {st : Stmt} {next : Answer st → Request ρ} (hH : (contract key).Stable i H)
    (h : H s) (hclaimed : Claimed key i k s)
    (hrun : ∀ input t u a, sem input i st t = some (u, a) → u = t.logRun i k)
    (hown : ∀ t, H t → H (t.logRun i k))
    (hnext : ∀ a t, H t → GoesOn key i (next a) Q t) : GoesOn key i (.exec st next) Q s := by
  refine Contract.keeps_exec (H := fun t => H t ∧ Claimed key i k t) ?_ ⟨h, hclaimed⟩
    fun t hinv ht input u a _ hs => ?_
  · exact fun t u hr hinv ht => ⟨hH t u hr hinv ht.1, claimed_stable t u hr hinv ht.2⟩
  · obtain rfl := hrun input t u a hs
    exact ⟨logRun_sound hinv ht.2, fun j hj => logRun_relies key k t hj, hnext a _ (hown t ht.1)⟩

/-- An attempt ends, and nobody has written the status since its claim. -/
theorem goesOn_retryLater {seen : Nat} {next : Unit → Request ρ}
    (h : Saw key i k seen .running true s) (hk : k.1 = .simulation)
    (hnext : ∀ t, GoesOn key i (next ()) Q t) :
    GoesOn key i (.exec (.retryLater k seen) next) Q s := by
  refine Contract.keeps_exec saw_stable h fun t hinv ht input u a hok hs => ?_
  rw [sem] at hs
  cases hget : t.jobs.get? k with
  | none =>
    rw [hget] at hs
    obtain ⟨rfl, -⟩ := Prod.mk.inj (Option.some.inj hs)
    exact ⟨hinv, fun j _ => (contract key).rely_refl j t, hnext t⟩
  | some row =>
    rw [hget] at hs
    obtain ⟨rfl, -⟩ := Prod.mk.inj (Option.some.inj hs)
    by_cases hkey : k = key
    · subst hkey
      have hsound := hinv.row row hget
      obtain ⟨row', hrow', -, hsame⟩ := ht rfl
      obtain rfl := Option.some.inj (hget.symm.trans hrow')
      obtain ⟨hstatus, hown⟩ := hsame (hok rfl row hget)
      refine ⟨put_sound hinv ?_, fun j hj => put_relies hget ?_, hnext _⟩
      · exact ⟨hsound.claimed, fun _ => ⟨hstatus, hk⟩, hsound.retried, hsound.bundle⟩
      · refine ⟨Nat.le_refl _, Nat.le_refl _, fun _ => ⟨rfl, rfl, fun hw => ?_⟩, fun _ _ => rfl⟩
        exact absurd (hw.symm.trans (hown rfl).1) hj
    · exact ⟨(untouched_put hkey t _).sound hinv, fun j _ => (untouched_put hkey t _).relies j,
        hnext _⟩

end

end CircuitForge.Jobs
