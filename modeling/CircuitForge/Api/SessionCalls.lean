/-
Sessions over every interleaving of the calls.

A token is exchanged once, and a family has one token that can be used at most.  A
revoked family stays dead unless a refresh claims a token whose revocation it has not
seen, or a revocation does not see a successor that is not committed yet.
-/
import CircuitForge.Api.SessionFamilies

namespace CircuitForge.Sessions

open Js Requests Transactions

/-! ## The contract of a call -/

/-- The writes that are not committed. -/
def writesOf (s : Db) : Writes := fun i w => (i, w) ∈ s.pending

/-- A token that is issued and does not wait for its commit. -/
def Registered (s : Db) (q : RefreshToken) : Prop :=
  q ∈ s.committed.issued ∧ ∀ k, (k, Write.create q) ∉ s.pending

/-- The invariant holds; a call keeps its writes, and a registered token stays one. -/
def contract : Contract Db where
  inv := fun s => Sound s.committed (writesOf s)
  rely := fun i s t => t.own i = s.own i ∧ ∀ q, Registered s q → Registered t q
  rely_refl := fun _ _ => ⟨rfl, fun _ h => h⟩
  rely_trans := fun _ _ _ _ h h' => ⟨h'.1.trans h.1, fun q hq => h'.2 q (h.2 q hq)⟩

/-- What a transaction may commit. -/
inductive Committable : List Write → Prop where
  | updateUser (id : Text) (data : User → User) : Committable [.updateUser id data]
  | revoke (fs js : List Text) (now : Nat) : Committable [.revoke fs js now]
  | lockUser (id : Text) (data : User → User) (fs js : List Text) (now : Nat) :
    Committable [.updateUser id data, .revoke fs js now]
  | deleteExpired (js : List Text) : Committable [.deleteExpired js]
  | login (row : RefreshToken) : Committable [.create row]
  | refresh (j : Text) (now : Nat) (row : RefreshToken) : Committable [.use j now, .create row]

theorem registered_of_row {s : Db} (h : contract.inv s) {r : RefreshToken}
    (hr : r ∈ s.committed.refreshTokens) :
    ∃ q, Registered s q ∧ q.jti = r.jti ∧ q.familyId = r.familyId ∧ q.userId = r.userId := by
  obtain ⟨q, hq, hj, hf, hu⟩ := h.issued r hr
  exact ⟨q, ⟨hq, fun k hk => (h.created k q hk).2.2 r hr hj.symm⟩, hj, hf, hu⟩

theorem rely_write {s : Db} {i k : Nat} (hk : k ≠ i) {w : Write} (hw : ∀ q, w ≠ .create q) :
    contract.rely k s (s.write i w) := by
  refine ⟨s.own_write_of_ne hk w, fun q hq => ⟨hq.1, fun l hl => ?_⟩⟩
  rcases Store.mem_write.mp hl with hl | ⟨-, he⟩
  · exact hq.2 l hl
  · exact hw q he.symm

theorem rely_rollback {s : Db} {i k : Nat} (hk : k ≠ i) : contract.rely k s (s.rollback i) :=
  ⟨s.own_rollback_of_ne hk, fun _ hq => ⟨hq.1, fun l hl => hq.2 l (Store.mem_rollback.mp hl).1⟩⟩

theorem issued_apply (w : Write) (t : Tables) : (w.apply t).issued = t.issued := by
  cases w <;> rfl

theorem issued_commit (s : Db) (i : Nat) :
    (s.commit Write.apply i).committed.issued = s.committed.issued := by
  rw [Store.committed_commit]
  suffices h : ∀ (ws : List Write) (t : Tables),
      (ws.foldl (fun t w => w.apply t) t).issued = t.issued from h _ _
  intro ws
  induction ws with
  | nil => exact fun t => rfl
  | cons w ws ih => exact fun t => (ih (w.apply t)).trans (issued_apply w t)

theorem rely_commit {s : Db} {i k : Nat} (hk : k ≠ i) :
    contract.rely k s (s.commit Write.apply i) := by
  refine ⟨Store.own_commit_of_ne Write.apply s hk, fun q hq => ⟨?_, fun l hl => ?_⟩⟩
  · rw [issued_commit]
    exact hq.1
  · exact hq.2 l (Store.mem_commit.mp hl).1

/-! ## The commit -/

theorem pending_commit_iff (s : Db) (i k : Nat) (w : Write) :
    writesOf (s.commit Write.apply i) k w ↔ writesOf s k w ∧ k ≠ i := Store.mem_commit

/-- Where the writes of a program are known, so are the ones it has. -/
theorem writesOf_own {s : Db} {i : Nat} {w : Write} : writesOf s i w ↔ w ∈ s.own i :=
  Store.mem_own.symm

/-- Nothing but the claims of others matters to a bulk write. -/
theorem keeps_uses {s : Db} {i : Nat} (h : ∀ j now, Write.use j now ∉ s.own i) :
    ∀ k j now, writesOf s k (.use j now) → writesOf (s.commit Write.apply i) k (.use j now) := by
  intro k j now hk
  refine (pending_commit_iff s i k _).mpr ⟨hk, ?_⟩
  rintro rfl
  exact h j now (writesOf_own.mp hk)

theorem sound_commit {s : Db} {i : Nat} (h : contract.inv s) (hc : Committable (s.own i))
    (hwait : ∀ w ∈ s.own i, ∀ e ∈ s.pending, e.1 ≠ i → w.waitsFor e.2 = false) :
    contract.inv (s.commit Write.apply i) := by
  have hsub : ∀ k w, writesOf (s.commit Write.apply i) k w → writesOf s k w := fun k w hw =>
    ((pending_commit_iff s i k w).mp hw).1
  have hcommitted := Store.committed_commit Write.apply s i
  change Sound (s.commit Write.apply i).committed _
  generalize hown : s.own i = ws at hc hcommitted
  cases hc with
  | updateUser id data =>
    rw [hcommitted]
    exact (h.rollback (pending_commit_iff s i)).updateUser id data
  | revoke fs js now =>
    rw [hcommitted]
    refine h.revoke (i := i) ?_ hsub (keeps_uses ?_)
    · exact writesOf_own.mpr (hown ▸ List.mem_cons_self)
    · simp [hown]
  | lockUser id data fs js now =>
    rw [hcommitted]
    refine (h.updateUser id data).revoke (i := i) ?_ hsub (keeps_uses ?_)
    · exact writesOf_own.mpr (hown ▸ List.mem_cons_of_mem _ List.mem_cons_self)
    · simp [hown]
  | deleteExpired js =>
    rw [hcommitted]
    refine h.delete hsub (keeps_uses ?_) fun k j now hk hj => ?_
    · simp [hown]
    · have hki : k ≠ i := by
        rintro rfl
        have := writesOf_own.mp hk
        simp [hown] at this
      have := hwait (.deleteExpired js) (hown ▸ List.mem_cons_self) _ hk hki
      simp [Write.waitsFor, hj] at this
  | login row =>
    refine h.settle row [] id (i := i) ?_ ?_ List.nodup_nil
      (pending_commit_iff s i) (fun _ => rfl) (fun _ => rfl) (fun _ => rfl) (fun _ => rfl) ?_ ?_ ?_
      ?_ ?_
    · exact writesOf_own.mpr (hown ▸ List.mem_cons_self)
    · intro j
      refine iff_of_false List.not_mem_nil ?_
      rintro ⟨now, hnow⟩
      have := writesOf_own.mp hnow
      simp [hown] at this
    · simp
    all_goals rw [hcommitted]
    · rw [List.map_id]
      rfl
    · rfl
    · exact (List.append_nil _).symm
    · rfl
  | refresh j now row =>
    refine h.settle row [j] (RefreshToken.used j now) (i := i) ?_ ?_
      (List.pairwise_singleton _ j) (pending_commit_iff s i) (used_jti j now) (used_familyId j now)
      (used_userId j now) (used_revokedAt j now) ?_ ?_ ?_ ?_ ?_
    · exact writesOf_own.mpr (hown ▸ List.mem_cons_of_mem _ List.mem_cons_self)
    · intro j'
      rw [List.mem_singleton]
      constructor
      · rintro rfl
        exact ⟨now, writesOf_own.mpr (hown ▸ List.mem_cons_self)⟩
      · rintro ⟨at', hat⟩
        have := writesOf_own.mp hat
        simp only [hown, List.mem_cons, Write.use.injEq, reduceCtorEq, List.not_mem_nil,
          or_false] at this
        exact this.1
    · intro r
      rw [used_usedAt_eq_none, List.mem_singleton]
    all_goals rw [hcommitted]
    · rfl
    · rfl
    · rfl
    · rfl

/-! ## Statements of a call -/

section

variable [Services]

/-- What a call knows between its statements: its writes, and the tokens it has seen. -/
structure Here (i : Nat) (ws : List Write) (seen : List RefreshToken) (s : Db) : Prop where
  own : s.own i = ws
  seen : ∀ q ∈ seen, Registered s q

/-- The call goes on from here without breaking the contract. -/
def GoesOn {ρ : Type} (i : Nat) (p : Request ρ) (Q : ρ → Db → Prop) (s : Db) : Prop :=
  contract.Keeps sem Undisturbed i p Q s

variable {ρ : Type} {i : Nat} {ws : List Write} {seen : List RefreshToken} {s : Db}
  {Q : ρ → Db → Prop}

theorem goesOn_exec {st : Stmt} {next : Answer st → Request ρ} (h : Here i ws seen s)
    (hstep : ∀ t, contract.inv t → Here i ws seen t → ∀ input u a, Undisturbed input i st t →
      sem input i st t = some (u, a) →
      contract.inv u ∧ (∀ j, j ≠ i → contract.rely j t u) ∧ GoesOn i (next a) Q u) :
    GoesOn i (.exec st next) Q s := by
  intro t hr hinv input u a hok hs
  exact hstep t hinv ⟨hr.1.trans h.own, fun q hq => hr.2 q (h.seen q hq)⟩ input u a hok hs

/-- A statement that only reads. -/
theorem goesOn_read {st : Stmt} {next : Answer st → Request ρ} (h : Here i ws seen s)
    (hread : ∀ input t, ∃ a, sem input i st t = some (t, a))
    (hnext : ∀ a t, Here i ws seen t → GoesOn i (next a) Q t) : GoesOn i (.exec st next) Q s := by
  refine goesOn_exec h fun t hinv ht input u a _ hs => ?_
  obtain ⟨a', ha⟩ := hread input t
  obtain ⟨rfl, rfl⟩ := Prod.mk.inj (Option.some.inj (ha.symm.trans hs))
  exact ⟨hinv, fun j _ => contract.rely_refl j t, hnext a' t ht⟩

theorem goesOn_now {next : Nat → Request ρ} (h : Here i ws seen s)
    (hnext : ∀ now t, Here i ws seen t → GoesOn i (next now) Q t) :
    GoesOn i (.exec .now next) Q s :=
  goesOn_read h (fun _ _ => ⟨_, rfl⟩) hnext

theorem goesOn_userById {id : Text} {next : Option User → Request ρ} (h : Here i ws seen s)
    (hnone : ∀ t, Here i ws seen t → GoesOn i (next none) Q t)
    (hsome : ∀ user t, Here i ws seen t → user.id = id → GoesOn i (next (some user)) Q t) :
    GoesOn i (.exec (.userById id) next) Q s := by
  refine goesOn_exec h fun t hinv ht input u a _ hs => ?_
  obtain ⟨rfl, rfl⟩ := Prod.mk.inj (Option.some.inj hs)
  refine ⟨hinv, fun j _ => contract.rely_refl j t, ?_⟩
  cases hfind : t.committed.users.find? (·.id = id) with
  | none => exact hnone t ht
  | some user =>
    have hid := List.find?_some hfind
    rw [decide_eq_true_eq] at hid
    exact hsome user t ht hid

/-- The token that is read is one that was registered. -/
theorem goesOn_tokenByJti {jti : Text} {next : Option RefreshToken → Request ρ}
    (h : Here i ws seen s) (hnone : ∀ t, Here i ws seen t → GoesOn i (next none) Q t)
    (hsome : ∀ r q t, Here i ws (q :: seen) t → q.jti = jti → q.familyId = r.familyId →
      q.userId = r.userId → GoesOn i (next (some r)) Q t) :
    GoesOn i (.exec (.tokenByJti jti) next) Q s := by
  refine goesOn_exec h fun t hinv ht input u a _ hs => ?_
  obtain ⟨rfl, rfl⟩ := Prod.mk.inj (Option.some.inj hs)
  refine ⟨hinv, fun j _ => contract.rely_refl j t, ?_⟩
  cases hfind : t.committed.refreshTokens.find? (·.jti = jti) with
  | none => exact hnone t ht
  | some r =>
    obtain ⟨q, hq, hj, hf, hu⟩ := registered_of_row hinv (List.mem_of_find?_eq_some hfind)
    have hrj := List.find?_some hfind
    rw [decide_eq_true_eq] at hrj
    refine hsome r q t ⟨ht.own, fun q' hq' => ?_⟩ (hj.trans hrj) hf hu
    rcases List.mem_cons.mp hq' with rfl | hq'
    · exact hq
    · exact ht.seen q' hq'

omit [Services] in
theorem here_of_rely {t u : Db} {ws' : List Write} (h : Here i ws seen t) (hown : u.own i = ws')
    (hreg : ∀ q, Registered t q → Registered u q) : Here i ws' seen u :=
  ⟨hown, fun q hq => hreg q (h.seen q hq)⟩

omit [Services] in
theorem registered_write {t : Db} {w : Write} (hw : ∀ q, w ≠ .create q) {q : RefreshToken}
    (hq : Registered t q) : Registered (t.write i w) q := by
  refine ⟨hq.1, fun l hl => ?_⟩
  rcases Store.mem_write.mp hl with hl | ⟨-, he⟩
  · exact hq.2 l hl
  · exact hw q he.symm

omit [Services] in
theorem here_write {t : Db} {w : Write} (h : Here i ws seen t) (hw : ∀ q, w ≠ .create q) :
    Here i (ws ++ [w]) seen (t.write i w) :=
  here_of_rely h (by rw [Store.own_write_self, h.own]) fun _ => registered_write hw

omit [Services] in
theorem writesOf_write (t : Db) (w : Write) (k : Nat) (v : Write) :
    writesOf (t.write i w) k v ↔ writesOf t k v ∨ k = i ∧ v = w := Store.mem_write

theorem goesOn_begin {next : Unit → Request ρ} (h : Here i ws seen s)
    (hnext : ∀ t, Here i [] seen t → GoesOn i (next ()) Q t) : GoesOn i (.exec .begin next) Q s := by
  refine goesOn_exec h fun t hinv ht input u a _ hs => ?_
  obtain ⟨rfl, -⟩ := Prod.mk.inj (Option.some.inj hs)
  refine ⟨hinv.rollback fun k w => Store.mem_rollback, fun j hj => rely_rollback hj, hnext _ ?_⟩
  exact here_of_rely ht (t.own_rollback_self i) fun q hq =>
    ⟨hq.1, fun l hl => hq.2 l (Store.mem_rollback.mp hl).1⟩

theorem goesOn_rollback {next : Unit → Request ρ} (h : Here i ws seen s)
    (hnext : ∀ t, Here i [] seen t → GoesOn i (next ()) Q t) :
    GoesOn i (.exec .rollback next) Q s := by
  refine goesOn_exec h fun t hinv ht input u a _ hs => ?_
  obtain ⟨rfl, -⟩ := Prod.mk.inj (Option.some.inj hs)
  refine ⟨hinv.rollback fun k w => Store.mem_rollback, fun j hj => rely_rollback hj, hnext _ ?_⟩
  exact here_of_rely ht (t.own_rollback_self i) fun q hq =>
    ⟨hq.1, fun l hl => hq.2 l (Store.mem_rollback.mp hl).1⟩

theorem goesOn_commit {next : Unit → Request ρ} (h : Here i ws seen s) (hc : Committable ws)
    (hnext : ∀ t, Here i [] seen t → GoesOn i (next ()) Q t) :
    GoesOn i (.exec .commit next) Q s := by
  refine goesOn_exec h fun t hinv ht input u a _ hs => ?_
  rw [sem] at hs
  split at hs
  case isTrue => cases hs
  case isFalse hfree =>
    obtain ⟨rfl, -⟩ := Prod.mk.inj (Option.some.inj hs)
    refine ⟨sound_commit hinv (ht.own ▸ hc) fun w hw e he hei => ?_, fun j hj => rely_commit hj,
      hnext _ ?_⟩
    · by_contra hwait
      refine hfree (List.any_eq_true.mpr ⟨w, hw, List.any_eq_true.mpr ⟨e, he, ?_⟩⟩)
      simpa [hei] using hwait
    · refine here_of_rely ht (Store.own_commit_self Write.apply t i) fun q hq => ⟨?_, fun l hl => ?_⟩
      · rw [issued_commit]
        exact hq.1
      · exact hq.2 l (Store.mem_commit.mp hl).1

theorem goesOn_updateUser {id : Text} {data : User → User} {next : Unit → Request ρ}
    (h : Here i ws seen s)
    (hnext : ∀ t, Here i (ws ++ [.updateUser id data]) seen t → GoesOn i (next ()) Q t) :
    GoesOn i (.exec (.updateUser id data) next) Q s := by
  refine goesOn_exec h fun t hinv ht input u a _ hs => ?_
  obtain ⟨rfl, -⟩ := Prod.mk.inj (Option.some.inj hs)
  refine ⟨hinv.write (.inl ⟨id, data, rfl⟩) (writesOf_write t _),
    fun j hj => rely_write hj (by simp), hnext _ (here_write ht (by simp))⟩

theorem goesOn_deleteExpired {userId : Text} {now : Nat} {next : Unit → Request ρ}
    (h : Here i ws seen s)
    (hnext : ∀ js t, Here i (ws ++ [.deleteExpired js]) seen t → GoesOn i (next ()) Q t) :
    GoesOn i (.exec (.deleteExpired userId now) next) Q s := by
  refine goesOn_exec h fun t hinv ht input u a _ hs => ?_
  obtain ⟨rfl, -⟩ := Prod.mk.inj (Option.some.inj hs)
  refine ⟨hinv.write (.inr ⟨_, rfl⟩) (writesOf_write t _),
    fun j hj => rely_write hj (by simp), hnext _ _ (here_write ht (by simp))⟩

omit [Services] in
/-- A family that a revocation is about is one that nobody adds to. -/
theorem quiet_of_undisturbed {t : Db} (hinv : contract.inv t) {which : SessionSet} {input : Input}
    {now : Nat} (hok : Undisturbed input i (.revoke which now) t)
    (hseen : ∀ f, which = .family f → ∃ q, Registered t q ∧ q.familyId = f) {f : Text}
    (hf : f ∈ which.families t.committed.refreshTokens) :
    Quiet t.committed (writesOf t) f := by
  have hknown : ∃ q, Registered t q ∧ q.familyId = f := by
    cases which with
    | family f' =>
      obtain rfl := List.mem_singleton.mp hf
      exact hseen f rfl
    | user userId =>
      obtain ⟨r, hr, rfl⟩ := List.mem_map.mp hf
      obtain ⟨q, hq, -, hqf, -⟩ := registered_of_row hinv (List.mem_filter.mp hr).1
      exact ⟨q, hq, hqf⟩
  obtain ⟨q, hq, hqf⟩ := hknown
  exact
    { known := ⟨q, hq.1, hqf⟩
      noSuccessor := by
        intro k r hr hrf
        rcases hinv.succeeds k r hr with hfirst | ⟨j, at', hat, c, hc, hcj, hcf⟩
        · exact hq.2 k ((hfirst q hq.1 (hqf.trans hrf.symm)) ▸ hr)
        · have := hok c hc (hcf.trans hrf ▸ hf) _ hat
          simp [Write.uses, hcj] at this
      noClaim := by
        intro k j at' hat r hr hrj hrf
        have := hok r hr (hrf ▸ hf) _ hat
        simp [Write.uses, hrj] at this }

theorem goesOn_revoke {which : SessionSet} {now : Nat} {next : Nat → Request ρ}
    (h : Here i ws seen s) (hseen : ∀ f, which = .family f → ∃ q ∈ seen, q.familyId = f)
    (hnext : ∀ n fs js t, Here i (ws ++ [.revoke fs js now]) seen t → GoesOn i (next n) Q t) :
    GoesOn i (.exec (.revoke which now) next) Q s := by
  refine goesOn_exec h fun t hinv ht input u a hok hs => ?_
  obtain ⟨rfl, -⟩ := Prod.mk.inj (Option.some.inj hs)
  have hquiet : ∀ f ∈ which.families t.committed.refreshTokens,
      Quiet t.committed (writesOf t) f := fun f hf =>
    quiet_of_undisturbed hinv hok (fun f' hf' => by
      obtain ⟨q, hq, hqf⟩ := hseen f' hf'
      exact ⟨q, ht.seen q hq, hqf⟩) hf
  refine ⟨hinv.startRevoking hquiet ?_ (writesOf_write t _),
    fun j hj => rely_write hj (by simp), hnext _ _ _ _ (here_write ht (by simp))⟩
  intro f hf r hr hrf
  -- a row of the family is one of those selected, unless it is revoked already
  by_cases hlive : r.revokedAt = none
  · refine .inl (List.mem_map_of_mem (List.mem_filter.mpr ⟨hr, ?_⟩))
    have hhas : which.has r = true := by
      cases which with
      | family f' =>
        obtain rfl := List.mem_singleton.mp hf
        exact decide_eq_true hrf
      | user userId =>
        obtain ⟨r', hr', hrf'⟩ := List.mem_map.mp hf
        obtain ⟨hr', huser⟩ := List.mem_filter.mp hr'
        obtain ⟨q, hq, -, hqf, hqu⟩ := hinv.issued r hr
        obtain ⟨q', hq', -, hqf', hqu'⟩ := hinv.issued r' hr'
        have hsame := hinv.oneUser q hq q' hq' (by rw [hqf, hqf', hrf, hrf'])
        rw [decide_eq_true_eq] at huser
        exact decide_eq_true (by rw [← hqu, hsame, hqu', huser])
    rw [hhas, hlive]
    rfl
  · exact .inr hlive

theorem goesOn_claim {jti : Text} {now : Nat} {next : Nat → Request ρ} (h : Here i ws seen s)
    (hzero : ∀ t, Here i ws seen t → GoesOn i (next 0) Q t)
    (hone : ∀ t, Here i (ws ++ [.use jti now]) seen t → GoesOn i (next 1) Q t) :
    GoesOn i (.exec (.claim jti now) next) Q s := by
  refine goesOn_exec h fun t hinv ht input u a hok hs => ?_
  rw [sem] at hs
  split at hs
  case isTrue => cases hs
  case isFalse hothers =>
    split at hs
    case isTrue hrow =>
      obtain ⟨rfl, rfl⟩ := Prod.mk.inj (Option.some.inj hs)
      refine ⟨hinv.claim ?_ (fun k at' hk => ?_) (fun r hr hrj => ?_) (writesOf_write t _),
        fun j hj => rely_write hj (by simp), hone _ (here_write ht (by simp))⟩
      · obtain ⟨r, hr, hfree⟩ := List.any_eq_true.mp hrow
        rw [Bool.and_eq_true, decide_eq_true_eq, Option.isNone_iff_eq_none] at hfree
        exact ⟨r, hr, hfree⟩
      · by_contra hki
        refine hothers (List.any_eq_true.mpr ⟨_, hk, ?_⟩)
        simp [hki, Write.uses]
      · obtain ⟨hlive, hquiet⟩ := hok r hr hrj
        exact ⟨hlive, fun k fs js at' hk => of_decide_eq_false (hquiet _ hk)⟩
    case isFalse =>
      obtain ⟨rfl, rfl⟩ := Prod.mk.inj (Option.some.inj hs)
      exact ⟨hinv, fun j _ => contract.rely_refl j t, hzero t ht⟩

/-- A new token is in a new family, or in the family of the token that was claimed. -/
theorem goesOn_create {user : User} {familyId : Option Text} {next : Text → Request ρ}
    (h : Here i ws seen s) (hnone : ∀ r, Write.create r ∉ ws)
    (hclaimed : ∀ f, familyId = some f → ∃ j now, Write.use j now ∈ ws ∧
      ∃ q ∈ seen, q.jti = j ∧ q.familyId = f ∧ q.userId = user.id)
    (hnext : ∀ token row t, Here i (ws ++ [.create row]) seen t → GoesOn i (next token) Q t) :
    GoesOn i (.exec (.create user familyId) next) Q s := by
  refine goesOn_exec h fun t hinv ht input u a _ hs => ?_
  rw [sem] at hs
  split at hs
  case isTrue => cases hs
  case isFalse hjti =>
    split at hs
    case isTrue => cases hs
    case isFalse hfresh =>
      simp only at hs
      generalize hrow : newToken input user (familyId.getD input.familyId) _ = row at hs
      obtain ⟨rfl, -⟩ := Prod.mk.inj (Option.some.inj hs)
      have hj : row.jti = input.jti := by rw [← hrow]; rfl
      have hf : row.familyId = familyId.getD input.familyId := by rw [← hrow]; rfl
      have hu : row.userId = user.id := by rw [← hrow]; rfl
      have hjtis : ∀ q ∈ t.committed.issued, q.jti ≠ row.jti := fun q hq he =>
        hjti (List.mem_map.mpr ⟨q, hq, he.trans hj⟩)
      have hreg : ∀ q, Registered t q → Registered
          { (t.write i (.create row)) with
            committed := { t.committed with issued := t.committed.issued ++ [row] } } q := by
        intro q hq
        refine ⟨List.mem_append_left _ hq.1, fun k hk => ?_⟩
        rcases Store.mem_write.mp hk with hk | ⟨-, he⟩
        · exact hq.2 k hk
        · cases he
          exact hjtis _ hq.1 rfl
      refine ⟨hinv.issue hjtis (fun r hr => hnone r (ht.own ▸ writesOf_own.mp hr)) ?_ ?_
          (writesOf_write t _), fun j hj => ⟨t.own_write_of_ne hj _, hreg⟩,
        hnext _ row _ (here_of_rely ht ?_ hreg)⟩
      · intro q hq he
        cases hfam : familyId with
        | none =>
          rw [hfam] at hfresh hf
          exact absurd ⟨rfl, List.mem_map.mpr ⟨q, hq, he.trans hf⟩⟩ hfresh
        | some f =>
          obtain ⟨j, now, -, q', hq', -, hqf, hqu⟩ := hclaimed f hfam
          rw [hfam] at hf
          rw [hu, ← hqu]
          exact hinv.oneUser q hq q' (ht.seen q' hq').1 (he.trans (hf.trans hqf.symm))
      · cases hfam : familyId with
        | none =>
          rw [hfam] at hfresh hf
          exact .inl fun q hq he => hfresh ⟨rfl, List.mem_map.mpr ⟨q, hq, he.trans hf⟩⟩
        | some f =>
          obtain ⟨j, now, huse, q, hq, hqj, hqf, -⟩ := hclaimed f hfam
          rw [hfam] at hf
          have huse : writesOf t i (.use j now) := writesOf_own.mpr (ht.own ▸ huse)
          obtain ⟨c, hc, hcj, -⟩ := hinv.claimed i j now huse
          obtain ⟨q', hq', hqj', hqf', -⟩ := hinv.issued c hc
          have hsame := hinv.issuedOnce q (ht.seen q hq).1 q' hq' (by rw [hqj, hqj', hcj])
          exact .inr ⟨j, now, huse, c, hc, hcj, by rw [← hqf', ← hsame, hqf, hf]; rfl⟩
      · exact (t.own_write_self i _).trans (by rw [ht.own])

/-! ## The calls -/

theorem goesOn_updateUserNow {id : Text} {data : User → User} {next : Unit → Request ρ}
    (h : Here i ws seen s) (hnext : ∀ t, Here i [] seen t → GoesOn i (next ()) Q t) :
    GoesOn i (updateUser id data >>= next) Q s := by
  refine goesOn_begin h fun t ht => ?_
  refine goesOn_updateUser ht fun t ht => ?_
  exact goesOn_commit ht (.updateUser id data) hnext

theorem goesOn_revokeSessions {which : SessionSet} {next : Nat → Request ρ} (h : Here i ws seen s)
    (hseen : ∀ f, which = .family f → ∃ q ∈ seen, q.familyId = f)
    (hnext : ∀ n t, Here i [] seen t → GoesOn i (next n) Q t) :
    GoesOn i (revokeSessions which >>= next) Q s := by
  refine goesOn_begin h fun t ht => ?_
  refine goesOn_now ht fun now t ht => ?_
  refine goesOn_revoke ht hseen fun n fs js t ht => ?_
  exact goesOn_commit ht (.revoke fs js now) fun t ht => hnext n t ht

theorem goesOn_ite {c : Prop} [Decidable c] {p q : Request ρ} (hp : c → GoesOn i p Q s)
    (hq : ¬ c → GoesOn i q Q s) : GoesOn i (if c then p else q) Q s := by
  by_cases h : c
  · rw [if_pos h]
    exact hp h
  · rw [if_neg h]
    exact hq h

theorem goesOn_done {r : ρ} : GoesOn i (.done r) (fun _ _ => True) s := trivial

theorem goesOn_newSession {user : User} {next : Text → Request ρ} (h : Here i ws seen s)
    (hnext : ∀ token t, Here i [] seen t → GoesOn i (next token) Q t) :
    GoesOn i (do
      ask .begin
      let refreshToken ← ask (.create user none)
      ask .commit
      next refreshToken) Q s := by
  refine goesOn_begin h fun t ht => ?_
  refine goesOn_create ht (fun _ => List.not_mem_nil) (fun _ hf => nomatch hf)
    fun token row t ht => ?_
  exact goesOn_commit ht (.login row) fun t ht => hnext token t ht

theorem goesOn_login (email password : Text) (h : Here i ws seen s) :
    GoesOn i (login email password) (fun _ _ => True) s := by
  refine goesOn_read h (fun _ _ => ⟨_, rfl⟩) fun user t ht => ?_
  refine goesOn_now ht fun now t ht => ?_
  cases user with
  | none => exact goesOn_done
  | some user =>
    refine goesOn_ite (fun _ => goesOn_done) fun _ => ?_
    refine goesOn_ite (fun _ => ?_) fun _ => ?_
    · refine goesOn_now ht fun now t ht => ?_
      exact goesOn_updateUserNow ht fun t ht => goesOn_done
    refine goesOn_ite (fun _ => goesOn_done) fun _ => ?_
    refine goesOn_ite (fun _ => ?_) fun _ => ?_
    · refine goesOn_updateUserNow ht fun t ht => ?_
      exact goesOn_newSession ht fun token t ht => goesOn_done
    · exact goesOn_newSession ht fun token t ht => goesOn_done

theorem goesOn_dropExpired (userId : Text) (h : Here i ws seen s) :
    GoesOn i (dropExpired userId) (fun _ _ => True) s := by
  refine goesOn_begin h fun t ht => ?_
  refine goesOn_now ht fun now t ht => ?_
  refine goesOn_deleteExpired ht fun js t ht => ?_
  exact goesOn_commit ht (.deleteExpired js) fun t ht => goesOn_done

theorem goesOn_refresh (refreshToken : Text) (h : Here i ws seen s) :
    GoesOn i (refresh refreshToken) (fun _ _ => True) s := by
  refine goesOn_now h fun now t ht => ?_
  rw [Prog.bind]
  cases (Services.verify now refreshToken).bind fun payload => truthy payload.jti with
  | none => exact goesOn_done
  | some jti =>
    refine goesOn_tokenByJti ht (fun t ht => ?_) fun r q t ht hj hf hu => ?_
    · exact goesOn_now ht fun _ t ht => goesOn_done
    refine goesOn_now ht fun now t ht => ?_
    refine goesOn_ite (fun _ => goesOn_done) fun _ => ?_
    refine goesOn_ite (fun _ => ?_) fun _ => ?_
    · refine goesOn_revokeSessions ht ?_ fun n t ht => goesOn_done
      rintro f ⟨⟩
      exact ⟨q, List.mem_cons_self, hf⟩
    refine goesOn_userById ht (fun t ht => goesOn_done) fun user t ht hid => ?_
    refine goesOn_begin ht fun t ht => ?_
    refine goesOn_now ht fun now t ht => ?_
    refine goesOn_claim ht (fun t ht => ?_) fun t ht => ?_
    · show GoesOn i (.exec .rollback fun _ => .done invalidToken) _ t
      exact goesOn_rollback ht fun t ht => goesOn_done
    · show GoesOn i (.exec (.create user (some r.familyId)) _) _ t
      refine goesOn_create ht (by simp) ?_ fun token row t ht => ?_
      · rintro f ⟨⟩
        exact ⟨jti, now, List.mem_cons_self, q, List.mem_cons_self, hj, hf, hu.trans hid.symm⟩
      · exact goesOn_commit ht (.refresh jti now row) fun t ht => goesOn_done

theorem goesOn_logout (refreshToken : Option Text) (allDevices : Bool) (h : Here i ws seen s) :
    GoesOn i (logout refreshToken allDevices) (fun _ _ => True) s := by
  unfold logout
  cases truthy refreshToken with
  | none => exact goesOn_done
  | some refreshToken =>
    dsimp only
    cases (Services.verifyIgnoringExpiration refreshToken).bind fun p => truthy p.jti with
    | none => exact goesOn_done
    | some jti =>
      refine goesOn_tokenByJti h (fun t ht => goesOn_done) fun r q t ht hj hf hu => ?_
      refine goesOn_ite (fun _ => goesOn_done) fun _ => ?_
      cases allDevices with
      | true => exact goesOn_revokeSessions ht (fun _ he => nomatch he) fun n t ht => goesOn_done
      | false =>
        refine goesOn_revokeSessions ht ?_ fun n t ht => goesOn_done
        rintro f ⟨⟩
        exact ⟨q, List.mem_cons_self, hf⟩

theorem goesOn_resetPassword (token newPassword : Text) (h : Here i ws seen s) :
    GoesOn i (resetPassword token newPassword) (fun _ _ => True) s := by
  refine goesOn_now h fun now t ht => ?_
  refine goesOn_read ht (fun _ _ => ⟨_, rfl⟩) fun user t ht => ?_
  cases user with
  | none => exact goesOn_done
  | some user =>
    refine goesOn_updateUserNow ht fun t ht => ?_
    exact goesOn_revokeSessions ht (fun _ he => nomatch he) fun n t ht => goesOn_done

theorem goesOn_lockUser (id actorId : Text) (locked : Bool) (until_ : Option Nat)
    (h : Here i ws seen s) : GoesOn i (lockUser id actorId locked until_) (fun _ _ => True) s := by
  refine goesOn_ite (fun _ => goesOn_done) fun _ => ?_
  refine goesOn_read h (fun _ _ => ⟨_, rfl⟩) fun user t ht => ?_
  cases user with
  | none => exact goesOn_done
  | some user =>
    refine goesOn_begin ht fun t ht => ?_
    refine goesOn_updateUser ht fun t ht => ?_
    refine goesOn_now ht fun now t ht => ?_
    cases locked with
    | true =>
      refine goesOn_revoke ht (fun _ he => nomatch he) fun n fs js t ht => ?_
      exact goesOn_commit ht (.lockUser _ _ fs js now) fun t ht => goesOn_done
    | false => exact goesOn_commit ht (.updateUser _ _) fun t ht => goesOn_done

theorem goesOn_logoutAll (id : Text) (h : Here i ws seen s) :
    GoesOn i (logoutAll id) (fun _ _ => True) s := by
  refine goesOn_read h (fun _ _ => ⟨_, rfl⟩) fun user t ht => ?_
  cases user with
  | none => exact goesOn_done
  | some user =>
    exact goesOn_revokeSessions ht (fun _ he => nomatch he) fun n t ht => goesOn_done

theorem goesOn_program (call : Call) (i : Nat) (s : Db) :
    GoesOn i call.program (fun _ _ => True) s := by
  have h : Here i (s.own i) [] s := ⟨rfl, fun _ hq => nomatch hq⟩
  cases call with
  | login email password => exact goesOn_login email password h
  | dropExpired userId => exact goesOn_dropExpired userId h
  | refresh refreshToken => exact goesOn_refresh refreshToken h
  | logout refreshToken allDevices => exact goesOn_logout refreshToken allDevices h
  | resetPassword token newPassword => exact goesOn_resetPassword token newPassword h
  | lockUser id actorId locked until_ => exact goesOn_lockUser id actorId locked until_ h
  | logoutAll id => exact goesOn_logoutAll id h

omit [Services] in
theorem sound_start (users : List User) : contract.inv (Db.start users) where
  issuedOnce := fun _ hq => nomatch hq
  oneUser := fun _ hq => nomatch hq
  issued := fun _ hr => nomatch hr
  rowsOnce := fun _ hr => nomatch hr
  oneHead := fun _ hr => nomatch hr
  claimed := fun _ _ _ hp => nomatch hp
  claimedOnce := fun _ _ _ _ _ hp => nomatch hp
  created := fun _ _ hp => nomatch hp
  createdOnce := fun _ _ _ _ hp => nomatch hp
  succeeds := fun _ _ hp => nomatch hp
  exchangedOnce := List.nodup_nil
  exchangedUsed := fun _ hj => nomatch hj
  revoked := fun _ hf => nomatch hf
  revoking := fun _ _ _ _ hp => nomatch hp

/-- In every run in which no revocation disturbs a refresh, every token is exchanged once at
most, a family has one usable token at most and a revoked family has none. -/
theorem revocation_final (users : List User) (actions : List (Action Input Call))
    (h : (Pool.start (Db.start users)).Meets sem Call.program Undisturbed actions) :
    Final ((Pool.start (Db.start users)).run sem Call.program actions).store.committed :=
  final_of_sound (contract.inv_run (fun call i s _ => goesOn_program call i s)
    (sound_start users) h)

end

/-! ## Runs of a small service -/

/-- A token is its own id, and a password its own hash. -/
@[reducible] def plainServices : Services where
  sign := fun _ _ payload => payload.jti.getD []
  verify := fun _ token => some { sub := [], email := [], jti := some token }
  verifyIgnoringExpiration := fun token => some { sub := [], email := [], jti := some token }
  hashToken := id
  hashPassword := id
  verifyPassword := fun hash password => hash = password
  normalizeEmail := id
  requireEmailVerification := false

def alice : User where
  id := "alice".toList
  email := "alice@example.org".toList
  name := "Alice".toList
  passwordHash := "secret".toList
  emailVerified := true
  failedLoginCount := 0
  lockedUntil := none
  passwordResetTokenHash := none
  passwordResetExpiresAt := none

/-- So many turns of a call. -/
def turns (i n : Nat) (jti : String) : List (Action Input Call) :=
  List.replicate n (.turn i { now := 1000, jti := jti.toList, familyId := "laptop".toList })

/-- Alice signs in and refreshes; then she signs out. -/
def inTurn : List (Action Input Call) :=
  [.call (.login alice.email alice.passwordHash)] ++ turns 0 5 "first" ++
    [.call (.refresh "first".toList)] ++ turns 1 9 "second" ++
    [.call (.logout (some "second".toList) false)] ++ turns 2 5 ""

/-- Alice signs out while a refresh has read its token and not claimed it yet. -/
def signedOutMidway : List (Action Input Call) :=
  [.call (.login alice.email alice.passwordHash)] ++ turns 0 5 "first" ++
    [.call (.refresh "first".toList)] ++ turns 1 4 "" ++
    [.call (.logout (some "first".toList) false)] ++ turns 2 5 "" ++ turns 1 5 "second"

theorem revocation_final_inTurn :
    let store := ((Pool.start (Db.start [alice])).run (@sem plainServices)
      (@Call.program plainServices) inTurn).store
    (store.committed.exchanged = ["first".toList] ∧
      store.committed.revokedFamilies = ["laptop".toList]) ∧ Final store.committed :=
  ⟨by decide +kernel, @revocation_final plainServices [alice] inTurn (by decide +kernel)⟩

/-- The successor that such a refresh gets is not revoked, and the next refresh takes it. -/
theorem revocation_missed :
    ¬ ∀ (_services : Services) (users : List User) (actions : List (Action Input Call)),
      Final ((Pool.start (Db.start users)).run sem Call.program actions).store.committed := by
  intro h
  let tables := ((Pool.start (Db.start [alice])).run (@sem plainServices)
    (@Call.program plainServices) signedOutMidway).store.committed
  have hdead : ∀ f ∈ tables.revokedFamilies, ∀ r ∈ tables.refreshTokens, r.familyId = f →
      ¬ r.Usable 1000 := fun f hf r hr hrf =>
    (h plainServices [alice] signedOutMidway).revokedDead f hf r hr hrf 1000
  revert hdead
  decide +kernel

end CircuitForge.Sessions
