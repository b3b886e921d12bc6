/-
The owners of an organization over every interleaving of the member operations.

A transaction that takes OWNER from a member lowers the number of owners by one and is
counted when it commits.  What an operation has counted is a lower bound on the owners that
are there together with those that were taken in the meantime.
-/
import CircuitForge.Api.Members

namespace CircuitForge.Members

open Js Requests Transactions

/-! ## Counting owners -/

/-- The open transactions that take OWNER from a member of the organization. -/
def Db.ending (s : Db) (orgId : Text) : Nat :=
  s.pending.countP fun e => e.2.endsOwner s.committed orgId

/-- Of the OWNERs that were counted two are left, without those taken since and those that
open transactions take. -/
def Count.suffices (c : Count) (s : Db) (orgId : Text) : Bool :=
  s.committed.ended.count orgId + s.ending orgId + 2 ≤ c.owners + c.ended

/-- The write takes no OWNER of the organization, or leaves one by what was counted. -/
def Write.covered (w : Write) (counted : Option Count) (s : Db) (orgId : Text) : Bool :=
  !w.endsOwner s.committed orgId || counted.any fun c => c.suffices s orgId

/-- An operation that takes an OWNER of the organization has counted enough of them. -/
def Counted (org : Text) (_now _i : Nat) : Stmt → Db → Prop
  | .setRole orgId userId role counted, s =>
    (Write.setRole orgId userId role).covered counted s org = true
  | .remove orgId userId counted, s => (Write.remove orgId userId).covered counted s org = true
  | .upsert orgId userId create update counted, s =>
    (Write.upsert orgId userId create update).covered counted s org = true
  | _, _ => True

instance (org : Text) (now i : Nat) : ∀ st s, Decidable (Counted org now i st s)
  | .setRole _ _ _ _, _ | .remove _ _ _, _ | .upsert _ _ _ _ _, _ =>
    inferInstanceAs (Decidable (_ = true))
  | .now, _ | .organization _, _ | .user _, _ | .invitationByToken _, _ | .membership _ _, _
  | .countOwners _, _ | .begin, _ | .claim _, _ | .expire _, _ | .commit, _ | .rollback, _ =>
    isTrue trivial

def Tables.HasOwner (t : Tables) (orgId : Text) : Prop :=
  ∃ m ∈ t.memberships, m.orgId = orgId ∧ m.role = .owner

/-- A user is a member of an organization once. -/
def Tables.OneEach (t : Tables) : Prop := (t.memberships.map OrgMembership.key).Nodup

instance (t : Tables) (orgId : Text) : Decidable (t.HasOwner orgId) :=
  inferInstanceAs (Decidable (∃ m ∈ t.memberships, _))

instance (t : Tables) : Decidable t.OneEach := inferInstanceAs (Decidable (List.Nodup _))

theorem hasOwner_of_pos {t : Tables} {org : Text} (h : 0 < t.owners org) : t.HasOwner org := by
  obtain ⟨m, hm, ho⟩ := List.countP_pos_iff.mp h
  rw [OrgMembership.ownerOf, Bool.and_eq_true, decide_eq_true_eq, decide_eq_true_eq] at ho
  exact ⟨m, hm, ho⟩

theorem pos_of_hasOwner {t : Tables} {org : Text} (h : t.HasOwner org) : 0 < t.owners org := by
  obtain ⟨m, hm, ho⟩ := h
  refine List.countP_pos_iff.mpr ⟨m, hm, ?_⟩
  rw [OrgMembership.ownerOf, Bool.and_eq_true, decide_eq_true_eq, decide_eq_true_eq]
  exact ho

/-! ## One write -/

/-- Rows that are replaced lose what they counted for only where they are set apart. -/
theorem countP_map_add {α : Type} {p q : α → Bool} {f : α → α} {rows : List α}
    (h : ∀ m ∈ rows, p m = true → p (f m) = true ∨ q m = true) :
    rows.countP p ≤ (rows.map f).countP p + rows.countP q := by
  induction rows with
  | nil => exact Nat.le_refl 0
  | cons m rows ih =>
    have hrows := ih fun x hx => h x (List.mem_cons_of_mem m hx)
    have hm := h m List.mem_cons_self
    simp only [List.map_cons, List.countP_cons]
    split <;> split <;> split <;> simp_all <;> omega

theorem countP_filter_add {α : Type} {p q k : α → Bool} {rows : List α}
    (h : ∀ m ∈ rows, p m = true → k m = true ∨ q m = true) :
    rows.countP p ≤ (rows.filter k).countP p + rows.countP q := by
  induction rows with
  | nil => exact Nat.le_refl 0
  | cons m rows ih =>
    have hrows := ih fun x hx => h x (List.mem_cons_of_mem m hx)
    have hm := h m List.mem_cons_self
    by_cases hk : k m = true
    · rw [List.filter_cons_of_pos hk]
      simp only [List.countP_cons]
      omega
    · rw [List.filter_cons_of_neg hk]
      simp only [List.countP_cons]
      split <;> split <;> simp_all <;> omega

theorem takes_iff {w : Write} {m : OrgMembership} :
    w.takes m = true ↔ m.role = .owner ∧ w.locks = .inl m.key ∧ w.keepsOwner = false := by
  simp [Write.takes, and_assoc]

theorem ownerOf_withRole {m : OrgMembership} {org : Text} {role : OrgRole}
    (h : m.ownerOf org = true) (hrole : role = .owner) :
    { m with role : OrgMembership }.ownerOf org = true := by
  simp only [OrgMembership.ownerOf, Bool.and_eq_true, decide_eq_true_eq] at h ⊢
  exact ⟨h.1, hrole⟩

/-- An owner stays one, or the write takes it. -/
theorem owners_le_apply (w : Write) (t : Tables) (org : Text) :
    t.owners org ≤ (w.apply t).owners org +
      t.memberships.countP fun m => m.orgId = org && w.takes m := by
  have htakes : ∀ m : OrgMembership, m.ownerOf org = true → w.locks = .inl m.key →
      w.keepsOwner = false → (decide (m.orgId = org) && w.takes m) = true := by
    intro m hm hl hk
    rw [OrgMembership.ownerOf, Bool.and_eq_true, decide_eq_true_eq, decide_eq_true_eq] at hm
    rw [Bool.and_eq_true, decide_eq_true_eq]
    exact ⟨hm.1, takes_iff.mpr ⟨hm.2, hl, hk⟩⟩
  cases w with
  | setRole orgId userId role =>
    refine countP_map_add fun m _ hm => ?_
    by_cases hkey : m.key = (orgId, userId)
    · by_cases hrole : role = .owner
      · refine .inl ?_
        rw [if_pos hkey]
        exact ownerOf_withRole hm hrole
      · refine .inr (htakes m hm (congrArg Sum.inl hkey.symm) ?_)
        simp [Write.keepsOwner, hrole]
    · rw [if_neg hkey]
      exact .inl hm
  | remove orgId userId =>
    refine countP_filter_add fun m _ hm => ?_
    by_cases hkey : m.key = (orgId, userId)
    · exact .inr (htakes m hm (congrArg Sum.inl hkey.symm) rfl)
    · exact .inl (decide_eq_true hkey)
  | upsert orgId userId create update =>
    change t.memberships.countP _ ≤ ((if _ then _ else _ : List OrgMembership).countP _) + _
    split
    · refine countP_map_add fun m _ hm => ?_
      by_cases hkey : m.key = (orgId, userId)
      · rw [if_pos hkey]
        by_cases hrole : update.all (· = .owner) = true
        · refine .inl ?_
          cases update with
          | none => exact hm
          | some role =>
            rw [Option.all_some, decide_eq_true_eq] at hrole
            exact ownerOf_withRole hm hrole
        · refine .inr (htakes m hm (congrArg Sum.inl hkey.symm) ?_)
          exact Bool.eq_false_iff.mpr hrole
      · rw [if_neg hkey]
        exact .inl hm
    · rw [List.countP_append]
      omega
  | setStatus id status => exact Nat.le_add_right _ _

/-- Of rows with a key of their own, one has a given key. -/
theorem countP_eq_any {α κ : Type} [DecidableEq κ] {key : α → κ} {p : α → Bool} {rows : List α}
    (h : (rows.map key).Nodup) (hp : ∀ m, p m = true → ∀ m', p m' = true → key m = key m') :
    rows.countP p = if rows.any p = true then 1 else 0 := by
  induction rows with
  | nil => rfl
  | cons m rows ih =>
    obtain ⟨hm, hrows⟩ := List.nodup_cons.mp h
    by_cases hpm : p m = true
    · have hnone : rows.countP p = 0 := List.countP_eq_zero.mpr fun m' hm' hpm' =>
        hm (hp m hpm m' hpm' ▸ List.mem_map_of_mem hm')
      rw [List.countP_cons_of_pos hpm, hnone, List.any_cons, hpm, Bool.true_or, if_pos rfl]
    · rw [List.countP_cons_of_neg hpm, List.any_cons, Bool.eq_false_iff.mpr hpm, Bool.false_or]
      exact ih hrows

/-- A write takes OWNER from one row at most. -/
theorem taken_eq (w : Write) {t : Tables} (h : t.OneEach) (org : Text) :
    (t.memberships.countP fun m => m.orgId = org && w.takes m) =
      if w.endsOwner t org = true then 1 else 0 := by
  refine countP_eq_any h fun m hm m' hm' => ?_
  rw [Bool.and_eq_true] at hm hm'
  have hlock := (takes_iff.mp hm.2).2.1
  exact Sum.inl.inj (hlock.symm.trans (takes_iff.mp hm'.2).2.1)

/-- The log grows by what the write takes. -/
theorem ended_apply (w : Write) {t : Tables} (h : t.OneEach) (org : Text) :
    (w.apply t).ended.count org =
      t.ended.count org + if w.endsOwner t org = true then 1 else 0 := by
  rw [← taken_eq w h org]
  change (t.ended ++ (t.memberships.filter w.takes).map OrgMembership.orgId).count org = _
  rw [List.count_append, List.count_eq_countP (l := (t.memberships.filter w.takes).map _),
    List.countP_map, List.countP_filter]
  exact congrArg _ (List.countP_congr fun m _ => by simp)

theorem keys_replaced {rows : List OrgMembership} (k : Text × Text)
    (g : OrgMembership → OrgMembership) (hg : ∀ m, (g m).key = m.key) :
    (rows.map fun m => if m.key = k then g m else m).map OrgMembership.key =
      rows.map OrgMembership.key := by
  rw [List.map_map]
  refine List.map_congr_left fun m _ => ?_
  rw [Function.comp_apply]
  split
  · exact hg m
  · rfl

theorem oneEach_apply (w : Write) {t : Tables} (h : t.OneEach) : (w.apply t).OneEach := by
  cases w with
  | setRole orgId userId role =>
    exact (congrArg List.Nodup
      (keys_replaced (orgId, userId) ({ · with role }) fun _ => rfl)).mpr h
  | remove orgId userId => exact h.sublist (List.filter_sublist.map _)
  | upsert orgId userId create update =>
    change ((if _ then _ else _ : List OrgMembership).map OrgMembership.key).Nodup
    split
    case isTrue =>
      exact (congrArg List.Nodup (keys_replaced (orgId, userId)
        (fun m => { m with role := update.getD m.role }) fun _ => rfl)).mpr h
    case isFalse hnone =>
      rw [List.map_append]
      refine List.nodup_append.mpr ⟨h, List.pairwise_singleton _ _, fun k hk k' hk' he => ?_⟩
      obtain ⟨m, hm, hmk⟩ := List.mem_map.mp hk
      refine hnone (List.any_eq_true.mpr ⟨m, hm, decide_eq_true ?_⟩)
      rw [hmk, he, List.mem_singleton.mp hk']
      rfl
  | setStatus id status => exact h

/-- A write of one row does not matter to a write of another. -/
theorem endsOwner_apply {v w : Write} (h : v.locks ≠ w.locks) (t : Tables) (org : Text) :
    v.endsOwner (w.apply t) org = v.endsOwner t org := by
  have hother : ∀ m : OrgMembership, w.locks = .inl m.key → v.takes m = false := by
    intro m hm
    refine Bool.eq_false_iff.mpr fun hv => h ?_
    rw [hm]
    exact (takes_iff.mp hv).2.1
  have hmap : ∀ (k : Text × Text) (g : OrgMembership → OrgMembership),
      (∀ m, (g m).key = m.key) → w.locks = .inl k →
      (t.memberships.map fun m => if m.key = k then g m else m).any
        (fun m => m.orgId = org && v.takes m) = v.endsOwner t org := by
    intro k g hg hk
    rw [List.any_map]
    refine congrArg (List.any t.memberships) (funext fun m => ?_)
    by_cases hkey : m.key = k
    · rw [Function.comp_apply, if_pos hkey, hother m (hkey ▸ hk), hother (g m) (by rw [hg, hkey, hk])]
      simp
    · rw [Function.comp_apply, if_neg hkey]
  cases w with
  | setRole orgId userId role => exact hmap (orgId, userId) _ (fun _ => rfl) rfl
  | remove orgId userId =>
    change (t.memberships.filter _).any _ = _
    rw [List.any_filter]
    refine congrArg (List.any t.memberships) (funext fun m => ?_)
    by_cases hkey : m.key = (orgId, userId)
    · rw [hother m (congrArg Sum.inl hkey.symm)]
      simp
    · simp [hkey]
  | upsert orgId userId create update =>
    change (if _ then _ else _ : List OrgMembership).any _ = _
    split
    · exact hmap (orgId, userId) _ (fun _ => rfl) rfl
    · rw [List.any_append, List.any_cons, List.any_nil, hother ⟨orgId, userId, create⟩ rfl,
        Bool.and_false, Bool.or_false, Bool.or_false]
      rfl
  | setStatus id status => rfl

/-! ## The writes of a transaction -/

/-- The writes that take OWNER from a member of the organization. -/
def takenBy (ws : List Write) (t : Tables) (org : Text) : Nat :=
  ws.countP fun w => w.endsOwner t org

/-- What the writes of a transaction do together, each on a row of its own. -/
structure Settled (ws : List Write) (org : Text) (t u : Tables) : Prop where
  oneEach : u.OneEach
  ended : u.ended.count org = t.ended.count org + takenBy ws t org
  owners : t.owners org ≤ u.owners org + takenBy ws t org
  others : ∀ v : Write, (∀ w ∈ ws, v.locks ≠ w.locks) → v.endsOwner u org = v.endsOwner t org

theorem settled_apply (w : Write) {t : Tables} (h : t.OneEach) (org : Text) :
    Settled [w] org t (w.apply t) where
  oneEach := oneEach_apply w h
  ended := by
    rw [ended_apply w h, takenBy, List.countP_singleton]
  owners := by
    rw [takenBy, List.countP_singleton, ← taken_eq w h org]
    exact owners_le_apply w t org
  others := fun v hv => endsOwner_apply (hv w List.mem_cons_self) t org

theorem settled_foldl {ws : List Write} {t : Tables} (h : t.OneEach)
    (hrows : ws.Pairwise fun v w => w.locks ≠ v.locks) (org : Text) :
    Settled ws org t (ws.foldl (fun t w => w.apply t) t) := by
  induction ws generalizing t with
  | nil =>
    exact ⟨h, rfl, Nat.le_refl _, fun _ _ => rfl⟩
  | cons w ws ih =>
    obtain ⟨hw, hrows⟩ := List.pairwise_cons.mp hrows
    have hfirst := settled_apply w h org
    have hrest := ih hfirst.oneEach hrows
    have hsame : takenBy ws (w.apply t) org = takenBy ws t org :=
      List.countP_congr fun v hv => by rw [endsOwner_apply (hw v hv)]
    have hcons : takenBy (w :: ws) t org = takenBy ws t org + takenBy [w] t org := by
      rw [takenBy, List.countP_cons, takenBy, takenBy, List.countP_singleton]
    have hended := hrest.ended
    have howners := hrest.owners
    rw [hsame] at hended howners
    rw [hfirst.ended] at hended
    have hone := hfirst.owners
    exact
      { oneEach := hrest.oneEach
        ended := by
          rw [List.foldl_cons, hended, hcons]
          omega
        owners := by
          rw [List.foldl_cons, hcons]
          omega
        others := fun v hv =>
          (hrest.others v fun u hu => hv u (List.mem_cons_of_mem w hu)).trans
            (endsOwner_apply (hv w List.mem_cons_self) t org) }

/-! ## The contract of an operation -/

/-- The OWNERs that are there and those that were taken: this never falls. -/
def Tables.balance (t : Tables) (org : Text) : Nat := t.owners org + t.ended.count org

/-- More OWNERs are there than open transactions take, and a row is written by one
transaction. -/
structure Owned (org : Text) (s : Db) : Prop where
  oneEach : s.committed.OneEach
  rows : s.pending.Pairwise fun e e' => e'.2.locks ≠ e.2.locks
  spare : s.ending org < s.committed.owners org

/-- An operation keeps its writes, and what it counted is a bound. -/
def contract (org : Text) : Contract Db where
  inv := Owned org
  rely := fun i s t => t.own i = s.own i ∧ s.committed.balance org ≤ t.committed.balance org
  rely_refl := fun _ _ => ⟨rfl, Nat.le_refl _⟩
  rely_trans := fun _ _ _ _ h h' => ⟨h'.1.trans h.1, h.2.trans h'.2⟩

theorem owned_rollback {org : Text} {s : Db} (h : Owned org s) (i : Nat) :
    Owned org (s.rollback i) where
  oneEach := h.oneEach
  rows := h.rows.sublist List.filter_sublist
  spare := Nat.lt_of_le_of_lt (List.filter_sublist.countP_le) h.spare

theorem owned_write {org : Text} {s : Db} (h : Owned org s) {i : Nat} {w : Write}
    (hlock : s.locked i w = false) (hown : ∀ v ∈ s.own i, w.locks ≠ v.locks)
    (hspare : w.endsOwner s.committed org = true → s.ending org + 1 < s.committed.owners org) :
    Owned org (s.write i w) where
  oneEach := h.oneEach
  rows := by
    refine List.pairwise_append.mpr ⟨h.rows, List.pairwise_singleton _ _, fun e he e' he' => ?_⟩
    obtain rfl := List.mem_singleton.mp he'
    by_cases hi : e.1 = i
    · exact hown e.2 (Store.mem_own.mpr (hi ▸ he))
    · intro hsame
      refine Bool.eq_false_iff.mp hlock (List.any_eq_true.mpr ⟨e, he, ?_⟩)
      simp [hi, hsame]
  spare := by
    change (s.pending ++ [(i, w)]).countP _ < _
    rw [List.countP_append, List.countP_singleton]
    split
    case isTrue hends => exact hspare hends
    case isFalse => exact h.spare

theorem commit_settled {org : Text} {s : Db} (h : Owned org s) (i : Nat) :
    Settled (s.own i) org s.committed (s.commit Write.apply i).committed := by
  refine settled_foldl h.oneEach ?_ org
  exact List.pairwise_map.mpr (h.rows.sublist List.filter_sublist)

theorem rows_apart {org : Text} {s : Db} (h : Owned org s) {i k : Nat} {v w : Write}
    (hv : (k, v) ∈ s.pending) (hw : (i, w) ∈ s.pending) (hki : k ≠ i) : v.locks ≠ w.locks := by
  have hall := List.Pairwise.forall_of_forall_of_flip
    (R := fun e e' : Nat × Write => e'.2.locks = e.2.locks → e = e') (fun _ _ _ => rfl)
    (h.rows.imp fun hne he => absurd he hne) (h.rows.imp fun hne he => absurd he.symm hne)
  exact fun hsame => hki (congrArg Prod.fst (hall hv hw hsame.symm))

theorem owned_commit {org : Text} {s : Db} (h : Owned org s) (i : Nat) :
    Owned org (s.commit Write.apply i) where
  oneEach := (commit_settled h i).oneEach
  rows := h.rows.sublist List.filter_sublist
  spare := by
    have hset := commit_settled h i
    have hothers : ((s.rollback i).pending.countP
        fun e => e.2.endsOwner (s.commit Write.apply i).committed org) =
        (s.rollback i).pending.countP fun e => e.2.endsOwner s.committed org := by
      refine List.countP_congr fun e he => ?_
      rw [hset.others e.2 fun w hw => ?_]
      obtain ⟨he, hi⟩ := Store.mem_rollback.mp he
      exact rows_apart h he (Store.mem_own.mp hw) hi
    have hsplit := s.countP_pending i fun w => w.endsOwner s.committed org
    have hspare : (s.pending.countP fun e => e.2.endsOwner s.committed org) < _ := h.spare
    have howners := hset.owners
    rw [takenBy] at howners
    change (s.rollback i).pending.countP _ < _
    omega

theorem balance_commit {org : Text} {s : Db} (h : Owned org s) (i : Nat) :
    s.committed.balance org ≤ (s.commit Write.apply i).committed.balance org := by
  have hset := commit_settled h i
  have howners := hset.owners
  rw [Tables.balance, Tables.balance, hset.ended]
  omega

/-! ## Statements of an operation -/

section

variable {ρ : Type} {org orgId : Text} {i : Nat} {ws : List Write} {counted : Option Count}
  {s : Db} {Q : ρ → Db → Prop}

/-- What an operation knows between its statements: its writes, and what it counted. -/
structure Here (org : Text) (i : Nat) (ws : List Write) (orgId : Text) (counted : Option Count)
    (s : Db) : Prop where
  own : s.own i = ws
  counted : orgId = org → ∀ c ∈ counted, c.owners + c.ended ≤ s.committed.balance org

theorem here_stable : (contract org).Stable i (Here org i ws orgId counted) :=
  fun _ _ hr _ h => ⟨hr.1.trans h.own, fun ho c hc => (h.counted ho c hc).trans hr.2⟩

/-- The operation goes on from here without breaking the contract. -/
def GoesOn (org : Text) (i : Nat) (p : Request ρ) (Q : ρ → Db → Prop) (s : Db) : Prop :=
  (contract org).Keeps sem (Counted org) i p Q s

theorem goesOn_done {r : ρ} : GoesOn org i (.done r) (fun _ _ => True) s :=
  Contract.keeps_done trivial

theorem goesOn_ite {P : Prop} [Decidable P] {p p' : Request ρ}
    (hp : P → GoesOn org i p Q s) (hp' : ¬ P → GoesOn org i p' Q s) :
    GoesOn org i (if P then p else p') Q s := by
  by_cases h : P
  · rw [if_pos h]
    exact hp h
  · rw [if_neg h]
    exact hp' h

theorem goesOn_read {st : Stmt} {next : Answer st → Request ρ} (h : Here org i ws orgId counted s)
    (hread : ∀ now t u a, sem now i st t = some (u, a) → u = t)
    (hnext : ∀ a t, Here org i ws orgId counted t → GoesOn org i (next a) Q t) :
    GoesOn org i (.exec st next) Q s :=
  Contract.keeps_read here_stable h hread fun _ a t _ _ ht => hnext a t ht

theorem goesOn_countOwners {next : Count → Request ρ} (h : Here org i ws orgId counted s)
    (hnext : ∀ c t, Here org i ws orgId (some c) t → GoesOn org i (next c) Q t) :
    GoesOn org i (.exec (.countOwners orgId) next) Q s := by
  refine Contract.keeps_read here_stable h ?_ fun now c t hs _ ht => ?_
  · intro now t u a hs
    exact (Prod.mk.inj (Option.some.inj hs)).1.symm
  · obtain rfl := (Prod.mk.inj (Option.some.inj hs)).2
    refine hnext _ t ⟨ht.own, fun ho c hc => ?_⟩
    obtain rfl := Option.some.inj hc
    rw [ho]
    exact Nat.le_refl _

/-- Writes that an operation forgets. -/
theorem goesOn_forget {st : Stmt} {next : Answer st → Request ρ}
    (h : Here org i ws orgId counted s)
    (hsem : ∀ now t u a, sem now i st t = some (u, a) → u = t.rollback i)
    (hnext : ∀ a t, Here org i [] orgId counted t → GoesOn org i (next a) Q t) :
    GoesOn org i (.exec st next) Q s := by
  refine Contract.keeps_exec here_stable h fun t hinv ht now u a _ hs => ?_
  obtain rfl := hsem now t u a hs
  exact ⟨owned_rollback hinv i, fun j hj => ⟨t.own_rollback_of_ne hj, Nat.le_refl _⟩,
    hnext a _ ⟨t.own_rollback_self i, ht.counted⟩⟩

theorem goesOn_begin {next : Unit → Request ρ} (h : Here org i ws orgId counted s)
    (hnext : ∀ t, Here org i [] orgId counted t → GoesOn org i (next ()) Q t) :
    GoesOn org i (.exec .begin next) Q s :=
  goesOn_forget h (fun _ _ _ _ hs => (Prod.mk.inj (Option.some.inj hs)).1.symm)
    fun _ t ht => hnext t ht

theorem goesOn_rollback {next : Unit → Request ρ} (h : Here org i ws orgId counted s)
    (hnext : ∀ t, Here org i [] orgId counted t → GoesOn org i (next ()) Q t) :
    GoesOn org i (.exec .rollback next) Q s :=
  goesOn_forget h (fun _ _ _ _ hs => (Prod.mk.inj (Option.some.inj hs)).1.symm)
    fun _ t ht => hnext t ht

theorem goesOn_commit {next : Unit → Request ρ} (h : Here org i ws orgId counted s)
    (hnext : ∀ t, Here org i [] orgId counted t → GoesOn org i (next ()) Q t) :
    GoesOn org i (.exec .commit next) Q s := by
  refine Contract.keeps_exec here_stable h fun t hinv ht now u a _ hs => ?_
  obtain ⟨rfl, -⟩ := Prod.mk.inj (Option.some.inj hs)
  have hbalance := balance_commit hinv i
  refine ⟨owned_commit hinv i, fun j hj => ⟨t.own_commit_of_ne Write.apply hj, hbalance⟩, ?_⟩
  exact hnext _ ⟨t.own_commit_self Write.apply i, fun ho c hc =>
    (ht.counted ho c hc).trans hbalance⟩

/-- A write of a row that the operation has not written, where enough OWNERs were counted if
it takes one. -/
theorem goesOn_write {st : Stmt} {next : Answer st → Request ρ} (w : Write)
    (h : Here org i ws orgId counted s) (hws : ∀ v ∈ ws, w.locks ≠ v.locks)
    (hsem : ∀ now t u a, sem now i st t = some (u, a) →
      u = t ∨ t.locked i w = false ∧ u = t.write i w)
    (hok : ∀ now t, Counted org now i st t → w.endsOwner t.committed org = true →
      orgId = org ∧ ∃ c ∈ counted, c.suffices t org = true)
    (hnext : ∀ ws' a t, ws' = ws ∨ ws' = ws ++ [w] → Here org i ws' orgId counted t →
      GoesOn org i (next a) Q t) :
    GoesOn org i (.exec st next) Q s := by
  refine Contract.keeps_exec here_stable h fun t hinv ht now u a hcounted hs => ?_
  rcases hsem now t u a hs with rfl | ⟨hlock, rfl⟩
  · exact ⟨hinv, fun j _ => (contract org).rely_refl j u, hnext ws a u (.inl rfl) ht⟩
  · refine ⟨owned_write hinv hlock (fun v hv => hws v (ht.own ▸ hv)) fun hends => ?_, fun j hj =>
      ⟨t.own_write_of_ne hj w, Nat.le_refl _⟩, hnext (ws ++ [w]) a _ (.inr rfl) ?_⟩
    · obtain ⟨ho, c, hc, hsuffices⟩ := hok now t hcounted hends
      have hbound := ht.counted ho c hc
      rw [Count.suffices, decide_eq_true_eq] at hsuffices
      rw [Tables.balance] at hbound
      omega
    · exact ⟨by rw [Store.own_write_self, ht.own], ht.counted⟩

/-- A write that is covered is one of the organization that was counted. -/
theorem covered_here {w : Write} {userId : Text} (hl : w.locks = .inl (orgId, userId)) {t : Db}
    (hcovered : w.covered counted t org = true) (hends : w.endsOwner t.committed org = true) :
    orgId = org ∧ ∃ c ∈ counted, c.suffices t org = true := by
  constructor
  · obtain ⟨m, -, hm⟩ := List.any_eq_true.mp hends
    rw [Bool.and_eq_true, decide_eq_true_eq] at hm
    have hkey := Sum.inl.inj (hl.symm.trans (takes_iff.mp hm.2).2.1)
    exact (congrArg Prod.fst hkey).trans hm.1
  · rw [Write.covered, hends] at hcovered
    exact (Option.any_eq_true _ _).mp hcovered

theorem change_cases {t u : Db} {w : Write} {o userId : Text} {a : Bool}
    (h : t.change i w o userId = some (u, a)) :
    u = t ∨ t.locked i w = false ∧ u = t.write i w := by
  rw [Db.change] at h
  split at h
  · cases h
  case isFalse hlock =>
    split at h
    · exact .inr ⟨Bool.eq_false_iff.mpr hlock, (Prod.mk.inj (Option.some.inj h)).1.symm⟩
    · exact .inl (Prod.mk.inj (Option.some.inj h)).1.symm

/-- After its only write. -/
def Written (org : Text) (i : Nat) (s : Db) : Prop := ∃ ws orgId counted, Here org i ws orgId counted s

theorem goesOn_setRole (userId : Text) (role : OrgRole) (h : Here org i [] orgId counted s) :
    GoesOn org i (ask (.setRole orgId userId role counted)) (fun _ => Written org i) s :=
  goesOn_write (.setRole orgId userId role) h (fun _ hv => nomatch hv)
    (fun _ _ _ _ hs => change_cases hs) (fun _ _ hok hends => covered_here rfl hok hends)
    fun ws' _ _ _ ht => Contract.keeps_done ⟨ws', orgId, counted, ht⟩

theorem goesOn_remove (userId : Text) (h : Here org i [] orgId counted s) :
    GoesOn org i (ask (.remove orgId userId counted)) (fun _ => Written org i) s :=
  goesOn_write (.remove orgId userId) h (fun _ hv => nomatch hv)
    (fun _ _ _ _ hs => change_cases hs) (fun _ _ hok hends => covered_here rfl hok hends)
    fun ws' _ _ _ ht => Contract.keeps_done ⟨ws', orgId, counted, ht⟩

theorem goesOn_upsert {userId : Text} {create : OrgRole} {update : Option OrgRole}
    {next : OrgRole → Request ρ} (h : Here org i ws orgId counted s)
    (hws : ∀ v ∈ ws, .inl (orgId, userId) ≠ v.locks)
    (hnext : ∀ role t, Written org i t → GoesOn org i (next role) Q t) :
    GoesOn org i (.exec (.upsert orgId userId create update counted) next) Q s := by
  refine goesOn_write (.upsert orgId userId create update) h hws ?_
    (fun _ _ hok hends => covered_here rfl hok hends)
    fun ws' role t _ ht => hnext role t ⟨ws', orgId, counted, ht⟩
  intro now t u a hs
  rw [sem] at hs
  split at hs
  · cases hs
  case isFalse hlock =>
    exact .inr ⟨Bool.eq_false_iff.mpr hlock, (Prod.mk.inj (Option.some.inj hs)).1.symm⟩

theorem status_ends_nothing (id : Text) (status : InvitationStatus) (t : Tables) :
    (Write.setStatus id status).endsOwner t org = false := by
  refine Bool.eq_false_iff.mpr fun h => ?_
  obtain ⟨m, -, hm⟩ := List.any_eq_true.mp h
  rw [Bool.and_eq_true] at hm
  exact nomatch (takes_iff.mp hm.2).2.1

/-! ## The operations -/

theorem goesOn_transact {change : Request Bool} {reply : Reply}
    (h : Here org i ws orgId counted s)
    (hchange : ∀ t, Here org i [] orgId counted t →
      GoesOn org i change (fun _ => Written org i) t) :
    GoesOn org i (transact change reply) (fun _ _ => True) s := by
  refine goesOn_begin h fun t ht => Contract.keeps_bind (p := change) ?_
  refine (hchange t ht).mono fun found u hu => ?_
  obtain ⟨ws', o, c, hu⟩ := hu
  cases found with
  | true => exact goesOn_commit hu fun t _ => goesOn_done
  | false => exact goesOn_rollback hu fun t _ => goesOn_done

theorem goesOn_assertNotLastOwner {action : String} {act : Option Count → Request Reply}
    (h : Here org i ws orgId none s)
    (hact : ∀ counted t, Here org i ws orgId counted t →
      GoesOn org i (act counted) (fun _ _ => True) t) :
    GoesOn org i (assertNotLastOwner orgId action act) (fun _ _ => True) s := by
  refine goesOn_countOwners h fun c t ht => ?_
  exact goesOn_ite (fun _ => goesOn_done) fun _ => hact (some c) t ht

theorem goesOn_adminAssertNotLastOwner {role : OrgRole} {action : String}
    {act : Option Count → Request Reply} (h : Here org i ws orgId none s)
    (hact : ∀ counted t, Here org i ws orgId counted t →
      GoesOn org i (act counted) (fun _ _ => True) t) :
    GoesOn org i (adminAssertNotLastOwner orgId role action act) (fun _ _ => True) s := by
  refine goesOn_ite (fun _ => hact none s h) fun _ => ?_
  refine goesOn_countOwners h fun c t ht => ?_
  exact goesOn_ite (fun _ => goesOn_done) fun _ => hact (some c) t ht

theorem goesOn_membership {userId : Text} {next : Option OrgRole → Request ρ}
    (h : Here org i ws orgId counted s)
    (hnext : ∀ role t, Here org i ws orgId counted t → GoesOn org i (next role) Q t) :
    GoesOn org i (.exec (.membership orgId userId) next) Q s :=
  goesOn_read h (fun _ _ _ _ hs => (Prod.mk.inj (Option.some.inj hs)).1.symm) hnext

theorem goesOn_updateMemberRole (targetUserId : Text) (newRole actorRole : OrgRole)
    (h : Here org i ws orgId none s) :
    GoesOn org i (updateMemberRole orgId targetUserId newRole actorRole) (fun _ _ => True) s := by
  refine goesOn_membership h fun target t ht => ?_
  have hupdate : ∀ counted u, Here org i ws orgId counted u →
      GoesOn org i (transact (ask (.setRole orgId targetUserId newRole counted))
        (.role orgId targetUserId newRole)) (fun _ _ => True) u := fun counted u hu =>
    goesOn_transact hu fun v hv => goesOn_setRole targetUserId newRole hv
  cases target with
  | none => exact goesOn_done
  | some role =>
    refine goesOn_ite (fun _ => goesOn_done) fun _ => ?_
    refine goesOn_ite (fun _ => goesOn_done) fun _ => ?_
    exact goesOn_ite (fun _ => goesOn_assertNotLastOwner ht hupdate) fun _ => hupdate none t ht

theorem goesOn_removeMember (targetUserId : Text) (actorRole : OrgRole)
    (h : Here org i ws orgId none s) :
    GoesOn org i (removeMember orgId targetUserId actorRole) (fun _ _ => True) s := by
  refine goesOn_membership h fun target t ht => ?_
  have hremove : ∀ counted u, Here org i ws orgId counted u →
      GoesOn org i (transact (ask (.remove orgId targetUserId counted))
        (.removed orgId targetUserId)) (fun _ _ => True) u := fun counted u hu =>
    goesOn_transact hu fun v hv => goesOn_remove targetUserId hv
  cases target with
  | none => exact goesOn_done
  | some role =>
    refine goesOn_ite (fun _ => goesOn_done) fun _ => ?_
    exact goesOn_ite (fun _ => goesOn_assertNotLastOwner ht hremove) fun _ => hremove none t ht

theorem goesOn_adminAddMember (userId : Text) (role : OrgRole) (h : Here org i ws orgId none s) :
    GoesOn org i (adminAddMember orgId userId role) (fun _ _ => True) s := by
  refine goesOn_read h (fun _ _ _ _ hs => (Prod.mk.inj (Option.some.inj hs)).1.symm)
    fun found t ht => ?_
  refine goesOn_read ht (fun _ _ _ _ hs => (Prod.mk.inj (Option.some.inj hs)).1.symm)
    fun user t ht => ?_
  refine goesOn_ite (fun _ => goesOn_done) fun _ => ?_
  refine goesOn_ite (fun _ => goesOn_done) fun _ => ?_
  refine goesOn_begin ht fun t ht => goesOn_membership ht fun existing t ht => ?_
  have hupsert : ∀ counted u, Here org i [] orgId counted u →
      GoesOn org i (.exec (.upsert orgId userId role (some role) counted) _)
        (fun _ _ => True) u := fun counted u hu =>
    goesOn_upsert hu (fun _ hv => nomatch hv) fun membership v hv => by
      obtain ⟨ws', o, c, hv⟩ := hv
      exact goesOn_commit hv fun t _ => goesOn_done
  refine goesOn_ite (fun _ => ?_) fun _ => hupsert none t ht
  refine goesOn_countOwners ht fun c u hu => ?_
  refine goesOn_ite (fun _ => goesOn_rollback hu fun _ _ => goesOn_done) fun _ => ?_
  exact hupsert (some c) u hu

theorem goesOn_adminRemoveMember (userId : Text) (h : Here org i ws orgId none s) :
    GoesOn org i (adminRemoveMember orgId userId) (fun _ _ => True) s := by
  refine goesOn_membership h fun membership t ht => ?_
  cases membership with
  | none => exact goesOn_done
  | some role =>
    exact goesOn_adminAssertNotLastOwner ht fun counted u hu =>
      goesOn_transact hu fun v hv => goesOn_remove userId hv

theorem goesOn_adminUpdateMemberRole (userId : Text) (newRole : OrgRole)
    (h : Here org i ws orgId none s) :
    GoesOn org i (adminUpdateMemberRole orgId userId newRole) (fun _ _ => True) s := by
  refine goesOn_membership h fun membership t ht => ?_
  have hupdate : ∀ counted u, Here org i ws orgId counted u →
      GoesOn org i (transact (ask (.setRole orgId userId newRole counted))
        (.role orgId userId newRole)) (fun _ _ => True) u := fun counted u hu =>
    goesOn_transact hu fun v hv => goesOn_setRole userId newRole hv
  cases membership with
  | none => exact goesOn_done
  | some role =>
    exact goesOn_ite (fun _ => goesOn_adminAssertNotLastOwner ht hupdate) fun _ => hupdate none t ht

/-- The statements on an invitation. -/
theorem goesOn_claim {id : Text} {next : Nat → Request ρ} (h : Here org i [] orgId none s)
    (hnext : ∀ ws' claimed t, (∀ v ∈ ws', v.locks = .inr id) → Here org i ws' orgId none t →
      GoesOn org i (next claimed) Q t) :
    GoesOn org i (.exec (.claim id) next) Q s := by
  refine goesOn_write (.setStatus id .accepted) h (fun _ hv => nomatch hv) ?_
    (fun _ t _ hends => nomatch (status_ends_nothing id .accepted t.committed).symm.trans hends)
    fun ws' claimed t hws' ht => hnext ws' claimed t ?_ ht
  · intro now t u a hs
    rw [sem] at hs
    split at hs
    · cases hs
    case isFalse hlock =>
      split at hs
      · exact .inr ⟨Bool.eq_false_iff.mpr hlock, (Prod.mk.inj (Option.some.inj hs)).1.symm⟩
      · exact .inl (Prod.mk.inj (Option.some.inj hs)).1.symm
  · rcases hws' with rfl | rfl
    · exact fun _ hv => nomatch hv
    · intro v hv
      obtain rfl := List.mem_singleton.mp hv
      rfl

theorem goesOn_expire {id : Text} {next : Unit → Request ρ} (h : Here org i [] orgId none s)
    (hnext : ∀ t, Written org i t → GoesOn org i (next ()) Q t) :
    GoesOn org i (.exec (.expire id) next) Q s := by
  refine goesOn_write (.setStatus id .expired) h (fun _ hv => nomatch hv) ?_
    (fun _ t _ hends => nomatch (status_ends_nothing id .expired t.committed).symm.trans hends)
    fun ws' _ t _ ht => hnext t ⟨ws', orgId, none, ht⟩
  intro now t u a hs
  rw [sem] at hs
  split at hs
  · cases hs
  case isFalse hlock =>
    exact .inr ⟨Bool.eq_false_iff.mpr hlock, (Prod.mk.inj (Option.some.inj hs)).1.symm⟩

theorem goesOn_accept [Links] (token userId : Text) (h : ∀ orgId, Here org i ws orgId none s) :
    GoesOn org i (accept token userId) (fun _ _ => True) s := by
  refine Contract.keeps_read (H := fun t => ∀ orgId, Here org i ws orgId none t)
    (fun s t hr hinv hs orgId => here_stable s t hr hinv (hs orgId)) h ?_
    fun _ invitation t _ _ ht => ?_
  · intro now t u a hs
    exact (Prod.mk.inj (Option.some.inj hs)).1.symm
  cases invitation with
  | none => exact goesOn_done
  | some invite =>
    refine goesOn_ite (fun _ => goesOn_done) fun _ => ?_
    refine goesOn_read (ht invite.orgId)
      (fun _ _ _ _ hs => (Prod.mk.inj (Option.some.inj hs)).1.symm) fun now t ht => ?_
    refine goesOn_ite (fun _ => ?_) fun _ => ?_
    · refine goesOn_begin ht fun t ht => goesOn_expire ht fun t ht => ?_
      obtain ⟨ws', o, c, ht⟩ := ht
      exact goesOn_commit ht fun t _ => goesOn_done
    · refine goesOn_read ht (fun _ _ _ _ hs => (Prod.mk.inj (Option.some.inj hs)).1.symm)
        fun user t ht => ?_
      refine goesOn_ite (fun _ => goesOn_done) fun _ => ?_
      refine goesOn_begin ht fun t ht => goesOn_claim ht fun ws' claimed t hws' ht => ?_
      refine goesOn_ite (fun _ => goesOn_rollback ht fun _ _ => goesOn_done) fun _ => ?_
      refine goesOn_upsert ht (fun v hv => ?_) fun membership t ht => ?_
      · rw [hws' v hv]
        exact Sum.inl_ne_inr
      · obtain ⟨ws'', o, c, ht⟩ := ht
        exact goesOn_commit ht fun t _ => goesOn_done

theorem goesOn_program [Links] (call : Call) (org : Text) (i : Nat) (s : Db) :
    GoesOn org i call.program (fun _ _ => True) s := by
  have h : ∀ orgId, Here org i (s.own i) orgId none s := fun _ => ⟨rfl, fun _ _ hc => nomatch hc⟩
  cases call with
  | updateMemberRole orgId targetUserId newRole actorRole =>
    exact goesOn_updateMemberRole targetUserId newRole actorRole (h orgId)
  | removeMember orgId targetUserId actorRole =>
    exact goesOn_removeMember targetUserId actorRole (h orgId)
  | adminAddMember orgId userId role => exact goesOn_adminAddMember userId role (h orgId)
  | adminRemoveMember orgId userId => exact goesOn_adminRemoveMember userId (h orgId)
  | adminUpdateMemberRole orgId userId newRole =>
    exact goesOn_adminUpdateMemberRole userId newRole (h orgId)
  | accept token userId => exact goesOn_accept token userId h

end

theorem owned_start {org : Text} {t : Tables} (h : t.OneEach) (howner : t.HasOwner org) :
    Owned org ⟨t, []⟩ where
  oneEach := h
  rows := List.Pairwise.nil
  spare := pos_of_hasOwner howner

/-- In every run in which the operations that take an OWNER have counted enough of them, the
organization keeps one. -/
theorem owner_kept [Links] (org : Text) {t : Tables} (h : t.OneEach) (howner : t.HasOwner org)
    {actions : List (Action Nat Call)}
    (hcounted : (Pool.start (⟨t, []⟩ : Db)).Meets sem Call.program (Counted org) actions) :
    ((Pool.start (⟨t, []⟩ : Db)).run sem Call.program actions).store.committed.HasOwner org :=
  hasOwner_of_pos (Nat.lt_of_le_of_lt (Nat.zero_le _)
    (Contract.inv_run (c := contract org) (fun call i s _ => goesOn_program call org i s)
      (owned_start h howner) hcounted).spare)

/-! ## Runs of a small organization -/

/-- A token is its own hash, and an address canonical. -/
@[reducible] def plainLinks : Links where
  hashLinkToken := id
  normalizeEmail := id

def lab : Text := "lab".toList

/-- Alice and Bob own the laboratory. -/
def twoOwners : Tables where
  orgIds := [lab]
  users := []
  invitations := []
  memberships := [⟨lab, "alice".toList, .owner⟩, ⟨lab, "bob".toList, .owner⟩]

def turns (i n : Nat) : List (Action Nat Call) := List.replicate n (.turn i 0)

/-- Bob removes Alice, and then himself. -/
def oneAfterTheOther : List (Action Nat Call) :=
  [.call (.removeMember lab "alice".toList .owner)] ++ turns 0 5 ++
    [.call (.removeMember lab "bob".toList .owner)] ++ turns 1 5

/-- They remove each other, and both count before either deletes. -/
def eachOther : List (Action Nat Call) :=
  [.call (.removeMember lab "alice".toList .owner), .call (.removeMember lab "bob".toList .owner)] ++
    turns 0 2 ++ turns 1 2 ++ turns 0 3 ++ turns 1 3

theorem owner_kept_oneAfterTheOther :
    ((Pool.start (⟨twoOwners, []⟩ : Db)).run sem (@Call.program plainLinks)
      oneAfterTheOther).store.committed.HasOwner lab :=
  @owner_kept plainLinks lab twoOwners (by decide) (by decide) oneAfterTheOther
    (by decide +kernel)

/-- Nobody owns the laboratory in the end. -/
theorem owner_lost :
    ¬ ∀ (_links : Links) (org : Text) (t : Tables) (actions : List (Action Nat Call)),
      t.OneEach → t.HasOwner org →
        ((Pool.start (⟨t, []⟩ : Db)).run sem Call.program actions).store.committed.HasOwner org := by
  intro h
  have howner := h plainLinks lab twoOwners eachOther (by decide) (by decide)
  revert howner
  decide +kernel

end CircuitForge.Members
