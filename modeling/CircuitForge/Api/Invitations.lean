/-
Invitations: `InvitationsService` of `apps/api/src/invitations/invitations.service.ts`, for one
organization and one invited address.

There is one row for the address.  `create` writes it anew with a fresh token, `revoke` and
`accept` read it first and write it later.  The calls in flight take turns, statement by
statement; a transaction holds the row from its first write until it commits, so it is one
statement.  What has happened to the row is logged, the latest event first.
-/
import CircuitForge.Api.Members
import CircuitForge.Js.Map

namespace CircuitForge.Invitations

open Js Requests
open Members (OrgRole InvitationStatus OrgInvitation User Links)

/-- `INVITE_TTL_MS`. -/
def inviteTtlMs : Nat := 7 * 24 * 60 * 60 * 1000

deriving instance DecidableEq for OrgInvitation

/-- An accept that has committed: the hash of its token, the role of the membership if it has
created one, and the time of its claim. -/
structure Accept where
  tokenHash : Text
  userId : Text
  granted : Option OrgRole
  acceptedAt : Nat
  deriving DecidableEq

inductive Event where
  | created (invite : OrgInvitation)
  | accepted (a : Accept)
  | revoked
  | expired
  deriving DecidableEq

/-- One organization and one address, with its row. -/
structure Db where
  orgId : Text
  email : Text
  users : List User
  members : Map Text OrgRole := []
  invitation : Option OrgInvitation := none
  clock : Nat := 0
  log : List Event := []

/-- The hashes of the tokens that were issued. -/
def hashes (log : List Event) : List Text :=
  log.filterMap fun e => match e with
    | .created invite => some invite.tokenHash
    | _ => none

/-! ## The statements -/

inductive Stmt where
  /-- `Date.now()`. -/
  | now
  /-- The account of the invited address. -/
  | invitedUser
  | membership (userId : Text)
  /-- The transaction of `create`. -/
  | upsert (role : OrgRole) (expiresAt : Nat)
  | findById (orgId id : Text)
  /-- The transaction of `revoke`. -/
  | revoke (id : Text)
  | findByToken (tokenHash : Text)
  /-- The `update` of an invitation that was read as expired. -/
  | expire (id : Text)
  | userById (id : Text)
  /-- The transaction of `accept`, with the row that was read under the hash of the token. -/
  | claim (invite : OrgInvitation) (tokenHash userId : Text)

/-- What the transaction of `accept` ends with. -/
inductive Claimed where
  | failed
  | lost
  | member (role : OrgRole)

abbrev Answer : Stmt → Type
  | .now => Nat
  | .invitedUser => Option User
  | .membership _ => Option OrgRole
  | .upsert _ _ => Option OrgInvitation
  | .findById _ _ => Option OrgInvitation
  | .revoke _ => Bool
  | .findByToken _ => Option OrgInvitation
  | .expire _ => Unit
  | .userById _ => Option User
  | .claim _ _ _ => Claimed

/-- What the outside decides: the time that passes, whether a write fails, the random token of a
`create` and the id of a new row. -/
structure Turn where
  elapsed : Nat := 0
  fails : Bool := false
  token : Text := []
  rowId : Text := []

/-- The row with an id gets a status. -/
def Db.mark (s : Db) (id : Text) (status : InvitationStatus) (event : Event) : Db :=
  match s.invitation with
  | some row =>
    if row.id = id then
      { s with invitation := some { row with status }, log := event :: s.log }
    else s
  | none => s

/-- `upsert` of the row of the address. -/
def Db.upsert (s : Db) (invite : OrgInvitation) : Db :=
  { s with invitation := some invite, log := .created invite :: s.log }

/-- The claim of a pending row, and the membership that is there or created. -/
def Db.accept (s : Db) (row : OrgInvitation) (role : OrgRole) (tokenHash userId : Text) : Db :=
  let member := s.members.get? userId
  { s with
    invitation := some { row with status := .accepted }
    members := if member.isSome then s.members else s.members.set userId role
    log := .accepted
      { tokenHash
        userId
        granted := if member.isSome then none else some role
        acceptedAt := s.clock } :: s.log }

section

variable [Links]

open Members.Links

/-- The clock moves on, and the statement takes effect.  A random token was not issued before. -/
def sem : Semantics Turn Stmt Answer Db
  | turn, _, st, s =>
    let s := { s with clock := s.clock + turn.elapsed }
    match st with
    | .now => some (s, s.clock)
    | .invitedUser => some (s, s.users.find? (·.email = s.email))
    | .membership userId => some (s, s.members.get? userId)
    | .upsert role expiresAt =>
      let tokenHash := hashLinkToken turn.token
      if tokenHash ∈ hashes s.log then none
      else if turn.fails then some (s, none)
      else
        let invite : OrgInvitation :=
          { id := (s.invitation.map OrgInvitation.id).getD turn.rowId
            orgId := s.orgId
            email := s.email
            role
            tokenHash
            status := .pending
            expiresAt }
        some (s.upsert invite, some invite)
    | .findById orgId id => some (s, s.invitation.filter fun row => row.id = id ∧ row.orgId = orgId)
    | .revoke id =>
      if turn.fails then some (s, false)
      else some (s.mark id .revoked .revoked, s.invitation.any (·.id = id))
    | .findByToken tokenHash => some (s, s.invitation.filter (·.tokenHash = tokenHash))
    | .expire id => if turn.fails then some (s, ()) else some (s.mark id .expired .expired, ())
    | .userById id => some (s, s.users.find? (·.id = id))
    | .claim invite tokenHash userId =>
      if turn.fails then some (s, .failed)
      else
        match s.invitation.filter fun row => row.id = invite.id ∧ row.status = .pending with
        | some row =>
          some (s.accept row invite.role tokenHash userId,
            .member ((s.members.get? userId).getD invite.role))
        | none => some (s, .lost)

end

/-! ## The calls -/

abbrev Request : Type → Type := Prog Stmt Answer

inductive Reply where
  | invited (invite : OrgInvitation)
  | revoked
  | member (role : OrgRole)
  | notFound (message : String)
  | badRequest (message : String)
  | forbidden (message : String)
  | conflict (message : String)
  | failed

def ask (st : Stmt) : Request (Answer st) := Prog.stmt st

def issue (role : OrgRole) : Request Reply := do
  let now ← ask .now
  match ← ask (.upsert role (now + inviteTtlMs)) with
  | some invite => pure (.invited invite)
  | none => pure .failed

/-- `create`, up to the mail. -/
def create (actorRole role : OrgRole) : Request Reply :=
  if role = .owner ∧ actorRole ≠ .owner then
    pure (.forbidden "Only an owner can invite someone as an owner.")
  else do
    match ← ask .invitedUser with
    | some user =>
      if (← ask (.membership user.id)).isSome then
        pure (.conflict "That email is already a member of this organization.")
      else issue role
    | none => issue role

def revoke (orgId invitationId : Text) : Request Reply := do
  match ← ask (.findById orgId invitationId) with
  | none => pure (.notFound "Invitation not found")
  | some invite =>
    if invite.status ≠ .pending then
      pure (.badRequest "Only a pending invitation can be revoked.")
    else do
      if ← ask (.revoke invite.id) then pure .revoked else pure .failed

section

variable [Links]

open Members.Links

def accept (token userId : Text) : Request Reply := do
  match ← ask (.findByToken (hashLinkToken token)) with
  | none => pure (.notFound "Invitation not found")
  | some invite =>
    if invite.status ≠ .pending then pure (.badRequest "This invitation is no longer valid.")
    else do
      let now ← ask .now
      if invite.expiresAt < now then do
        ask (.expire invite.id)
        pure (.badRequest "This invitation has expired.")
      else do
        let user ← ask (.userById userId)
        if (user.map fun u => normalizeEmail u.email) ≠ some invite.email then
          pure (.forbidden "This invitation was sent to a different email address.")
        else do
          match ← ask (.claim invite (hashLinkToken token) userId) with
          | .member role => pure (.member role)
          | .lost => pure (.badRequest "This invitation is no longer valid.")
          | .failed => pure .failed

inductive Call where
  | create (actorRole role : OrgRole)
  | revoke (orgId invitationId : Text)
  | accept (token userId : Text)

def Call.program : Call → Request Reply
  | .create actorRole role => Invitations.create actorRole role
  | .revoke orgId invitationId => Invitations.revoke orgId invitationId
  | .accept token userId => Invitations.accept token userId

end

/-! ## What atomic calls would do -/

/-- Every accept claims the row that the last `create` has written, with its token, its role and
before it expires; only a `create` follows an accept; no token from before a revoke is accepted
after it. -/
structure Atomic (log : List Event) : Prop where
  accepted : ∀ a past, .accepted a :: past <:+ log → ∃ invite rest,
    past = .created invite :: rest ∧ a.tokenHash = invite.tokenHash ∧
      a.acceptedAt ≤ invite.expiresAt ∧ ∀ role ∈ a.granted, role = invite.role
  kept : ∀ e a past, e :: .accepted a :: past <:+ log → ∃ invite, e = .created invite
  revoked : ∀ a mid past, .accepted a :: (mid ++ .revoked :: past) <:+ log →
    a.tokenHash ∉ hashes past

/-- A claim of a pending row finds the token it was read under, and the row is not expired by
then; a revoke or an expiry finds no row that was accepted since it was read. -/
def Stmt.Finds (now : Nat) (row : OrgInvitation) : Stmt → Prop
  | .claim invite tokenHash _ => row.id = invite.id → row.status = .pending →
    row.tokenHash = tokenHash ∧ now ≤ row.expiresAt
  | .revoke id => row.id = id → row.status ≠ .accepted
  | .expire id => row.id = id → row.status ≠ .accepted
  | _ => True

instance (now : Nat) (row : OrgInvitation) : ∀ st, Decidable (Stmt.Finds now row st)
  | .claim _ _ _ => inferInstanceAs (Decidable (_ → _ → _ ∧ _))
  | .revoke _ => inferInstanceAs (Decidable (_ → _))
  | .expire _ => inferInstanceAs (Decidable (_ → _))
  | .now => isTrue trivial
  | .invitedUser => isTrue trivial
  | .membership _ => isTrue trivial
  | .upsert _ _ => isTrue trivial
  | .findById _ _ => isTrue trivial
  | .findByToken _ => isTrue trivial
  | .userById _ => isTrue trivial

/-- The condition on a statement that does not fail. -/
def Undisturbed (turn : Turn) (_i : Nat) (st : Stmt) (s : Db) : Prop :=
  turn.fails = false → ∀ row ∈ s.invitation, st.Finds (s.clock + turn.elapsed) row

instance (turn : Turn) (i : Nat) (st : Stmt) (s : Db) : Decidable (Undisturbed turn i st s) :=
  inferInstanceAs (Decidable (_ → ∀ row ∈ s.invitation, _))

/-! ## The log -/

/-- The row that the events have left. -/
def rowOf : List Event → Option OrgInvitation
  | [] => none
  | .created invite :: _ => some { invite with status := .pending }
  | .accepted _ :: past => (rowOf past).map ({ · with status := .accepted })
  | .revoked :: past => (rowOf past).map ({ · with status := .revoked })
  | .expired :: past => (rowOf past).map ({ · with status := .expired })

/-- What may follow on the events so far. -/
def Follows (past : List Event) : Event → Prop
  | .created invite => invite.tokenHash ∉ hashes past
  | .accepted a => ∃ invite rest, past = .created invite :: rest ∧
      a.tokenHash = invite.tokenHash ∧ a.acceptedAt ≤ invite.expiresAt ∧
      ∀ role ∈ a.granted, role = invite.role
  | .revoked => ∀ a rest, past ≠ .accepted a :: rest
  | .expired => ∀ a rest, past ≠ .accepted a :: rest

def Lawful : List Event → Prop
  | [] => True
  | e :: past => Follows past e ∧ Lawful past

theorem Lawful.of_suffix {log past : List Event} (h : Lawful log) (hs : past <:+ log) :
    Lawful past := by
  obtain ⟨front, rfl⟩ := hs
  induction front with
  | nil => exact h
  | cons e front ih => exact ih h.2

theorem hashes_append (log past : List Event) : hashes (log ++ past) = hashes log ++ hashes past :=
  List.filterMap_append

/-- A lawful log is one of atomic calls. -/
theorem Lawful.atomic {log : List Event} (h : Lawful log) : Atomic log where
  accepted a past hs := (h.of_suffix hs).1
  kept e a past hs := by
    have hfollows : Follows (.accepted a :: past) e := (h.of_suffix hs).1
    cases e with
    | created invite => exact ⟨invite, rfl⟩
    | accepted b =>
      obtain ⟨invite, rest, hpast, -⟩ := hfollows
      cases hpast
    | revoked => exact absurd rfl (hfollows a past)
    | expired => exact absurd rfl (hfollows a past)
  revoked a mid past hs hmem := by
    have hlawful := h.of_suffix hs
    obtain ⟨invite, rest, hpast, htoken, -⟩ := hlawful.1
    -- the claimed row was created after the revoke
    cases mid with
    | nil => cases hpast
    | cons e mid =>
      obtain ⟨rfl, rfl⟩ := List.cons.inj hpast
      have hlater : invite.tokenHash ∉ hashes (mid ++ .revoked :: past) := hlawful.2.1
      rw [hashes_append, ← htoken] at hlater
      exact hlater (List.mem_append_right _ hmem)

/-- A pending row is the one that was created last. -/
theorem rowOf_pending {log : List Event} {row : OrgInvitation} (hrow : rowOf log = some row)
    (hstatus : row.status = .pending) :
    ∃ invite rest, log = .created invite :: rest ∧ row = { invite with status := .pending } := by
  cases log with
  | nil => cases hrow
  | cons e past =>
    cases e with
    | created invite => exact ⟨invite, past, rfl, (Option.some.inj hrow).symm⟩
    | accepted a =>
      obtain ⟨r, -, rfl⟩ := Option.map_eq_some_iff.mp hrow
      cases hstatus
    | revoked =>
      obtain ⟨r, -, rfl⟩ := Option.map_eq_some_iff.mp hrow
      cases hstatus
    | expired =>
      obtain ⟨r, -, rfl⟩ := Option.map_eq_some_iff.mp hrow
      cases hstatus

/-- A row that is not accepted does not follow on an accept. -/
theorem rowOf_ne_accepted {log : List Event} {row : OrgInvitation} (hrow : rowOf log = some row)
    (hstatus : row.status ≠ .accepted) : ∀ a rest, log ≠ .accepted a :: rest := by
  rintro a rest rfl
  obtain ⟨r, -, rfl⟩ := Option.map_eq_some_iff.mp hrow
  exact hstatus rfl

/-- The row was written by a `create`, except for its status. -/
def Issued (log : List Event) (row : OrgInvitation) : Prop :=
  ∃ invite, .created invite ∈ log ∧ invite.tokenHash = row.tokenHash ∧ invite.role = row.role

theorem Issued.suffix {log log' : List Event} {row : OrgInvitation} (h : Issued log row)
    (hs : log <:+ log') : Issued log' row := by
  obtain ⟨invite, hmem, hrow⟩ := h
  exact ⟨invite, hs.subset hmem, hrow⟩

theorem issued_rowOf {log : List Event} {row : OrgInvitation} (h : rowOf log = some row) :
    Issued log row := by
  induction log generalizing row with
  | nil => cases h
  | cons e past ih =>
    have hmark : ∀ status, (rowOf past).map ({ · with status }) = some row →
        Issued (e :: past) row := by
      intro status h
      obtain ⟨r, hr, rfl⟩ := Option.map_eq_some_iff.mp h
      obtain ⟨invite, hmem, htoken, hrole⟩ := ih hr
      exact ⟨invite, List.mem_cons_of_mem _ hmem, htoken, hrole⟩
    cases e with
    | created invite =>
      obtain rfl := Option.some.inj h
      exact ⟨invite, List.mem_cons_self, rfl, rfl⟩
    | accepted a => exact hmark _ h
    | revoked => exact hmark _ h
    | expired => exact hmark _ h

theorem mem_hashes {log : List Event} {invite : OrgInvitation} (h : .created invite ∈ log) :
    invite.tokenHash ∈ hashes log := List.mem_filterMap.mpr ⟨_, h, rfl⟩

/-- A hash is issued once. -/
theorem created_unique {log : List Event} (h : Lawful log) {invite invite' : OrgInvitation}
    (hmem : .created invite ∈ log) (hmem' : .created invite' ∈ log)
    (htoken : invite.tokenHash = invite'.tokenHash) : invite = invite' := by
  induction log with
  | nil => cases hmem
  | cons e past ih =>
    rcases List.mem_cons.mp hmem with rfl | hold <;> rcases List.mem_cons.mp hmem' with hnew | hold'
    · exact (Event.created.inj hnew).symm
    · exact absurd (htoken ▸ mem_hashes hold') h.1
    · subst hnew
      exact absurd (htoken ▸ mem_hashes hold) h.1
    · exact ih h.2 hold hold'

/-! ## Runs -/

/-- The row is what the events have left, and the events are those of atomic calls; the log
grows. -/
def contract : Contract Db where
  inv s := s.invitation = rowOf s.log ∧ Lawful s.log
  rely _ s t := s.log <:+ t.log
  rely_refl _ s := List.suffix_refl s.log
  rely_trans _ _ _ _ := List.IsSuffix.trans

/-- A claim is about a row that was read under the hash of its token. -/
def Stmt.Ready (log : List Event) : Stmt → Prop
  | .claim invite tokenHash _ => Issued log invite ∧ invite.tokenHash = tokenHash
  | _ => True

theorem stable_ready (i : Nat) (st : Stmt) : contract.Stable i fun s => st.Ready s.log := by
  intro s t hrely _ h
  cases st with
  | claim invite tokenHash userId => exact ⟨h.1.suffix hrely, h.2⟩
  | now => trivial
  | invitedUser => trivial
  | membership userId => trivial
  | upsert role expiresAt => trivial
  | findById orgId id => trivial
  | revoke id => trivial
  | findByToken tokenHash => trivial
  | expire id => trivial
  | userById id => trivial

/-- A statement that marks the row of an invitation that is not accepted. -/
theorem inv_mark {s : Db} (h : contract.inv s) {id : Text} {status : InvitationStatus}
    {event : Event} (hrow : rowOf (event :: s.log) = (rowOf s.log).map ({ · with status }))
    (hfollows : (∀ a rest, s.log ≠ .accepted a :: rest) → Follows s.log event)
    (hok : ∀ row ∈ s.invitation, row.id = id → row.status ≠ .accepted) :
    contract.inv (s.mark id status event) ∧ s.log <:+ (s.mark id status event).log := by
  unfold Db.mark
  split
  · rename_i row hsome
    split_ifs with hid
    · have hlog : rowOf s.log = some row := h.1.symm.trans hsome
      refine ⟨⟨?_, hfollows (rowOf_ne_accepted hlog (hok row hsome hid)), h.2⟩,
        List.suffix_cons event s.log⟩
      rw [hrow, hlog, Option.map_some]
    · exact ⟨h, List.suffix_refl _⟩
  · exact ⟨h, List.suffix_refl _⟩

/-- The claim of the row as it was read. -/
theorem inv_accept {s : Db} (h : contract.inv s) {row : OrgInvitation}
    (hrow : s.invitation = some row) (hpending : row.status = .pending) {role : OrgRole}
    {tokenHash userId : Text} (htoken : row.tokenHash = tokenHash)
    (htime : s.clock ≤ row.expiresAt)
    (hrole : ∃ invite, .created invite ∈ s.log ∧ invite.tokenHash = tokenHash ∧ invite.role = role) :
    contract.inv (s.accept row role tokenHash userId) := by
  have hlog : rowOf s.log = some row := h.1.symm.trans hrow
  obtain ⟨invite, rest, hcreated, rfl⟩ := rowOf_pending hlog hpending
  obtain ⟨read, hread, hreadToken, rfl⟩ := hrole
  have hmem : .created invite ∈ s.log := hcreated ▸ List.mem_cons_self
  obtain rfl : read = invite := created_unique h.2 hread hmem (hreadToken.trans htoken.symm)
  refine ⟨?_, ⟨read, rest, hcreated, hreadToken.symm, htime, ?_⟩, h.2⟩
  · show some _ = (rowOf s.log).map _
    rw [hlog, Option.map_some]
  · intro granted hgranted
    split_ifs at hgranted
    · cases hgranted
    · exact (Option.some.inj hgranted).symm

section

variable [Links]

/-- Every statement that meets the condition keeps the row and the log. -/
theorem inv_sem {turn : Turn} {i : Nat} {st : Stmt} {s u : Db} {a : Answer st}
    (h : contract.inv s) (hready : st.Ready s.log) (hok : Undisturbed turn i st s)
    (hs : sem turn i st s = some (u, a)) : contract.inv u ∧ s.log <:+ u.log := by
  have hlater : contract.inv { s with clock := s.clock + turn.elapsed } := h
  have hsame : s.log <:+ ({ s with clock := s.clock + turn.elapsed } : Db).log :=
    List.suffix_refl s.log
  cases st with
  | now => cases hs; exact ⟨hlater, hsame⟩
  | invitedUser => cases hs; exact ⟨hlater, hsame⟩
  | membership userId => cases hs; exact ⟨hlater, hsame⟩
  | findById orgId id => cases hs; exact ⟨hlater, hsame⟩
  | findByToken tokenHash => cases hs; exact ⟨hlater, hsame⟩
  | userById id => cases hs; exact ⟨hlater, hsame⟩
  | upsert role expiresAt =>
    simp only [sem] at hs
    split_ifs at hs with hfresh hfails
    · cases hs
      exact ⟨hlater, hsame⟩
    · cases hs
      exact ⟨⟨rfl, hfresh, h.2⟩, List.suffix_cons _ _⟩
  | revoke id =>
    simp only [sem] at hs
    split_ifs at hs with hfails
    · cases hs
      exact ⟨hlater, hsame⟩
    · cases hs
      exact inv_mark hlater rfl (fun hne => hne) (hok (Bool.eq_false_iff.mpr hfails))
  | expire id =>
    simp only [sem] at hs
    split_ifs at hs with hfails
    · cases hs
      exact ⟨hlater, hsame⟩
    · cases hs
      exact inv_mark hlater rfl (fun hne => hne) (hok (Bool.eq_false_iff.mpr hfails))
  | claim invite tokenHash userId =>
    simp only [sem] at hs
    split_ifs at hs with hfails
    · cases hs
      exact ⟨hlater, hsame⟩
    · split at hs
      · rename_i row hrow
        cases hs
        obtain ⟨hsome, hpending⟩ := Option.filter_eq_some_iff.mp hrow
        obtain ⟨hid, hpending⟩ := of_decide_eq_true hpending
        obtain ⟨⟨read, hread, hreadToken, hrole⟩, htoken⟩ := hready
        obtain ⟨hrowToken, htime⟩ := hok (Bool.eq_false_iff.mpr hfails) row hsome hid hpending
        refine ⟨inv_accept hlater hsome hpending hrowToken htime ?_, List.suffix_cons _ _⟩
        exact ⟨read, hread, hreadToken.trans htoken, hrole⟩
      · cases hs
        exact ⟨hlater, hsame⟩

/-- A call that has succeeded is in the log. -/
def Call.Ended (log : List Event) : Call → Reply → Prop
  | .accept token userId, .member _ => ∃ a, .accepted a ∈ log ∧
      a.tokenHash = Members.Links.hashLinkToken token ∧ a.userId = userId
  | .revoke _ _, .revoked => .revoked ∈ log
  | _, _ => True

theorem Call.Ended.suffix {log log' : List Event} {call : Call} {r : Reply}
    (h : call.Ended log r) (hs : log <:+ log') : call.Ended log' r := by
  cases call with
  | create actorRole role => trivial
  | revoke orgId invitationId =>
    cases r with
    | revoked => exact hs.subset h
    | invited invite => trivial
    | member role => trivial
    | notFound message => trivial
    | badRequest message => trivial
    | forbidden message => trivial
    | conflict message => trivial
    | failed => trivial
  | accept token userId =>
    cases r with
    | member role =>
      obtain ⟨a, hmem, ha⟩ := h
      exact ⟨a, hs.subset hmem, ha⟩
    | invited invite => trivial
    | revoked => trivial
    | notFound message => trivial
    | badRequest message => trivial
    | forbidden message => trivial
    | conflict message => trivial
    | failed => trivial

/-- A program goes on with a statement that it is ready for. -/
theorem keeps_stmt {i : Nat} {st : Stmt} {next : Answer st → Request Reply} {s : Db}
    {Q : Reply → Db → Prop} {H : Db → Prop} (hH : contract.Stable i H) (h : H s)
    (hready : ∀ t, H t → st.Ready t.log)
    (hnext : ∀ t u turn a, contract.inv u → H u → sem turn i st t = some (u, a) →
      contract.Keeps sem Undisturbed i (next a) Q u) :
    contract.Keeps sem Undisturbed i (.exec st next) Q s := by
  refine Contract.keeps_exec hH h fun t hinv ht turn u a hok hs => ?_
  obtain ⟨hu, hlog⟩ := inv_sem hinv (hready t ht) hok hs
  exact ⟨hu, fun _ _ => hlog, hnext t u turn a hu (hH t u hlog hu ht) hs⟩

/-- A program goes on with a statement that is no claim. -/
theorem keeps_plain {i : Nat} {st : Stmt} {next : Answer st → Request Reply} {s : Db}
    {Q : Reply → Db → Prop} (hready : ∀ log, st.Ready log)
    (hnext : ∀ t u turn a, contract.inv u → sem turn i st t = some (u, a) →
      contract.Keeps sem Undisturbed i (next a) Q u) :
    contract.Keeps sem Undisturbed i (.exec st next) Q s :=
  keeps_stmt (H := fun _ => True) (fun _ _ _ _ _ => trivial) trivial (fun t _ => hready t.log)
    fun t u turn a hu _ hs => hnext t u turn a hu hs

theorem keeps_issue (i : Nat) (role : OrgRole) (s : Db) :
    contract.Keeps sem Undisturbed i (issue role) (fun _ _ => True) s := by
  refine keeps_plain (fun _ => trivial) fun _ _ _ now _ _ => ?_
  refine keeps_plain (fun _ => trivial) fun _ _ _ row _ _ => ?_
  cases row <;> trivial

theorem keeps_create (i : Nat) (actorRole role : OrgRole) (s : Db) :
    contract.Keeps sem Undisturbed i (create actorRole role) (fun _ _ => True) s := by
  unfold create
  split_ifs
  · trivial
  · refine keeps_plain (fun _ => trivial) fun _ _ _ user _ _ => ?_
    cases user with
    | none => exact keeps_issue i role _
    | some user =>
      refine keeps_plain (fun _ => trivial) fun _ u _ member _ _ => ?_
      cases member with
      | none => exact keeps_issue i role u
      | some _ => trivial

theorem revoked_mem_log {turn : Turn} {i : Nat} {id : Text} {s u : Db}
    (hs : sem turn i (.revoke id) s = some (u, true)) : .revoked ∈ u.log := by
  simp only [sem] at hs
  split_ifs at hs
  · cases hs
  · obtain ⟨rfl, hany⟩ := Prod.mk.inj (Option.some.inj hs)
    cases hrow : s.invitation with
    | none =>
      rw [hrow] at hany
      cases hany
    | some row =>
      rw [hrow, Option.any_some, decide_eq_true_eq] at hany
      simp only [Db.mark, if_pos hany]
      exact List.mem_cons_self

theorem keeps_revoke (i : Nat) (orgId invitationId : Text) (s : Db) :
    contract.Keeps sem Undisturbed i (revoke orgId invitationId)
      (fun r t => (Call.revoke orgId invitationId).Ended t.log r) s := by
  refine keeps_plain (fun _ => trivial) fun _ _ _ row _ _ => ?_
  cases row with
  | none => trivial
  | some invite =>
    show contract.Keeps sem Undisturbed i (if _ then _ else _) _ _
    split_ifs
    · trivial
    · refine keeps_plain (fun _ => trivial) fun _ _ _ done _ hs => ?_
      cases done with
      | true => exact revoked_mem_log hs
      | false => trivial

theorem accepted_mem_log {turn : Turn} {i : Nat} {invite : OrgInvitation}
    {tokenHash userId : Text} {role : OrgRole} {s u : Db}
    (hs : sem turn i (.claim invite tokenHash userId) s = some (u, .member role)) :
    ∃ a, .accepted a ∈ u.log ∧ a.tokenHash = tokenHash ∧ a.userId = userId := by
  simp only [sem] at hs
  split_ifs at hs
  · cases hs
  · split at hs
    · obtain ⟨rfl, -⟩ := Prod.mk.inj (Option.some.inj hs)
      exact ⟨_, List.mem_cons_self, rfl, rfl⟩
    · cases hs

theorem keeps_accept (i : Nat) (token userId : Text) (s : Db) :
    contract.Keeps sem Undisturbed i (accept token userId)
      (fun r t => (Call.accept token userId).Ended t.log r) s := by
  refine keeps_plain (fun _ => trivial) fun t u turn row hu hs => ?_
  obtain ⟨rfl, rfl⟩ := Prod.mk.inj (Option.some.inj hs)
  cases hrow : t.invitation.filter (·.tokenHash = Members.Links.hashLinkToken token) with
  | none => trivial
  | some invite =>
    obtain ⟨hsome, htoken⟩ := Option.filter_eq_some_iff.mp hrow
    -- from here on the program knows where its snapshot comes from
    have hready : (Stmt.claim invite (Members.Links.hashLinkToken token) userId).Ready t.log :=
      ⟨issued_rowOf (hu.1.symm.trans hsome), of_decide_eq_true htoken⟩
    have hstable := stable_ready i (.claim invite (Members.Links.hashLinkToken token) userId)
    show contract.Keeps sem Undisturbed i (if _ then _ else _) _ _
    split_ifs
    · trivial
    · refine keeps_stmt hstable hready (fun _ _ => trivial) fun _ u _ now hu hready _ => ?_
      show contract.Keeps sem Undisturbed i (if _ then _ else _) _ _
      split_ifs
      · exact keeps_plain (fun _ => trivial) fun _ _ _ _ _ _ => trivial
      · refine keeps_stmt hstable hready (fun _ _ => trivial) fun _ u _ user hu hready _ => ?_
        show contract.Keeps sem Undisturbed i (if _ then _ else _) _ _
        split_ifs
        · trivial
        · refine keeps_stmt hstable hready (fun _ h => h) fun _ u _ claimed _ _ hs => ?_
          cases claimed with
          | failed => trivial
          | lost => trivial
          | member role => exact accepted_mem_log hs

theorem keeps_program (call : Call) (i : Nat) (s : Db) :
    contract.Keeps sem Undisturbed i call.program (fun r t => call.Ended t.log r) s := by
  cases call with
  | create actorRole role => exact keeps_create i actorRole role s
  | revoke orgId invitationId => exact keeps_revoke i orgId invitationId s
  | accept token userId => exact keeps_accept i token userId s

/-- Nothing was created yet. -/
def Db.start (orgId email : Text) (users : List User) (clock : Nat) : Db :=
  { orgId, email, users, clock }

/-- In every run whose statements meet the condition, the calls have the effect of atomic ones,
and a revoke or an accept that has succeeded is among them. -/
theorem invitations_atomic {orgId email : Text} {users : List User} {clock : Nat}
    {actions : List (Action Turn Call)}
    (hok : (Pool.start (Db.start orgId email users clock)).Meets sem Call.program Undisturbed
      actions) :
    let pool : Pool Stmt Answer Db Reply :=
      (Pool.start (Db.start orgId email users clock)).run sem Call.program actions
    Atomic pool.store.log ∧ ∀ (i : Nat) (call : Call) (r : Reply),
      (Action.calls actions)[i]? = some call → pool.programs[i]? = some (.done r) →
        call.Ended pool.store.log r := by
  have hstart : contract.inv (Db.start orgId email users clock) := ⟨rfl, trivial⟩
  have hends := Contract.ends_run (F := fun _ _ => True)
    (Q := fun call _ r s => Call.Ended s.log call r) (fun _ _ _ _ _ _ => trivial)
    (fun _ _ _ _ _ hrely _ h => h.suffix hrely) (fun call i s _ _ => keeps_program call i s)
    hstart (fun _ => trivial) hok
  exact ⟨hends.1.2.atomic, hends.2⟩

end

/-! ## Runs of a small organization -/

/-- A token is its own hash. -/
@[reducible] def plainLinks : Links where
  hashLinkToken := id
  normalizeEmail := id

/-- The invited address, which has an account. -/
def bobsInvitation : Db :=
  Db.start "org".toList "bob@example.org".toList [⟨"bob".toList, "bob@example.org".toList⟩] 0

/-- `n` turns of a program, a second apart. -/
def turns (i n : Nat) : List (Action Turn Call) := List.replicate n (.turn i { elapsed := 1000 })

/-- An invitation from an owner, to its end. -/
def invites (i : Nat) (role : OrgRole) (token : String) : List (Action Turn Call) :=
  .call (.create .owner role) :: turns i 3 ++
    [.turn i { elapsed := 1000, token := token.toList, rowId := "inv".toList }]

def accepts (token : String) : Action Turn Call := .call (.accept token.toList "bob".toList)

/-- The log of a run. -/
def logOf (actions : List (Action Turn Call)) : List Event :=
  ((Pool.start bobsInvitation).run (@sem plainLinks) (@Call.program plainLinks) actions).store.log

/-- An invitation as an admin is read, replaced by one as a member, and accepted. -/
def acceptedStale : List (Action Turn Call) :=
  invites 0 .admin "first" ++ accepts "first" :: turns 1 3 ++ invites 2 .member "second" ++
    turns 1 1

/-- An invitation expires between the check and the claim. -/
def acceptedLate : List (Action Turn Call) :=
  invites 0 .member "first" ++ accepts "first" :: turns 1 3 ++
    [.turn 1 { elapsed := inviteTtlMs }]

/-- A revoke reads the invitation before it is accepted, and writes it after. -/
def revokedAfter : List (Action Turn Call) :=
  invites 0 .member "first" ++ .call (.revoke "org".toList "inv".toList) :: turns 1 1 ++
    accepts "first" :: turns 2 4 ++ turns 1 1

def acceptedInTurn : List (Action Turn Call) :=
  invites 0 .admin "first" ++ invites 1 .member "second" ++ accepts "second" :: turns 2 4

/-- An invitation that is sent again, and accepted with the new token. -/
theorem invitations_atomic_inTurn :
    let pool : Pool Stmt Answer Db Reply :=
      (Pool.start bobsInvitation).run (@sem plainLinks) (@Call.program plainLinks) acceptedInTurn
    Atomic pool.store.log ∧ ∀ (i : Nat) (call : Call) (r : Reply),
      (Action.calls acceptedInTurn)[i]? = some call → pool.programs[i]? = some (.done r) →
        @Call.Ended plainLinks pool.store.log call r :=
  @invitations_atomic plainLinks "org".toList "bob@example.org".toList
    [⟨"bob".toList, "bob@example.org".toList⟩] 0 acceptedInTurn (by decide +kernel)

/-- The row that a `create` of these runs writes. -/
def bobsRow (role : OrgRole) (token : String) (expiresAt : Nat) : OrgInvitation where
  id := "inv".toList
  orgId := "org".toList
  email := "bob@example.org".toList
  role
  tokenHash := token.toList
  status := .pending
  expiresAt

def bobsAccept (role : OrgRole) (acceptedAt : Nat) : Accept :=
  ⟨"first".toList, "bob".toList, some role, acceptedAt⟩

/-- A stale snapshot grants the role of an invitation that was replaced, the time of the claim is
not checked, and a revoke takes back an invitation that was accepted. -/
theorem invitations_interleaved :
    ¬ Atomic (logOf acceptedStale) ∧ ¬ Atomic (logOf acceptedLate) ∧
      ¬ Atomic (logOf revokedAfter) := by
  have hstale : logOf acceptedStale = [.accepted (bobsAccept .admin 12000),
      .created (bobsRow .member "second" 604810000),
      .created (bobsRow .admin "first" 604803000)] := by
    decide +kernel
  have hlate : logOf acceptedLate = [.accepted (bobsAccept .member 604807000),
      .created (bobsRow .member "first" 604803000)] := by
    decide +kernel
  have hrevoked : logOf revokedAfter = [.revoked, .accepted (bobsAccept .member 9000),
      .created (bobsRow .member "first" 604803000)] := by
    decide +kernel
  rw [hstale, hlate, hrevoked]
  refine ⟨fun h => ?_, fun h => ?_, fun h => ?_⟩
  · obtain ⟨invite, rest, hpast, htoken, -⟩ := h.accepted _ _ (List.suffix_refl _)
    cases hpast
    exact absurd htoken (by decide)
  · obtain ⟨invite, rest, hpast, -, htime, -⟩ := h.accepted _ _ (List.suffix_refl _)
    cases hpast
    exact absurd htime (by decide)
  · obtain ⟨invite, hcreated⟩ := h.kept _ _ _ (List.suffix_refl _)
    cases hcreated

end CircuitForge.Invitations
