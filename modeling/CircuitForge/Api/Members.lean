/-
The members of organizations: `apps/api/src/orgs/orgs.service.ts`, the memberships of
`apps/api/src/admin/admin.service.ts`, and accepting an invitation from
`apps/api/src/invitations/invitations.service.ts`.
-/
import CircuitForge.Js.Requests
import CircuitForge.Js.Text
import CircuitForge.Js.Transactions

namespace CircuitForge.Members

open Js Requests Transactions

inductive OrgRole where
  | owner
  | admin
  | member
deriving DecidableEq

structure OrgMembership where
  orgId : Text
  userId : Text
  role : OrgRole

def OrgMembership.key (m : OrgMembership) : Text × Text := (m.orgId, m.userId)

inductive InvitationStatus where
  | pending
  | accepted
  | expired
  | revoked
deriving DecidableEq

structure OrgInvitation where
  id : Text
  orgId : Text
  email : Text
  role : OrgRole
  tokenHash : Text
  status : InvitationStatus
  expiresAt : Nat

structure User where
  id : Text
  email : Text

/-- The hash of a link token, and the canonical form of an address. -/
class Links where
  hashLinkToken : Text → Text
  normalizeEmail : Text → Text

/-! ## The tables -/

/-- The tables; `ended` is the log of the organizations that lost an OWNER. -/
structure Tables where
  orgIds : List Text
  users : List User
  invitations : List OrgInvitation
  memberships : List OrgMembership
  ended : List Text := []

def OrgMembership.ownerOf (m : OrgMembership) (orgId : Text) : Bool :=
  m.orgId = orgId && m.role = .owner

def Tables.owners (t : Tables) (orgId : Text) : Nat :=
  t.memberships.countP (·.ownerOf orgId)

def Tables.roleOf (t : Tables) (orgId userId : Text) : Option OrgRole :=
  (t.memberships.find? (·.key = (orgId, userId))).map OrgMembership.role

/-- What a transaction has written. -/
inductive Write where
  | setRole (orgId userId : Text) (role : OrgRole)
  | remove (orgId userId : Text)
  /-- The role of a new member, and of one that is there. -/
  | upsert (orgId userId : Text) (create : OrgRole) (update : Option OrgRole)
  | setStatus (invitationId : Text) (status : InvitationStatus)

/-- The row a write locks. -/
def Write.locks : Write → Text × Text ⊕ Text
  | .setRole orgId userId _ => .inl (orgId, userId)
  | .remove orgId userId => .inl (orgId, userId)
  | .upsert orgId userId _ _ => .inl (orgId, userId)
  | .setStatus invitationId _ => .inr invitationId

/-- The write leaves an OWNER one. -/
def Write.keepsOwner : Write → Bool
  | .setRole _ _ role => role = .owner
  | .remove _ _ => false
  | .upsert _ _ _ update => update.all (· = .owner)
  | .setStatus _ _ => true

/-- The write takes OWNER from the member. -/
def Write.takes (w : Write) (m : OrgMembership) : Bool :=
  m.role = .owner && w.locks = .inl m.key && !w.keepsOwner

def Write.endsOwner (w : Write) (t : Tables) (orgId : Text) : Bool :=
  t.memberships.any fun m => m.orgId = orgId && w.takes m

def Write.memberships : Write → List OrgMembership → List OrgMembership
  | .setRole orgId userId role, rows =>
    rows.map fun m => if m.key = (orgId, userId) then { m with role } else m
  | .remove orgId userId, rows => rows.filter (·.key ≠ (orgId, userId))
  | .upsert orgId userId create update, rows =>
    if (rows.any (·.key = (orgId, userId))) = true then
      rows.map fun m =>
        if m.key = (orgId, userId) then { m with role := update.getD m.role } else m
    else rows ++ [{ orgId, userId, role := create }]
  | .setStatus _ _, rows => rows

def Write.apply (w : Write) (t : Tables) : Tables :=
  { t with
    memberships := w.memberships t.memberships
    invitations := match w with
      | .setStatus id status =>
        t.invitations.map fun v => if v.id = id then { v with status } else v
      | _ => t.invitations
    ended := t.ended ++ (t.memberships.filter w.takes).map OrgMembership.orgId }

abbrev Db : Type := Store Tables Write

def Db.locked (s : Db) (i : Nat) (w : Write) : Bool :=
  s.pending.any fun e => e.1 ≠ i && e.2.locks = w.locks

/-! ## The statements -/

/-- The OWNERs that an operation counted, and how many had been taken by then. -/
structure Count where
  owners : Nat
  ended : Nat

inductive Stmt where
  | now
  | organization (id : Text)
  | user (id : Text)
  | invitationByToken (hash : Text)
  | membership (orgId userId : Text)
  | countOwners (orgId : Text)
  | begin
  /-- What was counted before is no part of the statement. -/
  | setRole (orgId userId : Text) (role : OrgRole) (counted : Option Count)
  | remove (orgId userId : Text) (counted : Option Count)
  | upsert (orgId userId : Text) (create : OrgRole) (update : Option OrgRole)
    (counted : Option Count)
  /-- The `updateMany` of a pending invitation. -/
  | claim (invitationId : Text)
  | expire (invitationId : Text)
  | commit
  | rollback

abbrev Answer : Stmt → Type
  | .now => Nat
  | .organization _ => Bool
  | .user _ => Option User
  | .invitationByToken _ => Option OrgInvitation
  | .membership _ _ => Option OrgRole
  | .countOwners _ => Count
  | .setRole _ _ _ _ => Bool
  | .remove _ _ _ => Bool
  | .upsert _ _ _ _ _ => OrgRole
  | .claim _ => Nat
  | _ => Unit

/-- An update or a deletion of a row; there may be none. -/
def Db.change (s : Db) (i : Nat) (w : Write) (orgId userId : Text) : Option (Db × Bool) :=
  if s.locked i w then none
  else if (s.committed.roleOf orgId userId).isSome then some (s.write i w, true)
  else some (s, false)

/-- What a statement does; the input is the clock.  A write waits while another transaction
has written the row. -/
def sem : Semantics Nat Stmt Answer Db
  | now, _, .now, s => some (s, now)
  | _, _, .organization id, s => some (s, id ∈ s.committed.orgIds)
  | _, _, .user id, s => some (s, s.committed.users.find? (·.id = id))
  | _, _, .invitationByToken hash, s =>
    some (s, s.committed.invitations.find? (·.tokenHash = hash))
  | _, _, .membership orgId userId, s => some (s, s.committed.roleOf orgId userId)
  | _, _, .countOwners orgId, s =>
    some (s, ⟨s.committed.owners orgId, s.committed.ended.count orgId⟩)
  | _, i, .begin, s => some (s.rollback i, ())
  | _, i, .setRole orgId userId role _, s => s.change i (.setRole orgId userId role) orgId userId
  | _, i, .remove orgId userId _, s => s.change i (.remove orgId userId) orgId userId
  | _, i, .upsert orgId userId create update _, s =>
    let w := Write.upsert orgId userId create update
    if s.locked i w then none
    else some (s.write i w, (s.committed.roleOf orgId userId).elim create update.getD)
  | _, i, .claim id, s =>
    let w := Write.setStatus id .accepted
    if s.locked i w then none
    else if s.committed.invitations.any fun v => v.id = id && v.status = .pending then
      some (s.write i w, 1)
    else some (s, 0)
  | _, i, .expire id, s =>
    let w := Write.setStatus id .expired
    if s.locked i w then none else some (s.write i w, ())
  | _, i, .commit, s => some (s.commit Write.apply i, ())
  | _, i, .rollback, s => some (s.rollback i, ())

/-! ## The operations -/

abbrev Request : Type → Type := Prog Stmt Answer

inductive Reply where
  | role (orgId userId : Text) (role : OrgRole)
  | removed (orgId userId : Text)
  | notFound (message : String)
  | badRequest (message : String)
  | forbidden (message : String)
  /-- The row of an update or a deletion is gone. -/
  | recordNotFound

def ask (s : Stmt) : Request (Answer s) := Prog.stmt s

/-- A transaction of one update or deletion. -/
def transact (change : Request Bool) (reply : Reply) : Request Reply := do
  ask .begin
  let found ← change
  if found then do
    ask .commit
    pure reply
  else do
    ask .rollback
    pure .recordNotFound

/-- `OrgsService.assertNotLastOwner`, and what follows it. -/
def assertNotLastOwner (orgId : Text) (action : String) (act : Option Count → Request Reply) :
    Request Reply := do
  let counted ← ask (.countOwners orgId)
  if counted.owners ≤ 1 then
    pure (.badRequest ("Cannot " ++ action ++ " the last owner of the organization."))
  else act (some counted)

/-- `OrgsService.updateMemberRole`. -/
def updateMemberRole (orgId targetUserId : Text) (newRole actorRole : OrgRole) : Request Reply := do
  let target ← ask (.membership orgId targetUserId)
  let done := Reply.role orgId targetUserId newRole
  let update := fun counted =>
    transact (ask (.setRole orgId targetUserId newRole counted)) done
  match target with
  | none => pure (.notFound "Membership not found")
  | some role =>
    if (newRole = .owner ∨ role = .owner) ∧ actorRole ≠ .owner then
      pure (.forbidden "Only an owner can grant or revoke the OWNER role.")
    else if role = newRole then pure done
    else if role = .owner ∧ newRole ≠ .owner then
      assertNotLastOwner orgId "demote" update
    else update none

/-- `OrgsService.removeMember`. -/
def removeMember (orgId targetUserId : Text) (actorRole : OrgRole) : Request Reply := do
  let target ← ask (.membership orgId targetUserId)
  let remove := fun counted =>
    transact (ask (.remove orgId targetUserId counted)) (.removed orgId targetUserId)
  match target with
  | none => pure (.notFound "Membership not found")
  | some role =>
    if role = .owner ∧ actorRole ≠ .owner then
      pure (.forbidden "Only an owner can remove an owner.")
    else if role = .owner then
      assertNotLastOwner orgId "remove" remove
    else remove none

/-- `AdminService.addMember`. -/
def adminAddMember (orgId userId : Text) (role : OrgRole) : Request Reply := do
  let org ← ask (.organization orgId)
  let user ← ask (.user userId)
  if org = false then pure (.notFound "Organization not found")
  else if user.isNone then pure (.notFound "User not found")
  else do
    ask .begin
    let existing ← ask (.membership orgId userId)
    let upsert : Option Count → Request Reply := fun counted => do
      let membership ← ask (.upsert orgId userId role (some role) counted)
      ask .commit
      pure (.role orgId userId membership)
    if existing = some .owner ∧ role ≠ .owner then do
      let counted ← ask (.countOwners orgId)
      if counted.owners ≤ 1 then do
        ask .rollback
        pure (.badRequest "Cannot demote the last owner of an organization.")
      else upsert (some counted)
    else upsert none

/-- `AdminService.assertNotLastOwner`, and what follows it. -/
def adminAssertNotLastOwner (orgId : Text) (role : OrgRole) (action : String)
    (act : Option Count → Request Reply) : Request Reply :=
  if role ≠ .owner then act none
  else do
    let counted ← ask (.countOwners orgId)
    if counted.owners ≤ 1 then
      pure (.badRequest ("Cannot " ++ action ++ " the last owner of an organization."))
    else act (some counted)

/-- `AdminService.removeMember`. -/
def adminRemoveMember (orgId userId : Text) : Request Reply := do
  let membership ← ask (.membership orgId userId)
  let remove := fun counted =>
    transact (ask (.remove orgId userId counted)) (.removed orgId userId)
  match membership with
  | none => pure (.notFound "Membership not found")
  | some role => adminAssertNotLastOwner orgId role "remove" remove

/-- `AdminService.updateMemberRole`. -/
def adminUpdateMemberRole (orgId userId : Text) (newRole : OrgRole) : Request Reply := do
  let membership ← ask (.membership orgId userId)
  let update := fun counted =>
    transact (ask (.setRole orgId userId newRole counted)) (.role orgId userId newRole)
  match membership with
  | none => pure (.notFound "Membership not found")
  | some role =>
    if role = .owner ∧ newRole ≠ .owner then
      adminAssertNotLastOwner orgId role "demote" update
    else update none

/-- `InvitationsService.accept`. -/
def accept [Links] (token userId : Text) : Request Reply := do
  match ← ask (.invitationByToken (Links.hashLinkToken token)) with
  | none => pure (.notFound "Invitation not found")
  | some invite =>
    if invite.status ≠ .pending then
      pure (.badRequest "This invitation is no longer valid.")
    else do
      let now ← ask .now
      if invite.expiresAt < now then do
        ask .begin
        ask (.expire invite.id)
        ask .commit
        pure (.badRequest "This invitation has expired.")
      else do
        let user ← ask (.user userId)
        if (user.map fun u => Links.normalizeEmail u.email) ≠ some invite.email then
          pure (.forbidden "This invitation was sent to a different email address.")
        else do
          ask .begin
          let claimed ← ask (.claim invite.id)
          if claimed ≠ 1 then do
            ask .rollback
            pure (.badRequest "This invitation is no longer valid.")
          else do
            let membership ← ask (.upsert invite.orgId userId invite.role none none)
            ask .commit
            pure (.role invite.orgId userId membership)

inductive Call where
  | updateMemberRole (orgId targetUserId : Text) (newRole actorRole : OrgRole)
  | removeMember (orgId targetUserId : Text) (actorRole : OrgRole)
  | adminAddMember (orgId userId : Text) (role : OrgRole)
  | adminRemoveMember (orgId userId : Text)
  | adminUpdateMemberRole (orgId userId : Text) (newRole : OrgRole)
  | accept (token userId : Text)

def Call.program [Links] : Call → Request Reply
  | .updateMemberRole orgId targetUserId newRole actorRole =>
    Members.updateMemberRole orgId targetUserId newRole actorRole
  | .removeMember orgId targetUserId actorRole => Members.removeMember orgId targetUserId actorRole
  | .adminAddMember orgId userId role => Members.adminAddMember orgId userId role
  | .adminRemoveMember orgId userId => Members.adminRemoveMember orgId userId
  | .adminUpdateMemberRole orgId userId newRole => Members.adminUpdateMemberRole orgId userId newRole
  | .accept token userId => Members.accept token userId

end CircuitForge.Members
