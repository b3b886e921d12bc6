/-
Sessions and their refresh tokens: `apps/api/src/auth/auth.service.ts`, and what
`apps/api/src/admin/admin.service.ts` does to the sessions of a user.

A call is a program of database statements, and the statements of calls in flight
interleave in any order.  A statement outside a transaction is one of its own.
-/
import CircuitForge.Js.Requests
import CircuitForge.Js.Text
import CircuitForge.Js.Transactions

namespace CircuitForge.Sessions

open Js Requests Transactions

/-- The columns of `User` that a session depends on. -/
structure User where
  id : Text
  email : Text
  name : Text
  passwordHash : Text
  emailVerified : Bool
  failedLoginCount : Nat
  lockedUntil : Option Nat
  passwordResetTokenHash : Option Text
  passwordResetExpiresAt : Option Nat

/-- A row of `refresh_tokens`. -/
structure RefreshToken where
  jti : Text
  userId : Text
  familyId : Text
  tokenHash : Text
  expiresAt : Nat
  usedAt : Option Nat := none
  revokedAt : Option Nat := none

structure JwtPayload where
  sub : Text
  email : Text
  jti : Option Text

/-- The packages that sign, verify and hash, and the configuration. -/
class Services where
  /-- `signAsync` of a refresh token, at a time and with a lifetime in seconds. -/
  sign : Nat → Nat → JwtPayload → Text
  verify : Nat → Text → Option JwtPayload
  verifyIgnoringExpiration : Text → Option JwtPayload
  hashToken : Text → Text
  hashPassword : Text → Text
  verifyPassword : Text → Text → Bool
  normalizeEmail : Text → Text
  requireEmailVerification : Bool

def maxFailedLogins : Nat := 5

def lockoutMs : Nat := 15 * 60 * 1000

def refreshTtlMs : Nat := 7 * 24 * 60 * 60 * 1000

/-- `INDEFINITE_LOCK`: the end of the year 9999. -/
def indefiniteLock : Nat := 253402300799000

/-! ## The tables -/

/-- The tables, and their history: every token that was issued, the families that were
revoked and the tokens that were exchanged. -/
structure Tables where
  users : List User
  refreshTokens : List RefreshToken
  issued : List RefreshToken := []
  revokedFamilies : List Text := []
  exchanged : List Text := []

/-- What a transaction has written. -/
inductive Write where
  | updateUser (id : Text) (data : User → User)
  | revoke (families jtis : List Text) (now : Nat)
  | deleteExpired (jtis : List Text)
  | use (jti : Text) (now : Nat)
  | create (row : RefreshToken)

/-- The row of the token that is used. -/
def RefreshToken.used (jti : Text) (now : Nat) (r : RefreshToken) : RefreshToken :=
  if r.jti = jti then { r with usedAt := some now } else r

/-- One of the rows that are revoked, unless it is already. -/
def RefreshToken.revoked (jtis : List Text) (now : Nat) (r : RefreshToken) : RefreshToken :=
  if r.jti ∈ jtis ∧ r.revokedAt = none then { r with revokedAt := some now } else r

/-- A write takes effect on the rows that still match. -/
def Write.apply : Write → Tables → Tables
  | .updateUser id data, t =>
    { t with users := t.users.map fun u => if u.id = id then data u else u }
  | .revoke families jtis now, t =>
    { t with
      refreshTokens := t.refreshTokens.map (RefreshToken.revoked jtis now)
      revokedFamilies := t.revokedFamilies ++ families }
  | .deleteExpired jtis, t =>
    { t with refreshTokens := t.refreshTokens.filter (·.jti ∉ jtis) }
  | .use jti now, t =>
    { t with
      refreshTokens := t.refreshTokens.map (RefreshToken.used jti now)
      exchanged := t.exchanged ++ [jti] }
  | .create row, t => { t with refreshTokens := t.refreshTokens ++ [row] }

/-- A bulk write waits for a row that another transaction has claimed. -/
def Write.waitsFor : Write → Write → Bool
  | .revoke _ jtis _, .use jti _ => jti ∈ jtis
  | .deleteExpired jtis, .use jti _ => jti ∈ jtis
  | _, _ => false

def Write.uses (jti : Text) : Write → Bool
  | .use jti' _ => jti' = jti
  | _ => false

def Write.revokes (familyId : Text) : Write → Bool
  | .revoke families _ _ => familyId ∈ families
  | _ => false

abbrev Db : Type := Store Tables Write

/-- Nobody is signed in. -/
def Db.start (users : List User) : Db where
  committed := { users, refreshTokens := [] }

/-- The rows a revocation is about. -/
inductive SessionSet where
  | family (familyId : Text)
  | user (userId : Text)

def SessionSet.has : SessionSet → RefreshToken → Bool
  | .family familyId, r => r.familyId = familyId
  | .user userId, r => r.userId = userId

/-- The families a revocation is about. -/
def SessionSet.families (rows : List RefreshToken) : SessionSet → List Text
  | .family familyId => [familyId]
  | .user userId => (rows.filter (·.userId = userId)).map RefreshToken.familyId

/-! ## The statements -/

inductive Stmt where
  /-- `Date.now()`. -/
  | now
  | userByEmail (email : Text)
  | userById (id : Text)
  | userByResetToken (hash : Text) (now : Nat)
  | tokenByJti (jti : Text)
  | begin
  | updateUser (id : Text) (data : User → User)
  | revoke (which : SessionSet) (now : Nat)
  | deleteExpired (userId : Text) (now : Nat)
  /-- The `updateMany` of a token that is not used. -/
  | claim (jti : Text) (now : Nat)
  /-- `generateTokens`: a token in the family, or in a new one. -/
  | create (user : User) (familyId : Option Text)
  | commit
  | rollback

abbrev Answer : Stmt → Type
  | .now => Nat
  | .userByEmail _ => Option User
  | .userById _ => Option User
  | .userByResetToken _ _ => Option User
  | .tokenByJti _ => Option RefreshToken
  | .revoke _ _ => Nat
  | .claim _ _ => Nat
  | .create _ _ => Text
  | _ => Unit

/-- The clock, and what `randomUUID` gives. -/
structure Input where
  now : Nat
  jti : Text
  familyId : Text

section

variable [Services]

/-- The row that `generateTokens` registers for a refresh token. -/
def newToken (input : Input) (user : User) (familyId : Text) (refreshToken : Text) :
    RefreshToken where
  jti := input.jti
  userId := user.id
  familyId := familyId
  tokenHash := Services.hashToken refreshToken
  expiresAt := input.now + refreshTtlMs

/-- What a statement does.  A bulk write takes the rows it sees, and waits at its commit
for the ones that others have claimed; `randomUUID` gives no id twice. -/
def sem : Semantics Input Stmt Answer Db
  | input, _, .now, s => some (s, input.now)
  | _, _, .userByEmail email, s => some (s, s.committed.users.find? (·.email = email))
  | _, _, .userById id, s => some (s, s.committed.users.find? (·.id = id))
  | _, _, .userByResetToken hash now, s =>
    some (s, s.committed.users.find? fun u =>
      u.passwordResetTokenHash = some hash && u.passwordResetExpiresAt.any (now < ·))
  | _, _, .tokenByJti jti, s => some (s, s.committed.refreshTokens.find? (·.jti = jti))
  | _, i, .begin, s => some (s.rollback i, ())
  | _, i, .updateUser id data, s => some (s.write i (.updateUser id data), ())
  | _, i, .revoke which now, s =>
    let rows := s.committed.refreshTokens.filter fun r => which.has r && r.revokedAt.isNone
    some (s.write i (.revoke (which.families s.committed.refreshTokens)
      (rows.map RefreshToken.jti) now), rows.length)
  | _, i, .deleteExpired userId now, s =>
    let rows := s.committed.refreshTokens.filter fun r => r.userId = userId && r.expiresAt < now
    some (s.write i (.deleteExpired (rows.map RefreshToken.jti)), ())
  | _, i, .claim jti now, s =>
    if s.pending.any fun e => e.1 ≠ i && e.2.uses jti then none
    else if s.committed.refreshTokens.any fun r => r.jti = jti && r.usedAt.isNone then
      some (s.write i (.use jti now), 1)
    else some (s, 0)
  | input, i, .create user familyId, s =>
    if input.jti ∈ s.committed.issued.map RefreshToken.jti then none
    else if familyId = none ∧ input.familyId ∈ s.committed.issued.map RefreshToken.familyId then
      none
    else
      let refreshToken := Services.sign input.now (refreshTtlMs / 1000)
        { sub := user.id, email := user.email, jti := some input.jti }
      let row := newToken input user (familyId.getD input.familyId) refreshToken
      let s := s.write i (.create row)
      some ({ s with committed := { s.committed with issued := s.committed.issued ++ [row] } },
        refreshToken)
  | _, i, .commit, s =>
    if (s.own i).any fun w => s.pending.any fun e => e.1 ≠ i && w.waitsFor e.2 then none
    else some (s.commit Write.apply i, ())
  | _, i, .rollback, s => some (s.rollback i, ())

end

/-! ## The calls -/

abbrev Request : Type → Type := Prog Stmt Answer

structure TokensResponse where
  refreshToken : Text
  user : User

inductive Reply where
  | tokens (response : TokensResponse)
  | done
  | sessionsRevoked (count : Nat)
  | unauthorized (message : String)
  | badRequest (message : String)
  | forbidden (code message : String)
  | notFound (message : String)
  | locked (until_ : Nat)

def ask (s : Stmt) : Request (Answer s) := Prog.stmt s

def invalidToken : Reply := .unauthorized "Invalid refresh token"

def invalidCredentials : Reply := .unauthorized "Invalid credentials"

def updateUser (id : Text) (data : User → User) : Request Unit := do
  ask .begin
  ask (.updateUser id data)
  ask .commit

def revokeSessions (which : SessionSet) : Request Nat := do
  ask .begin
  let now ← ask .now
  let count ← ask (.revoke which now)
  ask .commit
  pure count

/-- `revokeFamily`. -/
def revokeFamily (familyId : Text) : Request Nat := revokeSessions (.family familyId)

section

variable [Services]

open Services

/-- `recordFailedLogin`. -/
def recordFailedLogin (userId : Text) (currentCount : Nat) : Request Unit := do
  let count := currentCount + 1
  let locked := maxFailedLogins ≤ count
  let now ← ask .now
  updateUser userId fun u => { u with
    failedLoginCount := if locked then 0 else count
    lockedUntil := if locked then some (now + lockoutMs) else u.lockedUntil }

/-- `login`. -/
def login (email password : Text) : Request Reply := do
  let user ← ask (.userByEmail (normalizeEmail email))
  let now ← ask .now
  match user with
  | none => pure invalidCredentials
  | some user =>
    if user.lockedUntil.any (now < ·) then pure (.locked (user.lockedUntil.getD 0))
    else if verifyPassword user.passwordHash password = false then do
      recordFailedLogin user.id user.failedLoginCount
      pure invalidCredentials
    else if user.emailVerified = false ∧ requireEmailVerification = true then
      pure (.forbidden "EMAIL_NOT_VERIFIED" "Please verify your email address before signing in.")
    else do
      if 0 < user.failedLoginCount ∨ user.lockedUntil.isSome then
        updateUser user.id fun u => { u with failedLoginCount := 0, lockedUntil := none }
      else pure ()
      ask .begin
      let refreshToken ← ask (.create user none)
      ask .commit
      pure (.tokens { refreshToken, user })

/-- The housekeeping that a login starts and does not wait for. -/
def dropExpired (userId : Text) : Request Reply := do
  ask .begin
  let now ← ask .now
  ask (.deleteExpired userId now)
  ask .commit
  pure .done

/-- `refresh`. -/
def refresh (refreshToken : Text) : Request Reply := do
  let now ← ask .now
  match (verify now refreshToken).bind fun payload => truthy payload.jti with
  | none => pure invalidToken
  | some jti =>
    let row ← ask (.tokenByJti jti)
    let now ← ask .now
    match row with
    | none => pure invalidToken
    | some row =>
      if row.tokenHash ≠ hashToken refreshToken ∨ row.revokedAt.isSome ∨ row.expiresAt ≤ now then
        pure invalidToken
      else if row.usedAt.isSome then do
        let _ ← revokeFamily row.familyId
        pure invalidToken
      else do
        match ← ask (.userById row.userId) with
        | none => pure invalidToken
        | some user =>
          ask .begin
          let now ← ask .now
          let claimed ← ask (.claim jti now)
          if claimed ≠ 1 then do
            ask .rollback
            pure invalidToken
          else do
            let refreshToken ← ask (.create user (some row.familyId))
            ask .commit
            pure (.tokens { refreshToken, user })

/-- `logout`. -/
def logout (refreshToken : Option Text) (allDevices : Bool) : Request Reply :=
  match truthy refreshToken with
  | none => pure .done
  | some refreshToken =>
    match (verifyIgnoringExpiration refreshToken).bind fun payload => truthy payload.jti with
    | none => pure .done
    | some jti => do
      match ← ask (.tokenByJti jti) with
      | none => pure .done
      | some row =>
        if row.tokenHash ≠ hashToken refreshToken then pure .done
        else do
          let _ ← if allDevices then revokeSessions (.user row.userId)
            else revokeFamily row.familyId
          pure .done

/-- `resetPassword`. -/
def resetPassword (token newPassword : Text) : Request Reply := do
  let now ← ask .now
  match ← ask (.userByResetToken (hashToken token) now) with
  | none => pure (.badRequest "Invalid or expired password reset link.")
  | some user => do
    updateUser user.id fun u => { u with
      passwordHash := hashPassword newPassword
      passwordResetTokenHash := none
      passwordResetExpiresAt := none
      failedLoginCount := 0
      lockedUntil := none }
    let _ ← revokeSessions (.user user.id)
    pure .done

end

/-- `AdminService.lockUser`. -/
def lockUser (id actorId : Text) (locked : Bool) (until_ : Option Nat) : Request Reply :=
  if id = actorId then pure (.badRequest "You cannot lock your own account.")
  else do
    match ← ask (.userById id) with
    | none => pure (.notFound "User not found")
    | some _ => do
      let lockedUntil := if locked then some (until_.getD indefiniteLock) else none
      ask .begin
      ask (.updateUser id fun u => { u with lockedUntil })
      let now ← ask .now
      let revoked ← if locked then ask (.revoke (.user id) now) else pure 0
      ask .commit
      pure (.sessionsRevoked revoked)

/-- `AdminService.logoutAll`. -/
def logoutAll (id : Text) : Request Reply := do
  match ← ask (.userById id) with
  | none => pure (.notFound "User not found")
  | some _ => do
    let revoked ← revokeSessions (.user id)
    pure (.sessionsRevoked revoked)

inductive Call where
  | login (email password : Text)
  | dropExpired (userId : Text)
  | refresh (refreshToken : Text)
  | logout (refreshToken : Option Text) (allDevices : Bool)
  | resetPassword (token newPassword : Text)
  | lockUser (id actorId : Text) (locked : Bool) (until_ : Option Nat)
  | logoutAll (id : Text)

def Call.program [Services] : Call → Request Reply
  | .login email password => Sessions.login email password
  | .dropExpired userId => Sessions.dropExpired userId
  | .refresh refreshToken => Sessions.refresh refreshToken
  | .logout refreshToken allDevices => Sessions.logout refreshToken allDevices
  | .resetPassword token newPassword => Sessions.resetPassword token newPassword
  | .lockUser id actorId locked until_ => Sessions.lockUser id actorId locked until_
  | .logoutAll id => Sessions.logoutAll id

end CircuitForge.Sessions
