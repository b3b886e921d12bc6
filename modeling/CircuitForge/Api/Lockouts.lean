/-
Failed logins and the account lock: `login`, `recordFailedLogin` and `resetPassword` of
`apps/api/src/auth/auth.service.ts`, and `lockUser` of `apps/api/src/admin/admin.service.ts`.

The failure count and the lock are columns of one row, and each call writes them from what it
read before.  The calls in flight take turns, statement by statement; `lockUser` holds the row
until its transaction commits, so it is one statement.
-/
import CircuitForge.Api.Sessions

namespace CircuitForge.Lockouts

open Js Requests Sessions

/-- A user, and what happened to the account: the checks that failed since it was last locked,
unlocked or entered, and the lock an administrator has set. -/
structure Account where
  user : User
  failures : Nat := 0
  adminLock : Option Nat := none

structure Db where
  accounts : List Account
  clock : Nat

/-- Nothing has happened yet. -/
def Db.start (users : List User) (clock : Nat) : Db where
  accounts := users.map fun user => { user }
  clock

/-! ## The statements -/

inductive Stmt where
  /-- `Date.now()`. -/
  | now
  | userByEmail (email : Text)
  | userById (id : Text)
  | userByResetToken (hash : Text) (now : Nat)
  /-- The `update` of `recordFailedLogin`, with the count and the time that were read. -/
  | recordFailed (userId : Text) (currentCount now : Nat)
  /-- The `update` of a successful login. -/
  | clear (userId : Text)
  /-- The `update` of `resetPassword`. -/
  | reset (userId passwordHash : Text)
  /-- The transaction of `lockUser`. -/
  | setLock (userId : Text) (lockedUntil : Option Nat)

abbrev Answer : Stmt → Type
  | .now => Nat
  | .userByEmail _ => Option User
  | .userById _ => Option User
  | .userByResetToken _ _ => Option User
  | _ => Unit

/-- The columns a failed check writes. -/
def failed (currentCount now : Nat) (u : User) : User :=
  let count := currentCount + 1
  let locked := maxFailedLogins ≤ count
  { u with
    failedLoginCount := if locked then 0 else count
    lockedUntil := if locked then some (now + lockoutMs) else u.lockedUntil }

def cleared (u : User) : User := { u with failedLoginCount := 0, lockedUntil := none }

def withPassword (passwordHash : Text) (u : User) : User :=
  { u with
    passwordHash
    passwordResetTokenHash := none
    passwordResetExpiresAt := none
    failedLoginCount := 0
    lockedUntil := none }

/-- What a statement writes to the account it is about. -/
def Stmt.write (clock : Nat) : Stmt → Account → Account
  | .recordFailed _ currentCount time, a =>
    let user := failed currentCount time a.user
    { a with user, failures := if user.lockedUntil.any (clock < ·) then 0 else a.failures + 1 }
  | .clear _, a => { a with user := cleared a.user, failures := 0 }
  | .reset _ passwordHash, a => { a with user := withPassword passwordHash a.user, failures := 0 }
  | .setLock _ lockedUntil, a =>
    { user := { a.user with lockedUntil }
      failures := if lockedUntil = none then 0 else a.failures
      adminLock := lockedUntil }
  | _, a => a

/-- The account a statement writes. -/
def Stmt.target : Stmt → Option Text
  | .recordFailed userId _ _ => some userId
  | .clear userId => some userId
  | .reset userId _ => some userId
  | .setLock userId _ => some userId
  | _ => none

def Db.write (s : Db) (st : Stmt) : Db :=
  { s with
    accounts := s.accounts.map fun a =>
      if st.target = some a.user.id then st.write s.clock a else a }

def Db.find (s : Db) (p : User → Bool) : Option User := (s.accounts.map Account.user).find? p

def Db.answer (s : Db) : (st : Stmt) → Answer st
  | .now => s.clock
  | .userByEmail email => s.find (·.email = email)
  | .userById id => s.find (·.id = id)
  | .userByResetToken hash now =>
    s.find fun u => u.passwordResetTokenHash = some hash && u.passwordResetExpiresAt.any (now < ·)
  | .recordFailed _ _ _ => ()
  | .clear _ => ()
  | .reset _ _ => ()
  | .setLock _ _ => ()

/-- The clock moves on, and the statement takes effect. -/
def sem : Semantics Nat Stmt Answer Db
  | elapsed, _, st, s =>
    let s := { s with clock := s.clock + elapsed }
    some (s.write st, s.answer st)

/-! ## The calls -/

abbrev Request : Type → Type := Prog Stmt Answer

inductive Reply where
  | welcome (user : User)
  | done
  | unauthorized (message : String)
  | badRequest (message : String)
  | forbidden (code message : String)
  | notFound (message : String)
  | locked (lockedUntil : Nat)

def ask (st : Stmt) : Request (Answer st) := Prog.stmt st

/-- `recordFailedLogin`. -/
def recordFailedLogin (userId : Text) (currentCount : Nat) : Request Unit := do
  let now ← ask .now
  ask (.recordFailed userId currentCount now)

section

variable [Services]

open Services

/-- `login`, up to the tokens. -/
def login (email password : Text) : Request Reply := do
  let user ← ask (.userByEmail (normalizeEmail email))
  let now ← ask .now
  match user with
  | none => pure (.unauthorized "Invalid credentials")
  | some user =>
    if user.lockedUntil.any (now < ·) then pure (.locked (user.lockedUntil.getD 0))
    else if verifyPassword user.passwordHash password = false then do
      recordFailedLogin user.id user.failedLoginCount
      pure (.unauthorized "Invalid credentials")
    else if user.emailVerified = false ∧ requireEmailVerification = true then
      pure (.forbidden "EMAIL_NOT_VERIFIED" "Please verify your email address before signing in.")
    else do
      if 0 < user.failedLoginCount ∨ user.lockedUntil.isSome then ask (.clear user.id) else pure ()
      pure (.welcome user)

/-- `resetPassword`, up to the sessions it ends. -/
def resetPassword (token newPassword : Text) : Request Reply := do
  let now ← ask .now
  match ← ask (.userByResetToken (hashToken token) now) with
  | none => pure (.badRequest "Invalid or expired password reset link.")
  | some user => do
    ask (.reset user.id (hashPassword newPassword))
    pure .done

end

/-- `AdminService.lockUser`. -/
def lockUser (id actorId : Text) (locked : Bool) (lockedUntil : Option Nat) : Request Reply :=
  if id = actorId then pure (.badRequest "You cannot lock your own account.")
  else do
    match ← ask (.userById id) with
    | none => pure (.notFound "User not found")
    | some _ => do
      ask (.setLock id (if locked then some (lockedUntil.getD indefiniteLock) else none))
      pure .done

inductive Call where
  | login (email password : Text)
  | resetPassword (token newPassword : Text)
  | lockUser (id actorId : Text) (locked : Bool) (lockedUntil : Option Nat)

def Call.program [Services] : Call → Request Reply
  | .login email password => Lockouts.login email password
  | .resetPassword token newPassword => Lockouts.resetPassword token newPassword
  | .lockUser id actorId locked lockedUntil => Lockouts.lockUser id actorId locked lockedUntil

/-! ## What the lock is for -/

/-- A lock that an administrator has set is in force until it expires or an administrator takes
it away, and no five checks fail without the account being locked. -/
def Account.Respected (clock : Nat) (a : Account) : Prop :=
  (∀ t ∈ a.adminLock, clock < t → ∃ l ∈ a.user.lockedUntil, t ≤ l) ∧ a.failures < maxFailedLogins

instance (clock : Nat) (a : Account) : Decidable (a.Respected clock) :=
  inferInstanceAs (Decidable (_ ∧ _))

def Respected (s : Db) : Prop := ∀ a ∈ s.accounts, a.Respected s.clock

instance (s : Db) : Decidable (Respected s) := List.decidableBAll _ _

/-- A failed check is recorded over no failure that its login has not seen, a lock it sets is not
over yet, and it does not end before the one an administrator has set; a login or a reset that
clears the lock clears none that an administrator has set. -/
def Stmt.Allowed (clock : Nat) : Stmt → Account → Prop
  | .recordFailed _ currentCount time, a =>
    a.user.failedLoginCount ≤ currentCount ∧
      (maxFailedLogins ≤ currentCount + 1 →
        clock < time + lockoutMs ∧ ∀ t ∈ a.adminLock, clock < t → t ≤ time + lockoutMs)
  | .clear _, a => ∀ t ∈ a.adminLock, t ≤ clock
  | .reset _ _, a => ∀ t ∈ a.adminLock, t ≤ clock
  | _, _ => True

/-- The condition on a statement, for the account it writes. -/
def Undisturbed (elapsed _i : Nat) (st : Stmt) (s : Db) : Prop :=
  ∀ a ∈ s.accounts, st.target = some a.user.id → st.Allowed (s.clock + elapsed) a

instance (clock : Nat) : ∀ st a, Decidable (Stmt.Allowed clock st a)
  | .recordFailed _ _ _, _ => inferInstanceAs (Decidable (_ ∧ _))
  | .clear _, a => inferInstanceAs (Decidable (∀ t ∈ a.adminLock, t ≤ clock))
  | .reset _ _, a => inferInstanceAs (Decidable (∀ t ∈ a.adminLock, t ≤ clock))
  | .now, _ => isTrue trivial
  | .userByEmail _, _ => isTrue trivial
  | .userById _, _ => isTrue trivial
  | .userByResetToken _ _, _ => isTrue trivial
  | .setLock _ _, _ => isTrue trivial

instance (elapsed i : Nat) (st : Stmt) (s : Db) : Decidable (Undisturbed elapsed i st s) :=
  List.decidableBAll _ _

/-- The count covers the failures. -/
def Account.Sound (clock : Nat) (a : Account) : Prop :=
  a.Respected clock ∧ a.failures ≤ a.user.failedLoginCount

section

variable {clock : Nat} {a : Account}

theorem Account.Sound.later (h : a.Sound clock) {clock' : Nat} (hle : clock ≤ clock') :
    a.Sound clock' := by
  refine ⟨⟨fun t ht hlt => h.1.1 t ht (Nat.lt_of_le_of_lt hle hlt), h.1.2⟩, h.2⟩

/-- A lock of an administrator that is over binds nobody. -/
theorem respected_of_over (h : ∀ t ∈ a.adminLock, t ≤ clock) {l : Option Nat} :
    ∀ t ∈ a.adminLock, clock < t → ∃ u ∈ l, t ≤ u :=
  fun t ht hlt => absurd hlt (Nat.not_lt.mpr (h t ht))

theorem failures_none : 0 < maxFailedLogins := by decide

theorem sound_failed {currentCount now : Nat} (h : a.Sound clock)
    (hok : (Stmt.recordFailed a.user.id currentCount now).Allowed clock a) :
    ((Stmt.recordFailed a.user.id currentCount now).write clock a).Sound clock := by
  obtain ⟨hseen, hlocks⟩ := hok
  by_cases hlocked : maxFailedLogins ≤ currentCount + 1
  · obtain ⟨hahead, hlonger⟩ := hlocks hlocked
    have huser : (failed currentCount now a.user).lockedUntil = some (now + lockoutMs) :=
      if_pos hlocked
    have hany : (failed currentCount now a.user).lockedUntil.any (clock < ·) = true := by
      rw [huser, Option.any_some]
      exact decide_eq_true hahead
    have hfailures : ((Stmt.recordFailed a.user.id currentCount now).write clock a).failures = 0 :=
      if_pos hany
    refine ⟨⟨fun t ht hlt => ⟨now + lockoutMs, huser, hlonger t ht hlt⟩, ?_⟩, ?_⟩
    · rw [hfailures]
      exact failures_none
    · rw [hfailures]
      exact Nat.zero_le _
  · have hcount : (failed currentCount now a.user).failedLoginCount = currentCount + 1 :=
      if_neg hlocked
    have hlock : (failed currentCount now a.user).lockedUntil = a.user.lockedUntil :=
      if_neg hlocked
    have hfailures :
        ((Stmt.recordFailed a.user.id currentCount now).write clock a).failures ≤ a.failures + 1 := by
      show (if _ then 0 else a.failures + 1) ≤ a.failures + 1
      split_ifs
      · exact Nat.zero_le _
      · exact Nat.le_refl _
    have hcovered := h.2
    refine ⟨⟨fun t ht hlt => ?_, ?_⟩, ?_⟩
    · obtain ⟨l, hl, hle⟩ := h.1.1 t ht hlt
      exact ⟨l, hlock.trans hl, hle⟩
    · omega
    · show _ ≤ (failed currentCount now a.user).failedLoginCount
      omega

/-- A login that finds its account as it has read it does no harm. -/
theorem allowed_of_unchanged (h : a.Sound clock) {time : Nat} (htime : time ≤ clock)
    (hopen : a.user.lockedUntil.any (time < ·) = false) :
    (Stmt.clear a.user.id).Allowed clock a ∧
      ∀ now, clock < now + lockoutMs →
        (Stmt.recordFailed a.user.id a.user.failedLoginCount now).Allowed clock a := by
  have hover : ∀ t ∈ a.adminLock, t ≤ clock := by
    intro t ht
    by_contra hlt
    obtain ⟨l, hl, hle⟩ := h.1.1 t ht (Nat.not_le.mp hlt)
    rw [Option.mem_def.mp hl, Option.any_some, decide_eq_false_iff_not] at hopen
    omega
  refine ⟨hover, fun now hahead => ⟨Nat.le_refl _, fun _ => ⟨hahead, ?_⟩⟩⟩
  exact fun t ht hlt => absurd hlt (Nat.not_lt.mpr (hover t ht))

/-- Every statement keeps the account that it writes. -/
theorem Account.Sound.write (h : a.Sound clock) {st : Stmt} (ht : st.target = some a.user.id)
    (hok : st.Allowed clock a) : (st.write clock a).Sound clock := by
  cases st with
  | now => exact h
  | userByEmail email => exact h
  | userById id => exact h
  | userByResetToken hash now => exact h
  | recordFailed userId currentCount now =>
    obtain rfl : userId = a.user.id := Option.some.inj ht
    exact sound_failed h hok
  | clear userId => exact ⟨⟨respected_of_over hok, failures_none⟩, Nat.zero_le _⟩
  | reset userId passwordHash => exact ⟨⟨respected_of_over hok, failures_none⟩, Nat.zero_le _⟩
  | setLock userId lockedUntil =>
    have hfailures : ((Stmt.setLock userId lockedUntil).write clock a).failures ≤ a.failures := by
      show (if _ then 0 else a.failures) ≤ a.failures
      split_ifs
      · exact Nat.zero_le _
      · exact Nat.le_refl _
    refine ⟨⟨fun t ht _ => ⟨t, ht, Nat.le_refl t⟩, ?_⟩, ?_⟩
    · exact Nat.lt_of_le_of_lt hfailures h.1.2
    · exact Nat.le_trans hfailures h.2

end

def Sound (s : Db) : Prop := ∀ a ∈ s.accounts, a.Sound s.clock

theorem sound_start (users : List User) (clock : Nat) : Sound (Db.start users clock) := by
  intro a ha
  obtain ⟨user, -, rfl⟩ := List.mem_map.mp ha
  exact ⟨⟨fun t ht => absurd ht (Option.not_mem_none t), failures_none⟩, Nat.zero_le _⟩

/-- A statement that meets the condition keeps every account. -/
theorem sound_sem {elapsed i : Nat} {st : Stmt} {s u : Db} {r : Answer st}
    (hok : Undisturbed elapsed i st s) (h : Sound s) (hs : sem elapsed i st s = some (u, r)) :
    Sound u := by
  obtain ⟨rfl, -⟩ := Prod.mk.inj (Option.some.inj hs)
  intro a' ha'
  obtain ⟨a, ha, rfl⟩ := List.mem_map.mp ha'
  have hlater := (h a ha).later (Nat.le_add_right s.clock elapsed)
  split_ifs with ht
  · exact hlater.write ht (hok a ha ht)
  · exact hlater

/-- A password is its own hash. -/
@[reducible] def openServices : Services where
  sign := fun _ _ payload => payload.jti.getD []
  verify := fun _ token => some { sub := [], email := [], jti := some token }
  verifyIgnoringExpiration := fun token => some { sub := [], email := [], jti := some token }
  hashToken := id
  hashPassword := id
  verifyPassword := fun hash password => hash = password
  normalizeEmail := id
  requireEmailVerification := false

/-- A user who has failed once. -/
def bob : User where
  id := "bob".toList
  email := "bob@example.org".toList
  name := "Bob".toList
  passwordHash := "secret".toList
  emailVerified := true
  failedLoginCount := 1
  lockedUntil := none
  passwordResetTokenHash := none
  passwordResetExpiresAt := none

def attempt (password : String) : Action Nat Call :=
  .call (.login bob.email password.toList)

/-- `n` turns of a program, a second apart. -/
def turns (i n : Nat) : List (Action Nat Call) := List.replicate n (.turn i 1000)

/-- Four wrong passwords, one after the other. -/
def guessedInTurn : List (Action Nat Call) :=
  (List.range 4).flatMap fun i => attempt "guess" :: turns i 4

/-- Five wrong passwords at once. -/
def guessedAtOnce : List (Action Nat Call) :=
  List.replicate 5 (attempt "guess") ++ (List.range 5).flatMap (fun i => turns i 2) ++
    (List.range 5).flatMap fun i => turns i 2

/-- The right password, read before an administrator locks the account and cleared after. -/
def lockedMidway : List (Action Nat Call) :=
  [attempt "secret"] ++ turns 0 2 ++
    [.call (.lockUser bob.id "admin".toList true none)] ++ turns 1 2 ++ turns 0 1

end CircuitForge.Lockouts
