/-
The studio's client: `apps/web/lib/api/client.ts`, with the store of `tokens.ts` and the
failures of `errors.ts`.

A statement is what runs from one `await` up to the next.  The calls in flight take turns,
statement by statement; whoever waits for a promise that is settled comes first, in the order
in which they joined.  Another tab changes the store by an event, which is a turn of its own.
-/
import CircuitForge.Js.Requests
import CircuitForge.Js.Text

namespace CircuitForge.Client

open Js Requests

structure Tokens where
  accessToken : Text
  refreshToken : Text
deriving DecidableEq, Repr

/-! ## Failures -/

inductive FailureKind where
  | network
  | aborted
  | unauthenticated
  | forbidden
  | notFound
  | conflict
  | invalid
  | throttled
  | server
  | unexpected
deriving DecidableEq, Repr

/-- What a call throws: an `ApiError`, or what the reading of a body throws. -/
inductive Failure where
  | api (kind : FailureKind)
  | raw
deriving DecidableEq, Repr

def kindByStatus : List (Nat × FailureKind) :=
  [(400, .invalid), (401, .unauthenticated), (403, .forbidden), (404, .notFound),
    (409, .conflict), (422, .invalid), (429, .throttled)]

def kindForStatus (status : Nat) : FailureKind :=
  (kindByStatus.lookup status).getD (if 500 ≤ status then .server else .unexpected)

theorem kindForStatus_unauthenticated {status : Nat}
    (h : kindForStatus status = .unauthenticated) : status = 401 := by
  cases hl : kindByStatus.lookup status with
  | none =>
    rw [kindForStatus, hl, Option.getD_none] at h
    split at h <;> cases h
  | some kind =>
    rw [kindForStatus, hl, Option.getD_some] at h
    obtain ⟨before, after, htable, -⟩ := List.lookup_eq_some_iff.mp hl
    have hmem : (status, kind) ∈ kindByStatus := htable ▸ List.mem_append_right _ List.mem_cons_self
    have honly : ∀ e ∈ kindByStatus, e.2 = .unauthenticated → e.1 = 401 := by decide
    exact honly _ hmem h

/-! ## The state -/

/-- What a call presents to the server. -/
inductive Credential where
  | bearer (accessToken : Text) (retried : Bool)
  | refresh (refreshToken : Text)
  | nothing
deriving DecidableEq, Repr

/-- What happened, as far as it is about the session. -/
inductive Event where
  /-- The refresh token went to `/auth/refresh`. -/
  | sent (refreshToken : Text)
  /-- The server answered 401. -/
  | refused (presented : Credential)
  /-- The refresh came to nothing, and the server has not refused the token. -/
  | unjudged (refreshToken : Text)
  /-- The pair that was got for `existing` was written over `held`. -/
  | renewed (existing : Tokens) (held : Option Tokens)
  /-- The pair came into the store. -/
  | stored (tokens : Tokens)
  /-- The session was ended, and not by `signOut`. -/
  | ended (tokens : Tokens)
deriving DecidableEq, Repr

/-- A refresh: the pair it sets out to replace, its result, and the calls that wait for it,
each with the pair it found stored. -/
structure Promise where
  existing : Tokens
  result : Option (Except Failure Tokens)
  waiting : List (Nat × Tokens)

/-- The client, and what happened so far, the latest first. -/
structure State where
  store : Option Tokens
  refreshing : Option Nat := none
  promises : List Promise := []
  log : List Event := []

/-- A client that has done nothing yet. -/
def State.start (store : Option Tokens) : State where
  store

def State.stillOurs (c : State) (existing : Tokens) : Bool :=
  c.store.map Tokens.refreshToken = some existing.refreshToken

def State.endSession (c : State) : State :=
  match c.store with
  | none => c
  | some tokens => { c with store := none, log := .ended tokens :: c.log }

/-- `store.write`. -/
def State.write (c : State) (tokens : Tokens) : State :=
  { c with store := some tokens, log := .stored tokens :: c.log }

/-- Nobody waits for a promise that is settled. -/
def State.quiet (c : State) : Bool :=
  c.promises.all fun promise => promise.result.isNone || promise.waiting.isEmpty

/-! ## The statements -/

/-- What the network answers. -/
inductive Answer where
  | rejected (aborted : Bool)
  | head (status : Nat)
  /-- The text of a reply, as the pair it is taken for; none where it is no JSON. -/
  | text (parsed : Option Tokens)
deriving DecidableEq, Repr

inductive Outcome where
  | refreshed
  | rejected
  | unavailable
  | superseded
deriving DecidableEq, Repr

inductive Stmt where
  /-- An authenticated `request`, up to its `fetch`. -/
  | send
  | fetch (presented : Credential)
  | interpret (status : Nat) (presented : Credential)
  /-- `refreshSession`, up to its `await`. -/
  | join
  /-- What a refresh does with its reply. -/
  | renew (p : Nat) (reply : Except Failure Tokens)
  /-- The rest of `refreshSession`. -/
  | outcome (p : Nat)
  | write (tokens : Tokens)
  | signOut
  /-- Another tab has changed the store. -/
  | storage (held : Option Tokens)

abbrev Result : Stmt → Type
  | .send => Option Text
  | .fetch _ => Except Failure Nat
  | .interpret _ _ => Except Failure Tokens
  | .join => Option (Nat × Option Text)
  | .outcome _ => Outcome
  | .signOut => Option Tokens
  | _ => Unit

/-- `await fetch(…)`. -/
def State.fetch (c : State) (presented : Credential) :
    Answer → Option (State × Except Failure Nat)
  | .rejected aborted => some (c, .error (.api (if aborted then .aborted else .network)))
  | .head status =>
    some (if status = 401 then { c with log := .refused presented :: c.log } else c, .ok status)
  | .text _ => none

def carriedOurToken : Credential → Bool
  | .bearer _ _ => true
  | _ => false

/-- `await response.text()` and the rest of `interpret`. -/
def State.interpret (c : State) (status : Nat) (presented : Credential) :
    Answer → Option (State × Except Failure Tokens)
  | .rejected _ => some (c, .error .raw)
  | .head _ => none
  | .text parsed =>
    if 200 ≤ status ∧ status < 300 then
      some (c, match parsed with
        | some tokens => .ok tokens
        | none => .error (.api .unexpected))
    else
      let kind := kindForStatus status
      some (if kind = .unauthenticated ∧ carriedOurToken presented = true then c.endSession else c,
        .error (.api kind))

/-- `this.refreshing ??= …`, in the name of the call `i`. -/
def State.join (c : State) (i : Nat) : State × Option (Nat × Option Text) :=
  match c.store with
  | none => (c, none)
  | some existing =>
    match c.refreshing with
    | some p =>
      ({ c with promises := c.promises.modify p fun promise =>
          { promise with waiting := promise.waiting ++ [(i, existing)] } }, some (p, none))
    | none =>
      ({ c with
          refreshing := some c.promises.length
          promises := c.promises ++ [⟨existing, none, [(i, existing)]⟩]
          log := .sent existing.refreshToken :: c.log },
        some (c.promises.length, some existing.refreshToken))

def State.settle (c : State) (p : Nat) (promise : Promise) (result : Except Failure Tokens) :
    State :=
  { c with promises := c.promises.set p { promise with result := some result } }

/-- A refresh has its reply; a promise is settled only once. -/
def State.renew (c : State) (p : Nat) (reply : Except Failure Tokens) : Option State :=
  match c.promises[p]? with
  | none => none
  | some promise =>
    if promise.result.isSome then none
    else
      match reply with
      | .error (.api .unauthenticated) => some (c.settle p promise reply)
      | .error _ =>
        some { c.settle p promise reply with
          log := .unjudged promise.existing.refreshToken :: c.log }
      | .ok tokens =>
        if c.stillOurs promise.existing then
          some ({ c with log := .renewed promise.existing c.store :: c.log }.write tokens
            |>.settle p promise reply)
        else some (c.settle p promise (.error (.api .unauthenticated)))

/-- The first of those that wait for a settled promise goes on. -/
def State.outcome (c : State) (i p : Nat) : Option (State × Outcome) :=
  match c.promises[p]? with
  | some ⟨existing, some result, (j, mine) :: rest⟩ =>
    if i = j then
      let c := { c with
        refreshing := none
        promises := c.promises.set p ⟨existing, some result, rest⟩ }
      match result with
      | .ok _ => some (c, .refreshed)
      | .error e =>
        if c.stillOurs mine = false then some (c, .superseded)
        else if e = .api .unauthenticated then some (c.endSession, .rejected)
        else some (c, .unavailable)
    else none
  | _ => none

/-- What a statement does when nobody is to come first. -/
def State.perform (c : State) (answer : Answer) (i : Nat) : (s : Stmt) → Option (State × Result s)
  | .send => some (c, c.store.map Tokens.accessToken)
  | .fetch presented => c.fetch presented answer
  | .interpret status presented => c.interpret status presented answer
  | .join => some (c.join i)
  | .renew p reply => (c.renew p reply).map (·, ())
  | .outcome p => c.outcome i p
  | .write tokens => some (c.write tokens, ())
  | .signOut => some ({ c with store := none }, c.store)
  | .storage (some tokens) => some (c.write tokens, ())
  | .storage none => some ({ c with store := none }, ())

def isOutcome : Stmt → Bool
  | .outcome _ => true
  | _ => false

def sem : Semantics Answer Stmt Result State
  | answer, i, s, c => if isOutcome s ∨ c.quiet then c.perform answer i s else none

/-! ## The calls -/

abbrev Async : Type → Type := Prog Stmt Result

def ask (s : Stmt) : Async (Result s) := Prog.stmt s

/-- What `request` is called for: a call of the API, a call that carries no bearer token, or
the refresh. -/
inductive Call where
  | api
  | plain
  | refresh (refreshToken : Text)
deriving DecidableEq

/-- What the call presents; nothing at all where there is no session. -/
def present : Call → Bool → Async (Option Credential)
  | .api, retried => do
    let access ← ask .send
    pure (access.map (.bearer · retried))
  | .plain, _ => pure (some .nothing)
  | .refresh refreshToken, _ => pure (some (.refresh refreshToken))

def interpret (status : Nat) (presented : Credential) : Async (Except Failure Tokens) :=
  ask (.interpret status presented)

/-- `request`, from its `fetch` on; `onRefusal` is what it does about a first refusal. -/
def exchange (call : Call) (retried : Bool)
    (onRefusal : Nat → Credential → Async (Except Failure Tokens)) (presented : Credential) :
    Async (Except Failure Tokens) := do
  match ← ask (.fetch presented) with
  | .error e => pure (.error e)
  | .ok status =>
    if status = 401 ∧ call = .api ∧ retried = false then onRefusal status presented
    else interpret status presented

def attempt (call : Call) (retried : Bool)
    (onRefusal : Nat → Credential → Async (Except Failure Tokens)) :
    Async (Except Failure Tokens) := do
  match ← present call retried with
  | none => pure (.error (.api .unauthenticated))
  | some presented => exchange call retried onRefusal presented

/-- `request(…, true)`, which is terminal. -/
def retry (call : Call) : Async (Except Failure Tokens) := attempt call true interpret

def refreshSession : Async Outcome := do
  match ← ask .join with
  | none => pure .rejected
  | some (p, none) => ask (.outcome p)
  | some (p, some refreshToken) => do
    let reply ← retry (.refresh refreshToken)
    ask (.renew p reply)
    ask (.outcome p)

def request (call : Call) : Async (Except Failure Tokens) :=
  attempt call false fun status presented => do
    match ← refreshSession with
    | .refreshed => retry call
    | .superseded => retry call
    | .unavailable => pure (.error (.api .network))
    | .rejected => interpret status presented

def signIn : Async (Except Failure Tokens) := do
  match ← request .plain with
  | .error e => pure (.error e)
  | .ok tokens => do
    ask (.write tokens)
    pure (.ok tokens)

/-- As `signIn`, with another path and body. -/
def register : Async (Except Failure Tokens) := signIn

/-- What the logout is answered with is not looked at. -/
def signOut : Async (Option Tokens) := do
  match ← ask .signOut with
  | none => pure none
  | some tokens => do
    let _ ← request .plain
    pure (some tokens)

inductive Method where
  | request
  | signIn
  | register
  | signOut
  | storage (held : Option Tokens)

def Method.program : Method → Async Unit
  | .request => do
    let _ ← Client.request .api
    pure ()
  | .signIn => do
    let _ ← Client.signIn
    pure ()
  | .register => do
    let _ ← Client.register
    pure ()
  | .signOut => do
    let _ ← Client.signOut
    pure ()
  | .storage held => ask (.storage held)

end CircuitForge.Client
