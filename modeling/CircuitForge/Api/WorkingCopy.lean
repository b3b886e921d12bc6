/-
The working copy of a project: `apps/api/src/working-copy/working-copy.service.ts`
and the client side of `apps/web/lib/useDocument.ts`.

A request is a sequence of database statements.  The statements of requests in
flight interleave in any order, and the clock gives each of them a stamp of
millisecond resolution, which may repeat.
-/
import CircuitForge.Js.Text
import Mathlib.Data.List.Basic
import Mathlib.Tactic.Common

namespace CircuitForge.WorkingCopy

open Js

variable {Content : Type}

/-- The one row of a project: `ProjectWorkingCopy`.  The content is `circuitJson`
together with `uiJson`. -/
structure Row (Content : Type) where
  content : Content
  baseVersionId : Option Text
  updatedByUserId : Text
  updatedAt : Nat

/-- `SaveWorkingCopyDto`. -/
structure SaveWorkingCopyDto (Content : Type) where
  content : Content
  baseVersionId : Option Text
  expectedUpdatedAt : Option Nat

inductive Op (Content : Type) where
  | get
  | save (dto : SaveWorkingCopyDto Content)
  | discard (expectedUpdatedAt : Option Nat)

/-- The token a request carries. -/
def Op.token : Op Content → Option Nat
  | .get => none
  | .save dto => dto.expectedUpdatedAt
  | .discard expected => expected

inductive Reply (Content : Type) where
  | loaded (row : Row Content)
  | noWorkingCopy
  | saved (baseVersionId : Option Text) (updatedByUserId : Text) (updatedAt : Nat)
  | discarded
  | conflict (currentUpdatedAt : Option Nat) (currentUpdatedByUserId : Option Text)
  /-- Any other error: no access, a foreign base version, a row gone at the read-back. -/
  | failed

/-- The statement a request is about to execute, or its reply. -/
inductive Phase (Content : Type) where
  | received
  | admitted
  | readBack
  | readConflict
  | readAfterDiscard
  | replied (reply : Reply Content)

/-- A request in flight.  No statement reads the last three fields: they record the
document that came with the token, the row a conditional statement matched and the
stamp a write put on the row. -/
structure Request (Content : Type) where
  client : Nat
  user : Text
  op : Op Content
  phase : Phase Content
  base : Option Content
  matched : Option (Row Content) := none
  written : Option Nat := none

/-! ## The statements -/

/-- The `data` of a write on an existing row. -/
def Row.update (row : Row Content) (dto : SaveWorkingCopyDto Content) (user : Text) (now : Nat) :
    Row Content where
  content := dto.content
  baseVersionId := if dto.baseVersionId.isNone then row.baseVersionId else dto.baseVersionId
  updatedByUserId := user
  updatedAt := now

def Row.create (dto : SaveWorkingCopyDto Content) (user : Text) (now : Nat) : Row Content where
  content := dto.content
  baseVersionId := dto.baseVersionId
  updatedByUserId := user
  updatedAt := now

/-- The row where `updatedAt` is the expected one. -/
def matching (row : Option (Row Content)) (expected : Nat) : Option (Row Content) :=
  row.filter fun r => r.updatedAt = expected

/-- The `select` of a save. -/
def Row.saved (row : Row Content) : Reply Content :=
  .saved row.baseVersionId row.updatedByUserId row.updatedAt

/-- `save` behind its checks: the conditional `updateMany`, or the `upsert`. -/
def save (now : Nat) (row : Option (Row Content)) (r : Request Content)
    (dto : SaveWorkingCopyDto Content) : Option (Row Content) × Request Content :=
  match dto.expectedUpdatedAt with
  | some expected =>
    match matching row expected with
    | some old =>
      (some (old.update dto r.user now),
        { r with phase := .readBack, matched := some old, written := some now })
    | none => (row, { r with phase := .readConflict })
  | none =>
    let new := match row with
      | some old => old.update dto r.user now
      | none => Row.create dto r.user now
    (some new, { r with phase := .replied new.saved, written := some now })

/-- `discard` behind its check: the `deleteMany`, with or without a token. -/
def discard (row : Option (Row Content)) (r : Request Content) (expected : Option Nat) :
    Option (Row Content) × Request Content :=
  match expected with
  | none => (none, { r with phase := .replied .discarded })
  | some expected =>
    match matching row expected with
    | some old => (none, { r with phase := .replied .discarded, matched := some old })
    | none => (row, { r with phase := .readAfterDiscard })

/-- The `ConflictException` of a stale token. -/
def conflict (row : Option (Row Content)) : Reply Content :=
  .conflict (row.map Row.updatedAt) (row.map Row.updatedByUserId)

/-- One statement of a request, at the clock reading `now`. -/
def execute (now : Nat) (row : Option (Row Content)) (r : Request Content) :
    Option (Row Content) × Request Content :=
  match r.phase with
  | .received => (row, r)
  | .admitted =>
    match r.op with
    | .get =>
      (row, { r with phase := .replied (match row with
        | some current => .loaded current
        | none => .noWorkingCopy) })
    | .save dto => save now row r dto
    | .discard expected => discard row r expected
  | .readBack =>
    -- `findUniqueOrThrow`
    (row, { r with phase := .replied (match row with
      | some current => current.saved
      | none => .failed) })
  | .readConflict => (row, { r with phase := .replied (conflict row) })
  | .readAfterDiscard =>
    (row, { r with phase := .replied (if row.isNone then .discarded else conflict row) })
  | .replied _ => (row, r)

/-! ## The system -/

/-- The row, what each client holds and the requests in flight.  A client holds the
document and the token of its last load or save. -/
structure State (Content : Type) where
  row : Option (Row Content)
  held : Nat → Option (Content × Nat)
  requests : List (Request Content)

/-- What a client asks for; with `guarded` it sends the token it holds. -/
inductive Call (Content : Type) where
  | get
  | save (content : Content) (baseVersionId : Option Text) (guarded : Bool)
  | discard (guarded : Bool)

inductive Action (Content : Type) where
  | send (client : Nat) (user : Text) (call : Call Content)
  /-- The checks on other tables let the request through or refuse it. -/
  | authorize (request : Nat) (allowed : Bool)
  | statement (request : Nat) (now : Nat)
  | deliver (request : Nat)
  /-- A request or its reply is lost. -/
  | lose (request : Nat)

/-- The request a client sends.  Without a held token the precondition is left out. -/
def State.request (s : State Content) (client : Nat) (user : Text) : Call Content → Request Content
  | .get => { client, user, op := .get, phase := .received, base := none }
  | .save content baseVersionId guarded =>
    let held := if guarded then s.held client else none
    { client, user
      op := .save { content, baseVersionId, expectedUpdatedAt := held.map Prod.snd }
      phase := .received
      base := held.map Prod.fst }
  | .discard guarded =>
    let held := if guarded then s.held client else none
    { client, user, op := .discard (held.map Prod.snd), phase := .received
      base := held.map Prod.fst }

/-- What a client holds once the reply is in: `sendFor` on success, the loader on a load. -/
def Request.learned (r : Request Content) : Option (Content × Nat) :=
  match r.phase with
  | .replied (.loaded row) => some (row.content, row.updatedAt)
  | .replied (.saved _ _ updatedAt) =>
    match r.op with
    | .save dto => some (dto.content, updatedAt)
    | _ => none
  | _ => none

def State.step (s : State Content) : Action Content → Option (State Content)
  | .send client user call =>
    some { s with requests := s.requests ++ [s.request client user call] }
  | .authorize i allowed => do
    let r ← s.requests[i]?
    match r.phase with
    | .received =>
      let r := { r with phase := if allowed then .admitted else .replied .failed }
      some { s with requests := s.requests.set i r }
    | _ => none
  | .statement i now => do
    let r ← s.requests[i]?
    let (row, r) := execute now s.row r
    some { s with row, requests := s.requests.set i r }
  | .deliver i => do
    let r ← s.requests[i]?
    match r.phase with
    | .replied _ =>
      some { s with
              held := match r.learned with
                | some known => Function.update s.held r.client (some known)
                | none => s.held
              requests := s.requests.eraseIdx i }
    | _ => none
  | .lose i => some { s with requests := s.requests.eraseIdx i }

/-- Nobody has loaded anything yet. -/
def State.start (row : Option (Row Content)) : State Content := ⟨row, fun _ => none, []⟩

def State.run (s : State Content) : List (Action Content) → Option (State Content)
  | [] => some s
  | a :: actions => (s.step a).bind fun s => s.run actions

/-! ## What is promised -/

/-- No request in flight has lost an update: a row that a token matched held the document
the token came with, and a save returns the stamp of its own write. -/
def NoLostUpdate (s : State Content) : Prop :=
  ∀ r ∈ s.requests, (∀ row, r.matched = some row → r.base = some row.content) ∧
    ∀ baseVersionId user updatedAt, r.phase = .replied (.saved baseVersionId user updatedAt) →
      r.written = some updatedAt

/-- The request takes `t` for the token of `content`: it carries the two, or is about to
bring them to its client. -/
def Request.Knows (r : Request Content) (content : Content) (t : Nat) : Prop :=
  match r.phase with
  | .received | .admitted => r.op.token = some t ∧ r.base = some content
  | .readBack => r.written = some t ∧ ∃ dto, r.op = .save dto ∧ dto.content = content
  | .replied _ => r.learned = some (content, t)
  | _ => False

/-- Some client, or some of the requests, takes `t` for the token of `content`. -/
def Knows (held : Nat → Option (Content × Nat)) (requests : List (Request Content))
    (content : Content) (t : Nat) : Prop :=
  (∃ client, held client = some (content, t)) ∨ ∃ r ∈ requests, r.Knows content t

/-- The content the request's next statement puts on the row. -/
def Request.writes (r : Request Content) (row : Option (Row Content)) : Option Content :=
  match r.phase, r.op with
  | .admitted, .save dto =>
    match dto.expectedUpdatedAt with
    | some expected => (matching row expected).map fun _ => dto.content
    | none => some dto.content
  | _, _ => none

/-- Where a statement writes, its stamp is apart from the tokens about: one that is equal
to it stands for the content written, and a save that has not read its token back yet
wrote at the same stamp. -/
def StampsApart (s : State Content) : Action Content → Prop
  | .statement i now => ∀ r content, s.requests[i]? = some r → r.writes s.row = some content →
      (∀ c, Knows s.held (s.requests.eraseIdx i) c now → c = content) ∧
        ∀ q ∈ s.requests.eraseIdx i, q.phase = .readBack → q.written = some now
  | _ => True

/-- Every action of the run meets the condition in the state it is taken in. -/
def Along (ok : State Content → Action Content → Prop) (s : State Content) :
    List (Action Content) → Prop
  | [] => True
  | a :: actions => ok s a ∧ ∀ s', s.step a = some s' → Along ok s' actions

/-! ## The invariant -/

theorem mem_set_cases {α : Type} {xs : List α} {i : Nat} {x y : α} (h : y ∈ xs.set i x) :
    y = x ∨ y ∈ xs.eraseIdx i := by
  rcases Nat.lt_or_ge i xs.length with hi | hi
  · rw [List.set_eq_take_append_cons_drop, if_pos hi] at h
    rw [List.eraseIdx_eq_take_drop_succ, List.mem_append]
    rcases List.mem_append.mp h with h | h
    · exact Or.inr (Or.inl h)
    · exact (List.mem_cons.mp h).imp id Or.inr
  · rw [List.set_eq_of_length_le hi] at h
    rw [List.eraseIdx_of_length_le hi]
    exact Or.inr h

/-- What a request in flight agrees on with the row. -/
structure Request.Sound (r : Request Content) (row : Option (Row Content)) : Prop where
  /-- A token that is the stamp of the row stands for its content. -/
  known : ∀ current, row = some current → ∀ c, r.Knows c current.updatedAt → c = current.content
  /-- A save about to read its token back finds the stamp of its own write. -/
  readBack : ∀ current, row = some current → r.phase = .readBack →
    r.written = some current.updatedAt
  /-- A token came with a document. -/
  based : r.op.token.isSome = true → r.base.isSome = true
  /-- Only a save reads its token back. -/
  saves : r.phase = .readBack → ∃ dto, r.op = .save dto
  matched : ∀ old, r.matched = some old → r.base = some old.content
  returned : ∀ baseVersionId user updatedAt,
    r.phase = .replied (.saved baseVersionId user updatedAt) → r.written = some updatedAt

structure Agreed (s : State Content) : Prop where
  held : ∀ current, s.row = some current → ∀ client c,
    s.held client = some (c, current.updatedAt) → c = current.content
  requests : ∀ r ∈ s.requests, r.Sound s.row

theorem noLostUpdate_of_agreed {s : State Content} (h : Agreed s) : NoLostUpdate s :=
  fun r hr => ⟨(h.requests r hr).matched, (h.requests r hr).returned⟩

theorem agreed_start (row : Option (Row Content)) : Agreed (State.start row) where
  held := fun _ _ _ _ h => by cases h
  requests := fun _ hr => by cases hr

theorem matching_spec {row : Option (Row Content)} {expected : Nat} {old : Row Content}
    (h : matching row expected = some old) : row = some old ∧ old.updatedAt = expected := by
  obtain ⟨hr, hp⟩ := Option.filter_eq_some_iff.mp h
  exact ⟨hr, of_decide_eq_true hp⟩

/-- The document behind a token that matches the row is the row's. -/
theorem Request.Sound.base_eq {r : Request Content} {row : Option (Row Content)} {old : Row Content}
    {expected : Nat} (h : r.Sound row) (hphase : r.phase = .admitted)
    (htoken : r.op.token = some expected) (hm : matching row expected = some old) :
    r.base = some old.content := by
  obtain ⟨hrow, hstamp⟩ := matching_spec hm
  obtain ⟨c, hc⟩ := Option.isSome_iff_exists.mp (h.based (by rw [htoken]; rfl))
  have hknows : r.Knows c old.updatedAt := by
    rw [Request.Knows, hphase]
    exact ⟨by rw [htoken, hstamp], hc⟩
  rw [hc, h.known old hrow c hknows]

/-- A reply that teaches nothing, to a request that wrote and matched nothing new. -/
theorem Request.Sound.silent {r : Request Content} {row row' : Option (Row Content)}
    (h : r.Sound row) (phase : Phase Content)
    (hk : ∀ c t, ¬ ({ r with phase } : Request Content).Knows c t) (hb : phase ≠ .readBack)
    (hs : ∀ b u t, phase ≠ .replied (.saved b u t)) :
    ({ r with phase } : Request Content).Sound row' where
  known := fun _ _ c hc => absurd hc (hk c _)
  readBack := fun _ _ he => absurd he hb
  based := h.based
  saves := fun he => absurd he hb
  matched := h.matched
  returned := fun b u t he => absurd he (hs b u t)

theorem save_sound {now : Nat} {row : Option (Row Content)} {r : Request Content}
    {dto : SaveWorkingCopyDto Content} (h : r.Sound row) (hphase : r.phase = .admitted)
    (hop : r.op = .save dto) : (save now row r dto).2.Sound (save now row r dto).1 := by
  unfold save
  cases he : dto.expectedUpdatedAt with
  | some expected =>
    have htoken : r.op.token = some expected := by rw [hop]; exact he
    cases hm : matching row expected with
    | some old =>
      simp only [hm]
      exact
        { known := by
            rintro _ ⟨⟩ c ⟨_, dto', hd, rfl⟩
            cases hop.symm.trans hd
            rfl
          readBack := by
            rintro _ ⟨⟩ _
            rfl
          based := h.based
          saves := fun _ => ⟨dto, hop⟩
          matched := by
            rintro _ ⟨⟩
            exact h.base_eq hphase htoken hm
          returned := fun _ _ _ hr => by cases hr }
    | none =>
      simp only [hm]
      exact h.silent _ (fun _ _ => id) (by simp) (by simp)
  | none =>
    simp only
    generalize hnew : (match row with
      | some old => old.update dto r.user now
      | none => Row.create dto r.user now) = new
    have hc : new.content = dto.content ∧ new.updatedAt = now := by
      subst hnew
      cases row <;> exact ⟨rfl, rfl⟩
    exact
      { known := by
          rintro _ ⟨⟩ c hk
          have hk : (match r.op with
            | .save dto => some (dto.content, new.updatedAt)
            | _ => none) = some (c, new.updatedAt) := hk
          rw [hop] at hk
          rw [hc.1, (Prod.mk.inj (Option.some.inj hk)).1]
        readBack := fun _ _ hr => by cases hr
        based := h.based
        saves := fun hr => by cases hr
        matched := h.matched
        returned := by
          rintro _ _ _ hr
          cases hr
          rw [hc.2] }

theorem discard_sound {row : Option (Row Content)} {r : Request Content} {expected : Option Nat}
    (h : r.Sound row) (hphase : r.phase = .admitted) (hop : r.op = .discard expected) :
    (discard row r expected).2.Sound (discard row r expected).1 := by
  unfold discard
  cases expected with
  | none => exact h.silent _ (fun _ _ hk => by cases hk) (by simp) (by simp)
  | some expected =>
    have htoken : r.op.token = some expected := by rw [hop]; rfl
    cases hm : matching row expected with
    | some old =>
      simp only [hm]
      exact
        { known := fun _ hr => by cases hr
          readBack := fun _ hr => by cases hr
          based := h.based
          saves := fun hr => by cases hr
          matched := by
            rintro _ ⟨⟩
            exact h.base_eq hphase htoken hm
          returned := fun _ _ _ hr => by cases hr }
    | none =>
      simp only [hm]
      exact h.silent _ (fun _ _ => id) (by simp) (by simp)

/-- A statement leaves its own request in agreement with the row. -/
theorem execute_sound {row : Option (Row Content)} {r : Request Content} (h : r.Sound row)
    (now : Nat) : (execute now row r).2.Sound (execute now row r).1 := by
  unfold execute
  split
  case h_1 => exact h
  case h_2 hphase =>
    split
    case h_1 hop =>
      cases hrow : row with
      | none => exact h.silent _ (fun _ _ hk => by cases hk) (by simp) (by simp)
      | some current =>
        exact
          { known := by
              rintro _ ⟨⟩ c hk
              exact (Prod.mk.inj (Option.some.inj hk)).1.symm
            readBack := fun _ _ hr => by cases hr
            based := h.based
            saves := fun hr => by cases hr
            matched := h.matched
            returned := fun _ _ _ hr => by cases hr }
    case h_2 dto hop => exact save_sound h hphase hop
    case h_3 expected hop => exact discard_sound h hphase hop
  case h_3 hphase =>
    cases hrow : row with
    | none => exact h.silent _ (fun _ _ hk => by cases hk) (by simp) (by simp)
    | some current =>
      have hwritten := h.readBack current hrow hphase
      obtain ⟨dto, hop⟩ := h.saves hphase
      have hknows : r.Knows dto.content current.updatedAt := by
        rw [Request.Knows, hphase]
        exact ⟨hwritten, dto, hop, rfl⟩
      exact
        { known := by
            rintro _ ⟨⟩ c hk
            have hk : (match r.op with
              | .save dto => some (dto.content, current.updatedAt)
              | _ => none) = some (c, current.updatedAt) := hk
            rw [hop] at hk
            rw [← h.known current hrow _ hknows, (Prod.mk.inj (Option.some.inj hk)).1]
          readBack := fun _ _ hr => by cases hr
          based := h.based
          saves := fun hr => by cases hr
          matched := h.matched
          returned := by
            rintro _ _ _ ⟨⟩
            exact hwritten }
  case h_4 => exact h.silent _ (fun _ _ hk => by cases hk) (by simp) (by simp [conflict])
  case h_5 =>
    refine h.silent _ ?_ (by simp) ?_
    · intro c t hk
      cases row <;> cases hk
    · cases row <;> simp [conflict]
  case h_6 => exact h

/-- A statement leaves the row, removes it, or writes at its stamp. -/
theorem execute_row (now : Nat) (row : Option (Row Content)) (r : Request Content) :
    (execute now row r).1 = row ∨ (execute now row r).1 = none ∨
      ∃ new, (execute now row r).1 = some new ∧ r.writes row = some new.content ∧
        new.updatedAt = now := by
  unfold execute
  split
  case h_2 hphase =>
    split
    case h_1 => exact Or.inl rfl
    case h_2 dto hop =>
      unfold save Request.writes
      rw [hphase, hop]
      cases he : dto.expectedUpdatedAt with
      | some expected =>
        simp only [he]
        cases hm : matching row expected with
        | some old => exact Or.inr (Or.inr ⟨_, rfl, rfl, rfl⟩)
        | none => exact Or.inl rfl
      | none =>
        simp only [he]
        refine Or.inr (Or.inr ⟨_, rfl, ?_, ?_⟩)
        · cases row <;> rfl
        · cases row <;> rfl
    case h_3 expected hop =>
      unfold discard
      cases expected with
      | none => exact Or.inr (Or.inl rfl)
      | some expected =>
        simp only
        cases matching row expected with
        | some old => exact Or.inr (Or.inl rfl)
        | none => exact Or.inl rfl
  all_goals exact Or.inl rfl

/-- A statement that writes does so at its stamp. -/
theorem writes_spec {row : Option (Row Content)} {r : Request Content} {content : Content}
    (h : r.writes row = some content) (now : Nat) :
    ∃ new, (execute now row r).1 = some new ∧ new.content = content ∧ new.updatedAt = now := by
  unfold Request.writes at h
  split at h
  case h_1 dto hphase hop =>
    simp only [execute, hphase, hop, save]
    split at h
    case h_1 expected he =>
      obtain ⟨old, hm, rfl⟩ := Option.map_eq_some_iff.mp h
      simp only [hm]
      exact ⟨_, rfl, rfl, rfl⟩
    case h_2 he =>
      cases h
      simp only
      refine ⟨_, rfl, ?_, ?_⟩ <;> cases row <;> rfl
  case h_2 => cases h

/-- A write leaves the other requests in agreement where its stamp is apart. -/
theorem Request.Sound.of_write {q : Request Content} {row : Option (Row Content)}
    (h : q.Sound row) {new : Row Content}
    (hk : ∀ c, q.Knows c new.updatedAt → c = new.content)
    (hb : q.phase = .readBack → q.written = some new.updatedAt) : q.Sound (some new) where
  known := by
    rintro _ ⟨⟩ c hc
    exact hk c hc
  readBack := by
    rintro _ ⟨⟩ hp
    exact hb hp
  based := h.based
  saves := h.saves
  matched := h.matched
  returned := h.returned

theorem Request.Sound.of_delete {q : Request Content} {row : Option (Row Content)}
    (h : q.Sound row) : q.Sound none where
  known := fun _ hr => by cases hr
  readBack := fun _ hr => by cases hr
  based := h.based
  saves := h.saves
  matched := h.matched
  returned := h.returned

theorem agreed_statement {s : State Content} (h : Agreed s) {i now : Nat} {r : Request Content}
    (hr : s.requests[i]? = some r) (hok : StampsApart s (.statement i now)) :
    Agreed { s with
      row := (execute now s.row r).1, requests := s.requests.set i (execute now s.row r).2 } := by
  have hsound : r.Sound s.row := h.requests r (List.mem_of_getElem? hr)
  have hown := execute_sound hsound now
  have hothers : ∀ q ∈ s.requests.eraseIdx i, q.Sound s.row := fun q hq =>
    h.requests q (List.mem_of_mem_eraseIdx hq)
  rcases execute_row now s.row r with hrow | hrow | ⟨new, hrow, hw, hnow⟩
  · constructor
    · simp only [hrow]
      exact h.held
    · intro q hq
      rcases mem_set_cases hq with rfl | hq
      · exact hown
      · simp only [hrow]
        exact hothers q hq
  · constructor
    · intro current hc
      simp only [hrow] at hc
      cases hc
    · intro q hq
      rcases mem_set_cases hq with rfl | hq
      · exact hown
      · simp only [hrow]
        exact (hothers q hq).of_delete
  · obtain ⟨happart, hwaiting⟩ := hok r new.content hr hw
    constructor
    · intro current hc client c hk
      simp only [hrow] at hc
      cases hc
      rw [hnow] at hk
      exact happart c (Or.inl ⟨client, hk⟩)
    · intro q hq
      rcases mem_set_cases hq with rfl | hq
      · exact hown
      · simp only [hrow]
        refine (hothers q hq).of_write (fun c hk => ?_) (fun hp => ?_)
        · rw [hnow] at hk
          exact happart c (Or.inr ⟨q, hq, hk⟩)
        · rw [hnow]
          exact hwaiting q hq hp

/-- A request that has just been sent agrees with the row as its client does. -/
theorem sound_received {s : State Content} (h : Agreed s) {r : Request Content}
    (hphase : r.phase = .received) (hm : r.matched = none)
    (hbase : ∀ t, r.op.token = some t → ∃ c, r.base = some c ∧ s.held r.client = some (c, t)) :
    r.Sound s.row where
  known := by
    intro current hc c hk
    rw [Request.Knows, hphase] at hk
    obtain ⟨c', hc', hheld⟩ := hbase _ hk.1
    cases hk.2.symm.trans hc'
    exact h.held current hc _ _ hheld
  readBack := fun _ _ hp => by
    rw [hphase] at hp
    cases hp
  based := fun ht => by
    obtain ⟨t, ht⟩ := Option.isSome_iff_exists.mp ht
    obtain ⟨c, hc, _⟩ := hbase t ht
    rw [hc]
    rfl
  saves := fun hp => by
    rw [hphase] at hp
    cases hp
  matched := fun _ hmatched => by
    rw [hm] at hmatched
    cases hmatched
  returned := fun _ _ _ hp => by
    rw [hphase] at hp
    cases hp

theorem sound_request {s : State Content} (h : Agreed s) (client : Nat) (user : Text)
    (call : Call Content) : (s.request client user call).Sound s.row := by
  have hheld : ∀ (guarded : Bool) (t : Nat),
      (if guarded then s.held client else none).map Prod.snd = some t →
        ∃ c, (if guarded then s.held client else none).map Prod.fst = some c ∧
          s.held client = some (c, t) := by
    intro guarded t ht
    cases guarded with
    | false => cases ht
    | true =>
      obtain ⟨⟨c, _⟩, hk, rfl⟩ := Option.map_eq_some_iff.mp ht
      have hk : s.held client = some (c, _) := hk
      exact ⟨c, by simp [hk], hk⟩
  cases call with
  | get => exact sound_received h rfl rfl (fun _ ht => by cases ht)
  | save content baseVersionId guarded => exact sound_received h rfl rfl (hheld guarded)
  | discard guarded => exact sound_received h rfl rfl (hheld guarded)

theorem agreed_step {s s' : State Content} {a : Action Content} (h : Agreed s)
    (hok : StampsApart s a) (hs : s.step a = some s') : Agreed s' := by
  cases a with
  | send client user call =>
    cases hs
    refine ⟨h.held, fun q hq => ?_⟩
    rcases List.mem_append.mp hq with hq | hq
    · exact h.requests q hq
    · rw [List.mem_singleton.mp hq]
      exact sound_request h client user call
  | authorize i allowed =>
    obtain ⟨r, hr, hs⟩ := Option.bind_eq_some_iff.mp hs
    have hsound := h.requests r (List.mem_of_getElem? hr)
    split at hs
    case h_1 hphase =>
      cases hs
      refine ⟨h.held, fun q hq => ?_⟩
      rcases mem_set_cases hq with rfl | hq
      · cases allowed with
        | true =>
          exact
            { known := fun current hc c hk => by
                refine hsound.known current hc c ?_
                rw [Request.Knows, hphase]
                exact hk
              readBack := fun _ _ hp => by cases hp
              based := hsound.based
              saves := fun hp => by cases hp
              matched := hsound.matched
              returned := fun _ _ _ hp => by cases hp }
        | false => exact hsound.silent _ (fun _ _ hk => by cases hk) (by simp) (by simp)
      · exact h.requests q (List.mem_of_mem_eraseIdx hq)
    case h_2 => cases hs
  | statement i now =>
    obtain ⟨r, hr, hs⟩ := Option.bind_eq_some_iff.mp hs
    cases hs
    exact agreed_statement h hr hok
  | deliver i =>
    obtain ⟨r, hr, hs⟩ := Option.bind_eq_some_iff.mp hs
    have hsound := h.requests r (List.mem_of_getElem? hr)
    split at hs
    case h_1 reply hphase =>
      cases hs
      refine ⟨fun current hc client c hk => ?_, fun q hq =>
        h.requests q (List.mem_of_mem_eraseIdx hq)⟩
      have hrow : s.row = some current := hc
      cases hl : r.learned with
      | none =>
        simp only [hl] at hk
        exact h.held current hrow client c hk
      | some known =>
        simp only [hl] at hk
        by_cases hclient : client = r.client
        · subst hclient
          rw [Function.update_self] at hk
          refine hsound.known current hrow c ?_
          rw [Request.Knows, hphase]
          exact hl.trans hk
        · rw [Function.update_of_ne hclient] at hk
          exact h.held current hrow client c hk
    case h_2 => cases hs
  | lose i =>
    cases hs
    exact ⟨h.held, fun q hq => h.requests q (List.mem_of_mem_eraseIdx hq)⟩

theorem agreed_run {s s' : State Content} {actions : List (Action Content)} (h : Agreed s)
    (hok : Along StampsApart s actions) (hs : s.run actions = some s') : Agreed s' := by
  induction actions generalizing s with
  | nil =>
    cases hs
    exact h
  | cons a actions ih =>
    obtain ⟨t, ht, hs⟩ := Option.bind_eq_some_iff.mp hs
    exact ih (agreed_step h hok.1 ht) (hok.2 t ht) hs

/-! ## The condition is exact -/

/-- Some continuation loses an update. -/
def CanLose (s : State Content) : Prop := ∃ actions s', s.run actions = some s' ∧ ¬ NoLostUpdate s'

theorem CanLose.of_step {s s' : State Content} {a : Action Content} (hs : s.step a = some s')
    (h : CanLose s') : CanLose s := by
  obtain ⟨actions, t, ht, hbad⟩ := h
  exact ⟨a :: actions, t, by rw [State.run, hs]; exact ht, hbad⟩

theorem canLose_of_admitted {s : State Content} {row : Row Content} (hrow : s.row = some row)
    {j : Nat} {q : Request Content} (hq : s.requests[j]? = some q) (hphase : q.phase = .admitted)
    (htoken : q.op.token = some row.updatedAt) {c : Content} (hbase : q.base = some c)
    (hne : c ≠ row.content) : CanLose s := by
  have hj : j < s.requests.length := (List.getElem?_eq_some_iff.mp hq).1
  have hm : matching (some row) row.updatedAt = some row := by simp [matching]
  have hmatched : (execute 0 s.row q).2.matched = some row ∧ (execute 0 s.row q).2.base = some c := by
    rw [hrow]
    cases hop : q.op with
    | get =>
      rw [hop] at htoken
      cases htoken
    | save dto =>
      rw [hop] at htoken
      have hexp : dto.expectedUpdatedAt = some row.updatedAt := htoken
      simp only [execute, hphase, hop, save, hexp, hm]
      exact ⟨trivial, hbase⟩
    | discard expected =>
      rw [hop] at htoken
      have hexp : expected = some row.updatedAt := htoken
      simp only [execute, hphase, hop, discard, hexp, hm]
      exact ⟨trivial, hbase⟩
  refine ⟨[.statement j 0], _, by simp only [State.run, State.step, hq]; rfl, fun hkept => ?_⟩
  have := (hkept _ (List.mem_set hj _)).1 row hmatched.1
  rw [hmatched.2] at this
  exact hne (Option.some.inj this)

theorem canLose_of_received {s : State Content} {row : Row Content} (hrow : s.row = some row)
    {j : Nat} {q : Request Content} (hq : s.requests[j]? = some q) (hphase : q.phase = .received)
    (htoken : q.op.token = some row.updatedAt) {c : Content} (hbase : q.base = some c)
    (hne : c ≠ row.content) : CanLose s := by
  have hj : j < s.requests.length := (List.getElem?_eq_some_iff.mp hq).1
  have hstep : s.step (.authorize j true) =
      some { s with requests := s.requests.set j { q with phase := .admitted } } := by
    simp only [State.step, hq, Option.bind_eq_bind, Option.bind_some, hphase, if_true]
  refine .of_step hstep (canLose_of_admitted hrow (j := j) (q := { q with phase := .admitted })
    ?_ rfl htoken hbase hne)
  exact List.getElem?_set_self hj

/-- A client that takes the stamp of the row for the token of another document. -/
theorem canLose_of_held {s : State Content} {row : Row Content} (hrow : s.row = some row)
    {client : Nat} {c : Content} (hheld : s.held client = some (c, row.updatedAt))
    (hne : c ≠ row.content) : CanLose s := by
  refine .of_step (a := .send client [] (.save c none true)) rfl
    (canLose_of_received hrow (j := s.requests.length)
      (q := s.request client [] (.save c none true)) ?_ rfl ?_ ?_ hne)
  · exact List.getElem?_concat_length
  · simp [State.request, Op.token, hheld]
  · simp [State.request, hheld]

theorem canLose_of_replied {s : State Content} {row : Row Content} (hrow : s.row = some row)
    {j : Nat} {q : Request Content} (hq : s.requests[j]? = some q) {reply : Reply Content}
    (hphase : q.phase = .replied reply) {c : Content} (hl : q.learned = some (c, row.updatedAt))
    (hne : c ≠ row.content) : CanLose s := by
  have hstep : s.step (.deliver j) = some { s with
      held := Function.update s.held q.client (some (c, row.updatedAt))
      requests := s.requests.eraseIdx j } := by
    simp only [State.step, hq, Option.bind_eq_bind, Option.bind_some, hphase, hl]
  exact .of_step hstep (canLose_of_held hrow (Function.update_self q.client _ s.held) hne)

theorem canLose_of_readBack {s : State Content} {row : Row Content} (hrow : s.row = some row)
    {j : Nat} {q : Request Content} (hq : s.requests[j]? = some q) (hphase : q.phase = .readBack)
    {dto : SaveWorkingCopyDto Content} (hop : q.op = .save dto)
    (hbad : q.written ≠ some row.updatedAt ∨ dto.content ≠ row.content) : CanLose s := by
  have hj : j < s.requests.length := (List.getElem?_eq_some_iff.mp hq).1
  have hstep : s.step (.statement j 0) = some { s with
      requests := s.requests.set j { q with phase := .replied row.saved } } := by
    simp only [State.step, hq, Option.bind_eq_bind, Option.bind_some, execute, hphase, hrow]
  rcases hbad with hbad | hbad
  · refine ⟨[.statement j 0], _, by rw [State.run, hstep]; rfl, fun hkept => hbad ?_⟩
    exact (hkept _ (List.mem_set hj _)).2 _ _ _ rfl
  · refine .of_step hstep (canLose_of_replied hrow (j := j)
      (q := { q with phase := .replied row.saved }) (List.getElem?_set_self hj) rfl
      (c := dto.content) ?_ hbad)
    simp only [Request.learned, Row.saved, hop]

/-- A request that takes the stamp of the row for the token of another document. -/
theorem canLose_of_knows {s : State Content} {row : Row Content} (hrow : s.row = some row)
    {j : Nat} {q : Request Content} (hq : s.requests[j]? = some q) {c : Content}
    (hk : q.Knows c row.updatedAt) (hne : c ≠ row.content) : CanLose s := by
  unfold Request.Knows at hk
  split at hk
  case h_1 hphase => exact canLose_of_received hrow hq hphase hk.1 hk.2 hne
  case h_2 hphase => exact canLose_of_admitted hrow hq hphase hk.1 hk.2 hne
  case h_3 hphase =>
    obtain ⟨_, dto, hop, rfl⟩ := hk
    exact canLose_of_readBack hrow hq hphase hop (Or.inr hne)
  case h_4 reply hphase => exact canLose_of_replied hrow hq hphase hk hne
  case h_5 => exact hk.elim

/-- A write whose stamp is not apart from the tokens about can lose an update. -/
theorem canLose_of_not_apart {s s' : State Content} (h : Agreed s) {i now : Nat}
    (hs : s.step (.statement i now) = some s') (hna : ¬ StampsApart s (.statement i now)) :
    CanLose s' := by
  obtain ⟨r, hr, hs⟩ := Option.bind_eq_some_iff.mp hs
  cases hs
  simp only [StampsApart, not_forall] at hna
  obtain ⟨r', content, hr', hw, hna⟩ := hna
  cases hr.symm.trans hr'
  obtain ⟨new, hrow, hcontent, hstamp⟩ : ∃ new, (execute now s.row r).1 = some new ∧
      new.content = content ∧ new.updatedAt = now := writes_spec hw now
  have hfind : ∀ q ∈ s.requests.eraseIdx i,
      ∃ j : Nat, (s.requests.set i (execute now s.row r).2)[j]? = some q := by
    intro q hq
    obtain ⟨j, hj, hq⟩ := List.mem_eraseIdx_iff_getElem?.mp hq
    exact ⟨j, by rw [List.getElem?_set_ne (Ne.symm hj), hq]⟩
  subst hcontent hstamp
  rw [not_and_or, not_forall, not_forall] at hna
  rcases hna with ⟨c, hna⟩ | ⟨q, hna⟩
  · obtain ⟨hk, hne⟩ := Classical.not_imp.mp hna
    rcases hk with ⟨client, hk⟩ | ⟨q, hq, hk⟩
    · exact canLose_of_held hrow hk hne
    · obtain ⟨j, hj⟩ := hfind q hq
      exact canLose_of_knows hrow hj hk hne
  · obtain ⟨hq, hna⟩ := Classical.not_imp.mp hna
    obtain ⟨hphase, hwritten⟩ := Classical.not_imp.mp hna
    obtain ⟨j, hj⟩ := hfind q hq
    obtain ⟨dto, hop⟩ := (h.requests q (List.mem_of_mem_eraseIdx hq)).saves hphase
    exact canLose_of_readBack hrow hj hphase hop (Or.inl hwritten)

/-! ## No lost update -/

/-- A first save without a token, and the next one with the token it returned. -/
def twoSaves : List (Action Nat) :=
  [.send 0 "u".toList (.save 1 none false), .authorize 0 true, .statement 0 5, .deliver 0,
    .send 0 "u".toList (.save 2 none true), .authorize 0 true, .statement 0 7, .statement 0 7]

/-- Two clients hold the same row; one forces its document between the two statements
of the other's save, which then takes the stranger's stamp for its own. -/
def overtaken : List (Action Nat) :=
  [.send 0 "u".toList .get, .authorize 0 true, .statement 0 1, .deliver 0,
    .send 0 "u".toList (.save 1 none true), .authorize 0 true, .statement 0 200,
    .send 1 "v".toList (.save 2 none false), .authorize 1 true, .statement 1 300,
    .statement 0 300, .deliver 0,
    .send 0 "u".toList (.save 3 none true), .authorize 1 true, .statement 1 400]

/-- A token matched a row whose document its client has not seen. -/
def hasLost (s : State Nat) : Bool :=
  s.requests.any fun r => match r.matched with
    | some row => r.base ≠ some row.content
    | none => false

end CircuitForge.WorkingCopy
