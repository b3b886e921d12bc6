/-
The open document and its saves: `apps/web/lib/useDocument.ts`, with the store of
`draftStore.ts`.

An action is what runs from one `await` or callback up to the next: an edit, a timer, a save
that comes back, a project that is opened.  They come in any order.  A save that is sent stays
on the wire until its reply is in.
-/
import CircuitForge.Js.Runs
import CircuitForge.Web.Client

namespace CircuitForge.Document

open Js Client

variable {α : Type}

/-- A document as an object.  The loader makes new objects, so one is never of two stays.  Its
content is what `sameJson` compares. -/
structure Doc (α : Type) where
  stay : Nat
  object : Nat
  content : α
deriving DecidableEq

/-! ## The copy on the device -/

/-- `StoredDraft`; `projectId` is the key it is stored under. -/
structure StoredDraft (α : Type) where
  content : α
  baseToken : Option Text
  baseVersionId : Option Text
  writtenAt : Text

abbrev Drafts (α : Type) := Text → Option (StoredDraft α)

/-- What the browser does with a write. -/
inductive Room where
  | fits
  /-- Only once the drafts of the other projects are dropped. -/
  | fitsAlone
  | full
  | unavailable
deriving DecidableEq

/-- `PutResult`. -/
inductive PutResult where
  | ok
  | quota
  | unavailable
deriving DecidableEq

/-- `put` of `browserDraftStore`. -/
def put (room : Room) (drafts : Drafts α) (projectId : Text) (draft : StoredDraft α) :
    Drafts α × PutResult :=
  match room with
  | .fits => (Function.update drafts projectId (some draft), .ok)
  | .fitsAlone => (Function.update (fun _ => none) projectId (some draft), .ok)
  | .full => (Function.update (fun _ => none) projectId (drafts projectId), .quota)
  | .unavailable => (drafts, .unavailable)

/-- `clear`. -/
def clear (drafts : Drafts α) (projectId : Text) : Drafts α := Function.update drafts projectId none

/-! ## The state -/

inductive SaveState where
  | clean (savedAt : Option Text)
  | dirty
  | saving
  | conflict (theirUpdatedAt : Option Text)
  | error (kind : FailureKind)

/-- What the loader opens: `OpenedProject`. -/
inductive OpenedProject (α : Type) where
  | workingCopy (content : α) (updatedAt : Text) (baseVersionId : Option Text)
  | version (content : α) (id : Text)
  | empty

def OpenedProject.content : OpenedProject α → Option α
  | workingCopy content _ _ => some content
  | version content _ => some content
  | empty => none

/-- Only a working copy has a token. -/
def OpenedProject.token : OpenedProject α → Option Text
  | workingCopy _ updatedAt _ => some updatedAt
  | _ => none

def OpenedProject.baseVersionId : OpenedProject α → Option Text
  | workingCopy _ _ baseVersionId => baseVersionId
  | version _ id => some id
  | empty => none

/-- Unsaved work that was found on the device, as it is offered. -/
structure Recovery (α : Type) where
  content : α
  writtenAt : Text
  continuesServerDraft : Bool

/-- A save on the wire: the arguments of `sendFor`. -/
structure Request (α : Type) where
  projectId : Text
  doc : Doc α
  token : Option Text
  baseVersionId : Option Text

/-- `w.current`, what is on screen, the device and the wire.  No statement reads the last
fields: they count the stays, and record what was on screen, what was acknowledged last, and
whether there is work since the project was opened and was not discarded. -/
structure State (α : Type) where
  projectId : Option Text := none
  token : Option Text := none
  baseVersionId : Option Text := none
  pending : Option (Doc α) := none
  inFlight : Option (Doc α) := none
  timer : Bool := false
  unpersisted : Option (Doc α) := none
  persistTimer : Bool := false
  alive : Bool := true
  /-- `history.present`. -/
  present : Option (Doc α) := none
  save : SaveState := .clean none
  recovery : Option (Recovery α) := none
  localBackup : PutResult := .ok
  drafts : Drafts α
  wire : List (Request α) := []
  stay : Nat := 0
  shown : List (Text × Doc α) := []
  acked : Text → Option (Doc α) := fun _ => none
  touched : Bool := false
  dropped : Bool := false

/-- An editor that has opened nothing yet. -/
def State.start (drafts : Drafts α) : State α where
  drafts

/-- The answer to a save. -/
inductive Reply where
  | saved (updatedAt : Text) (baseVersionId : Option Text)
  | failed (kind : FailureKind) (currentUpdatedAt : Option Text)

/-! ## What the hook does -/

/-- A document comes on screen, or into the queue. -/
def State.show (s : State α) (doc : Doc α) : State α :=
  { s with shown := (s.projectId.map fun p => (p, doc)).toList ++ s.shown }

/-- `persistNow`. -/
def State.persistNow (s : State α) (room : Room) (now : Text) : State α :=
  let s := { s with persistTimer := false }
  match s.unpersisted, s.projectId with
  | some doc, some projectId =>
    let (drafts, result) := put room s.drafts projectId
      { content := doc.content
        baseToken := s.token
        baseVersionId := s.baseVersionId
        writtenAt := now }
    { s with
      unpersisted := none
      drafts
      localBackup := if s.alive then result else s.localBackup }
  | _, _ => s

/-- `sendFor` up to its `await`. -/
def State.sendFor (s : State α) (r : Request α) : State α :=
  { s with
    inFlight := some r.doc
    save := if s.projectId = some r.projectId then .saving else s.save
    wire := s.wire ++ [r] }

/-- A request for what is open, with the token and the provenance at hand. -/
def State.request (s : State α) (projectId : Text) (doc : Doc α) : Request α where
  projectId
  doc
  token := s.token
  baseVersionId := s.baseVersionId

/-- `flush`. -/
def State.flush (s : State α) : State α :=
  let s := { s with timer := false }
  match s.pending, s.projectId with
  | some doc, some projectId =>
    if s.inFlight.isSome then s
    else { s with pending := none }.sendFor (s.request projectId doc)
  | _, _ => s

/-- `schedule`. -/
def State.schedule (s : State α) (doc : Doc α) : State α :=
  { s.show doc with
    pending := some doc
    save := match s.save with
      | .conflict theirs => .conflict theirs
      | _ => .dirty
    timer := true
    unpersisted := some doc
    persistTimer := true
    touched := true
    dropped := false }

/-- An edit, an undo or a redo that changes the document. -/
def State.edit (s : State α) (object : Nat) (content : α) : State α :=
  let doc := ⟨s.stay, object, content⟩
  { s.schedule doc with present := some doc }

/-- Unsent edits of another project go out before they are dropped. -/
def State.leave (s : State α) (projectId : Text) : State α :=
  match s.projectId, s.pending with
  | some old, some doc =>
    if old ≠ projectId ∧ s.inFlight = none then s.sendFor (s.request old doc) else s
  | _, _ => s

/-- The local copy, cleared where the loader has the same document and else offered. -/
def State.offer [DecidableEq α] (s : State α) (projectId : Text) (opened : OpenedProject α) :
    State α :=
  match s.drafts projectId with
  | none => { s with recovery := none }
  | some found =>
    if opened.content = some found.content then
      { s with drafts := clear s.drafts projectId, recovery := none }
    else
      { s with
        recovery := some
          { content := found.content
            writtenAt := found.writtenAt
            continuesServerDraft := found.baseToken = opened.token } }

/-- The effect that adopts what the loader opened. -/
def State.adopt [DecidableEq α] (s : State α) (projectId : Text) (opened : OpenedProject α) :
    State α :=
  let present := opened.content.map fun content => ⟨s.stay + 1, 0, content⟩
  let s :=
    { s.leave projectId with
      projectId := some projectId
      pending := none
      inFlight := none
      timer := false
      token := opened.token
      baseVersionId := opened.baseVersionId
      present
      save := .clean opened.token
      stay := s.stay + 1
      touched := false }
  (present.elim s s.show).offer projectId opened

/-- The server holds everything there is. -/
def State.settled (s : State α) (projectId updatedAt : Text) : State α :=
  { s with
    pending := none
    save := .clean (some updatedAt)
    unpersisted := none
    persistTimer := false
    drafts := clear s.drafts projectId }

/-- The rest of `sendFor` when the save of `r` went through. -/
def State.acknowledge [DecidableEq α] (s : State α) (r : Request α) (updatedAt : Text)
    (baseVersionId : Option Text) : State α :=
  let s := { s with acked := Function.update s.acked r.projectId (some r.doc) }
  if s.alive = true ∧ s.projectId = some r.projectId then
    let s := { s with token := some updatedAt, baseVersionId, inFlight := none }
    match s.pending with
    | some queued =>
      if queued = r.doc then s.settled r.projectId updatedAt
      else { s with pending := none }.sendFor (s.request r.projectId queued)
    | none => s.settled r.projectId updatedAt
  else { s with inFlight := if s.inFlight = some r.doc then none else s.inFlight }

/-- The rest of `sendFor` when the save of `r` failed. -/
def State.refuse [DecidableEq α] (s : State α) (r : Request α) (kind : FailureKind)
    (currentUpdatedAt : Option Text) : State α :=
  let s := { s with inFlight := if s.inFlight = some r.doc then none else s.inFlight }
  if s.alive = false ∨ s.projectId ≠ some r.projectId ∨ kind = .aborted then s
  else
    { s with
      pending := s.pending.or (some r.doc)
      save := if kind = .conflict then .conflict currentUpdatedAt else .error kind }

/-- `overwriteWithMine`. -/
def State.overwriteWithMine (s : State α) : State α :=
  match (s.pending.or s.inFlight).or s.present, s.projectId with
  | some doc, some projectId =>
    if s.inFlight.isSome then s
    else { s with pending := none }.sendFor { s.request projectId doc with token := none }
  | _, _ => s

/-- `takeTheirs`, up to the reload. -/
def State.takeTheirs (s : State α) : State α :=
  { s with timer := false, pending := none, touched := false }

/-- `recoverLocal`; the document on screen and the one that is queued are two objects. -/
def State.recoverLocal (s : State α) (object queued : Nat) : State α :=
  match s.recovery, s.projectId with
  | some found, some _ =>
    let doc := ⟨s.stay, object, found.content⟩
    { (s.show doc).schedule ⟨s.stay, queued, found.content⟩ with
      present := some doc
      recovery := none }
  | _, _ => s

/-- `discardLocal`. -/
def State.discardLocal (s : State α) : State α :=
  { s with
    drafts := match s.projectId with
      | some projectId => clear s.drafts projectId
      | none => s.drafts
    unpersisted := none
    persistTimer := false
    recovery := none
    dropped := true }

/-- The effects are cleaned up. -/
def State.unmount (s : State α) : State α :=
  let s := { s with alive := false, timer := false }
  match s.pending, s.projectId with
  | some doc, some projectId =>
    if s.inFlight.isSome then s else s.sendFor (s.request projectId doc)
  | _, _ => s

/-! ## The system -/

inductive Action (α : Type) where
  | adopt (projectId : Text) (opened : OpenedProject α)
  | edit (object : Nat) (content : α)
  /-- The pause in typing is over. -/
  | idle
  | flush
  /-- The other timer, or `pagehide`. -/
  | persist (room : Room) (now : Text)
  /-- The reply to a save is in. -/
  | reply (request : Nat) (reply : Reply)
  | overwriteWithMine
  | takeTheirs
  | recoverLocal (object queued : Nat)
  | discardLocal
  | unmount

/-- What an action does, where it can happen. -/
def step [DecidableEq α] (s : State α) : Action α → Option (State α)
  | .adopt projectId opened => if s.alive then some (s.adopt projectId opened) else none
  | .edit object content =>
    if s.alive ∧ s.present.isSome then some (s.edit object content) else none
  | .idle => if s.timer then some s.flush else none
  | .flush => if s.alive then some s.flush else none
  | .persist room now =>
    if s.alive ∨ s.persistTimer then some (s.persistNow room now) else none
  | .reply i reply => do
    let r ← s.wire[i]?
    let s := { s with wire := s.wire.eraseIdx i }
    match reply with
    | .saved updatedAt baseVersionId => some (s.acknowledge r updatedAt baseVersionId)
    | .failed kind currentUpdatedAt => some (s.refuse r kind currentUpdatedAt)
  | .overwriteWithMine => if s.alive then some s.overwriteWithMine else none
  | .takeTheirs => if s.alive then some s.takeTheirs else none
  | .recoverLocal object queued => if s.alive then some (s.recoverLocal object queued) else none
  | .discardLocal => if s.alive then some s.discardLocal else none
  | .unmount => if s.alive then some s.unmount else none

end CircuitForge.Document
