/-
The commit kernel: `editor-core/src/document/history.ts`.

Snapshots on two stacks, with the present between them.  The kernel carries a
document without an opinion about it, so circuits and drawings are parameters.
-/
import CircuitForge.Editor.Edits
import CircuitForge.Js.Timeline

namespace CircuitForge

open Js

/-- How the kernel reads the documents it carries, and what it calls on them.
Objects are compared by reference, so a `Ref` stands for an object's identity. -/
class Kernel where
  Ref : Type
  Position : Type
  Circuit : Type
  Ui : Type
  [decRef : DecidableEq Ref]
  components : Circuit → List Ref
  /-- `c.id`. -/
  componentId : Ref → Text
  nets : Circuit → List Ref
  metadata : Circuit → Ref
  version : Circuit → Ref
  /-- The drawing itself, as an object. -/
  uiRef : Ui → Ref
  positions : Ui → Option (Map Text Position)
  /-- `{ ...ui, positions }`. -/
  setPositions : Ui → Map Text Position → Ui
  freezeDrawing : Circuit → Ui → Ui
  syncDrawing : Circuit → Ui → Ui
  sameJson : Ui → Ui → Bool

attribute [reducible, instance] Kernel.decRef


/-- `HISTORY_LIMIT`. -/
def historyLimit : Nat := 50

variable [Kernel]

open Kernel (Ref Circuit Ui)

structure EditorDocument where
  circuit : Circuit
  ui : Ui

structure Touched where
  components : List Ref
  nets : List Ref
  other : Bool

structure Revision where
  snapshot : EditorDocument
  label : Text
  touched : Touched

structure History where
  present : EditorDocument
  past : List Revision
  future : List Revision

inductive CommitResult where
  | changed (history : History) (notes : List Text)
  | unchanged (history : History)
  | refused (index : Nat) (reason : EditRefusal) (message : Text)

def canUndo (history : History) : Bool := history.past.length > 0

def canRedo (history : History) : Bool := history.future.length > 0

/-- `xs.slice(-HISTORY_LIMIT)`. -/
def lastRevisions (xs : List Revision) : List Revision :=
  xs.drop (xs.length - historyLimit)

def beginHistory (opened : EditorDocument) : History := ⟨opened, [], []⟩

/-- `touchedBetween`: the objects of `after` that `before` does not hold. -/
def touchedBetween (before after : EditorDocument) : Touched where
  components := (Kernel.components after.circuit).dedup.filter
    (· ∉ Kernel.components before.circuit)
  nets := (Kernel.nets after.circuit).dedup.filter (· ∉ Kernel.nets before.circuit)
  other := Kernel.uiRef before.ui ≠ Kernel.uiRef after.ui ||
    (Kernel.components before.circuit).length ≠ (Kernel.components after.circuit).length ||
    (Kernel.nets before.circuit).length ≠ (Kernel.nets after.circuit).length ||
    Kernel.metadata before.circuit ≠ Kernel.metadata after.circuit ||
    Kernel.version before.circuit ≠ Kernel.version after.circuit

/-- `withoutOrphanPositions`. -/
def withoutOrphanPositions (ui : Ui) (circuit : Circuit) : Ui :=
  match Kernel.positions ui with
  | none => ui
  | some positions =>
    let alive := (Kernel.components circuit).map Kernel.componentId
    if positions.all fun e => e.1 ∈ alive then ui
    else Kernel.setPositions ui (positions.filter fun e => e.1 ∈ alive)

/-- What the edits of a commit made of the circuit. -/
structure Applied where
  circuit : Circuit
  changed : Bool
  notes : List Text
  created : List Text

/-- The edits in turn; the first refusal aborts with its index. -/
def applyEdits (index : Nat) (applied : Applied) :
    List (Circuit → EditResult Circuit) → Except (Nat × EditRefusal × Text) Applied
  | [] => .ok applied
  | edit :: edits =>
    match edit applied.circuit with
    | .refused reason message => .error (index, reason, message)
    | .changed circuit note created _ =>
      applyEdits (index + 1)
        { circuit
          changed := true
          notes := applied.notes ++ (truthy note).toList
          created := applied.created ++ created } edits
    | .unchanged _ => applyEdits (index + 1) applied edits

/-- The revision that records what `history` goes back to. -/
def recorded (history : History) (label : Text) (next : EditorDocument) :
    History where
  present := next
  past := lastRevisions
    (history.past ++ [⟨history.present, label, touchedBetween history.present next⟩])
  future := []

/-- The drawing after a commit: the caller's change to an owned drawing, without what
the design no longer has, brought in step with the design. -/
def nextDrawing (present : EditorDocument) (applied : Applied)
    (drawing : Option (Ui → List Text → Circuit → Ui)) : Ui :=
  let owned := Kernel.freezeDrawing present.circuit present.ui
  let drawn := match drawing with
    | some draw => draw owned applied.created applied.circuit
    | none => owned
  Kernel.syncDrawing applied.circuit (withoutOrphanPositions drawn applied.circuit)

def commit (history : History) (label : Text) (edits : List (Circuit → EditResult Circuit))
    (drawing : Option (Ui → List Text → Circuit → Ui)) : CommitResult :=
  match applyEdits 0 ⟨history.present.circuit, false, [], []⟩ edits with
  | .error (index, reason, message) => .refused index reason message
  | .ok applied =>
    if !applied.changed && drawing.isNone then .unchanged history
    else if !applied.changed &&
        Kernel.sameJson (nextDrawing history.present applied drawing) history.present.ui then
      .unchanged history
    else
      .changed (recorded history label ⟨applied.circuit, nextDrawing history.present applied drawing⟩)
        applied.notes

def commitUi (history : History) (label : Text) (ui : Ui) : CommitResult :=
  if Kernel.sameJson ui history.present.ui then .unchanged history
  else .changed (recorded history label ⟨history.present.circuit, ui⟩) []

/-- `undo`: the last revision of the past becomes the present. -/
def undo (history : History) : History :=
  match history.past.getLast? with
  | none => history
  | some previous =>
    { present := previous.snapshot
      past := history.past.dropLast
      future := ⟨history.present, previous.label, previous.touched⟩ :: history.future }

def redo (history : History) : History :=
  match history.future with
  | [] => history
  | next :: rest =>
    { present := next.snapshot
      past := lastRevisions (history.past ++ [⟨history.present, next.label, next.touched⟩])
      future := rest }

def adopt (fromElsewhere : EditorDocument) : History :=
  beginHistory fromElsewhere

/-! ## Runs -/

/-- What an editor asks of its history. -/
inductive HistoryOp where
  | commit (label : Text) (edits : List (Circuit → EditResult Circuit))
      (drawing : Option (Ui → List Text → Circuit → Ui))
  | commitUi (label : Text) (ui : Ui)
  | undo
  | redo
  | adopt (fromElsewhere : EditorDocument)

/-- The history an editor holds after a commit: the old one where it is refused. -/
def CommitResult.historyAfter (result : CommitResult) (old : History) :
    History :=
  match result with
  | .changed history _ => history
  | .unchanged history => history
  | .refused _ _ _ => old

/-- What a commit answers, with the label it was given; the other operations answer
nothing. -/
def HistoryOp.result (history : History) : HistoryOp → Option (Text × CommitResult)
  | .commit label edits drawing => some (label, CircuitForge.commit history label edits drawing)
  | .commitUi label ui => some (label, CircuitForge.commitUi history label ui)
  | _ => none

def History.step (history : History) : HistoryOp → History
  | .commit label edits drawing => (commit history label edits drawing).historyAfter history
  | .commitUi label ui => (commitUi history label ui).historyAfter history
  | .undo => CircuitForge.undo history
  | .redo => CircuitForge.redo history
  | .adopt fromElsewhere => CircuitForge.adopt fromElsewhere

def History.run (history : History) (ops : List HistoryOp) : History := ops.foldl History.step history

@[simp] theorem History.run_nil (history : History) : history.run [] = history := rfl

@[simp] theorem History.run_cons (history : History) (op : HistoryOp) (ops : List HistoryOp) :
    history.run (op :: ops) = (history.step op).run ops := rfl

theorem History.run_append (history : History) (ops ops' : List HistoryOp) :
    history.run (ops ++ ops') = (history.run ops).run ops' := List.foldl_append

/-! ## What an operation does -/

/-- The two stacks together hold no more than the limit. -/
def History.Bounded (history : History) : Prop :=
  history.past.length + history.future.length ≤ historyLimit

/-- `new` is `old` with one revision on top: the future is gone, and of the past the
oldest revision where the limit was reached. -/
structure RecordedOn (old : History) (label : Text) (new : History) : Prop where
  future_eq : new.future = []
  past_eq : ∃ revision : Revision, revision.snapshot = old.present ∧ revision.label = label ∧
    revision.touched = touchedBetween old.present new.present ∧
    new.past = (if old.past.length < historyLimit then old.past else old.past.tail) ++ [revision]

theorem lastRevisions_of_le {xs : List Revision} (h : xs.length ≤ historyLimit) :
    lastRevisions xs = xs := by
  rw [lastRevisions, Nat.sub_eq_zero_of_le h, List.drop_zero]

theorem lastRevisions_concat {xs : List Revision} (h : xs.length ≤ historyLimit) (x : Revision) :
    lastRevisions (xs ++ [x]) =
      (if xs.length < historyLimit then xs else xs.tail) ++ [x] := by
  by_cases hlt : xs.length < historyLimit
  · rw [if_pos hlt]
    exact lastRevisions_of_le (by rw [List.length_append, List.length_singleton]; omega)
  · have heq : xs.length = historyLimit := by omega
    have hpos : 0 < xs.length := by rw [heq, historyLimit]; omega
    rw [if_neg hlt, lastRevisions, List.length_append, List.length_singleton, heq,
      Nat.add_sub_cancel_left, List.drop_append_of_le_length hpos, List.drop_one]

theorem recordedOn_recorded {history : History} (hb : history.Bounded) (label : Text)
    (next : EditorDocument) : RecordedOn history label (recorded history label next) where
  future_eq := rfl
  past_eq := ⟨_, rfl, rfl, rfl, lastRevisions_concat (by unfold History.Bounded at hb; omega) _⟩

/-- A commit is refused with the edit that was, leaves the history, or records the
document its edits and its drawing make. -/
theorem commit_cases (history : History) (label : Text)
    (edits : List (Circuit → EditResult Circuit))
    (drawing : Option (Ui → List Text → Circuit → Ui)) :
    (∃ index reason message, commit history label edits drawing = .refused index reason message) ∨
      commit history label edits drawing = .unchanged history ∨
      ∃ applied, applyEdits 0 ⟨history.present.circuit, false, [], []⟩ edits = .ok applied ∧
        commit history label edits drawing = .changed (recorded history label
          ⟨applied.circuit, nextDrawing history.present applied drawing⟩) applied.notes := by
  unfold commit
  cases applyEdits 0 ⟨history.present.circuit, false, [], []⟩ edits with
  | error e => exact Or.inl ⟨e.1, e.2.1, e.2.2, rfl⟩
  | ok applied =>
    refine Or.inr ?_
    simp only
    split
    · exact Or.inl rfl
    · split
      · exact Or.inl rfl
      · exact Or.inr ⟨applied, rfl, rfl⟩

theorem commitUi_cases (history : History) (label : Text) (ui : Ui) :
    commitUi history label ui = .unchanged history ∨
      commitUi history label ui =
        .changed (recorded history label ⟨history.present.circuit, ui⟩) [] := by
  unfold commitUi
  split
  · exact Or.inl rfl
  · exact Or.inr rfl

/-- What the answer of a commit says about the history it was asked of. -/
def CommitResult.Answers (history : History) (label : Text) : CommitResult → Prop
  | .changed history' _ => history' = recorded history label history'.present
  | .unchanged history' => history' = history
  | .refused _ _ _ => True

theorem answers_commit (history : History) (label : Text)
    (edits : List (Circuit → EditResult Circuit))
    (drawing : Option (Ui → List Text → Circuit → Ui)) :
    (commit history label edits drawing).Answers history label := by
  rcases commit_cases history label edits drawing with ⟨_, _, _, hc⟩ | hc | ⟨_, _, hc⟩
  · rw [hc]
    trivial
  · rw [hc]
    rfl
  · rw [hc]
    rfl

theorem answers_commitUi (history : History) (label : Text) (ui : Ui) :
    (commitUi history label ui).Answers history label := by
  rcases commitUi_cases history label ui with hc | hc <;> rw [hc] <;> rfl

theorem result_spec {history : History} {op : HistoryOp} {label : Text} {result : CommitResult}
    (h : op.result history = some (label, result)) :
    history.step op = result.historyAfter history ∧ result.Answers history label := by
  cases op with
  | commit label edits drawing =>
    cases h
    exact ⟨rfl, answers_commit history label edits drawing⟩
  | commitUi label ui =>
    cases h
    exact ⟨rfl, answers_commitUi history label ui⟩
  | undo => cases h
  | redo => cases h
  | adopt fromElsewhere => cases h

/-- A step is a commit with its answer, moves in the history or begins a new one. -/
theorem step_cases (history : History) (op : HistoryOp) :
    (∃ label result, op.result history = some (label, result)) ∨ op = .undo ∨ op = .redo ∨
      ∃ opened, op = .adopt opened := by
  cases op with
  | commit label edits drawing => exact Or.inl ⟨_, _, rfl⟩
  | commitUi label ui => exact Or.inl ⟨_, _, rfl⟩
  | undo => exact Or.inr (Or.inl rfl)
  | redo => exact Or.inr (Or.inr (Or.inl rfl))
  | adopt opened => exact Or.inr (Or.inr (Or.inr ⟨opened, rfl⟩))

theorem undo_concat (present : EditorDocument) (past future : List Revision) (r : Revision) :
    undo ⟨present, past ++ [r], future⟩ =
      ⟨r.snapshot, past, ⟨present, r.label, r.touched⟩ :: future⟩ := by
  simp only [undo, List.getLast?_concat, List.dropLast_concat]

theorem redo_cons {past future : List Revision} (h : past.length < historyLimit)
    (present : EditorDocument) (r : Revision) :
    redo ⟨present, past, r :: future⟩ =
      ⟨r.snapshot, past ++ [⟨present, r.label, r.touched⟩], future⟩ := by
  have hle : (past ++ [(⟨present, r.label, r.touched⟩ : Revision)]).length ≤ historyLimit := by
    rw [List.length_append, List.length_singleton]
    omega
  simp only [redo, lastRevisions_of_le hle]

/-- Redo takes back exactly what undo did. -/
theorem redo_undo {history : History} (hb : history.Bounded) (h : canUndo history = true) :
    redo (undo history) = history := by
  obtain ⟨present, past, future⟩ := history
  have hne : past ≠ [] := by
    rintro rfl
    cases h
  obtain ⟨init, r, rfl⟩ : ∃ init r, past = init ++ [r] :=
    ⟨_, _, (List.dropLast_append_getLast hne).symm⟩
  have hlt : init.length < historyLimit := by
    simp only [History.Bounded, List.length_append, List.length_singleton] at hb
    omega
  rw [undo_concat, redo_cons hlt]

/-- Undo takes back exactly what redo did. -/
theorem undo_redo {history : History} (hb : history.Bounded) (h : canRedo history = true) :
    undo (redo history) = history := by
  obtain ⟨present, past, future⟩ := history
  cases future with
  | nil => cases h
  | cons r future =>
    have hlt : past.length < historyLimit := by
      simp only [History.Bounded, List.length_cons] at hb
      omega
    rw [redo_cons hlt, undo_concat]

/-! ## The bound -/

theorem bounded_begin (opened : EditorDocument) : (beginHistory opened).Bounded :=
  Nat.zero_le historyLimit

theorem bounded_recorded (history : History) (label : Text) (next : EditorDocument) :
    (recorded history label next).Bounded := by
  simp only [History.Bounded, recorded, lastRevisions, List.length_drop, List.length_nil]
  omega

theorem bounded_undo {history : History} (hb : history.Bounded) : (undo history).Bounded := by
  obtain ⟨present, past, future⟩ := history
  rcases List.eq_nil_or_concat past with rfl | ⟨init, r, rfl⟩
  · exact hb
  · rw [List.concat_eq_append] at hb ⊢
    rw [undo_concat]
    simp only [History.Bounded, List.length_append, List.length_cons] at hb ⊢
    omega

theorem bounded_redo {history : History} (hb : history.Bounded) : (redo history).Bounded := by
  obtain ⟨present, past, future⟩ := history
  cases future with
  | nil => exact hb
  | cons r future =>
    simp only [History.Bounded, List.length_cons] at hb
    rw [redo_cons (by omega)]
    simp only [History.Bounded, List.length_append, List.length_singleton]
    omega

theorem bounded_step {history : History} (hb : history.Bounded) (op : HistoryOp) :
    (history.step op).Bounded := by
  rcases step_cases history op with ⟨label, result, h⟩ | rfl | rfl | ⟨opened, rfl⟩
  · obtain ⟨hs, ha⟩ := result_spec h
    rw [hs]
    cases result with
    | changed history' notes =>
      rw [CommitResult.Answers] at ha
      rw [CommitResult.historyAfter, ha]
      exact bounded_recorded history label _
    | unchanged history' =>
      rw [CommitResult.Answers] at ha
      rwa [CommitResult.historyAfter, ha]
    | refused index reason message => exact hb
  · exact bounded_undo hb
  · exact bounded_redo hb
  · exact bounded_begin opened

theorem bounded_run {history : History} (hb : history.Bounded) (ops : List HistoryOp) :
    (history.run ops).Bounded := by
  induction ops generalizing history with
  | nil => exact hb
  | cons op ops ih => exact ih (bounded_step hb op)

/-! ## The timeline -/

/-- What stands between two documents: the label and the touched set of the edit. -/
def Revision.edge (revision : Revision) : Text × Touched := (revision.label, revision.touched)

/-- The history as a row of documents with the cursor on the present. -/
def History.timeline (history : History) (hb : history.Bounded) :
    Timeline EditorDocument (Text × Touched) historyLimit where
  docs := history.past.map Revision.snapshot ++
    history.present :: history.future.map Revision.snapshot
  edges := history.past.map Revision.edge ++ history.future.map Revision.edge
  cursor := history.past.length
  length_docs := by
    simp only [List.length_append, List.length_map, List.length_cons]
    omega
  cursor_le := by
    rw [List.length_append, List.length_map]
    omega
  bounded := by
    rw [List.length_append, List.length_map, List.length_map]
    exact hb

/-- What an answered commit does to the timeline. -/
def CommitResult.event (history : History) (label : Text) :
    CommitResult → Timeline.Event EditorDocument (Text × Touched)
  | .changed history' _ =>
    .record (label, touchedBetween history.present history'.present) history'.present
  | _ => .stay

/-- What an operation does to the timeline. -/
def History.event (history : History) : HistoryOp → Timeline.Event EditorDocument (Text × Touched)
  | .undo => .back
  | .redo => .forward
  | .adopt opened => .start opened
  | .commit label edits drawing => (commit history label edits drawing).event history label
  | .commitUi label ui => (commitUi history label ui).event history label

theorem event_of_result {history : History} {op : HistoryOp} {label : Text} {result : CommitResult}
    (h : op.result history = some (label, result)) :
    history.event op = result.event history label := by
  cases op <;> cases h <;> rfl

def History.events (history : History) :
    List HistoryOp → List (Timeline.Event EditorDocument (Text × Touched))
  | [] => []
  | op :: ops => history.event op :: (history.step op).events ops

theorem timeline_congr {history history' : History} (h : history = history')
    (hb : history.Bounded) (hb' : history'.Bounded) :
    history.timeline hb = history'.timeline hb' := by
  subst h
  rfl

theorem timeline_recorded {history : History} (hb : history.Bounded) (label : Text)
    (next : EditorDocument) :
    (recorded history label next).timeline (bounded_recorded history label next) =
      (history.timeline hb).record (label, touchedBetween history.present next) next := by
  obtain ⟨present, past, future⟩ := history
  have hover : past.length + 1 - historyLimit ≤ past.length := by
    rw [historyLimit]
    omega
  have hdocs : (past.map Revision.snapshot ++ present :: future.map Revision.snapshot).take
      (past.length + 1) = past.map Revision.snapshot ++ [present] := by
    rw [List.append_cons]
    exact List.take_left' (by simp)
  have hedges : (past.map Revision.edge ++ future.map Revision.edge).take past.length =
      past.map Revision.edge :=
    List.take_left' (List.length_map _)
  refine Timeline.ext_data ?_ ?_ ?_
  · simp only [History.timeline, recorded, lastRevisions, Timeline.record, Timeline.overflow, hdocs,
      List.map_drop, List.map_append, List.map_cons, List.map_nil, List.length_append,
      List.length_singleton]
    rw [@List.drop_append_of_le_length _ _ [next]]
    simp only [List.length_append, List.length_map, List.length_singleton]
    omega
  · simp only [History.timeline, recorded, lastRevisions, Timeline.record, Timeline.overflow, hedges,
      List.append_nil, List.map_drop, List.map_append, List.map_cons, List.map_nil,
      List.length_append, List.length_singleton]
    rfl
  · simp only [History.timeline, recorded, lastRevisions, Timeline.record, Timeline.overflow,
      List.length_drop, List.length_append, List.length_singleton]

theorem timeline_undo {history : History} (hb : history.Bounded) :
    (undo history).timeline (bounded_undo hb) = (history.timeline hb).back := by
  obtain ⟨present, past, future⟩ := history
  rcases List.eq_nil_or_concat past with rfl | ⟨init, r, rfl⟩
  · rfl
  · refine Timeline.ext_data ?_ ?_ ?_ <;>
      simp [History.timeline, Timeline.back, undo, Revision.edge]

theorem timeline_redo {history : History} (hb : history.Bounded) :
    (redo history).timeline (bounded_redo hb) = (history.timeline hb).forward := by
  obtain ⟨present, past, future⟩ := history
  cases future with
  | nil =>
    exact Timeline.ext_data rfl rfl (by simp [History.timeline, Timeline.forward, redo])
  | cons r future =>
    have hlt : past.length < historyLimit := by
      simp only [History.Bounded, List.length_cons] at hb
      omega
    rw [timeline_congr (redo_cons hlt present r) _ (by rw [← redo_cons hlt]; exact bounded_redo hb)]
    refine Timeline.ext_data ?_ ?_ ?_ <;>
      simp [History.timeline, Timeline.forward, Revision.edge]

theorem timeline_step {history : History} (hb : history.Bounded) (op : HistoryOp) :
    (history.step op).timeline (bounded_step hb op) =
      (history.timeline hb).step (history.event op) := by
  rcases step_cases history op with ⟨label, result, h⟩ | rfl | rfl | ⟨opened, rfl⟩
  · obtain ⟨hs, ha⟩ := result_spec h
    rw [event_of_result h]
    cases result with
    | changed history' notes =>
      have hrec : history.step op = recorded history label history'.present := hs.trans ha
      rw [timeline_congr hrec _ (bounded_recorded history label _)]
      exact timeline_recorded hb label _
    | unchanged history' => exact timeline_congr (hs.trans ha) _ hb
    | refused index reason message => exact timeline_congr hs _ hb
  · exact timeline_undo hb
  · exact timeline_redo hb
  · rfl

/-- A run of the history is a run of its timeline. -/
theorem timeline_run {history : History} (hb : history.Bounded) (ops : List HistoryOp) :
    (history.run ops).timeline (bounded_run hb ops) =
      (history.timeline hb).run (history.events ops) := by
  induction ops generalizing history with
  | nil => rfl
  | cons op ops ih =>
    rw [History.events, Timeline.run_cons, ← timeline_step hb op]
    exact ih (bounded_step hb op)

/-- After an adoption a run knows what was adopted and what was made of it since. -/
theorem adopt_forgets (history : History) (before after : List HistoryOp) (opened : EditorDocument) :
    history.run (before ++ .adopt opened :: after) = (beginHistory opened).run after := by
  rw [History.run_append, History.run_cons]
  rfl

theorem docs_of_run_begin (opened : EditorDocument) (ops : List HistoryOp) {doc : EditorDocument}
    (h : doc ∈ (((beginHistory opened).run ops).timeline
      (bounded_run (bounded_begin opened) ops)).docs) :
    doc = opened ∨ ∃ event ∈ (beginHistory opened).events ops, doc ∈ event.docs := by
  rw [timeline_run (bounded_begin opened)] at h
  exact (Timeline.mem_docs_run h).imp List.mem_singleton.mp id

/-- The history refines a bounded timeline.  Over every run the stacks keep the bound,
the run is one of the timeline, undo and redo move its cursor and are inverse to each
other, a commit that changes something records on top, any other commit leaves the
history, and nothing from before an adoption comes back. -/
theorem history_refines_timeline (opened : EditorDocument) (ops : List HistoryOp) :
    let history := (beginHistory opened).run ops
    ∃ hb : history.past.length + history.future.length ≤ historyLimit,
      (history.timeline hb = (Timeline.start opened).run ((beginHistory opened).events ops) ∧
        (history.timeline hb).current = history.present ∧
        (history.timeline hb).docs.length ≤ historyLimit + 1) ∧
      (canUndo history = true → redo (undo history) = history ∧
        (undo history).timeline (bounded_undo hb) = (history.timeline hb).back) ∧
      (canRedo history = true → undo (redo history) = history ∧
        (redo history).timeline (bounded_redo hb) = (history.timeline hb).forward) ∧
      (∀ op label history' notes, op.result history = some (label, .changed history' notes) →
        history.step op = history' ∧ RecordedOn history label history') ∧
      (∀ op label history', op.result history = some (label, .unchanged history') →
        history' = history ∧ history.step op = history) ∧
      (∀ op label index reason message,
        op.result history = some (label, .refused index reason message) →
          history.step op = history) ∧
      ∀ before adopted after, ops = before ++ .adopt adopted :: after →
        history = (beginHistory adopted).run after ∧
          ∀ doc ∈ (history.timeline hb).docs, doc = adopted ∨
            ∃ event ∈ (beginHistory adopted).events after, doc ∈ event.docs := by
  intro history
  have hb : history.Bounded := bounded_run (bounded_begin opened) ops
  refine ⟨hb, ⟨timeline_run (bounded_begin opened) ops, ?_, Timeline.length_docs_le _⟩, ?_, ?_, ?_,
    ?_, ?_, ?_⟩
  · simp [Timeline.current, History.timeline]
  · exact fun h => ⟨redo_undo hb h, timeline_undo hb⟩
  · exact fun h => ⟨undo_redo hb h, timeline_redo hb⟩
  · intro op label history' notes h
    obtain ⟨hs, ha⟩ := result_spec h
    refine ⟨hs, ?_⟩
    rw [show history' = recorded history label history'.present from ha]
    exact recordedOn_recorded hb label _
  · intro op label history' h
    obtain ⟨hs, ha⟩ := result_spec h
    exact ⟨ha, hs.trans ha⟩
  · intro op label index reason message h
    exact (result_spec h).1
  · rintro before adopted after rfl
    have heq : history = (beginHistory adopted).run after := adopt_forgets _ before after adopted
    refine ⟨heq, fun doc hd => docs_of_run_begin adopted after ?_⟩
    rwa [timeline_congr heq hb] at hd

end CircuitForge
