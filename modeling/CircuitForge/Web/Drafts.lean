/-
Whose document is sent, and whose is stored.

A save carries what was on screen or queued while its project was open, in every order of
edits, replies and project switches.  The copy on the device is another matter: it is filed
under the project that is open when it is written.
-/
import CircuitForge.Web.Document

namespace CircuitForge.Document

open Js Runs

variable {α : Type}

/-! ## Documents at home -/

/-- What is queued, on screen or on the wire was shown while its project was open. -/
structure Homed (s : State α) : Prop where
  pending : ∀ p, s.projectId = some p → ∀ d, s.pending = some d → (p, d) ∈ s.shown
  present : ∀ p, s.projectId = some p → ∀ d, s.present = some d → (p, d) ∈ s.shown
  wire : ∀ r ∈ s.wire, (r.projectId, r.doc) ∈ s.shown

theorem homed_start (drafts : Drafts α) : Homed (State.start drafts) where
  pending := fun _ h => by cases h
  present := fun _ h => by cases h
  wire := fun _ h => by cases h

/-- The other fields do not matter. -/
theorem Homed.of_eq {s t : State α} (h : Homed s) (hproject : t.projectId = s.projectId)
    (hpending : t.pending = s.pending) (hpresent : t.present = s.present) (hwire : t.wire = s.wire)
    (hshown : t.shown = s.shown) : Homed t := by
  constructor
  · rw [hproject, hpending, hshown]
    exact h.pending
  · rw [hproject, hpresent, hshown]
    exact h.present
  · rw [hwire, hshown]
    exact h.wire

theorem mem_show {s : State α} {x : Text × Doc α} (h : x ∈ s.shown) (d : Doc α) :
    x ∈ (s.show d).shown := List.mem_append_right _ h

theorem mem_show_self {s : State α} {p : Text} (h : s.projectId = some p) (d : Doc α) :
    (p, d) ∈ (s.show d).shown := by
  unfold State.show
  rw [h]
  exact List.mem_append_left _ (List.mem_singleton_self _)

theorem homed_show {s : State α} (h : Homed s) (d : Doc α) : Homed (s.show d) where
  pending := fun p hp d' hd => mem_show (h.pending p hp d' hd) d
  present := fun p hp d' hd => mem_show (h.present p hp d' hd) d
  wire := fun r hr => mem_show (h.wire r hr) d

/-- A document that was shown is queued, or nothing is. -/
theorem homed_queue {s : State α} (h : Homed s) {queued : Option (Doc α)}
    (hd : ∀ p, s.projectId = some p → ∀ d, queued = some d → (p, d) ∈ s.shown) :
    Homed { s with pending := queued } where
  pending := hd
  present := h.present
  wire := h.wire

theorem homed_display {s : State α} (h : Homed s) {d : Doc α}
    (hd : ∀ p, s.projectId = some p → (p, d) ∈ s.shown) : Homed { s with present := some d } where
  pending := h.pending
  present := by
    rintro p hp _ ⟨⟩
    exact hd p hp
  wire := h.wire

theorem homed_unqueue {s : State α} (h : Homed s) : Homed { s with pending := none } :=
  homed_queue h fun _ _ _ hd => by cases hd

theorem homed_sendFor {s : State α} (h : Homed s) (r : Request α)
    (hr : (r.projectId, r.doc) ∈ s.shown) : Homed (s.sendFor r) where
  pending := h.pending
  present := h.present
  wire := by
    intro q hq
    rcases List.mem_append.mp hq with hq | hq
    · exact h.wire q hq
    · rw [List.mem_singleton.mp hq]
      exact hr

theorem homed_flush {s : State α} (h : Homed s) : Homed s.flush := by
  unfold State.flush
  dsimp only
  split
  case h_1 d p hd hp =>
    split
    case isTrue => exact h.of_eq rfl rfl rfl rfl rfl
    case isFalse =>
      refine homed_sendFor ?_ _ (h.pending p hp d hd)
      exact (homed_unqueue h).of_eq rfl rfl rfl rfl rfl
  case h_2 => exact h.of_eq rfl rfl rfl rfl rfl

theorem homed_schedule {s : State α} (h : Homed s) (d : Doc α) : Homed (s.schedule d) := by
  have hqueue : Homed { s.show d with pending := some d } := by
    refine homed_queue (homed_show h d) ?_
    rintro p hp _ ⟨⟩
    exact mem_show_self (s := s) hp d
  exact hqueue.of_eq rfl rfl rfl rfl rfl

theorem homed_edit {s : State α} (h : Homed s) (object : Nat) (content : α) :
    Homed (s.edit object content) :=
  homed_display (homed_schedule h _) fun _ hp => mem_show_self (s := s) hp _

theorem homed_leave {s : State α} (h : Homed s) (projectId : Text) : Homed (s.leave projectId) := by
  unfold State.leave
  split
  case h_1 old d hp hd =>
    split
    case isTrue => exact homed_sendFor h (s.request old d) (h.pending old hp d hd)
    case isFalse => exact h
  case h_2 => exact h

theorem homed_recoverLocal {s : State α} (h : Homed s) (object queued : Nat) :
    Homed (s.recoverLocal object queued) := by
  unfold State.recoverLocal
  split
  case h_1 found p _ _ =>
    have hdisplay := homed_display (homed_schedule (homed_show h ⟨s.stay, object, found.content⟩)
      ⟨s.stay, queued, found.content⟩) (d := ⟨s.stay, object, found.content⟩)
      fun p hp => mem_show (s := s.show _) (mem_show_self (s := s) hp _) _
    exact hdisplay.of_eq rfl rfl rfl rfl rfl
  case h_2 => exact h

theorem homed_overwriteWithMine {s : State α} (h : Homed s) : Homed s.overwriteWithMine := by
  unfold State.overwriteWithMine
  split
  case h_1 d p hd hp =>
    split
    case isTrue => exact h
    case isFalse hidle =>
      rw [Bool.not_eq_true, Option.isSome_eq_false_iff, Option.isNone_iff_eq_none] at hidle
      rw [hidle, Option.or_none] at hd
      refine homed_sendFor (homed_unqueue h) _ ?_
      rcases Option.or_eq_some_iff.mp hd with hd | ⟨_, hd⟩
      · exact h.pending p hp d hd
      · exact h.present p hp d hd
  case h_2 => exact h

theorem homed_unmount {s : State α} (h : Homed s) : Homed s.unmount := by
  unfold State.unmount
  have hs : Homed { s with alive := false, timer := false } := h.of_eq rfl rfl rfl rfl rfl
  dsimp only
  split
  case h_1 d p hd hp =>
    split
    case isTrue => exact hs
    case isFalse => exact homed_sendFor hs (s.request p d) (h.pending p hp d hd)
  case h_2 => exact hs

theorem homed_persistNow {s : State α} (h : Homed s) (room : Room) (now : Text) :
    Homed (s.persistNow room now) := by
  unfold State.persistNow
  dsimp only
  split <;> exact h.of_eq rfl rfl rfl rfl rfl

theorem homed_received {s : State α} (h : Homed s) (i : Nat) :
    Homed { s with wire := s.wire.eraseIdx i } where
  pending := h.pending
  present := h.present
  wire := fun r hr => h.wire r (List.mem_of_mem_eraseIdx hr)

section

variable [DecidableEq α]

theorem homed_offer {s : State α} (h : Homed s) (projectId : Text) (opened : OpenedProject α) :
    Homed (s.offer projectId opened) := by
  unfold State.offer
  split
  case h_1 => exact h.of_eq rfl rfl rfl rfl rfl
  case h_2 => split <;> exact h.of_eq rfl rfl rfl rfl rfl

theorem homed_adopt {s : State α} (h : Homed s) (projectId : Text) (opened : OpenedProject α) :
    Homed (s.adopt projectId opened) := by
  have hleft := homed_leave h projectId
  unfold State.adopt
  refine homed_offer ?_ projectId opened
  have hclosed : Homed { s.leave projectId with
      projectId := some projectId, pending := none, present := none } :=
    ⟨nofun, nofun, hleft.wire⟩
  cases opened.content with
  | none => exact hclosed.of_eq rfl rfl rfl rfl rfl
  | some content =>
    have hdisplay := homed_display (homed_show hclosed ⟨s.stay + 1, 0, content⟩)
      (d := ⟨s.stay + 1, 0, content⟩) fun _ hp => mem_show_self (s := { s.leave projectId with
        projectId := some projectId, pending := none, present := none }) hp _
    exact hdisplay.of_eq rfl rfl rfl rfl rfl

theorem homed_acknowledge {s : State α} (h : Homed s) (r : Request α) (updatedAt : Text)
    (baseVersionId : Option Text) : Homed (s.acknowledge r updatedAt baseVersionId) := by
  unfold State.acknowledge
  dsimp only
  split
  case isTrue hopen =>
    cases hq : s.pending with
    | none => exact (homed_unqueue h).of_eq rfl rfl rfl rfl rfl
    | some queued =>
      dsimp only
      split
      case isTrue => exact (homed_unqueue h).of_eq rfl rfl rfl rfl rfl
      case isFalse =>
        refine homed_sendFor ?_ _ (h.pending _ hopen.2 queued hq)
        exact (homed_unqueue h).of_eq rfl rfl rfl rfl rfl
  case isFalse => exact h.of_eq rfl rfl rfl rfl rfl

theorem homed_refuse {s : State α} (h : Homed s) {r : Request α}
    (hr : (r.projectId, r.doc) ∈ s.shown) (kind : Client.FailureKind)
    (currentUpdatedAt : Option Text) : Homed (s.refuse r kind currentUpdatedAt) := by
  unfold State.refuse
  dsimp only
  split
  case isTrue => exact h.of_eq rfl rfl rfl rfl rfl
  case isFalse hopen =>
    rw [not_or, not_or, not_not] at hopen
    refine ⟨fun p hp d hd => ?_, h.present, h.wire⟩
    rcases Option.or_eq_some_iff.mp hd with hd | ⟨_, hd⟩
    · exact h.pending p hp d hd
    · cases hd
      cases hp.symm.trans hopen.2.1
      exact hr

theorem homed_step {s s' : State α} {a : Action α} (h : Homed s) (hs : step s a = some s') :
    Homed s' := by
  cases a with
  | adopt projectId opened =>
    obtain ⟨-, hs⟩ := Option.ite_none_right_eq_some.mp hs
    cases hs
    exact homed_adopt h projectId opened
  | edit object content =>
    obtain ⟨-, hs⟩ := Option.ite_none_right_eq_some.mp hs
    cases hs
    exact homed_edit h object content
  | idle =>
    obtain ⟨-, hs⟩ := Option.ite_none_right_eq_some.mp hs
    cases hs
    exact homed_flush h
  | flush =>
    obtain ⟨-, hs⟩ := Option.ite_none_right_eq_some.mp hs
    cases hs
    exact homed_flush h
  | persist room now =>
    obtain ⟨-, hs⟩ := Option.ite_none_right_eq_some.mp hs
    cases hs
    exact homed_persistNow h room now
  | reply i reply =>
    obtain ⟨r, hr, hs⟩ := Option.bind_eq_some_iff.mp hs
    have hmem := h.wire r (List.mem_of_getElem? hr)
    cases reply with
    | saved updatedAt baseVersionId =>
      cases hs
      exact homed_acknowledge (homed_received h i) r updatedAt baseVersionId
    | failed kind currentUpdatedAt =>
      cases hs
      exact homed_refuse (homed_received h i) hmem kind currentUpdatedAt
  | overwriteWithMine =>
    obtain ⟨-, hs⟩ := Option.ite_none_right_eq_some.mp hs
    cases hs
    exact homed_overwriteWithMine h
  | takeTheirs =>
    obtain ⟨-, hs⟩ := Option.ite_none_right_eq_some.mp hs
    cases hs
    exact (homed_unqueue h).of_eq rfl rfl rfl rfl rfl
  | recoverLocal object queued =>
    obtain ⟨-, hs⟩ := Option.ite_none_right_eq_some.mp hs
    cases hs
    exact homed_recoverLocal h object queued
  | discardLocal =>
    obtain ⟨-, hs⟩ := Option.ite_none_right_eq_some.mp hs
    cases hs
    exact h.of_eq rfl rfl rfl rfl rfl
  | unmount =>
    obtain ⟨-, hs⟩ := Option.ite_none_right_eq_some.mp hs
    cases hs
    exact homed_unmount h

/-- In every run, a save carries what was on screen or queued while its project was open. -/
theorem saves_stay_home (drafts : Drafts α) (actions : List (Action α)) :
    ∀ r ∈ (final step (State.start drafts) actions).wire,
      (r.projectId, r.doc) ∈ (final step (State.start drafts) actions).shown :=
  (final_of_along (P := fun _ _ _ => True) (fun _ _ _ h hs _ => homed_step h hs)
    (homed_start drafts) (along_of_forall (fun _ _ _ => trivial) _ actions)).wire

end

/-! ## Copies on the device -/

/-- The copies at hand are filed under the project they were shown in; the rest of `found` is
from before. -/
structure Filed (found : Drafts α) (s : State α) : Prop where
  unpersisted : ∀ p, s.projectId = some p → ∀ d, s.unpersisted = some d → (p, d) ∈ s.shown
  drafts : ∀ p draft, s.drafts p = some draft →
    found p = some draft ∨ ∃ d, (p, d) ∈ s.shown ∧ d.content = draft.content

theorem filed_start (found : Drafts α) : Filed found (State.start found) where
  unpersisted := nofun
  drafts := fun _ _ h => Or.inl h

/-- `t` has the project and the copies of `s`. -/
structure SameCopies (s t : State α) : Prop where
  projectId : t.projectId = s.projectId
  unpersisted : t.unpersisted = s.unpersisted
  drafts : t.drafts = s.drafts
  shown : t.shown = s.shown

theorem Filed.of_same {found : Drafts α} {s t : State α} (h : Filed found s)
    (hst : SameCopies s t) : Filed found t := by
  obtain ⟨hproject, hunpersisted, hdrafts, hshown⟩ := hst
  constructor
  · rw [hproject, hunpersisted, hshown]
    exact h.unpersisted
  · rw [hdrafts, hshown]
    exact h.drafts

theorem sameCopies_flush (s : State α) : SameCopies s s.flush := by
  unfold State.flush
  dsimp only
  split
  case h_1 => split <;> exact ⟨rfl, rfl, rfl, rfl⟩
  case h_2 => exact ⟨rfl, rfl, rfl, rfl⟩

theorem sameCopies_leave (s : State α) (projectId : Text) : SameCopies s (s.leave projectId) := by
  unfold State.leave
  split
  case h_1 => split <;> exact ⟨rfl, rfl, rfl, rfl⟩
  case h_2 => exact ⟨rfl, rfl, rfl, rfl⟩

theorem sameCopies_overwriteWithMine (s : State α) : SameCopies s s.overwriteWithMine := by
  unfold State.overwriteWithMine
  split
  case h_1 => split <;> exact ⟨rfl, rfl, rfl, rfl⟩
  case h_2 => exact ⟨rfl, rfl, rfl, rfl⟩

theorem sameCopies_unmount (s : State α) : SameCopies s s.unmount := by
  unfold State.unmount
  dsimp only
  split
  case h_1 => split <;> exact ⟨rfl, rfl, rfl, rfl⟩
  case h_2 => exact ⟨rfl, rfl, rfl, rfl⟩

theorem sameCopies_refuse [DecidableEq α] (s : State α) (r : Request α) (kind : Client.FailureKind)
    (currentUpdatedAt : Option Text) : SameCopies s (s.refuse r kind currentUpdatedAt) := by
  unfold State.refuse
  dsimp only
  split <;> exact ⟨rfl, rfl, rfl, rfl⟩

theorem filed_show {found : Drafts α} {s : State α} (h : Filed found s) (d : Doc α) :
    Filed found (s.show d) where
  unpersisted := fun p hp d' hd => mem_show (h.unpersisted p hp d' hd) d
  drafts := fun p draft hd => (h.drafts p draft hd).imp id fun ⟨d', hd', hc⟩ =>
    ⟨d', mem_show hd' d, hc⟩

theorem filed_schedule {found : Drafts α} {s : State α} (h : Filed found s) (d : Doc α) :
    Filed found (s.schedule d) where
  unpersisted := by
    rintro p hp _ ⟨⟩
    exact mem_show_self (s := s) hp d
  drafts := (filed_show h d).drafts

theorem clear_self (drafts : Drafts α) (p : Text) : clear drafts p p = none := by
  rw [clear, Function.update_self]

theorem clear_of_ne {p q : Text} (h : q ≠ p) (drafts : Drafts α) : clear drafts p q = drafts q := by
  rw [clear, Function.update_of_ne h]

/-- A copy is dropped. -/
theorem filed_drop {found : Drafts α} {s : State α} (h : Filed found s) (p : Text) :
    Filed found { s with unpersisted := none, drafts := clear s.drafts p } where
  unpersisted := nofun
  drafts := fun q draft hd => by
    have hd : clear s.drafts p q = some draft := hd
    by_cases hq : q = p
    · rw [hq, clear_self] at hd
      cases hd
    · rw [clear_of_ne hq] at hd
      exact h.drafts q draft hd

/-- Where a write leaves a draft, it is the one written or one that was there. -/
theorem put_cases {room : Room} {drafts : Drafts α} {p q : Text} {draft draft' : StoredDraft α}
    (h : (put room drafts p draft).1 q = some draft') :
    (q = p ∧ draft' = draft) ∨ drafts q = some draft' := by
  unfold put at h
  by_cases hq : q = p
  · subst hq
    cases room <;> simp only [Function.update_self, Option.some.injEq] at h
    case fits => exact Or.inl ⟨rfl, h.symm⟩
    case fitsAlone => exact Or.inl ⟨rfl, h.symm⟩
    case full => exact Or.inr h
    case unavailable => exact Or.inr h
  · cases room <;> simp only [Function.update_of_ne hq, reduceCtorEq] at h
    case fits => exact Or.inr h
    case unavailable => exact Or.inr h

theorem filed_persistNow {found : Drafts α} {s : State α} (h : Filed found s) (room : Room)
    (now : Text) : Filed found (s.persistNow room now) := by
  unfold State.persistNow
  dsimp only
  split
  case h_1 doc projectId hdoc hproject =>
    refine ⟨nofun, fun q draft hd => ?_⟩
    rcases put_cases hd with ⟨rfl, rfl⟩ | hd
    · exact Or.inr ⟨doc, h.unpersisted _ hproject doc hdoc, rfl⟩
    · exact h.drafts q draft hd
  case h_2 => exact h.of_same ⟨rfl, rfl, rfl, rfl⟩

theorem filed_recoverLocal {found : Drafts α} {s : State α} (h : Filed found s)
    (object queued : Nat) : Filed found (s.recoverLocal object queued) := by
  unfold State.recoverLocal
  split
  case h_1 local' p _ _ =>
    exact (filed_schedule (filed_show h ⟨s.stay, object, local'.content⟩)
      ⟨s.stay, queued, local'.content⟩).of_same ⟨rfl, rfl, rfl, rfl⟩
  case h_2 => exact h

theorem filed_discardLocal {found : Drafts α} {s : State α} (h : Filed found s) :
    Filed found s.discardLocal := by
  unfold State.discardLocal
  split
  case h_1 p _ => exact (filed_drop h p).of_same ⟨rfl, rfl, rfl, rfl⟩
  case h_2 => exact ⟨nofun, h.drafts⟩

section

variable [DecidableEq α]

theorem filed_acknowledge {found : Drafts α} {s : State α} (h : Filed found s) (r : Request α)
    (updatedAt : Text) (baseVersionId : Option Text) :
    Filed found (s.acknowledge r updatedAt baseVersionId) := by
  unfold State.acknowledge
  dsimp only
  split
  case isTrue =>
    split
    case h_1 =>
      split
      case isTrue => exact (filed_drop h _).of_same ⟨rfl, rfl, rfl, rfl⟩
      case isFalse => exact h.of_same ⟨rfl, rfl, rfl, rfl⟩
    case h_2 => exact (filed_drop h _).of_same ⟨rfl, rfl, rfl, rfl⟩
  case isFalse => exact h.of_same ⟨rfl, rfl, rfl, rfl⟩

theorem filed_offer {found : Drafts α} {s : State α} (h : Filed found s) (projectId : Text)
    (opened : OpenedProject α) : Filed found (s.offer projectId opened) := by
  unfold State.offer
  split
  case h_1 => exact h.of_same ⟨rfl, rfl, rfl, rfl⟩
  case h_2 =>
    split
    case isTrue => exact ⟨h.unpersisted, (filed_drop h projectId).drafts⟩
    case isFalse => exact h.of_same ⟨rfl, rfl, rfl, rfl⟩

/-- Another project is adopted only once the copy of the last edit is written. -/
def Flushed (s : State α) (a : Action α) : Prop :=
  ∀ projectId opened, a = .adopt projectId opened →
    s.projectId = some projectId ∨ s.unpersisted = none

theorem filed_adopt {found : Drafts α} {s : State α} (h : Filed found s) {projectId : Text}
    (hflushed : s.projectId = some projectId ∨ s.unpersisted = none) (opened : OpenedProject α) :
    Filed found (s.adopt projectId opened) := by
  have hleft := h.of_same (sameCopies_leave s projectId)
  have hopen : Filed found { s.leave projectId with projectId := some projectId } := by
    have hsame := sameCopies_leave s projectId
    refine ⟨fun p hp d hd => ?_, hleft.drafts⟩
    cases hp
    rcases hflushed with hproject | hnone
    · exact hleft.unpersisted _ (hsame.projectId.trans hproject) d hd
    · cases (hsame.unpersisted.trans hnone).symm.trans hd
  unfold State.adopt
  refine filed_offer ?_ projectId opened
  cases opened.content with
  | none => exact hopen.of_same ⟨rfl, rfl, rfl, rfl⟩
  | some content =>
    exact (filed_show hopen ⟨s.stay + 1, 0, content⟩).of_same ⟨rfl, rfl, rfl, rfl⟩

theorem filed_step {found : Drafts α} {s s' : State α} {a : Action α} (h : Filed found s)
    (hflushed : Flushed s a) (hs : step s a = some s') : Filed found s' := by
  cases a with
  | adopt projectId opened =>
    obtain ⟨-, hs⟩ := Option.ite_none_right_eq_some.mp hs
    cases hs
    exact filed_adopt h (hflushed projectId opened rfl) opened
  | edit object content =>
    obtain ⟨-, hs⟩ := Option.ite_none_right_eq_some.mp hs
    cases hs
    exact (filed_schedule h _).of_same ⟨rfl, rfl, rfl, rfl⟩
  | idle =>
    obtain ⟨-, hs⟩ := Option.ite_none_right_eq_some.mp hs
    cases hs
    exact h.of_same (sameCopies_flush s)
  | flush =>
    obtain ⟨-, hs⟩ := Option.ite_none_right_eq_some.mp hs
    cases hs
    exact h.of_same (sameCopies_flush s)
  | persist room now =>
    obtain ⟨-, hs⟩ := Option.ite_none_right_eq_some.mp hs
    cases hs
    exact filed_persistNow h room now
  | reply i reply =>
    obtain ⟨r, -, hs⟩ := Option.bind_eq_some_iff.mp hs
    have hreceived : Filed found { s with wire := s.wire.eraseIdx i } :=
      h.of_same ⟨rfl, rfl, rfl, rfl⟩
    cases reply with
    | saved updatedAt baseVersionId =>
      cases hs
      exact filed_acknowledge hreceived r updatedAt baseVersionId
    | failed kind currentUpdatedAt =>
      cases hs
      exact hreceived.of_same (sameCopies_refuse _ r kind currentUpdatedAt)
  | overwriteWithMine =>
    obtain ⟨-, hs⟩ := Option.ite_none_right_eq_some.mp hs
    cases hs
    exact h.of_same (sameCopies_overwriteWithMine s)
  | takeTheirs =>
    obtain ⟨-, hs⟩ := Option.ite_none_right_eq_some.mp hs
    cases hs
    exact h.of_same ⟨rfl, rfl, rfl, rfl⟩
  | recoverLocal object queued =>
    obtain ⟨-, hs⟩ := Option.ite_none_right_eq_some.mp hs
    cases hs
    exact filed_recoverLocal h object queued
  | discardLocal =>
    obtain ⟨-, hs⟩ := Option.ite_none_right_eq_some.mp hs
    cases hs
    exact filed_discardLocal h
  | unmount =>
    obtain ⟨-, hs⟩ := Option.ite_none_right_eq_some.mp hs
    cases hs
    exact h.of_same (sameCopies_unmount s)

/-- What the loader's effect leaves for the next write. -/
theorem adopt_copy (s : State α) (projectId : Text) (opened : OpenedProject α) :
    (s.adopt projectId opened).projectId = some projectId ∧
      (s.adopt projectId opened).unpersisted = s.unpersisted ∧
      (s.adopt projectId opened).alive = s.alive ∧
      (s.adopt projectId opened).token = opened.token ∧
      (s.adopt projectId opened).baseVersionId = opened.baseVersionId := by
  have hoffer : ∀ t : State α, (t.offer projectId opened).projectId = t.projectId ∧
      (t.offer projectId opened).unpersisted = t.unpersisted ∧
      (t.offer projectId opened).alive = t.alive ∧
      (t.offer projectId opened).token = t.token ∧
      (t.offer projectId opened).baseVersionId = t.baseVersionId := by
    intro t
    unfold State.offer
    split
    case h_1 => exact ⟨rfl, rfl, rfl, rfl, rfl⟩
    case h_2 => split <;> exact ⟨rfl, rfl, rfl, rfl, rfl⟩
  have hleave : (s.leave projectId).alive = s.alive := by
    unfold State.leave
    split
    case h_1 => split <;> rfl
    case h_2 => rfl
  have hsame := (sameCopies_leave s projectId).unpersisted
  unfold State.adopt
  obtain ⟨hproject, hunpersisted, halive, htoken, hbase⟩ := hoffer (Option.elim _ _ _)
  rw [hproject, hunpersisted, halive, htoken, hbase]
  cases opened.content <;> exact ⟨rfl, hsame, hleave, rfl, rfl⟩

/-- Where another project is adopted before the copy of the last edit is written, the next write
files that copy under the project that was adopted. -/
theorem misfiled {s : State α} (halive : s.alive = true) {d : Doc α} (hd : s.unpersisted = some d)
    (projectId now : Text) (opened : OpenedProject α) :
    ∃ s₁ s₂, step s (.adopt projectId opened) = some s₁ ∧
      step s₁ (.persist .fits now) = some s₂ ∧
      s₂.drafts projectId = some ⟨d.content, opened.token, opened.baseVersionId, now⟩ := by
  obtain ⟨hproject, hunpersisted, halive', htoken, hbase⟩ := adopt_copy s projectId opened
  refine ⟨s.adopt projectId opened, (s.adopt projectId opened).persistNow .fits now, ?_, ?_, ?_⟩
  · exact if_pos halive
  · exact if_pos (Or.inl (halive'.trans halive))
  · unfold State.persistNow
    simp only [hproject, hunpersisted, hd, htoken, hbase, put, Function.update_self]

/-- Every draft on the device is from before, or was shown in the project it is filed under, in
every run that switches only with the copy of the last edit written.  A switch that does not
wait for it files that copy under the other project. -/
theorem copies_stay_home (found : Drafts α) (actions : List (Action α))
    (hflushed : Along step (fun s a _ => Flushed s a) (State.start found) actions) :
    let s := final step (State.start found) actions
    (∀ p draft, s.drafts p = some draft →
      found p = some draft ∨ ∃ d, (p, d) ∈ s.shown ∧ d.content = draft.content) ∧
    ∀ (p q now : Text) (d : Doc α) (opened : OpenedProject α), s.alive = true →
      s.projectId = some p → p ≠ q → s.unpersisted = some d →
        (p, d) ∈ s.shown ∧ ∃ s₁ s₂, step s (.adopt q opened) = some s₁ ∧
          step s₁ (.persist .fits now) = some s₂ ∧
          s₂.drafts q = some ⟨d.content, opened.token, opened.baseVersionId, now⟩ := by
  intro s
  have hstep : ∀ t a t', Filed found t → step t a = some t' → Flushed t a → Filed found t' :=
    fun _ _ _ h hs ha => filed_step h ha hs
  have h : Filed found s := final_of_along hstep (filed_start found) hflushed
  exact ⟨h.drafts, fun p q now d opened halive hp _ hd =>
    ⟨h.unpersisted p hp d hd, misfiled halive hd q now opened⟩⟩

end

/-- An edit is written to the device before another project is opened. -/
def switchRun : List (Action Nat) :=
  [.adopt "a".toList (.workingCopy 0 "t".toList none), .edit 1 5, .persist .fits "now".toList,
    .adopt "b".toList .empty]

theorem saves_stay_home_switchRun :
    ∃ r ∈ (final step (State.start fun _ => none) switchRun).wire,
      r.projectId = "a".toList ∧
        (r.projectId, r.doc) ∈ (final step (State.start fun _ => none) switchRun).shown :=
  ⟨_, List.mem_singleton_self _, rfl,
    saves_stay_home (fun _ => none) switchRun _ (List.mem_singleton_self _)⟩

theorem copies_stay_home_switchRun :
    ∃ d, ("a".toList, d) ∈ (final step (State.start fun _ => none) switchRun).shown ∧
      d.content = 5 := by
  have hflushed : Along step (fun s a _ => Flushed s a) (State.start fun _ => none) switchRun := by
    refine ⟨fun _ _ _ _ _ => Or.inr rfl, fun _ _ => nofun, fun _ _ => nofun,
      fun _ _ _ _ _ => Or.inr rfl, trivial⟩
  have h := (copies_stay_home _ switchRun hflushed).1 "a".toList
    ⟨5, some "t".toList, none, "now".toList⟩ rfl
  exact h.resolve_left nofun

end CircuitForge.Document
