/-
Saves in turn, and the work they keep.

As long as no project is opened while a save of it is still on the wire, one save of the open
project is on the wire at a time, and the newest work is queued, on the wire or acknowledged.
-/
import CircuitForge.Web.Drafts

namespace CircuitForge.Document

open Js Runs

variable {α : Type}

/-! ## What a function sends -/

theorem flush_cases (s : State α) :
    s.flush = { s with timer := false } ∨
      ∃ d p, s.pending = some d ∧ s.projectId = some p ∧ s.inFlight = none ∧
        s.flush = { s with timer := false, pending := none }.sendFor (s.request p d) := by
  unfold State.flush
  dsimp only
  split
  case h_1 d p hd hp =>
    split
    case isTrue => exact Or.inl rfl
    case isFalse hidle =>
      rw [Bool.not_eq_true, Option.isSome_eq_false_iff, Option.isNone_iff_eq_none] at hidle
      exact Or.inr ⟨d, p, hd, hp, hidle, rfl⟩
  case h_2 => exact Or.inl rfl

theorem leave_cases (s : State α) (projectId : Text) :
    (s.leave projectId = s ∧ (s.pending = none ∨ s.projectId = none ∨
        s.projectId = some projectId ∨ s.inFlight ≠ none)) ∨
      ∃ d p, s.pending = some d ∧ s.projectId = some p ∧ s.inFlight = none ∧ p ≠ projectId ∧
        s.leave projectId = s.sendFor (s.request p d) := by
  unfold State.leave
  split
  case h_1 p d hp hd =>
    split
    case isTrue hother => exact Or.inr ⟨d, p, hd, hp, hother.2, hother.1, rfl⟩
    case isFalse hother =>
      refine Or.inl ⟨rfl, Or.inr (Or.inr ?_)⟩
      rw [not_and_or, not_not] at hother
      rcases hother with heq | hbusy
      · exact Or.inl (heq ▸ hp)
      · exact Or.inr hbusy
  case h_2 hnone =>
    refine Or.inl ⟨rfl, ?_⟩
    cases hd : s.pending with
    | none => exact Or.inl rfl
    | some d =>
      cases hp : s.projectId with
      | none => exact Or.inr (Or.inl rfl)
      | some p => exact (hnone p d hp hd).elim

theorem overwriteWithMine_cases (s : State α) :
    s.overwriteWithMine = s ∨
      ∃ d p, (s.pending.or s.present) = some d ∧ s.projectId = some p ∧ s.inFlight = none ∧
        s.overwriteWithMine =
          { s with pending := none }.sendFor { s.request p d with token := none } := by
  unfold State.overwriteWithMine
  split
  case h_1 d p hd hp =>
    split
    case isTrue => exact Or.inl rfl
    case isFalse hidle =>
      rw [Bool.not_eq_true, Option.isSome_eq_false_iff, Option.isNone_iff_eq_none] at hidle
      rw [hidle, Option.or_none] at hd
      exact Or.inr ⟨d, p, hd, hp, hidle, rfl⟩
  case h_2 => exact Or.inl rfl

theorem unmount_cases (s : State α) :
    (s.unmount = { s with alive := false, timer := false } ∧
        (s.pending = none ∨ s.projectId = none ∨ s.inFlight ≠ none)) ∨
      ∃ d p, s.pending = some d ∧ s.projectId = some p ∧ s.inFlight = none ∧
        s.unmount = { s with alive := false, timer := false }.sendFor (s.request p d) := by
  unfold State.unmount
  dsimp only
  split
  case h_1 d p hd hp =>
    split
    case isTrue hbusy =>
      exact Or.inl ⟨rfl, Or.inr (Or.inr (Option.isSome_iff_ne_none.mp hbusy))⟩
    case isFalse hidle =>
      rw [Bool.not_eq_true, Option.isSome_eq_false_iff, Option.isNone_iff_eq_none] at hidle
      exact Or.inr ⟨d, p, hd, hp, hidle, rfl⟩
  case h_2 hnone =>
    refine Or.inl ⟨rfl, ?_⟩
    cases hd : s.pending with
    | none => exact Or.inl rfl
    | some d =>
      cases hp : s.projectId with
      | none => exact Or.inr (Or.inl rfl)
      | some p => exact (hnone d p hd hp).elim

/-! ## One save at a time -/

/-- The saves on the wire that are of the open project. -/
def State.savesHere (s : State α) : List (Request α) :=
  s.wire.filter fun r => s.projectId = some r.projectId

/-- The documents at hand are of this stay, the saves of other projects of an earlier one, and
the save of the open project that is on the wire is the one that is waited for. -/
structure Turns (s : State α) : Prop where
  pending : ∀ d, s.pending = some d → d.stay = s.stay
  present : ∀ d, s.present = some d → d.stay = s.stay
  here : ∀ r ∈ s.wire, s.projectId = some r.projectId → r.doc.stay = s.stay
  elsewhere : ∀ r ∈ s.wire, s.projectId ≠ some r.projectId → r.doc.stay < s.stay
  turn : s.savesHere.map Request.doc = s.inFlight.toList

theorem turns_start (drafts : Drafts α) : Turns (State.start drafts) where
  pending := nofun
  present := nofun
  here := nofun
  elsewhere := nofun
  turn := rfl

theorem Turns.of_eq {s t : State α} (h : Turns s) (hproject : t.projectId = s.projectId)
    (hpending : ∀ d, t.pending = some d → d.stay = s.stay)
    (hpresent : ∀ d, t.present = some d → d.stay = s.stay) (hwire : t.wire = s.wire)
    (hstay : t.stay = s.stay) (hinFlight : t.inFlight = s.inFlight) : Turns t := by
  constructor
  · rwa [hstay]
  · rwa [hstay]
  · rw [hwire, hproject, hstay]
    exact h.here
  · rw [hwire, hproject, hstay]
    exact h.elsewhere
  · rw [State.savesHere, hwire, hproject, hinFlight]
    exact h.turn

/-- While nothing is waited for, a document of this stay may go out. -/
theorem turns_sendFor {s : State α} (h : Turns s) (hidle : s.inFlight = none) (r : Request α)
    (hproject : s.projectId = some r.projectId) (hstay : r.doc.stay = s.stay) :
    Turns (s.sendFor r) where
  pending := h.pending
  present := h.present
  here := by
    intro q hq hp
    rcases List.mem_append.mp hq with hq | hq
    · exact h.here q hq hp
    · rw [List.mem_singleton.mp hq]
      exact hstay
  elsewhere := by
    intro q hq hp
    rcases List.mem_append.mp hq with hq | hq
    · exact h.elsewhere q hq hp
    · rw [List.mem_singleton.mp hq] at hp
      exact (hp hproject).elim
  turn := by
    have hturn := h.turn
    rw [hidle] at hturn
    have hsent : (s.sendFor r).savesHere = s.savesHere ++ [r] := by
      simp only [State.savesHere, State.sendFor, List.filter_append, List.filter_cons, hproject,
        decide_true, if_true, List.filter_nil]
    rw [hsent, List.map_append, hturn]
    rfl

theorem exists_append_of_getElem? {β : Type} {l : List β} {i : Nat} {x : β} (h : l[i]? = some x) :
    ∃ pre post, l = pre ++ x :: post ∧ l.eraseIdx i = pre ++ post := by
  obtain ⟨hi, rfl⟩ := List.getElem?_eq_some_iff.mp h
  exact ⟨l.take i, l.drop (i + 1), by rw [← List.drop_eq_getElem_cons hi, List.take_append_drop],
    List.eraseIdx_eq_take_drop_succ l i⟩

/-- The reply that comes in for the open project is the one that is waited for. -/
theorem Turns.reply_here {s : State α} (h : Turns s) {i : Nat} {r : Request α}
    (hr : s.wire[i]? = some r) (hproject : s.projectId = some r.projectId) :
    s.inFlight = some r.doc ∧ ({ s with wire := s.wire.eraseIdx i } : State α).savesHere = [] := by
  obtain ⟨pre, post, hwire, herase⟩ := exists_append_of_getElem? hr
  have hturn := h.turn
  unfold State.savesHere at hturn ⊢
  rw [hwire] at herase
  simp only [hwire, herase, List.filter_append, List.filter_cons, hproject, decide_true, if_true,
    List.map_append, List.map_cons] at hturn ⊢
  cases hf : s.inFlight with
  | none =>
    rw [hf] at hturn
    exact absurd hturn (List.append_ne_nil_of_right_ne_nil _ (List.cons_ne_nil _ _))
  | some d =>
    rw [hf] at hturn
    obtain ⟨hpre, hd, hpost⟩ : _ ∧ _ ∧ _ := by
      have hsplit := List.append_eq_singleton_iff.mp hturn
      rcases hsplit with ⟨hpre, hrest⟩ | ⟨-, hrest⟩
      · exact ⟨hpre, List.cons_eq_cons.mp hrest⟩
      · cases hrest
    rw [List.map_eq_nil_iff.mp hpre, List.map_eq_nil_iff.mp hpost, hd]
    exact ⟨rfl, rfl⟩

/-- A reply for another project is not the one that is waited for. -/
theorem Turns.reply_elsewhere {s : State α} (h : Turns s) {i : Nat} {r : Request α}
    (hr : s.wire[i]? = some r) (hproject : s.projectId ≠ some r.projectId) :
    s.inFlight ≠ some r.doc ∧
      ({ s with wire := s.wire.eraseIdx i } : State α).savesHere = s.savesHere := by
  obtain ⟨pre, post, hwire, herase⟩ := exists_append_of_getElem? hr
  constructor
  · intro hf
    have hturn := h.turn
    rw [hf] at hturn
    obtain ⟨q, hq, hdoc⟩ := List.mem_map.mp (hturn ▸ List.mem_singleton_self r.doc :
      r.doc ∈ s.savesHere.map Request.doc)
    obtain ⟨hq, hqp⟩ := List.mem_filter.mp hq
    have hlt := h.elsewhere r (List.mem_of_getElem? hr) hproject
    rw [← hdoc, h.here q hq (of_decide_eq_true hqp)] at hlt
    exact lt_irrefl _ hlt
  · unfold State.savesHere
    rw [hwire] at herase
    simp only [hwire, herase, List.filter_append, List.filter_cons, hproject, decide_false,
      Bool.false_eq_true, if_false]

theorem turns_flush {s : State α} (h : Turns s) : Turns s.flush := by
  rcases flush_cases s with heq | ⟨d, p, hd, hp, hidle, heq⟩ <;> rw [heq]
  · exact h.of_eq rfl h.pending h.present rfl rfl rfl
  · have hs : Turns { s with timer := false, pending := none } :=
      h.of_eq rfl nofun h.present rfl rfl rfl
    exact turns_sendFor hs hidle (s.request p d) hp (h.pending d hd)

theorem turns_leave {s : State α} (h : Turns s) (projectId : Text) : Turns (s.leave projectId) := by
  rcases leave_cases s projectId with ⟨heq, -⟩ | ⟨d, p, hd, hp, hidle, -, heq⟩ <;> rw [heq]
  · exact h
  · exact turns_sendFor h hidle (s.request p d) hp (h.pending d hd)

theorem turns_overwriteWithMine {s : State α} (h : Turns s) : Turns s.overwriteWithMine := by
  rcases overwriteWithMine_cases s with heq | ⟨d, p, hd, hp, hidle, heq⟩ <;> rw [heq]
  · exact h
  · have hs : Turns { s with pending := none } := h.of_eq rfl nofun h.present rfl rfl rfl
    refine turns_sendFor hs hidle { s.request p d with token := none } hp ?_
    rcases Option.or_eq_some_iff.mp hd with hd | ⟨-, hd⟩
    · exact h.pending d hd
    · exact h.present d hd

theorem turns_unmount {s : State α} (h : Turns s) : Turns s.unmount := by
  have hs : Turns { s with alive := false, timer := false } :=
    h.of_eq rfl h.pending h.present rfl rfl rfl
  rcases unmount_cases s with ⟨heq, -⟩ | ⟨d, p, hd, hp, hidle, heq⟩ <;> rw [heq]
  · exact hs
  · exact turns_sendFor hs hidle (s.request p d) hp (h.pending d hd)

theorem turns_schedule {s : State α} (h : Turns s) {d : Doc α} (hd : d.stay = s.stay) :
    Turns (s.schedule d) := by
  refine h.of_eq rfl ?_ h.present rfl rfl rfl
  rintro _ ⟨⟩
  exact hd

theorem turns_edit {s : State α} (h : Turns s) (object : Nat) (content : α) :
    Turns (s.edit object content) := by
  refine (turns_schedule h (d := ⟨s.stay, object, content⟩) rfl).of_eq rfl ?_ ?_ rfl rfl rfl
  all_goals
    rintro _ ⟨⟩
    rfl

theorem turns_recoverLocal {s : State α} (h : Turns s) (object queued : Nat) :
    Turns (s.recoverLocal object queued) := by
  unfold State.recoverLocal
  split
  case h_1 =>
    refine h.of_eq rfl ?_ ?_ rfl rfl rfl
    all_goals
      rintro _ ⟨⟩
      rfl
  case h_2 => exact h

theorem turns_persistNow {s : State α} (h : Turns s) (room : Room) (now : Text) :
    Turns (s.persistNow room now) := by
  unfold State.persistNow
  dsimp only
  split <;> exact h.of_eq rfl h.pending h.present rfl rfl rfl

/-- No save of the project is on the wire. -/
def State.Idle (s : State α) (projectId : Text) : Prop := ∀ r ∈ s.wire, r.projectId ≠ projectId

theorem idle_leave {s : State α} {projectId : Text} (h : s.Idle projectId) :
    (s.leave projectId).Idle projectId := by
  rcases leave_cases s projectId with ⟨heq, -⟩ | ⟨d, p, -, -, -, hp, heq⟩ <;> rw [heq]
  · exact h
  · intro r hr
    rcases List.mem_append.mp hr with hr | hr
    · exact h r hr
    · rw [List.mem_singleton.mp hr]
      exact hp

theorem stay_leave (s : State α) (projectId : Text) : (s.leave projectId).stay = s.stay := by
  rcases leave_cases s projectId with ⟨heq, -⟩ | ⟨d, p, -, -, -, -, heq⟩ <;> rw [heq]
  rfl

section

variable [DecidableEq α]

theorem turns_offer {s : State α} (h : Turns s) (projectId : Text) (opened : OpenedProject α) :
    Turns (s.offer projectId opened) := by
  unfold State.offer
  split
  case h_1 => exact h.of_eq rfl h.pending h.present rfl rfl rfl
  case h_2 => split <;> exact h.of_eq rfl h.pending h.present rfl rfl rfl

theorem turns_adopt {s : State α} (h : Turns s) {projectId : Text} (hidle : s.Idle projectId)
    (opened : OpenedProject α) : Turns (s.adopt projectId opened) := by
  have hleft := turns_leave h projectId
  have hnone := idle_leave hidle
  have hopen : Turns { s.leave projectId with
      projectId := some projectId
      pending := none
      present := opened.content.map fun content => ⟨s.stay + 1, 0, content⟩
      inFlight := none
      stay := s.stay + 1 } := by
    refine ⟨nofun, fun d hd => ?_, fun r hr hp => ?_, fun r hr _ => ?_, ?_⟩
    · obtain ⟨_, _, rfl⟩ := Option.map_eq_some_iff.mp hd
      rfl
    · exact (hnone r hr (Option.some.inj hp).symm).elim
    · have hle : r.doc.stay ≤ s.stay := by
        rw [← stay_leave s projectId]
        by_cases hp : (s.leave projectId).projectId = some r.projectId
        · exact (hleft.here r hr hp).le
        · exact (hleft.elsewhere r hr hp).le
      exact Nat.lt_succ_of_le hle
    · have hfilter : List.filter (fun r : Request α => some projectId = some r.projectId)
          (s.leave projectId).wire = [] :=
        List.filter_eq_nil_iff.mpr fun r hr => by
          rw [decide_eq_true_eq]
          exact fun hp => hnone r hr (Option.some.inj hp).symm
      exact congrArg (List.map Request.doc) hfilter
  unfold State.adopt
  refine turns_offer ?_ projectId opened
  cases hc : opened.content with
  | none =>
    rw [hc] at hopen
    exact hopen.of_eq rfl hopen.pending hopen.present rfl rfl rfl
  | some content =>
    rw [hc] at hopen
    exact hopen.of_eq rfl hopen.pending hopen.present rfl rfl rfl

/-- What is left once a reply is in. -/
theorem turns_received {s : State α} (h : Turns s) {i : Nat} {r : Request α}
    (hr : s.wire[i]? = some r) :
    Turns { s with
      wire := s.wire.eraseIdx i
      inFlight := if s.inFlight = some r.doc then none else s.inFlight } := by
  refine ⟨h.pending, h.present, fun q hq => h.here q (List.mem_of_mem_eraseIdx hq),
    fun q hq => h.elsewhere q (List.mem_of_mem_eraseIdx hq), ?_⟩
  by_cases hp : s.projectId = some r.projectId
  · obtain ⟨hf, hopen⟩ := h.reply_here hr hp
    rw [if_pos hf]
    exact congrArg (List.map Request.doc) hopen
  · obtain ⟨hf, hopen⟩ := h.reply_elsewhere hr hp
    rw [if_neg hf]
    exact (congrArg (List.map Request.doc) hopen).trans h.turn

theorem turns_acknowledge {s : State α} (h : Turns s) {i : Nat} {r : Request α}
    (hr : s.wire[i]? = some r) (updatedAt : Text) (baseVersionId : Option Text) :
    Turns (({ s with wire := s.wire.eraseIdx i } : State α).acknowledge r updatedAt
      baseVersionId) := by
  have hrest := turns_received h hr
  unfold State.acknowledge
  dsimp only
  split
  case isTrue hopen =>
    have hidle := (h.reply_here hr hopen.2).1
    rw [if_pos hidle] at hrest
    cases hq : s.pending with
    | none => exact hrest.of_eq rfl nofun h.present rfl rfl rfl
    | some queued =>
      dsimp only
      split
      case isTrue => exact hrest.of_eq rfl nofun h.present rfl rfl rfl
      case isFalse =>
        refine turns_sendFor ?_ rfl _ hopen.2 (h.pending queued hq)
        exact hrest.of_eq rfl nofun h.present rfl rfl rfl
  case isFalse => exact hrest.of_eq rfl h.pending h.present rfl rfl rfl

theorem turns_refuse {s : State α} (h : Turns s) {i : Nat} {r : Request α}
    (hr : s.wire[i]? = some r) (kind : Client.FailureKind) (currentUpdatedAt : Option Text) :
    Turns (({ s with wire := s.wire.eraseIdx i } : State α).refuse r kind currentUpdatedAt) := by
  have hrest := turns_received h hr
  unfold State.refuse
  dsimp only
  split
  case isTrue => exact hrest
  case isFalse hopen =>
    rw [not_or, not_or, not_not] at hopen
    refine hrest.of_eq rfl (fun d hd => ?_) h.present rfl rfl rfl
    rcases Option.or_eq_some_iff.mp hd with hd | ⟨-, hd⟩
    · exact h.pending d hd
    · cases hd
      exact h.here r (List.mem_of_getElem? hr) hopen.2.1

end

end CircuitForge.Document
