/-
The newest work: where it is, and whether the device has it.
-/
import CircuitForge.Web.Autosave

namespace CircuitForge.Document

open Js Runs

variable {α : Type}

/-- The document that was acknowledged last for the open project says `c`. -/
def State.Acked (s : State α) (c : α) : Prop :=
  (s.projectId.bind s.acked).map Doc.content = some c

/-- `c` is queued, or nothing is and it is under way or acknowledged. -/
def State.Kept (s : State α) (c : α) : Prop :=
  s.pending.map Doc.content = some c ∨
    s.pending = none ∧ (s.inFlight.map Doc.content = some c ∨ s.inFlight = none ∧ s.Acked c)

/-- `c` is about to be written to the device, or is there unless the device is known to refuse. -/
def State.Backed (s : State α) (c : α) : Prop :=
  s.unpersisted.map Doc.content = some c ∨
    s.unpersisted = none ∧ (s.localBackup = .ok →
      (s.projectId.bind s.drafts).map StoredDraft.content = some c)

/-- Work since the project was opened is kept and backed up, and `clean` means that nothing
waits. -/
structure Newest (s : State α) : Prop where
  kept : s.alive = true → s.touched = true →
    ∃ c, s.present.map Doc.content = some c ∧ s.Kept c
  clean : s.alive = true → ∀ savedAt, s.save = .clean savedAt →
    s.pending = none ∧ s.inFlight = none
  backed : s.alive = true → s.touched = true → s.dropped = false →
    ∀ c, s.present.map Doc.content = some c →
      s.Backed c ∨ s.Acked c ∧ ∀ d, s.inFlight = some d → d.content = c

theorem newest_start (drafts : Drafts α) : Newest (State.start drafts) where
  kept := nofun
  clean := fun _ _ _ => ⟨rfl, rfl⟩
  backed := nofun

/-- Whoever has left has nothing to keep. -/
theorem newest_of_not_alive {s : State α} (h : s.alive = false) : Newest s where
  kept := fun ha => by cases h.symm.trans ha
  clean := fun ha => by cases h.symm.trans ha
  backed := fun ha => by cases h.symm.trans ha

/-- The document on screen is what is queued. -/
theorem Newest.content_eq {s : State α} (h : Newest s) (halive : s.alive = true)
    (htouched : s.touched = true) {c : α} (hc : s.present.map Doc.content = some c) : s.Kept c := by
  obtain ⟨c', hc', hkept⟩ := h.kept halive htouched
  cases hc.symm.trans hc'
  exact hkept

/-- What is queued goes out, or with nothing queued what is on screen. -/
theorem newest_send {s : State α} (h : Newest s) {d : Doc α}
    (hd : (s.pending.or s.present) = some d) {p : Text} (hp : s.projectId = some p)
    (token baseVersionId : Option Text) :
    Newest (({ s with pending := none } : State α).sendFor ⟨p, d, token, baseVersionId⟩) := by
  have hsent : s.alive = true → s.touched = true →
      ∀ c, s.present.map Doc.content = some c → d.content = c := by
    intro halive htouched c hc
    rcases h.content_eq halive htouched hc with hq | ⟨hq, -⟩
    · obtain ⟨q, hqueued, rfl⟩ := Option.map_eq_some_iff.mp hq
      rw [hqueued, Option.some_or, Option.some.injEq] at hd
      rw [hd]
    · rw [hq, Option.none_or] at hd
      rw [hd, Option.map_some, Option.some.injEq] at hc
      exact hc
  refine ⟨fun halive htouched => ?_, fun _ savedAt hclean => ?_, fun halive htouched hdrop c hc => ?_⟩
  · obtain ⟨c, hc, -⟩ := h.kept halive htouched
    refine ⟨c, hc, Or.inr ⟨rfl, Or.inl ?_⟩⟩
    exact congrArg some (hsent halive htouched c hc)
  · have hsaving : (if s.projectId = some p then SaveState.saving else s.save) = .saving :=
      if_pos hp
    cases hsaving.symm.trans hclean
  · refine (h.backed halive htouched hdrop c hc).imp id fun ⟨hacked, _⟩ => ⟨hacked, ?_⟩
    rintro _ ⟨⟩
    exact hsent halive htouched c hc

theorem newest_flush {s : State α} (h : Newest s) : Newest s.flush := by
  rcases flush_cases s with heq | ⟨d, p, hd, hp, -, heq⟩ <;> rw [heq]
  · exact ⟨h.kept, h.clean, h.backed⟩
  · have hsend := newest_send h (by rw [hd]; rfl) hp s.token s.baseVersionId
    exact ⟨hsend.kept, hsend.clean, hsend.backed⟩

theorem newest_overwriteWithMine {s : State α} (h : Newest s) : Newest s.overwriteWithMine := by
  rcases overwriteWithMine_cases s with heq | ⟨d, p, hd, hp, -, heq⟩ <;> rw [heq]
  · exact h
  · exact newest_send h hd hp none s.baseVersionId

/-- A document that is on screen, queued and about to be written. -/
theorem newest_of_queued {s : State α} {c : α} (hpresent : s.present.map Doc.content = some c)
    (hpending : s.pending.map Doc.content = some c)
    (hunpersisted : s.unpersisted.map Doc.content = some c)
    (hsave : ∀ savedAt, s.save ≠ .clean savedAt) : Newest s where
  kept := fun _ _ => ⟨c, hpresent, Or.inl hpending⟩
  clean := fun _ savedAt hclean => (hsave savedAt hclean).elim
  backed := fun _ _ _ c' hc => by
    cases hpresent.symm.trans hc
    exact Or.inl (Or.inl hunpersisted)

theorem schedule_save (s : State α) (d : Doc α) (savedAt : Option Text) :
    (s.schedule d).save ≠ .clean savedAt := by
  unfold State.schedule
  dsimp only
  split <;> nofun

theorem newest_edit (s : State α) (object : Nat) (content : α) : Newest (s.edit object content) :=
  newest_of_queued (c := content) rfl rfl rfl (schedule_save s ⟨s.stay, object, content⟩)

theorem newest_recoverLocal {s : State α} (h : Newest s) (object queued : Nat) :
    Newest (s.recoverLocal object queued) := by
  unfold State.recoverLocal
  split
  case h_1 found p _ _ =>
    exact newest_of_queued (c := found.content) rfl rfl rfl
      (schedule_save (s.show ⟨s.stay, object, found.content⟩) ⟨s.stay, queued, found.content⟩)
  case h_2 => exact h

theorem newest_persistNow {s : State α} (h : Newest s) (room : Room) (now : Text) :
    Newest (s.persistNow room now) := by
  unfold State.persistNow
  dsimp only
  split
  case h_1 u p hu hp =>
    refine ⟨h.kept, h.clean, fun halive htouched hdrop c hc => ?_⟩
    refine (h.backed halive htouched hdrop c hc).imp (fun hback => Or.inr ⟨rfl, fun hok => ?_⟩) id
    rcases hback with hback | ⟨hnone, -⟩
    · rw [hu] at hback
      dsimp only at hok ⊢
      rw [show s.alive = true from halive, if_pos rfl] at hok
      rw [hp, Option.bind_some]
      cases room <;> simp only [put, reduceCtorEq] at hok ⊢
      all_goals
        rw [Function.update_self]
        exact hback
    · cases hu.symm.trans hnone
  case h_2 => exact ⟨h.kept, h.clean, h.backed⟩

theorem newest_takeTheirs {s : State α} (h : Newest s) : Newest s.takeTheirs where
  kept := nofun
  clean := fun halive savedAt hclean => ⟨rfl, (h.clean halive savedAt hclean).2⟩
  backed := nofun

theorem newest_discardLocal {s : State α} (h : Newest s) : Newest s.discardLocal where
  kept := h.kept
  clean := h.clean
  backed := nofun

theorem newest_unmount (s : State α) : Newest s.unmount := by
  apply newest_of_not_alive
  rcases unmount_cases s with ⟨heq, -⟩ | ⟨d, p, -, -, -, heq⟩ 
  · rw [heq]
  · rw [heq]
    rfl

/-- A reply to the save that is waited for leaves work that says what it said. -/
theorem Newest.content_reply {s : State α} (h : Newest s) {r : Request α}
    (hflight : s.inFlight = some r.doc) (halive : s.alive = true) (htouched : s.touched = true)
    {c : α} (hc : s.present.map Doc.content = some c) :
    s.pending.map Doc.content = some c ∨ s.pending = none ∧ r.doc.content = c := by
  rcases h.content_eq halive htouched hc with hq | ⟨hq, hi | ⟨hi, -⟩⟩
  · exact Or.inl hq
  · rw [hflight, Option.map_some, Option.some.injEq] at hi
    exact Or.inr ⟨hq, hi⟩
  · cases hflight.symm.trans hi

/-- A reply for another project changes nothing here. -/
theorem newest_elsewhere {s : State α} (h : Newest s) {r : Request α}
    (hproject : s.projectId ≠ some r.projectId) (acked : Option (Doc α)) :
    Newest { s with acked := Function.update s.acked r.projectId acked } := by
  have hacked : ∀ c, s.Acked c →
      ({ s with acked := Function.update s.acked r.projectId acked } : State α).Acked c := by
    intro c hc
    unfold State.Acked at hc ⊢
    dsimp only
    cases hp : s.projectId with
    | none =>
      rw [hp] at hc
      exact hc
    | some p =>
      rw [hp, Option.bind_some] at hc
      rw [Option.bind_some]
      rwa [Function.update_of_ne fun e => hproject (by rw [hp, e])]
  refine ⟨fun halive htouched => ?_, h.clean, fun halive htouched hdrop c hc => ?_⟩
  · obtain ⟨c, hc, hkept⟩ := h.kept halive htouched
    refine ⟨c, hc, hkept.imp id fun ⟨hq, hsent⟩ => ⟨hq, hsent.imp id fun ⟨hi, ha⟩ => ⟨hi, ?_⟩⟩⟩
    exact hacked c ha
  · exact (h.backed halive htouched hdrop c hc).imp id fun ⟨ha, hd⟩ => ⟨hacked c ha, hd⟩

/-- Where `c` is for the server: queued, on the wire or acknowledged. -/
theorem Turns.whereabouts {s : State α} (h : Turns s) {c : α} (hc : s.Kept c) :
    s.pending.map Doc.content = some c ∨
      (∃ r ∈ s.wire, s.projectId = some r.projectId ∧ r.doc.content = c) ∨ s.Acked c := by
  rcases hc with hq | ⟨-, hi | ⟨-, ha⟩⟩
  · exact Or.inl hq
  · obtain ⟨d, hflight, rfl⟩ := Option.map_eq_some_iff.mp hi
    have hmem : d ∈ s.savesHere.map Request.doc := by
      rw [h.turn, hflight]
      exact List.mem_singleton_self d
    obtain ⟨r, hr, rfl⟩ := List.mem_map.mp hmem
    obtain ⟨hr, hp⟩ := List.mem_filter.mp hr
    exact Or.inr (Or.inl ⟨r, hr, of_decide_eq_true hp, rfl⟩)
  · exact Or.inr (Or.inr ha)

section

variable [DecidableEq α]

theorem newest_adopt (s : State α) (projectId : Text) (opened : OpenedProject α) :
    Newest (s.adopt projectId opened) := by
  have hoffer : ∀ t : State α, t.touched = false → t.pending = none → t.inFlight = none →
      Newest (t.offer projectId opened) := by
    intro t htouched hpending hinFlight
    have hframe : (t.offer projectId opened).touched = t.touched ∧
        (t.offer projectId opened).pending = t.pending ∧
        (t.offer projectId opened).inFlight = t.inFlight := by
      unfold State.offer
      split
      case h_1 => exact ⟨rfl, rfl, rfl⟩
      case h_2 => split <;> exact ⟨rfl, rfl, rfl⟩
    obtain ⟨ht, hp, hi⟩ := hframe
    refine ⟨fun _ h => ?_, fun _ _ _ => ⟨hp.trans hpending, hi.trans hinFlight⟩, fun _ h => ?_⟩
    all_goals cases (ht.trans htouched).symm.trans h
  unfold State.adopt
  cases opened.content <;> exact hoffer _ rfl rfl rfl

theorem newest_acknowledge {s : State α} (h : Newest s) {r : Request α}
    (hhere : s.projectId = some r.projectId → s.inFlight = some r.doc)
    (helsewhere : s.projectId ≠ some r.projectId → s.inFlight ≠ some r.doc) (updatedAt : Text)
    (baseVersionId : Option Text) : Newest (s.acknowledge r updatedAt baseVersionId) := by
  unfold State.acknowledge
  dsimp only
  split
  case isTrue hopen =>
    obtain ⟨halive, hproject⟩ := hopen
    have hflight := hhere hproject
    have hacked : (s.projectId.bind (Function.update s.acked r.projectId (some r.doc))).map
        Doc.content = some r.doc.content := by
      rw [hproject, Option.bind_some, Function.update_self]
      rfl
    -- what the server holds now is what is on screen, unless more is queued
    have hsettled : (∀ q, s.pending = some q → q = r.doc) →
        ∀ t : State α, t.pending = none → t.inFlight = none → t.present = s.present →
          t.projectId = s.projectId → t.touched = s.touched →
          t.acked = Function.update s.acked r.projectId (some r.doc) → Newest t := by
      intro hqueue t hpending hinFlight hpresent hproject' htouched hacks
      have hcontent : t.touched = true → ∀ c, t.present.map Doc.content = some c → t.Acked c := by
        intro ht c hc
        rw [hpresent] at hc
        unfold State.Acked
        rw [hproject', hacks, hacked]
        rcases h.content_reply hflight halive (htouched ▸ ht) hc with hq | ⟨-, hq⟩
        · obtain ⟨q, hqueued, rfl⟩ := Option.map_eq_some_iff.mp hq
          rw [hqueue q hqueued]
        · rw [hq]
      refine ⟨fun _ ht => ?_, fun _ _ _ => ⟨hpending, hinFlight⟩, fun _ ht _ c hc =>
        Or.inr ⟨hcontent ht c hc, fun d hd => by cases hinFlight.symm.trans hd⟩⟩
      obtain ⟨c, hc, -⟩ := h.kept halive (htouched ▸ ht)
      rw [← hpresent] at hc
      exact ⟨c, hc, Or.inr ⟨hpending, Or.inr ⟨hinFlight, hcontent ht c hc⟩⟩⟩
    cases hq : s.pending with
    | none => exact hsettled (fun q h => by cases hq.symm.trans h) _ rfl rfl rfl rfl rfl rfl
    | some queued =>
      dsimp only
      split
      case isTrue heq =>
        refine hsettled (fun q h => ?_) _ rfl rfl rfl rfl rfl rfl
        cases hq.symm.trans h
        exact heq
      case isFalse =>
        have hqueued : s.touched = true → ∀ c, s.present.map Doc.content = some c →
            queued.content = c := by
          intro ht c hc
          rcases h.content_reply hflight halive ht hc with hcontent | ⟨hnone, -⟩
          · rw [hq] at hcontent
            exact Option.some.inj hcontent
          · cases hq.symm.trans hnone
        refine ⟨fun _ ht => ?_, fun _ savedAt hclean => ?_, fun _ ht hdrop c hc => ?_⟩
        · obtain ⟨c, hc, -⟩ := h.kept halive ht
          exact ⟨c, hc, Or.inr ⟨rfl, Or.inl (congrArg some (hqueued ht c hc))⟩⟩
        · have hsaving : (if s.projectId = some r.projectId then SaveState.saving else s.save) =
              .saving := if_pos hproject
          cases hsaving.symm.trans hclean
        · refine (h.backed halive ht hdrop c hc).imp id fun ⟨_, hd⟩ => ⟨?_, ?_⟩
          · exact hacked.trans (congrArg some (hd _ hflight))
          · rintro _ ⟨⟩
            exact hqueued ht c hc
  case isFalse hopen =>
    cases ha : s.alive with
    | false => exact newest_of_not_alive rfl
    | true =>
      have hproject : s.projectId ≠ some r.projectId := fun hp => hopen ⟨ha, hp⟩
      rw [if_neg (helsewhere hproject)]
      have hrest := newest_elsewhere h hproject (some r.doc)
      exact ⟨fun _ => hrest.kept ha, fun _ => hrest.clean ha, fun _ => hrest.backed ha⟩

theorem newest_refuse {s : State α} (h : Newest s) {r : Request α}
    (hhere : s.projectId = some r.projectId → s.inFlight = some r.doc)
    (helsewhere : s.projectId ≠ some r.projectId → s.inFlight ≠ some r.doc)
    {kind : Client.FailureKind} (hkind : s.projectId = some r.projectId → kind ≠ .aborted)
    (currentUpdatedAt : Option Text) : Newest (s.refuse r kind currentUpdatedAt) := by
  unfold State.refuse
  dsimp only
  split
  case isTrue hopen =>
    rcases hopen with hdead | hproject | hkind'
    · exact newest_of_not_alive hdead
    · rw [if_neg (helsewhere hproject)]
      exact h
    · have hproject : s.projectId ≠ some r.projectId := fun hp => hkind hp hkind'
      rw [if_neg (helsewhere hproject)]
      exact h
  case isFalse hopen =>
    rw [not_or, not_or, not_not, Bool.not_eq_false] at hopen
    obtain ⟨halive, hproject, -⟩ := hopen
    have hflight := hhere hproject
    rw [if_pos hflight]
    refine ⟨fun _ ht => ?_, fun _ savedAt hclean => ?_, fun _ ht hdrop c hc => ?_⟩
    · obtain ⟨c, hc, -⟩ := h.kept halive ht
      refine ⟨c, hc, Or.inl ?_⟩
      dsimp only
      rcases h.content_reply hflight halive ht hc with hq | ⟨hq, hcontent⟩
      · obtain ⟨q, hqueued, rfl⟩ := Option.map_eq_some_iff.mp hq
        rw [hqueued]
        rfl
      · rw [hq, Option.none_or, Option.map_some, hcontent]
    · have hclean : (if kind = .conflict then SaveState.conflict currentUpdatedAt
        else .error kind) = .clean savedAt := hclean
      split at hclean <;> cases hclean
    · exact (h.backed halive ht hdrop c hc).imp id fun ⟨ha, _⟩ => ⟨ha, nofun⟩

/-! ## Runs -/

/-- A project is opened only while no save of it is on the wire, and no save of the open project
is cancelled: the hook hands its saves no signal. -/
def Orderly (s : State α) : Action α → Prop
  | .adopt projectId _ => s.Idle projectId
  | .reply i (.failed .aborted _) => ∀ r, s.wire[i]? = some r → s.projectId ≠ some r.projectId
  | _ => True

theorem turns_newest_step {s s' : State α} {a : Action α} (h : Turns s ∧ Newest s)
    (hord : Orderly s a) (hs : step s a = some s') : Turns s' ∧ Newest s' := by
  obtain ⟨hturns, hnewest⟩ := h
  cases a with
  | adopt projectId opened =>
    obtain ⟨-, hs⟩ := Option.ite_none_right_eq_some.mp hs
    cases hs
    exact ⟨turns_adopt hturns hord opened, newest_adopt s projectId opened⟩
  | edit object content =>
    obtain ⟨-, hs⟩ := Option.ite_none_right_eq_some.mp hs
    cases hs
    exact ⟨turns_edit hturns object content, newest_edit s object content⟩
  | idle =>
    obtain ⟨-, hs⟩ := Option.ite_none_right_eq_some.mp hs
    cases hs
    exact ⟨turns_flush hturns, newest_flush hnewest⟩
  | flush =>
    obtain ⟨-, hs⟩ := Option.ite_none_right_eq_some.mp hs
    cases hs
    exact ⟨turns_flush hturns, newest_flush hnewest⟩
  | persist room now =>
    obtain ⟨-, hs⟩ := Option.ite_none_right_eq_some.mp hs
    cases hs
    exact ⟨turns_persistNow hturns room now, newest_persistNow hnewest room now⟩
  | reply i reply =>
    obtain ⟨r, hr, hs⟩ := Option.bind_eq_some_iff.mp hs
    have hreceived : Newest { s with wire := s.wire.eraseIdx i } :=
      ⟨hnewest.kept, hnewest.clean, hnewest.backed⟩
    have hhere := fun hp => (hturns.reply_here hr hp).1
    have helsewhere := fun hp => (hturns.reply_elsewhere hr hp).1
    cases reply with
    | saved updatedAt baseVersionId =>
      cases hs
      exact ⟨turns_acknowledge hturns hr updatedAt baseVersionId,
        newest_acknowledge hreceived hhere helsewhere updatedAt baseVersionId⟩
    | failed kind currentUpdatedAt =>
      cases hs
      refine ⟨turns_refuse hturns hr kind currentUpdatedAt,
        newest_refuse hreceived hhere helsewhere (fun hp hkind => ?_) currentUpdatedAt⟩
      subst hkind
      exact hord r hr hp
  | overwriteWithMine =>
    obtain ⟨-, hs⟩ := Option.ite_none_right_eq_some.mp hs
    cases hs
    exact ⟨turns_overwriteWithMine hturns, newest_overwriteWithMine hnewest⟩
  | takeTheirs =>
    obtain ⟨-, hs⟩ := Option.ite_none_right_eq_some.mp hs
    cases hs
    exact ⟨hturns.of_eq rfl nofun hturns.present rfl rfl rfl, newest_takeTheirs hnewest⟩
  | recoverLocal object queued =>
    obtain ⟨-, hs⟩ := Option.ite_none_right_eq_some.mp hs
    cases hs
    exact ⟨turns_recoverLocal hturns object queued, newest_recoverLocal hnewest object queued⟩
  | discardLocal =>
    obtain ⟨-, hs⟩ := Option.ite_none_right_eq_some.mp hs
    cases hs
    exact ⟨hturns.of_eq rfl hturns.pending hturns.present rfl rfl rfl,
      newest_discardLocal hnewest⟩
  | unmount =>
    obtain ⟨-, hs⟩ := Option.ite_none_right_eq_some.mp hs
    cases hs
    exact ⟨turns_unmount hturns, newest_unmount s⟩

theorem turns_newest_run (drafts : Drafts α) (actions : List (Action α))
    (hord : Along step (fun s a _ => Orderly s a) (State.start drafts) actions) :
    Turns (final step (State.start drafts) actions) ∧
      Newest (final step (State.start drafts) actions) := by
  have hstep : ∀ (t : State α) a t', Turns t ∧ Newest t → step t a = some t' → Orderly t a →
      Turns t' ∧ Newest t' := fun _ _ _ h hs ha => turns_newest_step h ha hs
  exact final_of_along hstep ⟨turns_start drafts, newest_start drafts⟩ hord

/-- In every run in which a project is opened only while no save of it is on the wire, at most
one save of the open project is on the wire at a time, and work since it was opened that was
not discarded is queued, on the wire or acknowledged; it is acknowledged where the editor says
`clean`. -/
theorem newest_work_is_kept (drafts : Drafts α) (actions : List (Action α))
    (hord : Along step (fun s a _ => Orderly s a) (State.start drafts) actions) :
    let s := final step (State.start drafts) actions
    (∀ p, s.projectId = some p → (s.wire.filter fun r => r.projectId = p).length ≤ 1) ∧
      (s.alive = true → s.touched = true → ∃ c, s.present.map Doc.content = some c ∧
        (s.pending.map Doc.content = some c ∨
          (∃ r ∈ s.wire, s.projectId = some r.projectId ∧ r.doc.content = c) ∨ s.Acked c) ∧
        ∀ savedAt, s.save = .clean savedAt → s.Acked c) := by
  intro s
  obtain ⟨hturns, hnewest⟩ := turns_newest_run drafts actions hord
  refine ⟨fun p hp => ?_, fun halive htouched => ?_⟩
  · have hlength := congrArg List.length hturns.turn
    have hopen : s.savesHere = s.wire.filter fun r => r.projectId = p := by
      refine List.filter_congr fun r _ => ?_
      rw [hp, decide_eq_decide, Option.some.injEq, eq_comm]
    rw [List.length_map] at hlength
    rw [← hopen]
    refine hlength.le.trans ?_
    cases s.inFlight
    · exact Nat.zero_le 1
    · exact le_refl 1
  · obtain ⟨c, hc, hkept⟩ := hnewest.kept halive htouched
    refine ⟨c, hc, hturns.whereabouts hkept, fun savedAt hclean => ?_⟩
    obtain ⟨hpending, hinFlight⟩ := hnewest.clean halive savedAt hclean
    rcases hkept with hq | ⟨-, hi | ⟨-, ha⟩⟩
    · cases (hpending ▸ hq : (none : Option (Doc α)).map Doc.content = some c)
    · cases (hinFlight ▸ hi : (none : Option (Doc α)).map Doc.content = some c)
    · exact ha

/-- In such a run, work that is not acknowledged and whose copy was not discarded is about to be
written to the device, or is there as long as the editor says that the backup works. -/
theorem backup_is_honest (drafts : Drafts α) (actions : List (Action α))
    (hord : Along step (fun s a _ => Orderly s a) (State.start drafts) actions) :
    let s := final step (State.start drafts) actions
    s.alive = true → s.touched = true → s.dropped = false →
      ∀ c, s.present.map Doc.content = some c → ¬ s.Acked c →
        s.unpersisted.map Doc.content = some c ∨ (s.localBackup = .ok →
          ∃ p draft, s.projectId = some p ∧ s.drafts p = some draft ∧ draft.content = c) := by
  intro s halive htouched hdrop c hc hacked
  obtain ⟨-, hnewest⟩ := turns_newest_run drafts actions hord
  rcases hnewest.backed halive htouched hdrop c hc with (hu | ⟨-, hstored⟩) | ⟨ha, -⟩
  · exact Or.inl hu
  · refine Or.inr fun hok => ?_
    obtain ⟨draft, hdraft, hcontent⟩ := Option.map_eq_some_iff.mp (hstored hok)
    obtain ⟨p, hp, hdraft⟩ := Option.bind_eq_some_iff.mp hdraft
    exact ⟨p, draft, hp, hdraft, hcontent⟩
  · exact (hacked ha).elim

theorem adopt_wire (s : State α) (projectId : Text) (opened : OpenedProject α) :
    (s.adopt projectId opened).wire = (s.leave projectId).wire ∧
      (s.adopt projectId opened).acked = s.acked := by
  have hoffer : ∀ t : State α, (t.offer projectId opened).wire = t.wire ∧
      (t.offer projectId opened).acked = t.acked := by
    intro t
    unfold State.offer
    split
    case h_1 => exact ⟨rfl, rfl⟩
    case h_2 => split <;> exact ⟨rfl, rfl⟩
  have hleave : (s.leave projectId).acked = s.acked := by
    rcases leave_cases s projectId with ⟨heq, -⟩ | ⟨d, p, -, -, -, -, heq⟩ <;> rw [heq]
    rfl
  unfold State.adopt
  obtain ⟨hwire, hacked⟩ := hoffer (Option.elim _ _ _)
  rw [hwire, hacked]
  cases opened.content <;> exact ⟨rfl, hleave⟩

/-- Whoever leaves the project in such a run, for another one or for good, leaves the newest work
on the wire or acknowledged, unless it is queued behind a save: then nothing is sent. -/
theorem leaving_sends (drafts : Drafts α) (actions : List (Action α))
    (hord : Along step (fun s a _ => Orderly s a) (State.start drafts) actions) :
    let s := final step (State.start drafts) actions
    s.alive = true → s.touched = true → ∀ p, s.projectId = some p →
      ∃ c, s.present.map Doc.content = some c ∧
        ∀ a s', (a = .unmount ∨ ∃ q opened, q ≠ p ∧ a = .adopt q opened) → step s a = some s' →
          (s.pending = none ∨ s.inFlight = none →
            (∃ r ∈ s'.wire, r.projectId = p ∧ r.doc.content = c) ∨
              (s'.acked p).map Doc.content = some c) ∧
          (s.pending ≠ none → s.inFlight ≠ none → s'.wire = s.wire) := by
  intro s halive htouched p hp
  obtain ⟨hturns, hnewest⟩ := turns_newest_run drafts actions hord
  obtain ⟨c, hc, hkept⟩ := hnewest.kept halive htouched
  refine ⟨c, hc, fun a s' ha hs' => ?_⟩
  -- nothing is sent, or what is queued
  have hsent : s'.acked = s.acked ∧
      ((s'.wire = s.wire ∧ (s.pending = none ∨ s.inFlight ≠ none)) ∨
        ∃ d, s.pending = some d ∧ s.inFlight = none ∧ s'.wire = s.wire ++ [s.request p d]) := by
    rcases ha with rfl | ⟨q, opened, hq, rfl⟩
    · obtain ⟨-, hs'⟩ := Option.ite_none_right_eq_some.mp hs'
      cases hs'
      rcases unmount_cases s with ⟨heq, hnone⟩ | ⟨d, p', hd, hp', hidle, heq⟩
      · rw [heq]
        refine ⟨rfl, Or.inl ⟨rfl, hnone.imp id fun h => h.resolve_left fun hn => ?_⟩⟩
        cases hp.symm.trans hn
      · cases hp.symm.trans hp'
        rw [heq]
        exact ⟨rfl, Or.inr ⟨d, hd, hidle, rfl⟩⟩
    · obtain ⟨-, hs'⟩ := Option.ite_none_right_eq_some.mp hs'
      cases hs'
      obtain ⟨hwire, hacked⟩ := adopt_wire s q opened
      rw [hwire]
      refine ⟨hacked, ?_⟩
      rcases leave_cases s q with ⟨heq, hnone⟩ | ⟨d, p', hd, hp', hidle, -, heq⟩
      · rw [heq]
        refine Or.inl ⟨rfl, hnone.imp id fun h => ?_⟩
        rcases h with hn | hn | hn
        · cases hp.symm.trans hn
        · exact (hq (Option.some.inj (hn.symm.trans hp))).elim
        · exact hn
      · cases hp.symm.trans hp'
        rw [heq]
        exact Or.inr ⟨d, hd, hidle, rfl⟩
  obtain ⟨hacked, hsent⟩ := hsent
  constructor
  · intro hfree
    rcases hsent with ⟨hwire, hnone⟩ | ⟨d, hd, -, hwire⟩
    · rcases hturns.whereabouts hkept with hq | ⟨r, hr, hrp, hrc⟩ | ha
      · rcases hnone with hnone | hbusy
        · cases (hnone ▸ hq : (none : Option (Doc α)).map Doc.content = some c)
        · rw [hfree.resolve_right hbusy] at hq
          cases hq
      · refine Or.inl ⟨r, hwire ▸ hr, ?_, hrc⟩
        exact (Option.some.inj (hp.symm.trans hrp)).symm
      · refine Or.inr ?_
        rw [hacked]
        have ha : (s.projectId.bind s.acked).map Doc.content = some c := ha
        rwa [hp, Option.bind_some] at ha
    · refine Or.inl ⟨s.request p d, ?_, rfl, ?_⟩
      · rw [hwire]
        exact List.mem_append_right _ (List.mem_singleton_self _)
      · rcases hkept with hq | ⟨hnone, -⟩
        · rw [hd, Option.map_some, Option.some.injEq] at hq
          exact hq
        · cases hd.symm.trans hnone
  · intro hpending hinFlight
    rcases hsent with ⟨hwire, -⟩ | ⟨d, -, hidle, -⟩
    · exact hwire
    · exact (hinFlight hidle).elim

end

/-- An edit goes out, another one is made and written to the device, and the first one fails. -/
def busyRun : List (Action Nat) :=
  [.adopt "a".toList (.workingCopy 0 "t".toList none), .edit 1 5, .idle, .edit 2 6,
    .persist .fits "now".toList, .reply 0 (.failed .network none)]

theorem along_busyRun :
    Along step (fun s a _ => Orderly s a) (State.start fun _ => none) busyRun :=
  ⟨fun _ _ => nofun, fun _ _ => trivial, fun _ _ => trivial, fun _ _ => trivial,
    fun _ _ => trivial, fun _ _ => trivial, trivial⟩

theorem newest_work_is_kept_busyRun :
    ∃ c, ((final step (State.start fun _ => none) busyRun).present.map Doc.content = some c) ∧
      (final step (State.start fun _ => none) busyRun).pending.map Doc.content = some c := by
  obtain ⟨c, hc, hkept, -⟩ := (newest_work_is_kept _ busyRun along_busyRun).2 rfl rfl
  refine ⟨c, hc, ?_⟩
  rcases hkept with hq | ⟨r, hr, -⟩ | ha
  · exact hq
  · cases hr
  · cases ha

theorem backup_is_honest_busyRun :
    ∃ p draft, (final step (State.start fun _ => none) busyRun).projectId = some p ∧
      (final step (State.start fun _ => none) busyRun).drafts p = some draft ∧
      draft.content = 6 := by
  have h := backup_is_honest _ busyRun along_busyRun rfl rfl rfl 6 rfl nofun
  rcases h with hu | hstored
  · cases hu
  · exact hstored rfl

theorem leaving_sends_busyRun :
    ∃ c, (final step (State.start fun _ => none) busyRun).present.map Doc.content = some c ∧
      ∃ r ∈ (final step (State.start fun _ => none) (busyRun ++ [.unmount])).wire,
        r.projectId = "a".toList ∧ r.doc.content = c := by
  obtain ⟨c, hc, hleave⟩ := leaving_sends _ busyRun along_busyRun rfl rfl "a".toList rfl
  refine ⟨c, hc, ?_⟩
  rcases (hleave .unmount _ (Or.inl rfl) rfl).1 (Or.inr rfl) with hsent | ha
  · exact hsent
  · cases ha

end CircuitForge.Document
