/-
Whose session a refusal ends.

The stored pair may be replaced between a refusal and what is done about it: while a call
waits for a refresh that another started, and while an answer is read.  As long as what was
refused is still stored then, a session is ended for cause only.
-/
import CircuitForge.Web.Refreshes

namespace CircuitForge.Client

open Js Requests

/-- A session is ended when the server has refused one of its tokens: the refresh token, or
the access token of a retried request. -/
def EndedForCause : List Event → Prop
  | [] => True
  | .ended tokens :: log =>
    (.refused (.refresh tokens.refreshToken) ∈ log ∨
      .refused (.bearer tokens.accessToken true) ∈ log) ∧ EndedForCause log
  | _ :: log => EndedForCause log

instance decidableEndedForCause : DecidablePred EndedForCause
  | [] => isTrue trivial
  | e :: log => by
    have := decidableEndedForCause log
    cases e <;> (simp only [EndedForCause]; infer_instance)

/-- What a refusal is acted on for is still stored.  A call that waited for a refresh which was
refused waited for that of the pair it found; an answer 401 is read while the retried request's
own pair is stored, or none. -/
def InTurn (_ : Answer) (_ : Nat) : Stmt → State → Prop
  | .interpret status (.bearer accessToken retried), c => status = 401 → ∀ held ∈ c.store,
      retried = true ∧ held.accessToken = accessToken
  | .outcome p, c => ∀ promise ∈ c.promises[p]?, ∀ call ∈ promise.waiting.head?,
      promise.result = some (.error (.api .unauthenticated)) → c.stillOurs call.2 = true →
        call.2.refreshToken = promise.existing.refreshToken
  | _, _ => True

instance decidableInTurn (answer : Answer) (i : Nat) :
    (s : Stmt) → (c : State) → Decidable (InTurn answer i s c)
  | .interpret _ (.bearer _ _), _ => inferInstanceAs (Decidable (_ → ∀ _ ∈ _, _))
  | .interpret _ (.refresh _), _ | .interpret _ .nothing, _ => isTrue trivial
  | .outcome _, _ => inferInstanceAs (Decidable (∀ _ ∈ _, ∀ _ ∈ _, _ → _ → _))
  | .send, _ | .fetch _, _ | .join, _ | .renew _ _, _ | .write _, _ | .signOut, _ | .storage _, _ =>
    isTrue trivial

/-! ## What a call may rely on -/

/-- Nothing is taken back of what happened, and a refresh keeps the pair it is for. -/
structure State.Grows (c c' : State) : Prop where
  log : ∀ e ∈ c.log, e ∈ c'.log
  promises : ∀ (p : Nat) (promise : Promise), c.promises[p]? = some promise →
    ∃ promise' : Promise, c'.promises[p]? = some promise' ∧ promise'.existing = promise.existing

theorem State.Grows.refl (c : State) : c.Grows c :=
  ⟨fun _ he => he, fun _ promise hp => ⟨promise, hp, rfl⟩⟩

theorem State.Grows.trans {c d e : State} (h : c.Grows d) (h' : d.Grows e) : c.Grows e := by
  refine ⟨fun x hx => h'.log x (h.log x hx), fun p promise hp => ?_⟩
  obtain ⟨promise', hp', he⟩ := h.promises p promise hp
  obtain ⟨promise'', hp'', he'⟩ := h'.promises p promise' hp'
  exact ⟨promise'', hp'', he'.trans he⟩

theorem grows_of_promises {c c' : State} (hlog : ∀ e ∈ c.log, e ∈ c'.log)
    (hp : c'.promises = c.promises) : c.Grows c' :=
  ⟨hlog, fun p promise h => ⟨promise, by rw [hp]; exact h, rfl⟩⟩

theorem grows_set {c c' : State} (hlog : ∀ e ∈ c.log, e ∈ c'.log) {p : Nat}
    {promise promise' : Promise} (hp : c.promises[p]? = some promise)
    (hset : c'.promises = c.promises.set p promise')
    (he : promise'.existing = promise.existing) : c.Grows c' := by
  refine ⟨hlog, fun q x hx => ?_⟩
  rw [hset, List.getElem?_set]
  by_cases hpq : p = q
  · subst hpq
    obtain rfl : promise = x := Option.some.inj (hp.symm.trans hx)
    rw [if_pos rfl, if_pos (List.getElem?_eq_some_iff.mp hp).1]
    exact ⟨promise', rfl, he⟩
  · rw [if_neg hpq]
    exact ⟨x, hx, rfl⟩

theorem endSession_grows (c : State) : c.Grows c.endSession := by
  refine grows_of_promises ?_ (endSession_promises c)
  rw [State.endSession]
  split
  · exact fun _ he => he
  · exact fun _ he => List.mem_cons_of_mem _ he

theorem join_grows (c : State) (i : Nat) : c.Grows (c.join i).1 := by
  rw [State.join]
  split
  case h_1 => exact State.Grows.refl c
  case h_2 existing _ =>
    split
    case h_1 p hslot =>
      refine ⟨fun _ he => he, fun q x hx => ?_⟩
      rw [List.getElem?_modify, hx]
      refine ⟨_, rfl, ?_⟩
      dsimp only
      split <;> rfl
    case h_2 =>
      refine ⟨fun _ he => List.mem_cons_of_mem _ he, fun q x hx => ⟨x, ?_, rfl⟩⟩
      exact (List.getElem?_append_left (List.getElem?_eq_some_iff.mp hx).1).trans hx

theorem perform_grows {c c' : State} {answer : Answer} {i : Nat} {s : Stmt} {r : Result s}
    (hs : c.perform answer i s = some (c', r)) : c.Grows c' := by
  cases s with
  | send =>
    cases hs
    exact .refl c
  | fetch presented =>
    cases answer with
    | rejected aborted =>
      cases hs
      exact .refl c
    | text parsed => cases hs
    | head status =>
      cases hs
      split
      · exact grows_of_promises (fun _ he => List.mem_cons_of_mem _ he) rfl
      · exact .refl c
  | interpret status presented =>
    rcases interpret_cases hs with ⟨rfl, -⟩ | ⟨-, -, rfl⟩
    · exact .refl _
    · split
      · exact endSession_grows c
      · exact .refl c
  | join =>
    obtain rfl : (c.join i).1 = c' := congrArg Prod.fst (Option.some.inj hs)
    exact join_grows c i
  | renew p reply =>
    obtain ⟨x, hx, he⟩ := Option.map_eq_some_iff.mp hs
    cases he
    obtain ⟨promise, hp, -, hcases⟩ := renew_cases hx
    rcases hcases with ⟨-, rfl⟩ | ⟨rfl, -⟩ | ⟨tokens, -, -, rfl⟩ | ⟨-, rfl⟩
    · exact grows_set (fun _ he => he) hp rfl rfl
    · exact grows_set (fun _ he => List.mem_cons_of_mem _ he) hp rfl rfl
    · refine grows_set (fun _ he => ?_) hp rfl rfl
      exact List.mem_cons_of_mem _ (List.mem_cons_of_mem _ he)
    · exact grows_set (fun _ he => he) hp rfl rfl
  | outcome p =>
    obtain ⟨existing, result, mine, rest, hp, ended, hover, hcases⟩ := outcome_cases hs
    have hgrows : c.Grows ended := by
      subst hover
      exact grows_set (fun _ he => he) hp rfl rfl
    rcases hcases with ⟨rfl, -⟩ | ⟨rfl, -⟩
    · exact hgrows
    · exact hgrows.trans (endSession_grows ended)
  | write tokens =>
    cases hs
    exact grows_of_promises (fun _ he => List.mem_cons_of_mem _ he) rfl
  | signOut =>
    cases hs
    exact grows_of_promises (fun _ he => he) rfl
  | storage held =>
    cases held <;> cases hs
    · exact grows_of_promises (fun _ he => he) rfl
    · exact grows_of_promises (fun _ he => List.mem_cons_of_mem _ he) rfl

/-! ## Why a session is ended -/

/-- A call that is told that the server has refused the token of its pair waits for a refresh
that was refused, or its pair is not stored. -/
def State.Judged (c : State) : Prop :=
  ∀ (p : Nat) (promise : Promise), c.promises[p]? = some promise →
    promise.result = some (.error (.api .unauthenticated)) → promise.waiting ≠ [] →
      .refused (.refresh promise.existing.refreshToken) ∈ c.log ∨
        c.stillOurs promise.existing = false

def caused : Contract State where
  inv c := c.Sound ∧ EndedForCause c.log ∧ c.Judged
  rely _ := State.Grows
  rely_refl _ := State.Grows.refl
  rely_trans _ _ _ _ := State.Grows.trans

/-- What a call knows at a statement: that the server has refused what the answer 401 is
about. -/
def Known : Stmt → State → Prop
  | .interpret status presented, c => status = 401 → .refused presented ∈ c.log
  | .renew p reply, c => reply = .error (.api .unauthenticated) →
      ∃ promise, c.promises[p]? = some promise ∧
        .refused (.refresh promise.existing.refreshToken) ∈ c.log
  | _, _ => True

theorem known_stable (i : Nat) (s : Stmt) : caused.Stable i (Known s) := by
  intro c c' (hg : c.Grows c') _ h
  cases s with
  | interpret status presented => exact fun hs => hg.log _ (h hs)
  | renew p reply =>
    intro hr
    obtain ⟨promise, hp, hlog⟩ := h hr
    obtain ⟨promise', hp', he⟩ := hg.promises p promise hp
    exact ⟨promise', hp', he ▸ hg.log _ hlog⟩
  | send | fetch | join | outcome | write | signOut | storage => trivial

/-- While nobody is to come first, nobody waits for a refusal. -/
theorem judged_of_quiet {c : State} (hq : c.quiet = true) : c.Judged := by
  intro p promise hp hr hw
  have hf := inFlight_of_quiet hq hp (.inr hw)
  rw [Promise.InFlight, hr] at hf
  cases hf

theorem judged_of_promises {c c' : State} (hq : c.quiet = true) (hp : c'.promises = c.promises) :
    c'.Judged :=
  judged_of_quiet (by rw [State.quiet, hp]; exact hq)

theorem endedForCause_endSession {c : State} (h : EndedForCause c.log)
    (hc : ∀ held, c.store = some held → .refused (.refresh held.refreshToken) ∈ c.log ∨
      .refused (.bearer held.accessToken true) ∈ c.log) : EndedForCause c.endSession.log := by
  rw [State.endSession]
  split
  case h_1 => exact h
  case h_2 held hs => exact ⟨hc held hs, h⟩

theorem stillOurs_iff {c : State} {existing : Tokens} : c.stillOurs existing = true ↔
    ∃ held, c.store = some held ∧ held.refreshToken = existing.refreshToken := by
  rw [State.stillOurs, decide_eq_true_iff, Option.map_eq_some_iff]

theorem caused_renew {c c' : State} (h : caused.inv c) (hq : c.quiet = true) {p : Nat}
    {reply : Except Failure Tokens} (hk : Known (.renew p reply) c)
    (hs : c.renew p reply = some c') : EndedForCause c'.log ∧ c'.Judged := by
  obtain ⟨promise, hp, hflight, hcases⟩ := renew_cases hs
  have hjudged : ∀ (d : State) (result : Except Failure Tokens), d.promises = c.promises.set p
      { promise with result := some result } → (result = .error (.api .unauthenticated) →
        .refused (.refresh promise.existing.refreshToken) ∈ d.log ∨
          d.stillOurs promise.existing = false) → d.Judged := by
    intro d result hd hrefused q x hx hr hw
    rw [hd] at hx
    rcases getElem?_set_promise hx with ⟨rfl, rfl⟩ | ⟨-, hx⟩
    · exact hrefused (Option.some.inj hr)
    · exact absurd hr (by rw [inFlight_of_quiet hq hx (.inr hw)]; simp)
  rcases hcases with ⟨rfl, rfl⟩ | ⟨rfl, hne⟩ | ⟨tokens, hours, rfl, rfl⟩ | ⟨hours, rfl⟩
  · refine ⟨h.2.1, hjudged _ _ rfl fun _ => .inl ?_⟩
    obtain ⟨x, hx, hlog⟩ := hk rfl
    obtain rfl : promise = x := Option.some.inj (hp.symm.trans hx)
    exact hlog
  · exact ⟨h.2.1, hjudged _ _ rfl fun he => absurd he hne⟩
  · exact ⟨h.2.1, hjudged _ _ rfl fun he => by cases he⟩
  · exact ⟨h.2.1, hjudged _ _ rfl fun _ => .inr hours⟩

theorem caused_outcome {c c' : State} (h : caused.inv c) {answer : Answer} {i p : Nat} {o : Outcome}
    (hturn : InTurn answer i (.outcome p) c) (hs : c.outcome i p = some (c', o)) :
    EndedForCause c'.log ∧ c'.Judged := by
  obtain ⟨existing, result, mine, rest, hp, ended, hover, hcases⟩ := outcome_cases hs
  have hj := h.2.2 p _ hp
  rcases hcases with ⟨rfl, -⟩ | ⟨rfl, -, rfl, hours⟩
  · subst hover
    refine ⟨h.2.1, fun q x hx hr hw => ?_⟩
    rcases getElem?_set_promise hx with ⟨rfl, rfl⟩ | ⟨-, hx⟩
    · exact hj hr (List.cons_ne_nil _ _)
    · exact h.2.2 q x hx hr hw
  · refine ⟨?_, fun q x hx hr hw => .inr ?_⟩
    · subst hover
      refine endedForCause_endSession h.2.1 fun held hheld => .inl ?_
      have heq := hturn _ hp _ rfl rfl hours
      obtain ⟨held', hheld', hmine⟩ := stillOurs_iff.mp hours
      obtain rfl : held = held' := Option.some.inj (hheld.symm.trans hheld')
      rcases hj rfl (List.cons_ne_nil _ _) with hlog | hgone
      · rwa [hmine, heq]
      · have hstill : c.stillOurs existing = true :=
          stillOurs_iff.mpr ⟨held, hheld, hmine.trans heq⟩
        cases hstill.symm.trans hgone
    · rw [State.stillOurs, endSession_store]
      rfl

theorem quiet_iff {c : State} : c.quiet = true ↔
    ∀ promise ∈ c.promises, promise.InFlight ∨ promise.waiting = [] := by
  simp [State.quiet, Promise.InFlight]

theorem join_quiet {c : State} (h : c.Lined) (hq : c.quiet = true) (i : Nat) :
    (c.join i).1.quiet = true := by
  rw [State.join]
  split
  case h_1 => exact hq
  case h_2 existing _ =>
    split
    case h_1 p hslot =>
      obtain ⟨promise, call, rest, hp, hw⟩ := h.slot p hslot
      have hflight : promise.InFlight := inFlight_of_quiet hq hp (.inr (by rw [hw]; simp))
      refine quiet_iff.mpr fun x hx => ?_
      obtain ⟨q, hx⟩ := List.mem_iff_getElem?.mp hx
      rw [List.getElem?_modify] at hx
      obtain ⟨y, hy, rfl⟩ := Option.map_eq_some_iff.mp hx
      split
      case isTrue hpq =>
        subst hpq
        obtain rfl : promise = y := Option.some.inj (hp.symm.trans hy)
        exact .inl hflight
      case isFalse => exact quiet_iff.mp hq y (List.mem_of_getElem? hy)
    case h_2 =>
      refine quiet_iff.mpr fun x hx => ?_
      rcases List.mem_append.mp hx with hx | hx
      · exact quiet_iff.mp hq x hx
      · obtain rfl := List.mem_singleton.mp hx
        exact .inl rfl

theorem join_endedForCause {c : State} (h : EndedForCause c.log) {i : Nat} :
    EndedForCause (c.join i).1.log := by
  rw [State.join]
  split
  case h_1 => exact h
  case h_2 => split <;> exact h

theorem caused_perform {c c' : State} (h : caused.inv c) {answer : Answer} {i : Nat} {s : Stmt}
    {r : Result s} (hk : Known s c) (hturn : InTurn answer i s c)
    (hs : sem answer i s c = some (c', r)) : caused.inv c' := by
  have hsound := h.1.exec hs
  rw [sem] at hs
  split at hs
  case isFalse => cases hs
  case isTrue hq =>
    refine ⟨hsound, ?_⟩
    cases s with
    | outcome p => exact caused_outcome h hturn hs
    | send =>
      cases hs
      exact h.2
    | fetch presented =>
      have hquiet := hq.resolve_left (by simp [isOutcome])
      cases answer with
      | rejected aborted =>
        cases hs
        exact h.2
      | text parsed => cases hs
      | head status =>
        cases hs
        refine ⟨?_, judged_of_promises hquiet ?_⟩
        · split
          · exact h.2.1
          · exact h.2.1
        · split <;> rfl
    | interpret status presented =>
      have hquiet := hq.resolve_left (by simp [isOutcome])
      rcases interpret_cases hs with ⟨rfl, -⟩ | ⟨hstatus, -, rfl⟩
      · exact h.2
      cases presented with
      | nothing => exact h.2
      | refresh refreshToken => exact h.2
      | bearer accessToken retried =>
        refine ⟨endedForCause_endSession h.2.1 fun held hheld => .inr ?_,
          judged_of_promises hquiet (endSession_promises c)⟩
        obtain ⟨rfl, haccess⟩ := hturn hstatus held hheld
        exact haccess ▸ hk hstatus
    | join =>
      obtain rfl : (c.join i).1 = c' := congrArg Prod.fst (Option.some.inj hs)
      have hquiet := hq.resolve_left (by simp [isOutcome])
      exact ⟨join_endedForCause h.2.1, judged_of_quiet (join_quiet h.1.lined hquiet i)⟩
    | renew p reply =>
      obtain ⟨x, hx, he⟩ := Option.map_eq_some_iff.mp hs
      cases he
      exact caused_renew h (hq.resolve_left (by simp [isOutcome])) hk hx
    | write tokens =>
      cases hs
      exact ⟨h.2.1, judged_of_promises (hq.resolve_left (by simp [isOutcome])) rfl⟩
    | signOut =>
      cases hs
      exact ⟨h.2.1, judged_of_promises (hq.resolve_left (by simp [isOutcome])) rfl⟩
    | storage held =>
      have hquiet := hq.resolve_left (by simp [isOutcome])
      cases held <;> cases hs
      · exact ⟨h.2.1, judged_of_promises hquiet rfl⟩
      · exact ⟨h.2.1, judged_of_promises hquiet rfl⟩

/-! ## The calls -/

theorem perform_of_sem {c : State} {answer : Answer} {i : Nat} {s : Stmt} {x : State × Result s}
    (hs : sem answer i s c = some x) : c.perform answer i s = some x := by
  rw [sem] at hs
  split at hs
  · exact hs
  · cases hs

/-- A statement of a call that knows what it has to. -/
theorem keeps_ask {i : Nat} {s : Stmt} {Q : Result s → State → Prop} {c : State} (hk : Known s c)
    (hs : ∀ answer (d d' : State) r, Known s d → d.perform answer i s = some (d', r) → Q r d') :
    caused.Keeps sem InTurn i (ask s) Q c := by
  refine Contract.keeps_exec (known_stable i s) hk fun d hinv hd answer d' r hok hexec => ?_
  have hperform := perform_of_sem hexec
  exact ⟨caused_perform hinv hd hok hexec, fun j _ => perform_grows hperform,
    hs answer d d' r hd hperform⟩

theorem keeps_ask_bind {i : Nat} {s : Stmt} {ρ : Type} {next : Result s → Async ρ}
    {Q : ρ → State → Prop} {c : State} (hk : Known s c)
    (hnext : ∀ answer (d d' : State) r, Known s d → d.perform answer i s = some (d', r) →
      caused.Keeps sem InTurn i (next r) Q d') :
    caused.Keeps sem InTurn i (ask s >>= next) Q c :=
  Contract.keeps_bind (keeps_ask hk hnext)

theorem interpret_keeps {i status : Nat} {presented : Credential} {c : State}
    (h : status = 401 → .refused presented ∈ c.log) :
    caused.Keeps sem InTurn i (interpret status presented)
      (fun r d => r = .error (.api .unauthenticated) → .refused presented ∈ d.log) c := by
  refine keeps_ask (s := .interpret status presented) h fun answer d d' r hd hs hr => ?_
  rcases interpret_cases hs with ⟨-, hne⟩ | ⟨hstatus, -, -⟩
  · exact absurd hr hne
  · exact (perform_grows hs).log _ (hd hstatus)

/-- A call is refused what it presented. -/
theorem exchange_keeps {i : Nat} {call : Call} {retried : Bool}
    {onRefusal : Nat → Credential → Async (Except Failure Tokens)} {presented : Credential}
    (hrefusal : call = .api → ∀ d, .refused presented ∈ d.log →
      caused.Keeps sem InTurn i (onRefusal 401 presented) (fun _ _ => True) d) (c : State) :
    caused.Keeps sem InTurn i (exchange call retried onRefusal presented)
      (fun r d => call ≠ .api → r = .error (.api .unauthenticated) → .refused presented ∈ d.log)
      c := by
  refine keeps_ask_bind (s := .fetch presented) trivial fun answer d d' r _ hs => ?_
  cases answer with
  | text parsed => cases hs
  | rejected aborted =>
    cases hs
    refine fun _ hr => absurd hr ?_
    cases aborted <;> simp
  | head status =>
    cases hs
    have hlog : status = 401 → .refused presented ∈
        (if status = 401 then { d with log := .refused presented :: d.log } else d).log := by
      rintro rfl
      exact List.mem_cons_self
    change caused.Keeps sem InTurn i (if status = 401 ∧ call = .api ∧ retried = false then
      onRefusal status presented else interpret status presented) _ _
    by_cases hfirst : status = 401 ∧ call = .api ∧ retried = false
    · rw [if_pos hfirst]
      obtain ⟨rfl, rfl, -⟩ := hfirst
      exact (hrefusal rfl _ (hlog rfl)).mono fun _ _ _ hne => absurd rfl hne
    · rw [if_neg hfirst]
      exact (interpret_keeps hlog).mono fun _ _ h _ => h

theorem attempt_keeps {i : Nat} {call : Call} {retried : Bool}
    {onRefusal : Nat → Credential → Async (Except Failure Tokens)}
    (hrefusal : call = .api → ∀ presented d, .refused presented ∈ d.log →
      caused.Keeps sem InTurn i (onRefusal 401 presented) (fun _ _ => True) d) (c : State) :
    caused.Keeps sem InTurn i (attempt call retried onRefusal)
      (fun r d => ∀ token, call = .refresh token → r = .error (.api .unauthenticated) →
        .refused (.refresh token) ∈ d.log) c := by
  cases call with
  | api =>
    refine keeps_ask_bind (s := .send) trivial fun answer d d' r _ hs => ?_
    cases r with
    | none => exact fun token h => by cases h
    | some access =>
      refine (exchange_keeps (fun h => hrefusal h _) _).mono fun r s _ token h => by cases h
  | plain =>
    exact (exchange_keeps (fun h => by cases h) _).mono fun r s _ token h => by cases h
  | refresh refreshToken =>
    refine (exchange_keeps (fun h => by cases h) _).mono fun r s h token he => ?_
    cases he
    exact h (by simp)

theorem retry_keeps {i : Nat} {call : Call} (c : State) :
    caused.Keeps sem InTurn i (retry call)
      (fun r d => ∀ token, call = .refresh token → r = .error (.api .unauthenticated) →
        .refused (.refresh token) ∈ d.log) c :=
  attempt_keeps (fun _ _ _ hlog => (interpret_keeps fun _ => hlog).mono
    fun _ _ _ => trivial) c

/-- The refresh `p` is for this token. -/
def State.IsFor (c : State) (p : Nat) (refreshToken : Text) : Prop :=
  ∃ promise, c.promises[p]? = some promise ∧ promise.existing.refreshToken = refreshToken

theorem isFor_stable (i p : Nat) (refreshToken : Text) :
    caused.Stable i fun c => c.IsFor p refreshToken := by
  rintro c c' hg - ⟨promise, hp, ht⟩
  obtain ⟨promise', hp', he⟩ := State.Grows.promises hg p promise hp
  exact ⟨promise', hp', he ▸ ht⟩

theorem join_isFor {c : State} {i p : Nat} {refreshToken : Text}
    (h : (c.join i).2 = some (p, some refreshToken)) : (c.join i).1.IsFor p refreshToken := by
  rw [State.join] at h ⊢
  split at h
  case h_1 => cases h
  case h_2 existing hstore =>
    split at h
    case h_1 => cases h
    case h_2 hfree =>
      cases h
      simp only [hstore]
      exact ⟨_, List.getElem?_concat_length, rfl⟩

theorem outcome_keeps {i p : Nat} (c : State) :
    caused.Keeps sem InTurn i (ask (.outcome p)) (fun _ _ => True) c :=
  keeps_ask (s := .outcome p) trivial fun _ _ _ _ _ _ => trivial

theorem refreshSession_keeps {i : Nat} (c : State) :
    caused.Keeps sem InTurn i refreshSession (fun _ _ => True) c := by
  refine keeps_ask_bind (s := .join) trivial fun answer d d' r _ hs => ?_
  have hjoin : d.join i = (d', r) := Option.some.inj hs
  rcases r with _ | ⟨p, _ | refreshToken⟩
  · trivial
  · exact outcome_keeps d'
  have hfor : d'.IsFor p refreshToken := by
    have := join_isFor (c := d) (i := i) (congrArg Prod.snd hjoin)
    rwa [hjoin] at this
  refine Contract.keeps_bind (((retry_keeps d').and_stable
    (fun j => isFor_stable j p refreshToken) hfor).mono fun reply e he => ?_)
  obtain ⟨hrefused, promise, hp, htoken⟩ := he
  refine keeps_ask_bind (s := .renew p reply) (fun hr => ⟨promise, hp, ?_⟩) fun _ _ e' _ _ _ =>
    outcome_keeps e'
  exact htoken ▸ hrefused refreshToken rfl hr

theorem request_keeps {i : Nat} {call : Call} (c : State) :
    caused.Keeps sem InTurn i (request call) (fun _ _ => True) c := by
  refine (attempt_keeps (fun hcall presented d hlog => ?_) c).mono fun _ _ _ => trivial
  refine Contract.keeps_bind (((refreshSession_keeps d).and_stable
    (H := fun e => .refused presented ∈ e.log) (fun j s t hg _ h => ?_) hlog).mono ?_)
  · exact State.Grows.log hg _ h
  rintro (_ | _ | _ | _) e ⟨-, he⟩
  · exact (retry_keeps e).mono fun _ _ _ => trivial
  · exact (interpret_keeps fun _ => he).mono fun _ _ _ => trivial
  · trivial
  · exact (retry_keeps e).mono fun _ _ _ => trivial

theorem signIn_keeps {i : Nat} (c : State) :
    caused.Keeps sem InTurn i signIn (fun _ _ => True) c := by
  refine Contract.keeps_bind ((request_keeps c).mono ?_)
  rintro (e | tokens) d -
  · trivial
  · exact keeps_ask_bind (s := .write tokens) trivial fun _ _ _ _ _ _ => trivial

theorem signOut_keeps {i : Nat} (c : State) :
    caused.Keeps sem InTurn i signOut (fun _ _ => True) c := by
  refine keeps_ask_bind (s := .signOut) trivial fun answer d d' r _ _ => ?_
  cases r with
  | none => trivial
  | some tokens => exact Contract.keeps_bind ((request_keeps d').mono fun _ _ _ => trivial)

theorem program_keeps (method : Method) (i : Nat) (c : State) :
    caused.Keeps sem InTurn i method.program (fun _ _ => True) c := by
  cases method with
  | request => exact Contract.keeps_bind ((request_keeps c).mono fun _ _ _ => trivial)
  | signIn => exact Contract.keeps_bind ((signIn_keeps c).mono fun _ _ _ => trivial)
  | register => exact Contract.keeps_bind ((signIn_keeps c).mono fun _ _ _ => trivial)
  | signOut => exact Contract.keeps_bind ((signOut_keeps c).mono fun _ _ _ => trivial)
  | storage held => exact keeps_ask (s := .storage held) trivial fun _ _ _ _ _ _ => trivial

/-! ## Every run -/

theorem caused_start (store : Option Tokens) : caused.inv (State.start store) :=
  ⟨sound_start store, trivial, fun p promise hp => by cases hp⟩

/-- One refresh is in flight at most, and its token is sent again only when the refresh came to
nothing or the pair was stored anew; a new pair is written over the pair it was got for; and
while what was refused is still stored when it is acted on, a session is ended for cause. -/
theorem refresh_single_flight (store : Option Tokens) (actions : List (Action Answer Method)) :
    (after store actions).SingleFlight ∧ SentUnspent (after store actions).log ∧
      WrittenInPlace (after store actions).log ∧
        ((Pool.start (State.start store)).Meets sem Method.program InTurn actions →
          EndedForCause (after store actions).log) := by
  have h := sound_after store actions
  refine ⟨h.lined.singleFlight, h.unspent, h.inPlace, fun hturn => ?_⟩
  exact (Contract.inv_run (fun call i s _ => program_keeps call i s) (caused_start store) hturn).2.1

def firstPair : Tokens := ⟨"a1".toList, "r1".toList⟩

def nextPair : Tokens := ⟨"a2".toList, "r2".toList⟩

def lastPair : Tokens := ⟨"a3".toList, "r3".toList⟩

/-- Two calls are refused, and the second waits for the refresh of the first.  Both are sent
again with the new pair, and one is refused once more. -/
def sharedRefresh : List (Action Answer Method) :=
  [.call .request, .turn 0 (.text none), .turn 0 (.head 401), .turn 0 (.text none),
    .call .request, .turn 1 (.text none), .turn 1 (.head 401), .turn 1 (.text none),
    .turn 0 (.head 200), .turn 0 (.text (some nextPair)), .turn 0 (.text none),
    .turn 0 (.text none), .turn 1 (.text none), .turn 0 (.text none), .turn 1 (.text none),
    .turn 0 (.head 200), .turn 1 (.head 401), .turn 1 (.text none)]

theorem refresh_single_flight_shared :
    (after (some firstPair) sharedRefresh).SingleFlight ∧
      SentUnspent (after (some firstPair) sharedRefresh).log ∧
      WrittenInPlace (after (some firstPair) sharedRefresh).log ∧
      EndedForCause (after (some firstPair) sharedRefresh).log ∧
      .ended nextPair ∈ (after (some firstPair) sharedRefresh).log := by
  obtain ⟨hflight, hsent, hplace, hended⟩ := refresh_single_flight (some firstPair) sharedRefresh
  exact ⟨hflight, hsent, hplace, hended (by decide), by decide⟩

/-- The network drops during a refresh, and the next call refreshes with the same token. -/
def unanswered : List (Action Answer Method) :=
  [.call .request, .turn 0 (.text none), .turn 0 (.head 401), .turn 0 (.text none),
    .turn 0 (.rejected false), .turn 0 (.text none), .turn 0 (.text none),
    .call .request, .turn 1 (.text none), .turn 1 (.head 401), .turn 1 (.text none)]

/-- Another tab stores a new pair during a refresh, and a call that is refused with the new pair
waits for the refresh of the old one. -/
def overtaken : List (Action Answer Method) :=
  [.call .request, .turn 0 (.text none), .turn 0 (.head 401), .turn 0 (.text none),
    .call (.storage (some nextPair)), .turn 1 (.text none),
    .call .request, .turn 2 (.text none), .turn 2 (.head 401), .turn 2 (.text none),
    .turn 0 (.head 200), .turn 0 (.text (some lastPair)), .turn 0 (.text none),
    .turn 0 (.text none), .turn 2 (.text none)]

/-- A token goes to the server twice, and a session is ended none of whose tokens was judged. -/
theorem refresh_repeated_and_inherited :
    ¬ SentOnce (after (some firstPair) unanswered).log ∧
      ¬ EndedForCause (after (some firstPair) overtaken).log := by
  decide

end CircuitForge.Client
