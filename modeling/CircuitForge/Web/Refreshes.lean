/-
One refresh at a time.

A refresh is shared by the calls that wait for it, and the stored pair may be replaced while
they wait.  A token whose refresh came to nothing is sent again.
-/
import CircuitForge.Web.Client

namespace CircuitForge.Client

open Js Requests

/-! ## What the client is to keep -/

/-- No refresh token is sent twice. -/
def SentOnce : List Event → Prop
  | [] => True
  | .sent refreshToken :: log => .sent refreshToken ∉ log ∧ SentOnce log
  | _ :: log => SentOnce log

/-- The refresh token was sent, and since then neither did the refresh come to nothing nor was
the pair stored anew. -/
def Spent (refreshToken : Text) : List Event → Prop
  | [] => False
  | .sent t :: log => t = refreshToken ∨ Spent refreshToken log
  | .unjudged t :: log => t ≠ refreshToken ∧ Spent refreshToken log
  | .stored tokens :: log => tokens.refreshToken ≠ refreshToken ∧ Spent refreshToken log
  | _ :: log => Spent refreshToken log

/-- No refresh token is sent that is spent. -/
def SentUnspent : List Event → Prop
  | [] => True
  | .sent refreshToken :: log => ¬ Spent refreshToken log ∧ SentUnspent log
  | _ :: log => SentUnspent log

/-- A new pair is written over the pair it was got for. -/
def Event.InPlace : Event → Prop
  | .renewed existing held => held.map Tokens.refreshToken = some existing.refreshToken
  | _ => True

def WrittenInPlace (log : List Event) : Prop := ∀ e ∈ log, e.InPlace

instance decidableSentOnce : DecidablePred SentOnce
  | [] => isTrue trivial
  | e :: log => by
    have := decidableSentOnce log
    cases e <;> (simp only [SentOnce]; infer_instance)

instance : DecidablePred Event.InPlace
  | .renewed _ _ => inferInstanceAs (Decidable (_ = _))
  | .sent _ | .refused _ | .unjudged _ | .stored _ | .ended _ => isTrue trivial

instance : DecidablePred WrittenInPlace := fun log =>
  inferInstanceAs (Decidable (∀ e ∈ log, e.InPlace))

def Promise.InFlight (promise : Promise) : Prop := promise.result = none

/-- There is one refresh in flight at most. -/
def State.SingleFlight (c : State) : Prop :=
  ∀ (p q : Nat) (pp pq : Promise), c.promises[p]? = some pp → c.promises[q]? = some pq →
    pp.InFlight → pq.InFlight → p = q

/-- The state a run leaves. -/
def after (store : Option Tokens) (actions : List (Action Answer Method)) : State :=
  ((Pool.start (State.start store)).run sem Method.program actions).store

/-! ## One refresh at a time -/

theorem getElem?_set_promise {promises : List Promise} {p q : Nat} {promise x : Promise}
    (h : (promises.set p promise)[q]? = some x) :
    (q = p ∧ x = promise) ∨ (q ≠ p ∧ promises[q]? = some x) := by
  rw [List.getElem?_set] at h
  split at h
  case isTrue hpq =>
    split at h
    · exact .inl ⟨hpq.symm, (Option.some.inj h).symm⟩
    · cases h
  case isFalse hpq => exact .inr ⟨fun e => hpq e.symm, h⟩

/-- A refresh in flight, or one whose calls have not all gone on. -/
def Promise.Live (promise : Promise) : Prop := promise.InFlight ∨ promise.waiting ≠ []

/-- What `refreshing` holds is the refresh that is not over yet, and the call that started it
is the first to go on. -/
structure State.Lined (c : State) : Prop where
  slot : ∀ p, c.refreshing = some p → ∃ promise call rest, c.promises[p]? = some promise ∧
    promise.waiting = (call, promise.existing) :: rest
  inSlot : ∀ p (promise : Promise), c.promises[p]? = some promise → promise.InFlight →
    c.refreshing = some p
  single : ∀ (p q : Nat) (pp pq : Promise), c.promises[p]? = some pp → c.promises[q]? = some pq →
    pp.Live → pq.Live → p = q

theorem State.Lined.singleFlight {c : State} (h : c.Lined) : c.SingleFlight :=
  fun p q pp pq hp hq hpp hpq => h.single p q pp pq hp hq (.inl hpp) (.inl hpq)

theorem lined_start (store : Option Tokens) : (State.start store).Lined where
  slot := fun p hp => by cases hp
  inSlot := fun p promise hp => by cases hp
  single := fun p q pp pq hp => by cases hp

theorem State.Lined.congr {c c' : State} (h : c.Lined) (hr : c'.refreshing = c.refreshing)
    (hp : c'.promises = c.promises) : c'.Lined where
  slot := by rw [hr, hp]; exact h.slot
  inSlot := by rw [hr, hp]; exact h.inSlot
  single := by rw [hp]; exact h.single

/-- Where nobody is to come first, a refresh that is not over is in flight. -/
theorem inFlight_of_quiet {c : State} (hq : c.quiet = true) {p : Nat} {promise : Promise}
    (hp : c.promises[p]? = some promise) (hl : promise.Live) : promise.InFlight := by
  rcases hl with hl | hl
  · exact hl
  have hall := List.all_eq_true.mp hq promise (List.mem_of_getElem? hp)
  rw [Bool.or_eq_true, List.isEmpty_iff, Option.isNone_iff_eq_none] at hall
  exact hall.resolve_right hl

/-- A promise is replaced by one that is no more live, and the slot is emptied or the promise
in it still has its first call. -/
theorem State.Lined.set {c c' : State} (h : c.Lined) {p : Nat} {promise promise' : Promise}
    (hp : c.promises[p]? = some promise) (hpromises : c'.promises = c.promises.set p promise')
    (hlive : promise'.Live → promise.Live)
    (hflight : promise'.InFlight → c'.refreshing = some p)
    (hother : ∀ q (x : Promise), q ≠ p → c.promises[q]? = some x → x.InFlight →
      c'.refreshing = some q)
    (hslot : ∀ q, c'.refreshing = some q → c.refreshing = some q ∧
      (q = p → promise'.existing = promise.existing ∧
        ∃ more, promise'.waiting = promise.waiting ++ more)) :
    c'.Lined := by
  have hlt : p < c.promises.length := (List.getElem?_eq_some_iff.mp hp).1
  refine ⟨fun q hq => ?_, fun q x hx hflying => ?_, fun q r pq pr hq hr hlq hlr => ?_⟩
  · obtain ⟨hq', hsame⟩ := hslot q hq
    obtain ⟨x, call, rest, hx, hw⟩ := h.slot q hq'
    by_cases hqp : q = p
    · subst hqp
      obtain rfl : promise = x := Option.some.inj (hp.symm.trans hx)
      obtain ⟨he, more, hm⟩ := hsame rfl
      refine ⟨promise', call, rest ++ more, ?_, ?_⟩
      · rw [hpromises, List.getElem?_set_self hlt]
      · rw [hm, hw, he, List.cons_append]
    · refine ⟨x, call, rest, ?_, hw⟩
      rwa [hpromises, List.getElem?_set_ne (Ne.symm hqp)]
  · rw [hpromises] at hx
    rcases getElem?_set_promise hx with ⟨rfl, rfl⟩ | ⟨hne, hx⟩
    · exact hflight hflying
    · exact hother q x hne hx hflying
  · rw [hpromises] at hq hr
    rcases getElem?_set_promise hq with ⟨rfl, rfl⟩ | ⟨-, hq'⟩ <;>
      rcases getElem?_set_promise hr with ⟨rfl, rfl⟩ | ⟨-, hr'⟩
    · rfl
    · exact h.single _ _ _ _ hp hr' (hlive hlq) hlr
    · exact h.single _ _ _ _ hq' hp hlq (hlive hlr)
    · exact h.single _ _ _ _ hq' hr' hlq hlr

theorem State.Lined.append {c c' : State} (h : c.Lined) (hquiet : c.quiet = true)
    (hfree : c.refreshing = none) {existing : Tokens} {i : Nat}
    (hr : c'.refreshing = some c.promises.length)
    (hp : c'.promises = c.promises ++ [⟨existing, none, [(i, existing)]⟩]) : c'.Lined := by
  have hover : ∀ (q : Nat) (x : Promise), c.promises[q]? = some x → ¬ x.Live := by
    intro q x hx hl
    have hslot := h.inSlot q x hx (inFlight_of_quiet hquiet hx hl)
    rw [hfree] at hslot
    cases hslot
  have hlive : ∀ (q : Nat) (x : Promise), c'.promises[q]? = some x → x.Live →
      q = c.promises.length := by
    intro q x hx hl
    rw [hp, List.getElem?_append] at hx
    split at hx
    · exact absurd hl (hover q x hx)
    · have hlt := (List.getElem?_eq_some_iff.mp hx).1
      rw [List.length_singleton] at hlt
      omega
  refine ⟨fun q hq => ?_, fun q x hx hflying => ?_, fun q r pq pr hq hr hlq hlr => ?_⟩
  · obtain rfl : c.promises.length = q := Option.some.inj (hr.symm.trans hq)
    refine ⟨⟨existing, none, [(i, existing)]⟩, i, [], ?_, rfl⟩
    rw [hp, List.getElem?_concat_length]
  · rw [hr, hlive q x hx (.inl hflying)]
  · rw [hlive q pq hq hlq, hlive r pr hr hlr]

/-! ## The statements -/

theorem endSession_promises (c : State) : c.endSession.promises = c.promises := by
  rw [State.endSession]
  split <;> rfl

theorem endSession_refreshing (c : State) : c.endSession.refreshing = c.refreshing := by
  rw [State.endSession]
  split <;> rfl

theorem endSession_store (c : State) : c.endSession.store = none := by
  rw [State.endSession]
  split
  case h_1 h => exact h
  case h_2 => rfl

theorem interpret_cases {c c' : State} {status : Nat} {presented : Credential} {answer : Answer}
    {r : Except Failure Tokens} (h : c.interpret status presented answer = some (c', r)) :
    (c' = c ∧ r ≠ .error (.api .unauthenticated)) ∨
      (status = 401 ∧ r = .error (.api .unauthenticated) ∧
        c' = if carriedOurToken presented = true then c.endSession else c) := by
  cases answer with
  | rejected aborted =>
    cases h
    exact .inl ⟨rfl, by simp⟩
  | head status => cases h
  | text parsed =>
    dsimp only [State.interpret] at h
    split at h
    · cases h
      refine .inl ⟨rfl, ?_⟩
      split <;> simp
    · by_cases hk : kindForStatus status = .unauthenticated
      · simp only [hk, true_and] at h
        cases h
        exact .inr ⟨kindForStatus_unauthenticated hk, rfl, rfl⟩
      · simp only [hk, false_and, if_false] at h
        cases h
        exact .inl ⟨rfl, by simp [hk]⟩

/-- What a refresh leaves with its reply. -/
theorem renew_cases {c c' : State} {p : Nat} {reply : Except Failure Tokens}
    (h : c.renew p reply = some c') :
    ∃ promise, c.promises[p]? = some promise ∧ promise.InFlight ∧
      ((reply = .error (.api .unauthenticated) ∧ c' = c.settle p promise reply) ∨
        (c' = { c.settle p promise reply with
          log := .unjudged promise.existing.refreshToken :: c.log } ∧
            reply ≠ .error (.api .unauthenticated)) ∨
        (∃ tokens, c.stillOurs promise.existing = true ∧ reply = .ok tokens ∧
          c' = ({ c with log := .renewed promise.existing c.store :: c.log }.write tokens).settle
            p promise reply) ∨
        (c.stillOurs promise.existing = false ∧
          c' = c.settle p promise (.error (.api .unauthenticated)))) := by
  rw [State.renew] at h
  split at h
  case h_1 => cases h
  case h_2 promise hp =>
    split at h
    case isTrue => cases h
    case isFalse hnone =>
      refine ⟨promise, hp, by simpa [Promise.InFlight] using hnone, ?_⟩
      split at h
      case h_1 =>
        cases h
        exact .inl ⟨rfl, rfl⟩
      case h_2 e hne =>
        cases h
        exact .inr (.inl ⟨rfl, fun he => hne (Except.error.inj he)⟩)
      case h_3 tokens =>
        split at h
        case isTrue hours =>
          cases h
          exact .inr (.inr (.inl ⟨tokens, hours, rfl, rfl⟩))
        case isFalse hours =>
          cases h
          exact .inr (.inr (.inr ⟨by simpa using hours, rfl⟩))

/-- How the first of those that wait goes on. -/
theorem outcome_cases {c c' : State} {i p : Nat} {o : Outcome} (h : c.outcome i p = some (c', o)) :
    ∃ existing result mine rest, c.promises[p]? = some ⟨existing, some result, (i, mine) :: rest⟩ ∧
      ∃ ended : State, ended = { c with
          refreshing := none
          promises := c.promises.set p ⟨existing, some result, rest⟩ } ∧
        ((c' = ended ∧ (result = .error (.api .unauthenticated) → c.stillOurs mine = false)) ∨
          (c' = ended.endSession ∧ o = .rejected ∧ result = .error (.api .unauthenticated) ∧
            c.stillOurs mine = true)) := by
  rw [State.outcome] at h
  split at h
  case h_2 => cases h
  case h_1 existing result j mine rest hp =>
    split at h
    case isFalse => cases h
    case isTrue hij =>
      subst hij
      refine ⟨existing, result, mine, rest, hp, _, rfl, ?_⟩
      cases result with
      | ok tokens =>
        cases h
        exact .inl ⟨rfl, fun he => by cases he⟩
      | error e =>
        dsimp only at h
        split at h
        case isTrue hours =>
          cases h
          exact .inl ⟨rfl, fun _ => hours⟩
        case isFalse hours =>
          split at h
          case isTrue he =>
            cases h
            exact .inr ⟨rfl, rfl, by rw [he], eq_true_of_ne_false hours⟩
          case isFalse he =>
            cases h
            exact .inl ⟨rfl, fun hr => absurd (Except.error.inj hr) he⟩

/-! ## What every statement keeps -/

/-- The refresh with this token is in flight, or it was refused and the call that started it
has still to go on. -/
def State.Renewing (c : State) (refreshToken : Text) : Prop :=
  ∃ p promise, c.refreshing = some p ∧ c.promises[p]? = some promise ∧
    promise.existing.refreshToken = refreshToken ∧
      (promise.InFlight ∨ promise.result = some (.error (.api .unauthenticated)))

structure State.Sound (c : State) : Prop where
  lined : c.Lined
  spent : ∀ t, Spent t c.log → c.store.map Tokens.refreshToken ≠ some t ∨ c.Renewing t
  unspent : SentUnspent c.log
  inPlace : WrittenInPlace c.log

theorem sound_start (store : Option Tokens) : (State.start store).Sound where
  lined := lined_start store
  spent := fun _ h => h.elim
  unspent := trivial
  inPlace := fun e he => by cases he

theorem State.Renewing.congr {c c' : State} {t : Text} (h : c.Renewing t)
    (hr : c'.refreshing = c.refreshing) (hp : c'.promises = c.promises) : c'.Renewing t := by
  obtain ⟨p, promise, hslot, hat, hrest⟩ := h
  exact ⟨p, promise, hr ▸ hslot, hp ▸ hat, hrest⟩

/-- A refusal is noted. -/
theorem State.Sound.refused {c : State} (h : c.Sound) (presented : Credential) :
    State.Sound { c with log := .refused presented :: c.log } where
  lined := h.lined.congr rfl rfl
  spent := fun t ht => (h.spent t ht).imp_right fun hr => hr.congr rfl rfl
  unspent := h.unspent
  inPlace := List.forall_mem_cons.mpr ⟨trivial, h.inPlace⟩

theorem State.Sound.write {c : State} (h : c.Sound) (tokens : Tokens) : (c.write tokens).Sound where
  lined := h.lined.congr rfl rfl
  spent := fun _ ht => .inl fun he => ht.1 (Option.some.inj he)
  unspent := h.unspent
  inPlace := List.forall_mem_cons.mpr ⟨trivial, h.inPlace⟩

theorem State.Sound.clear {c : State} (h : c.Sound) : State.Sound { c with store := none } where
  lined := h.lined.congr rfl rfl
  spent := fun t _ => .inl fun he => by cases he
  unspent := h.unspent
  inPlace := h.inPlace

/-- Where nothing is stored, every token may be spent. -/
theorem sound_endSession {c : State} (hl : c.Lined) (hu : SentUnspent c.log)
    (hi : WrittenInPlace c.log) : c.endSession.Sound := by
  have hlog : SentUnspent c.endSession.log ∧ WrittenInPlace c.endSession.log := by
    rw [State.endSession]
    split
    · exact ⟨hu, hi⟩
    · exact ⟨hu, List.forall_mem_cons.mpr ⟨trivial, hi⟩⟩
  refine ⟨hl.congr (endSession_refreshing c) (endSession_promises c), fun t _ => .inl ?_, hlog.1,
    hlog.2⟩
  rw [endSession_store]
  simp

theorem State.Sound.join {c : State} (h : c.Sound) (hquiet : c.quiet = true) (i : Nat) :
    (c.join i).1.Sound := by
  rw [State.join]
  split
  case h_1 => exact h
  case h_2 existing hstore =>
    split
    case h_1 p hslot =>
      obtain ⟨promise, call, rest, hp, hw⟩ := h.lined.slot p hslot
      have hflight : promise.InFlight := inFlight_of_quiet hquiet hp (.inr (by rw [hw]; simp))
      have hpromises : c.promises.modify p
          (fun x => { x with waiting := x.waiting ++ [(i, existing)] }) =
          c.promises.set p { promise with waiting := promise.waiting ++ [(i, existing)] } := by
        rw [List.modify_eq_set_getElem?, hp]
        rfl
      have hlt := (List.getElem?_eq_some_iff.mp hp).1
      refine ⟨?_, fun t ht => (h.spent t ht).imp_right ?_, h.unspent, h.inPlace⟩
      · refine h.lined.set hp hpromises (fun _ => .inl hflight) (fun _ => hslot)
          (fun q x _ hx hf => h.lined.inSlot q x hx hf) fun q hq => ⟨hq, fun _ => ⟨rfl, _, rfl⟩⟩
      · rintro ⟨q, x, hq, hx, ht, -⟩
        obtain rfl : p = q := Option.some.inj (hslot.symm.trans hq)
        obtain rfl : promise = x := Option.some.inj (hp.symm.trans hx)
        refine ⟨p, { promise with waiting := promise.waiting ++ [(i, existing)] }, hq, ?_, ht,
          .inl hflight⟩
        dsimp only
        rw [hpromises, List.getElem?_set_self hlt]
    case h_2 hfree =>
      have hfresh : ¬ Spent existing.refreshToken c.log := by
        intro hs
        rcases h.spent _ hs with hne | ⟨p, promise, hslot, -⟩
        · exact hne (by rw [hstore]; rfl)
        · rw [hfree] at hslot
          cases hslot
      refine ⟨h.lined.append hquiet hfree rfl rfl, ?_, ⟨hfresh, h.unspent⟩,
        List.forall_mem_cons.mpr ⟨trivial, h.inPlace⟩⟩
      rintro t (rfl | ht)
      · exact .inr ⟨_, _, rfl, List.getElem?_concat_length, rfl, .inl rfl⟩
      · rcases h.spent t ht with hne | ⟨p, promise, hslot, -⟩
        · exact .inl hne
        · rw [hfree] at hslot
          cases hslot

theorem State.Lined.settle {c : State} (h : c.Lined) {p : Nat} {promise : Promise}
    (hp : c.promises[p]? = some promise) (hflight : promise.InFlight)
    (result : Except Failure Tokens) : (c.settle p promise result).Lined := by
  refine h.set hp rfl (fun _ => .inl hflight) (fun hf => by cases hf)
    (fun q x _ hx hf => h.inSlot q x hx hf) fun q hq => ⟨hq, fun _ => ⟨rfl, [], ?_⟩⟩
  exact (List.append_nil _).symm

/-- The refresh with a token that is still stored is in flight, or refused. -/
theorem renewing_settle {c : State} {p : Nat} {promise : Promise} (h : c.Lined)
    (hp : c.promises[p]? = some promise) (hflight : promise.InFlight) {t : Text}
    (ht : c.Renewing t) :
    promise.existing.refreshToken = t ∧
      (c.settle p promise (.error (.api .unauthenticated))).Renewing t := by
  obtain ⟨q, x, hslot, hx, hxt, -⟩ := ht
  obtain rfl : p = q := Option.some.inj ((h.inSlot p promise hp hflight).symm.trans hslot)
  obtain rfl : promise = x := Option.some.inj (hp.symm.trans hx)
  have hlt := (List.getElem?_eq_some_iff.mp hp).1
  exact ⟨hxt, p, _, hslot, List.getElem?_set_self hlt, hxt, .inr rfl⟩

theorem State.Sound.renew {c c' : State} (h : c.Sound) {p : Nat} {reply : Except Failure Tokens}
    (hs : c.renew p reply = some c') : c'.Sound := by
  obtain ⟨promise, hp, hflight, hcases⟩ := renew_cases hs
  have hrenewing := fun t => renewing_settle (t := t) h.lined hp hflight
  rcases hcases with ⟨rfl, rfl⟩ | ⟨rfl, -⟩ | ⟨tokens, hours, -, rfl⟩ | ⟨hours, rfl⟩
  · exact ⟨h.lined.settle hp hflight _,
      fun t ht => (h.spent t ht).imp_right fun hr => (hrenewing t hr).2, h.unspent, h.inPlace⟩
  · refine ⟨(h.lined.settle hp hflight reply).congr rfl rfl, fun t ht => .inl ?_, h.unspent,
      List.forall_mem_cons.mpr ⟨trivial, h.inPlace⟩⟩
    rcases h.spent t ht.2 with hne | hr
    · exact hne
    · exact absurd (hrenewing t hr).1 ht.1
  · refine ⟨(h.lined.settle hp hflight reply).congr rfl rfl,
      fun t ht => .inl fun he => ht.1 (Option.some.inj he), h.unspent,
      List.forall_mem_cons.mpr ⟨trivial, List.forall_mem_cons.mpr ⟨?_, h.inPlace⟩⟩⟩
    exact of_decide_eq_true hours
  · exact ⟨h.lined.settle hp hflight _,
      fun t ht => (h.spent t ht).imp_right fun hr => (hrenewing t hr).2, h.unspent, h.inPlace⟩

/-- After a call has gone on, the pair whose refresh was refused is not stored, nor is any
refresh in flight. -/
theorem State.Sound.outcome {c c' : State} (h : c.Sound) {i p : Nat} {o : Outcome}
    (hs : c.outcome i p = some (c', o)) : c'.Sound := by
  obtain ⟨existing, result, mine, rest, hp, ended, hover, hcases⟩ := outcome_cases hs
  have hlined : ended.Lined := by
    subst hover
    refine h.lined.set hp rfl (fun _ => .inr (by simp)) (fun hf => by cases hf) ?_
      fun q hq => by cases hq
    intro q x hqp hx hf
    exact absurd (h.lined.single q p x _ hx hp (.inl hf) (.inr (by simp))) hqp
  have hspent : ∀ t, Spent t c.log → c.store.map Tokens.refreshToken ≠ some t ∨
      (mine.refreshToken = t ∧ result = .error (.api .unauthenticated)) := by
    intro t ht
    refine (h.spent t ht).imp_right ?_
    rintro ⟨q, x, hslot, hx, hxt, hend⟩
    obtain ⟨y, call, more, hy, hw⟩ := h.lined.slot q hslot
    obtain rfl : x = y := Option.some.inj (hx.symm.trans hy)
    obtain rfl : q = p := h.lined.single q p x _ hx hp (.inr (by rw [hw]; simp)) (.inr (by simp))
    obtain rfl := Option.some.inj (hx.symm.trans hp)
    obtain ⟨⟨-, rfl⟩, -⟩ := List.cons.inj hw |>.imp Prod.mk.inj id
    refine ⟨hxt, ?_⟩
    rcases hend with hf | hend
    · cases hf
    · exact Option.some.inj hend
  rcases hcases with ⟨rfl, hours⟩ | ⟨rfl, -⟩
  · refine ⟨hlined, fun t ht => .inl ?_, hover ▸ h.unspent, hover ▸ h.inPlace⟩
    subst hover
    rcases hspent t ht with hne | ⟨rfl, hresult⟩
    · exact hne
    · exact of_decide_eq_false (hours hresult)
  · exact sound_endSession hlined (hover ▸ h.unspent) (hover ▸ h.inPlace)

theorem State.Sound.perform {c c' : State} (h : c.Sound) {answer : Answer} {i : Nat} {s : Stmt}
    {r : Result s} (hq : isOutcome s = true ∨ c.quiet = true)
    (hs : c.perform answer i s = some (c', r)) : c'.Sound := by
  cases s with
  | send =>
    cases hs
    exact h
  | fetch presented =>
    cases answer with
    | rejected aborted =>
      cases hs
      exact h
    | text parsed => cases hs
    | head status =>
      cases hs
      split
      · exact h.refused presented
      · exact h
  | interpret status presented =>
    rcases interpret_cases hs with ⟨rfl, -⟩ | ⟨-, -, rfl⟩
    · exact h
    · split
      · exact sound_endSession h.lined h.unspent h.inPlace
      · exact h
  | join =>
    obtain rfl : (c.join i).1 = c' := congrArg Prod.fst (Option.some.inj hs)
    exact h.join (hq.resolve_left (by simp [isOutcome])) i
  | renew p reply =>
    obtain ⟨x, hx, he⟩ := Option.map_eq_some_iff.mp hs
    cases he
    exact h.renew hx
  | outcome p => exact h.outcome hs
  | write tokens =>
    cases hs
    exact h.write tokens
  | signOut =>
    cases hs
    exact h.clear
  | storage held =>
    cases held <;> cases hs
    · exact h.clear
    · exact h.write _

theorem State.Sound.exec {c c' : State} (h : c.Sound) {answer : Answer} {i : Nat} {s : Stmt}
    {r : Result s} (hs : sem answer i s c = some (c', r)) : c'.Sound := by
  rw [sem] at hs
  split at hs
  case isTrue hq => exact h.perform hq hs
  case isFalse => cases hs

/-- Whatever is called and answered, one refresh is in flight at most, no spent token is sent,
and a new pair replaces the one it was got for. -/
theorem sound_after (store : Option Tokens) (actions : List (Action Answer Method)) :
    (after store actions).Sound := by
  have hstep : ∀ answer i (s : Stmt) (c c' : State) r, True → c.Sound →
      sem answer i s c = some (c', r) → c'.Sound := fun _ _ _ _ _ _ _ h hs => h.exec hs
  exact Pool.inv_run hstep (sound_start store) (Pool.meets_true _ actions)

end CircuitForge.Client
