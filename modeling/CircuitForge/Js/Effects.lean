/-
Procedures that throw, change a state and leave a log.

A procedure is judged by what it adds to the log, together with how it ends.  The rules take a
procedure apart along its statements, its handlers and its calls to the outside.

`m` meets a condition if from every state that satisfies the first part it ends, with an answer or
a throw, as the second part says.  `m'` erases to `m` if it does what `m` does on the state that is
left when its own bookkeeping is taken away.
-/
import Mathlib.Data.List.Basic
import Mathlib.Tactic.Common

namespace Effects

/-- A state and a log. -/
structure Logged (σ L : Type) where
  state : σ
  log : List L

/-- A procedure: how it ends, and the state and log it leaves. -/
def Proc (ε σ L α : Type) : Type := Logged σ L → Except ε α × Logged σ L

namespace Proc

variable {ε σ L α β : Type}

def done (a : α) : Proc ε σ L α := fun s => (.ok a, s)

def throw (e : ε) : Proc ε σ L α := fun s => (.error e, s)

def andThen (m : Proc ε σ L α) (f : α → Proc ε σ L β) : Proc ε σ L β := fun s =>
  match m s with
  | (.ok a, s) => f a s
  | (.error e, s) => (.error e, s)

instance : Monad (Proc ε σ L) where
  pure := done
  bind := andThen

/-- `try m catch (e) { h }`. -/
def catching (m : Proc ε σ L α) (h : ε → Proc ε σ L α) : Proc ε σ L α := fun s =>
  match m s with
  | (.ok a, s) => (.ok a, s)
  | (.error e, s) => h e s

/-- A call to the outside, which may answer, throw and change the state. -/
def call (f : σ → Except ε α × σ) : Proc ε σ L α := fun s =>
  ((f s.state).1, { s with state := (f s.state).2 })

/-- A change of the state. -/
def modify (f : σ → σ) : Proc ε σ L Unit := fun s => (.ok (), { s with state := f s.state })

/-- An entry of the log. -/
def note (l : L) : Proc ε σ L Unit := fun s => (.ok (), { s with log := s.log ++ [l] })

/-- From every state, what `m` adds to the log and how it ends are as `Φ` says. -/
def Adds (m : Proc ε σ L α) (Φ : List L → Except ε α → Prop) : Prop :=
  ∀ s, ∃ new, (m s).2.log = s.log ++ new ∧ Φ new (m s).1

variable {m : Proc ε σ L α} {Φ : List L → Except ε α → Prop}

theorem Adds.mono {Φ' : List L → Except ε α → Prop} (h : m.Adds Φ)
    (hle : ∀ new r, Φ new r → Φ' new r) : m.Adds Φ' := fun s =>
  let ⟨new, hlog, hΦ⟩ := h s
  ⟨new, hlog, hle _ _ hΦ⟩

theorem adds_done {a : α} (h : Φ [] (.ok a)) : (done a : Proc ε σ L α).Adds Φ :=
  fun _ => ⟨[], (List.append_nil _).symm, h⟩

theorem adds_throw {e : ε} (h : Φ [] (.error e)) : (throw e : Proc ε σ L α).Adds Φ :=
  fun _ => ⟨[], (List.append_nil _).symm, h⟩

theorem adds_call {f : σ → Except ε α × σ} (h : ∀ s, Φ [] (f s).1) :
    (call f : Proc ε σ L α).Adds Φ :=
  fun s => ⟨[], (List.append_nil _).symm, h s.state⟩

theorem adds_modify {f : σ → σ} {Φ : List L → Except ε Unit → Prop} (h : Φ [] (.ok ())) :
    (modify f : Proc ε σ L Unit).Adds Φ :=
  fun _ => ⟨[], (List.append_nil _).symm, h⟩

theorem adds_note {l : L} {Φ : List L → Except ε Unit → Prop} (h : Φ [l] (.ok ())) :
    (note l : Proc ε σ L Unit).Adds Φ :=
  fun _ => ⟨[l], rfl, h⟩

/-- A sequence: the first part throws, or the second goes on. -/
theorem Adds.andThen {f : α → Proc ε σ L β} {Ψ : List L → Except ε β → Prop} (h : m.Adds Φ)
    (hthrow : ∀ new e, Φ new (.error e) → Ψ new (.error e))
    (hnext : ∀ new a, Φ new (.ok a) → (f a).Adds fun more r => Ψ (new ++ more) r) :
    (m >>= f).Adds Ψ := by
  intro s
  obtain ⟨new, hlog, hΦ⟩ := h s
  change ∃ added, (Proc.andThen m f s).2.log = s.log ++ added ∧ Ψ added (Proc.andThen m f s).1
  unfold Proc.andThen
  rcases hm : m s with ⟨r, s'⟩
  rw [hm] at hlog hΦ
  cases r with
  | error e => exact ⟨new, hlog, hthrow new e hΦ⟩
  | ok a =>
    obtain ⟨more, hmore, hΨ⟩ := hnext new a hΦ s'
    refine ⟨new ++ more, ?_, hΨ⟩
    rw [← List.append_assoc, ← hlog]
    exact hmore

/-- A handler goes on where the body throws. -/
theorem Adds.catching {h : ε → Proc ε σ L α} {Ψ : List L → Except ε α → Prop} (hm : m.Adds Φ)
    (hok : ∀ new a, Φ new (.ok a) → Ψ new (.ok a))
    (hthrow : ∀ new e, Φ new (.error e) → (h e).Adds fun more r => Ψ (new ++ more) r) :
    (m.catching h).Adds Ψ := by
  intro s
  obtain ⟨new, hlog, hΦ⟩ := hm s
  unfold Proc.catching
  rcases hs : m s with ⟨r, s'⟩
  rw [hs] at hlog hΦ
  cases r with
  | ok a => exact ⟨new, hlog, hok new a hΦ⟩
  | error e =>
    obtain ⟨more, hmore, hΨ⟩ := hthrow new e hΦ s'
    refine ⟨new ++ more, ?_, hΨ⟩
    rw [← List.append_assoc, ← hlog]
    exact hmore

/-! ## Procedures that add entries of one kind -/

/-- Every entry that is added satisfies `p`, and every end satisfies `q`. -/
def Only (p : L → Prop) (q : Except ε α → Prop) (m : Proc ε σ L α) : Prop :=
  m.Adds fun new r => (∀ l ∈ new, p l) ∧ q r

/-- Where no entry may be added, none is. -/
theorem Only.addsNothing {q : Except ε α → Prop} (h : m.Only (fun _ => False) q) :
    m.Adds fun new r => new = [] ∧ q r :=
  Adds.mono h fun _ _ hr => ⟨List.eq_nil_iff_forall_not_mem.mpr hr.1, hr.2⟩

variable {p : L → Prop}

/-- A sequence of procedures that add entries of one kind, and throw what `q` admits. -/
theorem Only.andThen {q : Except ε β → Prop} {q' : Except ε α → Prop}
    {f : α → Proc ε σ L β} (h : m.Only p q') (hthrow : ∀ e, q' (.error e) → q (.error e))
    (hnext : ∀ a, q' (.ok a) → (f a).Only p q) : (m >>= f).Only p q := by
  refine Adds.andThen h (fun new e hm => ⟨hm.1, hthrow e hm.2⟩) fun new a hm => ?_
  refine (hnext a hm.2).mono fun more r hr => ⟨fun l hl => ?_, hr.2⟩
  rcases List.mem_append.mp hl with hl | hl
  · exact hm.1 l hl
  · exact hr.1 l hl

theorem Only.catching {q q' : Except ε α → Prop} {h : ε → Proc ε σ L α} (hm : m.Only p q')
    (hok : ∀ a, q' (.ok a) → q (.ok a)) (hthrow : ∀ e, q' (.error e) → (h e).Only p q) :
    (m.catching h).Only p q := by
  refine Adds.catching hm (fun new a ha => ⟨ha.1, hok a ha.2⟩) fun new e he => ?_
  refine (hthrow e he.2).mono fun more r hr => ⟨fun l hl => ?_, hr.2⟩
  rcases List.mem_append.mp hl with hl | hl
  · exact he.1 l hl
  · exact hr.1 l hl

theorem only_done {q : Except ε α → Prop} {a : α} (h : q (.ok a)) :
    (done a : Proc ε σ L α).Only p q :=
  adds_done ⟨fun _ hl => absurd hl List.not_mem_nil, h⟩

theorem only_throw {q : Except ε α → Prop} {e : ε} (h : q (.error e)) :
    (throw e : Proc ε σ L α).Only p q :=
  adds_throw ⟨fun _ hl => absurd hl List.not_mem_nil, h⟩

theorem only_call {q : Except ε α → Prop} {f : σ → Except ε α × σ} (h : ∀ s, q (f s).1) :
    (call f : Proc ε σ L α).Only p q :=
  adds_call fun s => ⟨fun _ hl => absurd hl List.not_mem_nil, h s⟩

theorem only_modify {q : Except ε Unit → Prop} {f : σ → σ} (h : q (.ok ())) :
    (modify f : Proc ε σ L Unit).Only p q :=
  adds_modify ⟨fun _ hl => absurd hl List.not_mem_nil, h⟩

/-! ## Procedures that add nothing -/

/-- Nothing is added, and what is returned satisfies `P`. -/
def Silent (P : α → Prop) (m : Proc ε σ L α) : Prop :=
  m.Adds fun new r => new = [] ∧ ∀ a, r = .ok a → P a

variable {P : α → Prop} {Q : β → Prop} {f : α → Proc ε σ L β}

/-- In front of `f`, what adds nothing leaves only what it returns. -/
theorem Silent.before {Ψ : List L → Except ε β → Prop} (h : m.Silent P)
    (hthrow : ∀ e, Ψ [] (.error e)) (hnext : ∀ a, P a → (f a).Adds Ψ) : (m >>= f).Adds Ψ := by
  refine Adds.andThen h (fun new e hr => ?_) fun new a hr => ?_
  · rw [hr.1]
    exact hthrow e
  · obtain rfl := hr.1
    exact hnext a (hr.2 a rfl)

theorem Silent.andThen (h : m.Silent P) (hnext : ∀ a, P a → (f a).Silent Q) : (m >>= f).Silent Q :=
  h.before (fun _ => ⟨rfl, nofun⟩) hnext

theorem Silent.mono {P' : α → Prop} (h : m.Silent P) (hle : ∀ a, P a → P' a) : m.Silent P' :=
  Adds.mono h fun _ _ hr => ⟨hr.1, fun a ha => hle a (hr.2 a ha)⟩

theorem Silent.catching {h : ε → Proc ε σ L α} (hm : m.Silent P) (hh : ∀ e, (h e).Silent P) :
    (m.catching h).Silent P := by
  refine Adds.catching hm (fun _ _ hr => hr) fun new e hr => ?_
  obtain rfl := hr.1
  exact hh e

theorem silent_done {a : α} (h : P a) : (done a : Proc ε σ L α).Silent P :=
  adds_done ⟨rfl, fun _ ha => Except.ok.inj ha ▸ h⟩

theorem silent_throw {e : ε} : (throw e : Proc ε σ L α).Silent P := adds_throw ⟨rfl, nofun⟩

theorem silent_call {g : σ → Except ε α × σ} (h : ∀ s a, (g s).1 = .ok a → P a) :
    (call g : Proc ε σ L α).Silent P :=
  adds_call fun s => ⟨rfl, h s⟩

end Proc

end Effects

namespace Effects.Proc

variable {ε σ L α β : Type}

/-! ## Conditions -/

/-- From a state that satisfies `P`, the end and the state that is left satisfy `Q`. -/
def Meets (P : σ → Prop) (m : Proc ε σ L α) (Q : Except ε α → σ → Prop) : Prop :=
  ∀ s, P s.state → Q (m s).1 (m s).2.state

variable {P P' : σ → Prop} {m : Proc ε σ L α} {Q Q' : Except ε α → σ → Prop}

theorem Meets.mono (h : m.Meets P Q) (hpre : ∀ s, P' s → P s) (hpost : ∀ r s, Q r s → Q' r s) :
    m.Meets P' Q' := fun s hs => hpost _ _ (h s (hpre _ hs))

theorem meets_done {a : α} (h : ∀ s, P s → Q (.ok a) s) : (done a : Proc ε σ L α).Meets P Q :=
  fun s hs => h s.state hs

theorem meets_throw {e : ε} (h : ∀ s, P s → Q (.error e) s) :
    (throw e : Proc ε σ L α).Meets P Q := fun s hs => h s.state hs

theorem meets_call {f : σ → Except ε α × σ} (h : ∀ s, P s → Q (f s).1 (f s).2) :
    (call f : Proc ε σ L α).Meets P Q := fun s hs => h s.state hs

theorem meets_modify {f : σ → σ} {Q : Except ε Unit → σ → Prop} (h : ∀ s, P s → Q (.ok ()) (f s)) :
    (modify f : Proc ε σ L Unit).Meets P Q := fun s hs => h s.state hs

theorem meets_note {l : L} {Q : Except ε Unit → σ → Prop} (h : ∀ s, P s → Q (.ok ()) s) :
    (note l : Proc ε σ L Unit).Meets P Q := fun s hs => h s.state hs

/-- A sequence: the second part starts where the first one ends with an answer. -/
theorem Meets.andThen {f : α → Proc ε σ L β} {R : Except ε β → σ → Prop} (h : m.Meets P Q)
    (hthrow : ∀ e s, Q (.error e) s → R (.error e) s)
    (hnext : ∀ a, (f a).Meets (Q (.ok a)) R) : (m >>= f).Meets P R := by
  intro s hs
  have hq := h s hs
  change R (Proc.andThen m f s).1 (Proc.andThen m f s).2.state
  unfold Proc.andThen
  rcases hm : m s with ⟨r, s'⟩
  rw [hm] at hq
  cases r with
  | error e => exact hthrow e _ hq
  | ok a => exact hnext a s' hq

/-- A handler starts where the body throws. -/
theorem Meets.catching {h : ε → Proc ε σ L α} {R : Except ε α → σ → Prop} (hm : m.Meets P Q)
    (hok : ∀ a s, Q (.ok a) s → R (.ok a) s)
    (hthrow : ∀ e, (h e).Meets (Q (.error e)) R) : (m.catching h).Meets P R := by
  intro s hs
  have hq := hm s hs
  unfold Proc.catching
  rcases hr : m s with ⟨r, s'⟩
  rw [hr] at hq
  cases r with
  | ok a => exact hok a _ hq
  | error e => exact hthrow e s' hq

/-! ## Bookkeeping that is taken away -/

variable {σ' α' β' : Type} {g : σ' → σ}

/-- A state and a log without the bookkeeping. -/
def without (g : σ' → σ) (s : Logged σ' L) : Logged σ L := { state := g s.state, log := s.log }

/-- `m'` does what `m` does, and keeps its own books. -/
def Erases (g : σ' → σ) (f : α' → α) (m' : Proc ε σ' L α') (m : Proc ε σ L α) : Prop :=
  ∀ s, m (without g s) = ((m' s).1.map f, without g (m' s).2)

variable {f : α' → α} {m' : Proc ε σ' L α'}

theorem erases_done (a : α') : Erases g f (done a : Proc ε σ' L α') (done (f a)) := fun _ => rfl

theorem erases_throw (e : ε) : Erases g f (throw e : Proc ε σ' L α') (throw e) := fun _ => rfl

theorem erases_call {c' : σ' → Except ε α' × σ'} {c : σ → Except ε α × σ}
    (h : ∀ s, c (g s) = ((c' s).1.map f, g (c' s).2)) :
    Erases g f (call c' : Proc ε σ' L α') (call c) := by
  intro s
  unfold call without
  rw [h s.state]

theorem erases_modify {u' : σ' → σ'} {u : σ → σ} (h : ∀ s, u (g s) = g (u' s)) :
    Erases g id (modify u' : Proc ε σ' L Unit) (modify u) := by
  intro s
  unfold modify without
  rw [h s.state]
  rfl

theorem erases_note (l : L) : Erases g id (note l : Proc ε σ' L Unit) (note l) := fun _ => rfl

theorem Erases.andThen {k' : α' → Proc ε σ' L β'} {k : α → Proc ε σ L β} {f₂ : β' → β}
    (h : Erases g f m' m) (hnext : ∀ a, Erases g f₂ (k' a) (k (f a))) :
    Erases g f₂ (m' >>= k') (m >>= k) := by
  intro s
  change Proc.andThen m k (without g s) =
    ((Proc.andThen m' k' s).1.map f₂, without g (Proc.andThen m' k' s).2)
  unfold Proc.andThen
  rw [h s]
  rcases hm : m' s with ⟨r, s'⟩
  cases r with
  | error e => rfl
  | ok a => exact hnext a s'

theorem Erases.catching {h' : ε → Proc ε σ' L α'} {h : ε → Proc ε σ L α} (hm : Erases g f m' m)
    (hh : ∀ e, Erases g f (h' e) (h e)) : Erases g f (m'.catching h') (m.catching h) := by
  intro s
  unfold Proc.catching
  rw [hm s]
  rcases hr : m' s with ⟨r, s'⟩
  cases r with
  | ok a => rfl
  | error e => exact hh e s'

end Effects.Proc
