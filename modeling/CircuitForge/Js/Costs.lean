/-
What procedures add to a count, and what they return.

The count is read off the state, and what a procedure adds to it goes together with how it ends.
The rules take a procedure apart like those for the log.  From a given state a procedure returns a
value, and what holds of the value and of the state it leaves is taken apart in the same way.
-/
import CircuitForge.Js.Effects

namespace Effects

namespace Proc

variable {ε σ L α β : Type}

/-- From every state, what `m` adds to the count and how it ends are as `Φ` says. -/
def Costs (count : σ → Nat) (m : Proc ε σ L α) (Φ : Nat → Except ε α → Prop) : Prop :=
  ∀ s, ∃ k, count (m s).2.state = count s.state + k ∧ Φ k (m s).1

variable {count : σ → Nat} {m : Proc ε σ L α} {Φ : Nat → Except ε α → Prop}

theorem Costs.mono {Φ' : Nat → Except ε α → Prop} (h : m.Costs count Φ)
    (hle : ∀ k r, Φ k r → Φ' k r) : m.Costs count Φ' := fun s =>
  let ⟨k, hk, hΦ⟩ := h s
  ⟨k, hk, hle _ _ hΦ⟩

theorem costs_done {a : α} (h : Φ 0 (.ok a)) : (done a : Proc ε σ L α).Costs count Φ :=
  fun _ => ⟨0, rfl, h⟩

theorem costs_throw {e : ε} (h : Φ 0 (.error e)) : (throw e : Proc ε σ L α).Costs count Φ :=
  fun _ => ⟨0, rfl, h⟩

theorem costs_call {f : σ → Except ε α × σ} {k : Nat} (hf : ∀ s, count (f s).2 = count s + k)
    (h : ∀ s, Φ k (f s).1) : (call f : Proc ε σ L α).Costs count Φ :=
  fun s => ⟨k, hf s.state, h s.state⟩

theorem costs_note {l : L} {Φ : Nat → Except ε Unit → Prop} (h : Φ 0 (.ok ())) :
    (note l : Proc ε σ L Unit).Costs count Φ :=
  fun _ => ⟨0, rfl, h⟩

/-- A sequence: the first part throws, or the second goes on. -/
theorem Costs.andThen {f : α → Proc ε σ L β} {Ψ : Nat → Except ε β → Prop} (h : m.Costs count Φ)
    (hthrow : ∀ k e, Φ k (.error e) → Ψ k (.error e))
    (hnext : ∀ k a, Φ k (.ok a) → (f a).Costs count fun more r => Ψ (k + more) r) :
    (m >>= f).Costs count Ψ := by
  intro s
  obtain ⟨k, hk, hΦ⟩ := h s
  change ∃ k, count (Proc.andThen m f s).2.state = count s.state + k ∧
    Ψ k (Proc.andThen m f s).1
  unfold Proc.andThen
  rcases hm : m s with ⟨r, s'⟩
  rw [hm] at hk hΦ
  cases r with
  | error e => exact ⟨k, hk, hthrow k e hΦ⟩
  | ok a =>
    obtain ⟨more, hmore, hΨ⟩ := hnext k a hΦ s'
    exact ⟨k + more, by rw [hmore, hk, Nat.add_assoc], hΨ⟩

/-- A handler goes on where the body throws. -/
theorem Costs.catching {h : ε → Proc ε σ L α} {Ψ : Nat → Except ε α → Prop} (hm : m.Costs count Φ)
    (hok : ∀ k a, Φ k (.ok a) → Ψ k (.ok a))
    (hthrow : ∀ k e, Φ k (.error e) → (h e).Costs count fun more r => Ψ (k + more) r) :
    (m.catching h).Costs count Ψ := by
  intro s
  obtain ⟨k, hk, hΦ⟩ := hm s
  unfold Proc.catching
  rcases hs : m s with ⟨r, s'⟩
  rw [hs] at hk hΦ
  cases r with
  | ok a => exact ⟨k, hk, hok k a hΦ⟩
  | error e =>
    obtain ⟨more, hmore, hΨ⟩ := hthrow k e hΦ s'
    exact ⟨k + more, by rw [hmore, hk, Nat.add_assoc], hΨ⟩

/-! ## Procedures that cost nothing -/

/-- Nothing is added to the count, and what is returned satisfies `P`. -/
def Free (count : σ → Nat) (P : α → Prop) (m : Proc ε σ L α) : Prop :=
  m.Costs count fun k r => k = 0 ∧ ∀ a, r = .ok a → P a

variable {P : α → Prop} {Q : β → Prop} {f : α → Proc ε σ L β}

/-- In front of `f`, what costs nothing leaves only what it returns. -/
theorem Free.before {Ψ : Nat → Except ε β → Prop} (h : m.Free count P)
    (hthrow : ∀ e, Ψ 0 (.error e)) (hnext : ∀ a, P a → (f a).Costs count Ψ) :
    (m >>= f).Costs count Ψ := by
  refine Costs.andThen h (fun k e hr => ?_) fun k a hr => ?_
  · rw [hr.1]
    exact hthrow e
  · obtain rfl := hr.1
    exact (hnext a (hr.2 a rfl)).mono fun more r hΨ => (Nat.zero_add more).symm ▸ hΨ

theorem Free.andThen (h : m.Free count P) (hnext : ∀ a, P a → (f a).Free count Q) :
    (m >>= f).Free count Q :=
  h.before (fun _ => ⟨rfl, nofun⟩) hnext

theorem Free.catching {h : ε → Proc ε σ L α} (hm : m.Free count P) (hh : ∀ e, (h e).Free count P) :
    (m.catching h).Free count P := by
  refine Costs.catching hm (fun _ _ hr => hr) fun k e hr => ?_
  obtain rfl := hr.1
  exact (hh e).mono fun more r hr => ⟨by rw [hr.1], hr.2⟩

theorem free_done {a : α} (h : P a) : (done a : Proc ε σ L α).Free count P :=
  costs_done ⟨rfl, fun _ ha => Except.ok.inj ha ▸ h⟩

theorem free_throw {e : ε} : (throw e : Proc ε σ L α).Free count P := costs_throw ⟨rfl, nofun⟩

theorem free_call {g : σ → Except ε α × σ} (hg : ∀ s, count (g s).2 = count s)
    (h : ∀ s a, (g s).1 = .ok a → P a) : (call g : Proc ε σ L α).Free count P :=
  costs_call hg fun s => ⟨rfl, h s⟩

theorem free_note {l : L} {P : Unit → Prop} (h : P ()) :
    (note l : Proc ε σ L Unit).Free count P :=
  costs_note ⟨rfl, fun _ _ => h⟩

/-! ## What is paid for a return -/

/-- At most `most` is added to the count, and what is returned goes with what was added. -/
def Pays (count : σ → Nat) (most : Nat) (p : Nat → α → Prop) (m : Proc ε σ L α) : Prop :=
  m.Costs count fun k r => k ≤ most ∧ ∀ a, r = .ok a → p k a

variable {most : Nat} {p : Nat → α → Prop} {q : Nat → β → Prop}

theorem pays_done {a : α} (h : p 0 a) : (done a : Proc ε σ L α).Pays count most p :=
  costs_done ⟨Nat.zero_le _, fun _ ha => Except.ok.inj ha ▸ h⟩

theorem Costs.pays (h : m.Costs count Φ) (hle : ∀ k r, Φ k r → k ≤ most)
    (hret : ∀ k a, Φ k (.ok a) → p k a) : m.Pays count most p :=
  h.mono fun k r hΦ => ⟨hle k r hΦ, fun a hr => hret k a (hr ▸ hΦ)⟩

theorem Pays.mono {p' : Nat → α → Prop} (h : m.Pays count most p)
    (hle : ∀ k a, p k a → p' k a) : m.Pays count most p' :=
  Costs.mono h fun k _ hr => ⟨hr.1, fun a ha => hle k a (hr.2 a ha)⟩

theorem Pays.le {total : Nat} (h : m.Pays count most p) (hle : most ≤ total) :
    m.Pays count total p :=
  Costs.mono h fun _ _ hr => ⟨Nat.le_trans hr.1 hle, hr.2⟩

/-- A sequence: what the first part leaves of `total` is for the second. -/
theorem Pays.andThen {total : Nat} (h : m.Pays count most p) (hmost : most ≤ total)
    (hnext : ∀ k a, k ≤ most → p k a →
      (f a).Pays count (total - k) fun more b => q (k + more) b) :
    (m >>= f).Pays count total q := by
  refine Costs.andThen h (fun k e hk => ⟨Nat.le_trans hk.1 hmost, fun _ hr => nomatch hr⟩) ?_
  intro k a hk
  refine Costs.mono (hnext k a hk.1 (hk.2 a rfl)) fun more r hmore => ⟨?_, hmore.2⟩
  have hk' := Nat.le_trans hk.1 hmost
  have hmore' := hmore.1
  omega

theorem Free.pays (h : m.Free count P) (hnext : ∀ a, P a → (f a).Pays count most q) :
    (m >>= f).Pays count most q :=
  h.before (fun _ => ⟨Nat.zero_le _, fun _ hr => nomatch hr⟩) hnext

end Proc

end Effects

namespace Effects

namespace Proc

variable {ε σ L α β : Type}

/-- From the state `s`, with every log, `m` returns, and `Q` holds of the value and the state. -/
def Returns (m : Proc ε σ L α) (s : σ) (Q : α → σ → Prop) : Prop :=
  ∀ log, ∃ a s' log', m ⟨s, log⟩ = (.ok a, ⟨s', log'⟩) ∧ Q a s'

variable {m : Proc ε σ L α} {s : σ} {Q : α → σ → Prop}

theorem Returns.mono {Q' : α → σ → Prop} (h : m.Returns s Q) (hle : ∀ a s', Q a s' → Q' a s') :
    m.Returns s Q' := fun log =>
  let ⟨a, s', log', hrun, hQ⟩ := h log
  ⟨a, s', log', hrun, hle a s' hQ⟩

theorem returns_done {a : α} (h : Q a s) : (done a : Proc ε σ L α).Returns s Q :=
  fun log => ⟨a, s, log, rfl, h⟩

theorem returns_call {f : σ → Except ε α × σ} {a : α} {s' : σ} (hf : f s = (.ok a, s'))
    (h : Q a s') : (call f : Proc ε σ L α).Returns s Q := fun log =>
  ⟨a, s', log, by rw [call, hf], h⟩

theorem returns_note {l : L} {Q : Unit → σ → Prop} (h : Q () s) :
    (note l : Proc ε σ L Unit).Returns s Q :=
  fun log => ⟨(), s, log ++ [l], rfl, h⟩

/-- A sequence. -/
theorem Returns.andThen {f : α → Proc ε σ L β} {R : β → σ → Prop} (h : m.Returns s Q)
    (hnext : ∀ a s', Q a s' → (f a).Returns s' R) : (m >>= f).Returns s R := by
  intro log
  obtain ⟨a, s', log', hrun, hQ⟩ := h log
  obtain ⟨b, s'', log'', hrun', hR⟩ := hnext a s' hQ log'
  refine ⟨b, s'', log'', ?_, hR⟩
  change Proc.andThen m f ⟨s, log⟩ = _
  rw [Proc.andThen, hrun]
  exact hrun'

/-- A call that answers, before the rest. -/
theorem returns_call_andThen {f : σ → Except ε α × σ} {g : α → Proc ε σ L β} {a : α} {s' : σ}
    {R : β → σ → Prop} (hf : f s = (.ok a, s')) (h : (g a).Returns s' R) :
    (call f >>= g).Returns s R :=
  (returns_call (Q := fun b s'' => b = a ∧ s'' = s') hf ⟨rfl, rfl⟩).andThen fun _ _ hr => by
    obtain ⟨rfl, rfl⟩ := hr
    exact h

theorem returns_note_andThen {l : L} {g : Unit → Proc ε σ L β} {R : β → σ → Prop}
    (h : (g ()).Returns s R) : (note l >>= g).Returns s R :=
  (returns_note (Q := fun _ s' => s' = s) rfl).andThen fun _ _ hr => by
    obtain rfl := hr
    exact h

/-- A handler is not reached. -/
theorem Returns.catching (h : m.Returns s Q) (handler : ε → Proc ε σ L α) :
    (m.catching handler).Returns s Q := by
  intro log
  obtain ⟨a, s', log', hrun, hQ⟩ := h log
  exact ⟨a, s', log', by rw [Proc.catching, hrun], hQ⟩

/-- From the state `s`, with every log, `m` throws, and `R` holds of what is thrown and the
state. -/
def Throws (m : Proc ε σ L α) (s : σ) (R : ε → σ → Prop) : Prop :=
  ∀ log, ∃ e s' log', m ⟨s, log⟩ = (.error e, ⟨s', log'⟩) ∧ R e s'

variable {R : ε → σ → Prop}

theorem throws_call {f : σ → Except ε α × σ} {e : ε} {s' : σ} (hf : f s = (.error e, s'))
    (h : R e s') : (call f : Proc ε σ L α).Throws s R := fun log =>
  ⟨e, s', log, by rw [call, hf], h⟩

theorem Throws.andThen (h : m.Throws s R) (f : α → Proc ε σ L β) : (m >>= f).Throws s R := by
  intro log
  obtain ⟨e, s', log', hrun, hR⟩ := h log
  refine ⟨e, s', log', ?_, hR⟩
  change Proc.andThen m f ⟨s, log⟩ = _
  rw [Proc.andThen, hrun]

/-- A handler is reached. -/
theorem Throws.catching {handler : ε → Proc ε σ L α} (h : m.Throws s R)
    (hnext : ∀ e s', R e s' → (handler e).Returns s' Q) : (m.catching handler).Returns s Q := by
  intro log
  obtain ⟨e, s', log', hrun, hR⟩ := h log
  obtain ⟨a, s'', log'', hrun', hQ⟩ := hnext e s' hR log'
  refine ⟨a, s'', log'', ?_, hQ⟩
  rw [Proc.catching, hrun]
  exact hrun'

/-- What is paid for a return, where there is one. -/
theorem Returns.pays {count : σ → Nat} {most : Nat} {p : Nat → α → Prop} (h : m.Returns s Q)
    (hpays : m.Pays count most p) :
    m.Returns s fun a s' => Q a s' ∧ ∃ k, count s' = count s + k ∧ p k a := by
  intro log
  obtain ⟨a, s', log', hrun, hQ⟩ := h log
  obtain ⟨k, hk, -, hp⟩ := hpays ⟨s, log⟩
  rw [hrun] at hk hp
  exact ⟨a, s', log', hrun, hQ, k, hk, hp a rfl⟩

end Proc

end Effects
