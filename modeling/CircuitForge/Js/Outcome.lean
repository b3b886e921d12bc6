/-
Computations that may throw.

Inversion for `Except`: what a result, or an error, says of each step of a sequence, of a
traversal and of a loop.
-/
import Mathlib.Data.List.Forall2
import Mathlib.Tactic.Common

namespace Outcome

variable {ε α β σ : Type}

/-! ## Related lists -/

theorem exists_of_mem_left {R : α → β → Prop} {xs : List α} {ys : List β}
    (h : List.Forall₂ R xs ys) {x : α} (hx : x ∈ xs) : ∃ y ∈ ys, R x y := by
  induction h with
  | nil => simp at hx
  | cons hr _ ih =>
    rcases List.mem_cons.mp hx with rfl | hx
    · exact ⟨_, List.mem_cons_self, hr⟩
    · obtain ⟨y, hy, hr⟩ := ih hx
      exact ⟨y, List.mem_cons_of_mem _ hy, hr⟩

theorem exists_of_mem_right {R : α → β → Prop} {xs : List α} {ys : List β}
    (h : List.Forall₂ R xs ys) {y : β} (hy : y ∈ ys) : ∃ x ∈ xs, R x y :=
  exists_of_mem_left h.flip hy

/-! ## Results -/

theorem bind_eq_ok {x : Except ε α} {f : α → Except ε β} {b : β} :
    (x >>= f) = .ok b ↔ ∃ a, x = .ok a ∧ f a = .ok b := by
  cases x with
  | error e => simp [bind, Except.bind]
  | ok a => simp [bind, Except.bind]

theorem map_eq_ok {x : Except ε α} {f : α → β} {b : β} :
    x.map f = .ok b ↔ ∃ a, x = .ok a ∧ f a = b := by
  cases x with
  | error e => simp [Except.map]
  | ok a => simp [Except.map]

theorem pure_eq_ok {a b : α} : (pure a : Except ε α) = .ok b ↔ a = b := by
  simp [pure, Except.pure]

/-- A result that passes a test. -/
theorem exists_ok {x : Except ε α} {p : α → Bool} (h : x.toOption.any p = true) :
    ∃ a, x = .ok a ∧ p a = true := by
  cases x with
  | error e => cases h
  | ok a => exact ⟨a, rfl, h⟩

theorem mapM_eq_ok {f : α → Except ε β} {xs : List α} {ys : List β} :
    xs.mapM f = .ok ys ↔ List.Forall₂ (fun x y => f x = .ok y) xs ys := by
  induction xs generalizing ys with
  | nil => cases ys <;> simp [pure_eq_ok]
  | cons x xs ih =>
    rw [List.mapM_cons, bind_eq_ok]
    constructor
    · rintro ⟨y, hy, h⟩
      obtain ⟨zs, hzs, h⟩ := bind_eq_ok.mp h
      rw [← pure_eq_ok.mp h]
      exact .cons hy (ih.mp hzs)
    · intro h
      cases h with
      | cons hy hzs => exact ⟨_, hy, bind_eq_ok.mpr ⟨_, ih.mpr hzs, rfl⟩⟩

theorem mapM_ok_of_mem {f : α → Except ε β} {xs : List α} {ys : List β} (h : xs.mapM f = .ok ys)
    {x : α} (hx : x ∈ xs) : ∃ y, f x = .ok y := by
  obtain ⟨y, _, hy⟩ := exists_of_mem_left (mapM_eq_ok.mp h) hx
  exact ⟨y, hy⟩

/-- A loop that ends keeps what each of its turns keeps. -/
theorem foldlM_invariant {f : σ → α → Except ε σ} {P : List α → σ → Prop}
    (hstep : ∀ done a s s', P done s → f s a = .ok s' → P (done ++ [a]) s') {xs : List α} :
    ∀ {done : List α} {s s' : σ}, P done s → xs.foldlM f s = .ok s' → P (done ++ xs) s' := by
  induction xs with
  | nil =>
    intro done s s' h hf
    rw [List.foldlM_nil] at hf
    rwa [List.append_nil, ← pure_eq_ok.mp hf]
  | cons a xs ih =>
    intro done s s' h hf
    rw [List.foldlM_cons] at hf
    obtain ⟨s₁, h₁, hf⟩ := bind_eq_ok.mp hf
    have := ih (hstep done a s s₁ h h₁) hf
    rwa [List.append_assoc, List.singleton_append] at this

/-! ## Errors -/

theorem bind_eq_error {x : Except ε α} {f : α → Except ε β} {e : ε} :
    (x >>= f) = .error e ↔ x = .error e ∨ ∃ a, x = .ok a ∧ f a = .error e := by
  cases x with
  | error e' => simp [bind, Except.bind]
  | ok a => simp [bind, Except.bind]

theorem bind_fails {x : Except ε α} {f : α → Except ε β} :
    (∃ e, (x >>= f) = .error e) ↔
      (∃ e, x = .error e) ∨ ∃ a, x = .ok a ∧ ∃ e, f a = .error e := by
  cases x with
  | error e => simp [bind, Except.bind]
  | ok a => simp [bind, Except.bind]

theorem map_eq_error {x : Except ε α} {f : α → β} {e : ε} :
    x.map f = .error e ↔ x = .error e := by
  cases x with
  | error e' => simp [Except.map]
  | ok a => simp [Except.map]

/-- A traversal fails when one of its steps does. -/
theorem mapM_fails {f : α → Except ε β} {xs : List α} :
    (∃ e, xs.mapM f = .error e) ↔ ∃ x ∈ xs, ∃ e, f x = .error e := by
  induction xs with
  | nil => simp [pure, Except.pure]
  | cons x xs ih =>
    rw [List.mapM_cons, List.exists_mem_cons_iff, ← ih]
    cases f x with
    | error e => simp [bind, Except.bind]
    | ok y => cases xs.mapM f <;> simp [bind, Except.bind, pure, Except.pure]

/-- A loop throws what its first failing turn throws. -/
theorem foldlM_eq_error {f : σ → α → Except ε σ} {xs : List α} {s : σ} {e : ε} :
    xs.foldlM f s = .error e ↔ ∃ done a rest s', xs = done ++ a :: rest ∧
      done.foldlM f s = .ok s' ∧ f s' a = .error e := by
  induction xs generalizing s with
  | nil => simp [pure, Except.pure]
  | cons x xs ih =>
    rw [List.foldlM_cons, bind_eq_error]
    constructor
    · rintro (h | ⟨s₁, h₁, h⟩)
      · exact ⟨[], x, xs, s, rfl, rfl, h⟩
      · obtain ⟨done, a, rest, s', rfl, hdone, hstep⟩ := ih.mp h
        exact ⟨x :: done, a, rest, s', rfl, by rw [List.foldlM_cons, h₁]; exact hdone, hstep⟩
    · rintro ⟨done, a, rest, s', heq, hdone, hstep⟩
      cases done with
      | nil =>
        obtain ⟨rfl, rfl⟩ := List.cons.inj heq
        cases hdone
        exact Or.inl hstep
      | cons y done =>
        obtain ⟨rfl, rfl⟩ := List.cons.inj heq
        rw [List.foldlM_cons] at hdone
        obtain ⟨s₁, h₁, hdone⟩ := bind_eq_ok.mp hdone
        exact Or.inr ⟨s₁, h₁, ih.mpr ⟨done, a, rest, s', rfl, hdone, hstep⟩⟩

/-- The errors of a computation are of one kind. -/
def Throws (P : ε → Prop) (x : Except ε α) : Prop := ∀ e, x = .error e → P e

section

variable {P : ε → Prop}

theorem Throws.ok {a : α} : Throws P (.ok a) := by
  intro e h
  cases h

theorem Throws.error {e : ε} (h : P e) : Throws P (.error e : Except ε α) := by
  intro e' he
  cases he
  exact h

theorem Throws.bind {x : Except ε α} {f : α → Except ε β} (hx : Throws P x)
    (hf : ∀ a, x = .ok a → Throws P (f a)) : Throws P (x >>= f) := by
  intro e h
  rcases bind_eq_error.mp h with h | ⟨a, ha, h⟩
  · exact hx e h
  · exact hf a ha e h

theorem Throws.map {x : Except ε α} {f : α → β} (hx : Throws P x) : Throws P (x.map f) :=
  fun e h => hx e (map_eq_error.mp h)

theorem Throws.mapM {f : α → Except ε β} {xs : List α} (hf : ∀ x ∈ xs, Throws P (f x)) :
    Throws P (xs.mapM f) := by
  induction xs with
  | nil => exact .ok
  | cons x xs ih =>
    rw [List.forall_mem_cons] at hf
    rw [List.mapM_cons]
    exact hf.1.bind fun _ _ => (ih hf.2).bind fun _ _ => .ok

end

/-! ## Options -/

theorem optionMapM_eq_some {xs : List (Option α)} {ys : List α} :
    xs.mapM id = some ys ↔ xs = ys.map some := by
  induction xs generalizing ys with
  | nil => cases ys <;> simp
  | cons x xs ih =>
    rw [List.mapM_cons]
    cases x with
    | none => cases ys <;> simp
    | some a =>
      have hmap : (do let b ← id (some a); let bs ← xs.mapM id; pure (b :: bs)) =
          (xs.mapM id).map (a :: ·) := by cases xs.mapM id <;> rfl
      rw [hmap, Option.map_eq_some_iff]
      constructor
      · rintro ⟨zs, hzs, rfl⟩
        rw [ih.mp hzs]
        rfl
      · intro h
        cases ys with
        | nil => exact absurd h (by simp)
        | cons y ys =>
          rw [List.map_cons, List.cons.injEq, Option.some.injEq] at h
          exact ⟨ys, ih.mpr h.2, by rw [h.1]⟩

end Outcome
