/-
Runs of a step that can be refused.

A refused action leaves the state, so a run goes through any list of actions.  `Along`
says a property of every step that was taken.
-/

namespace Runs

variable {σ α : Type}

/-- The state after one action. -/
def next (step : σ → α → Option σ) (s : σ) (a : α) : σ := (step s a).getD s

/-- The state after a run. -/
def final (step : σ → α → Option σ) (s : σ) (as : List α) : σ := as.foldl (next step) s

/-- `P` of every step taken. -/
def Along (step : σ → α → Option σ) (P : σ → α → σ → Prop) : σ → List α → Prop
  | _, [] => True
  | s, a :: as => (∀ s', step s a = some s' → P s a s') ∧ Along step P (next step s a) as

instance decidableAlong {step : σ → α → Option σ} {P : σ → α → σ → Prop}
    [∀ s a s', Decidable (P s a s')] : ∀ s as, Decidable (Along step P s as)
  | _, [] => isTrue trivial
  | s, a :: as =>
    have : Decidable (Along step P (next step s a) as) := decidableAlong _ as
    match hs : step s a with
    | none => decidable_of_iff (Along step P (next step s a) as) (by simp [Along, hs])
    | some s' => decidable_of_iff (P s a s' ∧ Along step P (next step s a) as) (by simp [Along, hs])

theorem next_of_some {step : σ → α → Option σ} {s s' : σ} {a : α} (h : step s a = some s') :
    next step s a = s' := by
  rw [next, h, Option.getD_some]

theorem next_of_none {step : σ → α → Option σ} {s : σ} {a : α} (h : step s a = none) :
    next step s a = s := by
  rw [next, h, Option.getD_none]

theorem next_invariant {step : σ → α → Option σ} {I : σ → Prop} {s : σ} {a : α} (h : I s)
    (hstep : ∀ s', step s a = some s' → I s') : I (next step s a) := by
  cases hs : step s a with
  | none => rwa [next_of_none hs]
  | some s' =>
    rw [next_of_some hs]
    exact hstep s' hs

theorem final_append (step : σ → α → Option σ) (s : σ) (as bs : List α) :
    final step s (as ++ bs) = final step (final step s as) bs := List.foldl_append

theorem along_append {step : σ → α → Option σ} {P : σ → α → σ → Prop} {s : σ} {as bs : List α} :
    Along step P s (as ++ bs) ↔ Along step P s as ∧ Along step P (final step s as) bs := by
  induction as generalizing s with
  | nil => exact ⟨fun h => ⟨trivial, h⟩, And.right⟩
  | cons a as ih =>
    rw [List.cons_append, Along, ih, Along, and_assoc]
    exact Iff.rfl

theorem along_of_forall {step : σ → α → Option σ} {P : σ → α → σ → Prop}
    (h : ∀ s a s', P s a s') (s : σ) (as : List α) : Along step P s as := by
  induction as generalizing s with
  | nil => trivial
  | cons a as ih => exact ⟨fun s' _ => h s a s', ih _⟩

/-- What the steps taken keep, the run keeps. -/
theorem final_of_along {step : σ → α → Option σ} {I : σ → Prop} {P : σ → α → σ → Prop}
    (hstep : ∀ s a s', I s → step s a = some s' → P s a s' → I s') {s : σ} (h : I s)
    {as : List α} (ha : Along step P s as) : I (final step s as) := by
  induction as generalizing s with
  | nil => exact h
  | cons a as ih =>
    exact ih (next_invariant h fun s' hs => hstep s a s' h hs (ha.1 s' hs)) ha.2

/-- What the steps that keep an invariant do, the run does. -/
theorem along_of_along {step : σ → α → Option σ} {I : σ → Prop}
    {P Q : σ → α → σ → Prop}
    (hstep : ∀ s a s', I s → step s a = some s' → P s a s' → I s' ∧ Q s a s') {s : σ} (h : I s)
    {as : List α} (ha : Along step P s as) : Along step Q s as := by
  induction as generalizing s with
  | nil => trivial
  | cons a as ih =>
    refine ⟨fun s' hs => (hstep s a s' h hs (ha.1 s' hs)).2, ih ?_ ha.2⟩
    exact next_invariant h fun s' hs => (hstep s a s' h hs (ha.1 s' hs)).1

/-- Two properties that agree on a step from a state of the invariant agree on a run. -/
theorem along_iff {step : σ → α → Option σ} {I : σ → Prop} {P Q : σ → α → σ → Prop}
    (hiff : ∀ s a s', I s → step s a = some s' → (P s a s' ↔ Q s a s'))
    (hinv : ∀ s a s', I s → step s a = some s' → P s a s' → I s') {s : σ} (h : I s)
    (as : List α) : Along step P s as ↔ Along step Q s as := by
  induction as generalizing s with
  | nil => exact Iff.rfl
  | cons a as ih =>
    have hhead : (∀ s', step s a = some s' → P s a s') ↔ ∀ s', step s a = some s' → Q s a s' :=
      forall₂_congr fun s' hs => hiff s a s' h hs
    refine and_congr_right_iff.mpr ?_ |>.trans (and_congr_left' hhead)
    exact fun hp => ih (next_invariant h fun s' hs => hinv s a s' h hs (hp s' hs))

end Runs
