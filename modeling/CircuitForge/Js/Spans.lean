/-
Spans and running bounds.

The least lower end and the greatest upper end of a list of spans, as a loop keeps them that
starts with no bounds at all.
-/
import Mathlib.Algebra.Order.Field.Basic
import Mathlib.Data.List.Induction
import Mathlib.Order.MinMax
import Mathlib.Tactic.Common

namespace Js

section

variable {K : Type} [Field K]

/-- Half of a number. -/
def halved (x : K) : K := x / ((2 : ℕ) : K)

theorem halved_eq (x : K) : halved x = x / 2 := by rw [halved, Nat.cast_ofNat]

/-- A number of hundredths. -/
def hundredths (n : ℕ) : K := (n : K) / ((100 : ℕ) : K)

theorem hundredths_eq (n : ℕ) : (hundredths n : K) = n / 100 := by
  rw [hundredths, Nat.cast_ofNat]

theorem halved_nonneg [LinearOrder K] [IsStrictOrderedRing K] {x : K} (h : 0 ≤ x) :
    0 ≤ halved x := by
  rw [halved_eq]
  exact div_nonneg h zero_le_two

end

/-- What lies from `lo` to `hi`. -/
structure Span (K : Type) where
  lo : K
  hi : K
  deriving DecidableEq

namespace Span

variable {K : Type} [LinearOrder K]

/-- The bounds with one more span. -/
def widen (bounds : Option (Span K)) (s : Span K) : Option (Span K) :=
  match bounds with
  | none => some s
  | some b => some ⟨min b.lo s.lo, max b.hi s.hi⟩

/-- The bounds of all spans of a list. -/
def bounds (spans : List (Span K)) : Option (Span K) := spans.foldl widen none

/-- One span lies within another. -/
def Within (s b : Span K) : Prop := b.lo ≤ s.lo ∧ s.hi ≤ b.hi

instance (s b : Span K) : Decidable (s.Within b) := inferInstanceAs (Decidable (_ ∧ _))

/-- A span reaches no further than a list of spans does. -/
def Between (spans : List (Span K)) (s : Span K) : Prop :=
  (∃ a ∈ spans, a.lo ≤ s.lo) ∧ ∃ b ∈ spans, s.hi ≤ b.hi

instance (spans : List (Span K)) (s : Span K) : Decidable (s.Between spans) :=
  inferInstanceAs (Decidable (_ ∧ _))

@[simp] theorem bounds_nil : bounds ([] : List (Span K)) = none := rfl

theorem widen_ne_none (b : Option (Span K)) (s : Span K) : widen b s ≠ none := by
  cases b <;> exact Option.some_ne_none _

theorem bounds_concat (spans : List (Span K)) (s : Span K) :
    bounds (spans ++ [s]) = widen (bounds spans) s := by
  rw [bounds, List.foldl_append]
  rfl

/-- There are bounds as soon as there is a span. -/
theorem bounds_eq_none {spans : List (Span K)} : bounds spans = none ↔ spans = [] := by
  induction spans using List.reverseRecOn with
  | nil => exact iff_of_true rfl rfl
  | append_singleton spans s _ =>
    rw [bounds_concat]
    exact iff_of_false (widen_ne_none _ s)
      (List.append_ne_nil_of_right_ne_nil _ (List.cons_ne_nil _ _))

/-- The ends of the bounds are ends of spans. -/
theorem ends_of_bounds {spans : List (Span K)} {b : Span K} (h : bounds spans = some b) :
    (∃ s ∈ spans, s.lo = b.lo) ∧ ∃ s ∈ spans, s.hi = b.hi := by
  induction spans using List.reverseRecOn generalizing b with
  | nil => cases h
  | append_singleton spans s ih =>
    have hlast : s ∈ spans ++ [s] := List.mem_append_right _ List.mem_cons_self
    rw [bounds_concat] at h
    cases hb : bounds spans with
    | none =>
      rw [hb] at h
      cases h
      exact ⟨⟨s, hlast, rfl⟩, s, hlast, rfl⟩
    | some b' =>
      rw [hb] at h
      cases h
      obtain ⟨⟨l, hl, hlo⟩, u, hu, hhi⟩ := ih hb
      constructor
      · rcases min_choice b'.lo s.lo with hmin | hmin
        · exact ⟨l, List.mem_append_left _ hl, hlo.trans hmin.symm⟩
        · exact ⟨s, hlast, hmin.symm⟩
      · rcases max_choice b'.hi s.hi with hmax | hmax
        · exact ⟨u, List.mem_append_left _ hu, hhi.trans hmax.symm⟩
        · exact ⟨s, hlast, hmax.symm⟩

/-- Every span lies within the bounds. -/
theorem within_bounds {spans : List (Span K)} {b : Span K} (h : bounds spans = some b)
    {s : Span K} (hs : s ∈ spans) : s.Within b := by
  induction spans using List.reverseRecOn generalizing b with
  | nil => cases hs
  | append_singleton spans t ih =>
    rw [bounds_concat] at h
    rcases List.mem_append.mp hs with hs | hs
    · obtain ⟨b', hb⟩ := Option.ne_none_iff_exists'.mp fun he =>
        List.ne_nil_of_mem hs (bounds_eq_none.mp he)
      rw [hb] at h
      cases h
      exact ⟨(min_le_left _ _).trans (ih hb hs).1, (ih hb hs).2.trans (le_max_left _ _)⟩
    · cases List.mem_singleton.mp hs
      cases hb : bounds spans with
      | none =>
        rw [hb] at h
        cases h
        exact ⟨le_refl _, le_refl _⟩
      | some b' =>
        rw [hb] at h
        cases h
        exact ⟨min_le_right _ _, le_max_right _ _⟩

/-- What lies within the bounds reaches no further than the spans. -/
theorem within_bounds_iff {spans : List (Span K)} {b : Span K} (h : bounds spans = some b)
    {s : Span K} : s.Within b ↔ s.Between spans := by
  constructor
  · intro hs
    obtain ⟨⟨l, hl, hlo⟩, u, hu, hhi⟩ := ends_of_bounds h
    exact ⟨⟨l, hl, hlo.le.trans hs.1⟩, u, hu, hs.2.trans hhi.ge⟩
  · rintro ⟨⟨l, hl, hlo⟩, u, hu, hhi⟩
    exact ⟨(within_bounds h hl).1.trans hlo, hhi.trans (within_bounds h hu).2⟩

/-- Two lists with the same spans have the same bounds. -/
theorem Between.mono {spans spans' : List (Span K)} (hsub : ∀ s ∈ spans, s ∈ spans')
    {s : Span K} (h : s.Between spans) : s.Between spans' := by
  obtain ⟨⟨l, hl, hlo⟩, u, hu, hhi⟩ := h
  exact ⟨⟨l, hsub l hl, hlo⟩, u, hsub u hu, hhi⟩

end Span

end Js
