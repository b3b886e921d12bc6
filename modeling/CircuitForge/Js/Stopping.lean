/-
Loops that stop on what they have seen.

A loop draws the elements of a stream and stops when the drawn elements that count say so.  Two
streams that count alike make it stop on the same elements, whatever stands between them.
-/
import Mathlib.Data.List.Basic
import Mathlib.Tactic.Common

namespace Stopping

variable {α : Type}

/-- The first elements of a stream. -/
def upTo (s : Nat → α) (k : Nat) : List α := (List.range k).map s

theorem upTo_succ (s : Nat → α) (k : Nat) : upTo s (k + 1) = upTo s k ++ [s k] := by
  rw [upTo, List.range_succ, List.map_append]
  rfl

theorem upTo_length (s : Nat → α) (k : Nat) : (upTo s k).length = k := by
  rw [upTo, List.length_map, List.length_range]

theorem mem_upTo {s : Nat → α} {k : Nat} {a : α} : a ∈ upTo s k ↔ ∃ i < k, s i = a := by
  rw [upTo, List.mem_map]
  simp only [List.mem_range]

/-- The elements that count among the first ones. -/
def visible (p : α → Bool) (s : Nat → α) (k : Nat) : List α := (upTo s k).filter p

theorem visible_succ (p : α → Bool) (s : Nat → α) (k : Nat) :
    visible p s (k + 1) = visible p s k ++ if p (s k) then [s k] else [] := by
  rw [visible, upTo_succ, List.filter_append]
  by_cases h : p (s k) = true
  · rw [List.filter_cons_of_pos h, if_pos h]
    rfl
  · rw [List.filter_cons_of_neg h, if_neg h]
    rfl

/-- Both streams have the same elements that count, in the same order. -/
def SameVisible (p : α → Bool) (s t : Nat → α) : Prop :=
  (∀ k, ∃ k', visible p s k <+: visible p t k') ∧ ∀ k, ∃ k', visible p t k <+: visible p s k'

/-- A stream with an element put in. -/
def insertAt (s : Nat → α) (j : Nat) (a : α) (i : Nat) : α :=
  if i < j then s i else if i = j then a else s (i - 1)

theorem visible_insertAt (p : α → Bool) (s : Nat → α) (j : Nat) {a : α} (ha : p a = false)
    (k : Nat) :
    visible p (insertAt s j a) k = visible p s (if k ≤ j then k else k - 1) := by
  induction k with
  | zero => rw [if_pos (Nat.zero_le j)]; rfl
  | succ k ih =>
    rw [visible_succ, ih]
    rcases Nat.lt_trichotomy k j with h | rfl | h
    · have hinsert : insertAt s j a k = s k := if_pos h
      rw [hinsert, if_pos (Nat.le_of_lt h), if_pos (show k + 1 ≤ j from h), visible_succ]
    · have hinsert : insertAt s k a k = a := by
        rw [insertAt, if_neg (Nat.lt_irrefl k), if_pos rfl]
      rw [hinsert, ha, if_pos (Nat.le_refl k), if_neg (show ¬ k + 1 ≤ k by omega),
        Nat.add_sub_cancel]
      exact List.append_nil _
    · obtain ⟨l, rfl⟩ : ∃ l, k = l + 1 := ⟨k - 1, by omega⟩
      have hinsert : insertAt s j a (l + 1) = s l := by
        rw [insertAt, if_neg (by omega), if_neg (by omega), Nat.add_sub_cancel]
      rw [hinsert, if_neg (show ¬ l + 1 ≤ j by omega), if_neg (show ¬ l + 1 + 1 ≤ j by omega),
        Nat.add_sub_cancel, Nat.add_sub_cancel, visible_succ]

/-- An element that does not count changes nothing that does. -/
theorem sameVisible_insertAt {p : α → Bool} (s : Nat → α) (j : Nat) {a : α} (ha : p a = false) :
    SameVisible p s (insertAt s j a) := by
  refine ⟨fun k => ⟨if k ≤ j then k else k + 1, ?_⟩, fun k => ⟨if k ≤ j then k else k - 1, ?_⟩⟩
  · have hplace : (if (if k ≤ j then k else k + 1) ≤ j then if k ≤ j then k else k + 1
        else (if k ≤ j then k else k + 1) - 1) = k := by
      split_ifs <;> omega
    have hsame : visible p s k =
        visible p (insertAt s j a) (if k ≤ j then k else k + 1) := by
      rw [visible_insertAt p s j ha, hplace]
    exact ⟨[], (List.append_nil _).trans hsame⟩
  · exact ⟨[], (List.append_nil _).trans (visible_insertAt p s j ha k)⟩

/-- A prefix of what counts is empty, or it ends with an element that counts. -/
theorem prefix_visible {p : α → Bool} {s : Nat → α} {k : Nat} {w : List α}
    (h : w <+: visible p s k) :
    w = [] ∨ ∃ j < k, p (s j) = true ∧ visible p s (j + 1) = w := by
  induction k with
  | zero => exact Or.inl (List.prefix_nil.mp h)
  | succ k ih =>
    have hstep : w <+: visible p s k →
        w = [] ∨ ∃ j < k + 1, p (s j) = true ∧ visible p s (j + 1) = w := fun hw => by
      rcases ih hw with h | ⟨j, hj, hp, hv⟩
      · exact Or.inl h
      · exact Or.inr ⟨j, by omega, hp, hv⟩
    by_cases hp : p (s k) = true
    · rw [visible_succ, if_pos hp] at h
      rcases List.prefix_concat_iff.mp h with heq | h
      · refine Or.inr ⟨k, by omega, hp, ?_⟩
        rw [visible_succ, if_pos hp, heq]
      · exact hstep h
    · rw [visible_succ, if_neg hp, List.append_nil] at h
      exact hstep h

/-- The first elements that stop the loop are the same in both streams. -/
theorem first_halt_eq {p : α → Bool} {s t : Nat → α} (hsame : SameVisible p s t)
    (halts : List α → Prop) {k k' : Nat} (hs : halts (visible p s k))
    (ht : halts (visible p t k'))
    (hs' : ∀ w, w <+: visible p s k → halts w → w = visible p s k)
    (ht' : ∀ w, w <+: visible p t k' → halts w → w = visible p t k') :
    visible p s k = visible p t k' := by
  obtain ⟨m, hm⟩ := hsame.1 k
  have hmono : ∀ j l, j ≤ l → visible p t j <+: visible p t l := by
    intro j l hjl
    induction hjl with
    | refl => exact List.prefix_rfl
    | step _ ih => exact ih.trans (visible_succ p t _ ▸ List.prefix_append _ _)
  have hcommon := hm.trans (hmono m (max m k') (Nat.le_max_left _ _))
  rcases List.prefix_or_prefix_of_prefix hcommon (hmono k' (max m k') (Nat.le_max_right _ _)) with
    h | h
  · exact ht' _ h hs
  · exact (hs' _ h ht).symm

end Stopping
