/-
Sums kept by key.

Every entry of a list is added to the sum of its key.  What a key has at the end is the sum of its
entries, in whatever order they came.
-/
import CircuitForge.Js.Map
import Mathlib.Algebra.BigOperators.Group.List.Basic
import Mathlib.Algebra.Group.Hom.Basic

namespace Tallies

open Js

variable {κ G : Type} [DecidableEq κ] [AddCommMonoid G]

/-- The value of one entry is added to the sum of its key. -/
def credit (m : Map κ G) (e : κ × G) : Map κ G := m.set e.1 ((m.get? e.1).getD 0 + e.2)

def creditAll (es : List (κ × G)) (m : Map κ G) : Map κ G := es.foldl credit m

theorem keyed_creditAll (es : List (κ × G)) {m : Map κ G} (h : m.Keyed) :
    (creditAll es m).Keyed := by
  induction es generalizing m with
  | nil => exact h
  | cons e es ih => exact ih (h.set e.1 _)

/-- The sum of the entries of one key. -/
def total (es : List (κ × G)) (k : κ) : G := ((es.filter (·.1 = k)).map Prod.snd).sum

@[simp] theorem total_nil (k : κ) : total ([] : List (κ × G)) k = 0 := rfl

theorem total_cons (e : κ × G) (es : List (κ × G)) (k : κ) :
    total (e :: es) k = (if e.1 = k then e.2 else 0) + total es k := by
  unfold total
  by_cases h : e.1 = k
  · rw [List.filter_cons_of_pos (by simpa using h), List.map_cons, List.sum_cons, if_pos h]
  · rw [List.filter_cons_of_neg (by simpa using h), if_neg h, zero_add]

theorem total_append (es es' : List (κ × G)) (k : κ) :
    total (es ++ es') k = total es k + total es' k := by
  unfold total
  rw [List.filter_append, List.map_append, List.sum_append]

theorem total_perm {es es' : List (κ × G)} (h : es.Perm es') (k : κ) :
    total es k = total es' k :=
  ((h.filter _).map _).sum_eq

theorem total_of_notMem {es : List (κ × G)} {k : κ} (h : k ∉ es.map Prod.fst) : total es k = 0 := by
  unfold total
  rw [List.filter_eq_nil_iff.mpr]
  · rfl
  · intro e he heq
    exact h (List.mem_map.mpr ⟨e, he, of_decide_eq_true heq⟩)

/-- Sums of a part of the values. -/
theorem map_total {H : Type} [AddCommMonoid H] (g : G →+ H) (es : List (κ × G)) (k : κ) :
    g (total es k) = total (es.map fun e => (e.1, g e.2)) k := by
  unfold total
  rw [map_list_sum, List.filter_map, List.map_map, List.map_map]
  rfl

/-- A key is there when it was or has an entry, and has the sum of its entries. -/
theorem get?_creditAll (es : List (κ × G)) (m : Map κ G) (k : κ) :
    (creditAll es m).get? k =
      if k ∈ es.map Prod.fst then some ((m.get? k).getD 0 + total es k) else m.get? k := by
  induction es generalizing m with
  | nil => rfl
  | cons e es ih =>
    have hstep : creditAll (e :: es) m = creditAll es (credit m e) := rfl
    rw [hstep, ih, credit, Map.get?_set, total_cons]
    simp only [List.map_cons, List.mem_cons]
    by_cases hk : e.1 = k
    · subst hk
      rw [if_pos rfl, if_pos rfl, if_pos (Or.inl rfl), Option.getD_some]
      by_cases hmem : e.1 ∈ es.map Prod.fst
      · rw [if_pos hmem, add_assoc]
      · rw [if_neg hmem, total_of_notMem hmem, add_zero]
    · rw [if_neg hk, if_neg hk, zero_add]
      by_cases hmem : k ∈ es.map Prod.fst
      · rw [if_pos hmem, if_pos (Or.inr hmem)]
      · rw [if_neg hmem, if_neg fun h => h.elim (fun h => hk h.symm) hmem]

/-- The sum of a key, zero where it has none. -/
theorem getD_creditAll (es : List (κ × G)) (k : κ) :
    ((creditAll es []).get? k).getD 0 = total es k := by
  rw [get?_creditAll, Map.get?_nil, Option.getD_none]
  by_cases hmem : k ∈ es.map Prod.fst
  · rw [if_pos hmem, Option.getD_some, zero_add]
  · rw [if_neg hmem, Option.getD_none, total_of_notMem hmem]

end Tallies
