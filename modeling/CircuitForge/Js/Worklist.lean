/-
Flood fill with a stack.

A node is pushed when it is first seen and its neighbours are visited when it is
popped.  With enough fuel for every node to be popped once, the nodes seen are
those that can be reached.
-/
import Mathlib.Data.List.Dedup
import Mathlib.Data.List.Perm.Subperm
import Mathlib.Logic.Relation
import Mathlib.Tactic.Common

namespace Worklist

variable {α : Type} [DecidableEq α]

/-- The unseen ones of the neighbours are marked and pushed, in turn. -/
def visit : List α → List α → List α → List α × List α
  | [], seen, stack => (seen, stack)
  | x :: xs, seen, stack =>
    if x ∈ seen then visit xs seen stack else visit xs (seen ++ [x]) (x :: stack)

def flood (next : α → List α) : Nat → List α → List α → List α
  | 0, seen, _ => seen
  | _ + 1, seen, [] => seen
  | n + 1, seen, cur :: stack =>
    let (seen, stack) := visit (next cur) seen stack
    flood next n seen stack

/-- What a visit adds. -/
theorem visit_spec (xs seen stack : List α) :
    ∃ fresh : List α, visit xs seen stack = (seen ++ fresh, fresh.reverse ++ stack) ∧
      fresh.Nodup ∧ (∀ x ∈ fresh, x ∉ seen ∧ x ∈ xs) ∧ ∀ x ∈ xs, x ∈ seen ++ fresh := by
  induction xs generalizing seen stack with
  | nil => exact ⟨[], by simp [visit], List.nodup_nil, by simp, by simp⟩
  | cons x xs ih =>
    rw [visit]
    by_cases hx : x ∈ seen
    · obtain ⟨fresh, he, hn, hf, hall⟩ := ih seen stack
      rw [if_pos hx]
      refine ⟨fresh, he, hn, fun y hy => ⟨(hf y hy).1, List.mem_cons_of_mem _ (hf y hy).2⟩, ?_⟩
      exact List.forall_mem_cons.mpr ⟨List.mem_append_left _ hx, hall⟩
    · obtain ⟨fresh, he, hn, hf, hall⟩ := ih (seen ++ [x]) (x :: stack)
      rw [if_neg hx]
      have hfresh : ∀ y ∈ fresh, y ∉ seen ∧ y ≠ x := fun y hy => by
        have := (hf y hy).1
        rw [List.mem_append, not_or, List.mem_singleton] at this
        exact this
      refine ⟨x :: fresh, ?_, ?_, ?_, ?_⟩
      · rw [he]
        simp
      · exact List.nodup_cons.mpr ⟨fun hm => (hfresh x hm).2 rfl, hn⟩
      · refine List.forall_mem_cons.mpr ⟨⟨hx, List.mem_cons_self⟩, fun y hy => ?_⟩
        exact ⟨(hfresh y hy).1, List.mem_cons_of_mem _ (hf y hy).2⟩
      · refine List.forall_mem_cons.mpr ⟨by simp, fun y hy => ?_⟩
        have := hall y hy
        rwa [List.append_assoc, List.singleton_append] at this

/-- Nodes of the universe `u` that are not seen yet. -/
def unseen (u seen : List α) : List α := u.dedup.filter (· ∉ seen)

theorem length_unseen {u seen fresh : List α} (hn : fresh.Nodup)
    (hf : ∀ x ∈ fresh, x ∉ seen ∧ x ∈ u) :
    (unseen u (seen ++ fresh)).length + fresh.length ≤ (unseen u seen).length := by
  have hnodup : (unseen u (seen ++ fresh) ++ fresh).Nodup := by
    refine List.nodup_append.mpr ⟨u.nodup_dedup.filter _, hn, fun a ha b hb => ?_⟩
    have := (List.mem_filter.mp ha).2
    rintro rfl
    simp [hb] at this
  have hsub : unseen u (seen ++ fresh) ++ fresh ⊆ unseen u seen := by
    intro x hx
    rw [unseen, List.mem_filter, List.mem_dedup]
    rcases List.mem_append.mp hx with hx | hx
    · rw [unseen, List.mem_filter, List.mem_dedup] at hx
      refine ⟨hx.1, ?_⟩
      have := hx.2
      simp only [List.mem_append, not_or, decide_eq_true_eq] at this
      exact decide_eq_true this.1
    · exact ⟨(hf x hx).2, decide_eq_true (hf x hx).1⟩
  have := (List.subperm_of_subset hnodup hsub).length_le
  rwa [List.length_append] at this

theorem subset_flood (next : α → List α) (n : Nat) {seen stack : List α} :
    ∀ x ∈ seen, x ∈ flood next n seen stack := by
  induction n generalizing seen stack with
  | zero => exact fun _ h => h
  | succ n ih =>
    cases stack with
    | nil => exact fun _ h => h
    | cons cur stack =>
      obtain ⟨fresh, he, _, _, _⟩ := visit_spec (next cur) seen stack
      intro x hx
      rw [flood, he]
      exact ih x (List.mem_append_left _ hx)

/-- With fuel for every pop the nodes seen are closed under neighbours. -/
theorem flood_closed {next : α → List α} {u : List α} (hu : ∀ x, ∀ y ∈ next x, y ∈ u) (n : Nat)
    {seen stack : List α} (hfuel : stack.length + (unseen u seen).length ≤ n)
    (hopen : ∀ x ∈ seen, x ∈ stack ∨ ∀ y ∈ next x, y ∈ seen) :
    ∀ x ∈ flood next n seen stack, ∀ y ∈ next x, y ∈ flood next n seen stack := by
  induction n generalizing seen stack with
  | zero =>
    have hnil : stack = [] := List.length_eq_zero_iff.mp (by omega)
    intro x hx
    exact (hopen x hx).resolve_left (by simp [hnil])
  | succ n ih =>
    cases stack with
    | nil => exact fun x hx => (hopen x hx).resolve_left (by simp)
    | cons cur stack =>
      obtain ⟨fresh, he, hn, hf, hall⟩ := visit_spec (next cur) seen stack
      rw [flood, he]
      refine ih ?_ ?_
      · have := length_unseen (u := u) hn fun x hx => ⟨(hf x hx).1, hu cur x (hf x hx).2⟩
        rw [List.length_append, List.length_reverse]
        rw [List.length_cons] at hfuel
        omega
      · intro x hx
        rcases List.mem_append.mp hx with hx | hx
        · rcases hopen x hx with hs | hs
          · rcases List.mem_cons.mp hs with rfl | hs
            · exact Or.inr hall
            · exact Or.inl (List.mem_append_right _ hs)
          · exact Or.inr fun y hy => List.mem_append_left _ (hs y hy)
        · exact Or.inl (List.mem_append_left _ (List.mem_reverse.mpr hx))

/-- Every node seen can be reached. -/
theorem reachable_of_mem_flood {next : α → List α} {start : List α} (n : Nat)
    {seen stack : List α} (hstack : ∀ x ∈ stack, x ∈ seen)
    (hseen : ∀ x ∈ seen, ∃ s ∈ start, Relation.ReflTransGen (fun a b => b ∈ next a) s x) :
    ∀ x ∈ flood next n seen stack,
      ∃ s ∈ start, Relation.ReflTransGen (fun a b => b ∈ next a) s x := by
  induction n generalizing seen stack with
  | zero => exact hseen
  | succ n ih =>
    cases stack with
    | nil => exact hseen
    | cons cur stack =>
      obtain ⟨fresh, he, _, hf, _⟩ := visit_spec (next cur) seen stack
      rw [flood, he]
      refine ih ?_ ?_
      · intro x hx
        rcases List.mem_append.mp hx with hx | hx
        · exact List.mem_append_right _ (List.mem_reverse.mp hx)
        · exact List.mem_append_left _ (hstack x (List.mem_cons_of_mem _ hx))
      · intro x hx
        rcases List.mem_append.mp hx with hx | hx
        · exact hseen x hx
        · obtain ⟨s, hs, hpath⟩ := hseen cur (hstack cur List.mem_cons_self)
          exact ⟨s, hs, hpath.tail (hf x hx).2⟩

/-- The flood from `start`, with fuel for every node of the universe. -/
def reach (next : α → List α) (u start : List α) : List α :=
  flood next (start.length + u.length) start start.reverse

/-- The flood sees what can be reached. -/
theorem mem_reach_iff {next : α → List α} {u : List α} (hu : ∀ x, ∀ y ∈ next x, y ∈ u)
    (start : List α) (x : α) :
    x ∈ reach next u start ↔
      ∃ s ∈ start, Relation.ReflTransGen (fun a b => b ∈ next a) s x := by
  constructor
  · exact reachable_of_mem_flood _ (fun y hy => List.mem_reverse.mp hy)
      (fun y hy => ⟨y, hy, .refl⟩) x
  · rintro ⟨s, hs, hpath⟩
    have hfuel : start.reverse.length + (unseen u start).length ≤ start.length + u.length := by
      have h₁ := List.length_filter_le (· ∉ start) u.dedup
      have h₂ := u.dedup_sublist.length_le
      rw [List.length_reverse, unseen]
      omega
    have hclosed := flood_closed hu _ hfuel fun y hy => Or.inl (List.mem_reverse.mpr hy)
    induction hpath with
    | refl => exact subset_flood next _ s hs
    | tail _ hstep ih => exact hclosed _ ih _ hstep

end Worklist
