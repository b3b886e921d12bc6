/-
The first free index.

A loop that numbers candidates until one is unused ends after as many collisions
as there are used values, because distinct indices give distinct candidates.
-/
import Mathlib.Data.List.Basic
import Mathlib.Data.List.Nodup
import Mathlib.Data.List.Perm.Subperm
import Mathlib.Order.Defs.LinearOrder
import Mathlib.Tactic.Common

namespace FirstFree

variable {α : Type} [DecidableEq α]

/-- The first index from `n` on whose candidate is free, or `n + fuel`. -/
def search (used : List α) (f : Nat → α) : Nat → Nat → Nat
  | 0, n => n
  | fuel + 1, n => if f n ∈ used then search used f fuel (n + 1) else n

/-- Either the search found a free candidate, or everything it tried was used. -/
theorem search_spec (used : List α) (f : Nat → α) (fuel n : Nat) :
    f (search used f fuel n) ∉ used ∨
      (search used f fuel n = n + fuel ∧ ∀ i < fuel, f (n + i) ∈ used) := by
  induction fuel generalizing n with
  | zero => exact Or.inr ⟨rfl, fun i hi => absurd hi (Nat.not_lt_zero i)⟩
  | succ fuel ih =>
    rw [search]
    split_ifs with hn
    · rcases ih (n + 1) with h | ⟨h, hall⟩
      · exact Or.inl h
      · refine Or.inr ⟨by rw [h]; omega, fun i hi => ?_⟩
        cases i with
        | zero => exact hn
        | succ i =>
          have := hall i (Nat.lt_of_succ_lt_succ hi)
          rwa [show n + (i + 1) = n + 1 + i by omega]
    · exact Or.inl hn

/-- With distinct candidates, as much fuel as there are used values suffices. -/
theorem search_free {used : List α} {f : Nat → α} (hf : Function.Injective f) :
    f (search used f used.length 0) ∉ used := by
  rcases search_spec used f used.length 0 with h | ⟨h, hall⟩
  · exact h
  · rw [h]
    intro hmem
    have hnodup : ((List.range (used.length + 1)).map f).Nodup := List.nodup_range.map hf
    have hsub : (List.range (used.length + 1)).map f ⊆ used := by
      intro a ha
      obtain ⟨i, hi, rfl⟩ := List.mem_map.mp ha
      rw [List.mem_range] at hi
      rcases Nat.lt_succ_iff_lt_or_eq.mp hi with hi | rfl
      · simpa using hall i hi
      · simpa using hmem
    have hle := (List.Nodup.subperm hnodup hsub).length_le
    rw [List.length_map, List.length_range] at hle
    omega

omit [DecidableEq α] in
/-- A base and, behind a separator, its numbers are distinct. -/
theorem numbered_injective {base : List Char} {sep : Char} {number : Nat → Nat}
    (hnumber : Function.Injective number) :
    Function.Injective fun n =>
      if n = 0 then base else base ++ sep :: Nat.toDigits 10 (number n) := by
  intro a b h
  dsimp only at h
  split_ifs at h with ha hb hb
  · rw [ha, hb]
  · have := congrArg List.length h
    simp at this
  · have := congrArg List.length h
    simp at this
  · have hd := (List.cons.inj (List.append_cancel_left h)).2
    have := congrArg (fun s => Nat.ofDigitChars 10 s 0) hd
    exact hnumber (by simpa using this)

/-! ## Two candidates at once -/

variable {β : Type} [DecidableEq β]

/-- The first index from `n` on both of whose candidates are free, or `n + fuel`. -/
def searchBoth (used : List α) (used' : List β) (f : Nat → α) (g : Nat → β) : Nat → Nat → Nat
  | 0, n => n
  | fuel + 1, n =>
    if f n ∈ used ∨ g n ∈ used' then searchBoth used used' f g fuel (n + 1) else n

/-- The candidate that is in the way at an index, or the second one. -/
def obstacle (used : List α) (f : Nat → α) (g : Nat → β) (n : Nat) : α ⊕ β :=
  if f n ∈ used then .inl (f n) else .inr (g n)

omit [DecidableEq β] in
theorem obstacle_mem_iff {used : List α} {used' : List β} {f : Nat → α} {g : Nat → β} {n : Nat} :
    obstacle used f g n ∈ used.map Sum.inl ++ used'.map Sum.inr ↔ f n ∈ used ∨ g n ∈ used' := by
  by_cases h : f n ∈ used
  · simp [obstacle, h]
  · simp [obstacle, h]

omit [DecidableEq β] in
theorem obstacle_injective {used : List α} {f : Nat → α} {g : Nat → β}
    (hf : Function.Injective f) (hg : Function.Injective g) :
    Function.Injective (obstacle used f g) := by
  intro i j h
  unfold obstacle at h
  split at h <;> split at h
  · exact hf (Sum.inl.inj h)
  · cases h
  · cases h
  · exact hg (Sum.inr.inj h)

theorem searchBoth_eq (used : List α) (used' : List β) (f : Nat → α) (g : Nat → β)
    (fuel n : Nat) : searchBoth used used' f g fuel n =
      search (used.map Sum.inl ++ used'.map Sum.inr) (obstacle used f g) fuel n := by
  induction fuel generalizing n with
  | zero => rfl
  | succ fuel ih =>
    rw [searchBoth, search, ih]
    by_cases h : f n ∈ used ∨ g n ∈ used'
    · rw [if_pos h, if_pos (obstacle_mem_iff.mpr h)]
    · rw [if_neg h, if_neg (mt obstacle_mem_iff.mp h)]

/-- With distinct candidates of either kind, as much fuel as there are used values
suffices. -/
theorem searchBoth_free {used : List α} {used' : List β} {f : Nat → α} {g : Nat → β}
    (hf : Function.Injective f) (hg : Function.Injective g) :
    f (searchBoth used used' f g (used.length + used'.length) 0) ∉ used ∧
      g (searchBoth used used' f g (used.length + used'.length) 0) ∉ used' := by
  have hinj : Function.Injective (obstacle used f g) := obstacle_injective hf hg
  have h := @search_free _ _ (used.map Sum.inl ++ used'.map Sum.inr) _ hinj
  rw [List.length_append, List.length_map, List.length_map, ← searchBoth_eq] at h
  rw [obstacle_mem_iff] at h
  exact not_or.mp h

/-- No index before the one found was free. -/
theorem search_first {used : List α} {f : Nat → α} {fuel n i : Nat} (hn : n ≤ i)
    (hi : i < search used f fuel n) : f i ∈ used := by
  induction fuel generalizing n with
  | zero =>
    rw [search] at hi
    omega
  | succ fuel ih =>
    rw [search] at hi
    split at hi
    case isTrue h =>
      rcases Nat.eq_or_lt_of_le hn with rfl | hlt
      · exact h
      · exact ih hlt hi
    case isFalse => omega

theorem searchBoth_first {used : List α} {used' : List β} {f : Nat → α} {g : Nat → β}
    {fuel i : Nat} (hi : i < searchBoth used used' f g fuel 0) : f i ∈ used ∨ g i ∈ used' := by
  rw [searchBoth_eq] at hi
  exact obstacle_mem_iff.mp (search_first (Nat.zero_le i) hi)

/-! ## Free numbers in order -/

/-- How many free numbers stand before `k`. -/
def place (free : Nat → Bool) (k : Nat) : Nat := (List.range k).countP free

/-- `k` is the free number at place `q`, counted from zero. -/
def Nth (free : Nat → Bool) (q k : Nat) : Prop := free k = true ∧ place free k = q

/-- What is free once the first `m` free numbers are taken. -/
def after (free : Nat → Bool) (m : Nat) (k : Nat) : Bool := free k && decide (m ≤ place free k)

theorem place_succ (free : Nat → Bool) (k : Nat) :
    place free (k + 1) = place free k + if free k then 1 else 0 := by
  rw [place, List.range_succ, List.countP_append, List.countP_singleton]
  rfl

theorem place_mono (free : Nat → Bool) {j k : Nat} (h : j ≤ k) : place free j ≤ place free k := by
  induction h with
  | refl => exact Nat.le_refl _
  | step _ ih =>
    rw [place_succ]
    omega

theorem place_lt {free : Nat → Bool} {j k : Nat} (hj : free j = true) (h : j < k) :
    place free j < place free k := by
  have := place_mono free h
  rw [place_succ, if_pos hj] at this
  omega

theorem Nth.unique {free : Nat → Bool} {q j k : Nat} (hj : Nth free q j) (hk : Nth free q k) :
    j = k := by
  rcases Nat.lt_trichotomy j k with h | h | h
  · have := place_lt hj.1 h
    rw [hj.2, hk.2] at this
    omega
  · exact h
  · have := place_lt hk.1 h
    rw [hj.2, hk.2] at this
    omega

theorem nth_zero_of_first {free : Nat → Bool} {k : Nat} (hk : free k = true)
    (h : ∀ j < k, free j = false) : Nth free 0 k := by
  refine ⟨hk, List.countP_eq_zero.mpr fun j hj => ?_⟩
  rw [h j (List.mem_range.mp hj)]
  exact Bool.false_ne_true

theorem place_after (free : Nat → Bool) (m k : Nat) :
    place (after free m) k = place free k - m := by
  induction k with
  | zero => exact (Nat.zero_sub m).symm
  | succ k ih =>
    rw [place_succ, place_succ, ih, after]
    by_cases hk : free k = true
    · by_cases hm : m ≤ place free k
      · simp only [hk, hm, decide_true, Bool.and_true, if_true]
        omega
      · simp only [hk, hm, decide_false, Bool.and_false, Bool.false_eq_true, if_false, if_true]
        omega
    · rw [Bool.not_eq_true] at hk
      simp [hk]

theorem nth_after {free : Nat → Bool} {m q k : Nat} :
    Nth (after free m) q k ↔ Nth free (m + q) k := by
  rw [Nth, Nth, place_after, after, Bool.and_eq_true, decide_eq_true_eq]
  constructor
  · rintro ⟨⟨hk, hm⟩, hq⟩
    exact ⟨hk, by omega⟩
  · rintro ⟨hk, hq⟩
    exact ⟨⟨hk, by omega⟩, by omega⟩

theorem after_after (free : Nat → Bool) (m n : Nat) :
    after (after free m) n = after free (m + n) := by
  funext k
  unfold after
  rw [show place (fun k => free k && decide (m ≤ place free k)) k = place free k - m from
    place_after free m k, Bool.and_assoc, ← Bool.decide_and]
  congr 2
  exact propext ⟨fun h => by omega, fun h => by omega⟩

/-- Taking the first free number. -/
theorem after_one {free : Nat → Bool} {k : Nat} (hk : Nth free 0 k) (j : Nat) :
    after free 1 j = (free j && decide (j ≠ k)) := by
  rw [after]
  by_cases hj : free j = true
  · congr 2
    refine propext ⟨fun h e => ?_, fun h => Nat.one_le_iff_ne_zero.mpr fun h0 => ?_⟩
    · rw [e, hk.2] at h
      omega
    · exact h (Nth.unique ⟨hj, h0⟩ hk)
  · rw [Bool.not_eq_true] at hj
    rw [hj, Bool.false_and, Bool.false_and]

end FirstFree
