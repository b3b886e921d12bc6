/-
Buckets of a list.

A list of `len` elements is cut into `parts` buckets at the whole parts of `b * (len / parts)`.
The buckets follow one another and cover the list.
-/
import Mathlib.Algebra.Order.Floor.Semifield
import Mathlib.Algebra.Order.Field.Rat
import Mathlib.Data.Rat.Floor
import Mathlib.Data.Nat.Find
import Mathlib.Order.Bounds.Defs

namespace Buckets

/-! ## Edges -/

/-- `Math.floor(b * (len / parts))`. -/
def edge (len parts b : Nat) : Nat := ⌊(b : Rat) * ((len : Rat) / parts)⌋₊

theorem edge_eq (len parts b : Nat) : edge len parts b = b * len / parts := by
  rw [edge, ← mul_div_assoc, ← Nat.cast_mul, Nat.floor_div_natCast, Nat.floor_natCast]

theorem edge_zero (len parts : Nat) : edge len parts 0 = 0 := by
  rw [edge_eq, Nat.zero_mul, Nat.zero_div]

theorem edge_parts (len : Nat) {parts : Nat} (h : 0 < parts) : edge len parts parts = len := by
  rw [edge_eq, Nat.mul_div_cancel_left len h]

theorem edge_mono (len parts : Nat) {b c : Nat} (h : b ≤ c) :
    edge len parts b ≤ edge len parts c := by
  rw [edge_eq, edge_eq]
  exact Nat.div_le_div_right (Nat.mul_le_mul_right len h)

/-- Every place of the list is between two edges. -/
theorem exists_bucket {len parts i : Nat} (hparts : 0 < parts) (hi : i < len) :
    ∃ b < parts, edge len parts b ≤ i ∧ i < edge len parts (b + 1) := by
  have hlast : i < edge len parts parts := by rwa [edge_parts len hparts]
  have hex : ∃ b, i < edge len parts b := ⟨parts, hlast⟩
  obtain ⟨b, hb⟩ : ∃ b, Nat.find hex = b + 1 := by
    refine Nat.exists_eq_succ_of_ne_zero fun hzero => ?_
    have h := Nat.find_spec hex
    rw [hzero, edge_zero] at h
    exact Nat.not_lt_zero i h
  refine ⟨b, ?_, ?_, ?_⟩
  · have hle := Nat.find_le (h := hex) hlast
    omega
  · exact Nat.not_lt.mp (Nat.find_min hex (by omega))
  · rw [← hb]
    exact Nat.find_spec hex

/-! ## The elements of a bucket -/

variable {α : Type}

/-- The elements from `start` on, up to `stop`, each with its place. -/
def slice (xs : List α) (start stop : Nat) : List (α × Nat) :=
  (xs.zipIdx.take stop).drop start

theorem mem_slice {xs : List α} {start stop : Nat} {e : α × Nat} :
    e ∈ slice xs start stop ↔ xs[e.2]? = some e.1 ∧ start ≤ e.2 ∧ e.2 < stop := by
  rw [slice, List.mem_iff_getElem?]
  constructor
  · rintro ⟨k, hk⟩
    rw [List.getElem?_drop, List.getElem?_take] at hk
    split_ifs at hk with hlt
    rw [List.getElem?_zipIdx] at hk
    obtain ⟨a, ha, rfl⟩ := Option.map_eq_some_iff.mp hk
    rw [Nat.zero_add]
    exact ⟨ha, by omega, hlt⟩
  · rintro ⟨ha, hstart, hstop⟩
    refine ⟨e.2 - start, ?_⟩
    rw [List.getElem?_drop, List.getElem?_take, Nat.add_sub_cancel' hstart, if_pos hstop,
      List.getElem?_zipIdx, ha, Option.map_some, Nat.zero_add]

/-! ## The best element -/

variable {K : Type} [LinearOrder K]

/-- The first element of the least key, from a candidate on. -/
def leastFrom (key : α → K) (m : α) (xs : List α) : α :=
  xs.foldl (fun m p => if key p < key m then p else m) m

theorem leastFrom_mem (key : α → K) (m : α) (xs : List α) : leastFrom key m xs ∈ m :: xs := by
  induction xs generalizing m with
  | nil => exact List.mem_cons_self
  | cons p xs ih =>
    rw [leastFrom, List.foldl_cons]
    rcases List.mem_cons.mp (ih (if key p < key m then p else m)) with h | h
    · rw [leastFrom] at h
      rw [h]
      split_ifs
      · exact List.mem_cons_of_mem _ List.mem_cons_self
      · exact List.mem_cons_self
    · exact List.mem_cons_of_mem _ (List.mem_cons_of_mem _ h)

theorem leastFrom_le (key : α → K) (m : α) (xs : List α) :
    ∀ p ∈ m :: xs, key (leastFrom key m xs) ≤ key p := by
  induction xs generalizing m with
  | nil =>
    intro p hp
    rw [List.mem_singleton.mp hp]
    exact le_rfl
  | cons q xs ih =>
    have hrest := ih (if key q < key m then q else m)
    have hfirst := hrest _ List.mem_cons_self
    rw [leastFrom, List.foldl_cons]
    intro p hp
    rcases List.mem_cons.mp hp with rfl | hp
    · refine hfirst.trans ?_
      split_ifs with h
      · exact h.le
      · exact le_rfl
    · rcases List.mem_cons.mp hp with rfl | hp
      · refine hfirst.trans ?_
        split_ifs with h
        · exact le_rfl
        · exact not_lt.mp h
      · exact hrest p (List.mem_cons_of_mem _ hp)

omit [LinearOrder K] in
/-- A part that goes below everything has the same least element. -/
theorem isLeast_iff_of_subset [PartialOrder K] {A B : Set K} (hsub : A ⊆ B)
    (hbelow : ∀ b ∈ B, ∃ a ∈ A, a ≤ b) (m : K) : IsLeast A m ↔ IsLeast B m := by
  constructor
  · rintro ⟨hm, hlow⟩
    refine ⟨hsub hm, fun b hb => ?_⟩
    obtain ⟨a, ha, hab⟩ := hbelow b hb
    exact (hlow ha).trans hab
  · rintro ⟨hm, hlow⟩
    obtain ⟨a, ha, ham⟩ := hbelow m hm
    have heq : a = m := le_antisymm ham (hlow (hsub ha))
    exact ⟨heq ▸ ha, fun b hb => hlow (hsub hb)⟩

omit [LinearOrder K] in
/-- A part that goes above everything has the same greatest element. -/
theorem isGreatest_iff_of_subset [PartialOrder K] {A B : Set K} (hsub : A ⊆ B)
    (habove : ∀ b ∈ B, ∃ a ∈ A, b ≤ a) (m : K) : IsGreatest A m ↔ IsGreatest B m :=
  isLeast_iff_of_subset (K := Kᵒᵈ) hsub habove m

end Buckets
