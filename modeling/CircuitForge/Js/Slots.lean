/-
Lists whose places are changed one after the other.
-/
import Mathlib.Data.List.GetD
import Mathlib.Data.List.Nodup
import Mathlib.Data.List.Perm.Basic

namespace Slots

variable {α : Type}

/-- The value at a place is replaced by its image. -/
def put (f : α → α) (d : α) (xs : List α) (i : Nat) : List α := xs.set i (f (xs.getD i d))

theorem length_put (f : α → α) (d : α) (xs : List α) (i : Nat) :
    (put f d xs i).length = xs.length := List.length_set

theorem getD_put {f : α → α} {d : α} {xs : List α} {i : Nat} (hi : i < xs.length) (j : Nat) :
    (put f d xs i).getD j d = if j = i then f (xs.getD j d) else xs.getD j d := by
  by_cases h : j = i
  · subst h
    rw [if_pos rfl, List.getD_eq_getElem?_getD, put, List.getElem?_set_self hi,
      Option.getD_some]
  · rw [if_neg h, List.getD_eq_getElem?_getD, put, List.getElem?_set_ne (Ne.symm h),
      ← List.getD_eq_getElem?_getD]

theorem length_foldl_put (f : α → α) (d : α) (is : List Nat) (xs : List α) :
    (is.foldl (put f d) xs).length = xs.length := by
  induction is generalizing xs with
  | nil => rfl
  | cons i is ih => rw [List.foldl_cons, ih, length_put]

/-- Where no place is visited twice, or a second visit changes nothing, the places that are
visited hold the images. -/
theorem getD_foldl_put {f : α → α} {d : α} {is : List Nat}
    (hf : is.Nodup ∨ ∀ x, f (f x) = f x) {xs : List α} (his : ∀ i ∈ is, i < xs.length) (j : Nat) :
    (is.foldl (put f d) xs).getD j d = if j ∈ is then f (xs.getD j d) else xs.getD j d := by
  induction is generalizing xs with
  | nil => rfl
  | cons i is ih =>
    obtain ⟨hlt, his⟩ := List.forall_mem_cons.mp his
    rw [List.foldl_cons, ih (hf.imp_left List.Nodup.of_cons) (by rwa [length_put]),
      getD_put hlt]
    by_cases hj : j = i
    · subst hj
      rw [if_pos rfl, if_pos List.mem_cons_self]
      by_cases hmem : j ∈ is
      · have hidem := hf.resolve_left fun h => (List.nodup_cons.mp h).1 hmem
        rw [if_pos hmem, hidem]
      · rw [if_neg hmem]
    · rw [if_neg hj]
      exact if_congr (by rw [List.mem_cons, or_iff_right hj]) rfl rfl

end Slots
