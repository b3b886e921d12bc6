/-
Texts written by a code and joined by a separator.

The words of a code can be told apart at the head of a text, so what a code writes can be read
back; where no word holds the separator, so can the joined pieces.
-/
import Mathlib.Data.List.Basic

namespace Codes

variable {α β : Type}

/-- No word is empty, and the word at the head of a text says which one it is. -/
structure IsCode (word : α → List β) : Prop where
  nonempty : ∀ a, word a ≠ []
  decodes : ∀ {a b s t}, word a ++ s = word b ++ t → a = b

theorem IsCode.flatMap_injective {word : α → List β} (h : IsCode word) :
    Function.Injective (List.flatMap word) := by
  intro xs
  induction xs with
  | nil =>
    intro ys hys
    cases ys with
    | nil => rfl
    | cons y ys => exact absurd (List.append_eq_nil_iff.mp hys.symm).1 (h.nonempty y)
  | cons x xs ih =>
    intro ys hys
    cases ys with
    | nil => exact absurd (List.append_eq_nil_iff.mp hys).1 (h.nonempty x)
    | cons y ys =>
      have hys : word x ++ xs.flatMap word = word y ++ ys.flatMap word := hys
      obtain rfl := h.decodes hys
      rw [ih (List.append_cancel_left hys)]

/-- Lists of texts that are not empty are told apart by the joined text. -/
theorem IsCode.joined_injective [BEq β] [LawfulBEq β] {word : α → List β} (h : IsCode word)
    {sep : β} (hsep : ∀ a, sep ∉ word a) {xs ys : List (List α)} (hxs : xs ≠ []) (hys : ys ≠ [])
    (heq : [sep].intercalate (xs.map (List.flatMap word)) =
      [sep].intercalate (ys.map (List.flatMap word))) : xs = ys := by
  have hfree : ∀ (zs : List (List α)), ∀ l ∈ zs.map (List.flatMap word), sep ∉ l := by
    intro zs l hl hmem
    obtain ⟨z, -, rfl⟩ := List.mem_map.mp hl
    obtain ⟨a, -, ha⟩ := List.mem_flatMap.mp hmem
    exact hsep a ha
  have hsplit := congrArg (List.splitOn sep) heq
  rw [List.splitOn_intercalate sep (hfree xs) (by simpa using hxs),
    List.splitOn_intercalate sep (hfree ys) (by simpa using hys)] at hsplit
  exact List.map_injective_iff.mpr h.flatMap_injective hsplit

end Codes
