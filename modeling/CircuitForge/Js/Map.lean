/-
Insertion-ordered maps.

A `Map` is the entry list of a JavaScript `Map`: keys are distinct in every map
built by `set` from the empty one, an update keeps the place of its key, and a
new key goes to the end.
-/
import Mathlib.Data.List.Basic
import Mathlib.Data.List.Induction
import Mathlib.Data.List.Nodup
import Mathlib.Tactic.Common

namespace Js

abbrev Map (κ β : Type) := List (κ × β)

namespace Map

variable {κ β α : Type} [DecidableEq κ]

def get? : Map κ β → κ → Option β
  | [], _ => none
  | (k', v) :: m, k => if k' = k then some v else get? m k

def set : Map κ β → κ → β → Map κ β
  | [], k, v => [(k, v)]
  | (k', v') :: m, k, v => if k' = k then (k', v) :: m else (k', v') :: set m k v

/-- `m.has(k)`. -/
def has (m : Map κ β) (k : κ) : Bool := (m.get? k).isSome

@[simp] theorem get?_nil (k : κ) : get? ([] : Map κ β) k = none := rfl

theorem get?_cons (k' : κ) (v : β) (m : Map κ β) (k : κ) :
    get? ((k', v) :: m) k = if k' = k then some v else get? m k := rfl

@[simp] theorem get?_set_self (m : Map κ β) (k : κ) (v : β) : (m.set k v).get? k = some v := by
  induction m with
  | nil => simp [set, get?]
  | cons e m ih =>
    obtain ⟨k', v'⟩ := e
    by_cases h : k' = k
    · simp [set, get?, h]
    · simp [set, get?, h, ih]

theorem get?_set_ne {k k' : κ} (h : k ≠ k') (m : Map κ β) (v : β) :
    (m.set k v).get? k' = m.get? k' := by
  induction m with
  | nil => simp [set, get?, h]
  | cons e m ih =>
    obtain ⟨k₁, v₁⟩ := e
    by_cases h₁ : k₁ = k
    · subst h₁
      simp [set, get?, h]
    · by_cases h₂ : k₁ = k'
      · subst h₂
        rw [set, if_neg h₁, get?_cons, get?_cons, if_pos rfl, if_pos rfl]
      · rw [set, if_neg h₁, get?_cons, get?_cons, if_neg h₂, if_neg h₂, ih]

theorem get?_set (m : Map κ β) (k k' : κ) (v : β) :
    (m.set k v).get? k' = if k = k' then some v else m.get? k' := by
  by_cases h : k = k'
  · subst h
    simp
  · rw [get?_set_ne h, if_neg h]

theorem mem_of_get? {m : Map κ β} {k : κ} {v : β} (h : m.get? k = some v) : (k, v) ∈ m := by
  induction m with
  | nil => simp at h
  | cons e m ih =>
    obtain ⟨k', v'⟩ := e
    rw [get?_cons] at h
    by_cases hk : k' = k
    · rw [if_pos hk] at h
      simp_all
    · rw [if_neg hk] at h
      exact List.mem_cons_of_mem _ (ih h)

/-- A value stored by `set` is the new one or was there before. -/
theorem mem_set {m : Map κ β} {k : κ} {v : β} {e : κ × β} (h : e ∈ m.set k v) :
    e = (k, v) ∨ e ∈ m := by
  induction m with
  | nil => exact Or.inl (by simpa [set] using h)
  | cons a m ih =>
    obtain ⟨k', v'⟩ := a
    by_cases hk : k' = k
    · subst hk
      rw [set, if_pos rfl, List.mem_cons] at h
      rcases h with h | h
      · exact Or.inl h
      · exact Or.inr (List.mem_cons_of_mem _ h)
    · rw [set, if_neg hk, List.mem_cons] at h
      rcases h with h | h
      · exact Or.inr (h ▸ List.mem_cons_self)
      · rcases ih h with h | h
        · exact Or.inl h
        · exact Or.inr (List.mem_cons_of_mem _ h)

/-- The map keeps distinct keys. -/
def Keyed (m : Map κ β) : Prop := (m.map Prod.fst).Nodup

theorem keys_set (m : Map κ β) (k : κ) (v : β) :
    (m.set k v).map Prod.fst =
      if k ∈ m.map Prod.fst then m.map Prod.fst else m.map Prod.fst ++ [k] := by
  induction m with
  | nil => simp [set]
  | cons e m ih =>
    obtain ⟨k', v'⟩ := e
    by_cases hk : k' = k
    · simp [set, hk]
    · rw [set, if_neg hk, List.map_cons, ih]
      have : k ≠ k' := fun e => hk e.symm
      by_cases hm : k ∈ m.map Prod.fst
      · rw [if_pos hm, List.map_cons, if_pos (List.mem_cons_of_mem _ hm)]
      · rw [if_neg hm, List.map_cons, if_neg (by simp [this, hm]), List.cons_append]

theorem set_of_notMem {m : Map κ β} {k : κ} (h : k ∉ m.map Prod.fst) (v : β) :
    m.set k v = m ++ [(k, v)] := by
  induction m with
  | nil => rfl
  | cons e m ih =>
    obtain ⟨k', v'⟩ := e
    rw [List.map_cons, List.mem_cons, not_or] at h
    rw [set, if_neg fun e => h.1 e.symm, ih h.2, List.cons_append]

omit [DecidableEq κ] in
theorem Keyed.nil : Keyed ([] : Map κ β) := List.nodup_nil

theorem Keyed.set {m : Map κ β} (h : m.Keyed) (k : κ) (v : β) : (m.set k v).Keyed := by
  unfold Keyed at *
  rw [keys_set]
  split
  · exact h
  · rename_i hk
    refine List.nodup_append.mpr ⟨h, by simp, fun a ha b hb => ?_⟩
    rw [List.mem_singleton] at hb
    subst hb
    exact fun e => hk (e ▸ ha)

theorem get?_of_mem {m : Map κ β} (h : m.Keyed) {k : κ} {v : β} (hm : (k, v) ∈ m) :
    m.get? k = some v := by
  induction m with
  | nil => simp at hm
  | cons e m ih =>
    obtain ⟨k', v'⟩ := e
    rw [Keyed, List.map_cons, List.nodup_cons] at h
    rcases List.mem_cons.mp hm with he | hm
    · cases he
      simp [get?]
    · have hk : k' ≠ k := by
        rintro rfl
        exact h.1 (List.mem_map.mpr ⟨_, hm, rfl⟩)
      rw [get?_cons, if_neg hk]
      exact ih h.2 hm

theorem get?_eq_none_iff {m : Map κ β} {k : κ} : m.get? k = none ↔ k ∉ m.map Prod.fst := by
  induction m with
  | nil => simp
  | cons e m ih =>
    obtain ⟨k', v'⟩ := e
    rw [get?_cons]
    by_cases hk : k' = k
    · simp [hk]
    · have : k ≠ k' := fun e => hk e.symm
      rw [if_neg hk, ih, List.map_cons, List.mem_cons, not_or]
      exact ⟨fun h => ⟨this, h⟩, fun h => h.2⟩

/-! ## Maps filled from a list -/

/-- `for (const x of xs) m.set(k(x), v(x))`. -/
def fill (k : α → κ) (v : α → β) (xs : List α) (m : Map κ β) : Map κ β :=
  xs.foldl (fun m x => m.set (k x) (v x)) m

theorem fill_nil (k : α → κ) (v : α → β) (m : Map κ β) : fill k v [] m = m := rfl

theorem fill_cons (k : α → κ) (v : α → β) (x : α) (xs : List α) (m : Map κ β) :
    fill k v (x :: xs) m = fill k v xs (m.set (k x) (v x)) := rfl

theorem fill_append (k : α → κ) (v : α → β) (xs ys : List α) (m : Map κ β) :
    fill k v (xs ++ ys) m = fill k v ys (fill k v xs m) := List.foldl_append

/-- The last entry of a key wins. -/
theorem get?_fill (k : α → κ) (v : α → β) (xs : List α) (m : Map κ β) (a : κ) :
    (fill k v xs m).get? a =
      ((xs.reverse.find? (fun x => k x = a)).map v).or (m.get? a) := by
  induction xs generalizing m with
  | nil => simp [fill_nil]
  | cons x xs ih =>
    rw [fill_cons, ih, List.reverse_cons, List.find?_append]
    cases hf : xs.reverse.find? (fun y => decide (k y = a)) with
    | some y => simp
    | none =>
      by_cases h : k x = a
      · simp [h]
      · simp [h, get?_set_ne h]

/-- One value stored under every key of a list. -/
theorem get?_fill_const (keys : List κ) (d : β) (m : Map κ β) (a : κ) :
    (fill id (fun _ => d) keys m).get? a = if a ∈ keys then some d else m.get? a := by
  induction keys generalizing m with
  | nil => simp [fill_nil]
  | cons k keys ih =>
    rw [fill_cons, ih, id, get?_set]
    by_cases ha : a ∈ keys
    · rw [if_pos ha, if_pos (List.mem_cons_of_mem _ ha)]
    · by_cases hk : k = a
      · subst hk
        rw [if_neg ha, if_pos rfl, if_pos List.mem_cons_self]
      · have : a ∉ k :: keys := by
          rw [List.mem_cons, not_or]
          exact ⟨fun e => hk e.symm, ha⟩
        rw [if_neg ha, if_neg hk, if_neg this]

theorem Keyed.fill {m : Map κ β} (h : m.Keyed) (k : α → κ) (v : α → β) (xs : List α) :
    (Map.fill k v xs m).Keyed := by
  induction xs generalizing m with
  | nil => exact h
  | cons x xs ih => exact ih (h.set (k x) (v x))

theorem mem_fill {k : α → κ} {v : α → β} {xs : List α} {m : Map κ β} {e : κ × β}
    (h : e ∈ fill k v xs m) : (∃ x ∈ xs, e = (k x, v x)) ∨ e ∈ m := by
  induction xs generalizing m with
  | nil => exact Or.inr h
  | cons x xs ih =>
    rcases ih h with ⟨y, hy, he⟩ | h
    · exact Or.inl ⟨y, List.mem_cons_of_mem _ hy, he⟩
    · rcases mem_set h with h | h
      · exact Or.inl ⟨x, List.mem_cons_self, h⟩
      · exact Or.inr h

/-- Where the entries of a key agree, it is looked up there. -/
theorem get?_fill_of_agree {k : α → κ} {v : α → β} {xs : List α} {x : α} (hx : x ∈ xs)
    (h : ∀ y ∈ xs, k y = k x → v y = v x) (m : Map κ β) :
    (fill k v xs m).get? (k x) = some (v x) := by
  rw [get?_fill]
  cases hfind : xs.reverse.find? (fun y => decide (k y = k x)) with
  | none =>
    have hnone := List.find?_eq_none.mp hfind x (List.mem_reverse.mpr hx)
    exact absurd (decide_eq_true rfl) hnone
  | some y =>
    have hmem := List.mem_reverse.mp (List.mem_of_find?_eq_some hfind)
    have hkey := List.find?_some hfind
    rw [Option.map_some, h y hmem (of_decide_eq_true hkey), Option.some_or]

/-- With distinct keys an entry of the list is an entry of the map. -/
theorem get?_fill_of_nodup {k : α → κ} {v : α → β} {xs : List α} (hn : (xs.map k).Nodup)
    {x : α} (hx : x ∈ xs) (m : Map κ β) : (fill k v xs m).get? (k x) = some (v x) :=
  get?_fill_of_agree hx (fun y hy hk => by rw [List.inj_on_of_nodup_map hn hy hx hk]) m

/-- With distinct new keys the entries are the list. -/
theorem fill_of_nodup {k : α → κ} {v : α → β} {xs : List α} (hn : (xs.map k).Nodup)
    {m : Map κ β} (hm : ∀ x ∈ xs, k x ∉ m.map Prod.fst) :
    fill k v xs m = m ++ xs.map fun x => (k x, v x) := by
  induction xs generalizing m with
  | nil => rw [fill_nil, List.map_nil, List.append_nil]
  | cons x xs ih =>
    rw [List.map_cons, List.nodup_cons] at hn
    rw [fill_cons, set_of_notMem (hm x List.mem_cons_self), ih hn.2, List.map_cons,
      List.append_assoc, List.singleton_append]
    intro y hy
    rw [List.map_append, List.mem_append, not_or]
    refine ⟨hm y (List.mem_cons_of_mem _ hy), fun e => ?_⟩
    have hxy : k y = k x := List.mem_singleton.mp e
    exact hn.1 (hxy ▸ List.mem_map_of_mem hy)

/-! ## Maps of groups -/

/-- `for (const x of xs) m.set(k(x), [...(m.get(k(x)) ?? []), x])`. -/
def group (k : α → κ) (xs : List α) : Map κ (List α) :=
  xs.foldl (fun m x => m.set (k x) ((m.get? (k x)).getD [] ++ [x])) []

theorem group_concat (k : α → κ) (xs : List α) (x : α) :
    group k (xs ++ [x]) = (group k xs).set (k x) (((group k xs).get? (k x)).getD [] ++ [x]) :=
  List.foldl_concat ..

theorem keyed_group (k : α → κ) (xs : List α) : (group k xs).Keyed := by
  induction xs using List.reverseRecOn with
  | nil => exact Keyed.nil
  | append_singleton xs x ih =>
    rw [group_concat]
    exact ih.set _ _

/-- A group holds the elements of its key, in order. -/
theorem get?_group (k : α → κ) (xs : List α) (a : κ) :
    (group k xs).get? a = if a ∈ xs.map k then some (xs.filter (k · = a)) else none := by
  induction xs using List.reverseRecOn with
  | nil => rfl
  | append_singleton xs x ih =>
    rw [group_concat, get?_set, List.map_append, List.filter_append]
    by_cases hx : k x = a
    · subst hx
      have hlast : k x ∈ xs.map k ++ [x].map k :=
        List.mem_append_right _ (List.mem_singleton_self _)
      rw [if_pos rfl, if_pos hlast, ih]
      congr 1
      by_cases hm : k x ∈ xs.map k
      · rw [if_pos hm, Option.getD_some]
        simp
      · rw [if_neg hm, Option.getD_none]
        have hnone : xs.filter (k · = k x) = [] := by
          rw [List.filter_eq_nil_iff]
          intro y hy he
          rw [decide_eq_true_eq] at he
          exact hm (he ▸ List.mem_map_of_mem hy)
        rw [hnone]
        simp
    · have hlast : [x].filter (k · = a) = [] := by simp [hx]
      have hmem : (a ∈ xs.map k ++ [x].map k) ↔ a ∈ xs.map k := by
        simp [Ne.symm hx]
      rw [if_neg hx, ih, hlast, List.append_nil]
      simp only [hmem]

theorem mem_group {k : α → κ} {xs : List α} {a : κ} {ys : List α} (h : (a, ys) ∈ group k xs) :
    a ∈ xs.map k ∧ ys = xs.filter (k · = a) := by
  have hget := get?_of_mem (keyed_group k xs) h
  rw [get?_group] at hget
  by_cases ha : a ∈ xs.map k
  · rw [if_pos ha] at hget
    exact ⟨ha, (Option.some.inj hget).symm⟩
  · rw [if_neg ha] at hget
    cases hget

/-- Every element is in the group of its key. -/
theorem exists_group {k : α → κ} {xs : List α} {x : α} (h : x ∈ xs) :
    ∃ ys, (k x, ys) ∈ group k xs ∧ x ∈ ys := by
  refine ⟨xs.filter (k · = k x), mem_of_get? ?_, List.mem_filter.mpr ⟨h, by simp⟩⟩
  rw [get?_group, if_pos (List.mem_map_of_mem h)]

end Map

/-- The element with a key, where keys occur once. -/
theorem find?_of_key {α κ : Type} [DecidableEq κ] {xs : List α} {key : α → κ}
    (h : (xs.map key).Nodup) {x : α} (hx : x ∈ xs) :
    xs.find? (fun y => key y = key x) = some x := by
  cases hf : xs.find? (fun y => key y = key x) with
  | none => exact absurd (decide_eq_true rfl) (List.find?_eq_none.mp hf x hx)
  | some y =>
    rw [List.inj_on_of_nodup_map h (List.mem_of_find?_eq_some hf) hx
      (by simpa using List.find?_some hf)]

end Js
