/-
Union-find over a parent map, with path compression and without ranks.

`Rooted m f` says that every element has a root in `m` and that `f` names it.
Looking an element up rewrites the map and keeps `f`; a union changes `f` to
`link f a b`.  A map built by unions names one root for each class of the
equivalence its pairs generate.  A union of the first element of a list with each
of the others joins the whole list.
-/
import CircuitForge.Js.Map
import Mathlib.Data.List.Perm.Subperm
import Mathlib.Logic.Relation

namespace UnionFind

open Js

variable {α : Type} [DecidableEq α]

/-- Looking up `x`: an unknown element becomes its own root, and the elements passed on
the way point to the root afterwards. -/
def findAux : Nat → Map α α → α → Map α α × α
  | 0, m, x => (m, x)
  | fuel + 1, m, x =>
    match m.get? x with
    | none => (m.set x x, x)
    | some p =>
      if p = x then (m, x)
      else
        let (m, r) := findAux fuel m p
        (m.set x r, r)

def find (m : Map α α) (x : α) : Map α α × α := findAux (m.length + 1) m x

def union (m : Map α α) (a b : α) : Map α α :=
  let (m, ra) := find m a
  let (m, rb) := find m b
  if ra ≠ rb then m.set ra rb else m

/-! ## Roots -/

/-- `r` is the root of `x`, `n` steps away. -/
inductive Root (m : Map α α) : α → α → Nat → Prop where
  | absent {x : α} (h : m.get? x = none) : Root m x x 0
  | self {x : α} (h : m.get? x = some x) : Root m x x 0
  | step {x p r : α} {n : Nat} (h : m.get? x = some p) (hne : p ≠ x) (hr : Root m p r n) :
      Root m x r (n + 1)

theorem Root.unique {m : Map α α} {x r s : α} {n k : Nat} (h : Root m x r n) (h' : Root m x s k) :
    r = s ∧ n = k := by
  induction h generalizing k with
  | absent h =>
    cases h' with
    | absent _ => exact ⟨rfl, rfl⟩
    | self h₁ => rw [h] at h₁; cases h₁
    | step h₁ _ _ => rw [h] at h₁; cases h₁
  | self h =>
    cases h' with
    | absent h₁ => rw [h] at h₁; cases h₁
    | self _ => exact ⟨rfl, rfl⟩
    | step h₁ hne _ =>
      rw [h] at h₁
      exact absurd (Option.some.inj h₁).symm hne
  | step h hne hr ih =>
    cases h' with
    | absent h₁ => rw [h] at h₁; cases h₁
    | self h₁ =>
      rw [h] at h₁
      exact absurd (Option.some.inj h₁) hne
    | step h₁ _ hr₁ =>
      rw [h] at h₁
      cases h₁
      obtain ⟨hrs, hnk⟩ := ih hr₁
      exact ⟨hrs, by rw [hnk]⟩

theorem Root.root {m : Map α α} {x r : α} {n : Nat} (h : Root m x r n) : Root m r r 0 := by
  induction h with
  | absent h => exact .absent h
  | self h => exact .self h
  | step _ _ _ ih => exact ih

/-- The elements on the way to a root are distinct keys. -/
theorem Root.path {m : Map α α} {x r : α} {n : Nat} (h : Root m x r n) :
    ∃ xs : List α, xs.length = n ∧ xs.Nodup ∧ xs ⊆ m.map Prod.fst ∧
      ∀ y ∈ xs, ∃ k s, Root m y s k ∧ k ≤ n := by
  induction h with
  | absent h => exact ⟨[], rfl, List.nodup_nil, List.nil_subset _, fun y hy => by cases hy⟩
  | self h => exact ⟨[], rfl, List.nodup_nil, List.nil_subset _, fun y hy => by cases hy⟩
  | @step x p r n h hne hr ih =>
    obtain ⟨xs, hlen, hnodup, hsub, hdepth⟩ := ih
    have hx : Root m x r (n + 1) := .step h hne hr
    refine ⟨x :: xs, by rw [List.length_cons, hlen], List.nodup_cons.mpr ⟨fun hmem => ?_, hnodup⟩,
      List.cons_subset.mpr ⟨List.mem_map_of_mem (Map.mem_of_get? h), hsub⟩, ?_⟩
    · obtain ⟨k, s, hy, hk⟩ := hdepth x hmem
      have := (hx.unique hy).2
      omega
    · refine List.forall_mem_cons.mpr ⟨⟨n + 1, r, hx, Nat.le_refl _⟩, fun y hy => ?_⟩
      obtain ⟨k, s, hy, hk⟩ := hdepth y hy
      exact ⟨k, s, hy, Nat.le_succ_of_le hk⟩

/-- No root is farther away than there are keys. -/
theorem Root.depth_le {m : Map α α} {x r : α} {n : Nat} (h : Root m x r n) : n ≤ m.length := by
  obtain ⟨xs, hlen, hnodup, hsub, -⟩ := h.path
  have := (hnodup.subperm hsub).length_le
  rwa [hlen, List.length_map] at this

/-- An element may point to its root at once. -/
theorem Root.compress {m : Map α α} {x r y s : α} {n k : Nat} (hx : Root m x r n)
    (hy : Root m y s k) : ∃ j, Root (m.set x r) y s j := by
  have hxr : ∃ j, Root (m.set x r) x r j := by
    by_cases hrx : r = x
    · rw [hrx]
      exact ⟨0, .self (Map.get?_set_self m x x)⟩
    · have hroot : Root (m.set x r) r r 0 := by
        cases hx.root with
        | absent h => exact .absent (by rwa [Map.get?_set_ne (Ne.symm hrx)])
        | self h => exact .self (by rwa [Map.get?_set_ne (Ne.symm hrx)])
      exact ⟨1, .step (Map.get?_set_self m x r) hrx hroot⟩
  induction hy with
  | @absent y h =>
    by_cases hyx : x = y
    · subst hyx
      obtain rfl := (hx.unique (.absent h)).1
      exact hxr
    · exact ⟨0, .absent (by rwa [Map.get?_set_ne hyx])⟩
  | @self y h =>
    by_cases hyx : x = y
    · subst hyx
      obtain rfl := (hx.unique (.self h)).1
      exact hxr
    · exact ⟨0, .self (by rwa [Map.get?_set_ne hyx])⟩
  | @step y p s k h hne hp ih =>
    by_cases hyx : x = y
    · subst hyx
      obtain rfl := (hx.unique (.step h hne hp)).1
      exact hxr
    · obtain ⟨j, hj⟩ := ih
      exact ⟨j + 1, .step (by rwa [Map.get?_set_ne hyx]) hne hj⟩

/-- A root that is made to point to another one takes its class along. -/
theorem Root.attach {m : Map α α} {a b y s : α} {k : Nat} (ha : Root m a a 0) (hb : Root m b b 0)
    (hne : a ≠ b) (hy : Root m y s k) : ∃ j, Root (m.set a b) y (if s = a then b else s) j := by
  have hroot : Root (m.set a b) b b 0 := by
    cases hb with
    | absent h => exact .absent (by rwa [Map.get?_set_ne hne])
    | self h => exact .self (by rwa [Map.get?_set_ne hne])
  have hab : Root (m.set a b) a b 1 := .step (Map.get?_set_self m a b) (Ne.symm hne) hroot
  induction hy with
  | @absent y h =>
    by_cases hya : y = a
    · subst hya
      rw [if_pos rfl]
      exact ⟨1, hab⟩
    · rw [if_neg hya]
      exact ⟨0, .absent (by rwa [Map.get?_set_ne (Ne.symm hya)])⟩
  | @self y h =>
    by_cases hya : y = a
    · subst hya
      rw [if_pos rfl]
      exact ⟨1, hab⟩
    · rw [if_neg hya]
      exact ⟨0, .self (by rwa [Map.get?_set_ne (Ne.symm hya)])⟩
  | @step y p s k h hne' hp ih =>
    have hya : a ≠ y := by
      rintro rfl
      have := (ha.unique (.step h hne' hp)).2
      omega
    obtain ⟨j, hj⟩ := ih
    exact ⟨j + 1, .step (by rwa [Map.get?_set_ne hya]) hne' hj⟩

/-! ## Lookup and union -/

/-- Every element has a root, and `f` names it. -/
def Rooted (m : Map α α) (f : α → α) : Prop := ∀ x, ∃ n, Root m x (f x) n

theorem rooted_nil : Rooted ([] : Map α α) id := fun _ => ⟨0, .absent rfl⟩

theorem findAux_spec {m : Map α α} {x r : α} {n fuel : Nat} (h : Root m x r n) (hf : n < fuel) :
    (findAux fuel m x).2 = r ∧ ∀ y s k, Root m y s k → ∃ j, Root (findAux fuel m x).1 y s j := by
  induction h generalizing fuel with
  | @absent x h =>
    obtain ⟨fuel, rfl⟩ := Nat.exists_eq_add_of_lt hf
    simp only [findAux, h]
    exact ⟨trivial, fun y s k hy => (Root.absent h).compress hy⟩
  | @self x h =>
    obtain ⟨fuel, rfl⟩ := Nat.exists_eq_add_of_lt hf
    simp only [Nat.zero_add, findAux, h, if_true]
    exact ⟨trivial, fun y s k hy => ⟨k, hy⟩⟩
  | @step x p r n h hne hr ih =>
    cases fuel with
    | zero => exact absurd hf (Nat.not_lt_zero _)
    | succ fuel =>
      obtain ⟨hroot, hkeep⟩ := ih (Nat.lt_of_succ_lt_succ hf)
      simp only [findAux, h, if_neg hne]
      refine ⟨hroot, fun y s k hy => ?_⟩
      obtain ⟨i, hxi⟩ := hkeep x r (n + 1) (.step h hne hr)
      obtain ⟨j, hyj⟩ := hkeep y s k hy
      rw [hroot]
      exact hxi.compress hyj

theorem find_rooted {m : Map α α} {f : α → α} (h : Rooted m f) (x : α) :
    (find m x).2 = f x ∧ Rooted (find m x).1 f := by
  obtain ⟨n, hx⟩ := h x
  obtain ⟨hroot, hkeep⟩ := findAux_spec hx
    (show n < m.length + 1 from Nat.lt_succ_of_le hx.depth_le)
  refine ⟨hroot, fun y => ?_⟩
  obtain ⟨k, hy⟩ := h y
  exact hkeep y (f y) k hy

/-- The class of `a` is named by the root of `b`. -/
def link (f : α → α) (a b x : α) : α := if f x = f a then f b else f x

theorem link_of_eq {f : α → α} {a b : α} (h : f a = f b) : link f a b = f := by
  funext x
  unfold link
  split
  · rename_i hx
    rw [hx, h]
  · rfl

theorem union_rooted {m : Map α α} {f : α → α} (h : Rooted m f) (a b : α) :
    Rooted (union m a b) (link f a b) := by
  obtain ⟨ha, h₁⟩ := find_rooted h a
  obtain ⟨hb, h₂⟩ := find_rooted h₁ b
  simp only [union, ha, hb]
  by_cases hab : f a = f b
  · rw [if_neg (not_not.mpr hab), link_of_eq hab]
    exact h₂
  · rw [if_pos hab]
    intro y
    obtain ⟨_, hra⟩ := h₂ a
    obtain ⟨_, hrb⟩ := h₂ b
    obtain ⟨_, hy⟩ := h₂ y
    exact hra.root.attach hrb.root hab hy

/-! ## Classes -/

/-- `f` names one root for each class of the equivalence `r` generates. -/
def Names (f : α → α) (r : α → α → Prop) : Prop := ∀ x y, f x = f y ↔ Relation.EqvGen r x y

omit [DecidableEq α] in
theorem names_id : Names (id : α → α) fun _ _ => False := by
  intro x y
  constructor
  · rintro rfl
    exact .refl _
  · intro h
    induction h with
    | rel _ _ h => exact h.elim
    | refl _ => rfl
    | symm _ _ _ ih => exact ih.symm
    | trans _ _ _ _ _ ih₁ ih₂ => exact ih₁.trans ih₂

theorem link_eq_iff {f : α → α} {a b x y : α} :
    link f a b x = link f a b y ↔
      f x = f y ∨ (f x = f a ∧ f y = f b) ∨ (f x = f b ∧ f y = f a) := by
  unfold link
  by_cases hx : f x = f a <;> by_cases hy : f y = f a
  · rw [if_pos hx, if_pos hy]
    exact ⟨fun _ => Or.inl (hx.trans hy.symm), fun _ => rfl⟩
  · rw [if_pos hx, if_neg hy]
    constructor
    · exact fun h => Or.inr (Or.inl ⟨hx, h.symm⟩)
    · rintro (h | ⟨_, h⟩ | ⟨_, h⟩)
      · exact absurd (h.symm.trans hx) hy
      · exact h.symm
      · exact absurd h hy
  · rw [if_neg hx, if_pos hy]
    constructor
    · exact fun h => Or.inr (Or.inr ⟨h, hy⟩)
    · rintro (h | ⟨h, _⟩ | ⟨h, _⟩)
      · exact absurd (h.trans hy) hx
      · exact absurd h hx
      · exact h
  · rw [if_neg hx, if_neg hy]
    constructor
    · exact Or.inl
    · rintro (h | ⟨h, _⟩ | ⟨_, h⟩)
      · exact h
      · exact absurd h hx
      · exact absurd h hy

/-- A union joins two classes and leaves the others. -/
theorem Names.link {f : α → α} {r : α → α → Prop} (h : Names f r) (a b : α) :
    Names (link f a b) fun x y => r x y ∨ (x = a ∧ y = b) := by
  have hmono : ∀ {x y}, f x = f y → Relation.EqvGen (fun x y => r x y ∨ (x = a ∧ y = b)) x y :=
    fun hxy => ((h _ _).mp hxy).mono fun _ _ => Or.inl
  have hab : Relation.EqvGen (fun x y => r x y ∨ (x = a ∧ y = b)) a b :=
    .rel _ _ (Or.inr ⟨rfl, rfl⟩)
  intro x y
  rw [link_eq_iff]
  constructor
  · rintro (hxy | ⟨hxa, hyb⟩ | ⟨hxb, hya⟩)
    · exact hmono hxy
    · exact (hmono hxa).trans _ _ _ (hab.trans _ _ _ (hmono hyb).symm)
    · exact (hmono hxb).trans _ _ _ ((hab.symm _ _).trans _ _ _ (hmono hya).symm)
  · intro hxy
    rw [← link_eq_iff]
    induction hxy with
    | rel x y hr =>
      rw [link_eq_iff]
      rcases hr with hr | ⟨rfl, rfl⟩
      · exact Or.inl ((h x y).mpr (.rel _ _ hr))
      · exact Or.inr (Or.inl ⟨rfl, rfl⟩)
    | refl _ => rfl
    | symm _ _ _ ih => exact ih.symm
    | trans _ _ _ _ _ ih₁ ih₂ => exact ih₁.trans ih₂

/-- The unions of a list of pairs. -/
def unions (pairs : List (α × α)) (m : Map α α) : Map α α :=
  pairs.foldl (fun m e => union m e.1 e.2) m

omit [DecidableEq α] in
theorem Names.congr {f : α → α} {r r' : α → α → Prop} (h : Names f r)
    (hr : ∀ x y, r x y ↔ r' x y) : Names f r' := by
  have : r = r' := by
    funext x y
    exact propext (hr x y)
  rwa [← this]

theorem unions_rooted {m : Map α α} {f : α → α} {r : α → α → Prop} (hm : Rooted m f)
    (hf : Names f r) (pairs : List (α × α)) :
    ∃ g, Rooted (unions pairs m) g ∧ Names g fun x y => r x y ∨ (x, y) ∈ pairs := by
  induction pairs generalizing m f r with
  | nil => exact ⟨f, hm, hf.congr fun x y => by simp⟩
  | cons e pairs ih =>
    obtain ⟨g, hg, hn⟩ := ih (union_rooted hm e.1 e.2) (hf.link e.1 e.2)
    refine ⟨g, hg, hn.congr fun x y => ?_⟩
    rw [List.mem_cons, or_assoc, Prod.ext_iff]

end UnionFind

/-! ## Equivalences generated by lists -/

namespace Classes

open Relation

variable {α : Type}

/-- The first element paired with each of the others. -/
def star : List α → List (α × α)
  | [] => []
  | first :: rest => rest.map fun x => (first, x)

theorem mem_star {xs : List α} {x y : α} (h : (x, y) ∈ star xs) : x ∈ xs ∧ y ∈ xs := by
  cases xs with
  | nil => cases h
  | cons first rest =>
    obtain ⟨z, hz, he⟩ := List.mem_map.mp h
    cases he
    exact ⟨List.mem_cons_self, List.mem_cons_of_mem _ hz⟩

theorem eqvGen_star {xs : List α} {x y : α} (hx : x ∈ xs) (hy : y ∈ xs) :
    EqvGen (fun x y => (x, y) ∈ star xs) x y := by
  cases xs with
  | nil => cases hx
  | cons first rest =>
    have hfirst : ∀ z ∈ first :: rest,
        EqvGen (fun x y => (x, y) ∈ star (first :: rest)) first z := by
      intro z hz
      rcases List.mem_cons.mp hz with rfl | hz
      · exact .refl _
      · exact .rel _ _ (List.mem_map_of_mem hz)
    exact ((hfirst x hx).symm).trans _ _ _ (hfirst y hy)

/-- An equivalence that holds of a relation holds of what the relation generates. -/
theorem eqvGen_le {r s : α → α → Prop} (h : ∀ x y, r x y → EqvGen s x y) {x y : α}
    (hxy : EqvGen r x y) : EqvGen s x y := by
  induction hxy with
  | rel x y hr => exact h x y hr
  | refl x => exact .refl x
  | symm x y _ ih => exact ih.symm
  | trans x y z _ _ ih₁ ih₂ => exact ih₁.trans _ _ _ ih₂

/-- The stars of some lists join exactly what shares a list. -/
theorem eqvGen_stars {lists : List (List α)} {x y : α} :
    EqvGen (fun x y => (x, y) ∈ lists.flatMap star) x y ↔
      EqvGen (fun x y => ∃ xs ∈ lists, x ∈ xs ∧ y ∈ xs) x y := by
  constructor
  · refine eqvGen_le fun x y h => .rel _ _ ?_
    obtain ⟨xs, hxs, h⟩ := List.mem_flatMap.mp h
    exact ⟨xs, hxs, mem_star h⟩
  · refine eqvGen_le ?_
    rintro x y ⟨xs, hxs, hx, hy⟩
    exact (eqvGen_star hx hy).mono fun x y h => List.mem_flatMap.mpr ⟨xs, hxs, h⟩

variable [DecidableEq α]

/-- The root of an element after all unions of some pairs. -/
def root (pairs : List (α × α)) (x : α) : α :=
  (UnionFind.find (UnionFind.unions pairs []) x).2

theorem root_eq_iff {pairs : List (α × α)} {x y : α} :
    root pairs x = root pairs y ↔ EqvGen (fun x y => (x, y) ∈ pairs) x y := by
  obtain ⟨f, hf, hn⟩ := UnionFind.unions_rooted UnionFind.rooted_nil UnionFind.names_id pairs
  rw [root, root, (UnionFind.find_rooted hf x).1, (UnionFind.find_rooted hf y).1, hn]
  simp only [false_or]

omit [DecidableEq α] in
/-- The groups of a list by a key have no element in common. -/
theorem disjoint_groups {κ : Type} [DecidableEq κ] (k : α → κ) (xs : List α) :
    ((Js.Map.group k xs).map Prod.snd).Pairwise List.Disjoint := by
  have hkeys : (Js.Map.group k xs).Pairwise fun e e' => e.1 ≠ e'.1 :=
    List.pairwise_map.mp (Js.Map.keyed_group k xs)
  refine List.pairwise_map.mpr (hkeys.imp_of_mem fun {e e'} he he' hne x hx hx' => hne ?_)
  rw [(Js.Map.mem_group he).2, List.mem_filter, decide_eq_true_eq] at hx
  rw [(Js.Map.mem_group he').2, List.mem_filter, decide_eq_true_eq] at hx'
  exact hx.2.symm.trans hx'.2

end Classes
