/-
An index of cells.

An item is put into the bucket of every cell it covers, or into one spare bucket when it covers too
many; a query asks the buckets of its own cells and the spare one, or all of them when it covers too
many.  A test that only holds of items with a cell in common with the query has the same answer over
what the index gives as over all items.

Items are kept apart by their position in the list they come from.
-/
import CircuitForge.Js.Map

namespace CellIndex

open Js

variable {κ α : Type} [DecidableEq κ] [DecidableEq α]

/-- The buckets, by cell. -/
abbrev Grid (κ α : Type) := Map κ (List α)

def bucket (grid : Grid κ α) (k : κ) : List α := (grid.get? k).getD []

def put (grid : Grid κ α) (k : κ) (v : α) : Grid κ α := grid.set k (bucket grid k ++ [v])

/-- An item put under every key. -/
def putAll (grid : Grid κ α) (ks : List κ) (v : α) : Grid κ α := ks.foldl (fun g k => put g k v) grid

/-- The items of some buckets, or of all. -/
def gather (grid : Grid κ α) : Option (List κ) → List α
  | none => (grid.flatMap Prod.snd).eraseDups
  | some ks => (ks.flatMap (bucket grid)).eraseDups

/-- The items of the cells of a query and of the spare bucket. -/
def near (spare : κ) (grid : Grid κ α) : Option (List κ) → List α
  | none => gather grid none
  | some ks => gather grid (some ks) ++ bucket grid spare

/-! ## Buckets -/

omit [DecidableEq α] in
theorem bucket_put (grid : Grid κ α) (k k' : κ) (v : α) :
    bucket (put grid k v) k' = bucket grid k' ++ if k = k' then [v] else [] := by
  rw [bucket, put, Map.get?_set]
  by_cases h : k = k'
  · subst h
    rw [if_pos rfl, if_pos rfl, Option.getD_some]
  · rw [if_neg h, if_neg h, List.append_nil, bucket]

omit [DecidableEq α] in
theorem bucket_putAll (grid : Grid κ α) (ks : List κ) (k : κ) (v : α) :
    bucket (putAll grid ks v) k = bucket grid k ++ (ks.filter (· = k)).map fun _ => v := by
  induction ks generalizing grid with
  | nil => rw [putAll, List.foldl_nil, List.filter_nil, List.map_nil, List.append_nil]
  | cons k' ks ih =>
    rw [putAll, List.foldl_cons, ← putAll, ih, bucket_put, List.append_assoc]
    by_cases h : k' = k
    · rw [if_pos h, List.filter_cons_of_pos (by simpa using h), List.map_cons,
        List.singleton_append]
    · rw [if_neg h, List.filter_cons_of_neg (by simpa using h), List.nil_append]

omit [DecidableEq α] in
theorem keyed_putAll {grid : Grid κ α} (h : grid.Keyed) (ks : List κ) (v : α) :
    (putAll grid ks v).Keyed := by
  induction ks generalizing grid with
  | nil => exact h
  | cons k ks ih => exact ih (h.set _ _)

/-! ## Items that are put one after the other -/

variable (cells : α → Option (List κ)) (spare : κ)

/-- The keys of an item. -/
def keysOf (v : α) : List κ := (cells v).getD [spare]

def fill (vs : List α) (grid : Grid κ α) : Grid κ α :=
  vs.foldl (fun g v => putAll g (keysOf cells spare v) v) grid

omit [DecidableEq α] in
theorem bucket_fill (vs : List α) (grid : Grid κ α) (k : κ) :
    bucket (fill cells spare vs grid) k =
      bucket grid k ++ vs.flatMap fun v => ((keysOf cells spare v).filter (· = k)).map fun _ => v := by
  induction vs generalizing grid with
  | nil => rw [fill, List.foldl_nil, List.flatMap_nil, List.append_nil]
  | cons v vs ih =>
    rw [fill, List.foldl_cons, ← fill, ih, bucket_putAll, List.append_assoc, List.flatMap_cons]

omit [DecidableEq α] in
theorem keyed_fill {grid : Grid κ α} (h : grid.Keyed) (vs : List α) :
    (fill cells spare vs grid).Keyed := by
  induction vs generalizing grid with
  | nil => exact h
  | cons v vs ih => exact ih (keyed_putAll h _ v)

variable {cells spare}

omit [DecidableEq α] in
theorem mem_bucket_fill {vs : List α} {k : κ} {v : α} :
    v ∈ bucket (fill cells spare vs []) k ↔ v ∈ vs ∧ k ∈ keysOf cells spare v := by
  rw [bucket_fill, bucket, Map.get?_nil, Option.getD_none, List.nil_append, List.mem_flatMap]
  constructor
  · rintro ⟨w, hw, hv⟩
    obtain ⟨k', hk', rfl⟩ := List.mem_map.mp hv
    obtain ⟨hk', he⟩ := List.mem_filter.mp hk'
    exact ⟨hw, of_decide_eq_true he ▸ hk'⟩
  · rintro ⟨hv, hk⟩
    exact ⟨v, hv, List.mem_map.mpr ⟨k, List.mem_filter.mpr ⟨hk, decide_eq_true rfl⟩, rfl⟩⟩

theorem mem_gather_some {grid : Grid κ α} {ks : List κ} {v : α} :
    v ∈ gather grid (some ks) ↔ ∃ k ∈ ks, v ∈ bucket grid k := by
  rw [gather, List.mem_eraseDups, List.mem_flatMap]

theorem mem_gather_none {grid : Grid κ α} (h : grid.Keyed) {v : α} :
    v ∈ gather grid none ↔ ∃ k, v ∈ bucket grid k := by
  rw [gather, List.mem_eraseDups, List.mem_flatMap]
  constructor
  · rintro ⟨⟨k, b⟩, he, hv⟩
    exact ⟨k, by rwa [bucket, Map.get?_of_mem h he]⟩
  · rintro ⟨k, hv⟩
    unfold bucket at hv
    cases hget : grid.get? k with
    | none => rw [hget] at hv; exact absurd hv List.not_mem_nil
    | some b => exact ⟨(k, b), Map.mem_of_get? hget, by rwa [hget] at hv⟩

/-! ## Nothing is missed -/

/-- The item is in some bucket, and in one of the query if neither covers too many cells. -/
def Meets (query item : Option (List κ)) : Prop :=
  item ≠ some [] ∧ ∀ ks ls, query = some ks → item = some ls → ∃ k ∈ ks, k ∈ ls

omit [DecidableEq κ] [DecidableEq α] in
theorem exists_key {query : Option (List κ)} {v : α} (h : Meets query (cells v)) :
    ∃ k, k ∈ keysOf cells spare v := by
  unfold keysOf
  cases hcells : cells v with
  | none => exact ⟨spare, List.mem_singleton_self spare⟩
  | some ls =>
    rw [hcells] at h
    exact List.exists_mem_of_ne_nil ls fun he => h.1 (he ▸ rfl)

theorem mem_of_mem_gather {vs : List α} {v : α} {query : Option (List κ)}
    (h : v ∈ gather (fill cells spare vs []) query) : v ∈ vs := by
  have hbucket : ∃ k, v ∈ bucket (fill cells spare vs []) k := by
    cases query with
    | none => exact (mem_gather_none (keyed_fill cells spare Map.Keyed.nil vs)).mp h
    | some ks =>
      obtain ⟨k, -, hv⟩ := mem_gather_some.mp h
      exact ⟨k, hv⟩
  obtain ⟨k, hv⟩ := hbucket
  exact (mem_bucket_fill.mp hv).1

/-- What is not in the spare bucket is found in a cell. -/
theorem mem_gather_of_meets {vs : List α} {v : α} {query : Option (List κ)} (hv : v ∈ vs)
    (h : Meets query (cells v)) (hcells : query = none ∨ cells v ≠ none) :
    v ∈ gather (fill cells spare vs []) query := by
  cases query with
  | none =>
    obtain ⟨k, hk⟩ : ∃ k, k ∈ keysOf cells spare v := exists_key h
    exact (mem_gather_none (keyed_fill cells spare Map.Keyed.nil vs)).mpr
      ⟨k, mem_bucket_fill.mpr ⟨hv, hk⟩⟩
  | some ks =>
    obtain ⟨ls, hls⟩ := Option.ne_none_iff_exists'.mp (hcells.resolve_left (Option.some_ne_none ks))
    obtain ⟨k, hk, hl⟩ := h.2 ks ls rfl hls
    refine mem_gather_some.mpr ⟨k, hk, mem_bucket_fill.mpr ⟨hv, ?_⟩⟩
    rw [keysOf, hls]
    exact hl

theorem mem_of_mem_near {vs : List α} {v : α} {query : Option (List κ)}
    (h : v ∈ near spare (fill cells spare vs []) query) : v ∈ vs := by
  cases query with
  | none =>
    have hall : v ∈ gather (fill cells spare vs []) none := h
    exact mem_of_mem_gather hall
  | some ks =>
    rcases List.mem_append.mp h with h | h
    · exact mem_of_mem_gather h
    · exact (mem_bucket_fill.mp h).1

theorem mem_near_of_meets {vs : List α} {v : α} {query : Option (List κ)} (hv : v ∈ vs)
    (h : Meets query (cells v)) : v ∈ near spare (fill cells spare vs []) query := by
  cases query with
  | none => exact mem_gather_of_meets hv h (Or.inl rfl)
  | some ks =>
    rw [near, List.mem_append]
    cases hcells : cells v with
    | some ls =>
      refine Or.inl (mem_gather_of_meets hv h (Or.inr ?_))
      rw [hcells]
      exact Option.some_ne_none ls
    | none =>
      refine Or.inr (mem_bucket_fill.mpr ⟨hv, ?_⟩)
      rw [keysOf, hcells]
      exact List.mem_singleton_self spare

omit [DecidableEq κ] [DecidableEq α] in
/-- A test has one answer over some of the items and over all, if all that pass it are there. -/
theorem any_eq_any {xs ys : List α} {p : α → Bool} (hsub : ∀ v ∈ xs, v ∈ ys)
    (hall : ∀ v ∈ ys, p v = true → v ∈ xs) : xs.any p = ys.any p := by
  rw [Bool.eq_iff_iff, List.any_eq_true, List.any_eq_true]
  constructor
  · rintro ⟨v, hv, hp⟩
    exact ⟨v, hsub v hv, hp⟩
  · rintro ⟨v, hv, hp⟩
    exact ⟨v, hall v hv hp, hp⟩

/-- A test that only holds of items that meet the query. -/
theorem any_near {vs : List α} {query : Option (List κ)} {p : α → Bool}
    (h : ∀ v ∈ vs, p v = true → Meets query (cells v)) :
    (near spare (fill cells spare vs []) query).any p = vs.any p :=
  any_eq_any (fun _ => mem_of_mem_near) fun v hv hp => mem_near_of_meets hv (h v hv hp)

/-- The same without the spare bucket, where no item is in it. -/
theorem any_gather {vs : List α} {query : Option (List κ)} {p : α → Bool}
    (h : ∀ v ∈ vs, p v = true → Meets query (cells v)) (hcells : ∀ v ∈ vs, cells v ≠ none) :
    (gather (fill cells spare vs []) query).any p = vs.any p :=
  any_eq_any (fun _ => mem_of_mem_gather) fun v hv hp =>
    mem_gather_of_meets hv (h v hv hp) (Or.inr (hcells v hv))

/-! ## Items of one cell -/

theorem eraseDups_of_nodup {vs : List α} (h : vs.Nodup) : vs.eraseDups = vs := by
  induction vs with
  | nil => rfl
  | cons v vs ih =>
    rw [List.nodup_cons] at h
    have hkept : (vs.filter fun w => !w == v) = vs := by
      refine List.filter_eq_self.mpr fun w hw => ?_
      have hne : w ≠ v := fun he => h.1 (he ▸ hw)
      simpa using hne
    rw [List.eraseDups_cons, hkept, ih h.2]

/-- The items of a cell, in the order in which they were put. -/
theorem gather_one {key : α → κ} (hcells : ∀ v, cells v = some [key v]) {vs : List α}
    (h : vs.Nodup) (k : κ) :
    gather (fill cells spare vs []) (some [k]) = vs.filter (key · = k) := by
  have hbucket : bucket (fill cells spare vs []) k = vs.filter (key · = k) := by
    rw [bucket_fill, bucket, Map.get?_nil, Option.getD_none, List.nil_append]
    clear h
    induction vs with
    | nil => rfl
    | cons v vs ih =>
      rw [List.flatMap_cons, ih, keysOf, hcells, Option.getD_some]
      by_cases hk : key v = k
      · simp [hk]
      · simp [hk]
  rw [gather, List.flatMap_singleton, hbucket, eraseDups_of_nodup (h.filter _)]

end CellIndex
