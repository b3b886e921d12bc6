/-
The spatial grid of the placer: `Grid` of `pcb-placement-rs/src/spatial.rs`.

A stored index is in the bucket of every cell that its rectangle touches.  Columns and rows grow
with the coordinate, also behind the border of the window, so rectangles that meet share a cell.
Numbers are exact.
-/
import CircuitForge.Js.Runs
import CircuitForge.Js.Slots
import CircuitForge.Js.SquareRoots
import Mathlib.Algebra.Order.Floor.Ring
import Mathlib.Data.List.Nodup

namespace CircuitForge.Spatial

open Js

structure Rect (K : Type) where
  minX : K
  maxX : K
  minY : K
  maxY : K
  deriving DecidableEq

structure Grid (K : Type) where
  cell : K
  originX : K
  originY : K
  cols : Int
  rows : Int
  buckets : List (List Nat)
  /-- The buckets that received an insert since the last clear. -/
  dirty : List Nat

/-- `MAX_BUCKETS`. -/
def maxBuckets : Nat := 4000000

/-- `a..=b`. -/
def through (a b : Int) : List Int := (List.range (b - a + 1).toNat).map fun k : Nat => a + k

/-- `swap_remove`: the last element takes the place of the one that is removed. -/
def swapRemove (xs : List Nat) (pos : Nat) : List Nat :=
  match xs.getLast? with
  | some last => (xs.set pos last).dropLast
  | none => xs

/-- What `remove` does to a bucket. -/
def dropFrom (index : Nat) (bucket : List Nat) : List Nat :=
  match bucket.findIdx? (· == index) with
  | some pos => swapRemove bucket pos
  | none => bucket

section

variable {K : Type} [Field K] [LinearOrder K] [FloorRing K]

/-- The size of a cell, coarsened where the window would need too many. -/
def cellSize (sqrt : K → K) (cell spanX spanY : K) : K :=
  let cell := max cell (1 / ((10 : ℕ) : K) ^ 6)
  let sx := max spanX cell
  let sy := max spanY cell
  let want := ((2 : ℕ) * sx / cell + 1) * ((2 : ℕ) * sy / cell + 1)
  if ((maxBuckets : ℕ) : K) < want then cell * sqrt (want / (maxBuckets : ℕ)) else cell

/-- `Grid::new`. -/
def Grid.new (sqrt : K → K) (cell spanX spanY : K) : Grid K :=
  let least := max cell (1 / ((10 : ℕ) : K) ^ 6)
  let sx := max spanX least
  let sy := max spanY least
  let cell := cellSize sqrt cell spanX spanY
  let cols := max (⌈(2 : ℕ) * sx / cell⌉ + 1) 1
  let rows := max (⌈(2 : ℕ) * sy / cell⌉ + 1) 1
  { cell
    originX := -sx
    originY := -sy
    cols
    rows
    buckets := List.replicate (cols * rows).toNat []
    dirty := [] }

namespace Grid

variable (g : Grid K)

/-- `v.clamp(0, n - 1)`. -/
def clampTo (n v : Int) : Int := max 0 (min v (n - 1))

def col (x : K) : Int := clampTo g.cols ⌊(x - g.originX) / g.cell⌋

def row (y : K) : Int := clampTo g.rows ⌊(y - g.originY) / g.cell⌋

def idx (c r : Int) : Nat := (r * g.cols + c).toNat

/-- The cells a rectangle touches, in the order of the loops. -/
def cells (rect : Rect K) : List Nat :=
  (through (g.row rect.minY) (g.row rect.maxY)).flatMap fun r =>
    (through (g.col rect.minX) (g.col rect.maxX)).map fun c => g.idx c r

def bucket (i : Nat) : List Nat := g.buckets.getD i []

/-- The index goes into one bucket. -/
def touch (index : Nat) (g : Grid K) (i : Nat) : Grid K :=
  { g with
    dirty := if g.bucket i = [] then g.dirty ++ [i] else g.dirty
    buckets := g.buckets.set i (g.bucket i ++ [index]) }

/-- `insert`. -/
def insert (index : Nat) (rect : Rect K) : Grid K := (g.cells rect).foldl (touch index) g

/-- The index leaves one bucket. -/
def untouch (index : Nat) (g : Grid K) (i : Nat) : Grid K :=
  { g with buckets := g.buckets.set i (dropFrom index (g.bucket i)) }

/-- `remove`. -/
def remove (index : Nat) (rect : Rect K) : Grid K := (g.cells rect).foldl (untouch index) g

/-- `neighbors`. -/
def neighbors (rect : Rect K) : List Nat := (g.cells rect).flatMap g.bucket

/-- `clear`. -/
def clear : Grid K :=
  { g with buckets := g.dirty.foldl (fun buckets i => buckets.set i []) g.buckets, dirty := [] }

end Grid

/-! ## Runs -/

inductive Op (K : Type) where
  | insert (index : Nat) (rect : Rect K)
  | remove (index : Nat) (rect : Rect K)
  | clear

/-- A grid, and the rectangles that are stored in it. -/
structure Store (K : Type) where
  grid : Grid K
  stored : List (Nat × Rect K) := []

/-- An index is inserted while it is not stored, and removed with its rectangle; anything else is
refused. -/
def step (s : Store K) : Op K → Option (Store K)
  | .insert index rect =>
    if index ∈ s.stored.map Prod.fst then none
    else some ⟨s.grid.insert index rect, (index, rect) :: s.stored⟩
  | .remove index rect =>
    if (index, rect) ∈ s.stored then
      some ⟨s.grid.remove index rect, s.stored.filter fun e => e.1 ≠ index⟩
    else none
  | .clear => some ⟨s.grid.clear, []⟩

def run (sqrt : K → K) (cell spanX spanY : K) (ops : List (Op K)) : Store K :=
  Runs.final step { grid := Grid.new sqrt cell spanX spanY } ops

/-! ## Cells -/

theorem mem_through {a b k : Int} : k ∈ through a b ↔ a ≤ k ∧ k ≤ b := by
  rw [through, List.mem_map]
  constructor
  · rintro ⟨n, hn, rfl⟩
    have := List.mem_range.mp hn
    omega
  · rintro ⟨ha, hb⟩
    exact ⟨(k - a).toNat, List.mem_range.mpr (by omega), by omega⟩

theorem nodup_through (a b : Int) : (through a b).Nodup := by
  refine List.nodup_range.map fun m n h => ?_
  have h : a + (m : Int) = a + n := h
  omega

theorem clampTo_bounds {n : Int} (hn : 1 ≤ n) (v : Int) :
    0 ≤ Grid.clampTo n v ∧ Grid.clampTo n v < n := by
  unfold Grid.clampTo
  omega

theorem clampTo_mono {n u v : Int} (h : u ≤ v) : Grid.clampTo n u ≤ Grid.clampTo n v := by
  unfold Grid.clampTo
  omega

/-- The window has cells, and a bucket for each. -/
structure Grid.Framed (g : Grid K) : Prop where
  cell : 0 < g.cell
  cols : 1 ≤ g.cols
  rows : 1 ≤ g.rows
  buckets : g.buckets.length = (g.cols * g.rows).toNat

section

variable {g : Grid K}

omit [Field K] [LinearOrder K] [FloorRing K] in
theorem idx_inj (hcols : 1 ≤ g.cols) {c r c' r' : Int} (hc : 0 ≤ c ∧ c < g.cols)
    (hc' : 0 ≤ c' ∧ c' < g.cols) (hr : 0 ≤ r) (hr' : 0 ≤ r') (h : g.idx c r = g.idx c' r') :
    c = c' ∧ r = r' := by
  have hmul := Int.mul_nonneg hr (by omega : 0 ≤ g.cols)
  have hmul' := Int.mul_nonneg hr' (by omega : 0 ≤ g.cols)
  have heq : r * g.cols + c = r' * g.cols + c' := by
    unfold Grid.idx at h
    omega
  have hrow : r = r' := by
    have hdiv : ∀ {a b : Int}, 0 ≤ a ∧ a < g.cols → (b * g.cols + a) / g.cols = b := by
      intro a b ha
      rw [Int.add_comm, Int.add_mul_ediv_right _ _ (by omega), Int.ediv_eq_zero_of_lt ha.1 ha.2,
        Int.zero_add]
    rw [← hdiv hc (b := r), heq, hdiv hc']
  exact ⟨by rw [hrow] at heq; omega, hrow⟩

theorem mem_cells {rect : Rect K} {i : Nat} :
    i ∈ g.cells rect ↔ ∃ r c, (g.row rect.minY ≤ r ∧ r ≤ g.row rect.maxY) ∧
      (g.col rect.minX ≤ c ∧ c ≤ g.col rect.maxX) ∧ g.idx c r = i := by
  simp only [Grid.cells, List.mem_flatMap, List.mem_map, mem_through]
  constructor
  · rintro ⟨r, hr, c, hc, rfl⟩
    exact ⟨r, c, hr, hc, rfl⟩
  · rintro ⟨r, c, hr, hc, rfl⟩
    exact ⟨r, hr, c, hc, rfl⟩

theorem col_bounds (hf : g.Framed) (x : K) : 0 ≤ g.col x ∧ g.col x < g.cols :=
  clampTo_bounds hf.cols _

theorem row_bounds (hf : g.Framed) (y : K) : 0 ≤ g.row y ∧ g.row y < g.rows :=
  clampTo_bounds hf.rows _

/-- A cell of the window has its bucket. -/
theorem lt_of_mem_cells (hf : g.Framed) {rect : Rect K} {i : Nat} (hi : i ∈ g.cells rect) :
    i < g.buckets.length := by
  obtain ⟨r, c, hr, hc, rfl⟩ := mem_cells.mp hi
  have hr₀ := (row_bounds hf rect.minY).1
  have hr₁ := (row_bounds hf rect.maxY).2
  have hc₁ := (col_bounds hf rect.maxX).2
  have hc₀ := (col_bounds hf rect.minX).1
  have hrow : (r + 1) * g.cols ≤ g.rows * g.cols :=
    Int.mul_le_mul_of_nonneg_right (by omega) (by have := hf.cols; omega)
  have hpos : 0 ≤ r * g.cols := Int.mul_nonneg (by omega) (by have := hf.cols; omega)
  rw [Int.add_mul, Int.one_mul] at hrow
  rw [hf.buckets, Int.mul_comm]
  unfold Grid.idx
  omega

theorem nodup_cells (hf : g.Framed) (rect : Rect K) : (g.cells rect).Nodup := by
  have hcol : ∀ c ∈ through (g.col rect.minX) (g.col rect.maxX), 0 ≤ c ∧ c < g.cols := by
    intro c hc
    have hc := mem_through.mp hc
    have h₀ := (col_bounds hf rect.minX).1
    have h₁ := (col_bounds hf rect.maxX).2
    omega
  have hrow : ∀ r ∈ through (g.row rect.minY) (g.row rect.maxY), 0 ≤ r := by
    intro r hr
    have hr := mem_through.mp hr
    have h₀ := (row_bounds hf rect.minY).1
    omega
  rw [Grid.cells, List.nodup_flatMap]
  refine ⟨fun r hr => ?_, ?_⟩
  · refine (nodup_through _ _).map_on fun c hc c' hc' h => ?_
    exact (idx_inj hf.cols (hcol c hc) (hcol c' hc') (hrow r hr) (hrow r hr) h).1
  · refine (nodup_through _ _).imp_of_mem fun {r r'} hr hr' hne => ?_
    rintro i hi hi'
    obtain ⟨c, hc, rfl⟩ := List.mem_map.mp hi
    obtain ⟨c', hc', h⟩ := List.mem_map.mp hi'
    exact hne (idx_inj hf.cols (hcol c' hc') (hcol c hc) (hrow r' hr') (hrow r hr) h).2.symm

/-! ### Rectangles that meet -/

/-- Two rectangles have a point in common. -/
def Rect.Meets (r q : Rect K) : Prop :=
  ∃ x y, (r.minX ≤ x ∧ x ≤ r.maxX ∧ r.minY ≤ y ∧ y ≤ r.maxY) ∧
    q.minX ≤ x ∧ x ≤ q.maxX ∧ q.minY ≤ y ∧ y ≤ q.maxY

variable [IsStrictOrderedRing K]

theorem col_mono (hf : g.Framed) {x x' : K} (h : x ≤ x') : g.col x ≤ g.col x' :=
  clampTo_mono (Int.floor_le_floor
    (div_le_div_of_nonneg_right (sub_le_sub_right h _) hf.cell.le))

theorem row_mono (hf : g.Framed) {y y' : K} (h : y ≤ y') : g.row y ≤ g.row y' :=
  clampTo_mono (Int.floor_le_floor
    (div_le_div_of_nonneg_right (sub_le_sub_right h _) hf.cell.le))

/-- Two rectangles that meet share a cell. -/
theorem exists_shared_cell (hf : g.Framed) {r q : Rect K} (h : r.Meets q) :
    ∃ i ∈ g.cells r, i ∈ g.cells q := by
  obtain ⟨x, y, ⟨hrx₀, hrx₁, hry₀, hry₁⟩, hqx₀, hqx₁, hqy₀, hqy₁⟩ := h
  refine ⟨g.idx (g.col x) (g.row y), mem_cells.mpr ⟨_, _, ⟨?_, ?_⟩, ⟨?_, ?_⟩, rfl⟩,
    mem_cells.mpr ⟨_, _, ⟨?_, ?_⟩, ⟨?_, ?_⟩, rfl⟩⟩
  · exact row_mono hf hry₀
  · exact row_mono hf hry₁
  · exact col_mono hf hrx₀
  · exact col_mono hf hrx₁
  · exact row_mono hf hqy₀
  · exact row_mono hf hqy₁
  · exact col_mono hf hqx₀
  · exact col_mono hf hqx₁

end

/-! ## Buckets -/

section

variable {g : Grid K}

/-- The geometry of the grid, which no operation changes. -/
def Grid.window (g : Grid K) : K × K × K × Int × Int :=
  (g.cell, g.originX, g.originY, g.cols, g.rows)

theorem cells_congr {g' : Grid K} (h : g'.window = g.window) : g'.cells = g.cells := by
  cases g
  cases g'
  obtain ⟨rfl, rfl, rfl, rfl, rfl⟩ := by simpa only [Grid.window, Prod.mk.injEq] using h
  rfl

omit [FloorRing K] in
theorem Grid.Framed.congr {g' : Grid K} (hf : g.Framed) (h : g'.window = g.window)
    (hlength : g'.buckets.length = g.buckets.length) : g'.Framed := by
  cases g
  cases g'
  obtain ⟨rfl, rfl, rfl, rfl, rfl⟩ := by simpa only [Grid.window, Prod.mk.injEq] using h
  exact ⟨hf.cell, hf.cols, hf.rows, hlength.trans hf.buckets⟩

omit [Field K] [LinearOrder K] [FloorRing K] in
theorem window_foldl {put : Grid K → Nat → Grid K} (hput : ∀ g i, (put g i).window = g.window)
    (is : List Nat) (g : Grid K) : (is.foldl put g).window = g.window := by
  induction is generalizing g with
  | nil => rfl
  | cons i is ih => rw [List.foldl_cons, ih, hput]

theorem insert_window (index : Nat) (rect : Rect K) : (g.insert index rect).window = g.window :=
  window_foldl (fun g i => (rfl : (Grid.touch index g i).window = g.window)) _ _

theorem remove_window (index : Nat) (rect : Rect K) : (g.remove index rect).window = g.window :=
  window_foldl (fun g i => (rfl : (Grid.untouch index g i).window = g.window)) _ _

theorem insert_buckets (index : Nat) (rect : Rect K) :
    (g.insert index rect).buckets = (g.cells rect).foldl (Slots.put (· ++ [index]) []) g.buckets :=
  (List.foldl_hom Grid.buckets fun _ _ => rfl).symm

theorem remove_dirty (index : Nat) (rect : Rect K) :
    (g.remove index rect).dirty = g.dirty := by
  have hkeep : ∀ (is : List Nat) (g : Grid K),
      (is.foldl (Grid.untouch index) g).dirty = g.dirty := by
    intro is
    induction is with
    | nil => exact fun _ => rfl
    | cons i is ih => exact fun g => ih (Grid.untouch index g i)
  exact hkeep _ g

theorem remove_buckets (index : Nat) (rect : Rect K) :
    (g.remove index rect).buckets =
      (g.cells rect).foldl (Slots.put (dropFrom index) []) g.buckets :=
  (List.foldl_hom Grid.buckets fun _ _ => rfl).symm

theorem insert_bucket (hf : g.Framed) (index : Nat) (rect : Rect K) (i : Nat) :
    (g.insert index rect).bucket i =
      if i ∈ g.cells rect then g.bucket i ++ [index] else g.bucket i := by
  rw [Grid.bucket, insert_buckets,
    Slots.getD_foldl_put (.inl (nodup_cells hf rect)) fun _ hi => lt_of_mem_cells hf hi]
  rfl

theorem remove_bucket (hf : g.Framed) (index : Nat) (rect : Rect K) (i : Nat) :
    (g.remove index rect).bucket i =
      if i ∈ g.cells rect then dropFrom index (g.bucket i) else g.bucket i := by
  rw [Grid.bucket, remove_buckets,
    Slots.getD_foldl_put (.inl (nodup_cells hf rect)) fun _ hi => lt_of_mem_cells hf hi]
  rfl

omit [Field K] [LinearOrder K] [FloorRing K] in
theorem clear_bucket (hdirty : ∀ i ∈ g.dirty, i < g.buckets.length) (i : Nat) :
    g.clear.bucket i = if i ∈ g.dirty then [] else g.bucket i := by
  have hclear : g.clear.buckets =
      g.dirty.foldl (Slots.put (Function.const (List Nat) []) []) g.buckets := rfl
  rw [Grid.bucket, hclear, Slots.getD_foldl_put (.inr fun _ => Function.const_apply) hdirty]
  rfl

/-! ### Removing an index -/

theorem swapRemove_perm (front tail : List Nat) (v : Nat) :
    (swapRemove (front ++ v :: tail) front.length).Perm (front ++ tail) := by
  rcases List.eq_nil_or_concat tail with rfl | ⟨tail, z, rfl⟩
  · rw [swapRemove, List.getLast?_concat]
    simp only [List.set_append_right _ _ (Nat.le_refl _), Nat.sub_self, List.set_cons_zero,
      List.dropLast_concat, List.append_nil, List.Perm.refl]
  · have hlast : (front ++ v :: (tail ++ [z])).getLast? = some z := by
      rw [← List.cons_append, ← List.append_assoc, List.getLast?_concat]
    rw [List.concat_eq_append, swapRemove, hlast]
    simp only [List.set_append_right _ _ (Nat.le_refl _), Nat.sub_self, List.set_cons_zero]
    rw [← List.cons_append, ← List.append_assoc, List.dropLast_concat]
    exact List.Perm.append_left front (List.perm_append_singleton z tail).symm

theorem dropFrom_perm (index : Nat) (bucket : List Nat) :
    (dropFrom index bucket).Perm (bucket.erase index) := by
  by_cases hmem : index ∈ bucket
  · obtain ⟨front, tail, rfl, hfront⟩ := List.eq_append_cons_of_mem hmem
    have hnone : front.findIdx? (· == index) = none :=
      List.findIdx?_eq_none_iff.mpr fun x hx => beq_false_of_ne (ne_of_mem_of_not_mem hx hfront)
    have hpos : (front ++ index :: tail).findIdx? (· == index) = some front.length := by
      rw [List.findIdx?_append, hnone, List.findIdx?_cons, if_pos (beq_self_eq_true index)]
      simp only [Option.map_some, Option.none_or, Nat.zero_add]
    rw [dropFrom, hpos, List.erase_append_right _ hfront, List.erase_cons_head]
    exact swapRemove_perm front tail index
  · have hpos : bucket.findIdx? (· == index) = none :=
      List.findIdx?_eq_none_iff.mpr fun x hx => beq_false_of_ne (ne_of_mem_of_not_mem hx hmem)
    rw [dropFrom, hpos, List.erase_of_not_mem hmem]

theorem mem_dropFrom {index v : Nat} {bucket : List Nat} (h : bucket.Nodup) :
    v ∈ dropFrom index bucket ↔ v ≠ index ∧ v ∈ bucket := by
  rw [(dropFrom_perm index bucket).mem_iff, h.mem_erase_iff]

theorem nodup_dropFrom (index : Nat) {bucket : List Nat} (h : bucket.Nodup) :
    (dropFrom index bucket).Nodup :=
  (dropFrom_perm index bucket).nodup_iff.mpr (h.erase index)

end

/-! ## Reachable stores -/

/-- The buckets hold the stored indices in the cells of their rectangles, each once, and every
bucket that holds something is dirty. -/
structure Sound (s : Store K) : Prop where
  framed : s.grid.Framed
  dirty_lt : ∀ i ∈ s.grid.dirty, i < s.grid.buckets.length
  dirty : ∀ i, s.grid.bucket i ≠ [] → i ∈ s.grid.dirty
  ids : (s.stored.map Prod.fst).Nodup
  nodup : ∀ i, (s.grid.bucket i).Nodup
  holds : ∀ i v, v ∈ s.grid.bucket i ↔ ∃ r, (v, r) ∈ s.stored ∧ i ∈ s.grid.cells r

section

variable {s s' : Store K}

omit [Field K] [LinearOrder K] [FloorRing K] in
/-- Touching a cell of the window keeps the list of the dirty buckets. -/
theorem touch_dirty {g : Grid K} (index : Nat) {i : Nat} (hi : i < g.buckets.length)
    (hlt : ∀ j ∈ g.dirty, j < g.buckets.length) (hdirty : ∀ j, g.bucket j ≠ [] → j ∈ g.dirty) :
    (∀ j ∈ (g.touch index i).dirty, j < (g.touch index i).buckets.length) ∧
      ∀ j, (g.touch index i).bucket j ≠ [] → j ∈ (g.touch index i).dirty := by
  have hlength : (g.touch index i).buckets.length = g.buckets.length := List.length_set
  have hbucket : ∀ j, (g.touch index i).bucket j =
      if j = i then g.bucket j ++ [index] else g.bucket j := by
    have hput : (g.touch index i).buckets = Slots.put (· ++ [index]) [] g.buckets i := rfl
    intro j
    rw [Grid.bucket, hput, Slots.getD_put hi]
    rfl
  constructor
  · intro j hj
    rw [hlength]
    by_cases hempty : g.bucket i = []
    · rw [Grid.touch, if_pos hempty] at hj
      rcases List.mem_append.mp hj with hj | hj
      · exact hlt j hj
      · exact List.mem_singleton.mp hj ▸ hi
    · rw [Grid.touch, if_neg hempty] at hj
      exact hlt j hj
  · intro j hj
    by_cases hempty : g.bucket i = []
    · rw [Grid.touch, if_pos hempty, List.mem_append, List.mem_singleton]
      rw [hbucket] at hj
      by_cases hji : j = i
      · exact .inr hji
      · rw [if_neg hji] at hj
        exact .inl (hdirty j hj)
    · rw [Grid.touch, if_neg hempty]
      rw [hbucket] at hj
      by_cases hji : j = i
      · exact hji ▸ hdirty i hempty
      · rw [if_neg hji] at hj
        exact hdirty j hj

omit [Field K] [LinearOrder K] [FloorRing K] in
theorem foldl_touch_dirty (index : Nat) {is : List Nat} {g : Grid K}
    (his : ∀ i ∈ is, i < g.buckets.length) (hlt : ∀ j ∈ g.dirty, j < g.buckets.length)
    (hdirty : ∀ j, g.bucket j ≠ [] → j ∈ g.dirty) :
    (∀ j ∈ (is.foldl (Grid.touch index) g).dirty,
      j < (is.foldl (Grid.touch index) g).buckets.length) ∧
      ∀ j, (is.foldl (Grid.touch index) g).bucket j ≠ [] →
        j ∈ (is.foldl (Grid.touch index) g).dirty := by
  induction is generalizing g with
  | nil => exact ⟨hlt, hdirty⟩
  | cons i is ih =>
    obtain ⟨hi, his⟩ := List.forall_mem_cons.mp his
    obtain ⟨hlt, hdirty⟩ := touch_dirty index hi hlt hdirty
    refine ih (fun j hj => ?_) hlt hdirty
    rw [Grid.touch, List.length_set]
    exact his j hj

theorem sound_insert (hs : Sound s) {index : Nat} {rect : Rect K}
    (hfresh : index ∉ s.stored.map Prod.fst) :
    Sound ⟨s.grid.insert index rect, (index, rect) :: s.stored⟩ := by
  have hcells : (s.grid.insert index rect).cells = s.grid.cells :=
    cells_congr (insert_window index rect)
  have hbucket := insert_bucket hs.framed index rect
  have hlength : (s.grid.insert index rect).buckets.length = s.grid.buckets.length := by
    rw [insert_buckets, Slots.length_foldl_put]
  have hnew : ∀ i, index ∉ s.grid.bucket i := by
    intro i hi
    obtain ⟨r, hr, -⟩ := (hs.holds i index).mp hi
    exact hfresh (List.mem_map_of_mem hr)
  obtain ⟨hlt, hdirty⟩ := foldl_touch_dirty index
    (fun i (hi : i ∈ s.grid.cells rect) => lt_of_mem_cells hs.framed hi) hs.dirty_lt hs.dirty
  refine ⟨hs.framed.congr (insert_window index rect) hlength, hlt, hdirty,
    List.nodup_cons.mpr ⟨hfresh, hs.ids⟩, fun i => ?_, fun i v => ?_⟩
  · rw [hbucket]
    split
    · exact List.nodup_append.mpr ⟨hs.nodup i, List.nodup_singleton index, fun a ha b hb hab =>
        hnew i (List.mem_singleton.mp hb ▸ hab ▸ ha)⟩
    · exact hs.nodup i
  · rw [hbucket, hcells]
    by_cases hi : i ∈ s.grid.cells rect
    · rw [if_pos hi, List.mem_append, List.mem_singleton, hs.holds]
      constructor
      · rintro (⟨r, hr, hir⟩ | rfl)
        · exact ⟨r, List.mem_cons_of_mem _ hr, hir⟩
        · exact ⟨rect, List.mem_cons_self, hi⟩
      · rintro ⟨r, hr, hir⟩
        rcases List.mem_cons.mp hr with h | hr
        · exact .inr (Prod.mk.inj h).1
        · exact .inl ⟨r, hr, hir⟩
    · rw [if_neg hi, hs.holds]
      refine exists_congr fun r => ⟨fun h => ⟨List.mem_cons_of_mem _ h.1, h.2⟩, ?_⟩
      rintro ⟨hr, hir⟩
      rcases List.mem_cons.mp hr with h | hr
      · exact absurd ((Prod.mk.inj h).2 ▸ hir) hi
      · exact ⟨hr, hir⟩

omit [Field K] [LinearOrder K] [FloorRing K] in
theorem mem_stored_unique {stored : List (Nat × Rect K)} (hids : (stored.map Prod.fst).Nodup)
    {v : Nat} {r r' : Rect K} (h : (v, r) ∈ stored) (h' : (v, r') ∈ stored) : r = r' :=
  (Prod.mk.inj (List.inj_on_of_nodup_map hids h h' rfl)).2

theorem sound_remove (hs : Sound s) {index : Nat} {rect : Rect K}
    (hstored : (index, rect) ∈ s.stored) :
    Sound ⟨s.grid.remove index rect, s.stored.filter fun e => e.1 ≠ index⟩ := by
  have hcells : (s.grid.remove index rect).cells = s.grid.cells :=
    cells_congr (remove_window index rect)
  have hbucket := remove_bucket hs.framed index rect
  have hdirty : (s.grid.remove index rect).dirty = s.grid.dirty := remove_dirty index rect
  have hlength : (s.grid.remove index rect).buckets.length = s.grid.buckets.length := by
    rw [remove_buckets, Slots.length_foldl_put]
  have hmem : ∀ i v, v ∈ (s.grid.remove index rect).bucket i ↔
      v ≠ index ∧ v ∈ s.grid.bucket i := by
    intro i v
    rw [hbucket]
    split
    · exact mem_dropFrom (hs.nodup i)
    · rename_i hi
      refine ⟨fun h => ⟨?_, h⟩, And.right⟩
      rintro rfl
      obtain ⟨r, hr, hir⟩ := (hs.holds i v).mp h
      exact hi (mem_stored_unique hs.ids hr hstored ▸ hir)
  refine ⟨hs.framed.congr (remove_window index rect) hlength, ?_, fun i hi => ?_,
    hs.ids.sublist (List.filter_sublist.map _), fun i => ?_, fun i v => ?_⟩
  · intro i hi
    rw [hlength]
    exact hs.dirty_lt i (hdirty ▸ hi)
  · obtain ⟨v, hv⟩ := List.exists_mem_of_ne_nil _ hi
    rw [hdirty]
    exact hs.dirty i (List.ne_nil_of_mem ((hmem i v).mp hv).2)
  · rw [hbucket]
    split
    · exact nodup_dropFrom index (hs.nodup i)
    · exact hs.nodup i
  · rw [hmem, hcells, hs.holds]
    simp only [List.mem_filter, decide_eq_true_eq]
    constructor
    · rintro ⟨hv, r, hr, hir⟩
      exact ⟨r, ⟨hr, hv⟩, hir⟩
    · rintro ⟨r, ⟨hr, hv⟩, hir⟩
      exact ⟨hv, r, hr, hir⟩

/-- After `clear` every bucket is empty, though only the dirty ones are visited. -/
theorem Sound.clear_bucket (hs : Sound s) (i : Nat) : s.grid.clear.bucket i = [] := by
  rw [Spatial.clear_bucket hs.dirty_lt]
  split
  · rfl
  · rename_i hi
    exact not_not.mp fun h => hi (hs.dirty i h)

theorem sound_clear (hs : Sound s) : Sound ⟨s.grid.clear, []⟩ := by
  have hlength : s.grid.clear.buckets.length = s.grid.buckets.length :=
    Slots.length_foldl_put (Function.const (List Nat) []) [] s.grid.dirty s.grid.buckets
  refine ⟨hs.framed.congr rfl hlength, fun i hi => (List.not_mem_nil hi).elim, fun i hi => ?_,
    List.nodup_nil, fun i => ?_, fun i v => ?_⟩
  · exact absurd (hs.clear_bucket i) hi
  · exact hs.clear_bucket i ▸ List.nodup_nil
  · rw [hs.clear_bucket]
    exact ⟨fun h => (List.not_mem_nil h).elim, fun ⟨_, h, _⟩ => (List.not_mem_nil h).elim⟩

theorem sound_step (hs : Sound s) {op : Op K} (h : step s op = some s') : Sound s' := by
  cases op with
  | insert index rect =>
    rw [step] at h
    split at h
    · cases h
    · rename_i hfresh
      cases h
      exact sound_insert hs hfresh
  | remove index rect =>
    rw [step] at h
    split at h
    · rename_i hstored
      cases h
      exact sound_remove hs hstored
    · cases h
  | clear =>
    cases h
    exact sound_clear hs

variable [IsStrictOrderedRing K] {sqrt : K → K}

omit [FloorRing K] in
theorem cellSize_pos (hsqrt : IsSqrt sqrt) (cell spanX spanY : K) :
    0 < cellSize sqrt cell spanX spanY := by
  have hcell : 0 < max cell (1 / ((10 : ℕ) : K) ^ 6) := lt_max_of_lt_right (by positivity)
  unfold cellSize
  dsimp only
  split
  · rename_i hwant
    refine mul_pos hcell ?_
    have hpos := div_pos (lt_of_le_of_lt (Nat.cast_nonneg maxBuckets) hwant)
      (by norm_num [maxBuckets] : (0 : K) < (maxBuckets : ℕ))
    refine lt_of_le_of_ne (hsqrt.nonneg _ hpos.le) fun h => hpos.ne ?_
    rw [← hsqrt.mul_self _ hpos.le, ← h, mul_zero]
  · exact hcell

theorem sound_new (hsqrt : IsSqrt sqrt) (cell spanX spanY : K) :
    Sound { grid := Grid.new sqrt cell spanX spanY } := by
  have hempty : ∀ i, (Grid.new sqrt cell spanX spanY).bucket i = [] := by
    intro i
    rw [Grid.bucket, List.getD_eq_getElem?_getD]
    exact List.getElem?_getD_replicate_default_eq _ _ _
  refine ⟨⟨cellSize_pos hsqrt cell spanX spanY, le_max_right _ _, le_max_right _ _,
      List.length_replicate⟩, fun i hi => (List.not_mem_nil hi).elim, fun i hi => ?_,
    List.nodup_nil, fun i => ?_, fun i v => ?_⟩
  · exact absurd (hempty i) hi
  · exact hempty i ▸ List.nodup_nil
  · rw [hempty]
    exact ⟨fun h => (List.not_mem_nil h).elim, fun ⟨_, h, _⟩ => (List.not_mem_nil h).elim⟩

theorem sound_run (hsqrt : IsSqrt sqrt) (cell spanX spanY : K) (ops : List (Op K)) :
    Sound (run sqrt cell spanX spanY ops) :=
  Runs.final_of_along (fun _ _ _ hs h _ => sound_step hs h) (sound_new hsqrt cell spanX spanY)
    (Runs.along_of_forall (fun _ _ _ => trivial) _ ops)

/-- In every run a query returns every stored index whose rectangle meets it and only stored
indices, no cell is outside the buckets, and a clear would empty every bucket. -/
theorem run_neighbors (hsqrt : IsSqrt sqrt) (cell spanX spanY : K) (ops : List (Op K))
    (q : Rect K) :
    let s := run sqrt cell spanX spanY ops
    (∀ e ∈ s.stored, e.2.Meets q → e.1 ∈ s.grid.neighbors q) ∧
      (∀ v ∈ s.grid.neighbors q, v ∈ s.stored.map Prod.fst) ∧
      (∀ i ∈ s.grid.cells q, i < s.grid.buckets.length) ∧
      ∀ bucket ∈ s.grid.clear.buckets, bucket = [] := by
  intro s
  have hs : Sound s := sound_run hsqrt cell spanX spanY ops
  refine ⟨?_, ?_, fun i hi => lt_of_mem_cells hs.framed hi, ?_⟩
  · rintro ⟨v, r⟩ he hmeets
    obtain ⟨i, hir, hiq⟩ := exists_shared_cell hs.framed hmeets
    exact List.mem_flatMap.mpr ⟨i, hiq, (hs.holds i v).mpr ⟨r, he, hir⟩⟩
  · intro v hv
    obtain ⟨i, -, hi⟩ := List.mem_flatMap.mp hv
    obtain ⟨r, hr, -⟩ := (hs.holds i v).mp hi
    exact List.mem_map_of_mem hr
  · intro bucket hbucket
    obtain ⟨i, hi, rfl⟩ := List.mem_iff_getElem.mp hbucket
    have h := hs.clear_bucket i
    rwa [Grid.bucket, List.getD_eq_getElem _ _ hi] at h

/-- Two rectangles that meet behind the border of the window. -/
theorem run_neighbors_outside :
    let s : Store ℝ := run Real.sqrt 2 10 10 [.insert 7 ⟨100, 102, -50, -49⟩]
    (∀ e ∈ s.stored, e.2.Meets ⟨101, 103, -50, -50⟩ →
        e.1 ∈ s.grid.neighbors ⟨101, 103, -50, -50⟩) ∧
      (∀ v ∈ s.grid.neighbors ⟨101, 103, -50, -50⟩, v ∈ s.stored.map Prod.fst) ∧
      (∀ i ∈ s.grid.cells ⟨101, 103, -50, -50⟩, i < s.grid.buckets.length) ∧
      ∀ bucket ∈ s.grid.clear.buckets, bucket = [] :=
  run_neighbors isSqrt_real 2 10 10 _ _

end

end

end CircuitForge.Spatial
