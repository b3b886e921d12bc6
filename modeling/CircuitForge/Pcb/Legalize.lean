/-
Legalizing a placement: `legalize` of `pcb-core/src/placement.ts`.

Every part that is not pinned goes to the nearest free cell of the grid, ring by ring around the
cell it is at.  Numbers are exact.
-/
import CircuitForge.Js.Spans
import CircuitForge.Pcb.Rotation
import Mathlib.Algebra.Order.Floor.Ring
import Mathlib.Data.List.Sort
import Mathlib.Data.Rat.Floor
import Mathlib.Tactic.Linarith

namespace CircuitForge.Placement

open Js

/-! ## Parts and cells -/

/-- `PlaceablePart`, as far as the legalizer reads it. -/
structure PlaceablePart (K : Type) where
  id : Text
  w : K
  h : K
  fixed : Bool := false

/-- The board, the grid, and what is kept free. -/
structure Frame (K : Type) where
  boardW : K
  boardH : K
  grid : K
  margin : K
  spacing : K

/-- The cells of a ring in the order of the walk: the top row, the right column, the bottom row and
the left column. -/
def ringCells (ring : Nat) : List (Int × Int) :=
  if ring = 0 then [(0, 0)]
  else
    (List.range (2 * ring + 1)).map (fun k : Nat => ((k : Int) - ring, -(ring : Int))) ++
      (List.range (2 * ring)).map (fun k : Nat => ((ring : Int), (k : Int) + 1 - ring)) ++
      (List.range (2 * ring)).map (fun k : Nat => ((ring : Int) - 1 - k, (ring : Int))) ++
      (List.range (2 * ring - 1)).map fun k : Nat => (-(ring : Int), (ring : Int) - 1 - k)

/-- A ring has every cell at its distance. -/
theorem mem_ringCells {ring : Nat} {a b : Int} :
    (a, b) ∈ ringCells ring ↔ max a.natAbs b.natAbs = ring := by
  unfold ringCells
  split
  case isTrue h =>
    rw [List.mem_singleton, Prod.mk.injEq]
    omega
  case isFalse h =>
    simp only [List.mem_append, List.mem_map, List.mem_range, Prod.mk.injEq]
    constructor
    · rintro (((⟨k, hk, ha, hb⟩ | ⟨k, hk, ha, hb⟩) | ⟨k, hk, ha, hb⟩) | ⟨k, hk, ha, hb⟩) <;> omega
    · intro hmax
      by_cases htop : b = -(ring : Int)
      · exact Or.inl (Or.inl (Or.inl ⟨(a + ring).toNat, by omega, by omega, by omega⟩))
      · by_cases hright : a = ring
        · exact Or.inl (Or.inl (Or.inr ⟨(b - 1 + ring).toNat, by omega, by omega, by omega⟩))
        · by_cases hbottom : b = ring
          · exact Or.inl (Or.inr ⟨(ring - 1 - a).toNat, by omega, by omega, by omega⟩)
          · exact Or.inr ⟨(ring - 1 - b).toNat, by omega, by omega, by omega⟩

section

variable {K : Type} [Field K] [LinearOrder K] {n : Nat}

/-- `halfExtents`. -/
def halfExtents (p : PlaceablePart K) (r : Turn) : K × K :=
  if r = .deg90 ∨ r = .deg270 then (halved p.h, halved p.w) else (halved p.w, halved p.h)

/-- What two parts may lack of the spacing. -/
def slack : K := 1 / ((10 : ℕ) : K) ^ 9

/-- `overlaps`, for two places with the half extents there. -/
def overlaps (spacing : K) (p₁ e₁ p₂ e₂ : K × K) : Bool :=
  decide (|p₂.1 - p₁.1| < e₁.1 + e₂.1 + spacing - slack) &&
    decide (|p₂.2 - p₁.2| < e₁.2 + e₂.2 + spacing - slack)

variable (parts : Fin n → PlaceablePart K) (frame : Frame K)

/-- Where a part is. -/
def State.at (st : State n K) (i : Fin n) : K × K := (st.x i, st.y i)

def State.moveTo (st : State n K) (i : Fin n) (p : K × K) : State n K :=
  { st with x := Function.update st.x i p.1, y := Function.update st.y i p.2 }

/-- The half extents of a part as it is turned. -/
def extents (st : State n K) (i : Fin n) : K × K := halfExtents (parts i) (st.r i)

/-- A place overlaps none of the parts that are placed. -/
def isFree (st : State n K) (placed : List (Fin n)) (i : Fin n) (p : K × K) : Bool :=
  placed.all fun j => !overlaps frame.spacing p (extents parts st i) (st.at j) (extents parts st j)

/-- `order`: by descending area, and then by the collation of the ids. -/
def legalOrder (localeCompare : Text → Text → Int) : List (Fin n) :=
  (List.finRange n).insertionSort fun a b =>
    (parts b).w * (parts b).h < (parts a).w * (parts a).h ∨
      ((parts b).w * (parts b).h = (parts a).w * (parts a).h ∧
        localeCompare (parts a).id (parts b).id ≤ 0)

variable [FloorRing K]

/-- `snap`. -/
def snap (v g : K) : K := ⌊v / g + halved 1⌋ * g

/-- How many cells a half extent leaves between the middle of the board and its edge. -/
def cellsTo (size e : K) : Int := ⌊(halved size - frame.margin - e) / frame.grid⌋

/-- `maxX`, `maxY`: the bounds of the center, on the grid. -/
def clampBounds (e : K × K) : K × K :=
  (cellsTo frame frame.boardW e.1 * frame.grid, cellsTo frame frame.boardH e.2 * frame.grid)

/-- `cx`, `cy`: the cell the walk begins at. -/
def walkCenter (bounds p : K × K) : K × K :=
  (min bounds.1 (max (-bounds.1) (snap p.1 frame.grid)),
    min bounds.2 (max (-bounds.2) (snap p.2 frame.grid)))

/-- `maxRing`, and one more. -/
def ringCount : Nat := (⌈max frame.boardW frame.boardH / frame.grid⌉ + 1).toNat

def inBounds (bounds p : K × K) : Bool :=
  !(decide (bounds.1 < p.1) || decide (p.1 < -bounds.1) || decide (bounds.2 < p.2) ||
    decide (p.2 < -bounds.2))

/-- The cells in the order in which they are tried. -/
def walk (center : K × K) : List (K × K) :=
  ((List.range (ringCount frame)).flatMap ringCells).map fun g =>
    (center.1 + g.1 * frame.grid, center.2 + g.2 * frame.grid)

/-- The first free cell for a part. -/
def freeCell (st : State n K) (placed : List (Fin n)) (i : Fin n) : Option (K × K) :=
  let bounds := clampBounds frame (extents parts st i)
  if bounds.1 < 0 ∨ bounds.2 < 0 then none
  else (walk frame (walkCenter frame bounds (st.at i))).find? fun p =>
    inBounds bounds p && isFree parts frame st placed i p

/-- The loop over the parts. -/
def legalizeFrom : List (Fin n) → List (Fin n) → State n K → Bool × State n K
  | [], _, st => (true, st)
  | i :: rest, placed, st =>
    if (parts i).fixed then legalizeFrom rest placed st
    else
      match freeCell parts frame st placed i with
      | none => (false, st)
      | some p => legalizeFrom rest (placed ++ [i]) (st.moveTo i p)

/-- `legalize`: whether there was room, and the state that is left. -/
def legalize (localeCompare : Text → Text → Int) (st : State n K) : Bool × State n K :=
  let order := legalOrder parts localeCompare
  legalizeFrom parts frame order (order.filter fun i => (parts i).fixed) st

/-! ## Cells on the board -/

variable [IsStrictOrderedRing K]

/-- A place on the grid. -/
def OnGrid (grid : K) (p : K × K) : Prop := ∃ a b : Int, p = (a * grid, b * grid)

/-- A place inside the bounds for the extents there. -/
def InBounds (frame : Frame K) (e p : K × K) : Prop :=
  |p.1| ≤ (clampBounds frame e).1 ∧ |p.2| ≤ (clampBounds frame e).2

omit [FloorRing K] in
theorem inBounds_iff {bounds p : K × K} :
    inBounds bounds p = true ↔ |p.1| ≤ bounds.1 ∧ |p.2| ≤ bounds.2 := by
  unfold inBounds
  simp only [Bool.not_eq_true', Bool.or_eq_false_iff, decide_eq_false_iff_not, not_lt, abs_le]
  constructor
  · rintro ⟨⟨⟨h1, h2⟩, h3⟩, h4⟩
    exact ⟨⟨h2, h1⟩, h4, h3⟩
  · rintro ⟨⟨h2, h1⟩, h4, h3⟩
    exact ⟨⟨⟨h1, h2⟩, h3⟩, h4⟩

omit [IsStrictOrderedRing K] in
theorem mem_walk {frame : Frame K} {center p : K × K} :
    p ∈ walk frame center ↔ ∃ a b : Int, max a.natAbs b.natAbs < ringCount frame ∧
      p = (center.1 + a * frame.grid, center.2 + b * frame.grid) := by
  unfold walk
  rw [List.mem_map]
  constructor
  · rintro ⟨⟨a, b⟩, hg, rfl⟩
    obtain ⟨ring, hring, hcell⟩ := List.mem_flatMap.mp hg
    rw [mem_ringCells] at hcell
    exact ⟨a, b, hcell ▸ List.mem_range.mp hring, rfl⟩
  · rintro ⟨a, b, hring, rfl⟩
    exact ⟨(a, b), List.mem_flatMap.mpr ⟨_, List.mem_range.mpr hring, mem_ringCells.mpr rfl⟩, rfl⟩

/-- The cell a walk begins at. -/
def centerCell (bound : Int) (v g : K) : Int := min bound (max (-bound) ⌊v / g + halved 1⌋)

omit [IsStrictOrderedRing K] in
theorem centerCell_bounds {bound : Int} (h : 0 ≤ bound) (v g : K) :
    -bound ≤ centerCell bound v g ∧ centerCell bound v g ≤ bound := by
  unfold centerCell
  omega

/-- The walk begins on the grid. -/
theorem walkCenter_eq {frame : Frame K} (hgrid : 0 < frame.grid) (e p : K × K) :
    walkCenter frame (clampBounds frame e) p =
      (centerCell (cellsTo frame frame.boardW e.1) p.1 frame.grid * frame.grid,
        centerCell (cellsTo frame frame.boardH e.2) p.2 frame.grid * frame.grid) := by
  have hone : ∀ (m s : Int), min (m * frame.grid) (max (-(m * frame.grid)) (s * frame.grid)) =
      ((min m (max (-m) s) : Int) : K) * frame.grid := by
    intro m s
    rw [Int.cast_min, Int.cast_max, Int.cast_neg, min_mul_of_nonneg _ _ hgrid.le,
      max_mul_of_nonneg _ _ hgrid.le, neg_mul]
  unfold walkCenter snap clampBounds centerCell
  rw [hone, hone]

/-- The rings reach from every cell between the bounds to every other one. -/
theorem two_mul_cellsTo_le {frame : Frame K} (hgrid : 0 < frame.grid) {size e : K}
    (hsize : size ≤ max frame.boardW frame.boardH) (he : 0 ≤ frame.margin + e) :
    2 * cellsTo frame size e ≤ ⌈max frame.boardW frame.boardH / frame.grid⌉ := by
  have hfloor := Int.floor_le ((halved size - frame.margin - e) / frame.grid)
  have hceil := Int.le_ceil (max frame.boardW frame.boardH / frame.grid)
  have hhalf : (halved size - frame.margin - e) / frame.grid * 2 ≤
      max frame.boardW frame.boardH / frame.grid := by
    rw [div_mul_eq_mul_div, halved_eq]
    exact div_le_div_of_nonneg_right (by linarith) hgrid.le
  have hcast : ((2 * cellsTo frame size e : Int) : K) ≤
      ⌈max frame.boardW frame.boardH / frame.grid⌉ := by
    unfold cellsTo
    push_cast
    linarith
  exact Int.cast_le.mp hcast

omit [FloorRing K] in
/-- A multiple of the grid is inside a bound where its cell is. -/
theorem abs_cell_le {g : K} (hgrid : 0 < g) {bound c : Int} :
    |(c : K) * g| ≤ bound * g ↔ |c| ≤ bound := by
  rw [abs_mul, abs_of_pos hgrid, mul_le_mul_iff_left₀ hgrid, ← Int.cast_abs, Int.cast_le]

omit [FloorRing K] in
theorem cells_nonneg {g : K} (hgrid : 0 < g) {bound : Int} (h : 0 ≤ (bound : K) * g) :
    0 ≤ bound := Int.cast_nonneg_iff.mp (nonneg_of_mul_nonneg_left h hgrid)

variable {parts} {frame}

omit [FloorRing K] in
theorem halfExtents_nonneg {p : PlaceablePart K} (h : 0 ≤ p.w ∧ 0 ≤ p.h) (r : Turn) :
    0 ≤ (halfExtents p r).1 ∧ 0 ≤ (halfExtents p r).2 := by
  unfold halfExtents
  split
  · exact ⟨halved_nonneg h.2, halved_nonneg h.1⟩
  · exact ⟨halved_nonneg h.1, halved_nonneg h.2⟩

/-- A cell that is found is on the grid, inside the bounds and free. -/
theorem freeCell_some (hgrid : 0 < frame.grid) {st : State n K} {placed : List (Fin n)}
    {i : Fin n} {p : K × K} (h : freeCell parts frame st placed i = some p) :
    OnGrid frame.grid p ∧ InBounds frame (extents parts st i) p ∧
      isFree parts frame st placed i p = true := by
  unfold freeCell at h
  dsimp only at h
  split at h
  case isTrue => cases h
  case isFalse =>
    have htest := List.find?_some h
    rw [Bool.and_eq_true] at htest
    obtain ⟨a, b, -, rfl⟩ := mem_walk.mp (List.mem_of_find?_eq_some h)
    refine ⟨?_, inBounds_iff.mp htest.1, htest.2⟩
    rw [walkCenter_eq hgrid]
    exact ⟨centerCell _ _ _ + a, centerCell _ _ _ + b, by
      rw [Int.cast_add, Int.cast_add, add_mul, add_mul]⟩

/-- Where no cell is found, every cell inside the bounds is taken. -/
theorem freeCell_none (hgrid : 0 < frame.grid) (hmargin : 0 ≤ frame.margin) {st : State n K}
    {placed : List (Fin n)} {i : Fin n} (hsize : 0 ≤ (parts i).w ∧ 0 ≤ (parts i).h)
    (h : freeCell parts frame st placed i = none) {p : K × K} (hp : OnGrid frame.grid p)
    (hin : InBounds frame (extents parts st i) p) :
    isFree parts frame st placed i p = false := by
  obtain ⟨he₁, he₂⟩ := halfExtents_nonneg hsize (st.r i)
  unfold freeCell at h
  dsimp only at h
  split at h
  case isTrue hneg =>
    -- no cell is inside bounds that are negative
    rcases hneg with hneg | hneg
    · exact absurd ((abs_nonneg p.1).trans hin.1) (not_le.mpr hneg)
    · exact absurd ((abs_nonneg p.2).trans hin.2) (not_le.mpr hneg)
  case isFalse hpos =>
    rw [not_or, not_lt, not_lt] at hpos
    have htest := List.find?_eq_none.mp h p ?_
    · rw [Bool.and_eq_true, inBounds_iff, not_and, Bool.not_eq_true] at htest
      exact htest hin
    · obtain ⟨a, b, rfl⟩ := hp
      have hx := two_mul_cellsTo_le hgrid (le_max_left frame.boardW frame.boardH)
        (add_nonneg hmargin he₁)
      have hy := two_mul_cellsTo_le hgrid (le_max_right frame.boardW frame.boardH)
        (add_nonneg hmargin he₂)
      have ha := abs_le.mp ((abs_cell_le hgrid).mp hin.1)
      have hb := abs_le.mp ((abs_cell_le hgrid).mp hin.2)
      have hcx := centerCell_bounds (cells_nonneg hgrid hpos.1) (st.at i).1 frame.grid
      have hcy := centerCell_bounds (cells_nonneg hgrid hpos.2) (st.at i).2 frame.grid
      rw [walkCenter_eq hgrid, mem_walk]
      unfold extents at ha hb hcx hcy ⊢
      generalize centerCell _ (st.at i).1 frame.grid = cx at hcx ⊢
      generalize centerCell _ (st.at i).2 frame.grid = cy at hcy ⊢
      refine ⟨a - cx, b - cy, ?_, ?_⟩
      · unfold ringCount
        omega
      · push_cast
        ring_nf

/-! ## The parts that are placed -/

/-- Two places are further apart than `gap` along one axis. -/
def Apart (gap : K) (p e q f : K × K) : Prop :=
  e.1 + f.1 + gap ≤ |q.1 - p.1| ∨ e.2 + f.2 + gap ≤ |q.2 - p.2|

omit [FloorRing K] [IsStrictOrderedRing K] in
theorem overlaps_eq_false {spacing : K} {p e q f : K × K} :
    overlaps spacing p e q f = false ↔ Apart (spacing - slack) p e q f := by
  unfold overlaps Apart
  rw [Bool.and_eq_false_iff, decide_eq_false_iff_not, decide_eq_false_iff_not, not_lt, not_lt,
    add_sub_assoc, add_sub_assoc]

omit [FloorRing K] [IsStrictOrderedRing K] in
theorem Apart.symm {gap : K} {p e q f : K × K} (h : Apart gap p e q f) : Apart gap q f p e := by
  unfold Apart at *
  rwa [abs_sub_comm, add_comm f.1, abs_sub_comm p.2, add_comm f.2]

omit [FloorRing K] [IsStrictOrderedRing K] in
theorem isFree_iff {st : State n K} {placed : List (Fin n)} {i : Fin n} {p : K × K} :
    isFree parts frame st placed i p = true ↔ ∀ j ∈ placed,
      Apart (frame.spacing - slack) p (extents parts st i) (st.at j) (extents parts st j) := by
  unfold isFree
  rw [List.all_eq_true]
  exact forall₂_congr fun j _ => by rw [Bool.not_eq_true', overlaps_eq_false]

section

omit [Field K] [LinearOrder K] [FloorRing K] [IsStrictOrderedRing K]

theorem State.moveTo_at_self (st : State n K) (i : Fin n) (p : K × K) :
    (st.moveTo i p).at i = p := by
  unfold State.at State.moveTo
  dsimp only
  rw [Function.update_self, Function.update_self]

theorem State.moveTo_at_of_ne (st : State n K) {i j : Fin n} (h : j ≠ i) (p : K × K) :
    (st.moveTo i p).at j = st.at j := by
  unfold State.at State.moveTo
  dsimp only
  rw [Function.update_of_ne h, Function.update_of_ne h]

end

/-- What the parts that are placed so far satisfy. -/
structure Settled (parts : Fin n → PlaceablePart K) (frame : Frame K) (placed : List (Fin n))
    (st : State n K) : Prop where
  cell : ∀ i ∈ placed, (parts i).fixed = false →
    OnGrid frame.grid (st.at i) ∧ InBounds frame (extents parts st i) (st.at i)
  apart : ∀ i ∈ placed, (parts i).fixed = false → ∀ j ∈ placed, j ≠ i →
    Apart (frame.spacing - slack) (st.at i) (extents parts st i) (st.at j) (extents parts st j)

/-- One part more. -/
theorem Settled.place {placed : List (Fin n)} {st : State n K} (h : Settled parts frame placed st)
    (hgrid : 0 < frame.grid) {i : Fin n} (hnew : i ∉ placed) {p : K × K}
    (hcell : freeCell parts frame st placed i = some p) :
    Settled parts frame (placed ++ [i]) (st.moveTo i p) := by
  obtain ⟨hon, hin, hfree⟩ := freeCell_some hgrid hcell
  rw [isFree_iff] at hfree
  have hne : ∀ j ∈ placed, j ≠ i := fun j hj e => hnew (e ▸ hj)
  have hext : ∀ j, extents parts (st.moveTo i p) j = extents parts st j := fun _ => rfl
  refine ⟨fun j hj hfixed => ?_, fun j hj hfixed k hk hjk => ?_⟩
  · rcases List.mem_append.mp hj with hj | hj
    · rw [State.moveTo_at_of_ne st (hne j hj), hext]
      exact h.cell j hj hfixed
    · rw [List.mem_singleton.mp hj, State.moveTo_at_self, hext]
      exact ⟨hon, hin⟩
  · rw [hext, hext]
    rcases List.mem_append.mp hj with hj | hj <;> rcases List.mem_append.mp hk with hk | hk
    · rw [State.moveTo_at_of_ne st (hne j hj), State.moveTo_at_of_ne st (hne k hk)]
      exact h.apart j hj hfixed k hk hjk
    · rw [List.mem_singleton.mp hk, State.moveTo_at_self, State.moveTo_at_of_ne st (hne j hj)]
      exact (hfree j hj).symm
    · rw [List.mem_singleton.mp hj, State.moveTo_at_self, State.moveTo_at_of_ne st (hne k hk)]
      exact hfree k hk
    · exact absurd ((List.mem_singleton.mp hk).trans (List.mem_singleton.mp hj).symm) hjk

/-- The parts of a list that are not pinned. -/
def unpinned (parts : Fin n → PlaceablePart K) (l : List (Fin n)) : List (Fin n) :=
  l.filter fun i => !(parts i).fixed

omit [FloorRing K] [IsStrictOrderedRing K] [Field K] [LinearOrder K] in
theorem unpinned_cons_of_fixed {i : Fin n} (h : (parts i).fixed = true) (l : List (Fin n)) :
    unpinned parts (i :: l) = unpinned parts l :=
  List.filter_cons_of_neg (by rw [h]; decide)

omit [FloorRing K] [IsStrictOrderedRing K] [Field K] [LinearOrder K] in
theorem unpinned_cons {i : Fin n} (h : (parts i).fixed = false) (l : List (Fin n)) :
    unpinned parts (i :: l) = i :: unpinned parts l :=
  List.filter_cons_of_pos (by rw [h]; rfl)

/-- What the loop leaves: the parts it has placed are settled, and where it stops there was no
cell for the next one. -/
theorem legalizeFrom_spec (hgrid : 0 < frame.grid) {rest placed : List (Fin n)} {st : State n K}
    (hs : Settled parts frame placed st) (hn : rest.Nodup)
    (hnew : ∀ i ∈ unpinned parts rest, i ∉ placed) :
    let r := legalizeFrom parts frame rest placed st
    r.2.r = st.r ∧ (∀ j, (parts j).fixed = true → r.2.at j = st.at j) ∧
      (r.1 = true → Settled parts frame (placed ++ unpinned parts rest) r.2) ∧
      (r.1 = false → ∃ pre i post, rest = pre ++ i :: post ∧ (parts i).fixed = false ∧
        freeCell parts frame r.2 (placed ++ unpinned parts pre) i = none) := by
  induction rest generalizing placed st with
  | nil =>
    refine ⟨rfl, fun _ _ => rfl, fun _ => ?_, fun h => Bool.noConfusion h⟩
    rw [show unpinned parts [] = [] from rfl, List.append_nil]
    exact hs
  | cons i rest ih =>
    obtain ⟨hi, hrest⟩ := List.nodup_cons.mp hn
    unfold legalizeFrom
    by_cases hfixed : (parts i).fixed = true
    · rw [if_pos hfixed]
      rw [unpinned_cons_of_fixed hfixed] at hnew ⊢
      obtain ⟨hr, hpins, htrue, hfalse⟩ := ih hs hrest hnew
      refine ⟨hr, hpins, htrue, fun h => ?_⟩
      obtain ⟨pre, k, post, hsplit, hk, hnone⟩ := hfalse h
      refine ⟨i :: pre, k, post, by rw [hsplit]; rfl, hk, ?_⟩
      rwa [unpinned_cons_of_fixed hfixed]
    · rw [if_neg hfixed]
      rw [Bool.not_eq_true] at hfixed
      rw [unpinned_cons hfixed] at hnew ⊢
      cases hcell : freeCell parts frame st placed i with
      | none =>
        refine ⟨rfl, fun _ _ => rfl, fun h => Bool.noConfusion h, fun _ => ?_⟩
        refine ⟨[], i, rest, rfl, hfixed, ?_⟩
        rw [show unpinned parts [] = [] from rfl, List.append_nil]
        exact hcell
      | some p =>
        have hplaced : ∀ j ∈ unpinned parts rest, j ∉ placed ++ [i] := by
          intro j hj hmem
          rcases List.mem_append.mp hmem with hmem | hmem
          · exact hnew j (List.mem_cons_of_mem i hj) hmem
          · rw [List.mem_singleton.mp hmem] at hj
            exact hi (List.mem_of_mem_filter hj)
        obtain ⟨hr, hpins, htrue, hfalse⟩ :=
          ih (hs.place hgrid (hnew i List.mem_cons_self) hcell) hrest hplaced
        refine ⟨hr, fun j hj => ?_, fun h => ?_, fun h => ?_⟩
        · rw [hpins j hj]
          refine State.moveTo_at_of_ne st (fun e => ?_) p
          rw [e, hfixed] at hj
          cases hj
        · have hsettled := htrue h
          rwa [List.append_assoc] at hsettled
        · obtain ⟨pre, k, post, hsplit, hk, hnone⟩ := hfalse h
          refine ⟨i :: pre, k, post, by rw [hsplit]; rfl, hk, ?_⟩
          rw [List.append_assoc] at hnone
          rwa [unpinned_cons hfixed]

omit [FloorRing K] [IsStrictOrderedRing K] in
theorem perm_legalOrder (parts : Fin n → PlaceablePart K) (localeCompare : Text → Text → Int) :
    (legalOrder parts localeCompare).Perm (List.finRange n) :=
  List.perm_insertionSort _ _

/-- The legalizer fails only when there is no cell for the next part, and else every part is on the
grid, inside its bounds and apart from the others. -/
theorem legalize_fails_only_when_full (parts : Fin n → PlaceablePart K) (frame : Frame K)
    (localeCompare : Text → Text → Int) (st : State n K) (hgrid : 0 < frame.grid)
    (hmargin : 0 ≤ frame.margin) (hsize : ∀ i, 0 ≤ (parts i).w ∧ 0 ≤ (parts i).h) :
    let r := legalize parts frame localeCompare st
    r.2.r = st.r ∧ (∀ j, (parts j).fixed = true → r.2.at j = st.at j) ∧
      (r.1 = true → ∀ i, (parts i).fixed = false → OnGrid frame.grid (r.2.at i) ∧
        InBounds frame (extents parts r.2 i) (r.2.at i) ∧
        ∀ j, j ≠ i → Apart (frame.spacing - slack) (r.2.at i) (extents parts r.2 i) (r.2.at j)
          (extents parts r.2 j)) ∧
      (r.1 = false → ∃ pre i post, legalOrder parts localeCompare = pre ++ i :: post ∧
        (parts i).fixed = false ∧
        ∀ p, OnGrid frame.grid p → InBounds frame (extents parts r.2 i) p →
          ∃ j, ((parts j).fixed = true ∨ j ∈ pre) ∧
            ¬ Apart (frame.spacing - slack) p (extents parts r.2 i) (r.2.at j)
              (extents parts r.2 j)) := by
  intro r
  have hperm := perm_legalOrder parts localeCompare
  have hnodup := hperm.nodup_iff.mpr (List.nodup_finRange n)
  have hmem : ∀ i, i ∈ legalOrder parts localeCompare := fun i =>
    hperm.mem_iff.mpr (List.mem_finRange i)
  have hpinned : ∀ {i}, i ∈ (legalOrder parts localeCompare).filter (fun i => (parts i).fixed) →
      (parts i).fixed = true := fun h => (List.mem_filter.mp h).2
  have hstart : Settled parts frame
      ((legalOrder parts localeCompare).filter fun i => (parts i).fixed) st := by
    refine ⟨fun i hi hf => ?_, fun i hi hf => ?_⟩ <;>
      · rw [hpinned hi] at hf
        cases hf
  obtain ⟨hr, hpins, htrue, hfalse⟩ := legalizeFrom_spec hgrid hstart hnodup fun i hi hp => by
    have hf := (List.mem_filter.mp hi).2
    rw [hpinned hp] at hf
    cases hf
  refine ⟨hr, hpins, fun h i hi => ?_, fun h => ?_⟩
  · have hsettled := htrue h
    have hplaced : ∀ j, j ∈ (legalOrder parts localeCompare).filter (fun i => (parts i).fixed) ++
        unpinned parts (legalOrder parts localeCompare) := by
      intro j
      cases hf : (parts j).fixed with
      | true => exact List.mem_append_left _ (List.mem_filter.mpr ⟨hmem j, hf⟩)
      | false => exact List.mem_append_right _ (List.mem_filter.mpr ⟨hmem j, by rw [hf]; rfl⟩)
    obtain ⟨hon, hin⟩ := hsettled.cell i (hplaced i) hi
    exact ⟨hon, hin, fun j hj => hsettled.apart i (hplaced i) hi j (hplaced j) hj⟩
  · obtain ⟨pre, i, post, hsplit, hi, hnone⟩ := hfalse h
    refine ⟨pre, i, post, hsplit, hi, fun p hp hin => ?_⟩
    have hfull := freeCell_none hgrid hmargin (hsize i) hnone hp hin
    rw [← Bool.not_eq_true, isFree_iff] at hfull
    simp only [not_forall, exists_prop] at hfull
    obtain ⟨j, hj, hnot⟩ := hfull
    refine ⟨j, ?_, hnot⟩
    rcases List.mem_append.mp hj with hj | hj
    · exact Or.inl (hpinned hj)
    · exact Or.inr (List.mem_of_mem_filter hj)

end

/-- Every part at the middle of the board. -/
def heaped (n : Nat) : State n ℚ where
  x := fun _ => 0
  y := fun _ => 0
  r := fun _ => .deg0

/-- A board of a given size and margin with a grid of one and no spacing. -/
def board (size margin : ℚ) : Frame ℚ where
  boardW := size
  boardH := size
  grid := 1
  margin := margin
  spacing := 0

/-- Two parts of one size. -/
def twins (size : ℚ) : Fin 2 → PlaceablePart ℚ := fun _ => { id := [], w := size, h := size }

/-- A pinned part and a small one. -/
def pinAndPart : Fin 2 → PlaceablePart ℚ := fun i =>
  if i = 0 then { id := ['U'], w := 10, h := 10, fixed := true }
  else { id := ['R'], w := 1, h := 1 }

theorem legalize_fails_only_when_full_twins :
    let r := legalize (twins 1) (board 10 0) (fun _ _ => 0) (heaped 2)
    r.1 = true ∧ ∀ i, OnGrid 1 (r.2.at i) ∧
      InBounds (board 10 0) (extents (twins 1) r.2 i) (r.2.at i) ∧
      ∀ j, j ≠ i → Apart (0 - slack) (r.2.at i) (extents (twins 1) r.2 i) (r.2.at j)
        (extents (twins 1) r.2 j) := by
  intro r
  have hr : r.1 = true := by decide +kernel
  have h := legalize_fails_only_when_full (twins 1) (board 10 0) (fun _ _ => 0) (heaped 2)
    (by decide +kernel) (by decide +kernel) (by decide +kernel)
  exact ⟨hr, fun i => h.2.2.1 hr i rfl⟩

/-- Two parts that are half a nanometre larger than the grid. -/
def nearRun : Bool × State 2 ℚ :=
  legalize (twins (1 + 1 / (2 * 10 ^ 9))) (board 10 0) (fun _ _ => 0) (heaped 2)

/-- A pin on the cells that the rings of a small board reach, behind a negative margin. -/
def shortRun : Bool × State 2 ℚ :=
  legalize pinAndPart (board 2 (-10)) (fun _ _ => 0) (heaped 2)

/-- The two parts are left nearer than the spacing, and the rings end before the free cells. -/
theorem legalize_near_or_short :
    (nearRun.1 = true ∧ ¬ Apart 0 (nearRun.2.at 0)
        (extents (twins (1 + 1 / (2 * 10 ^ 9))) nearRun.2 0) (nearRun.2.at 1)
        (extents (twins (1 + 1 / (2 * 10 ^ 9))) nearRun.2 1)) ∧
      shortRun.1 = false ∧ OnGrid 1 ((6, 0) : ℚ × ℚ) ∧
      InBounds (board 2 (-10)) (extents pinAndPart shortRun.2 1) (6, 0) ∧
      Apart 0 (6, 0) (extents pinAndPart shortRun.2 1) (shortRun.2.at 0)
        (extents pinAndPart shortRun.2 0) := by
  refine ⟨⟨by decide +kernel, ?_⟩, by decide +kernel, ⟨6, 0, by norm_num⟩, ?_, ?_⟩
  · unfold Apart
    decide +kernel
  · unfold InBounds
    decide +kernel
  · unfold Apart
    decide +kernel

end CircuitForge.Placement
