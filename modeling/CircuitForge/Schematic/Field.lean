/-
The spatial index of the router: `makeField` and `admissible` of `schematic/route.ts`.

A symbol, a terminal and a claimed wire are asked about through the cells they cover.  Two things
that touch have a point in common, and the cell of that point is one of both; so the index gives the
answers that a look at everything would give.
-/
import CircuitForge.Js.CellIndex
import CircuitForge.Schematic.Junctions
import Mathlib.Data.Rat.Floor

namespace CircuitForge

open Js CellIndex

deriving instance DecidableEq for Bounds

namespace Routing

/-! ## The exact tests -/

/-- The clipping of `entersBox`: what is left of the segment, between `t0` and `t1`. -/
def clip : Rat → Rat → List (Rat × Rat) → Bool
  | t0, t1, [] => t1 - t0 > 0
  | t0, t1, (p, q) :: edges =>
    if p = 0 then if q ≤ 0 then false else clip t0 t1 edges
    else
      let r := q / p
      if p < 0 then if r > t1 then false else clip (if r > t0 then r else t0) t1 edges
      else if r < t0 then false else clip t0 (if r < t1 then r else t1) edges

def entersBox (s : Seg) (b : Bounds Rat) : Bool :=
  let dx := s.x2 - s.x1
  let dy := s.y2 - s.y1
  clip 0 1 [(-dx, s.x1 - b.minX), (dx, b.maxX - s.x1), (-dy, s.y1 - b.minY), (dy, b.maxY - s.y1)]

def cross (ax ay bx by' : Rat) : Rat := ax * by' - ay * bx

def readsAsConnected (a b : Seg) : Bool :=
  let adx := a.x2 - a.x1
  let ady := a.y2 - a.y1
  let bdx := b.x2 - b.x1
  let bdy := b.y2 - b.y1
  let d1 := cross bdx bdy (a.x1 - b.x1) (a.y1 - b.y1)
  let d2 := cross bdx bdy (a.x2 - b.x1) (a.y2 - b.y1)
  let d3 := cross adx ady (b.x1 - a.x1) (b.y1 - a.y1)
  let d4 := cross adx ady (b.x2 - a.x1) (b.y2 - a.y1)
  if d1 * d2 < 0 ∧ d3 * d4 < 0 then false
  else
    (d1 = 0 && touchesPoint b a.x1 a.y1) || (d2 = 0 && touchesPoint b a.x2 a.y2) ||
      (d3 = 0 && touchesPoint a b.x1 b.y1) || (d4 = 0 && touchesPoint a b.x2 b.y2)

/-! ## Cells -/

/-- `Math.floor(v / CELL)`. -/
def cellOf (v : Rat) : Int := (v / 64).floor

def cellKey (cx cy : Int) : Text := (toString cx).toList ++ ',' :: (toString cy).toList

def sprawling : Text := "sprawling".toList

/-- The integers of `for (let c = low; c <= high; c++)`. -/
def upTo (low high : Int) : List Int :=
  (List.range (high - low + 1).toNat).map fun i : Nat => low + i

/-- `cells`: none for more than `MAX_CELLS`. -/
def cells (minX minY maxX maxY : Rat) : Option (List Text) :=
  let wide := cellOf maxX - cellOf minX + 1
  let tall := cellOf maxY - cellOf minY + 1
  if wide * tall > 4096 then none
  else some ((upTo (cellOf minX) (cellOf maxX)).flatMap fun cx =>
    (upTo (cellOf minY) (cellOf maxY)).map fun cy => cellKey cx cy)

/-- `around`. -/
def around (s : Seg) : Option (List Text) :=
  cells (min s.x1 s.x2) (min s.y1 s.y2) (max s.x1 s.x2) (max s.y1 s.y2)

/-! ## The field -/

structure RoutePin extends XY where
  side : Side
  label : Text
  deriving DecidableEq

/-- An entry of `pinGrid`. -/
structure NetPin where
  pin : RoutePin
  netId : Text
  deriving DecidableEq

/-- The three grids.  Every entry is numbered, as every object is one of its own. -/
structure Field where
  bodyGrid : Grid Text (Bounds Rat × Nat)
  pinGrid : Grid Text (NetPin × Nat)
  runGrid : Grid Text (Seg × Nat)
  /-- How many terminals and how many segments there are. -/
  pins : Nat
  runs : Nat

def bodyCells (b : Bounds Rat × Nat) : Option (List Text) :=
  cells b.1.minX b.1.minY b.1.maxX b.1.maxY

def pinKey (e : NetPin × Nat) : Text := cellKey (cellOf e.1.pin.x) (cellOf e.1.pin.y)

def makeField (bodies : List (Bounds Rat)) : Field :=
  { bodyGrid := fill bodyCells sprawling bodies.zipIdx []
    pinGrid := []
    runGrid := []
    pins := 0
    runs := 0 }

namespace Field

def bodiesNear (field : Field) (s : Seg) : List (Bounds Rat) :=
  (near sprawling field.bodyGrid (around s)).map Prod.fst

def addPin (field : Field) (pin : RoutePin) (netId : Text) : Field :=
  let entry : NetPin × Nat := (⟨pin, netId⟩, field.pins)
  { field with pinGrid := put field.pinGrid (pinKey entry) entry, pins := field.pins + 1 }

def foreignPinOn (field : Field) (s : Seg) (netId : Text) : Bool :=
  (gather field.pinGrid (around s)).any fun e =>
    e.1.netId ≠ netId && touchesPoint s e.1.pin.x e.1.pin.y

def pinsAt (field : Field) (x y : Rat) (netId : Text) : List RoutePin :=
  ((gather field.pinGrid (cells x y x y)).filter fun e =>
    e.1.netId = netId && e.1.pin.x = x && e.1.pin.y = y).map fun e => e.1.pin

/-- One segment of `claim`. -/
def claimOne (field : Field) (s : Seg) : Field :=
  { field with
    runGrid := putAll field.runGrid ((around s).getD [sprawling]) (s, field.runs)
    runs := field.runs + 1 }

def claim (field : Field) (segs : List Seg) : Field := segs.foldl claimOne field

def touchesClaimed (field : Field) (s : Seg) : Bool :=
  (near sprawling field.runGrid (around s)).any fun c => readsAsConnected s c.1

/-- `admissible`. -/
def admissible (field : Field) (pts : List XY) (netId : Text) : Bool :=
  (segsOf pts).all fun s =>
    !(field.bodiesNear s).any (entersBox s) && !field.foreignPinOn s netId &&
      !field.touchesClaimed s

end Field

/-- What is done to a field. -/
inductive FieldStep where
  | addPin (pin : RoutePin) (netId : Text)
  | claim (segs : List Seg)

def Field.step (field : Field) : FieldStep → Field
  | .addPin pin netId => field.addPin pin netId
  | .claim segs => field.claim segs

/-! ## Everything there is -/

/-- All that a field has been given, in lists. -/
structure Sheet where
  bodies : List (Bounds Rat)
  pins : List NetPin := []
  runs : List Seg := []

namespace Sheet

def step (sheet : Sheet) : FieldStep → Sheet
  | .addPin pin netId => { sheet with pins := sheet.pins ++ [⟨pin, netId⟩] }
  | .claim segs => { sheet with runs := sheet.runs ++ segs }

/-- The tests of a field, over all boxes, terminals and claimed segments. -/
def entersBody (sheet : Sheet) (s : Seg) : Bool := sheet.bodies.any (entersBox s)

def foreignPinOn (sheet : Sheet) (s : Seg) (netId : Text) : Bool :=
  sheet.pins.any fun e => e.netId ≠ netId && touchesPoint s e.pin.x e.pin.y

def pinsAt (sheet : Sheet) (x y : Rat) (netId : Text) : List RoutePin :=
  (sheet.pins.filter fun e => e.netId = netId && e.pin.x = x && e.pin.y = y).map NetPin.pin

def touchesClaimed (sheet : Sheet) (s : Seg) : Bool := sheet.runs.any (readsAsConnected s)

def admissible (sheet : Sheet) (pts : List XY) (netId : Text) : Bool :=
  (segsOf pts).all fun s =>
    !sheet.entersBody s && !sheet.foreignPinOn s netId && !sheet.touchesClaimed s

end Sheet

/-! ## Cells of a common point -/

theorem cellOf_mono {v w : Rat} (h : v ≤ w) : cellOf v ≤ cellOf w :=
  Int.floor_mono (div_le_div_of_nonneg_right h (by norm_num))

theorem mem_upTo {low high n : Int} (hlow : low ≤ n) (hhigh : n ≤ high) : n ∈ upTo low high := by
  refine List.mem_map.mpr ⟨(n - low).toNat, List.mem_range.mpr ?_, ?_⟩ <;> omega

theorem mem_cells {minX minY maxX maxY x y : Rat} {ks : List Text}
    (h : cells minX minY maxX maxY = some ks) (hx : minX ≤ x ∧ x ≤ maxX) (hy : minY ≤ y ∧ y ≤ maxY) :
    cellKey (cellOf x) (cellOf y) ∈ ks := by
  unfold cells at h
  simp only at h
  split at h
  · cases h
  · obtain rfl := Option.some.inj h
    exact List.mem_flatMap.mpr ⟨cellOf x, mem_upTo (cellOf_mono hx.1) (cellOf_mono hx.2),
      List.mem_map_of_mem (mem_upTo (cellOf_mono hy.1) (cellOf_mono hy.2))⟩

/-- Where the point of a thing lies among its cells. -/
def Covers (item : Option (List Text)) (x y : Rat) : Prop :=
  ∀ ks, item = some ks → cellKey (cellOf x) (cellOf y) ∈ ks

theorem meets_of_covers {query item : Option (List Text)} {x y : Rat} (hquery : Covers query x y)
    (hitem : Covers item x y) : Meets query item := by
  constructor
  · intro he
    exact absurd (hitem [] he) List.not_mem_nil
  · intro ks ls hks hls
    exact ⟨_, hquery ks hks, hitem ls hls⟩

theorem covers_of_touchesPoint {s : Seg} {x y : Rat} (h : touchesPoint s x y = true) :
    Covers (around s) x y := by
  unfold touchesPoint onSegment at h
  simp only [Bool.and_eq_true, decide_eq_true_eq] at h
  obtain ⟨⟨⟨⟨-, hx⟩, hx'⟩, hy⟩, hy'⟩ := h
  exact fun ks hks => mem_cells hks ⟨hx, hx'⟩ ⟨hy, hy'⟩

theorem covers_start (s : Seg) : Covers (around s) s.x1 s.y1 := fun _ hks =>
  mem_cells hks ⟨min_le_left _ _, le_max_left _ _⟩ ⟨min_le_left _ _, le_max_left _ _⟩

theorem covers_end (s : Seg) : Covers (around s) s.x2 s.y2 := fun _ hks =>
  mem_cells hks ⟨min_le_right _ _, le_max_right _ _⟩ ⟨min_le_right _ _, le_max_right _ _⟩

/-- Segments that read as connected touch in an end of one of them. -/
theorem meets_of_readsAsConnected {a b : Seg} (h : readsAsConnected a b = true) :
    Meets (around a) (around b) := by
  unfold readsAsConnected at h
  simp only at h
  split at h
  · cases h
  · simp only [Bool.or_eq_true, Bool.and_eq_true, decide_eq_true_eq] at h
    rcases h with ((⟨-, h⟩ | ⟨-, h⟩) | ⟨-, h⟩) | ⟨-, h⟩
    · exact meets_of_covers (covers_start a) (covers_of_touchesPoint h)
    · exact meets_of_covers (covers_end a) (covers_of_touchesPoint h)
    · exact meets_of_covers (covers_of_touchesPoint h) (covers_start b)
    · exact meets_of_covers (covers_of_touchesPoint h) (covers_end b)

/-- What the clipping leaves is on the inner side of every edge. -/
theorem exists_of_clip {edges : List (Rat × Rat)} {t0 t1 : Rat} (h : clip t0 t1 edges = true) :
    ∃ t, t0 ≤ t ∧ t ≤ t1 ∧ ∀ e ∈ edges, t * e.1 ≤ e.2 := by
  induction edges generalizing t0 t1 with
  | nil =>
    rw [clip, decide_eq_true_eq] at h
    exact ⟨t0, le_rfl, by linarith, fun _ he => absurd he List.not_mem_nil⟩
  | cons e edges ih =>
    obtain ⟨p, q⟩ := e
    rw [clip] at h
    by_cases hp : p = 0
    · rw [if_pos hp] at h
      split_ifs at h with hq
      obtain ⟨t, h0, h1, hall⟩ := ih h
      refine ⟨t, h0, h1, List.forall_mem_cons.mpr ⟨?_, hall⟩⟩
      rw [hp, mul_zero]
      exact le_of_lt (not_le.mp hq)
    · rw [if_neg hp] at h
      simp only at h
      by_cases hneg : p < 0
      · rw [if_pos hneg] at h
        split_ifs at h with hout hlater
        · obtain ⟨t, h0, h1, hall⟩ := ih h
          exact ⟨t, le_trans (le_of_lt hlater) h0, h1,
            List.forall_mem_cons.mpr ⟨(div_le_iff_of_neg hneg).mp h0, hall⟩⟩
        · obtain ⟨t, h0, h1, hall⟩ := ih h
          exact ⟨t, h0, h1, List.forall_mem_cons.mpr
            ⟨(div_le_iff_of_neg hneg).mp (le_trans (not_lt.mp hlater) h0), hall⟩⟩
      · have hpos : 0 < p := lt_of_le_of_ne (not_lt.mp hneg) (Ne.symm hp)
        rw [if_neg hneg] at h
        split_ifs at h with hout hsooner
        · obtain ⟨t, h0, h1, hall⟩ := ih h
          exact ⟨t, h0, le_trans h1 (le_of_lt hsooner),
            List.forall_mem_cons.mpr ⟨(le_div_iff₀ hpos).mp h1, hall⟩⟩
        · obtain ⟨t, h0, h1, hall⟩ := ih h
          exact ⟨t, h0, h1, List.forall_mem_cons.mpr
            ⟨(le_div_iff₀ hpos).mp (le_trans h1 (not_lt.mp hsooner)), hall⟩⟩

/-- A point of a segment lies between its ends. -/
theorem between_ends {a b t : Rat} (h0 : 0 ≤ t) (h1 : t ≤ 1) :
    min a b ≤ a + t * (b - a) ∧ a + t * (b - a) ≤ max a b := by
  rcases le_total a b with hab | hab
  · rw [min_eq_left hab, max_eq_right hab]
    have hlow := mul_nonneg h0 (sub_nonneg.mpr hab)
    have hhigh := mul_le_mul_of_nonneg_right h1 (sub_nonneg.mpr hab)
    constructor <;> linarith
  · rw [min_eq_right hab, max_eq_left hab]
    have hlow := mul_nonneg h0 (sub_nonneg.mpr hab)
    have hhigh := mul_le_mul_of_nonneg_right h1 (sub_nonneg.mpr hab)
    constructor <;> linarith

/-- A segment that enters a box has a point in it. -/
theorem meets_of_entersBox {s : Seg} {b : Bounds Rat} (h : entersBox s b = true) :
    Meets (around s) (cells b.minX b.minY b.maxX b.maxY) := by
  obtain ⟨t, h0, h1, hall⟩ := exists_of_clip h
  simp only [List.forall_mem_cons] at hall
  obtain ⟨hleft, hright, htop, hbottom, -⟩ := hall
  have hx := between_ends (a := s.x1) (b := s.x2) h0 h1
  have hy := between_ends (a := s.y1) (b := s.y2) h0 h1
  refine meets_of_covers (x := s.x1 + t * (s.x2 - s.x1)) (y := s.y1 + t * (s.y2 - s.y1))
    (fun ks hks => mem_cells hks hx hy) fun ks hks => mem_cells hks ?_ ?_
  · constructor <;> linarith
  · constructor <;> linarith

/-! ## The field and the lists -/

def pinCells (e : NetPin × Nat) : Option (List Text) := some [pinKey e]

/-- The field of what there is. -/
def indexOf (sheet : Sheet) : Field :=
  { bodyGrid := fill bodyCells sprawling sheet.bodies.zipIdx []
    pinGrid := fill pinCells sprawling sheet.pins.zipIdx []
    runGrid := fill (fun c => around c.1) sprawling sheet.runs.zipIdx []
    pins := sheet.pins.length
    runs := sheet.runs.length }

theorem zipIdx_concat {α : Type} (xs : List α) (x : α) :
    (xs ++ [x]).zipIdx = xs.zipIdx ++ [(x, xs.length)] := by
  rw [List.zipIdx_append, List.zipIdx_singleton, Nat.zero_add]

theorem fill_concat {α : Type} [DecidableEq α] (cells : α → Option (List Text)) (vs : List α)
    (v : α) : fill cells sprawling (vs ++ [v]) [] =
      putAll (fill cells sprawling vs []) ((cells v).getD [sprawling]) v :=
  List.foldl_concat ..

theorem claimOne_indexOf (sheet : Sheet) (s : Seg) :
    (indexOf sheet).claimOne s = indexOf { sheet with runs := sheet.runs ++ [s] } := by
  rw [Field.claimOne, indexOf, indexOf, zipIdx_concat, fill_concat, List.length_append,
    List.length_singleton]

theorem step_indexOf (sheet : Sheet) (st : FieldStep) :
    (indexOf sheet).step st = indexOf (sheet.step st) := by
  cases st with
  | addPin pin netId =>
    rw [Field.step, Field.addPin, Sheet.step, indexOf, indexOf, zipIdx_concat, fill_concat,
      List.length_append, List.length_singleton]
    rfl
  | claim segs =>
    rw [Field.step, Field.claim, Sheet.step]
    induction segs generalizing sheet with
    | nil => rw [List.foldl_nil, List.append_nil]
    | cons s segs ih =>
      rw [List.foldl_cons, claimOne_indexOf, ih, List.append_assoc, List.singleton_append]

/-- A field holds what it has been given, after any steps. -/
theorem run_makeField (bodies : List (Bounds Rat)) (steps : List FieldStep) :
    steps.foldl Field.step (makeField bodies) =
      indexOf (steps.foldl Sheet.step { bodies }) := by
  have hrun : ∀ sheet : Sheet, steps.foldl Field.step (indexOf sheet) =
      indexOf (steps.foldl Sheet.step sheet) := by
    induction steps with
    | nil => exact fun _ => rfl
    | cons st steps ih =>
      intro sheet
      rw [List.foldl_cons, List.foldl_cons, step_indexOf, ih]
  exact hrun { bodies }

/-! ## One answer -/

/-- A test of the items, over the numbered ones. -/
theorem any_zipIdx {α : Type} (xs : List α) (p : α → Bool) :
    (xs.zipIdx.any fun e => p e.1) = xs.any p := by
  rw [← Function.comp_def p Prod.fst, ← List.any_map, List.zipIdx_map_fst]

theorem filter_zipIdx {α : Type} (xs : List α) (p : α → Bool) :
    (xs.zipIdx.filter fun e => p e.1).map Prod.fst = xs.filter p := by
  rw [← Function.comp_def p Prod.fst, ← List.filter_map, List.zipIdx_map_fst]

theorem bodiesNear_indexOf (sheet : Sheet) (s : Seg) :
    ((indexOf sheet).bodiesNear s).any (entersBox s) = sheet.entersBody s := by
  have hnear : (near sprawling (fill bodyCells sprawling sheet.bodies.zipIdx [])
      (around s)).any (fun e => entersBox s e.1) =
      sheet.bodies.zipIdx.any fun e => entersBox s e.1 :=
    any_near fun _ _ h => meets_of_entersBox h
  rw [Field.bodiesNear, List.any_map, Sheet.entersBody, ← any_zipIdx sheet.bodies]
  exact hnear

theorem foreignPinOn_indexOf (sheet : Sheet) (s : Seg) (netId : Text) :
    (indexOf sheet).foreignPinOn s netId = sheet.foreignPinOn s netId := by
  have hmeets : ∀ e ∈ sheet.pins.zipIdx,
      (decide (e.1.netId ≠ netId) && touchesPoint s e.1.pin.x e.1.pin.y) = true →
      Meets (around s) (pinCells e) := by
    intro e _ h
    rw [Bool.and_eq_true] at h
    refine meets_of_covers (covers_of_touchesPoint h.2) fun ks hks => ?_
    rw [← Option.some.inj hks]
    exact List.mem_singleton_self _
  have hgather : (gather (fill pinCells sprawling sheet.pins.zipIdx []) (around s)).any (fun e =>
      decide (e.1.netId ≠ netId) && touchesPoint s e.1.pin.x e.1.pin.y) =
      sheet.pins.zipIdx.any fun e =>
        decide (e.1.netId ≠ netId) && touchesPoint s e.1.pin.x e.1.pin.y :=
    any_gather hmeets fun _ _ => Option.some_ne_none _
  rw [Sheet.foreignPinOn, ← any_zipIdx sheet.pins]
  exact hgather

theorem touchesClaimed_indexOf (sheet : Sheet) (s : Seg) :
    (indexOf sheet).touchesClaimed s = sheet.touchesClaimed s := by
  have hnear : (near sprawling (fill (fun c : Seg × Nat => around c.1) sprawling
      sheet.runs.zipIdx []) (around s)).any (fun c => readsAsConnected s c.1) =
      sheet.runs.zipIdx.any fun c => readsAsConnected s c.1 :=
    any_near fun _ _ h => meets_of_readsAsConnected h
  rw [Sheet.touchesClaimed, ← any_zipIdx sheet.runs]
  exact hnear

theorem cells_point (x y : Rat) : cells x y x y = some [cellKey (cellOf x) (cellOf y)] := by
  have hone : ∀ c : Int, upTo c c = [c] := by
    intro c
    rw [upTo, show c - c + 1 = 1 by omega]
    simp
  rw [cells, if_neg (by omega), hone, hone]
  rfl

theorem pinsAt_indexOf (sheet : Sheet) (x y : Rat) (netId : Text) :
    (indexOf sheet).pinsAt x y netId = sheet.pinsAt x y netId := by
  have hnodup : sheet.pins.zipIdx.Nodup := by
    refine List.Nodup.of_map Prod.snd ?_
    rw [List.zipIdx_map_snd]
    exact List.nodup_range'
  have hcells : ∀ e, pinCells e = some [pinKey e] := fun _ => rfl
  rw [Field.pinsAt, cells_point, indexOf, gather_one hcells hnodup, List.filter_filter]
  -- what is at the point is in its cell
  have hcell : ∀ e : NetPin × Nat,
      ((decide (e.1.netId = netId) && decide (e.1.pin.x = x) && decide (e.1.pin.y = y)) &&
        decide (pinKey e = cellKey (cellOf x) (cellOf y))) =
      (decide (e.1.netId = netId) && decide (e.1.pin.x = x) && decide (e.1.pin.y = y)) := by
    intro e
    by_cases hx : e.1.pin.x = x
    · by_cases hy : e.1.pin.y = y
      · rw [pinKey, hx, hy]
        simp
      · simp [hy]
    · simp [hx]
  simp only [hcell]
  rw [Sheet.pinsAt, ← filter_zipIdx sheet.pins, List.map_map]
  rfl

end Routing

end CircuitForge
