/-
Parts brought onto one edge: `alignParts` of `schematic/align.ts`.

What is lined up are the edges of the symbols, and every part is rounded to the lattice for itself.
The edges are left within half a step of the target, so that the target of a second alignment is
another one.
-/
import CircuitForge.Js.Rounding
import CircuitForge.Schematic.Wiring
import Mathlib.Data.Rat.Floor

namespace CircuitForge

open Js Rounding

/-- `PlacedPart`, as far as it is aligned: its place, and the bounds of its symbol. -/
structure PlacedPart extends XY where
  id : Text
  bounds : Bounds Rat

inductive AlignEdge where
  | left | right | top | bottom | centreX | centreY
  deriving DecidableEq

namespace AlignEdge

def vertical : AlignEdge → Bool
  | top | bottom | centreY => true
  | left | right | centreX => false

/-- The edge of a box, or the middle between two. -/
def of (b : Bounds Rat) : AlignEdge → Rat
  | left => b.minX
  | right => b.maxX
  | top => b.minY
  | bottom => b.maxY
  | centreX => (b.minX + b.maxX) / 2
  | centreY => (b.minY + b.maxY) / 2

end AlignEdge

def boxOf (p : PlacedPart) : Bounds Rat :=
  ⟨p.x + p.bounds.minX, p.y + p.bounds.minY, p.x + p.bounds.maxX, p.y + p.bounds.maxY⟩

/-- `Math.min` and `Math.max` of numbers, of which there are some. -/
def least (xs : List Rat) : Rat := xs.min?.getD 0

def greatest (xs : List Rat) : Rat := xs.max?.getD 0

/-- `to`. -/
def alignTarget (boxes : List (Bounds Rat)) : AlignEdge → Rat
  | .left => least (boxes.map Bounds.minX)
  | .right => greatest (boxes.map Bounds.maxX)
  | .top => least (boxes.map Bounds.minY)
  | .bottom => greatest (boxes.map Bounds.maxY)
  | .centreX => (least (boxes.map Bounds.minX) + greatest (boxes.map Bounds.maxX)) / 2
  | .centreY => (least (boxes.map Bounds.minY) + greatest (boxes.map Bounds.maxY)) / 2

/-- `next`: where a part comes to be. -/
def alignedAt (edge : AlignEdge) (target : Rat) (p : PlacedPart) : XY :=
  let shift := target - edge.of (boxOf p)
  if edge.vertical then ⟨snap p.x, snap (p.y + shift)⟩ else ⟨snap (p.x + shift), snap p.y⟩

/-- `{ ...positions?.[p.id], ...next }`. -/
def storedAt (positions : Map Text Position) (id : Text) (next : XY) : Position :=
  { (positions.get? id).getD { next with } with toXY := next }

/-- The record `moved`: the parts that come to be elsewhere. -/
def movesOf (positions : Map Text Position) (nexts : List (PlacedPart × XY)) : Map Text Position :=
  nexts.foldl (fun moved e =>
    if e.2 ≠ e.1.toXY then moved.set e.1.id (storedAt positions e.1.id e.2) else moved) []

def alignParts (parts : List PlacedPart) (edge : AlignEdge)
    (positions : Map Text Position := []) : Map Text Position :=
  if parts.length < 2 then []
  else
    let target := alignTarget (parts.map boxOf) edge
    movesOf positions (parts.map fun p => (p, alignedAt edge target p))

/-! ## Parts after their moves -/

def PlacedPart.placed (p : PlacedPart) (at' : XY) : PlacedPart := { p with toXY := at' }

/-- A part where the moves have it. -/
def afterMove (moves : Map Text Position) (p : PlacedPart) : PlacedPart :=
  match moves.get? p.id with
  | some at' => p.placed at'.toXY
  | none => p

def afterMoves (moves : Map Text Position) (parts : List PlacedPart) : List PlacedPart :=
  parts.map (afterMove moves)

theorem movesOf_concat (positions : Map Text Position) (nexts : List (PlacedPart × XY))
    (e : PlacedPart × XY) :
    movesOf positions (nexts ++ [e]) =
      if e.2 ≠ e.1.toXY then
        (movesOf positions nexts).set e.1.id (storedAt positions e.1.id e.2)
      else movesOf positions nexts :=
  List.foldl_concat ..

/-- A record of moves is empty where every part is in its place. -/
theorem movesOf_eq_nil_iff (positions : Map Text Position) (nexts : List (PlacedPart × XY)) :
    movesOf positions nexts = [] ↔ ∀ e ∈ nexts, e.2 = e.1.toXY := by
  induction nexts using List.reverseRecOn with
  | nil => simp [movesOf]
  | append_singleton nexts e ih =>
    rw [movesOf_concat, List.forall_mem_append, ← ih]
    by_cases he : e.2 = e.1.toXY
    · simp [he]
    · simp only [ne_eq, he, not_false_eq_true, if_true, List.mem_singleton, forall_eq, and_false,
        iff_false]
      exact List.ne_nil_of_mem (Map.mem_of_get? (Map.get?_set_self _ _ _))

/-- Every entry is where one of the parts comes to be. -/
theorem exists_of_mem_movesOf {positions : Map Text Position} {nexts : List (PlacedPart × XY)}
    {id : Text} {at' : Position} (h : (id, at') ∈ movesOf positions nexts) :
    ∃ e ∈ nexts, e.1.id = id ∧ at'.toXY = e.2 ∧ e.2 ≠ e.1.toXY := by
  induction nexts using List.reverseRecOn with
  | nil => exact absurd h List.not_mem_nil
  | append_singleton nexts e ih =>
    rw [movesOf_concat] at h
    by_cases he : e.2 = e.1.toXY
    · rw [if_neg (not_not.mpr he)] at h
      obtain ⟨e', he', hrest⟩ := ih h
      exact ⟨e', List.mem_append_left _ he', hrest⟩
    · rw [if_pos he] at h
      rcases Map.mem_set h with heq | h
      · cases heq
        exact ⟨e, List.mem_append_right _ (List.mem_singleton_self e), rfl, rfl, he⟩
      · obtain ⟨e', he', hrest⟩ := ih h
        exact ⟨e', List.mem_append_left _ he', hrest⟩

/-- With distinct ids a part is looked up where it comes to be. -/
theorem get?_movesOf (positions : Map Text Position) {nexts : List (PlacedPart × XY)}
    (hids : (nexts.map fun e => e.1.id).Nodup) {e : PlacedPart × XY} (he : e ∈ nexts) :
    (movesOf positions nexts).get? e.1.id =
      if e.2 ≠ e.1.toXY then some (storedAt positions e.1.id e.2) else none := by
  induction nexts using List.reverseRecOn with
  | nil => exact absurd he List.not_mem_nil
  | append_singleton nexts last ih =>
    rw [List.map_append, List.map_singleton] at hids
    obtain ⟨hnodup, -, hdisjoint⟩ := List.nodup_append.mp hids
    rw [movesOf_concat]
    rcases List.mem_append.mp he with he | he
    · have hne : last.1.id ≠ e.1.id := fun h =>
        hdisjoint e.1.id (List.mem_map_of_mem he) last.1.id (List.mem_singleton_self _) h.symm
      rw [← ih hnodup he]
      split
      · exact Map.get?_set_ne hne _ _
      · rfl
    · obtain rfl := List.mem_singleton.mp he
      by_cases hmoved : e.2 = e.1.toXY
      · rw [if_neg (not_not.mpr hmoved), if_neg (not_not.mpr hmoved)]
        cases hget : (movesOf positions nexts).get? e.1.id with
        | none => rfl
        | some at' =>
          obtain ⟨e', he', hid, -, -⟩ := exists_of_mem_movesOf (Map.mem_of_get? hget)
          exact absurd hid (hdisjoint _ (List.mem_map_of_mem he') _ (List.mem_singleton_self _))
      · rw [if_pos hmoved, if_pos hmoved, Map.get?_set_self]

theorem afterMove_movesOf (positions : Map Text Position) {nexts : List (PlacedPart × XY)}
    (hids : (nexts.map fun e => e.1.id).Nodup) {e : PlacedPart × XY} (he : e ∈ nexts) :
    afterMove (movesOf positions nexts) e.1 = e.1.placed e.2 := by
  rw [afterMove, get?_movesOf positions hids he]
  by_cases hmoved : e.2 = e.1.toXY
  · rw [if_neg (not_not.mpr hmoved), hmoved]
    rfl
  · rw [if_pos hmoved]
    rfl

/-! ## The lattice -/

/-- The step of the lattice. -/
def step : Rat := pinGrid

theorem step_pos : 0 < step := by decide

theorem snap_eq_toStep (v : Rat) : snap v = toStep step v := by
  rw [snap, toStep, Nat.cast_ofNat, ← one_div]
  rfl

theorem onStep_snap (v : Rat) : OnStep step (snap v) := by
  rw [snap_eq_toStep]
  exact onStep_toStep step v

/-- A point of the lattice. -/
def XY.OnLattice (p : XY) : Prop := OnStep step p.x ∧ OnStep step p.y

theorem snap_of_onStep {v : Rat} (h : OnStep step v) : snap v = v := by
  rw [snap_eq_toStep, toStep_of_onStep step_pos h]

/-- Where a place of the lattice is rounded to. -/
theorem snap_eq_iff {v x : Rat} (hx : OnStep step x) :
    snap v = x ↔ -(step / 2) ≤ v - x ∧ v - x < step / 2 := by
  rw [snap_eq_toStep, toStep_eq_iff step_pos hx]

/-! ## Least and greatest -/

theorem least_spec {xs : List Rat} (hne : xs ≠ []) : least xs ∈ xs ∧ ∀ x ∈ xs, least xs ≤ x := by
  cases hmin : xs.min? with
  | none => exact absurd (List.min?_eq_none_iff.mp hmin) hne
  | some a =>
    rw [least, hmin]
    exact List.min?_eq_some_iff.mp hmin

theorem greatest_spec {xs : List Rat} (hne : xs ≠ []) :
    greatest xs ∈ xs ∧ ∀ x ∈ xs, x ≤ greatest xs := by
  cases hmax : xs.max? with
  | none => exact absurd (List.max?_eq_none_iff.mp hmax) hne
  | some a =>
    rw [greatest, hmax]
    exact List.max?_eq_some_iff.mp hmax

theorem least_eq {xs : List Rat} {a : Rat} (hmem : a ∈ xs) (hle : ∀ x ∈ xs, a ≤ x) :
    least xs = a := by
  obtain ⟨hmem', hle'⟩ := least_spec (List.ne_nil_of_mem hmem)
  exact le_antisymm (hle' a hmem) (hle _ hmem')

theorem greatest_eq {xs : List Rat} {a : Rat} (hmem : a ∈ xs) (hle : ∀ x ∈ xs, x ≤ a) :
    greatest xs = a := by
  obtain ⟨hmem', hle'⟩ := greatest_spec (List.ne_nil_of_mem hmem)
  exact le_antisymm (hle _ hmem') (hle' a hmem)

variable {parts : List PlacedPart} {f : PlacedPart → Rat}

theorem least_map_add (hne : parts ≠ []) (c : Rat) :
    least (parts.map fun p => c + f p) = c + least (parts.map f) := by
  obtain ⟨hmem, hle⟩ := least_spec (mt List.map_eq_nil_iff.mp hne : parts.map f ≠ [])
  obtain ⟨p, hp, hf⟩ := List.mem_map.mp hmem
  refine least_eq (List.mem_map.mpr ⟨p, hp, by rw [hf]⟩) (List.forall_mem_map.mpr fun q hq => ?_)
  have := hle (f q) (List.mem_map_of_mem hq)
  linarith

theorem greatest_map_add (hne : parts ≠ []) (c : Rat) :
    greatest (parts.map fun p => c + f p) = c + greatest (parts.map f) := by
  obtain ⟨hmem, hle⟩ := greatest_spec (mt List.map_eq_nil_iff.mp hne : parts.map f ≠ [])
  obtain ⟨p, hp, hf⟩ := List.mem_map.mp hmem
  refine greatest_eq (List.mem_map.mpr ⟨p, hp, by rw [hf]⟩)
    (List.forall_mem_map.mpr fun q hq => ?_)
  have := hle (f q) (List.mem_map_of_mem hq)
  linarith

/-! ## Along the axis -/

/-- The coordinate that an alignment changes. -/
def PlacedPart.along (edge : AlignEdge) (p : PlacedPart) : Rat := if edge.vertical then p.y else p.x

/-- The coordinate that it keeps. -/
def PlacedPart.across (edge : AlignEdge) (p : PlacedPart) : Rat :=
  if edge.vertical then p.x else p.y

theorem of_boxOf (edge : AlignEdge) (p : PlacedPart) :
    edge.of (boxOf p) = p.along edge + edge.of p.bounds := by
  cases edge <;> simp only [AlignEdge.of, boxOf, PlacedPart.along, AlignEdge.vertical] <;>
    simp <;> ring

theorem onLattice_alignedAt (edge : AlignEdge) (target : Rat) (p : PlacedPart) :
    (alignedAt edge target p).OnLattice := by
  unfold alignedAt
  cases edge.vertical
  · exact ⟨onStep_snap _, onStep_snap _⟩
  · exact ⟨onStep_snap _, onStep_snap _⟩

/-- A part that is brought onto the target. -/
def aligned (edge : AlignEdge) (target : Rat) (p : PlacedPart) : PlacedPart :=
  p.placed (alignedAt edge target p)

theorem along_aligned (edge : AlignEdge) (target : Rat) (p : PlacedPart) :
    (aligned edge target p).along edge = snap (target - edge.of p.bounds) := by
  have hshift : p.along edge + (target - edge.of (boxOf p)) = target - edge.of p.bounds := by
    rw [of_boxOf]
    ring
  rw [← hshift]
  unfold aligned alignedAt PlacedPart.placed PlacedPart.along
  cases edge.vertical <;> rfl

theorem across_aligned (edge : AlignEdge) (target : Rat) {p : PlacedPart}
    (hp : p.toXY.OnLattice) : (aligned edge target p).across edge = p.across edge := by
  unfold aligned alignedAt PlacedPart.placed PlacedPart.across
  cases edge.vertical
  · exact snap_of_onStep hp.2
  · exact snap_of_onStep hp.1

/-- A part is in its place where rounding brings it there. -/
theorem alignedAt_eq_iff (edge : AlignEdge) (target : Rat) {p : PlacedPart}
    (hp : p.toXY.OnLattice) :
    alignedAt edge target p = p.toXY ↔ snap (target - edge.of p.bounds) = p.along edge := by
  have hacross := across_aligned edge target hp
  rw [← along_aligned]
  unfold aligned PlacedPart.placed PlacedPart.across PlacedPart.along at *
  rw [XY.ext_iff]
  cases hv : edge.vertical <;> simp only [hv] at hacross ⊢
  · exact ⟨fun h => h.1, fun h => ⟨h, hacross⟩⟩
  · exact ⟨fun h => h.2, fun h => ⟨hacross, h⟩⟩

/-! ## The second alignment -/

/-- How far rounding leaves the edge of a part from the target. -/
def residue (edge : AlignEdge) (target : Rat) (p : PlacedPart) : Rat :=
  snap (target - edge.of p.bounds) - (target - edge.of p.bounds)

/-- Half the extent of a part along the axis. -/
def halfExtent (edge : AlignEdge) (p : PlacedPart) : Rat :=
  if edge.vertical then (p.bounds.maxY - p.bounds.minY) / 2
  else (p.bounds.maxX - p.bounds.minX) / 2

/-- How far the target of the aligned parts is from the first one. -/
def drift (edge : AlignEdge) (target : Rat) (parts : List PlacedPart) : Rat :=
  match edge with
  | .left | .top => least (parts.map (residue edge target))
  | .right | .bottom => greatest (parts.map (residue edge target))
  | .centreX | .centreY =>
    (least (parts.map fun p => residue edge target p - halfExtent edge p) +
      greatest (parts.map fun p => residue edge target p + halfExtent edge p)) / 2

/-- The parts are aligned for good: the target drifts from the edge of none of them by more than
rounding takes back. -/
def Settles (edge : AlignEdge) (target : Rat) (parts : List PlacedPart) : Prop :=
  match edge with
  | .left | .top =>
    ∀ p ∈ parts, ∀ q ∈ parts, residue edge target p - residue edge target q ≤ step / 2
  | .right | .bottom =>
    ∀ p ∈ parts, ∀ q ∈ parts, residue edge target p - residue edge target q < step / 2
  | .centreX | .centreY => ∀ p ∈ parts,
    -(step / 2) ≤ drift edge target parts - residue edge target p ∧
      drift edge target parts - residue edge target p < step / 2

/-- Any line of the box of an aligned part. -/
theorem of_boxOf_aligned {edge line : AlignEdge} (hline : line.vertical = edge.vertical)
    (target : Rat) (p : PlacedPart) :
    line.of (boxOf (aligned edge target p)) =
      target + (residue edge target p + (line.of p.bounds - edge.of p.bounds)) := by
  have halong : (aligned edge target p).along line = (aligned edge target p).along edge := by
    unfold PlacedPart.along
    rw [hline]
  have hbounds : (aligned edge target p).bounds = p.bounds := rfl
  rw [of_boxOf, halong, along_aligned, hbounds, residue]
  ring

theorem least_aligned (hne : parts ≠ []) {edge : AlignEdge} (line : AlignEdge)
    (hline : line.vertical = edge.vertical) (target : Rat) :
    least (((parts.map (aligned edge target)).map boxOf).map line.of) =
      target + least (parts.map fun p =>
        residue edge target p + (line.of p.bounds - edge.of p.bounds)) := by
  rw [← least_map_add hne, List.map_map, List.map_map]
  exact congrArg least (List.map_congr_left fun p _ => of_boxOf_aligned hline target p)

theorem greatest_aligned (hne : parts ≠ []) {edge : AlignEdge} (line : AlignEdge)
    (hline : line.vertical = edge.vertical) (target : Rat) :
    greatest (((parts.map (aligned edge target)).map boxOf).map line.of) =
      target + greatest (parts.map fun p =>
        residue edge target p + (line.of p.bounds - edge.of p.bounds)) := by
  rw [← greatest_map_add hne, List.map_map, List.map_map]
  exact congrArg greatest (List.map_congr_left fun p _ => of_boxOf_aligned hline target p)

theorem residue_add_self (edge : AlignEdge) (target : Rat) :
    (fun p => residue edge target p + (edge.of p.bounds - edge.of p.bounds)) =
      residue edge target := by
  funext p
  rw [sub_self, add_zero]

/-- The middle between the lowest and the highest line of the aligned parts. -/
theorem middle_aligned (hne : parts ≠ []) (edge low high : AlignEdge)
    (hlow : low.vertical = edge.vertical) (hhigh : high.vertical = edge.vertical)
    (hof : ∀ b, edge.of b = (low.of b + high.of b) / 2)
    (hhalf : ∀ p, halfExtent edge p = (high.of p.bounds - low.of p.bounds) / 2) (target : Rat) :
    (least (((parts.map (aligned edge target)).map boxOf).map low.of) +
      greatest (((parts.map (aligned edge target)).map boxOf).map high.of)) / 2 =
      target + (least (parts.map fun p => residue edge target p - halfExtent edge p) +
        greatest (parts.map fun p => residue edge target p + halfExtent edge p)) / 2 := by
  have hdown : (fun p => residue edge target p + (low.of p.bounds - edge.of p.bounds)) =
      fun p => residue edge target p - halfExtent edge p := by
    funext p
    rw [hof, hhalf]
    ring
  have hup : (fun p => residue edge target p + (high.of p.bounds - edge.of p.bounds)) =
      fun p => residue edge target p + halfExtent edge p := by
    funext p
    rw [hof, hhalf]
    ring
  rw [least_aligned hne low hlow, greatest_aligned hne high hhigh, hdown, hup]
  ring

/-- The target of the aligned parts. -/
theorem alignTarget_aligned (hne : parts ≠ []) (edge : AlignEdge) (target : Rat) :
    alignTarget ((parts.map (aligned edge target)).map boxOf) edge =
      target + drift edge target parts := by
  cases edge with
  | left => exact (least_aligned hne .left rfl target).trans (by rw [residue_add_self]; rfl)
  | top => exact (least_aligned hne .top rfl target).trans (by rw [residue_add_self]; rfl)
  | right => exact (greatest_aligned hne .right rfl target).trans (by rw [residue_add_self]; rfl)
  | bottom => exact (greatest_aligned hne .bottom rfl target).trans (by rw [residue_add_self]; rfl)
  | centreX =>
    exact middle_aligned hne .centreX .left .right rfl rfl (fun _ => rfl) (fun _ => rfl) target
  | centreY =>
    exact middle_aligned hne .centreY .top .bottom rfl rfl (fun _ => rfl) (fun _ => rfl) target

/-- An aligned part is in its place for good where the drift leaves it to rounding. -/
theorem alignedAt_aligned_iff (edge : AlignEdge) (target d : Rat) (p : PlacedPart) :
    alignedAt edge (target + d) (aligned edge target p) = (aligned edge target p).toXY ↔
      -(step / 2) ≤ d - residue edge target p ∧ d - residue edge target p < step / 2 := by
  have hon := onLattice_alignedAt edge target p
  have hbounds : (aligned edge target p).bounds = p.bounds := rfl
  rw [alignedAt_eq_iff edge _ hon, along_aligned, hbounds]
  refine (snap_eq_iff (onStep_snap _)).trans ?_
  have hresidue : target + d - edge.of p.bounds - snap (target - edge.of p.bounds) =
      d - residue edge target p := by
    rw [residue]
    ring
  rw [hresidue]

/-- Values that lie close together lie close above the least of them. -/
theorem close_iff_least (hne : parts ≠ []) {c : Rat} (hc : 0 < c) :
    (∀ p ∈ parts, ∀ q ∈ parts, f p - f q ≤ c) ↔
      ∀ p ∈ parts, -c ≤ least (parts.map f) - f p ∧ least (parts.map f) - f p < c := by
  obtain ⟨hmem, hle⟩ := least_spec (mt List.map_eq_nil_iff.mp hne : parts.map f ≠ [])
  obtain ⟨q, hq, heq⟩ := List.mem_map.mp hmem
  refine ⟨fun h p hp => ?_, fun h p hp r hr => ?_⟩
  · have hpq := h p hp q hq
    have hqp := hle _ (List.mem_map_of_mem hp)
    constructor <;> linarith
  · have hpq := (h p hp).1
    have hqr := hle _ (List.mem_map_of_mem hr)
    linarith

theorem close_iff_greatest (hne : parts ≠ []) {c : Rat} (hc : 0 < c) :
    (∀ p ∈ parts, ∀ q ∈ parts, f p - f q < c) ↔
      ∀ p ∈ parts, -c ≤ greatest (parts.map f) - f p ∧ greatest (parts.map f) - f p < c := by
  obtain ⟨hmem, hle⟩ := greatest_spec (mt List.map_eq_nil_iff.mp hne : parts.map f ≠ [])
  obtain ⟨q, hq, heq⟩ := List.mem_map.mp hmem
  refine ⟨fun h p hp => ?_, fun h p hp r hr => ?_⟩
  · have hqp := h q hq p hp
    have hpq := hle _ (List.mem_map_of_mem hp)
    constructor <;> linarith
  · have hpq := (h r hr).2
    have hqr := hle _ (List.mem_map_of_mem hp)
    linarith

/-- What is left to rounding, for the extremes in closed form. -/
theorem settles_iff (hne : parts ≠ []) (edge : AlignEdge) (target : Rat) :
    Settles edge target parts ↔ ∀ p ∈ parts,
      -(step / 2) ≤ drift edge target parts - residue edge target p ∧
        drift edge target parts - residue edge target p < step / 2 := by
  have hhalf : 0 < step / 2 := half_pos step_pos
  cases edge with
  | left => exact close_iff_least hne hhalf
  | top => exact close_iff_least hne hhalf
  | right => exact close_iff_greatest hne hhalf
  | bottom => exact close_iff_greatest hne hhalf
  | centreX => exact Iff.rfl
  | centreY => exact Iff.rfl

/-! ## The command -/

/-- A single part is settled. -/
theorem settles_of_length_lt (hshort : parts.length < 2) (edge : AlignEdge) (target : Rat) :
    Settles edge target parts := by
  have hstep := step_pos
  match parts, hshort with
  | [], _ => cases edge <;> exact fun _ h => absurd h List.not_mem_nil
  | [p], _ =>
    rw [settles_iff (List.cons_ne_nil p [])]
    intro q hq
    obtain rfl := List.mem_singleton.mp hq
    have hdrift : drift edge target [q] = residue edge target q := by
      cases edge with
      | left => rfl
      | top => rfl
      | right => rfl
      | bottom => rfl
      | centreX =>
        show (residue _ _ q - _ + (residue _ _ q + _)) / 2 = residue _ _ q
        ring
      | centreY =>
        show (residue _ _ q - _ + (residue _ _ q + _)) / 2 = residue _ _ q
        ring
    rw [hdrift, sub_self]
    constructor <;> linarith

/-- The alignment of the parts on an edge. -/
def alignedParts (edge : AlignEdge) (parts : List PlacedPart) : List PlacedPart :=
  parts.map (aligned edge (alignTarget (parts.map boxOf) edge))

theorem afterMoves_alignParts (hids : (parts.map PlacedPart.id).Nodup) (hlong : ¬ parts.length < 2)
    (edge : AlignEdge) (positions : Map Text Position) :
    afterMoves (alignParts parts edge positions) parts = alignedParts edge parts := by
  rw [alignParts, if_neg hlong]
  refine List.map_congr_left fun p hp => ?_
  have hnodup : ((parts.map fun p =>
      (p, alignedAt edge (alignTarget (parts.map boxOf) edge) p)).map fun e => e.1.id).Nodup := by
    rw [List.map_map]
    exact hids
  exact afterMove_movesOf positions hnodup
    (List.mem_map.mpr ⟨p, hp, rfl⟩ :
      (p, alignedAt edge (alignTarget (parts.map boxOf) edge) p) ∈ _)

/-- An alignment of the aligned parts moves none of them just where they are settled. -/
theorem alignParts_again_iff (hids : (parts.map PlacedPart.id).Nodup) (edge : AlignEdge)
    (positions positions' : Map Text Position) :
    alignParts (afterMoves (alignParts parts edge positions) parts) edge positions' = [] ↔
      Settles edge (alignTarget (parts.map boxOf) edge) parts := by
  by_cases hlong : parts.length < 2
  · have hnone : alignParts (afterMoves (alignParts parts edge positions) parts) edge positions' =
        [] := if_pos (by rw [afterMoves, List.length_map]; exact hlong)
    exact iff_of_true hnone (settles_of_length_lt hlong edge _)
  · have hne : parts ≠ [] := by
      rintro rfl
      exact hlong (by decide)
    rw [afterMoves_alignParts hids hlong, alignParts,
      if_neg (by rw [alignedParts, List.length_map]; exact hlong), movesOf_eq_nil_iff,
      alignedParts, alignTarget_aligned hne, settles_iff hne, List.map_map]
    refine List.forall_mem_map.trans (forall_congr' fun p => forall_congr' fun _ => ?_)
    exact alignedAt_aligned_iff edge _ _ p

/-- An alignment moves parts along its own axis, to the lattice. -/
theorem mem_alignParts (hlattice : ∀ p ∈ parts, p.toXY.OnLattice) {edge : AlignEdge}
    {positions : Map Text Position} {id : Text} {at' : Position}
    (h : (id, at') ∈ alignParts parts edge positions) :
    ∃ p ∈ parts, p.id = id ∧ (p.placed at'.toXY).across edge = p.across edge ∧
      at'.toXY.OnLattice := by
  unfold alignParts at h
  split at h
  · exact absurd h List.not_mem_nil
  · obtain ⟨e, he, hid, hat, -⟩ := exists_of_mem_movesOf h
    obtain ⟨p, hp, rfl⟩ := List.mem_map.mp he
    refine ⟨p, hp, hid, ?_, ?_⟩
    · rw [hat]
      exact across_aligned edge _ (hlattice p hp)
    · rw [hat]
      exact onLattice_alignedAt edge _ p

end CircuitForge
