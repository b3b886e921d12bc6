/-
Placing parts: `validateFixedPlacements`, `computeHpwl` and `placeParts` of
`pcb-core/src/placement.ts`.
-/
import CircuitForge.Js.Rounding
import CircuitForge.Js.SquareRoots
import CircuitForge.Pcb.ForceLoop
import CircuitForge.Pcb.Outline

namespace CircuitForge.Placer

open Js Placement Rounding
open Outline (Axis)

section

variable {K : Type} [Field K] [LinearOrder K] [FloorRing K]

/-! ## Pins that cannot be honoured -/

/-- `FixedPlacementProblem`. -/
inductive FixedPlacementProblem (K : Type) where
  | offGrid (id : Text) (axis : Axis) (given nearest : K)
  | offBoard (id : Text) (axis : Axis) (given limit : K)
  | overlap (a b : Text) (byMm : K)

/-- `round2`. -/
def round2 (v : K) : K := toStep (hundredths 1) v

theorem round2_eq (v : K) : round2 v = toStep (1 / 100) v := by
  rw [round2, hundredths_eq, Nat.cast_one]

/-- The pairs of a list, each once. -/
def pairsOf {α : Type} : List α → List (α × α)
  | [] => []
  | a :: l => l.map (fun b => (a, b)) ++ pairsOf l

/-- The half extents of a pinned part as they are checked. -/
def pinExtents (p : PlaceablePart K × Pin K) : K × K :=
  halfExtents p.1.box (p.2.rotation.getD .deg0)

/-- How far off a pin may be. -/
def pinTolerance : K := 1 / 1000000

/-- What is wrong with one pin. -/
def pinProblems (boardW boardH grid margin : K) (p : PlaceablePart K × Pin K) :
    List (FixedPlacementProblem K) :=
  let f := p.2
  let e := pinExtents p
  let maxX := halved boardW - margin - e.1
  let maxY := halved boardH - margin - e.2
  (if pinTolerance < |f.x - snap f.x grid| then [.offGrid p.1.id .x f.x (snap f.x grid)] else []) ++
    (if pinTolerance < |f.y - snap f.y grid| then
      [.offGrid p.1.id .y f.y (snap f.y grid)] else []) ++
    (if maxX + pinTolerance < |f.x| then [.offBoard p.1.id .x f.x maxX] else []) ++
    (if maxY + pinTolerance < |f.y| then [.offBoard p.1.id .y f.y maxY] else [])

/-- What is wrong with two pins. -/
def pinOverlap (spacing : K) (ab : (PlaceablePart K × Pin K) × (PlaceablePart K × Pin K)) :
    List (FixedPlacementProblem K) :=
  let (a, b) := ab
  let ea := pinExtents a
  let eb := pinExtents b
  if overlaps spacing (a.2.x, a.2.y) ea (b.2.x, b.2.y) eb then
    let needX := ea.1 + eb.1 + spacing - |a.2.x - b.2.x|
    let needY := ea.2 + eb.2 + spacing - |a.2.y - b.2.y|
    [.overlap a.1.id b.1.id (round2 (min needX needY))]
  else []

/-- The pinned parts with their pins. -/
def pinnedOf (parts : List (PlaceablePart K)) : List (PlaceablePart K × Pin K) :=
  parts.filterMap fun p => p.fixed.map fun f => (p, f)

/-- `validateFixedPlacements`. -/
def validateFixedPlacements (parts : List (PlaceablePart K))
    (boardW boardH grid margin spacing : K) : List (FixedPlacementProblem K) :=
  (pinnedOf parts).flatMap (pinProblems boardW boardH grid margin) ++
    (pairsOf (pinnedOf parts)).flatMap (pinOverlap spacing)

/-! ## The result -/

structure Position (K : Type) where
  x : K
  y : K
  rotation : Turn

structure PlacementInput (K : Type) where
  parts : List (PlaceablePart K)
  netWeights : Map Text K
  extraEdges : List (ExtraEdge K) := []
  boardW : K
  boardH : K
  gridMm : K
  marginMm : K
  spacingMm : Option K := none

/-- The result; without a wirelength that is finite, `hpwl` is none. -/
structure PlacementOutput (K : Type) where
  positions : Map Text (Position K)
  boardW : K
  boardH : K
  hpwl : Option K
  ok : Bool

/-- `computeHpwl`. -/
def computeHpwl (parts : List (PlaceablePart K)) (positions : Map Text (Position K)) : K :=
  let spots := parts.flatMap fun p =>
    match positions.get? p.id with
    | none => []
    | some pos => (p.pads.filter (·.net ≠ [])).map fun pad =>
        (pad.net, padAt pos.x pos.y pos.rotation pad)
  let box : Map Text (Span K × Span K) := spots.foldl (fun m e =>
    m.set e.1 (match m.get? e.1 with
      | none => (⟨e.2.1, e.2.1⟩, ⟨e.2.2, e.2.2⟩)
      | some b =>
        (⟨min b.1.lo e.2.1, max b.1.hi e.2.1⟩, ⟨min b.2.lo e.2.2, max b.2.hi e.2.2⟩))) []
  box.foldl (fun sum e => sum + (e.2.1.hi - e.2.1.lo + e.2.2.hi - e.2.2.lo)) 0

/-! ## The board -/

def minBoardMm : K := (20 : ℕ)

omit [LinearOrder K] [FloorRing K] in
theorem minBoardMm_eq : (minBoardMm : K) = 20 := Nat.cast_ofNat

def utilLimit : K := hundredths 75

def routeUtil : K := hundredths 45

/-- The grid and the margin that are used. -/
def PlacementInput.grid (input : PlacementInput K) : K :=
  if 0 < input.gridMm then input.gridMm else halved 1

def PlacementInput.margin (input : PlacementInput K) : K :=
  if 0 < input.marginMm then input.marginMm else (4 : ℕ)

def PlacementInput.spacing (input : PlacementInput K) : K := input.spacingMm.getD (hundredths 240)

/-- `area`: of the courtyards with what is kept free around them. -/
def PlacementInput.area (input : PlacementInput K) : K :=
  input.parts.foldl (fun s p => s + (p.w + input.spacing) * (p.h + input.spacing)) 0

/-- A board is grown where the parts take up more than `limit` of what is usable. -/
def roomFor (sqrt : K → K) (limit area grid margin : K) (board : K × K) : K × K :=
  let usable := (board.1 - (2 : ℕ) * margin) * (board.2 - (2 : ℕ) * margin)
  if 0 < usable ∧ limit < area / usable then
    let k := sqrt (area / (limit * usable))
    (snap (board.1 * k + grid) grid, snap (board.2 * k + grid) grid)
  else board

/-- The board before anything is placed. -/
def PlacementInput.board (sqrt : K → K) (input : PlacementInput K) : K × K :=
  roomFor sqrt utilLimit input.area input.grid input.margin
    (max minBoardMm input.boardW, max minBoardMm input.boardH)

/-- The board after a legalization that found no room. -/
def PlacementInput.grown (input : PlacementInput K) (board : K × K) : K × K :=
  (snap (board.1 * hundredths 140) input.grid, snap (board.2 * hundredths 140) input.grid)

def PlacementInput.frame (input : PlacementInput K) (board : K × K) : Frame K where
  boardW := board.1
  boardH := board.2
  grid := input.grid
  margin := input.margin
  spacing := input.spacing

/-- The middle of the content on one axis: where anything is pinned, the origin. -/
def middle (frozen : Bool) (grid : K) (content : Span K) : K :=
  if frozen then 0 else snap (halved (content.lo + content.hi)) grid

theorem middle_eq (frozen : Bool) (grid : K) (content : Span K) :
    middle frozen grid content = if frozen then 0 else snap ((content.lo + content.hi) / 2) grid := by
  rw [middle, halved_eq]

/-- The size that fits the content on one axis. -/
def fitted (frozen : Bool) (grid margin : K) (content : Span K) : K :=
  let span := if frozen then (2 : ℕ) * max |content.lo| |content.hi| else content.hi - content.lo
  max minBoardMm (snap (span + (2 : ℕ) * margin + grid) grid)

theorem fitted_eq (frozen : Bool) (grid margin : K) (content : Span K) :
    fitted frozen grid margin content = max minBoardMm (snap
      ((if frozen then 2 * max |content.lo| |content.hi| else content.hi - content.lo) +
        2 * margin + grid) grid) := by
  unfold fitted
  simp only [Nat.cast_ofNat]

/-! ## Placing -/

section

variable {n : Nat}

/-- The span of a part on an axis. -/
def spanOn (parts : Fin n → PlaceablePart K) (st : State n K) (axis : Axis) (i : Fin n) : Span K :=
  let e := halfExtents (parts i).box (st.r i)
  match axis with
  | .x => ⟨st.x i - e.1, st.x i + e.1⟩
  | .y => ⟨st.y i - e.2, st.y i + e.2⟩

/-- `minX` and `maxX`, or `minY` and `maxY`; a board without parts has its content in the
middle. -/
def contentOn (parts : Fin n → PlaceablePart K) (st : State n K) (axis : Axis) : Span K :=
  (Span.bounds ((List.finRange n).map (spanOn parts st axis))).getD ⟨0, 0⟩

/-- The seed and the force loop. -/
def arrange (localeCompare : Text → Text → Int) (sqrt : K → K) (input : PlacementInput K)
    (parts : Fin n → PlaceablePart K) (board : K × K) : State n K :=
  let setting : Setting K := { localeCompare, sqrt, netWeights := input.netWeights }
  let edges := buildEdges parts input.netWeights input.extraEdges
  let rotOrder := degreeOrder localeCompare parts (degrees edges) (List.finRange n)
  forceLoop setting parts edges input.spacing (halved board.1 - input.marginMm)
    (halved board.2 - input.marginMm) rotOrder (seed setting parts edges board.1 board.2)

/-- The legalization, tried again on a larger board. -/
def settle (localeCompare : Text → Text → Int) (input : PlacementInput K)
    (parts : Fin n → PlaceablePart K) (board : K × K) (st : State n K) :
    Bool × State n K × K × K :=
  let boxes := fun i => (parts i).box
  let first := legalize boxes (input.frame board) localeCompare st
  if first.1 then (true, first.2, board)
  else
    let second := legalize boxes (input.frame (input.grown board)) localeCompare first.2
    (second.1, second.2, input.grown board)

/-- The board that is delivered for parts that are settled. -/
def shrunk (sqrt : K → K) (input : PlacementInput K) (parts : Fin n → PlaceablePart K)
    (frozen : Bool) (st : State n K) (board : K × K) : K × K :=
  let fit := roomFor sqrt routeUtil input.area input.grid input.margin
    (fitted frozen input.grid input.margin (contentOn parts st .x),
      fitted frozen input.grid input.margin (contentOn parts st .y))
  (min board.1 fit.1, min board.2 fit.2)

/-- Where a part is delivered. -/
def deliver (grid : K) (parts : Fin n → PlaceablePart K) (frozen : Bool) (st : State n K)
    (i : Fin n) : Position K where
  x := round2 (st.x i - middle frozen grid (contentOn parts st .x))
  y := round2 (st.y i - middle frozen grid (contentOn parts st .y))
  rotation := st.r i

end

/-- `parts`: in canonical order. -/
def PlacementInput.sorted (localeCompare : Text → Text → Int) (input : PlacementInput K) :
    List (PlaceablePart K) :=
  input.parts.insertionSort fun a b => localeCompare a.id b.id ≤ 0

/-- `placeParts`. -/
def placeParts (localeCompare : Text → Text → Int) (sqrt : K → K) (input : PlacementInput K) :
    PlacementOutput K :=
  let parts := (input.sorted localeCompare).get
  let board := input.board sqrt
  let (ok, st, board) := settle localeCompare input parts board
    (arrange localeCompare sqrt input parts board)
  if ok then
    let frozen := input.parts.any (·.fixed.isSome)
    let fit := shrunk sqrt input parts frozen st board
    let positions := Map.fill (fun i => (parts i).id) (deliver input.grid parts frozen st)
      (List.finRange _) []
    { positions
      boardW := fit.1
      boardH := fit.2
      hpwl := some (computeHpwl (input.sorted localeCompare) positions)
      ok := true }
  else { positions := [], boardW := board.1, boardH := board.2, hpwl := none, ok := false }

end

end CircuitForge.Placer
