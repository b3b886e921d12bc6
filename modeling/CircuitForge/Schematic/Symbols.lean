/-
Schematic symbols: `editor-core/src/schematic/symbols.ts` and `orient.ts`.

Every point of a symbol is an integer.  A body is the list of its corners; the circle of
the voltage source, a polygon of 24 corners, is represented by the four that lie on its
axes, which span the others.
-/
import CircuitForge.Types.Ui

namespace CircuitForge

open Js

structure SymbolPin where
  pinId : Text
  x : Int
  y : Int
  side : Side
  deriving DecidableEq

structure Bounds (K : Type) where
  minX : K
  minY : K
  maxX : K
  maxY : K

/-- `SymbolGeometry`, as far as the sheet reads it. -/
structure SymbolGeometry where
  bounds : Bounds Int
  /-- The points of the strokes and of the pins. -/
  points : List (Int × Int)
  pins : List SymbolPin

/-- `PIN_GRID`. -/
def pinGrid : Int := 10

/-- `MIN_LEAD`. -/
def minLead : Int := 6

/-- `snapOut`: away from the origin to the next lattice point. -/
def snapOut (v : Int) : Int :=
  if v ≥ 0 then (v + pinGrid - 1) / pinGrid * pinGrid else v / pinGrid * pinGrid

/-- `boundsOf`, over the points of the strokes. -/
def boundsOf : List (Int × Int) → Bounds Int
  | [] => ⟨0, 0, 0, 0⟩
  | p :: ps => ps.foldl
      (fun b q => ⟨min b.minX q.1, min b.minY q.2, max b.maxX q.1, max b.maxY q.2⟩)
      ⟨p.1, p.2, p.1, p.2⟩

/-- `pinOut`. -/
def pinOut (bodyEdge outward : Int) : Int := snapOut (bodyEdge + outward * minLead)

/-- The inner end of a pin's lead, on the edge of the body. -/
def leadEdge (body : Bounds Int) (pin : SymbolPin) : Int × Int :=
  match pin.side with
  | .left => (body.minX, pin.y)
  | .right => (body.maxX, pin.y)
  | .top => (pin.x, body.minY)
  | .bottom => (pin.x, body.maxY)

/-- `withLeads` and `measured`: the body with its pins and their leads. -/
def withPins (body : List (Int × Int)) (pins : List SymbolPin) : SymbolGeometry :=
  let points := body ++ pins.flatMap (fun pin => [(pin.x, pin.y), leadEdge (boundsOf body) pin])
  { bounds := boundsOf points, points, pins }

/-- `twoTerminal`. -/
def twoTerminal (pins : List Text) (body : List (Int × Int)) : SymbolGeometry :=
  let b := boundsOf body
  withPins body [⟨pins.getD 0 "1".toList, pinOut b.minX (-1), 0, .left⟩,
    ⟨pins.getD 1 "2".toList, pinOut b.maxX 1, 0, .right⟩]

/-- `Math.round(n / 2)`, a half up. -/
def roundHalf (n : Nat) : Nat := (n + 1) / 2

/-- `derive`: a box with the part's own pins on it. -/
def derive (pins : List Text) : SymbolGeometry :=
  let perSide := max 1 ((pins.length + 1) / 2)
  let halfHeight : Int := max (2 * pinGrid) ((perSide : Int) * pinGrid / 2 + 4)
  let halfWidth : Int :=
    max (2 * pinGrid) (6 + ((pins.map List.length).foldl max 1 : Nat) * 4)
  let placed := pins.mapIdx fun i pinId =>
    let left := i < perSide
    let indexOnSide := if left then i else i - perSide
    let countOnSide := if left then min perSide pins.length else pins.length - perSide
    { pinId
      x := if left then -snapOut (halfWidth + minLead) else snapOut (halfWidth + minLead)
      y := ((indexOnSide : Int) - roundHalf (countOnSide - 1)) * pinGrid
      side := if left then Side.left else .right : SymbolPin }
  withPins [(-halfWidth, -halfHeight), (halfWidth, -halfHeight), (halfWidth, halfHeight),
    (-halfWidth, halfHeight)] placed

variable [Runtime]

/-- `orderedByName`. -/
def orderedByName (pins : List Text) (first second : List String) : Option (List Text) :=
  match pins.find? (fun p => Runtime.lower p ∈ first.map String.toList),
    pins.find? (fun p => Runtime.lower p ∈ second.map String.toList) with
  | some a, some b => if a ≠ b then some [a, b] else none
  | _, _ => none

/-- `DRAWN`: the conventional symbols; `none` also where one declines. -/
def drawnSymbol (type : ComponentType) (pins : List Text) : Option SymbolGeometry :=
  match type with
  | .resistor => some (twoTerminal pins [(-10, -4), (10, -4), (10, 4), (-10, 4)])
  | .capacitor => some (twoTerminal pins [(-3, -8), (-3, 8), (3, -8), (3, 8)])
  | .inductor => some (twoTerminal pins [(-12, 0), (-10, -5), (-6, -5), (-4, 0), (-2, -5),
      (2, -5), (4, 0), (6, -5), (10, -5), (12, 0)])
  | .diode => (orderedByName pins ["anode", "a", "+"] ["cathode", "k", "c", "-"]).map fun p =>
      twoTerminal p [(-7, -7), (-7, 7), (5, 0), (5, -7), (5, 7)]
  | .voltageSource =>
      (orderedByName pins ["+", "p", "pos", "plus"] ["-", "n", "neg", "minus"]).map fun p =>
        let body := [(12, 0), (0, 12), (-12, 0), (0, -12), (-4, -5), (4, -5), (0, -9), (0, -1),
          (-4, 5), (4, 5)]
        let b := boundsOf body
        withPins body [⟨p.getD 0 "+".toList, 0, pinOut b.minY (-1), .top⟩,
          ⟨p.getD 1 "-".toList, 0, pinOut b.maxY 1, .bottom⟩]
  | .ground =>
      let body := [(-8, 0), (8, 0), (-5, 3), (5, 3), (-2, 6), (2, 6)]
      some (withPins body
        [⟨pins.getD 0 "1".toList, 0, pinOut (boundsOf body).minY (-1), .top⟩])
  | _ => none

/-- `symbolFor`: a part with another number of pins than its symbol gets a box. -/
def symbolFor (c : Component) : SymbolGeometry :=
  let pinIds := c.pins.mapIdx fun i p =>
    if p.pinId = [] then Nat.toDigits 10 (i + 1) else p.pinId
  match drawnSymbol c.type pinIds with
  | none => derive (if pinIds.length > 0 then pinIds else ["1".toList])
  | some geometry =>
    if geometry.pins.length = pinIds.length then geometry else derive pinIds

omit [Runtime] in
/-- A pin of a turned and mirrored symbol: mirrored first, then turned. -/
def orientPin (turn : Turn) (axis : Option Axis) (pin : SymbolPin) : SymbolPin :=
  let p := rotatePoint turn (mirrorPoint axis (pin.x, pin.y))
  { pin with x := p.1, y := p.2, side := rotateSide turn (mirrorSide axis pin.side) }

omit [Runtime] in
/-- `orientSymbol`. -/
def orientSymbol (geometry : SymbolGeometry) (at' : Position) : SymbolGeometry :=
  let turn := at'.rotation.getD .deg0
  let points := geometry.points.map fun p => rotatePoint turn (mirrorPoint at'.mirror p)
  { bounds := boundsOf points
    points
    pins := geometry.pins.map (orientPin turn at'.mirror) }

end CircuitForge
