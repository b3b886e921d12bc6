/-
The content of a board and its outline: `contentBounds`, `axis` and `shrinkBoardToContent` of
`pcb-core/src/route.ts`, and the geometry that `shapeLayoutResult` of
`pcb-core/src/layout-result.ts` reads off the same elements.

Numbers are exact, so the rounding to the micrometre of the layout reader is left out.
-/
import CircuitForge.Js.Map
import CircuitForge.Js.Spans
import CircuitForge.Js.Text
import Mathlib.Algebra.Order.Field.Basic

namespace CircuitForge.Outline

open Js

/-! ## The elements of a board -/

/-- A field of unknown type: `other` is what is neither a finite number nor `null`, with the finite
number that `Number` makes of it. -/
inductive Value (K : Type) where
  | missing
  | null
  | number (x : K)
  | other (coerced : Option K)

/-- An object with two coordinates. -/
structure Place (K : Type) where
  x : Value K
  y : Value K

structure BoardElement (K : Type) where
  width : Option K
  height : Option K
  center : Option (Option K × Option K)
  /-- `outline` is truthy. -/
  customOutline : Bool
  deriving DecidableEq

structure Smtpad (K : Type) where
  place : Place K
  width : Value K := .missing
  height : Value K := .missing
  radius : Value K := .missing

structure Hole (K : Type) where
  place : Place K
  holeDiameter : Value K := .missing
  outerDiameter : Value K := .missing
  outerWidth : Value K := .missing
  outerHeight : Value K := .missing
  rectPadWidth : Value K := .missing
  rectPadHeight : Value K := .missing

structure RoutePoint (K : Type) where
  place : Place K
  width : Value K := .missing
  layer : Option Text := none
  /-- `route_type` is `via`. -/
  isVia : Bool := false

structure CourtyardRect (K : Type) where
  component : Option Text
  center : Place K
  width : Value K
  height : Value K

structure CourtyardOutline (K : Type) where
  component : Option Text
  outline : List (Place K)

/-- `TscElement`, as far as its geometry is read. -/
inductive Element (K : Type) where
  | board (b : BoardElement K)
  | component (id : Option Text)
  | smtpad (p : Smtpad K)
  | platedHole (h : Hole K)
  | hole (h : Hole K)
  | via (place : Place K) (outerDiameter : Value K)
  | trace (route : List (RoutePoint K))
  | courtyardRect (r : CourtyardRect K)
  | courtyardOutline (o : CourtyardOutline K)
  | other (type : Text)

inductive Axis where
  | x
  | y

def Place.on {K : Type} (p : Place K) : Axis → Value K
  | .x => p.x
  | .y => p.y

/-- `board.find((e) => e.type === 'pcb_board')`, and `of('pcb_board')[0]`. -/
def boardElement {K : Type} : List (Element K) → Option (BoardElement K)
  | [] => none
  | .board b :: _ => some b
  | _ :: es => boardElement es

variable {K : Type}

namespace Value

/-- `v ?? w`. -/
def orElse (v w : Value K) : Value K :=
  match v with
  | missing => w
  | null => w
  | v => v

/-- The field is a finite number: `num`. -/
def num : Value K → Option K
  | number x => some x
  | _ => none

end Value

variable [Field K] [LinearOrder K]

/-- `Number(v)`, when it is finite. -/
def Value.toNumber : Value K → Option K
  | .missing => none
  | .null => some 0
  | .number x => some x
  | .other coerced => coerced

namespace BoardElement

def size (b : BoardElement K) : Axis → K
  | .x => b.width.getD 0
  | .y => b.height.getD 0

def middle (b : BoardElement K) : Axis → K
  | .x => (b.center.bind Prod.fst).getD 0
  | .y => (b.center.bind Prod.snd).getD 0

/-- What the outline of a rectangular board encloses along an axis. -/
def extent (b : BoardElement K) (ax : Axis) : Span K :=
  ⟨b.middle ax - halved (b.size ax), b.middle ax + halved (b.size ax)⟩

end BoardElement

/-! ## The bounds of the content -/

/-- `half`. -/
def half (size radius : Value K) : K :=
  match size.toNumber.filter (0 < ·) with
  | some s => halved s
  | none => (radius.toNumber.filter (0 < ·)).getD 0

/-- `v || w` of numbers. -/
def nonzeroOr (v w : K) : K := if v = 0 then w else v

structure Bounds (K : Type) where
  minX : K
  maxX : K
  minY : K
  maxY : K

/-- The arguments of one `add`. -/
structure Stamp (K : Type) where
  place : Place K
  halfW : K
  halfH : K

/-- `add`.  There are no bounds while they are infinite. -/
def add (bounds : Option (Bounds K)) (s : Stamp K) : Option (Bounds K) :=
  match s.place.x.toNumber, s.place.y.toNumber with
  | some nx, some ny =>
    match bounds with
    | none => some ⟨nx - s.halfW, nx + s.halfW, ny - s.halfH, ny + s.halfH⟩
    | some b =>
      some ⟨min b.minX (nx - s.halfW), max b.maxX (nx + s.halfW), min b.minY (ny - s.halfH),
        max b.maxY (ny + s.halfH)⟩
  | _, _ => bounds

/-- The call of `add` for a plated hole or a hole. -/
def Hole.stamp (h : Hole K) : Stamp K :=
  let d := half (h.outerDiameter.orElse h.holeDiameter) .missing
  ⟨h.place, nonzeroOr (half h.outerWidth .missing) d, nonzeroOr (half h.outerHeight .missing) d⟩

/-- The calls of `add` for an element. -/
def Element.stamps : Element K → List (Stamp K)
  | .smtpad p => [⟨p.place, half p.width p.radius, half p.height p.radius⟩]
  | .platedHole h => [h.stamp]
  | .hole h => [h.stamp]
  | .via place outerDiameter => [⟨place, half outerDiameter .missing, half outerDiameter .missing⟩]
  | .trace route => route.map fun pt => ⟨pt.place, half pt.width .missing, half pt.width .missing⟩
  | .courtyardOutline o => o.outline.map fun pt => ⟨pt, 0, 0⟩
  | _ => []

/-- `contentBounds`. -/
def contentBounds (board : List (Element K)) : Option (Bounds K) :=
  board.foldl (fun bounds e => e.stamps.foldl add bounds) none

/-! ## The shrink -/

/-- `axis`: the size and the centre, when the content leaves slack. -/
def axis (min max oldSize clearance : K) : Option (K × K) :=
  let size := max - min + (2 : ℕ) * clearance
  if size < oldSize then some (size, halved (min + max)) else none

/-- The board element is replaced where it stands. -/
def putBoard (b : BoardElement K) : List (Element K) → List (Element K)
  | [] => []
  | .board _ :: es => .board b :: es
  | e :: es => e :: putBoard b es

/-- `shrinkBoardToContent`. -/
def shrinkBoardToContent (board : List (Element K)) (clearance : K) : List (Element K) :=
  match boardElement board with
  | none => board
  | some b =>
    if b.customOutline = true then board
    else
      match contentBounds board with
      | none => board
      | some box =>
        match axis box.minX box.maxX (b.width.getD 0) clearance,
            axis box.minY box.maxY (b.height.getD 0) clearance with
        | none, none => board
        | x, y =>
          putBoard
            { b with
              width := some ((x.map Prod.fst).getD (b.width.getD 0))
              height := some ((y.map Prod.fst).getD (b.height.getD 0))
              center := some
                (some ((x.map Prod.snd).getD (b.middle .x)),
                  some ((y.map Prod.snd).getD (b.middle .y))) }
            board

/-! ## The layout reader -/

structure Pt (K : Type) where
  x : K
  y : K

def Pt.on (p : Pt K) : Axis → K
  | .x => p.x
  | .y => p.y

/-- `pt`. -/
def Place.pt (p : Place K) : Option (Pt K) :=
  match p.x.num, p.y.num with
  | some x, some y => some ⟨x, y⟩
  | _, _ => none

/-- A pad, a plated hole or a via: where it is and how large. -/
structure Land (K : Type) where
  place : Pt K
  wMm : K
  hMm : K

structure Segment (K : Type) where
  layer : Text
  widthMm : K
  points : List (Pt K)

/-- The place of a pad or a via, at zero where it is not a number. -/
def Place.orZero (p : Place K) : Pt K := ⟨p.x.num.getD 0, p.y.num.getD 0⟩

def Smtpad.land (p : Smtpad K) : Land K :=
  ⟨p.place.orZero, p.width.num.getD 0, p.height.num.getD 0⟩

def Hole.land (h : Hole K) : Land K :=
  let round := (h.outerDiameter.num <|> h.holeDiameter.num).getD 0
  ⟨h.place.orZero, h.rectPadWidth.num.getD round, h.rectPadHeight.num.getD round⟩

/-- The pads that `shapeLayoutResult` reads off an element. -/
def Element.pads : Element K → List (Land K)
  | .smtpad p => [p.land]
  | .platedHole h => [h.land]
  | _ => []

def Element.vias : Element K → List (Land K)
  | .via place outerDiameter => [⟨place.orZero, outerDiameter.num.getD 0, outerDiameter.num.getD 0⟩]
  | _ => []

/-- The polylines of a route, behind the one that is being drawn. -/
def segmentsFrom (cur : Option (Segment K)) : List (RoutePoint K) → List (Segment K)
  | [] => cur.toList
  | p :: route =>
    if p.isVia then cur.toList ++ segmentsFrom none route
    else
      match p.place.pt with
      | none => segmentsFrom cur route
      | some point =>
        let layer := p.layer.getD "top".toList
        match cur with
        | none => segmentsFrom (some ⟨layer, p.width.num.getD 0, [point]⟩) route
        | some s =>
          if s.layer = layer then segmentsFrom (some { s with points := s.points ++ [point] }) route
          else s :: segmentsFrom (some ⟨layer, p.width.num.getD 0, [point]⟩) route

/-- The polylines that are drawn have two points. -/
def Element.segments : Element K → List (Segment K)
  | .trace route => (segmentsFrom none route).filter (1 < ·.points.length)
  | _ => []

/-- An identifier that is there: `if (!pid) continue`. -/
def present (id : Option Text) : Option Text := id.filter (· ≠ [])

/-- The corners of a courtyard rectangle, if it can be read. -/
def CourtyardRect.corners (r : CourtyardRect K) : Option (List (Pt K)) :=
  match r.center.pt, r.width.num, r.height.num with
  | some c, some w, some h =>
    some [⟨c.x - halved w, c.y - halved h⟩, ⟨c.x + halved w, c.y - halved h⟩,
      ⟨c.x + halved w, c.y + halved h⟩, ⟨c.x - halved w, c.y + halved h⟩]
  | _, _, _ => none

/-- `dedupe`, behind the last point that was kept. -/
def dedupeFrom (last : Option (Pt K)) : List (Pt K) → List (Pt K)
  | [] => []
  | p :: points =>
    if last.any fun l => l.x = p.x ∧ l.y = p.y then dedupeFrom last points
    else p :: dedupeFrom (some p) points

def CourtyardOutline.points (o : CourtyardOutline K) : List (Pt K) := o.outline.filterMap Place.pt

/-- The loop over the courtyard rectangles. -/
def addRect (courtyards : Map Text (List (Pt K))) : Element K → Map Text (List (Pt K))
  | .courtyardRect r =>
    match present r.component, r.corners with
    | some pid, some corners => courtyards.set pid corners
    | _, _ => courtyards
  | _ => courtyards

/-- The loop over the courtyard outlines. -/
def addOutline (courtyards : Map Text (List (Pt K))) : Element K → Map Text (List (Pt K))
  | .courtyardOutline o =>
    match present o.component with
    | some pid =>
      if o.points ≠ [] ∧ courtyards.has pid = false then
        courtyards.set pid (dedupeFrom none o.points)
      else courtyards
    | none => courtyards
  | _ => courtyards

/-- `courtyardByPcbComp` behind the first loop. -/
def rectCourtyards (board : List (Element K)) : Map Text (List (Pt K)) := board.foldl addRect []

/-- `courtyardByPcbComp`. -/
def courtyards (board : List (Element K)) : Map Text (List (Pt K)) :=
  board.foldl addOutline (rectCourtyards board)

/-- The courtyard of a component. -/
def Element.courtyard (courtyards : Map Text (List (Pt K))) : Element K → List (Pt K)
  | .component id => (id.bind courtyards.get?).getD []
  | _ => []

/-- The geometry of a `LayoutGeometry`. -/
structure Layout (K : Type) where
  pads : List (Land K)
  traces : List (Segment K)
  vias : List (Land K)
  /-- The courtyards of the components. -/
  courtyards : List (List (Pt K))

/-- `shapeLayoutResult`. -/
def shapeLayoutResult (board : List (Element K)) : Layout K where
  pads := board.flatMap Element.pads
  traces := board.flatMap Element.segments
  vias := board.flatMap Element.vias
  courtyards := board.map (Element.courtyard (courtyards board))

/-! ### What a layout takes up along an axis -/

def Land.extent (ax : Axis) (l : Land K) : Span K :=
  match ax with
  | .x => ⟨l.place.x - halved l.wMm, l.place.x + halved l.wMm⟩
  | .y => ⟨l.place.y - halved l.hMm, l.place.y + halved l.hMm⟩

def Segment.extents (ax : Axis) (s : Segment K) : List (Span K) :=
  s.points.map fun p => ⟨p.on ax - halved s.widthMm, p.on ax + halved s.widthMm⟩

def Pt.extent (ax : Axis) (p : Pt K) : Span K := ⟨p.on ax, p.on ax⟩

/-- The extents of the pads, the holes, the trace points, the vias and the corners of the
courtyards. -/
def Layout.extents (l : Layout K) (ax : Axis) : List (Span K) :=
  l.pads.map (Land.extent ax) ++ l.traces.flatMap (Segment.extents ax) ++
    l.vias.map (Land.extent ax) ++ l.courtyards.flatten.map (Pt.extent ax)

end CircuitForge.Outline
