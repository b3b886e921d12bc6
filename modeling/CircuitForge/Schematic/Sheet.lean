/-
The sheet: terminals, wires and moving parts, from `editor-core/src/schematic/wiring.ts`.
-/
import CircuitForge.Schematic.Symbols

namespace CircuitForge

open Js

/-- `SheetPin`: a terminal where it sits on the sheet. -/
structure SheetPin extends XY where
  componentId : Text
  pinId : Text
  netId : Text
  side : Side
  deriving DecidableEq

/-- `pinKey` of a terminal. -/
def SheetPin.key (p : SheetPin) : PinRef := ⟨p.componentId, p.pinId⟩

/-! ## Points -/

/-- Two points on one horizontal or one vertical. -/
def Axial (a b : XY) : Prop := a.x = b.x ∨ a.y = b.y

instance (a b : XY) : Decidable (Axial a b) := inferInstanceAs (Decidable (_ ∨ _))

/-- A wire at right angles: every segment runs along an axis. -/
def AtRightAngles (points : List XY) : Prop := points.IsChain Axial

instance (points : List XY) : Decidable (AtRightAngles points) :=
  inferInstanceAs (Decidable (points.IsChain Axial))

/-- The way from `prev` to `p` goes straight on at `last`. -/
def goesOn (prev last p : XY) : Bool :=
  (last.x - prev.x) * (p.y - last.y) - (last.y - prev.y) * (p.x - last.x) = 0 &&
    0 < (last.x - prev.x) * (p.x - last.x) + (last.y - prev.y) * (p.y - last.y)

/-- One turn of `tidyPoints`, on the points so far with the last of them first. -/
def tidyStep (out : List XY) (p : XY) : List XY :=
  match out with
  | [] => [p]
  | last :: rest =>
    if last = p then out
    else
      match rest with
      | [] => [p, last]
      | prev :: _ => if goesOn prev last p then p :: rest else p :: out

/-- `tidyPoints`: no repeated point, and no point inside a straight run. -/
def tidyPoints (points : List XY) : List XY := (points.foldl tidyStep []).reverse

/-- `moveEnd` at the head. -/
def moveHead : List XY → XY → List XY
  | was :: near :: rest, to' =>
    if was.y = near.y then
      match rest with
      | [] => if to'.y = near.y then [to', near] else [to', ⟨near.x, to'.y⟩, near]
      | next :: rest => to' :: ⟨near.x, to'.y⟩ :: next :: rest
    else if was.x = near.x then
      match rest with
      | [] => if to'.x = near.x then [to', near] else [to', ⟨to'.x, near.y⟩, near]
      | next :: rest => to' :: ⟨to'.x, near.y⟩ :: next :: rest
    else to' :: near :: rest
  | _, to' => [to']

/-- `moveEnd`: the tail is the head of the wire read backwards. -/
def moveEnd (points : List XY) (head : Bool) (to' : XY) : List XY :=
  if head then moveHead points to' else (moveHead points.reverse to').reverse

section

variable [Runtime]

/-! ## Terminals -/

/-- `sheetPins`: every terminal of every drawn part, at its stored position. -/
def sheetPins (circuit : CircuitJson) (positions : Map Text Position) : List SheetPin :=
  circuit.components.flatMap fun c =>
    match positions.get? c.id with
    | none => []
    | some at' =>
      let symbol := orientSymbol (symbolFor c) at'
      c.pins.filterMap fun pin =>
        (symbol.pins.find? (·.pinId = pin.pinId)).map fun sp =>
          { componentId := c.id, pinId := pin.pinId, netId := pin.netId
            x := at'.x + sp.x, y := at'.y + sp.y, side := sp.side }

/-- `new Map(sheetPins(…).map((p) => [pinKey(p), p]))`. -/
def pinMap (circuit : CircuitJson) (positions : Map Text Position) : Map PinRef SheetPin :=
  Map.fill SheetPin.key id (sheetPins circuit positions) []

/-! ## Where the drawing and the netlist disagree -/

/-- `wireKey`. -/
def wireKey (w : Wire) (i : Nat) : Text := w.id.getD ('#' :: Nat.toDigits 10 i)

/-- What is wrong at one recorded end of a wire. -/
def endProblems (pins : Map PinRef SheetPin) (name : Text) (w : Wire) :
    Option PinRef → Option XY → List Text
  | none, _ => []
  | some ref, at' =>
    let ending := name ++ ": ends on ".toList ++ ref.componentId ++ ".".toList ++ ref.pinId
    match pins.get? ref with
    | none => [ending ++ ", which is not on the sheet".toList]
    | some p =>
      if p.netId ≠ w.netId then [ending ++ " of net ".toList ++ p.netId]
      else if at' ≠ some p.toXY then
        [name ++ ": end is not on ".toList ++ ref.componentId ++ ".".toList ++ ref.pinId]
      else []

/-- What is wrong with one wire. -/
def wireProblems (circuit : CircuitJson) (pins : Map PinRef SheetPin) (w : Wire) (i : Nat) :
    List Text :=
  let name := wireKey w i
  (if w.netId ∉ circuit.nets.map Net.id then
    [name ++ ": net ".toList ++ w.netId ++ " does not exist".toList] else []) ++
  endProblems pins name w w.fromRef w.points.head? ++
  endProblems pins name w w.toRef w.points.getLast?

/-- `drawingProblems`. -/
def drawingProblems (circuit : CircuitJson) (ui : UiJson) : List Text :=
  match ui.wires with
  | none => []
  | some wires =>
    (wires.mapIdx fun i w => wireProblems circuit (pinMap circuit ui.positions) w i).flatten

/-! ## Moving parts -/

/-- Where a terminal was and where it is, if it has moved: `delta`. -/
def delta (before after : Map PinRef SheetPin) : Option PinRef → Option (XY × XY)
  | none => none
  | some ref =>
    match before.get? ref, after.get? ref with
    | some a, some b => if a.x ≠ b.x ∨ a.y ≠ b.y then some (a.toXY, b.toXY) else none
    | _, _ => none

/-- The points moved by one amount. -/
def shift (dx dy : Rat) (points : List XY) : List XY := points.map fun p => ⟨p.x + dx, p.y + dy⟩

/-- A wire after its ends have moved. -/
def moveWire (w : Wire) (h t : Option (XY × XY)) : Wire :=
  match h, t with
  | none, none => w
  | some h, some t =>
    if h.2.x - h.1.x = t.2.x - t.1.x ∧ h.2.y - h.1.y = t.2.y - t.1.y then
      { w with points := shift (h.2.x - h.1.x) (h.2.y - h.1.y) w.points }
    else { w with points := tidyPoints (moveEnd (moveEnd w.points true h.2) false t.2) }
  | some h, none => { w with points := tidyPoints (moveEnd w.points true h.2) }
  | none, some t => { w with points := tidyPoints (moveEnd w.points false t.2) }

/-- The parts whose position the map changes. -/
def movedIds (ui : UiJson) (positions : Map Text Position) : List Text :=
  (positions.map Prod.fst).filter fun id => positions.get? id ≠ ui.positions.get? id

/-- `withPositions`. -/
def withPositions (circuit : CircuitJson) (ui : UiJson) (positions : Map Text Position) : UiJson :=
  match ui.wires with
  | none => { ui with positions }
  | some wires =>
    let ids := movedIds ui positions
    if ids.length = 0 then { ui with positions }
    else
      let subset := { circuit with components := circuit.components.filter (·.id ∈ ids) }
      let before := pinMap subset ui.positions
      let after := pinMap subset positions
      { ui with
        positions
        wires := some (wires.map fun w =>
          moveWire w (delta before after w.fromRef) (delta before after w.toRef)) }

end

end CircuitForge
