/-
Drawn wires: `editor-core/src/schematic/wiring.ts`, which keeps the drawing and the
netlist in step.

Distances between spots on the sheet are compared exactly.
-/
import CircuitForge.Editor.Runs
import CircuitForge.Js.UnionFind
import CircuitForge.Schematic.Drag

namespace CircuitForge

open Js

/-! ## Conductors -/

/-- The point lies on the segment. -/
def onSegment (a b : XY) (x y : Rat) : Bool :=
  (b.x - a.x) * (y - a.y) - (b.y - a.y) * (x - a.x) = 0 &&
    min a.x b.x ≤ x && x ≤ max a.x b.x && min a.y b.y ≤ y && y ≤ max a.y b.y

/-- `wireTouches`: the line passes through the point or ends on it. -/
def wireTouches (points : List XY) (x y : Rat) : Bool :=
  match points with
  | [p] => p.x = x && p.y = y
  | points => (points.zip points.tail).any fun s => onSegment s.1 s.2 x y

def endsOf (w : Wire) : List XY := w.points.head?.toList ++ w.points.getLast?.toList

/-- `touching`: an end of either lies on the other. -/
def touching (a b : Wire) : Bool :=
  (endsOf a).any (fun p => wireTouches b.points p.x p.y) ||
    (endsOf b).any fun p => wireTouches a.points p.x p.y

/-- The pairs of wires of one net that touch. -/
def joints (wires : List Wire) : List (Nat × Nat) :=
  (List.range wires.length).flatMap fun i =>
    ((List.range wires.length).filter fun k =>
      match wires[i]?, wires[k]? with
      | some a, some b => i < k && a.netId = b.netId && touching a b
      | _, _ => false).map (i, ·)

/-- `groupsOf`: the drawn conductors, as lists of indexes of wires. -/
def groupsOf (wires : List Wire) : List (List Nat) :=
  let parent := UnionFind.unions (joints wires) []
  (Map.group (fun i => (UnionFind.find parent i).2) (List.range wires.length)).map Prod.snd

/-! ## Votes -/

/-- The terminals the wire is recorded on. -/
def Wire.ends (w : Wire) : List PinRef := w.fromRef.toList ++ w.toRef.toList

/-- The UTF-16 code unit that the character stands for. -/
def codeUnit (c : Char) : Nat := if c.toNat ≥ 0x10000 then c.toNat - 0x10000 else c.toNat

/-- The first of the texts in the order of their code units: `tied.sort()[0]`. -/
def leastText : List Text → Option Text
  | [] => none
  | t :: ts => some (ts.foldl (fun a b => if b.map codeUnit < a.map codeUnit then b else a) t)

/-- How often each net is voted for. -/
def tally (votes : List Text) : Map Text Nat :=
  votes.foldl (fun m v => m.set v ((m.get? v).getD 0 + 1)) []

/-- The net with most votes; the one the conductor was on, where that is tied with others. -/
def elected (was : Text) (votes : List Text) : Text :=
  let most := ((tally votes).map Prod.snd).max?.getD 0
  let tied := ((tally votes).filter (·.2 = most)).map Prod.fst
  if was ∈ tied then was else (leastText tied).getD was

section

variable [Runtime]

/-- `pinNets`. -/
def pinNets (circuit : CircuitJson) : Map PinRef Text :=
  Map.fill Prod.fst Prod.snd (pinsOf circuit) []

/-! ## The drawing after an edit -/

omit [Runtime] in
/-- The label of the wires that go. -/
def deadNet : Text := '\x00' :: "dead".toList

omit [Runtime] in
/-- The terminals of the wire are all there. -/
def isAlive (netOf : Map PinRef Text) (w : Wire) : Bool :=
  w.ends.all fun ref => (netOf.get? ref).isSome

omit [Runtime] in
/-- The wire on the net of its conductor, unless it ends on a terminal of another. -/
def relabelled (netOf : Map PinRef Text) (net : Text) (w : Wire) : Option Wire :=
  if w.ends.any fun ref => netOf.get? ref ≠ some net then none else some { w with netId := net }

omit [Runtime] in
/-- The net of a conductor, `none` where its own is gone and it touches nothing.  No wire
of it goes, so every end has a vote. -/
def netOfGroup (netOf : Map PinRef Text) (nets : List Text) (was : Text) (wires : List Wire) :
    Option Text :=
  let votes := wires.flatMap fun w => w.ends.filterMap netOf.get?
  if votes.length > 0 then some (elected was votes)
  else if was ∈ nets then some was
  else none

omit [Runtime] in
/-- One conductor brought in line. -/
def syncGroup (netOf : Map PinRef Text) (nets : List Text) (before : List Wire)
    (next : List (Option Wire)) (group : List Nat) : List (Option Wire) :=
  match group.head?.bind (before[·]?) with
  | none => next
  | some first =>
    if !isAlive netOf first then next
    else
      let net := netOfGroup netOf nets first.netId (group.filterMap (before[·]?))
      group.foldl (fun next i =>
        next.set i (net.bind fun net => before[i]?.bind (relabelled netOf net))) next

/-- The wires of `syncDrawing`. -/
def syncWires (circuit : CircuitJson) (before : List Wire) : List Wire :=
  let netOf := pinNets circuit
  let groups := groupsOf (before.map fun w =>
    if isAlive netOf w then w else { w with netId := deadNet })
  let next := groups.foldl (syncGroup netOf (circuit.nets.map Net.id) before)
    (before.map fun w => if isAlive netOf w then some w else none)
  next.filterMap id

/-! ## New parts -/

/-- `snap`. -/
def snap (v : Rat) : Rat := (v / pinGrid + 1 / 2).floor * pinGrid

/-- `boxAt`. -/
def boxAt (c : Component) (at' : Position) : Bounds Rat :=
  let b := (orientSymbol (symbolFor c) at').bounds
  ⟨at'.x + b.minX, at'.y + b.minY, at'.x + b.maxX, at'.y + b.maxY⟩

/-- Nearer to the origin; as near, then further right, then further up. -/
def nearer (p q : Int × Int) : Bool :=
  let dp := p.1 * p.1 + p.2 * p.2
  let dq := q.1 * q.1 + q.2 * q.2
  dp < dq || (dp = dq && (q.1 < p.1 || (q.1 = p.1 && p.2 ≤ q.2)))

/-- The whole numbers from `-r` to `r`. -/
def spread (r : Nat) : List Int := (List.range (2 * r + 1)).map fun (i : Nat) => (i : Int) - r

/-- `ringOffsets`: the rings around the origin, nearest first. -/
def ringOffsets (maxRing : Nat) : List (Int × Int) :=
  ((List.range maxRing).flatMap fun r =>
    (spread (r + 1)).flatMap fun j => ((spread (r + 1)).filter fun i =>
      max i.natAbs j.natAbs = r + 1).map fun i => (i, j)).mergeSort nearer

/-- There is a lattice step between the boxes. -/
def apart (b o : Bounds Rat) : Bool :=
  b.maxX + pinGrid ≤ o.minX || b.minX - pinGrid ≥ o.maxX || b.maxY + pinGrid ≤ o.minY ||
    b.minY - pinGrid ≥ o.maxY

/-- The places given so far, and what stands on the sheet. -/
structure Placing where
  positions : Map Text Position
  boxes : List (Bounds Rat)

/-- Right of all that stands on the sheet. -/
def Placing.rightEdge (st : Placing) (own : Bounds Int) : Rat :=
  snap ((st.boxes.map Bounds.maxX).max?.getD 0 + 4 * pinGrid - own.minX)

/-- Where the search for a spot begins. -/
def Placing.anchor (st : Placing) (own : Bounds Int) (neighbour : Option Position) : XY :=
  match neighbour with
  | some at' => at'.toXY
  | none =>
    if st.boxes.length = 0 then ⟨0, 0⟩
    else ⟨st.rightEdge own, snap ((st.boxes.map Bounds.minY).min?.getD 0 - own.minY)⟩

/-- A spot for one part. -/
def placePart (parts : List Component) (rails : List Text) (st : Placing) (c : Component) :
    Placing :=
  let mine := (c.pins.map PinConnection.netId).filter fun n =>
    n ∉ rails || !isPlaceablePart c.type
  let neighbour := (parts.find? fun o => o.id ≠ c.id ∧ (st.positions.get? o.id).isSome = true ∧
    o.pins.any (·.netId ∈ mine) = true).bind fun o => st.positions.get? o.id
  let own := (symbolFor c).bounds
  let anchor := st.anchor own neighbour
  let free := fun (at' : XY) => st.boxes.all (apart (boxAt c { at' with }))
  let spot :=
    if neighbour.isSome || !free anchor then
      (((ringOffsets 40).map fun (o : Int × Int) =>
        (⟨anchor.x + o.1 * (2 * pinGrid), anchor.y + o.2 * (2 * pinGrid)⟩ : XY)).find?
          free).getD ⟨st.rightEdge own, anchor.y⟩
    else anchor
  { positions := st.positions.set c.id { spot with }
    boxes := st.boxes ++ [boxAt c { spot with }] }

/-- `placeNewParts`. -/
def placeNewParts (circuit : CircuitJson) (ui : UiJson) : UiJson :=
  let parts := circuit.components
  let missing := parts.filter fun c => (ui.positions.get? c.id).isNone
  if missing.length = 0 then ui
  else
    let boxes := parts.filterMap fun c => (ui.positions.get? c.id).map (boxAt c)
    let placed := missing.foldl (placePart parts (sharedNets circuit)) ⟨ui.positions, boxes⟩
    { ui with positions := placed.positions }

/-- `syncDrawing`. -/
def syncDrawing (circuit : CircuitJson) (ui : UiJson) : UiJson :=
  match ui.wires with
  | none => ui
  | some before => placeNewParts circuit { ui with wires := some (syncWires circuit before) }

end

end CircuitForge
