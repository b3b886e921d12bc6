/-
Drawing and deleting wires, from `editor-core/src/schematic/wiring.ts`, and the commits
that a sheet makes.

A gesture plans kernel edits with a change of the drawing, and both are one revision.
-/
import CircuitForge.Editor.History
import CircuitForge.Schematic.Wiring

namespace CircuitForge

open Js

/-- `w1`, `w2`, …: the ids a new wire tries. -/
def wireIdAt (i : Nat) : Text := 'w' :: Nat.toDigits 10 (i + 1)

/-- `nextWireIds(wires, 1)`. -/
def nextWireId (wires : List Wire) : Text :=
  wireIdAt (FirstFree.search (wires.filterMap Wire.id) wireIdAt wires.length 0)

/-- `WireDraft`: the corners, and the terminal under each end. -/
structure WireDraft where
  points : List XY
  fromRef : Option PinRef
  toRef : Option PinRef

/-- `drawing` of a gesture that leaves the drawing. -/
def keepDrawing {Circuit : Type} (ui : UiJson) (_created : List Text) (_circuit : Circuit) :
    UiJson := ui

variable [Runtime]

omit [Runtime] in
/-- `refusing`. -/
def refusing {Circuit : Type} (message : String) (_circuit : Circuit) : EditResult Circuit :=
  .refused .empty message.toList

/-- `freezeDrawing` of a drawing that nobody owns yet. -/
class FirstDrawing [Runtime] where
  draw : CircuitJson → UiJson → UiJson

/-- `WirePlan`. -/
structure WirePlan where
  label : Text
  edits : List (CircuitJson → EditResult CircuitJson)
  drawing : UiJson → List Text → CircuitJson → UiJson

/-! ## Drawing a wire -/

omit [Runtime] in
/-- The nets the ends of a wire touch, and one terminal of each. -/
structure Landing where
  reps : Map Text PinRef := []
  netsHit : List Text := []

omit [Runtime] in
/-- One more net, with a terminal if it has one. -/
def Landing.hit (l : Landing) (netId : Text) (rep : Option PinRef) : Landing where
  reps := match rep with
    | none => l.reps
    | some ref => if (l.reps.get? netId).isSome then l.reps else l.reps.set netId ref
  netsHit := if netId ∈ l.netsHit then l.netsHit else l.netsHit ++ [netId]

omit [Runtime] in
/-- What one end of a new wire lands on. -/
def landEnd (wires : List Wire) (pins : Map PinRef SheetPin) (l : Landing) (at' : XY)
    (pin : Option PinRef) : Except String Landing :=
  match pin with
  | some ref =>
    match pins.get? ref with
    | none => .error "That terminal is not on the sheet any more."
    | some p =>
      if p.x ≠ at'.x ∨ p.y ≠ at'.y then .error "The wire does not end on that terminal."
      else .ok (l.hit p.netId (some ref))
  | none =>
    match ((wires.filter fun w => wireTouches w.points at'.x at'.y).map Wire.netId).dedup with
    | [] => .ok l
    | [netId] =>
      .ok (l.hit netId (((pins.map Prod.snd).find? (·.netId = netId)).map SheetPin.key))
    | _ => .error "Two nets cross here. End the wire on one of them."

section

variable [FirstDrawing]

/-- `freezeDrawing`. -/
def freezeDrawing (circuit : CircuitJson) (ui : UiJson) : UiJson :=
  if ui.wires.isSome then ui else FirstDrawing.draw circuit ui

/-- The drawing with the new wire, on the net that its ends have become. -/
def drawWire (circuit : CircuitJson) (l : Landing) (points : List XY) (draft : WireDraft)
    (current : UiJson) (after : CircuitJson) : UiJson :=
  let base := freezeDrawing circuit current
  let final := match (l.reps.map Prod.snd).head? with
    | some ref => ((pinNets after).get? ref).getD []
    | none => l.netsHit.headD []
  let relabelled := base.drawn.map fun w =>
    if w.netId ∈ l.netsHit then { w with netId := final } else w
  { base with
    wires := some (relabelled ++ [{
      id := some (nextWireId relabelled), netId := final, points
      fromRef := draft.fromRef, toRef := draft.toRef }]) }

/-- `planWire`. -/
def planWire (circuit : CircuitJson) (ui : UiJson) (draft : WireDraft) : WirePlan :=
  let label := "Draw wire".toList
  let fail := fun message => (⟨label, [refusing message], keepDrawing⟩ : WirePlan)
  match tidyPoints draft.points with
  | a :: b :: rest =>
    let points := a :: b :: rest
    if ¬ AtRightAngles points then fail "A wire runs at right angles."
    else
      let owned := freezeDrawing circuit ui
      let pins := pinMap circuit owned.positions
      match (do
        let l ← landEnd owned.drawn pins {} a draft.fromRef
        landEnd owned.drawn pins l (points.getLastD a) draft.toRef) with
      | .error message => fail message
      | .ok l =>
        if l.netsHit.length = 0 then
          fail "A wire has to start or end on a terminal or on another wire."
        else
          { label
            edits := match l.reps.map Prod.snd with
              | [] => []
              | first :: rest => rest.map fun r c => connectPins c first r
            drawing := fun current _ after => drawWire circuit l points draft current after }
  | _ => fail "A wire needs two different points."

end

/-! ## Deleting wires -/

/-- `drawnIslands`: which terminals the drawing joins, as the root of each index. -/
def drawnIslands (pins : List SheetPin) (wires : List Wire) (i : Nat) : Nat :=
  let index := Map.fill (fun e : SheetPin × Nat => e.1.key) Prod.snd pins.zipIdx []
  let onConductors := (groupsOf wires).flatMap fun group =>
    match group.filterMap (wires[·]?) with
    | [] => []
    | w :: ws =>
      let reached := (pins.zipIdx.filter fun e => e.1.netId = w.netId &&
        (w :: ws).any fun v => wireTouches v.points e.1.x e.1.y).map Prod.snd
      let ended := (w :: ws).flatMap fun v => v.ends.filterMap index.get?
      match (reached ++ ended).filter fun i => (pins[i]?.map (·.netId)) = some w.netId with
      | [] => []
      | first :: rest => rest.map fun i => (first, i)
  let spots := Map.group (fun e : SheetPin × Nat => (e.1.netId, e.1.toXY)) pins.zipIdx
  let onSpots := spots.flatMap fun e =>
    match e.2.map Prod.snd with
    | [] => []
    | first :: rest => rest.map fun i => (first, i)
  (UnionFind.find (UnionFind.unions (onConductors ++ onSpots) []) i).2

/-- The larger piece first; of two as large, the one that begins first. -/
def beforePiece (a b : List Nat) : Bool :=
  b.length < a.length || (a.length = b.length && a.headD 0 ≤ b.headD 0)

/-- The terminals that come apart when a drawing of the wires `before` keeps only `after`. -/
def splitsOf (pins : List SheetPin) (before after : List Wire) : List (List PinRef) :=
  (Map.group (drawnIslands pins before) (List.range pins.length)).flatMap fun e =>
    let pieces := (Map.group (drawnIslands pins after) e.2).map Prod.snd
    (pieces.mergeSort beforePiece).tail.map fun piece =>
      piece.filterMap fun i => pins[i]?.map SheetPin.key

/-- The edit that splits some terminals off their net. -/
def splitOff (take : List PinRef) (circuit : CircuitJson) : EditResult CircuitJson :=
  match truthy (take.head?.bind (pinNets circuit).get?) with
  | some netId => splitNet circuit netId take
  | none => refusing "A terminal on that wire is gone." circuit

/-- The wires whose keys are not among the doomed ones. -/
def keptWires (keys : List Text) (wires : List Wire) : List Wire :=
  (wires.zipIdx.filter fun e => wireKey e.1 e.2 ∉ keys).map Prod.fst

/-- `planWireDeletion`. -/
def planWireDeletion (circuit : CircuitJson) (ui : UiJson) (keys : List Text) : WirePlan :=
  let label := if keys.length = 1 then "Delete wire".toList
    else "Delete ".toList ++ Nat.toDigits 10 keys.length ++ " wires".toList
  let before := ui.drawn
  let gone := (before.zipIdx.filter fun e => wireKey e.1 e.2 ∈ keys).map Prod.fst
  if gone.length = 0 then ⟨label, [], keepDrawing⟩
  else
    let rails := sharedNets circuit
    let affected := (gone.filter (·.netId ∉ rails)).map Wire.netId
    let pins := (sheetPins circuit ui.positions).filter (·.netId ∈ affected)
    { label
      edits := (splitsOf pins before (keptWires keys before)).map splitOff
      drawing := fun current _ _ => { current with wires := some (keptWires keys current.drawn) } }

/-! ## Commits -/

/-- `sameJson` of two drawings: the order of the positions does not matter. -/
def sameDrawing (a b : UiJson) : Bool :=
  a.wires = b.wires && a.positions.length = b.positions.length &&
    a.positions.all fun e => b.positions.get? e.1 = some e.2

/-- The kernel on circuits and their drawings.  What a revision touched is not read here,
and an object goes by its id. -/
instance [FirstDrawing] : Kernel where
  Ref := Text
  Position := Position
  Circuit := CircuitJson
  Ui := UiJson
  components := fun circuit => circuit.components.map Component.id
  componentId := id
  nets := fun circuit => circuit.nets.map Net.id
  metadata := fun circuit => circuit.metadataName.getD []
  version := fun _ => []
  uiRef := fun _ => []
  positions := fun ui => some ui.positions
  setPositions := fun ui positions => { ui with positions }
  freezeDrawing := freezeDrawing
  syncDrawing := syncDrawing
  sameJson := sameDrawing

end CircuitForge
