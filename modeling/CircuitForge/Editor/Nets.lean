/-
Connectivity edits: `editor-core/src/document/nets.ts`.
-/
import CircuitForge.Editor.Edits
import CircuitForge.Js.FirstFree

namespace CircuitForge

open Js

/-- `PinRef`.  It is its own `pinKey`, which encodes the two ids as JSON. -/
structure PinRef where
  componentId : Text
  pinId : Text
  deriving DecidableEq

/-- `n1`, `n2`, …: the ids a fresh net tries. -/
def freshId (i : Nat) : Text := 'n' :: Nat.toDigits 10 (i + 1)

/-- `N1`, `N2`, …: the names a fresh net tries. -/
def freshName (i : Nat) : Text := 'N' :: Nat.toDigits 10 (i + 1)

/-- Which of two nets survives a merge: `rank`. -/
def rank (net : Net) : Nat := if net.isGround then 2 else if net.isPower then 1 else 0

variable [Runtime]

/-- `findPin`: the component and the net, or which half was missing. -/
def findPin (circuit : CircuitJson) (ref : PinRef) : Except Text (Component × Text) :=
  match circuit.components.find? (·.id = ref.componentId) with
  | none => .error ("No component with id \"".toList ++ ref.componentId ++ "\".".toList)
  | some component =>
    match component.pins.find? (·.pinId = ref.pinId) with
    | none => .error (component.designator ++ " has no pin \"".toList ++ ref.pinId ++ "\".".toList)
    | some pin => .ok (component, pin.netId)

def netById (circuit : CircuitJson) (id : Text) : Option Net := circuit.nets.find? (·.id = id)

/-- `pinsOn`: every pin that sits on the net. -/
def pinsOn (circuit : CircuitJson) (netId : Text) : List PinRef :=
  circuit.components.flatMap fun c =>
    (c.pins.filter (·.netId = netId)).map fun p => ⟨c.id, p.pinId⟩

/-- The first number whose id and name are both free. -/
def freshIndex (ids names : List Text) : Nat :=
  FirstFree.searchBoth ids names freshId (fun i => Runtime.lower (freshName i))
    (ids.length + names.length) 0

/-- The names in use, in lower case. -/
def takenNames (circuit : CircuitJson) : List Text :=
  circuit.nets.map fun n => Runtime.lower n.name

/-- `freshNet`. -/
def freshNet (circuit : CircuitJson) : Net :=
  let i := freshIndex (circuit.nets.map Net.id) (takenNames circuit)
  { id := freshId i, name := freshName i }

/-- The pins that `moves` picks go to the net, in place. -/
def Component.repoint (c : Component) (moves : PinConnection → Bool) (netId : Text) : Component :=
  { c with pins := c.pins.map fun p => if moves p then { p with netId } else p }

/-- `repoint`. -/
def repoint (circuit : CircuitJson) (fromNetId toNetId : Text) : CircuitJson :=
  { circuit with
    components := circuit.components.map fun c =>
      if c.pins.any (·.netId = fromNetId) then c.repoint (·.netId = fromNetId) toNetId else c }

def connectPins (circuit : CircuitJson) (fromRef toRef : PinRef) : EditResult CircuitJson :=
  match findPin circuit fromRef, findPin circuit toRef with
  | .error missing, _ => .refused .noSuchPin missing
  | .ok _, .error missing => .refused .noSuchPin missing
  | .ok (ca, netA), .ok (cb, netB) =>
    if fromRef = toRef then .refused .noSuchPin "A pin cannot be connected to itself.".toList
    else if netA = netB then .unchanged circuit
    else
      match netById circuit netA, netById circuit netB with
      | none, _ => .refused .noSuchNet (ca.designator ++ " pin ".toList ++ fromRef.pinId ++
          " names a net that does not exist.".toList)
      | some _, none => .refused .noSuchNet (cb.designator ++ " pin ".toList ++ toRef.pinId ++
          " names a net that does not exist.".toList)
      | some na, some nb =>
        if (na.isGround && nb.isPower) || (na.isPower && nb.isGround) then
          let (gnd, pwr) := if na.isGround then (na, nb) else (nb, na)
          .refused .railShort (gnd.name ++ " is declared ground and ".toList ++ pwr.name ++
            (" is declared a power rail — connecting them shorts the supply. If one of them is " ++
              "marked wrongly, change its role first.").toList)
        else
          let (keep, absorb) := if rank nb ≥ rank na then (nb, na) else (na, nb)
          let moved := repoint circuit absorb.id keep.id
          .changed { moved with nets := moved.nets.filter (·.id ≠ absorb.id) }
            (some (absorb.name ++ " merged into ".toList ++ keep.name ++ ".".toList)) [] []

/-- The circuit with the pins of one key on another net. -/
def movePins (circuit : CircuitJson) (ref : PinRef) (netId : Text) : List Component :=
  circuit.components.map fun c =>
    if c.id = ref.componentId then c.repoint (·.pinId = ref.pinId) netId else c

def disconnectPin (circuit : CircuitJson) (ref : PinRef) : EditResult CircuitJson :=
  match findPin circuit ref with
  | .error missing => .refused .noSuchPin missing
  | .ok (component, netId) =>
    match netById circuit netId with
    | none => .refused .noSuchNet (component.designator ++ " pin ".toList ++ ref.pinId ++
        " names a net that does not exist.".toList)
    | some old =>
      let others := (pinsOn circuit netId).filter (· ≠ ref)
      if others.length = 0 then .unchanged circuit
      else
        let fresh := freshNet circuit
        let note := component.designator ++ " pin ".toList ++ ref.pinId ++ " is now on ".toList ++
          fresh.name
        .changed
          { circuit with components := movePins circuit ref fresh.id, nets := circuit.nets ++ [fresh] }
          (some (if others.length = 1 then
            note ++ ", and ".toList ++ old.name ++ " is left with a single pin.".toList
          else note ++ ".".toList)) [] []

def movePinToNet (circuit : CircuitJson) (ref : PinRef) (netId : Text) : EditResult CircuitJson :=
  match findPin circuit ref with
  | .error missing => .refused .noSuchPin missing
  | .ok (component, found) =>
    match netById circuit netId with
    | none => .refused .noSuchNet ("No net with id \"".toList ++ netId ++ "\".".toList)
    | some target =>
      if found = netId then .unchanged circuit
      else
        let oldName := ((netById circuit found).map Net.name).getD found
        let leftBehind := ((pinsOn circuit found).filter (· ≠ ref)).length
        let place := component.designator ++ " pin ".toList ++ ref.pinId ++ " moved to ".toList ++
          target.name
        .changed
          { circuit with
            components := movePins circuit ref netId
            nets := circuit.nets.filter fun n => !(leftBehind = 0 && n.id = found) }
          (some (if leftBehind = 0 then
              place ++ "; ".toList ++ oldName ++ " had no other pins and is gone.".toList
            else if leftBehind = 1 then
              place ++ "; ".toList ++ oldName ++ " is left with a single pin.".toList
            else place ++ ".".toList)) [] []

/-- Why the pins cannot be split off the net, if one of them cannot. -/
def splitRefusal (circuit : CircuitJson) (net : Net) (on : List PinRef) :
    List PinRef → Option (EditRefusal × Text)
  | [] => none
  | ref :: take =>
    match findPin circuit ref with
    | .error missing => some (.noSuchPin, missing)
    | .ok (component, found) =>
      if ref ∈ on then splitRefusal circuit net on take
      else some (.pinNotOnNet, component.designator ++ " pin ".toList ++ ref.pinId ++
        " is on ".toList ++ ((netById circuit found).map Net.name).getD found ++ ", not on ".toList ++
        net.name ++ ".".toList)

/-- The components with the pins of the keys on another net. -/
def splitPins (circuit : CircuitJson) (takeKeys : List PinRef) (netId : Text) : List Component :=
  circuit.components.map fun c =>
    if c.pins.any (fun p => ⟨c.id, p.pinId⟩ ∈ takeKeys) then
      c.repoint (fun p => ⟨c.id, p.pinId⟩ ∈ takeKeys) netId
    else c

def splitNet (circuit : CircuitJson) (netId : Text) (take : List PinRef) : EditResult CircuitJson :=
  match netById circuit netId with
  | none => .refused .noSuchNet ("No net with id \"".toList ++ netId ++ "\".".toList)
  | some net =>
    let on := pinsOn circuit netId
    match splitRefusal circuit net on take with
    | some (reason, message) => .refused reason message
    | none =>
      let takeKeys := take.dedup
      if takeKeys.length = 0 then
        .refused .pointlessSplit "Choose at least one pin to move onto a new net.".toList
      else if takeKeys.length = on.length then
        .refused .pointlessSplit ("Moving every pin of ".toList ++ net.name ++
          " would rename it, not split it.".toList)
      else
        let fresh := freshNet circuit
        .changed
          { circuit with
            components := splitPins circuit takeKeys fresh.id, nets := circuit.nets ++ [fresh] }
          (some (Nat.toDigits 10 takeKeys.length ++ " of ".toList ++ Nat.toDigits 10 on.length ++
            " pins moved from ".toList ++ net.name ++ " to ".toList ++ fresh.name ++ ".".toList))
          [] []

end CircuitForge
