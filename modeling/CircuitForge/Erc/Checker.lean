/-
The electrical rule check: `erc/checker.ts`.

Each check returns its issues in the order the source pushes them; `runErc`
concatenates them.
-/
import CircuitForge.Erc.Codes
import CircuitForge.Js.Worklist
import CircuitForge.Netlist.Generator
import CircuitForge.Utils.UnitParser

namespace CircuitForge

open Js

/-- `String(n)` of a count. -/
def countText (n : Nat) : Text := Nat.toDigits 10 n

/-- `net.name || net.id`. -/
def Net.label (net : Net) : Text := (truthy (some net.name)).getD net.id

/-- `Net "…"`. -/
def netLabel (label : Text) : Text := "Net \"".toList ++ label ++ "\"".toList

variable [Runtime]

/-- `component.designator || component.id`. -/
def Component.label (c : Component) : Text := (truthy (some c.designator)).getD c.id

def ofComponent (c : Component) : ErcSubject := .component c.id

/-- `EXPECTED_PIN_COUNTS`. -/
def expectedPinCount : ComponentType → Option Nat
  | .resistor | .capacitor | .inductor | .voltageSource | .currentSource | .bsource | .diode
  | .zener => some 2
  | .transformer | .tline | .vcvs | .vccs | .switch | .mosfet => some 4
  | .bjt | .jfet => some 3
  | .ground => some 1
  | _ => none

/-! ## Ground -/

/-- `checkEmptyCircuit`. -/
def checkEmptyCircuit (circuit : CircuitJson) : List ErcIssue :=
  if (circuit.components.filter (·.type ≠ .ground)).length = 0 then
    [createIssue .emptyCircuit []]
  else []

/-- The ground components. -/
def groundComponents (circuit : CircuitJson) : List Component :=
  circuit.components.filter (·.type = .ground)

/-- The nets of the first pins of the ground components. -/
def groundPinNets (circuit : CircuitJson) : List Text :=
  (groundComponents circuit).filterMap fun c => truthy (c.pins.head?.map PinConnection.netId)

omit [Runtime] in
/-- `net.isGround || net.id === '0' || net.name === '0'`. -/
def Net.isReference (net : Net) : Bool :=
  net.isGround || net.id = "0".toList || net.name = "0".toList

/-- `checkGround`. -/
def checkGround (circuit : CircuitJson) : List ErcIssue :=
  let grounds := groundComponents circuit
  let hasNodeZero := circuit.nets.any fun n => n.id = "0".toList || n.name = "0".toList
  let hasGround :=
    0 < grounds.length || 0 < (circuit.nets.filter Net.isGround).length || hasNodeZero
  (if hasGround then [] else [createIssue .noGround []]) ++
    if 1 < grounds.length then
      let netIds := (groundPinNets circuit).eraseDups
      if 1 < netIds.length then
        [createIssue .multipleGrounds (grounds.map ofComponent)
          ("Found on nets: ".toList ++ join ", ".toList netIds)]
      else []
    else []

/-- The grounds of `checkGroundReachability`. -/
def anchoredNetIds (circuit : CircuitJson) : List Text :=
  (circuit.nets.filter Net.isReference).map Net.id ++ groundPinNets circuit

/-- `collectGroundNetIds`. -/
def collectGroundNetIds (circuit : CircuitJson) : List Text :=
  "0".toList :: anchoredNetIds circuit

/-! ## Nets -/

/-- The components and pins on a net; a pin without a net is on none. -/
def pinsOnNet (circuit : CircuitJson) (netId : Text) : List (Component × PinConnection) :=
  circuit.components.flatMap fun c =>
    (c.pins.filter fun p => p.netId ≠ [] ∧ p.netId = netId).map fun p => (c, p)

/-- The issues of one net in `checkFloatingNodes`. -/
def floatingNodeIssues (circuit : CircuitJson) (net : Net) : List ErcIssue :=
  let here := pinsOnNet circuit net.id
  let subjects := .net net.id :: here.map fun e => ofComponent e.1
  if net.isReference then []
  else
    match here with
    | [] => [createIssue .unconnectedNet [.net net.id] (netLabel net.label)]
    | [(c, p)] =>
      -- a driven digital output observed on its own net is no dead end
      if digitalPinRole c.type p.pinId = some .source then []
      else
        [createIssue .netHasSinglePin subjects
          (netLabel net.label ++ " connected to only ".toList ++
            join ", ".toList (here.map fun e => e.1.id))]
    | _ =>
      if here.all fun e => e.1.type = .capacitor ∨ e.1.type = .currentSource then
        [createIssue .floatingNode subjects
          (netLabel net.label ++ (" has no DC path to ground (only capacitor/current-source " ++
            "connections); its operating point is undefined. Set analysis.initialConditions for " ++
            "this node for a clean, artifact-free start.").toList)]
      else []

/-- `checkFloatingNodes`. -/
def checkFloatingNodes (circuit : CircuitJson) : List ErcIssue :=
  circuit.nets.flatMap (floatingNodeIssues circuit)

/-- `checkNetConnections`. -/
def checkNetConnections (circuit : CircuitJson) : List ErcIssue :=
  let referenced := (circuit.components.flatMap fun c => c.pins.map PinConnection.netId).filter
    (· ≠ [])
  (circuit.nets.filter fun net =>
    net.id ∉ referenced ∧ net.isGround = false ∧ net.id ≠ "0".toList).map fun net =>
      createIssue .unconnectedNet [.net net.id] (netLabel net.label)

/-! ## Components -/

/-- `checkPinCounts`. -/
def checkPinCounts (circuit : CircuitJson) : List ErcIssue :=
  circuit.components.flatMap fun c =>
    match expectedPinCount c.type with
    | none => []
    | some expected =>
      if c.pins.length = expected then []
      else
        [createIssue .pinCountMismatch [ofComponent c]
          (c.label ++ ": expected ".toList ++ countText expected ++ " pins, got ".toList ++
            countText c.pins.length)]

/-- The ids of the components with the same trimmed, lower-cased designator. -/
def designatorGroups (circuit : CircuitJson) : Map Text (List Component) :=
  circuit.components.foldl (fun m c =>
    match truthy (some (trim c.designator)) with
    | none => m
    | some d =>
      let key := Runtime.lower d
      m.set key ((m.get? key).getD [] ++ [c])) []

/-- `checkDuplicateDesignators`. -/
def checkDuplicateDesignators (circuit : CircuitJson) : List ErcIssue :=
  (designatorGroups circuit).flatMap fun e =>
    if 1 < e.2.length then
      [createIssue .duplicateDesignator (e.2.map ofComponent)
        (countText e.2.length ++ " components share the designator \"".toList ++ e.1 ++
          ("\" — designators must be unique (ngspice device names are " ++
            "case-insensitive)").toList)]
    else []

/-- `requiresValue`. -/
def requiresValue : ComponentType → Bool
  | .resistor | .capacitor | .inductor | .voltageSource | .currentSource | .zener | .vcvs
  | .vccs => true
  | _ => false

/-- `modelRequired`. -/
def modelRequired : ComponentType → Bool
  | .bjt | .mosfet | .jfet | .subckt | .switch => true
  | _ => false

omit [Runtime] in
/-- The unit a passive is measured in and its name. -/
def passiveUnit : ComponentType → Option Text
  | .resistor => some "Ω".toList
  | .capacitor => some "F".toList
  | .inductor => some "H".toList
  | _ => none

omit [Runtime] in
def unitName (u : Text) : Text :=
  if u = "Ω".toList then "ohms".toList
  else if u = "F".toList then "farads".toList
  else "henries".toList

/-- The advisories on the value of a resistor, capacitor or inductor. -/
def passiveIssues (c : Component) : List ErcIssue :=
  match passiveUnit c.type, truthy c.value with
  | some expectedUnit, some value =>
    let parsed := parseSpiceValue value
    (match parsed with
      | some p =>
        if Runtime.lt (Runtime.lit 0 0) p.value && !isESeriesValue p.value then
          [createIssue .nonStandardValue [ofComponent c]
            (c.label ++ ": ".toList ++ value ++
              match truthy (snapValueString value) with
              | some nearest => " — nearest standard (E24) is ".toList ++ nearest
              | none => [])]
        else []
      | none => []) ++
    match parsed.bind ParsedValue.unit with
    | some u =>
      if u ≠ expectedUnit ∧ u ∈ ["Ω", "F", "H"].map String.toList then
        [createIssue .wrongValueUnit [ofComponent c]
          (c.label ++ ": value \"".toList ++ value ++ "\" is in ".toList ++ unitName u ++
            ", but a ".toList ++ c.type.name ++ " is measured in ".toList ++ unitName expectedUnit)]
      else []
    | none => []
  | _, _ => []

/-- Whether `key in props` for one of the keys. -/
def hasProp (c : Component) (keys : List String) : Bool :=
  keys.any fun key => c.properties.any (·.has key.toList)

/-- The value check of a type whose value is read by `accepts`. -/
def readableValueIssues (c : Component) (accepts : Text → Bool) (complaint : String) :
    List ErcIssue :=
  match truthy c.value with
  | some value =>
    if accepts value then []
    else
      [createIssue .invalidValue [ofComponent c]
        (c.label ++ ": \"".toList ++ value ++ complaint.toList)]
  | none => []

/-- The value checks by type. -/
def typedValueIssues (c : Component) : List ErcIssue :=
  match c.type with
  | .zener =>
    readableValueIssues c (fun v => (buildZenerModel v).isSome)
      "\" is not a valid breakdown voltage"
  | .vcvs | .vccs =>
    readableValueIssues c (fun v => (normalizeControlledSourceGain v).isSome)
      "\" is not a valid gain (must be a single number)"
  | .transformer =>
    if (parseTransformerParams c.properties).isSome then []
    else
      let bothPresent := hasProp c ["primaryInductance"] && hasProp c ["secondaryInductance"]
      [createIssue (if bothPresent then .invalidValue else .missingValue) [ofComponent c]
        (c.label ++ (" (transformer) needs positive primaryInductance + secondaryInductance " ++
          "(+ optional coupling 0..1)").toList)]
  | .tline =>
    if (parseTransmissionLineParams c.properties).isSome then []
    else
      let hasZ := hasProp c ["z0", "impedance"]
      let hasSpec := hasProp c ["td", "delay", "f", "frequency"]
      [createIssue (if hasZ && hasSpec then .invalidValue else .missingValue) [ofComponent c]
        (c.label ++ " (transmission line) needs positive z0 + (td or f)".toList)]
  | .bsource =>
    match truthy (c.value.map trim) with
    | none =>
      [createIssue .missingValue [ofComponent c]
        (c.label ++ " (behavioral source) needs a \"V=<expr>\" or \"I=<expr>\" value".toList)]
    | some v =>
      if !isExprHead v || (c.value.getD []).any isLineBreak then
        [createIssue .invalidValue [ofComponent c]
          (c.label ++ (": behavioral source value must be \"V=<expr>\" or \"I=<expr>\" " ++
            "(non-empty) on one line").toList)]
      else []
  | _ => []

/-- The issues of one component in `checkComponentValues`. -/
def componentValueIssues (c : Component) : List ErcIssue :=
  (if requiresValue c.type ∧ truthy c.value = none then
    [createIssue .missingValue [ofComponent c]
      (c.label ++ " (".toList ++ c.type.name ++ ")".toList)] else []) ++
  passiveIssues c ++
  typedValueIssues c ++
  (if c.type = .diode ∧ truthy c.model = none then
    [createIssue .missingModel [ofComponent c] (c.label ++ " will use default model".toList)]
    else []) ++
  (if modelRequired c.type ∧ truthy c.model = none then
    [createIssue .modelRequired [ofComponent c]
      (c.label ++ " (".toList ++ c.type.name ++ ")".toList)] else [])

/-- `checkComponentValues`. -/
def checkComponentValues (circuit : CircuitJson) : List ErcIssue :=
  circuit.components.flatMap componentValueIssues

/-- The model names of `checkModelResolution`. -/
def definedModels (circuit : CircuitJson) : List Text :=
  "DDEFAULT".toList :: (deckModels circuit).map ModelDef.name

/-- `checkModelResolution`. -/
def checkModelResolution (circuit : CircuitJson) : List ErcIssue :=
  circuit.components.flatMap fun c =>
    match truthy c.model with
    | some model =>
      if model ∈ definedModels circuit then []
      else
        [createIssue .unresolvedModel [ofComponent c]
          (c.label ++ " references model \"".toList ++ model ++ "\"".toList)]
    | none => []

/-- `checkActiveSources`. -/
def checkActiveSources (circuit : CircuitJson) : List ErcIssue :=
  let active := circuit.components.any fun c =>
    c.type = .voltageSource ∨ c.type = .currentSource
  if !active && 0 < circuit.components.length then [createIssue .noActiveComponents []] else []

/-! ## Voltage sources -/

/-- `value.trim().replace(/^(dc|ac)\s+/i, '')`. -/
def dropKeyword (value : Text) : Text :=
  let t := trim value
  if (startsWithI t "dc".toList || startsWithI t "ac".toList) && (t.drop 2).head?.any isSpace then
    trimStart (t.drop 2)
  else t

/-- `sourceDcMagnitude`. -/
def sourceDcMagnitude (value : Text) : Option Runtime.Num :=
  (parseSpiceValue ((splitBlanks (dropKeyword value)).headD [])).map ParsedValue.value

/-- The devices that force a voltage. -/
def forcesVoltage (c : Component) : Bool :=
  c.type = .voltageSource || c.type = .vcvs ||
    (c.type = .bsource && c.value.any isVoltageForm)

/-- `canon` of the net of a pin: the grounds are one node. -/
def canonNet (circuit : CircuitJson) (c : Component) (pinId : String) : Option Text :=
  truthy ((c.pins.find? (·.pinId = pinId.toList)).map fun p =>
    if p.netId ∈ collectGroundNetIds circuit then "0".toList else p.netId)

/-- A voltage-forcing device in the orientation of its node pair. -/
structure Driver where
  source : Component
  signed : Option Runtime.Num
  tag : Text

/-- The node pair of a device as a key, and the device in its orientation. -/
def driverOf (circuit : CircuitJson) (c : Component) : Option (Text × Driver) :=
  match canonNet circuit c "+", canonNet circuit c "-", c.value with
  | some p, some n, some value =>
    if p = n then none
    else
      let reversed := !decide (p < n)
      let (a, b) := if reversed then (n, p) else (p, n)
      let mag := sourceDcMagnitude value
      some (a ++ '|' :: b,
        { source := c
          signed := if reversed then mag.map (Runtime.sub (Runtime.lit 0 0)) else mag
          tag := (if reversed then '-' else '+') :: value })
  | _, _, _ => none

/-- The drivers of each node pair. -/
def driverGroups (circuit : CircuitJson) : Map Text (List Driver) :=
  (circuit.components.filter forcesVoltage).foldl (fun m c =>
    match driverOf circuit c with
    | some (key, d) => m.set key ((m.get? key).getD [] ++ [d])
    | none => m) []

/-- A voltage that is none of the distinct ones so far is one more. -/
def addDistinct (distinct : List Runtime.Num) (v : Runtime.Num) : List Runtime.Num :=
  let near := fun w => Runtime.le (Runtime.abs (Runtime.sub w v))
    (Runtime.mul (Runtime.lit 1 (-9)) (Runtime.max (Runtime.lit 1 0) (Runtime.abs w)))
  if distinct.any near then distinct else distinct ++ [v]

/-- Whether the drivers of one node pair force it to different voltages. -/
def driversConflict (drivers : List Driver) : Bool :=
  let allPlain := drivers.all (·.source.type = .voltageSource)
  let signed := drivers.filterMap Driver.signed
  !allPlain ||
    if signed.length = drivers.length then 1 < (signed.foldl addDistinct []).length
    else 1 < (drivers.map Driver.tag).eraseDups.length

/-- `checkVoltageSourceShorts`. -/
def checkVoltageSourceShorts (circuit : CircuitJson) : List ErcIssue :=
  ((circuit.components.filter forcesVoltage).flatMap fun vs =>
    let p := canonNet circuit vs "+"
    if p ≠ none ∧ p = canonNet circuit vs "-" then
      [createIssue .voltageSourceShort [ofComponent vs]
        (vs.label ++ " has both terminals on the same node".toList)]
    else []) ++
  (driverGroups circuit).flatMap fun e =>
    let drivers := e.2
    if drivers.length < 2 then []
    else if driversConflict drivers then
      let labels := join ", ".toList (drivers.map (·.source.label))
      [createIssue .parallelVoltageSources (drivers.map fun d => ofComponent d.source)
        (if drivers.all (·.source.type = .voltageSource) then
          "Voltage sources (".toList ++ labels ++
            ") force the same node pair to different voltages".toList
        else "Multiple voltage drivers (".toList ++ labels ++
          ") across the same node pair — they over-determine the node".toList)]
    else []

/-! ## Reachability -/

/-- The nets of a component's pins. -/
def netsOf (c : Component) : List Text := (c.pins.map PinConnection.netId).filter (· ≠ [])

/-- The nets that share a component with a net. -/
def adjacentNets (circuit : CircuitJson) (netId : Text) : List Text :=
  circuit.components.flatMap fun c =>
    if netId ∈ netsOf c then (netsOf c).filter (· ≠ netId) else []

/-- The nets the fill from the grounds reaches. -/
def reachableNets (circuit : CircuitJson) : List Text :=
  Worklist.reach (adjacentNets circuit) (circuit.components.flatMap netsOf)
    (anchoredNetIds circuit).eraseDups

/-- The pins of a net that are neither digital nor a ground component's. -/
def analogPinCount (circuit : CircuitJson) (netId : Text) : Nat :=
  ((pinsOnNet circuit netId).filter fun e =>
    !e.1.type.isDigital && e.1.type != .ground).length

/-- `checkGroundReachability`. -/
def checkGroundReachability (circuit : CircuitJson) : List ErcIssue :=
  if anchoredNetIds circuit = [] then []
  else
    let reachable := reachableNets circuit
    let islands := circuit.nets.filter fun net =>
      net.id ∉ reachable ∧ 2 ≤ analogPinCount circuit net.id
    if islands = [] then []
    else
      let islandIds := islands.map Net.id
      let comps := ((circuit.components.filter fun c =>
        c.pins.any fun p => p.netId ≠ [] ∧ p.netId ∈ islandIds).map Component.id).eraseDups
      [createIssue .isolatedSubcircuit (islandIds.map .net ++ comps.map .component)
        ("Net(s) ".toList ++ join ", ".toList (islands.map Net.label) ++
          (" have no connection back to ground — an isolated sub-circuit that floats (or makes " ++
            "the operating point singular)").toList)]

/-! ## Digital devices -/

/-- A digital pin-shape issue. -/
def shapeIssue (c : Component) (details : Text) : ErcIssue :=
  createIssue .digitalPinShape [ofComponent c]
    (c.label ++ " (".toList ++ c.type.name ++ "): ".toList ++ details)

/-- The pin shape of a gate. -/
def gateShapeIssues (c : Component) : List ErcIssue :=
  let ids := c.pins.map PinConnection.pinId
  let inputPins := (ids.filter isGateInput).map Runtime.lower
  let inputs := inputPins.length
  let distinctInputs := inputPins.eraseDups.length
  let outputs := (ids.filter (· = "out".toList)).length
  let stray := ids.filter fun id => id ≠ "out".toList ∧ !isGateInput id
  let okInputs := if c.type.isSingleInputGate then inputs = 1 else 2 ≤ inputs
  if outputs ≠ 1 ∨ ¬ okInputs ∨ distinctInputs ≠ inputs ∨ 0 < stray.length then
    let reason :=
      if 0 < stray.length then
        "has unexpected pin(s) ".toList ++ join ", ".toList stray.eraseDups ++
          " — gate pins must be 'in1'..'inN' + 'out'".toList
      else if distinctInputs ≠ inputs then "has duplicate input pin ids".toList
      else
        "needs ".toList ++ (if c.type.isSingleInputGate then "exactly one" else ">=2").toList ++
          " 'in*' and exactly one 'out'".toList
    [shapeIssue c (reason ++ " (got ".toList ++ countText inputs ++ " input(s), ".toList ++
      countText distinctInputs ++ " distinct, ".toList ++ countText outputs ++
      " output(s))".toList)]
  else []

omit [Runtime] in
/-- The later occurrences in a list, each once. -/
def repeated (ids : List Text) : List Text :=
  ((ids.zipIdx.filter fun e => ids.idxOf e.1 ≠ e.2).map Prod.fst).eraseDups

/-- The pin shape of a flip-flop, a latch or a tristate buffer. -/
def fixedShapeIssues (c : Component) : List ErcIssue :=
  let canonical := c.type.pins
  let ids := c.pins.map PinConnection.pinId
  let optional := ["set", "rst"].map String.toList
  ((canonical.filter (· ∉ optional)).flatMap fun req =>
    if req ∈ ids then []
    else [shapeIssue c ("missing required pin '".toList ++ req ++ "'".toList)]) ++
  (let dups := repeated (ids.map Runtime.lower)
   if dups = [] then []
   else [shapeIssue c ("duplicate pin id(s) ".toList ++ join ", ".toList dups)]) ++
  (let strays := (ids.filter (Runtime.lower · ∉ canonical)).eraseDups
   if strays = [] then []
   else
    [shapeIssue c ("unexpected pin(s) ".toList ++ join ", ".toList strays ++ " — ".toList ++
      c.type.name ++ " pins are ".toList ++ join "/".toList canonical)])

/-- The pin shape of a component. -/
def shapeIssues (c : Component) : List ErcIssue :=
  if c.type.isLogicGate then gateShapeIssues c
  else if c.type.isSequential || c.type = .tristate then fixedShapeIssues c
  else []

/-- The tally of the drivers of a net. -/
structure Tally where
  src : Nat := 0
  sink : Nat := 0
  analog : Nat := 0
  analogSrc : Nat := 0
  triSrc : Nat := 0

omit [Runtime] in
/-- `ACTIVE_ANALOG`. -/
def isActiveAnalog : ComponentType → Bool
  | .voltageSource | .currentSource | .vcvs | .vccs | .bsource => true
  | _ => false

omit [Runtime] in
/-- One pin in the tally of its net. -/
def Tally.add (x : Tally) (t : ComponentType) (pinId : Text) : Tally :=
  if t.isDigital then
    if digitalPinRole t pinId = some .source then
      { x with src := x.src + 1, triSrc := if t = .tristate then x.triSrc + 1 else x.triSrc }
    else { x with sink := x.sink + 1 }
  else
    -- the controlling pins of an E or G source only sense their net
    let senseOnly := (t = .vcvs ∨ t = .vccs) ∧ (pinId = "c+".toList ∨ pinId = "c-".toList)
    { x with
      analog := x.analog + 1
      analogSrc := if isActiveAnalog t ∧ ¬ senseOnly then x.analogSrc + 1 else x.analogSrc }

/-- The tally of every net, in the order the nets are met. -/
def driverTally (circuit : CircuitJson) : Map Text Tally :=
  circuit.components.foldl (fun m c =>
    if c.type = .ground ∨ c.type = .generic then m
    else
      c.pins.foldl (fun m p =>
        m.set p.netId (((m.get? p.netId).getD {}).add c.type p.pinId)) m) []

/-- The driver issues of one net. -/
def tallyIssues (circuit : CircuitJson) (netId : Text) (x : Tally) : List ErcIssue :=
  let net := circuit.nets.find? (·.id = netId)
  let label := netLabel ((truthy (net.map Net.name)).getD netId)
  if x.src + x.sink = 0 then []
  else
    (if 2 ≤ x.src ∧ x.triSrc < x.src then
      [createIssue .digitalBusContention [.net netId]
        (label ++ " is driven by ".toList ++ countText x.src ++ " digital outputs (".toList ++
          countText (x.src - x.triSrc) ++ " non-tristate)".toList)] else []) ++
    (if 1 ≤ x.src ∧ 1 ≤ x.analogSrc then
      [createIssue .mixedDriverConflict [.net netId] label] else []) ++
    (if 1 ≤ x.sink ∧ x.src = 0 ∧ x.analog = 0 ∧ net.any Net.isGround = false then
      [createIssue .floatingDigitalInput [.net netId] label] else [])

/-- The voltage drivers of the nets with digital pins. -/
def levelDrivers (circuit : CircuitJson) : List Component :=
  let digitalNets := ((driverTally circuit).filter fun e => 0 < e.2.src + e.2.sink).map Prod.fst
  circuit.components.filter fun c =>
    isVoltageDriver c && c.pins.any fun p => p.netId ∈ digitalNets

omit [Runtime] in
/-- `Math.max(...xs)` and `Math.min(...xs)` of a list that is not empty. -/
def extreme {α : Type} (pick : α → α → α) : List α → Option α
  | [] => none
  | x :: xs => some (xs.foldl pick x)

/-- The advisories on the logic levels. -/
def levelIssues (circuit : CircuitJson) : List ErcIssue :=
  let zero := Runtime.lit 0 0
  let drivers := levelDrivers circuit
  let levels := (drivers.filterMap fun c => sourceHighLevel c.value).filter (Runtime.lt zero ·)
  let sawNegative := drivers.any fun c => (sourceLowLevel c.value).any (Runtime.lt · zero)
  (match extreme Runtime.max levels, extreme Runtime.min levels with
    | some max, some min =>
      if 2 ≤ levels.length ∧ Runtime.lt (Runtime.lit 14 (-1)) (Runtime.div max min) then
        let maxText := Runtime.toText max
        let minText := Runtime.toText min
        [createIssue .mixedLogicLevels []
          ("Digital domain driven at different logic levels (".toList ++ minText ++
            " V and ".toList ++ maxText ++
            " V); bridges are calibrated to the highest rail (".toList ++ maxText ++
            " V), so a ".toList ++ minText ++
            " V HIGH may read as undefined. Use a level shifter or set logicVoltage.".toList)]
      else []
    | _, _ => []) ++
  (if sawNegative then
    [createIssue .mixedLogicLevels []
      ("A digital input is driven by a negative-going stimulus; the positive adc thresholds " ++
        "cannot read its negative excursion. Use a positive logic rail.").toList]
  else [])

/-- `checkDigitalConnectivity`. -/
def checkDigitalConnectivity (circuit : CircuitJson) : List ErcIssue :=
  if circuit.components.any (·.type.isDigital) then
    circuit.components.flatMap shapeIssues ++
      (driverTally circuit).flatMap (fun e => tallyIssues circuit e.1 e.2) ++ levelIssues circuit
  else []

/-! ## All checks -/

/-- `runErc`. -/
def runErc (circuit : CircuitJson) : ErcResult where
  issues :=
    checkEmptyCircuit circuit ++ checkGround circuit ++ checkFloatingNodes circuit ++
      checkPinCounts circuit ++ checkDuplicateDesignators circuit ++ checkComponentValues circuit ++
      checkModelResolution circuit ++ checkVoltageSourceShorts circuit ++
      checkGroundReachability circuit ++ checkNetConnections circuit ++
      checkActiveSources circuit ++ checkDigitalConnectivity circuit

def ercErrors (circuit : CircuitJson) : List ErcIssue :=
  (runErc circuit).issues.filter fun i => i.severity = .error

end CircuitForge
