/-
The circuit as a board program: `pcb-core/src/adapter.ts`.

Nets and components get their names, every pin its port, and every pin that has both is traced to
the name of its net.
-/
import CircuitForge.Js.FirstFree
import CircuitForge.Js.Records
import CircuitForge.Netlist.Names
import CircuitForge.Pcb.Parity

namespace CircuitForge

open Js

/-! ## Identifiers -/

/-- `sanitizeName`. -/
def sanitizeName (raw : Text) : Text :=
  let cleaned := wordChars raw
  if cleaned.head?.any Char.isAlpha then cleaned else 'X' :: cleaned

/-- `baseNetName`. -/
def baseNetName (net : Net) : Text :=
  let cleaned := (wordChars (if net.name = [] then net.id else net.name)).map Char.toUpper
  if cleaned.head?.any Char.isAlpha then cleaned else 'N' :: cleaned

/-- The names `base`, `base_2`, `base_3`, … that are tried in turn. -/
def suffixed (base : Text) (n : Nat) : Text :=
  if n = 0 then base else base ++ '_' :: Nat.toDigits 10 (n + 1)

/-- The first of them that is not in use. -/
def unusedName (used : List Text) (base : Text) : Text :=
  suffixed base (FirstFree.search used (suffixed base) used.length 0)

/-- The name that every ground net gets. -/
def gnd : Text := "GND".toList

/-- `used` and `byId` of `buildNetNames`. -/
structure NetNaming where
  used : List Text
  byId : Record

def nameGround (byId : Record) (net : Net) : Record :=
  if net.isGround then Record.put byId net.id gnd else byId

def nameSignal (s : NetNaming) (net : Net) : NetNaming :=
  if net.isGround then s
  else
    { used := s.used ++ [unusedName s.used (baseNetName net)]
      byId := Record.put s.byId net.id (unusedName s.used (baseNetName net)) }

section

variable [Runtime]

/-- `buildNetNames`. -/
def buildNetNames (circuit : CircuitJson) : Record :=
  (circuit.nets.foldl nameSignal
    { used := [gnd], byId := circuit.nets.foldl nameGround [] }).byId

/-! ## Pin maps -/

inductive LayoutRole where
  | direct | chipFallback | connectorized | netOnly | excluded
  deriving DecidableEq

/-- The elements a plan names. -/
inductive TscElementName where
  | resistor | capacitor | inductor | diode | led | transistor | mosfet | pinheader | chip
  deriving DecidableEq

def TscElementName.text : TscElementName → Text
  | resistor => "resistor".toList
  | capacitor => "capacitor".toList
  | inductor => "inductor".toList
  | diode => "diode".toList
  | led => "led".toList
  | transistor => "transistor".toList
  | mosfet => "mosfet".toList
  | pinheader => "pinheader".toList
  | chip => "chip".toList

/-- `DIRECT_PIN_MAPS`. -/
def directPinMaps : TscElementName → Option Record
  | .resistor => some [(['1'], "pin1".toList), (['2'], "pin2".toList)]
  | .capacitor => some [(['1'], "pin1".toList), (['2'], "pin2".toList)]
  | .inductor => some [(['1'], "pin1".toList), (['2'], "pin2".toList)]
  | .diode => some [("anode".toList, "anode".toList), ("cathode".toList, "cathode".toList)]
  | .led => some [("anode".toList, "anode".toList), ("cathode".toList, "cathode".toList)]
  | .transistor => some [(['c'], ['c']), (['b'], ['b']), (['e'], ['e'])]
  | .mosfet => some [(['d'], "drain".toList), (['g'], "gate".toList), (['s'], "source".toList)]
  | .pinheader => some [(['+'], "pin1".toList), (['-'], "pin2".toList)]
  | .chip => none

/-- `DIRECT_PIN_MAPS[element]?.[pinId]`, where it is a port. -/
def directPort (element : TscElementName) (pinId : Text) : Option Text :=
  truthy ((directPinMaps element).bind fun map => map.read pinId)

/-- `ComponentPlan`; a physical plan names its element. -/
structure ComponentPlan where
  component : Component
  role : LayoutRole
  element : TscElementName
  footprint : Option Text := none

def ComponentPlan.isPhysical (plan : ComponentPlan) : Bool :=
  plan.role = .direct || plan.role = .chipFallback || plan.role = .connectorized

/-- `/^\d+$/.test(pinId)`. -/
def isPadNumber (pinId : Text) : Bool := pinId ≠ [] && pinId.all Char.isDigit

/-- `chipPinOrder`. -/
def chipPinOrder (c : Component) (circuit : CircuitJson) : Option (List Text) :=
  if c.type = .jfet then some [['d'], ['g'], ['s']]
  else
    let ports := ((circuit.models.getD []).find? fun m => some m.name = c.model).bind ModelDef.ports
    if c.type = .subckt ∧ ports.getD [] ≠ [] then ports
    else if c.type = .generic ∧ c.pins.all fun p => isPadNumber p.pinId then none
    else some (c.pins.map PinConnection.pinId)

/-- A `LayoutDiagnostic` about a component. -/
structure AdapterNote where
  code : Text
  severity : Severity
  componentId : Text
  message : Text

/-- `portNameFor`: the port, and what is reported. -/
def portNameFor (element : TscElementName) (pinId : Text) (chipOrder : Option (List Text))
    (c : Component) : Option Text × List AdapterNote :=
  if element = .chip then
    match chipOrder with
    | none => (some ("pin".toList ++ pinId), [])
    | some order =>
      if pinId ∈ order then (some ("pin".toList ++ Nat.toDigits 10 (order.idxOf pinId + 1)), [])
      else
        (none, [{ code := "PCB009".toList, severity := .warning, componentId := c.id
                  message := c.designator ++ '.' :: pinId ++
                    " is not in the chip pin order — left unconnected.".toList }])
  else if element = .mosfet ∧ pinId = ['b'] then (none, [])
  else
    match directPort element pinId with
    | some port => (some port, [])
    | none =>
      (none, [{ code := "PCB009".toList, severity := .warning, componentId := c.id
                message := c.designator ++ '.' :: pinId ++ ": no ".toList ++ element.text ++
                  " port mapping — left unconnected.".toList }])

/-! ## Generation -/

/-- What is emitted for a pin of the part `name`, and what is reported. -/
def emitPin (netNameById : Record) (element : TscElementName) (chipOrder : Option (List Text))
    (name : Text) (c : Component) (pin : PinConnection) :
    Option PinExpectation × List AdapterNote :=
  match portNameFor element pin.pinId chipOrder c with
  | (none, notes) => (none, notes)
  | (some port, notes) =>
    match truthy (netNameById.read pin.netId) with
    | none =>
      (none, notes ++ [{ code := "PCB007".toList, severity := .warning, componentId := c.id
                         message := c.designator ++ '.' :: pin.pinId ++
                           " references unknown net \"".toList ++ pin.netId ++
                           "\" — pin left unconnected.".toList }])
    | some netName =>
      (some
        { name, pinId := pin.pinId, port, netName
          selector := '.' :: name ++ " > .".toList ++ port }, notes)

def traceLine (e : PinExpectation) : Text :=
  "    <trace from=\"".toList ++ e.selector ++ "\" to=\"net.".toList ++ e.netName ++ "\" />".toList

/-- The attributes of an element but its name, and what is reported about them: the footprint, the
value, the polarity and the place of a part. -/
abbrev Attributes := ComponentPlan → Text → List Text × List AdapterNote

def elementLine (plan : ComponentPlan) (name : Text) (attrs : List Text) : Text :=
  "    <".toList ++ plan.element.text ++ ' ' ::
    join [' '] (("name=\"".toList ++ name ++ "\"".toList) :: attrs) ++ " />".toList

/-- The loop of `generateTscircuitCode`. -/
structure Generation where
  usedNames : List Text := []
  namesById : Record := []
  elementLines : List Text := []
  traceLines : List Text := []
  expectations : List PinExpectation := []
  diagnostics : List AdapterNote := []

def Generation.addPin (g : Generation) (emitted : Option PinExpectation × List AdapterNote) :
    Generation :=
  { g with
    traceLines := g.traceLines ++ (emitted.1.map traceLine).toList
    expectations := g.expectations ++ emitted.1.toList
    diagnostics := g.diagnostics ++ emitted.2 }

/-- The name of the next part. -/
def partName (usedNames : List Text) (plan : ComponentPlan) : Text :=
  unusedName usedNames (sanitizeName plan.component.designator)

variable (circuit : CircuitJson) (attributes : Attributes)

/-- What is emitted for a pin of a part under its name. -/
def emitPinOf (name : Text) (plan : ComponentPlan) :
    PinConnection → Option PinExpectation × List AdapterNote :=
  emitPin (buildNetNames circuit) plan.element
    (if plan.element = .chip then chipPinOrder plan.component circuit else none) name plan.component

def addPart (g : Generation) (plan : ComponentPlan) : Generation :=
  let name := partName g.usedNames plan
  plan.component.pins.foldl (fun g pin => g.addPin (emitPinOf circuit name plan pin))
    { g with
      usedNames := g.usedNames ++ [name]
      namesById := Record.put g.namesById plan.component.id name
      elementLines := g.elementLines ++ [elementLine plan name (attributes plan name).1]
      diagnostics := g.diagnostics ++ (attributes plan name).2 }

/-- `AdapterResult`. -/
structure AdapterResult where
  code : Text
  expectations : List PinExpectation
  netNameById : Record
  namesById : Record
  diagnostics : List AdapterNote

/-- `generateTscircuitCode`, with the opening tag of the board. -/
def generateTscircuitCode (plans : List ComponentPlan) (boardTag : Text) : AdapterResult :=
  let g := (plans.filter ComponentPlan.isPhysical).foldl (addPart circuit attributes) {}
  { code := join "\n".toList (["export default () => (".toList, boardTag] ++ g.elementLines ++
      g.traceLines ++ ["  </board>".toList, ")".toList])
    expectations := g.expectations
    netNameById := buildNetNames circuit
    namesById := g.namesById
    diagnostics := g.diagnostics }

end

end CircuitForge
