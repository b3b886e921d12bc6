/-
The circuit document: `types/circuit.ts`.
-/
import CircuitForge.Js.Map
import CircuitForge.Js.Runtime

namespace CircuitForge

open Js

/-- `ComponentType`.  The generator also meets documents that skipped the schema,
and refuses them by name: `other` is a type string outside the union. -/
inductive ComponentType where
  | resistor | capacitor | inductor | transformer | tline
  | voltageSource | currentSource | vcvs | vccs | bsource | switch
  | diode | zener | bjt | mosfet | jfet | subckt
  | logicAnd | logicOr | logicNand | logicNor | logicXor | logicXnor | logicNot | logicBuffer
  | dff | jkff | tff | dlatch | tristate
  | ground | generic
  | other (name : Text)
  deriving DecidableEq

namespace ComponentType

/-- The string the document carries. -/
def name : ComponentType → Text
  | resistor => "resistor".toList
  | capacitor => "capacitor".toList
  | inductor => "inductor".toList
  | transformer => "transformer".toList
  | tline => "tline".toList
  | voltageSource => "voltage_source".toList
  | currentSource => "current_source".toList
  | vcvs => "vcvs".toList
  | vccs => "vccs".toList
  | bsource => "bsource".toList
  | switch => "switch".toList
  | diode => "diode".toList
  | zener => "zener".toList
  | bjt => "bjt".toList
  | mosfet => "mosfet".toList
  | jfet => "jfet".toList
  | subckt => "subckt".toList
  | logicAnd => "logic_and".toList
  | logicOr => "logic_or".toList
  | logicNand => "logic_nand".toList
  | logicNor => "logic_nor".toList
  | logicXor => "logic_xor".toList
  | logicXnor => "logic_xnor".toList
  | logicNot => "logic_not".toList
  | logicBuffer => "logic_buffer".toList
  | dff => "dff".toList
  | jkff => "jkff".toList
  | tff => "tff".toList
  | dlatch => "dlatch".toList
  | tristate => "tristate".toList
  | ground => "ground".toList
  | generic => "generic".toList
  | other n => n

/-- Membership of the schema's `COMPONENT_TYPES`. -/
def isKnown : ComponentType → Bool
  | other _ => false
  | _ => true

/-- `COMPONENT_PINS`: the canonical pin order, empty for variable arity. -/
def pins : ComponentType → List Text
  | resistor | capacitor | inductor => ["1", "2"].map String.toList
  | transformer => ["p+", "p-", "s+", "s-"].map String.toList
  | tline => ["a+", "a-", "b+", "b-"].map String.toList
  | voltageSource | currentSource | bsource => ["+", "-"].map String.toList
  | vcvs | vccs | switch => ["+", "-", "c+", "c-"].map String.toList
  | diode | zener => ["anode", "cathode"].map String.toList
  | bjt => ["c", "b", "e"].map String.toList
  | mosfet => ["d", "g", "s", "b"].map String.toList
  | jfet => ["d", "g", "s"].map String.toList
  | dff => ["d", "clk", "set", "rst", "q", "qb"].map String.toList
  | jkff => ["j", "k", "clk", "set", "rst", "q", "qb"].map String.toList
  | tff => ["t", "clk", "set", "rst", "q", "qb"].map String.toList
  | dlatch => ["d", "en", "set", "rst", "q", "qb"].map String.toList
  | tristate => ["in1", "en", "out"].map String.toList
  | ground => ["1".toList]
  | _ => []

/-- `SPICE_PREFIXES`: the device letter, `none` for the empty or missing entry. -/
def spicePrefix : ComponentType → Option Char
  | resistor => some 'R'
  | capacitor => some 'C'
  | inductor => some 'L'
  | tline => some 'T'
  | voltageSource => some 'V'
  | currentSource => some 'I'
  | vcvs => some 'E'
  | vccs => some 'G'
  | bsource => some 'B'
  | switch => some 'S'
  | diode | zener => some 'D'
  | bjt => some 'Q'
  | mosfet => some 'M'
  | jfet => some 'J'
  | subckt => some 'X'
  | logicAnd | logicOr | logicNand | logicNor | logicXor | logicXnor | logicNot | logicBuffer
  | dff | jkff | tff | dlatch | tristate => some 'A'
  | transformer | ground | generic | other _ => none

/-- `isSimulatable`. -/
def isSimulatable : ComponentType → Bool
  | generic => false
  | _ => true

/-- `isLogicGateType`. -/
def isLogicGate : ComponentType → Bool
  | logicAnd | logicOr | logicNand | logicNor | logicXor | logicXnor | logicNot
  | logicBuffer => true
  | _ => false

/-- `SEQUENTIAL_TYPES`. -/
def isSequential : ComponentType → Bool
  | dff | jkff | tff | dlatch => true
  | _ => false

/-- `isDigitalType`. -/
def isDigital (t : ComponentType) : Bool := t.isLogicGate || t.isSequential || t == tristate

/-- `isSingleInputGate`. -/
def isSingleInputGate : ComponentType → Bool
  | logicNot | logicBuffer => true
  | _ => false

end ComponentType

inductive PinRole where
  | source | sink
  deriving DecidableEq

/-- `digitalPinRole`. -/
def digitalPinRole (t : ComponentType) (pinId : Text) : Option PinRole :=
  if t.isLogicGate then
    some (if pinId = "out".toList then .source else .sink)
  else if t.isSequential then
    some (if pinId = "q".toList ∨ pinId = "qb".toList then .source else .sink)
  else if t = .tristate then
    some (if pinId = "out".toList then .source else .sink)
  else none

structure PinConnection where
  pinId : Text
  netId : Text
  deriving DecidableEq

/-- A value of the open `properties` record, as the readers tell them apart. -/
inductive PropValue [Runtime] where
  | str (s : Text)
  | num (n : Runtime.Num)
  | other

/-- `ComponentSourcing`. -/
structure ComponentSourcing [Runtime] where
  supplier : Text
  supplierId : Text
  unitCost : Option Runtime.Num
  currency : Option Text
  stock : Option Runtime.Num
  datasheetUrl : Option Text

/-- The catalogue identity of a component. -/
structure Catalog [Runtime] where
  mpn : Option Text := none
  manufacturer : Option Text := none
  footprint : Option Text := none
  tolerance : Option Runtime.Num := none
  /-- `'user'` or `'catalog'`. -/
  toleranceSource : Option Text := none
  sourcing : Option ComponentSourcing := none

structure Component [Runtime] where
  id : Text
  type : ComponentType
  designator : Text
  value : Option Text := none
  model : Option Text := none
  pins : List PinConnection
  properties : Option (Map Text PropValue) := none
  catalog : Catalog := {}

/-- A net.  The flags are truth values: an absent flag is false. -/
structure Net where
  id : Text
  name : Text
  isGround : Bool := false
  isPower : Bool := false
  deriving DecidableEq

inductive ModelDevice where
  | bjt | mosfet | jfet | diode | subckt | switch | digital
  deriving DecidableEq

structure ModelDef where
  name : Text
  device : ModelDevice
  body : Text
  ports : Option (List Text) := none
  deriving DecidableEq

/-- `CircuitJson`, less the fields no part of the deck pipeline reads. -/
structure CircuitJson [Runtime] where
  components : List Component
  nets : List Net
  models : Option (List ModelDef) := none
  /-- `metadata?.name`. -/
  metadataName : Option Text := none

namespace ComponentType

/-- A digital type emits an `A` device. -/
theorem spicePrefix_of_isDigital {t : ComponentType} (h : t.isDigital = true) :
    t.spicePrefix = some 'A' := by
  cases t <;> first | rfl | exact absurd h (by decide) | exact absurd h (by simp [isDigital,
    isLogicGate, isSequential])

theorem isDigital_cases {t : ComponentType} (h : t.isDigital = true) :
    t.isLogicGate = true ∨ t.isSequential = true ∨ t = tristate := by
  simpa [isDigital, or_assoc] using h

end ComponentType

theorem digitalPinRole_isSome {t : ComponentType} (h : t.isDigital = true) (p : Text) :
    ∃ r, digitalPinRole t p = some r := by
  unfold digitalPinRole
  rcases t.isDigital_cases h with h | h | h
  · exact ⟨_, if_pos h⟩
  · by_cases hg : t.isLogicGate = true
    · exact ⟨_, if_pos hg⟩
    · rw [if_neg hg, if_pos h]
      exact ⟨_, rfl⟩
  · subst h
    exact ⟨_, rfl⟩

end CircuitForge
