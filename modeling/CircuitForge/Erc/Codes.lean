/-
Issues of the electrical rule check: `types/erc.ts` and `erc/codes.ts`.
-/
import CircuitForge.Js.Text

namespace CircuitForge

open Js

inductive ErcCode where
  | noGround | multipleGrounds
  | floatingNode | floatingInput
  | voltageSourceShort | parallelVoltageSources
  | missingValue | invalidValue | pinCountMismatch | missingModel | modelRequired
  | unresolvedModel | nonStandardValue | duplicateDesignator | wrongValueUnit
  | unconnectedNet | netHasSinglePin | isolatedSubcircuit
  | digitalPinShape | floatingDigitalInput | digitalBusContention | mixedDriverConflict
  | mixedLogicLevels
  | emptyCircuit | noActiveComponents
  deriving DecidableEq

inductive ErcSeverity where
  | error | warning | info
  deriving DecidableEq

/-- `ERC_DESCRIPTIONS`. -/
def ErcCode.description : ErcCode → Text
  | noGround => "Circuit has no ground reference (node 0)".toList
  | multipleGrounds => "Circuit has multiple ground components on different nets".toList
  | floatingNode => "Node is not connected to any power or ground path".toList
  | floatingInput => "Component input pin is floating".toList
  | voltageSourceShort => "Voltage source output is shorted to ground".toList
  | parallelVoltageSources => "Parallel voltage sources with different values".toList
  | missingValue => "Component is missing required value".toList
  | invalidValue => "Component has invalid or unparseable value".toList
  | pinCountMismatch => "Component has incorrect number of pins for its type".toList
  | missingModel => "Component requires a model but none specified".toList
  | modelRequired =>
    "Active device has no model and no default — it cannot be simulated".toList
  | unresolvedModel =>
    ("Component references a model that is not defined in the circuit (must be supplied by an " ++
      "included model library)").toList
  | nonStandardValue =>
    ("Component value is not a standard E-series (IEC 60063) preferred value — hard to " ++
      "source").toList
  | duplicateDesignator =>
    "Two or more components share the same designator (must be unique)".toList
  | wrongValueUnit =>
    ("Component value carries a unit inconsistent with its type (e.g. farads on a " ++
      "resistor)").toList
  | unconnectedNet => "Net defined but not connected to any components".toList
  | netHasSinglePin => "Net has only one pin connection (dead end)".toList
  | isolatedSubcircuit =>
    "Node has no connection back to ground (an isolated sub-circuit that floats)".toList
  | digitalPinShape =>
    "Digital component is missing a required pin (output and/or inputs)".toList
  | floatingDigitalInput =>
    "Digital input is not driven by any source (would be an unknown state)".toList
  | digitalBusContention => "Multiple digital outputs drive the same net".toList
  | mixedDriverConflict => "A digital output and an analog source drive the same net".toList
  | mixedLogicLevels =>
    ("The digital domain is driven at materially different (or non-positive) logic levels; " ++
      "analog↔digital bridges use one rail").toList
  | emptyCircuit => "Circuit contains no components".toList
  | noActiveComponents => "Circuit has no active sources or inputs".toList

/-- `ERC_SEVERITIES`. -/
def ErcCode.severity : ErcCode → ErcSeverity
  | noGround | voltageSourceShort | parallelVoltageSources | missingValue | invalidValue
  | pinCountMismatch | modelRequired | unresolvedModel | duplicateDesignator | isolatedSubcircuit
  | digitalPinShape | floatingDigitalInput | digitalBusContention | mixedDriverConflict
  | emptyCircuit => .error
  | multipleGrounds | floatingNode | floatingInput | missingModel | wrongValueUnit
  | netHasSinglePin | mixedLogicLevels | noActiveComponents => .warning
  | nonStandardValue | unconnectedNet => .info

/-- What an issue is about. -/
inductive ErcSubject where
  | component (id : Text)
  | net (id : Text)
  deriving DecidableEq

def ErcSubject.id : ErcSubject → Text
  | component id => id
  | net id => id

structure ErcIssue where
  code : ErcCode
  severity : ErcSeverity
  message : Text
  related : List ErcSubject
  deriving DecidableEq

def ErcIssue.relatedIds (i : ErcIssue) : List Text := i.related.map ErcSubject.id

/-- `createIssue`. -/
def createIssue (code : ErcCode) (related : List ErcSubject) (details : Text := []) : ErcIssue where
  code := code
  severity := code.severity
  message := if details = [] then code.description else code.description ++ ": ".toList ++ details
  related := related

structure ErcResult where
  issues : List ErcIssue

namespace ErcResult

def count (r : ErcResult) (s : ErcSeverity) : Nat := (r.issues.filter (·.severity = s)).length

/-- `errors.length === 0`. -/
def passed (r : ErcResult) : Bool := r.count .error == 0

theorem passed_iff {r : ErcResult} :
    r.passed = true ↔ ∀ i ∈ r.issues, i.severity ≠ .error := by
  rw [passed, count, beq_iff_eq, List.length_eq_zero_iff, List.filter_eq_nil_iff]
  simp

end ErcResult

end CircuitForge
