/-
Editing a design: `editor-core/src/document/edits.ts`.

Every edit returns the new document or a refusal that names the reason.
-/
import CircuitForge.Schemas.Circuit

namespace CircuitForge

open Js

inductive EditRefusal where
  | noSuchComponent | duplicateDesignator | empty | invalidCharacters | noSuchPin | noSuchNet
  | pinNotOnNet | railShort | pointlessSplit
  deriving DecidableEq

/-- `EditResult`.  An edit that is valid and changes nothing is `unchanged`. -/
inductive EditResult (Circuit : Type) where
  | changed (circuit : Circuit) (note : Option Text) (created : List Text)
      (derivedFrom : List Text)
  | unchanged (circuit : Circuit)
  | refused (reason : EditRefusal) (message : Text)

variable [Runtime]

/-- `replaceComponent`. -/
def replaceComponent (circuit : CircuitJson) (componentId : Text)
    (update : Component → Component) : CircuitJson :=
  { circuit with
    components := circuit.components.map fun c => if c.id = componentId then update c else c }

/-- `setDesignator`. -/
def setDesignator (circuit : CircuitJson) (componentId next : Text) : EditResult CircuitJson :=
  match circuit.components.find? (·.id = componentId) with
  | none => .refused .noSuchComponent
      ("No component with id \"".toList ++ componentId ++ "\".".toList)
  | some target =>
    let trimmed := trim next
    if trimmed = [] then .refused .empty "A designator cannot be empty.".toList
    else if !designatorRe.accepts trimmed then
      .refused .invalidCharacters
        ("A designator must be a letter prefix followed by a number, optionally with a ".toList ++
          "section letter — R1, U12, U1A.".toList)
    else if trimmed = target.designator then .unchanged circuit
    else
      match circuit.components.find? fun c =>
          c.id ≠ componentId ∧ Runtime.lower c.designator = Runtime.lower trimmed with
      | some clash => .refused .duplicateDesignator
          (clash.designator ++ " already exists — designators must be unique.".toList)
      | none =>
        .changed (replaceComponent circuit componentId fun c => { c with designator := trimmed })
          none [] []

/-- `setValue`. -/
def setValue (circuit : CircuitJson) (componentId next : Text) : EditResult CircuitJson :=
  match circuit.components.find? (·.id = componentId) with
  | none => .refused .noSuchComponent
      ("No component with id \"".toList ++ componentId ++ "\".".toList)
  | some target =>
    let trimmed := trim next
    if trimmed = [] then
      .refused .empty "A value cannot be empty — remove the field instead.".toList
    else if some trimmed = target.value then .unchanged circuit
    else
      .changed (replaceComponent circuit componentId fun c => { c with value := some trimmed })
        none [] []

/-- `setNetName`. -/
def setNetName (circuit : CircuitJson) (netId next : Text) : EditResult CircuitJson :=
  match circuit.nets.find? (·.id = netId) with
  | none => .refused .noSuchComponent ("No net with id \"".toList ++ netId ++ "\".".toList)
  | some target =>
    let trimmed := trim next
    if trimmed = [] then .refused .empty "A net name cannot be empty.".toList
    else if trimmed = target.name then .unchanged circuit
    else
      match circuit.nets.find? fun n =>
          n.id ≠ netId ∧ Runtime.lower n.name = Runtime.lower trimmed with
      | some clash => .refused .duplicateDesignator
          ("A net called ".toList ++ clash.name ++ " already exists.".toList)
      | none =>
        .changed
          { circuit with
            nets := circuit.nets.map fun n => if n.id = netId then { n with name := trimmed } else n }
          none [] []

end CircuitForge
