/-
The circuit schema: `schemas/circuit.schema.ts`.

Each definition is the test a document passes, over the fields the document model
keeps.
-/
import CircuitForge.Types.Circuit

namespace CircuitForge

open Js

/-- `z.string().min(lo).max(hi)`. -/
def lengthWithin (lo hi : Nat) (s : Text) : Bool := lo ≤ s.length && s.length ≤ hi

/-- `PinConnectionSchema`. -/
def pinConnectionSchema (p : PinConnection) : Bool :=
  lengthWithin 1 50 p.pinId && lengthWithin 1 100 p.netId

/-- `DESIGNATOR_PATTERN`. -/
def designatorRe : Re :=
  .seq .letter <| .seq (.star (.cls Char.isAlphanum)) <| .seq (.plus .digit) (.opt .letter)

/-- `ModelDefSchema`. -/
def modelDefSchema (m : ModelDef) : Bool :=
  lengthWithin 1 100 m.name && lengthWithin 1 20000 m.body &&
    m.ports.all fun ports => ports.all (lengthWithin 1 50) && ports.length ≤ 64

/-- `NetSchema`. -/
def netSchema (n : Net) : Bool := lengthWithin 1 100 n.id && lengthWithin 1 100 n.name

variable [Runtime]

/-- `ComponentSchema`. -/
def componentSchema (c : Component) : Bool :=
  lengthWithin 1 100 c.id && c.type.isKnown && designatorRe.accepts c.designator &&
    c.value.all (lengthWithin 0 100) && c.model.all (lengthWithin 0 100) &&
    c.pins.all pinConnectionSchema && (1 ≤ c.pins.length && c.pins.length ≤ 64)

/-- `CircuitJsonSchema`. -/
def circuitJsonSchema (circuit : CircuitJson) : Bool :=
  circuit.components.all componentSchema && circuit.components.length ≤ 1000 &&
    circuit.nets.all netSchema && circuit.nets.length ≤ 1000 &&
    (circuit.models.all fun ms => ms.all modelDefSchema && ms.length ≤ 200) &&
    circuit.metadataName.all (lengthWithin 0 200)

theorem componentSchema_of_circuit {circuit : CircuitJson}
    (h : circuitJsonSchema circuit = true) {c : Component} (hc : c ∈ circuit.components) :
    componentSchema c = true := by
  simp only [circuitJsonSchema, Bool.and_eq_true] at h
  exact List.all_eq_true.mp h.1.1.1.1.1 c hc

theorem designatorRe_of_component {c : Component} (h : componentSchema c = true) :
    designatorRe.accepts c.designator = true := by
  simp only [componentSchema, Bool.and_eq_true] at h
  exact h.1.1.1.1.2

end CircuitForge
