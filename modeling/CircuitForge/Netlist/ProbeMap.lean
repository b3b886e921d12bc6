/-
What the simulator calls a piece of copper: `netlist/probe-map.ts`.
-/
import CircuitForge.Netlist.Digital

namespace CircuitForge

open Js

/-- The node of one net. -/
def nodeOfNet (net : Net) : Text := if net.isGround then "0".toList else sanitizeNodeName net.id

/-- `buildNodeMap`. -/
def buildNodeMap (nets : List Net) : Map Text Text := Map.fill Net.id nodeOfNet nets []

/-- `normalizeProbe`. -/
def normalizeProbe (probe : Text) : Text :=
  let t := trim probe
  if t = [] ∨ '(' ∈ t ∨ '@' ∈ t then t else "v(".toList ++ t ++ ")".toList

variable [Runtime]

/-- First pass of `buildNetRefToNode`: the names. -/
def seedName (nodeMap : Map Text Text) (m : Map Text Text) (net : Net) : Map Text Text :=
  match truthy (nodeMap.get? net.id), truthy (some net.name) with
  | some node, some name => m.set (Runtime.lower name) node
  | _, _ => m

/-- Second pass: the ids. -/
def seedId (nodeMap : Map Text Text) (m : Map Text Text) (net : Net) : Map Text Text :=
  match truthy (nodeMap.get? net.id) with
  | some node => m.set (Runtime.lower net.id) node
  | none => m

/-- Third pass: the analog twins of pure-digital nets. -/
def seedTwin (nodeMap : Map Text Text) (probeNodeForNet : Map Text Text) (m : Map Text Text)
    (net : Net) : Map Text Text :=
  match truthy (probeNodeForNet.get? net.id) with
  | none => m
  | some twin =>
    let m := m.set (Runtime.lower net.id) twin
    let m := match truthy (some net.name) with
      | some name => m.set (Runtime.lower name) twin
      | none => m
    match truthy (nodeMap.get? net.id) with
    | some raw => m.set (Runtime.lower raw) twin
    | none => m

/-- `buildNetRefToNode`. -/
def buildNetRefToNode (circuit : CircuitJson) (nodeMap : Map Text Text)
    (probeNodeForNet : Map Text Text) : Map Text Text :=
  let m := circuit.nets.foldl (seedName nodeMap) []
  let m := circuit.nets.foldl (seedId nodeMap) m
  circuit.nets.foldl (seedTwin nodeMap probeNodeForNet) m

structure ProbeResolver where
  netRefToNode : Map Text Text
  groundRefs : List Text

/-- The ways the reference node can be named. -/
def groundRefs (nets : List Net) : List Text :=
  (((nets.filter Net.isGround).flatMap fun n =>
      [Runtime.lower n.id, Runtime.lower n.name]).filter (· ≠ [])) ++
    (if nets.any fun n => Runtime.lower n.id = "0".toList && !n.isGround then []
     else ["0".toList])

/-- `buildProbeResolver`. -/
def buildProbeResolver (circuit : CircuitJson) (logicVoltage : Option Runtime.Num := none) :
    ProbeResolver :=
  let nodeMap := buildNodeMap circuit.nets
  let ms := planMixedSignal circuit nodeMap [] logicVoltage
  { netRefToNode := buildNetRefToNode circuit nodeMap ms.probeNodeForNet
    groundRefs := groundRefs circuit.nets }

/-- What `rewriteProbeNodeRefs` puts for one `v(…)`. -/
def rewriteNodeRef (map : Map Text Text) (keepGroundFirstSingleEnded : Bool)
    (whole inner : Text) : Text :=
  let v := fun args : Text => "v(".toList ++ args ++ ")".toList
  match map.get? (Runtime.lower (trim inner)) with
  | some exact => if exact = "0".toList then [] else v exact
  | none =>
    let parts := (inner.splitOn ',').map trim
    let mapped := parts.map fun p => (map.get? (Runtime.lower p)).getD p
    if !keepGroundFirstSingleEnded && mapped.length = 2 && mapped.head? = some "0".toList then []
    else
      let nonGround := mapped.filter (· ≠ "0".toList)
      if nonGround = parts then whole
      else if nonGround = [] then [] else v (join ",".toList nonGround)

/-- `rewriteProbeNodeRefs`. -/
def rewriteProbeNodeRefs (probe : Text) (map : Map Text Text)
    (keepGroundFirstSingleEnded : Bool := false) : Text :=
  replaceCalls 'v' (· ≠ []) (rewriteNodeRef map keepGroundFirstSingleEnded) probe

end CircuitForge
