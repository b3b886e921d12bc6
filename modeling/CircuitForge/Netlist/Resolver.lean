/-
The nodes of a plan depend on the circuit alone.

Device names and the logic level reach the cards of a plan and not its nodes.  So the
evaluator, which reserves no device names, finds the nodes that the generator used.
-/
import CircuitForge.Netlist.Generator

namespace CircuitForge

open Js

variable [Runtime]

/-! ## States with the same nodes -/

/-- The two states have given the same nodes to the same pins and nets. -/
structure SameNodes (s t : PlanState) : Prop where
  netNodes : s.netNodes = t.netNodes
  synthesized : s.synthesized = t.synthesized
  nodeOverride : s.plan.nodeOverride = t.plan.nodeOverride
  lowRailNode : s.plan.lowRailNode = t.plan.lowRailNode
  probeNodeForNet : s.plan.probeNodeForNet = t.plan.probeNodeForNet

namespace SameNodes

variable {s t : PlanState}

theorem freshNode (h : SameNodes s t) (base : Text) : s.freshNode base = t.freshNode base := by
  unfold PlanState.freshNode PlanState.usedNodes
  rw [h.netNodes, h.synthesized]

omit [Runtime] in
theorem useNode (h : SameNodes s t) (node : Text) : SameNodes (s.useNode node) (t.useNode node) where
  netNodes := h.netNodes
  synthesized := congrArg (· ++ [node]) h.synthesized
  nodeOverride := h.nodeOverride
  lowRailNode := h.lowRailNode
  probeNodeForNet := h.probeNodeForNet

omit [Runtime] in
/-- Model cards may differ. -/
theorem addModel (h : SameNodes s t) (card card' : Text) :
    SameNodes (s.addModel card) (t.addModel card') :=
  ⟨h.netNodes, h.synthesized, h.nodeOverride, h.lowRailNode, h.probeNodeForNet⟩

/-- Devices may differ, in their names and in what they are. -/
theorem addDevice (h : SameNodes s t) (stem : String) (card card' : Text → Card) :
    SameNodes (s.addDevice stem card) (t.addDevice stem card') :=
  ⟨h.netNodes, h.synthesized, h.nodeOverride, h.lowRailNode, h.probeNodeForNet⟩

omit [Runtime] in
/-- A node for probing. -/
theorem setProbe (h : SameNodes s t) (netId probe : Text) :
    SameNodes
      { s with plan := { s.plan with
        probeNodeForNet := s.plan.probeNodeForNet.set netId probe } }
      { t with plan := { t.plan with
        probeNodeForNet := t.plan.probeNodeForNet.set netId probe } } where
  netNodes := h.netNodes
  synthesized := h.synthesized
  nodeOverride := h.nodeOverride
  lowRailNode := h.lowRailNode
  probeNodeForNet := congrArg (Map.set · netId probe) h.probeNodeForNet

omit [Runtime] in
/-- Pins that move to another node. -/
theorem override (h : SameNodes s t) (keys : List Text) (node : Text) :
    SameNodes
      { s with plan := { s.plan with
        nodeOverride := Map.fill id (fun _ => node) keys s.plan.nodeOverride } }
      { t with plan := { t.plan with
        nodeOverride := Map.fill id (fun _ => node) keys t.plan.nodeOverride } } where
  netNodes := h.netNodes
  synthesized := h.synthesized
  nodeOverride := congrArg (Map.fill id (fun _ => node) keys) h.nodeOverride
  lowRailNode := h.lowRailNode
  probeNodeForNet := h.probeNodeForNet

/-! ## What the planner does -/

theorem bridgeDigitalNet (h : SameNodes s t) (vdd vdd' : Runtime.Num) (netId node : Text)
    (r : NetRoles) :
    SameNodes (CircuitForge.bridgeDigitalNet vdd s netId node r)
      (CircuitForge.bridgeDigitalNet vdd' t netId node r) := by
  unfold CircuitForge.bridgeDigitalNet
  by_cases hsource : 0 < r.digitalSource
  · rw [if_pos hsource, if_pos hsource, h.freshNode]
    have hnode := h.useNode (t.freshNode (node ++ "_p".toList))
    exact ((hnode.addModel _ _).addDevice _ _ _).setProbe _ _
  · rw [if_neg hsource, if_neg hsource]
    exact h

theorem bridgeMixedNet (h : SameNodes s t) (circuit : CircuitJson) (vdd vdd' : Runtime.Num)
    (netId node : Text) (r : NetRoles) :
    SameNodes (CircuitForge.bridgeMixedNet circuit vdd s netId node r)
      (CircuitForge.bridgeMixedNet circuit vdd' t netId node r) := by
  unfold CircuitForge.bridgeMixedNet
  rw [h.freshNode]
  have hnode := (h.useNode (t.freshNode (node ++ "_d".toList))).override
    (digitalPinKeys circuit netId) (t.freshNode (node ++ "_d".toList))
  by_cases hsource : 0 < r.digitalSource
  · rw [if_pos hsource, if_pos hsource]
    exact (hnode.addModel _ _).addDevice _ _ _
  · rw [if_neg hsource, if_neg hsource]
    exact (hnode.addModel _ _).addDevice _ _ _

/-- One net. -/
theorem bridgeNet (h : SameNodes s t) (circuit : CircuitJson) (nodeMap : Map Text Text)
    (vdd vdd' : Runtime.Num) (e : Text × NetRoles) :
    SameNodes (CircuitForge.bridgeNet circuit nodeMap vdd s e)
      (CircuitForge.bridgeNet circuit nodeMap vdd' t e) := by
  unfold CircuitForge.bridgeNet
  split
  · exact h
  · split
    · exact h
    · split
      · exact h.bridgeMixedNet circuit vdd vdd' _ _ _
      · exact h.bridgeDigitalNet vdd vdd' _ _ _

/-- The loop over the nets. -/
theorem bridgeNets (h : SameNodes s t) (circuit : CircuitJson) (nodeMap : Map Text Text)
    (vdd vdd' : Runtime.Num) (es : List (Text × NetRoles)) :
    SameNodes (es.foldl (CircuitForge.bridgeNet circuit nodeMap vdd) s)
      (es.foldl (CircuitForge.bridgeNet circuit nodeMap vdd') t) := by
  induction es generalizing s t with
  | nil => exact h
  | cons e es ih => exact ih (h.bridgeNet circuit nodeMap vdd vdd' e)

theorem addLowRail (h : SameNodes s t) (vdd vdd' : Runtime.Num) :
    SameNodes (CircuitForge.addLowRail vdd s) (CircuitForge.addLowRail vdd' t) := by
  unfold CircuitForge.addLowRail
  dsimp only
  rw [h.freshNode]
  have hanalog := h.useNode (t.freshNode "dlogic_lo_a".toList)
  rw [hanalog.freshNode]
  have hdigital := hanalog.useNode
    ((t.useNode (t.freshNode "dlogic_lo_a".toList)).freshNode "dlogic_lo".toList)
  have hcards := ((hdigital.addModel (adcModel vdd) (adcModel vdd')).addDevice "vxsyn"
    (.element · [t.freshNode "dlogic_lo_a".toList, "0".toList] "DC 0".toList)
    (.element · [t.freshNode "dlogic_lo_a".toList, "0".toList] "DC 0".toList))
  exact ⟨hcards.netNodes, hcards.synthesized, hcards.nodeOverride, rfl, hcards.probeNodeForNet⟩

/-- One component's timing model. -/
theorem nameModel (h : SameNodes s t) (names : ModelNames) (c : Component) :
    SameNodes (CircuitForge.nameModel (s, names) c).1 (CircuitForge.nameModel (t, names) c).1 ∧
      (CircuitForge.nameModel (s, names) c).2 = (CircuitForge.nameModel (t, names) c).2 := by
  unfold CircuitForge.nameModel
  split
  · exact ⟨h, rfl⟩
  · dsimp only
    split
    · exact ⟨⟨h.netNodes, h.synthesized, h.nodeOverride, h.lowRailNode, h.probeNodeForNet⟩, rfl⟩
    · exact ⟨⟨h.netNodes, h.synthesized, h.nodeOverride, h.lowRailNode, h.probeNodeForNet⟩, rfl⟩

/-- The loop over the components. -/
theorem nameModels (h : SameNodes s t) (names : ModelNames) (cs : List Component) :
    SameNodes (cs.foldl CircuitForge.nameModel (s, names)).1
      (cs.foldl CircuitForge.nameModel (t, names)).1 := by
  induction cs generalizing s t names with
  | nil => exact h
  | cons c cs ih =>
    obtain ⟨hstep, hnames⟩ := h.nameModel names c
    rw [List.foldl_cons, List.foldl_cons]
    have := ih hstep (CircuitForge.nameModel (s, names) c).2
    rwa [show (CircuitForge.nameModel (t, names) c) =
      ((CircuitForge.nameModel (t, names) c).1, (CircuitForge.nameModel (s, names) c).2) from
        Prod.ext rfl hnames.symm]

end SameNodes

/-! ## The plan -/

variable (circuit : CircuitJson) (nodeMap : Map Text Text) (used used' : List Text)
  (level level' : Option Runtime.Num)

theorem planState_sameNodes :
    SameNodes (planState circuit nodeMap used level) (planState circuit nodeMap used' level') := by
  have hinit : SameNodes
      { plan := { active := true }, netNodes := nodeMap.map Prod.snd, usedDevices := used }
      { plan := { active := true }, netNodes := nodeMap.map Prod.snd, usedDevices := used' } :=
    ⟨rfl, rfl, rfl, rfl, rfl⟩
  have hnets := (hinit.nameModels {} circuit.components).bridgeNets circuit nodeMap
    (detectLogicHigh circuit (netRoles circuit) level)
    (detectLogicHigh circuit (netRoles circuit) level') (netRoles circuit)
  unfold planState
  dsimp only
  split
  · exact hnets.addLowRail _ _
  · exact hnets

/-- The nodes of a plan, whatever names are reserved and whatever the logic level is. -/
theorem planMixedSignal_nodes :
    let plan := planMixedSignal circuit nodeMap used level
    let plan' := planMixedSignal circuit nodeMap used' level'
    plan.nodeOverride = plan'.nodeOverride ∧ plan.probeNodeForNet = plan'.probeNodeForNet ∧
      plan.lowRailNode = plan'.lowRailNode := by
  have h := planState_sameNodes circuit nodeMap used used' level level'
  unfold planMixedSignal
  dsimp only
  split
  · exact ⟨h.nodeOverride, h.probeNodeForNet, h.lowRailNode⟩
  · exact ⟨rfl, rfl, rfl⟩

/-- The nodes do not depend on device names or on the logic level, and the evaluator's map is the
one the generator rewrites its probes with. -/
theorem nodes_independent :
    (∀ nodeMap used used' level level',
      let plan := planMixedSignal circuit nodeMap used level
      let plan' := planMixedSignal circuit nodeMap used' level'
      plan.nodeOverride = plan'.nodeOverride ∧ plan.probeNodeForNet = plan'.probeNodeForNet ∧
        plan.lowRailNode = plan'.lowRailNode) ∧
    ∀ level analysis options parts, (buildProbeResolver circuit level).netRefToNode =
      (deckProbeContext circuit analysis options parts).netRefToNode := by
  refine ⟨planMixedSignal_nodes circuit, fun level analysis options parts => ?_⟩
  obtain ⟨-, hprobes, -⟩ := planMixedSignal_nodes circuit (buildNodeMap circuit.nets) []
    (reservedDeviceNames circuit) level options.logicVoltage
  unfold buildProbeResolver deckProbeContext probeContext deckPlan
  dsimp only
  rw [hprobes]

end CircuitForge
