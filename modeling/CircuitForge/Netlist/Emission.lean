/-
The cards of one component.

`AnalogEmission` and `DigitalEmission` list the outcomes of the two emitters: what
is skipped, which device line comes out and on which nodes its pins land.
-/
import CircuitForge.Js.Outcome
import CircuitForge.Netlist.Generator

namespace CircuitForge

open Js

/-! ## Pins on nodes -/

/-- The pins lie on these nodes. -/
def Resolved (nodeMap : Map Text Text) (pins : List PinConnection) (nodes : List Text) : Prop :=
  List.Forall₂ (fun pin node => truthy (nodeMap.get? pin.netId) = some node) pins nodes

variable [Runtime]

/-- The pins a device takes in a fixed order; of two pins of one name the first. -/
def pinsInOrder (c : Component) (pinIds : List Text) : List PinConnection :=
  pinIds.filterMap fun pinId => c.pins.find? (·.pinId = pinId)

theorem nodesForPinOrder_ok {c : Component} {nodeMap : Map Text Text} {pinIds nodes : List Text}
    (h : nodesForPinOrder c nodeMap pinIds = .ok nodes) :
    (∀ p ∈ pinIds, (c.pins.find? (·.pinId = p)).isSome) ∧
      Resolved nodeMap (pinsInOrder c pinIds) nodes := by
  rw [nodesForPinOrder, Outcome.mapM_eq_ok] at h
  induction h with
  | nil => exact ⟨by simp, .nil⟩
  | @cons p node ps nodes hp _ ih =>
    unfold nodeForPin at hp
    cases hfind : c.pins.find? (·.pinId = p) with
    | none => simp [hfind] at hp
    | some pin =>
      simp only [hfind] at hp
      cases hnode : truthy (nodeMap.get? pin.netId) with
      | none => simp [hnode] at hp
      | some node' =>
        simp only [hnode, Except.ok.injEq] at hp
        refine ⟨List.forall_mem_cons.mpr ⟨by rw [hfind]; rfl, ih.1⟩, ?_⟩
        have hcons : pinsInOrder c (p :: ps) = pin :: pinsInOrder c ps := by
          rw [pinsInOrder, List.filterMap_cons, hfind]
          rfl
        rw [hcons]
        exact .cons (hp ▸ hnode) ih.2

theorem authoredNodes_ok {c : Component} {nodeMap : Map Text Text} {nodes : List Text}
    (h : authoredNodes c nodeMap = .ok nodes) : Resolved nodeMap c.pins nodes := by
  rw [authoredNodes, Outcome.mapM_eq_ok] at h
  refine h.imp fun pin node hp => ?_
  cases hnode : truthy (nodeMap.get? pin.netId) with
  | none => simp [hnode] at hp
  | some node' =>
    simp only [hnode, Except.ok.injEq] at hp
    rw [hp]

omit [Runtime] in
theorem Resolved.mem {nodeMap : Map Text Text} {pins : List PinConnection} {nodes : List Text}
    (h : Resolved nodeMap pins nodes) (t : Text) :
    t ∈ nodes ↔ ∃ pin ∈ pins, truthy (nodeMap.get? pin.netId) = some t := by
  induction h with
  | nil => simp
  | @cons pin node pins nodes hp _ ih =>
    rw [List.mem_cons, ih, List.exists_mem_cons_iff, hp, Option.some.injEq, eq_comm]

/-! ## Analog devices -/

/-- What follows the nodes on the card of a one-card device; `none` when the device
is skipped. -/
def deviceSpec (exprNodeMap : Map Text Text) (c : Component) : Option Text :=
  match c.type with
  | .resistor | .capacitor | .inductor =>
    some ((truthy (some ((c.value.getD []).filter (!isSpace ·)))).getD "0".toList)
  | .voltageSource | .currentSource => some ((truthy c.value).getD "DC 0".toList)
  | .vcvs | .vccs => (truthy c.value).bind normalizeControlledSourceGain
  | .diode => some ((truthy c.model).getD "DDEFAULT".toList)
  | .zener => ((truthy c.value).bind buildZenerModel).map ModelDef.name
  | .bjt | .mosfet | .jfet | .switch | .subckt => truthy c.model
  | .tline => (parseTransmissionLineParams c.properties).map lineSpec
  | .bsource =>
    ((truthy c.value).filter isSourceExpr).map (rewriteExprNodeRefs · exprNodeMap)
  | _ => none

/-- The declared ports of the macromodel a component names. -/
def declaredPorts (modelMap : Map Text ModelDef) (c : Component) : Option (List Text) :=
  (((truthy c.model).bind modelMap.get?).bind ModelDef.ports).filter (· ≠ [])

/-- The pins a device takes its nodes from. -/
def wiredPins (modelMap : Map Text ModelDef) (c : Component) : List PinConnection :=
  match c.type with
  | .resistor | .capacitor | .inductor => c.pins
  | .subckt =>
    match declaredPorts modelMap c with
    | some ports => pinsInOrder c ports
    | none => c.pins
  | t => pinsInOrder c t.pins

/-- The outcomes of `componentToSpice`. -/
inductive AnalogEmission (nodeMap : Map Text Text) (modelMap : Map Text ModelDef)
    (exprNodeMap : Map Text Text) (c : Component) : List Card → Prop
  | skipped : deviceSpec exprNodeMap c = none →
      (c.type = .transformer → parseTransformerParams c.properties = none) →
      AnalogEmission nodeMap modelMap exprNodeMap c []
  | element {pre : Char} {nodes : List Text} {spec : Text} :
      c.type.spicePrefix = some pre → deviceSpec exprNodeMap c = some spec →
      Resolved nodeMap (wiredPins modelMap c) nodes →
      AnalogEmission nodeMap modelMap exprNodeMap c
        [.element (spiceInstanceName c.designator pre) nodes spec]
  | transformer {tp : TransformerParams} {pp pn sp sn : Text} :
      c.type = .transformer → parseTransformerParams c.properties = some tp →
      Resolved nodeMap (wiredPins modelMap c) [pp, pn, sp, sn] →
      AnalogEmission nodeMap modelMap exprNodeMap c
        (transformerCards c.designator pp pn sp sn tp)

section

variable {c : Component} {nodeMap : Map Text Text} {modelMap : Map Text ModelDef}
  {exprNodeMap : Map Text Text} {cards : List Card}

theorem orderedCard_emission {pre : Char} {spec : Text}
    (hpre : c.type.spicePrefix = some pre) (hspec : deviceSpec exprNodeMap c = some spec)
    (hpins : wiredPins modelMap c = pinsInOrder c c.type.pins)
    (h : orderedCard c nodeMap pre spec = .ok cards) :
    AnalogEmission nodeMap modelMap exprNodeMap c cards := by
  obtain ⟨nodes, hnodes, rfl⟩ := Outcome.map_eq_ok.mp h
  exact .element hpre hspec (hpins ▸ (nodesForPinOrder_ok hnodes).2)

theorem subcktCard_emission {model : Text} {nodes : List Text} {card : Card}
    (hty : c.type = .subckt) (hmodel : truthy c.model = some model)
    (hnodes : Resolved nodeMap c.pins nodes)
    (h : subcktCard c nodeMap modelMap model nodes = .ok card) :
    AnalogEmission nodeMap modelMap exprNodeMap c [card] := by
  have hspec : deviceSpec exprNodeMap c = some model := by rw [deviceSpec, hty]; exact hmodel
  have hpre : c.type.spicePrefix = some 'X' := by rw [hty]; rfl
  have hauthored : declaredPorts modelMap c = none →
      AnalogEmission nodeMap modelMap exprNodeMap c
        [.element (spiceInstanceName c.designator 'X') nodes model] := by
    intro hp
    refine .element hpre hspec ?_
    rw [wiredPins, hty]
    simpa only [hp] using hnodes
  unfold subcktCard at h
  cases hm : modelMap.get? model with
  | none =>
    rw [hm] at h
    cases h
    exact hauthored (by simp [declaredPorts, hmodel, hm])
  | some m =>
    rw [hm] at h
    rcases hports : m.ports with _ | _ | ⟨p, ps⟩
    case some.cons =>
      simp only [hports] at h
      obtain ⟨nodes', hnodes', rfl⟩ := Outcome.map_eq_ok.mp h
      refine .element hpre hspec ?_
      have hp : declaredPorts modelMap c = some (p :: ps) := by
        simp [declaredPorts, hmodel, hm, hports]
      rw [wiredPins, hty]
      simpa only [hp] using (nodesForPinOrder_ok hnodes').2
    all_goals
      simp only [hports] at h
      split_ifs at h
      cases h
      exact hauthored (by simp [declaredPorts, hmodel, hm, hports])

/-- The types behind the check of the pins. -/
theorem prefixedCards_emission {pre : Char} {nodes : List Text}
    (hpre : c.type.spicePrefix = some pre) (htr : c.type ≠ .transformer) (htl : c.type ≠ .tline)
    (hbs : c.type ≠ .bsource) (hnodes : Resolved nodeMap c.pins nodes)
    (h : prefixedCards c nodeMap modelMap pre nodes = .ok cards) :
    AnalogEmission nodeMap modelMap exprNodeMap c cards := by
  unfold prefixedCards at h
  split at h
  case h_1 hty | h_2 hty | h_3 hty =>
    cases h
    refine .element hpre (by rw [deviceSpec, hty]) ?_
    rw [wiredPins, hty]
    exact hnodes
  case h_4 hty | h_5 hty | h_8 hty =>
    exact orderedCard_emission hpre (by rw [deviceSpec, hty]) (by rw [wiredPins, hty]) h
  case h_6 hty | h_7 hty | h_10 hty | h_11 hty | h_12 hty | h_13 hty =>
    -- emitted only with a gain, respectively a model
    split at h
    case h_1 hx =>
      cases h
      exact .skipped (by rw [deviceSpec, hty]; exact hx) fun e => absurd e htr
    case h_2 spec hx =>
      exact orderedCard_emission hpre (by rw [deviceSpec, hty]; exact hx) (by rw [wiredPins, hty]) h
  case h_9 hty =>
    split at h
    case h_1 hx =>
      cases h
      exact .skipped (by rw [deviceSpec, hty]; simp [hx]) fun e => absurd e htr
    case h_2 zm hx =>
      exact orderedCard_emission hpre (by rw [deviceSpec, hty]; simp [hx])
        (by rw [wiredPins, hty]) h
  case h_14 hty =>
    split at h
    case h_1 hm =>
      cases h
      exact .skipped (by rw [deviceSpec, hty]; exact hm) fun e => absurd e htr
    case h_2 model hm =>
      obtain ⟨card, hcard, rfl⟩ := Outcome.map_eq_ok.mp h
      exact subcktCard_emission hty hm hnodes hcard
  case h_15 =>
    cases h
    refine .skipped ?_ fun e => absurd e htr
    unfold deviceSpec
    split <;> simp_all

theorem componentToSpice_emission (h : componentToSpice c nodeMap modelMap exprNodeMap = .ok cards) :
    AnalogEmission nodeMap modelMap exprNodeMap c cards := by
  unfold componentToSpice at h
  split at h
  case h_1 hty | h_2 hty =>
    cases h
    exact .skipped (by rw [deviceSpec, hty]) fun e => by simp [hty] at e
  case h_3 hty =>
    split at h
    case h_1 hp =>
      cases h
      exact .skipped (by rw [deviceSpec, hty]) fun _ => hp
    case h_2 tp hp =>
      obtain ⟨nodes, hnodes, h⟩ := Outcome.bind_eq_ok.mp h
      have hres : Resolved nodeMap (wiredPins modelMap c) nodes := by
        have hwired : wiredPins modelMap c = pinsInOrder c c.type.pins := by rw [wiredPins, hty]
        rw [hwired]
        exact (nodesForPinOrder_ok hnodes).2
      have hlen : nodes.length = 4 := by
        rw [orderedNodes, nodesForPinOrder, Outcome.mapM_eq_ok] at hnodes
        rw [← hnodes.length_eq, hty]
        rfl
      match nodes, hlen with
      | [pp, pn, sp, sn], _ =>
        cases Outcome.pure_eq_ok.mp h
        exact .transformer hty hp hres
  case h_4 hty =>
    split at h
    case h_1 hx =>
      cases h
      exact .skipped (by rw [deviceSpec, hty]; simp [hx]) fun e => by simp [hty] at e
    case h_2 tl hx =>
      exact orderedCard_emission (by rw [hty]; rfl) (by rw [deviceSpec, hty]; simp [hx])
        (by rw [wiredPins, hty]) h
  case h_5 hty =>
    split at h
    case h_1 hx =>
      cases h
      exact .skipped (by rw [deviceSpec, hty]; simp [hx]) fun e => by simp [hty] at e
    case h_2 value hx =>
      exact orderedCard_emission (by rw [hty]; rfl) (by rw [deviceSpec, hty]; simp [hx])
        (by rw [wiredPins, hty]) h
  case h_6 =>
    split at h
    case h_1 hpre =>
      cases h
      refine .skipped ?_ fun e => absurd e ‹_›
      unfold deviceSpec
      split <;> simp_all [ComponentType.spicePrefix]
    case h_2 pre hpre =>
      obtain ⟨nodes, hnodes, h⟩ := Outcome.bind_eq_ok.mp h
      exact prefixedCards_emission hpre ‹_› ‹_› ‹_› (authoredNodes_ok hnodes) h

end

/-! ## Digital devices -/

/-- The pins of a digital device in the order of its card. -/
def portPins (c : Component) : List Text :=
  if c.type.isLogicGate then
    (if c.type.isSingleInputGate then (gateInputPins c).take 1 else gateInputPins c) ++
      ["out".toList]
  else if c.type.isSequential then
    sequentialInputs c.type ++ ["set", "rst", "q", "qb"].map String.toList
  else ["in1", "en", "out"].map String.toList

/-- The node of a digital pin: its event twin, or the node of its net. -/
def pinNode (c : Component) (nodeMap : Map Text Text) (plan : MixedSignalPlan) (pinId : Text) :
    Option Text :=
  (truthy (plan.nodeOverride.get? (pinKey c.id pinId))).or
    ((c.pins.find? (·.pinId = pinId)).bind fun pin => truthy (nodeMap.get? pin.netId))

/-- The node of a port: an open `set` or `rst` is tied to the low rail. -/
def portNode (c : Component) (nodeMap : Map Text Text) (plan : MixedSignalPlan) (pinId : Text) :
    Option Text :=
  (pinNode c nodeMap plan pinId).or
    (if pinId = "set".toList ∨ pinId = "rst".toList then plan.lowRailNode else none)

/-- The outcomes of `emitDigitalComponent`. -/
inductive DigitalEmission (nodeMap : Map Text Text) (plan : MixedSignalPlan) (c : Component) :
    Option Card → Prop
  | unnamed : truthy (plan.digitalModelName.get? c.id) = none →
      DigitalEmission nodeMap plan c none
  | noInput : c.type.isLogicGate = true → gateInputPins c = [] → DigitalEmission nodeMap plan c none
  | openPort {p : Text} : p ∈ portPins c → portNode c nodeMap plan p = none →
      c.pins.find? (·.pinId = p) = none → DigitalEmission nodeMap plan c none
  | device {card : Card} {ports : List Text} {model : Text} :
      truthy (plan.digitalModelName.get? c.id) = some model →
      (c.type.isLogicGate = true → gateInputPins c ≠ []) →
      List.Forall₂ (fun p node => portNode c nodeMap plan p = some node) (portPins c) ports →
      card.eventPorts = ports → card.analogTerminals = [] →
      ((∃ ins out, card = .gate (aInstanceName c.designator) ins out model) ∨
        card = .event (aInstanceName c.designator) ports model) →
      DigitalEmission nodeMap plan c (some card)

section

variable {c : Component} {nodeMap : Map Text Text} {plan : MixedSignalPlan}

theorem digitalNodeOf_ok {p : Text} {x : Option Text}
    (h : digitalNodeOf c nodeMap plan p = .ok x) : pinNode c nodeMap plan p = x := by
  unfold digitalNodeOf at h
  unfold pinNode
  cases ho : truthy (plan.nodeOverride.get? (pinKey c.id p)) with
  | some node => rw [ho] at h; cases h; rfl
  | none =>
    rw [ho] at h
    rw [Option.none_or]
    cases hpin : c.pins.find? (·.pinId = p) with
    | none => simp only [hpin] at h; cases h; rfl
    | some pin =>
      simp only [hpin] at h
      cases hnode : truthy (nodeMap.get? pin.netId) with
      | none => simp [hnode] at h
      | some node =>
        simp only [hnode] at h
        cases h
        simpa using hnode

/-- A pin without a node is no pin of the component. -/
theorem find?_of_digitalNodeOf {p : Text} (h : digitalNodeOf c nodeMap plan p = .ok none) :
    c.pins.find? (·.pinId = p) = none := by
  unfold digitalNodeOf at h
  split at h
  · cases h
  · split at h
    case h_1 hfind => exact hfind
    case h_2 =>
      split at h <;> cases h

theorem digitalNodes_ok {ps : List Text} {xs : List (Option Text)}
    (h : ps.mapM (digitalNodeOf c nodeMap plan) = .ok xs) :
    xs = ps.map (pinNode c nodeMap plan) := by
  rw [Outcome.mapM_eq_ok] at h
  induction h with
  | nil => rfl
  | cons hp _ ih => rw [List.map_cons, digitalNodeOf_ok hp, ih]

theorem portNode_of_ne {p : Text} (hs : p ≠ "set".toList) (hr : p ≠ "rst".toList) :
    portNode c nodeMap plan p = pinNode c nodeMap plan p := by
  rw [portNode, if_neg (not_or.mpr ⟨hs, hr⟩), Option.or_none]

/-- Ports that are no preset and no clear. -/
theorem portNodes_of_plain {ps nodes : List Text}
    (hps : ∀ p ∈ ps, p ≠ "set".toList ∧ p ≠ "rst".toList)
    (h : ps.map (pinNode c nodeMap plan) = nodes.map some) :
    List.Forall₂ (fun p node => portNode c nodeMap plan p = some node) ps nodes := by
  induction ps generalizing nodes with
  | nil =>
    cases nodes with
    | nil => exact .nil
    | cons n ns => simp at h
  | cons p ps ih =>
    cases nodes with
    | nil => simp at h
    | cons n ns =>
      rw [List.map_cons, List.map_cons, List.cons.injEq] at h
      have hp := hps p List.mem_cons_self
      exact .cons ((portNode_of_ne hp.1 hp.2).trans h.1)
        (ih (fun q hq => hps q (List.mem_cons_of_mem _ hq)) h.2)

/-- A list of plain ports one of which is open. -/
theorem open_of_plain {ps : List Text} {xs : List (Option Text)}
    (hps : ∀ p ∈ ps, p ≠ "set".toList ∧ p ≠ "rst".toList)
    (hok : ps.mapM (digitalNodeOf c nodeMap plan) = .ok xs) (h : xs.mapM id = none) :
    ∃ p ∈ ps, portNode c nodeMap plan p = none ∧ c.pins.find? (·.pinId = p) = none := by
  by_contra hall
  have hsome : ∀ p ∈ ps, ∃ node, pinNode c nodeMap plan p = some node := by
    intro p hp
    rw [← Option.isSome_iff_exists, ← Option.ne_none_iff_isSome]
    intro hnone
    obtain ⟨y, hy⟩ := Outcome.mapM_ok_of_mem hok hp
    have hport := (portNode_of_ne (hps p hp).1 (hps p hp).2).trans hnone
    rw [← digitalNodeOf_ok hy, hnone] at hy
    exact hall ⟨p, hp, hport, find?_of_digitalNodeOf hy⟩
  have hnodes : ∃ nodes : List Text, ps.map (pinNode c nodeMap plan) = nodes.map some := by
    clear h hall hps hok
    induction ps with
    | nil => exact ⟨[], rfl⟩
    | cons p ps ih =>
      obtain ⟨node, hnode⟩ := hsome p List.mem_cons_self
      obtain ⟨nodes, hnodes⟩ := ih fun q hq => hsome q (List.mem_cons_of_mem _ hq)
      exact ⟨node :: nodes, by rw [List.map_cons, hnode, hnodes, List.map_cons]⟩
  obtain ⟨nodes, hnodes⟩ := hnodes
  rw [digitalNodes_ok hok, Outcome.optionMapM_eq_some.mpr hnodes] at h
  exact absurd h (by simp)

omit [Runtime] in
theorem isGateInput_plain {p : Text} (h : isGateInput p = true) :
    p ≠ "set".toList ∧ p ≠ "rst".toList ∧ p ≠ "out".toList := by
  refine ⟨?_, ?_, ?_⟩ <;> rintro rfl <;> exact absurd h (by decide)

theorem mem_gateInputPins {p : Text} (h : p ∈ gateInputPins c) :
    p ∈ c.pins.map PinConnection.pinId ∧ isGateInput p = true := by
  rw [gateInputPins, List.mem_insertionSort, List.mem_filter] at h
  exact h

theorem emitGate_emission {model : Text} {x : Option Card} (hty : c.type.isLogicGate = true)
    (hmodel : truthy (plan.digitalModelName.get? c.id) = some model)
    (h : emitGate c (digitalNodeOf c nodeMap plan) model = .ok x) :
    DigitalEmission nodeMap plan c x := by
  have hplain : ∀ p ∈ gateInputPins c, p ≠ "set".toList ∧ p ≠ "rst".toList := fun p hp =>
    have := isGateInput_plain (mem_gateInputPins hp).2
    ⟨this.1, this.2.1⟩
  have hout : "out".toList ∈ portPins c := by
    rw [portPins, if_pos hty]
    exact List.mem_append_right _ (List.mem_singleton.mpr rfl)
  have houtNode : portNode c nodeMap plan "out".toList = pinNode c nodeMap plan "out".toList :=
    portNode_of_ne (by decide) (by decide)
  obtain ⟨out, hok, h⟩ := Outcome.bind_eq_ok.mp h
  have ho := digitalNodeOf_ok hok
  cases out with
  | none =>
    cases Outcome.pure_eq_ok.mp h
    exact .openPort hout (houtNode.trans ho) (find?_of_digitalNodeOf hok)
  | some out =>
    obtain ⟨inputs, hi, h⟩ := Outcome.bind_eq_ok.mp h
    have hnodes := digitalNodes_ok hi
    cases hall : inputs.mapM id with
    | none =>
      -- the inputs are pins of the component, so none of them is open
      obtain ⟨p, hp, _, hfind⟩ := open_of_plain hplain hi hall
      obtain ⟨pin, hpin, rfl⟩ := List.mem_map.mp (mem_gateInputPins hp).1
      have := List.find?_eq_none.mp hfind pin hpin
      simp at this
    | some nodes =>
      rw [Outcome.optionMapM_eq_some] at hall
      have hports := portNodes_of_plain hplain (hnodes.symm.trans hall)
      have houtPort : List.Forall₂ (fun p node => portNode c nodeMap plan p = some node)
          ["out".toList] [out] := .cons (houtNode.trans ho) .nil
      rw [Outcome.optionMapM_eq_some.mpr hall] at h
      cases nodes with
      | nil =>
        cases Outcome.pure_eq_ok.mp h
        cases hg : gateInputPins c with
        | nil => exact .noInput hty hg
        | cons p ps => rw [hg] at hports; cases hports
      | cons i is =>
        have hne : gateInputPins c ≠ [] := by
          intro hg
          rw [hg] at hports
          cases hports
        dsimp only at h
        split_ifs at h with hsingle
        · cases Outcome.pure_eq_ok.mp h
          refine .device hmodel (fun _ => hne) ?_ rfl rfl (Or.inr rfl)
          rw [portPins, if_pos hty, if_pos hsingle]
          exact List.rel_append (List.forall₂_take 1 hports) houtPort
        · cases Outcome.pure_eq_ok.mp h
          refine .device hmodel (fun _ => hne) ?_ rfl rfl (Or.inl ⟨_, _, rfl⟩)
          rw [portPins, if_pos hty, if_neg hsingle]
          exact List.rel_append hports houtPort

theorem emitSequential_emission {model : Text} {x : Option Card}
    (hgate : c.type.isLogicGate = false) (hty : c.type.isSequential = true)
    (hmodel : truthy (plan.digitalModelName.get? c.id) = some model)
    (h : emitSequential c (digitalNodeOf c nodeMap plan) plan.lowRailNode model = .ok x) :
    DigitalEmission nodeMap plan c x := by
  have hports : portPins c =
      sequentialInputs c.type ++ ["set", "rst", "q", "qb"].map String.toList := by
    rw [portPins, if_neg (by simp [hgate]), if_pos hty]
  have hinputs : ∀ p ∈ sequentialInputs c.type, p ≠ "set".toList ∧ p ≠ "rst".toList := by
    unfold sequentialInputs
    split <;> decide
  have hmem : ∀ p ∈ ["set", "rst", "q", "qb"].map String.toList, p ∈ portPins c := fun p hp =>
    hports ▸ List.mem_append_right _ hp
  have hplain : ∀ p, p ≠ "set".toList → p ≠ "rst".toList → ∀ {y},
      digitalNodeOf c nodeMap plan p = .ok y → portNode c nodeMap plan p = y := fun p hs hr y hy =>
    (portNode_of_ne hs hr).trans (digitalNodeOf_ok hy)
  have htied : ∀ p, p = "set".toList ∨ p = "rst".toList → ∀ {y},
      digitalNodeOf c nodeMap plan p = .ok y →
        portNode c nodeMap plan p = y.or plan.lowRailNode := fun p hp y hy => by
    rw [portNode, digitalNodeOf_ok hy, if_pos hp]
  obtain ⟨q, hqok, h⟩ := Outcome.bind_eq_ok.mp h
  obtain ⟨qb, hqbok, h⟩ := Outcome.bind_eq_ok.mp h
  have hq := hplain "q".toList (by decide) (by decide) hqok
  have hqb := hplain "qb".toList (by decide) (by decide) hqbok
  match q, qb, h with
  | none, _, h =>
    cases Outcome.pure_eq_ok.mp h
    exact .openPort (hmem _ (by simp)) hq (find?_of_digitalNodeOf hqok)
  | some _, none, h =>
    cases Outcome.pure_eq_ok.mp h
    exact .openPort (hmem _ (by simp)) hqb (find?_of_digitalNodeOf hqbok)
  | some q, some qb, h =>
    obtain ⟨set, hsetok, h⟩ := Outcome.bind_eq_ok.mp h
    obtain ⟨rst, hrstok, h⟩ := Outcome.bind_eq_ok.mp h
    have hset := htied "set".toList (Or.inl rfl) hsetok
    have hrst := htied "rst".toList (Or.inr rfl) hrstok
    match hs : set.or plan.lowRailNode, hr : rst.or plan.lowRailNode with
    | none, _ =>
      rw [hs] at h
      cases Outcome.pure_eq_ok.mp h
      rw [(Option.or_eq_none_iff.mp hs).1] at hsetok
      exact .openPort (hmem _ (by simp)) (hset.trans hs) (find?_of_digitalNodeOf hsetok)
    | some s, none =>
      rw [hs, hr] at h
      cases Outcome.pure_eq_ok.mp h
      rw [(Option.or_eq_none_iff.mp hr).1] at hrstok
      exact .openPort (hmem _ (by simp)) (hrst.trans hr) (find?_of_digitalNodeOf hrstok)
    | some s, some r =>
      rw [hs, hr] at h
      obtain ⟨inputs, hi, h⟩ := Outcome.bind_eq_ok.mp h
      have hnodes := digitalNodes_ok hi
      cases hall : inputs.mapM id with
      | none =>
        rw [hall] at h
        cases Outcome.pure_eq_ok.mp h
        obtain ⟨p, hp, hopen, hfind⟩ := open_of_plain hinputs hi hall
        exact .openPort (hports ▸ List.mem_append_left _ hp) hopen hfind
      | some nodes =>
        rw [hall] at h
        cases Outcome.pure_eq_ok.mp h
        rw [Outcome.optionMapM_eq_some] at hall
        refine .device hmodel (fun hg => by simp [hgate] at hg) ?_ rfl rfl (Or.inr rfl)
        rw [hports]
        exact List.rel_append (portNodes_of_plain hinputs (hnodes.symm.trans hall))
          (.cons (hset.trans hs) (.cons (hrst.trans hr) (.cons hq (.cons hqb .nil))))

theorem emitTristate_emission {model : Text} {x : Option Card} (hty : c.type = .tristate)
    (hmodel : truthy (plan.digitalModelName.get? c.id) = some model)
    (h : emitTristate c (digitalNodeOf c nodeMap plan) model = .ok x) :
    DigitalEmission nodeMap plan c x := by
  have hports : portPins c = ["in1", "en", "out"].map String.toList := by
    rw [portPins, hty]
    rfl
  have hplain : ∀ p ∈ ["in1", "en", "out"].map String.toList,
      p ≠ "set".toList ∧ p ≠ "rst".toList := by decide
  obtain ⟨inputs, hi, h⟩ := Outcome.bind_eq_ok.mp h
  have hnodes := digitalNodes_ok hi
  cases hall : inputs.mapM id with
  | none =>
    rw [hall] at h
    cases Outcome.pure_eq_ok.mp h
    obtain ⟨p, hp, hopen, hfind⟩ := open_of_plain hplain hi hall
    exact .openPort (hports ▸ hp) hopen hfind
  | some nodes =>
    rw [hall] at h
    cases Outcome.pure_eq_ok.mp h
    rw [Outcome.optionMapM_eq_some] at hall
    refine .device hmodel (fun hg => by simp [hty, ComponentType.isLogicGate] at hg) ?_ rfl rfl
      (Or.inr rfl)
    rw [hports]
    exact portNodes_of_plain hplain (hnodes.symm.trans hall)

theorem emitDigitalComponent_emission {x : Option Card} (hdig : c.type.isDigital = true)
    (h : emitDigitalComponent c nodeMap plan = .ok x) : DigitalEmission nodeMap plan c x := by
  unfold emitDigitalComponent at h
  cases hmodel : truthy (plan.digitalModelName.get? c.id) with
  | none =>
    rw [hmodel] at h
    cases h
    exact .unnamed hmodel
  | some model =>
    rw [hmodel] at h
    dsimp only at h
    split_ifs at h with hg hs ht
    · exact emitGate_emission hg hmodel h
    · exact emitSequential_emission (by simpa using hg) hs hmodel h
    · exact emitTristate_emission ht hmodel h
    · simp [ComponentType.isDigital, hg, hs, ht] at hdig

end

end CircuitForge
