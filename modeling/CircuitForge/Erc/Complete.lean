/-
What the gate lets through reaches the deck.

The checks of `erc/checker.ts` and the emitters each decide on their own which
pins a device has.  They agree on every type with two exceptions: a macromodel
with declared ports takes its pins by name and leaves the others out, and the
checks read the names of a flip-flop's pins in any case, where the emitter reads
them exactly.  `complete_iff` says that nothing else is dropped, as long as the
keys by which the planner moves pins tell the pins apart.
-/
import CircuitForge.Erc.Passed
import CircuitForge.Netlist.Bridges
import CircuitForge.Netlist.Refusals

namespace CircuitForge

open Js

/-! ## Devices and their ports -/

/-- The terminals of a device in the order of its ports: those of its card, and for a
transformer the outer ends of its windings. -/
def deviceTerminals : List Card → List Text
  | [card] => card.terminals
  | .element _ (pp :: _) _ :: .element _ [_, pn] _ :: .element _ (sp :: _) _ ::
      .element _ [_, sn] _ :: _ => [pp, pn, sp, sn]
  | _ => []

section

variable [Runtime]

/-- The names of the ports: those of the type or the macromodel, else the authored pins. -/
def portNames (modelMap : Map Text ModelDef) (c : Component) : List Text :=
  match c.type with
  | .resistor | .capacitor | .inductor => pinIds c
  | .subckt => (declaredPorts modelMap c).getD (pinIds c)
  | t => if t.isDigital then portPins c else t.pins

/-- The node a pin belongs on: that of its net, or, for a digital pin on a mixed net, the
twin the plan moves it to, which a bridge joins to the node of the net. -/
inductive OnNet (circuit : CircuitJson) (plan : MixedSignalPlan) (c : Component)
    (pin : PinConnection) : Text → Prop
  | plain {node : Text} : ¬ (c.type.isDigital = true ∧ HasAnalogPin circuit pin.netId) →
      (buildNodeMap circuit.nets).get? pin.netId = some node → OnNet circuit plan c pin node
  | twin {node n : Text} : c.type.isDigital = true → HasAnalogPin circuit pin.netId →
      (buildNodeMap circuit.nets).get? pin.netId = some n →
      plan.nodeOverride.get? (pinKey c.id pin.pinId) = some node →
      Bridged plan.deviceLines node n → OnNet circuit plan c pin node

/-- Every pin is at the port of its name, on the node it belongs on. -/
def Drawn (circuit : CircuitJson) (options : NetlistOptions) (c : Component)
    (cards : List Card) : Prop :=
  ∀ pin ∈ c.pins, ∃ node, OnNet circuit (deckPlan circuit options) c pin node ∧
    (pin.pinId, node) ∈ (portNames (modelMapOf (deckModels circuit)) c).zip (deviceTerminals cards)

/-- Nothing is dropped: every component but grounds and generic parts has a card in the
deck, and all its pins are drawn. -/
def Complete (circuit : CircuitJson) (options : NetlistOptions) (d : Deck) : Prop :=
  ∀ c ∈ circuit.components, c.type ≠ .ground → c.type ≠ .generic →
    ∃ cards, emitComponent (emitContext circuit options) c = .ok cards ∧ cards ≠ [] ∧
      (∀ card ∈ cards, card ∈ d.components) ∧ Drawn circuit options c cards

/-- Where the declared ports of a macromodel take all pins of a component. -/
def PortsTakeAll (circuit : CircuitJson) (c : Component) (ports : List Text) : Prop :=
  ∀ pin ∈ c.pins, pin.pinId ∈ ports ∧ ∀ pin' ∈ c.pins, pin'.pinId = pin.pinId →
    (buildNodeMap circuit.nets).get? pin'.netId = (buildNodeMap circuit.nets).get? pin.netId

/-- Every pin is one its device takes. -/
structure EveryPinTaken (circuit : CircuitJson) : Prop where
  /-- A macromodel with declared ports has no pin beside them. -/
  ports : ∀ c ∈ circuit.components, c.type = .subckt →
    ∀ ports, declaredPorts (modelMapOf (deckModels circuit)) c = some ports →
      PortsTakeAll circuit c ports
  /-- A flip-flop or latch names its pins as the type does. -/
  state : ∀ c ∈ circuit.components, c.type.isSequential = true →
    ∀ pin ∈ c.pins, pin.pinId ∈ c.type.pins
  /-- A digital pin shares its key with a pin on a mixed net only if both are on mixed nets
  of one node. -/
  keys : ∀ c ∈ circuit.components, c.type.isDigital = true → ∀ pin ∈ c.pins,
    ∀ c' ∈ circuit.components, c'.type.isDigital = true → ∀ pin' ∈ c'.pins,
      pinKey c'.id pin'.pinId = pinKey c.id pin.pinId → HasAnalogPin circuit pin'.netId →
        HasAnalogPin circuit pin.netId ∧
          (buildNodeMap circuit.nets).get? pin'.netId = (buildNodeMap circuit.nets).get? pin.netId

/-! ## Ports and nodes side by side -/

omit [Runtime] in
/-- A port and the node its name stands for. -/
theorem mem_zip_of_forall₂ {f : Text → Option Text} {ports nodes : List Text}
    (h : List.Forall₂ (fun p node => f p = some node) ports nodes) {p node : Text} :
    (p, node) ∈ ports.zip nodes ↔ p ∈ ports ∧ f p = some node := by
  induction h with
  | nil => simp
  | @cons q n ports nodes hq _ ih =>
    rw [List.zip_cons_cons, List.mem_cons, ih, List.mem_cons, Prod.mk.injEq]
    constructor
    · rintro (⟨rfl, rfl⟩ | ⟨hp, hf⟩)
      · exact ⟨Or.inl rfl, hq⟩
      · exact ⟨Or.inr hp, hf⟩
    · rintro ⟨rfl | hp, hf⟩
      · exact Or.inl ⟨rfl, Option.some.inj (hf.symm.trans hq)⟩
      · exact Or.inr ⟨hp, hf⟩

omit [Runtime] in
/-- Pins in authored order. -/
theorem mem_zip_authored {nodeMap : Map Text Text} {pins : List PinConnection} {nodes : List Text}
    (h : Resolved nodeMap pins nodes) {pin : PinConnection} (hpin : pin ∈ pins) :
    ∃ node, truthy (nodeMap.get? pin.netId) = some node ∧
      (pin.pinId, node) ∈ (pins.map PinConnection.pinId).zip nodes := by
  induction h with
  | nil => cases hpin
  | @cons q n pins nodes hq _ ih =>
    rw [List.map_cons, List.zip_cons_cons]
    rcases List.mem_cons.mp hpin with rfl | hpin
    · exact ⟨n, hq, List.mem_cons_self⟩
    · obtain ⟨node, hnode, hmem⟩ := ih hpin
      exact ⟨node, hnode, List.mem_cons_of_mem _ hmem⟩

/-- Pins by name. -/
theorem forall₂_inOrder {c : Component} {nodeMap : Map Text Text} {ids nodes : List Text}
    (hfound : ∀ p ∈ ids, (c.pins.find? (·.pinId = p)).isSome = true)
    (h : Resolved nodeMap (pinsInOrder c ids) nodes) :
    List.Forall₂ (fun p node => ((c.pins.find? (·.pinId = p)).bind fun pin =>
      truthy (nodeMap.get? pin.netId)) = some node) ids nodes := by
  induction ids generalizing nodes with
  | nil =>
    cases h
    exact .nil
  | cons p ids ih =>
    obtain ⟨hp, hids⟩ := List.forall_mem_cons.mp hfound
    obtain ⟨pin, hpin⟩ := Option.isSome_iff_exists.mp hp
    rw [pinsInOrder, List.filterMap_cons, hpin] at h
    cases h with
    | cons hnode hrest => exact .cons (by rw [hpin]; exact hnode) (ih hids hrest)

omit [Runtime] in
/-- As many pins as names, and every name among them: the names are those of the pins. -/
theorem pins_exact {pins : List PinConnection} {ids : List Text} (hnodup : ids.Nodup)
    (hfound : ∀ p ∈ ids, (pins.find? (·.pinId = p)).isSome = true)
    (hlength : pins.length = ids.length) :
    (pins.map PinConnection.pinId).Nodup ∧ ∀ pin ∈ pins, pin.pinId ∈ ids := by
  have hsub : ids ⊆ pins.map PinConnection.pinId := fun p hp => by
    obtain ⟨pin, hpin⟩ := Option.isSome_iff_exists.mp (hfound p hp)
    refine List.mem_map.mpr ⟨pin, List.mem_of_find?_eq_some hpin, ?_⟩
    simpa using List.find?_some hpin
  have hperm : ids.Perm (pins.map PinConnection.pinId) :=
    (hnodup.subperm hsub).perm_of_length_le (by rw [List.length_map]; omega)
  exact ⟨hperm.nodup_iff.mp hnodup, fun pin hpin =>
    hperm.mem_iff.mpr (List.mem_map_of_mem hpin)⟩

/-! ## Analog devices -/

/-- The names by which a device takes its pins. -/
def orderedPorts (modelMap : Map Text ModelDef) (c : Component) : List Text :=
  match c.type with
  | .resistor | .capacitor | .inductor => []
  | .subckt => (declaredPorts modelMap c).getD []
  | t => t.pins

section

variable {c : Component} {nodeMap : Map Text Text} {modelMap : Map Text ModelDef}
  {exprNodeMap : Map Text Text} {cards : List Card}

/-- The device has a pin of the name. -/
def HasPin (c : Component) (p : Text) : Prop := (c.pins.find? (·.pinId = p)).isSome = true

theorem found_of_orderedCard {pre : Char} {spec : Text}
    (h : orderedCard c nodeMap pre spec = .ok cards) : ∀ p ∈ c.type.pins, HasPin c p := by
  obtain ⟨nodes, hnodes, _⟩ := Outcome.map_eq_ok.mp h
  exact (nodesForPinOrder_ok hnodes).1

theorem found_of_subcktCard {model : Text} {nodes : List Text} {card : Card} {ports : List Text}
    (hmodel : truthy c.model = some model) (hports : declaredPorts modelMap c = some ports)
    (h : subcktCard c nodeMap modelMap model nodes = .ok card) : ∀ p ∈ ports, HasPin c p := by
  rw [declaredPorts, hmodel, Option.filter_eq_some_iff] at hports
  obtain ⟨hports, hne⟩ := hports
  obtain ⟨m, hm, hports⟩ := Option.bind_eq_some_iff.mp hports
  rw [Option.bind_some] at hm
  unfold subcktCard at h
  simp only [hm, hports] at h
  cases ports with
  | nil => simp at hne
  | cons p ps =>
    obtain ⟨nodes', hnodes', _⟩ := Outcome.map_eq_ok.mp h
    exact (nodesForPinOrder_ok hnodes').1

/-- A device that is emitted has found the pins it takes by name. -/
theorem found_of_componentToSpice (h : componentToSpice c nodeMap modelMap exprNodeMap = .ok cards)
    (hne : cards ≠ []) : ∀ p ∈ orderedPorts modelMap c, HasPin c p := by
  have hempty : (Except.ok [] : Except Thrown (List Card)) ≠ .ok cards := fun he =>
    hne (Except.ok.inj he).symm
  have hfixed : orderedPorts modelMap c = c.type.pins → (∀ p ∈ c.type.pins, HasPin c p) →
      ∀ p ∈ orderedPorts modelMap c, HasPin c p := fun he hall => he ▸ hall
  unfold componentToSpice at h
  split at h
  case h_1 | h_2 => exact absurd h hempty
  case h_3 hty =>
    split at h
    · exact absurd h hempty
    · obtain ⟨nodes, hnodes, _⟩ := Outcome.bind_eq_ok.mp h
      exact hfixed (by rw [orderedPorts, hty]) (nodesForPinOrder_ok hnodes).1
  case h_4 hty | h_5 hty =>
    split at h
    · exact absurd h hempty
    · exact hfixed (by rw [orderedPorts, hty]) (found_of_orderedCard h)
  case h_6 =>
    split at h
    · exact absurd h hempty
    · obtain ⟨nodes, _, h⟩ := Outcome.bind_eq_ok.mp h
      unfold prefixedCards at h
      split at h
      case h_1 hty | h_2 hty | h_3 hty =>
        rw [orderedPorts, hty]
        exact fun p hp => absurd hp List.not_mem_nil
      case h_4 hty | h_5 hty | h_8 hty =>
        exact hfixed (by rw [orderedPorts, hty]) (found_of_orderedCard h)
      case h_6 hty | h_7 hty | h_9 hty | h_10 hty | h_11 hty | h_12 hty | h_13 hty =>
        split at h
        · exact absurd h hempty
        · exact hfixed (by rw [orderedPorts, hty]) (found_of_orderedCard h)
      case h_14 hty =>
        split at h
        · exact absurd h hempty
        · rename_i model hmodel
          obtain ⟨card, hcard, _⟩ := Outcome.map_eq_ok.mp h
          rw [orderedPorts, hty]
          dsimp only
          cases hports : declaredPorts modelMap c with
          | none => exact fun p hp => absurd hp List.not_mem_nil
          | some ports => exact found_of_subcktCard hmodel hports hcard
      case h_15 => exact absurd h hempty

theorem terminals_of_emission (h : AnalogEmission nodeMap modelMap exprNodeMap c cards)
    (hne : cards ≠ []) : Resolved nodeMap (wiredPins modelMap c) (deviceTerminals cards) := by
  cases h with
  | skipped _ _ => exact absurd rfl hne
  | element _ _ hres =>
    rwa [deviceTerminals, Card.terminals, Card.analogTerminals, Card.eventPorts, List.append_nil]
  | transformer _ _ hres => exact hres

/-- A clean component of an analog type is emitted. -/
theorem emitted_of_clean (hclean : CleanComponent c) (hk : c.type.isKnown = true)
    (hdig : c.type.isDigital = false) (hground : c.type ≠ .ground) (hgen : c.type ≠ .generic)
    (h : AnalogEmission nodeMap modelMap exprNodeMap c cards) : cards ≠ [] := by
  cases h with
  | skipped hspec htr =>
    exfalso
    by_cases ht : c.type = .transformer
    · have := hclean.transformer ht
      rw [htr ht] at this
      cases this
    · have := hclean.deviceSpec_isSome ⟨hk, hdig, hground, hgen, ht⟩ exprNodeMap
      rw [hspec] at this
      cases this
  | element _ _ _ => exact List.cons_ne_nil _ _
  | transformer _ _ _ => exact List.cons_ne_nil _ _

/-- How the ports of an analog device come by their pins. -/
inductive PortForm (modelMap : Map Text ModelDef) (c : Component) : Prop
  | authored : portNames modelMap c = pinIds c → wiredPins modelMap c = c.pins →
      (c.type = .subckt → declaredPorts modelMap c = none) → PortForm modelMap c
  | fixed : c.type ≠ .subckt → portNames modelMap c = c.type.pins →
      orderedPorts modelMap c = c.type.pins →
      wiredPins modelMap c = pinsInOrder c c.type.pins →
      expectedPinCount c.type = some c.type.pins.length → c.type.pins.Nodup →
      PortForm modelMap c
  | declared {ports : List Text} : declaredPorts modelMap c = some ports →
      c.type = .subckt → portNames modelMap c = ports → orderedPorts modelMap c = ports →
      wiredPins modelMap c = pinsInOrder c ports → PortForm modelMap c

theorem portForm (modelMap : Map Text ModelDef) (hk : c.type.isKnown = true)
    (hdig : c.type.isDigital = false) (hground : c.type ≠ .ground) (hgen : c.type ≠ .generic) :
    PortForm modelMap c := by
  cases hty : c.type
  case resistor | capacitor | inductor =>
    exact .authored (by rw [portNames, hty]) (by rw [wiredPins, hty])
      fun he => by rw [hty] at he; cases he
  case subckt =>
    cases hp : declaredPorts modelMap c with
    | none =>
      refine .authored ?_ ?_ fun _ => hp
      · rw [portNames, hty]
        simp only [hp, Option.getD_none]
      · rw [wiredPins, hty]
        simp only [hp]
    | some ports =>
      refine .declared hp hty ?_ ?_ ?_
      · rw [portNames, hty]
        simp only [hp, Option.getD_some]
      · rw [orderedPorts, hty]
        simp only [hp, Option.getD_some]
      · rw [wiredPins, hty]
        simp only [hp]
  case transformer | tline | voltageSource | currentSource | vcvs | vccs | bsource | switch
      | diode | zener | bjt | mosfet | jfet =>
    refine .fixed (by rw [hty]; decide) ?_ ?_ ?_ ?_ ?_
    · rw [portNames, hty]
      rfl
    · rw [orderedPorts, hty]
    · rw [wiredPins, hty]
    · rw [hty]
      rfl
    · rw [hty]
      decide
  case ground => exact absurd hty hground
  case generic => exact absurd hty hgen
  case other =>
    rw [hty] at hk
    cases hk
  all_goals
    rw [hty] at hdig
    exact absurd hdig (by decide)

/-- An analog device draws all its pins unless its declared ports leave some out. -/
theorem drawn_iff_of_analog {circuit : CircuitJson} {options : NetlistOptions}
    (hclean : CleanComponent c) (hdig : c.type.isDigital = false) (hground : c.type ≠ .ground)
    (hgen : c.type ≠ .generic)
    (hemit : emitComponent (emitContext circuit options) c = .ok cards) :
    cards ≠ [] ∧ (Drawn circuit options c cards ↔ (c.type = .subckt →
      ∀ ports, declaredPorts (modelMapOf (deckModels circuit)) c = some ports →
        PortsTakeAll circuit c ports)) := by
  have hk : c.type.isKnown = true := by
    unfold emitComponent at hemit
    split_ifs at hemit with hk
    all_goals simpa using hk
  have hspice : componentToSpice c (buildNodeMap circuit.nets) (modelMapOf (deckModels circuit))
      (emitContext circuit options).exprNodeMap = .ok cards := by
    unfold emitComponent at hemit
    rwa [if_neg (by simp [hk]), if_neg (by simp [hdig])] at hemit
  have hemission := componentToSpice_emission hspice
  have hne := emitted_of_clean hclean hk hdig hground hgen hemission
  have hres := terminals_of_emission hemission hne
  have hfound := found_of_componentToSpice hspice hne
  refine ⟨hne, ?_⟩
  have hplain : ∀ {pin : PinConnection} {node : Text},
      OnNet circuit (deckPlan circuit options) c pin node ↔
        (buildNodeMap circuit.nets).get? pin.netId = some node := fun {pin node} => by
    constructor
    · intro h
      cases h with
      | plain _ hnode => exact hnode
      | twin hd => rw [hdig] at hd; cases hd
    · exact fun h => .plain (by simp [hdig]) h
  simp only [Drawn, hplain]
  cases portForm (modelMapOf (deckModels circuit)) hk hdig hground hgen with
  | authored hports hwired hnone =>
    rw [hwired] at hres
    refine iff_of_true (fun pin hpin => ?_) fun hty ports hp => ?_
    · obtain ⟨node, hnode, hmem⟩ := mem_zip_authored hres hpin
      rw [truthy_nodeMap] at hnode
      exact ⟨node, hnode, hports ▸ hmem⟩
    · rw [hnone hty] at hp
      cases hp
  | fixed hsub hports hordered hwired hcount hnodup =>
    rw [hwired] at hres
    rw [hordered] at hfound
    obtain ⟨hids, hmem⟩ := pins_exact hnodup hfound (hclean.count _ hcount)
    have hzip := forall₂_inOrder hfound hres
    refine iff_of_true (fun pin hpin => ?_) fun hty => absurd hty hsub
    have hfind := find?_of_key hids hpin
    obtain ⟨node, _, hnode⟩ := Outcome.exists_of_mem_left hzip (hmem pin hpin)
    refine ⟨node, ?_, hports ▸ (mem_zip_of_forall₂ hzip).mpr ⟨hmem pin hpin, hnode⟩⟩
    rw [hfind, Option.bind_some, truthy_nodeMap] at hnode
    exact hnode
  | @declared ports hp hty hports hordered hwired =>
    rw [hwired] at hres
    rw [hordered] at hfound
    have hzip := forall₂_inOrder hfound hres
    simp only [hports, mem_zip_of_forall₂ hzip, truthy_nodeMap]
    constructor
    · intro hdrawn _ ports' hp'
      rw [hp, Option.some.injEq] at hp'
      subst hp'
      intro pin hpin
      obtain ⟨node, hnode, hmem, hfirst⟩ := hdrawn pin hpin
      refine ⟨hmem, fun pin' hpin' hsame => ?_⟩
      obtain ⟨node', hnode', _, hfirst'⟩ := hdrawn pin' hpin'
      rw [hsame, hfirst] at hfirst'
      rw [hnode, hnode', hfirst']
    · intro htake pin hpin
      obtain ⟨hmem, hsame⟩ := htake hty ports hp pin hpin
      obtain ⟨node, _, hfirst⟩ := Outcome.exists_of_mem_left hzip hmem
      obtain ⟨pin', hpin', hnode⟩ := Option.bind_eq_some_iff.mp hfirst
      rw [truthy_nodeMap] at hnode
      have hid : pin'.pinId = pin.pinId := by simpa using List.find?_some hpin'
      refine ⟨node, ?_, hmem, ?_⟩
      · rw [← hsame pin' (List.mem_of_find?_eq_some hpin') hid]
        exact hnode
      · rw [hpin']
        exact hnode

end

/-! ## Digital devices -/

section

variable {circuit : CircuitJson} {options : NetlistOptions} {c : Component} {st : PlanState}
  {A D : List Text} {cards : List Card}

theorem portNames_of_digital (modelMap : Map Text ModelDef) (hdig : c.type.isDigital = true) :
    portNames modelMap c = portPins c := by
  unfold portNames
  split
  case h_1 hty | h_2 hty | h_3 hty | h_4 hty =>
    rw [hty] at hdig
    exact absurd hdig (by decide)
  case h_5 => rw [if_pos hdig]

/-- The pins of a clean component are found on their nets. -/
theorem hasNode_of_port
    (h : PlanSpec circuit (buildNodeMap circuit.nets) st (netRoles circuit)
      (needsLowRail circuit) A D) (hc : c ∈ circuit.components) (hdig : c.type.isDigital = true)
    (hmodel : ∃ model, truthy (st.plan.digitalModelName.get? c.id) = some model)
    (hfit : PinsFit c) {x : Option Card}
    (hx : emitDigitalComponent c (buildNodeMap circuit.nets) st.plan = .ok x) {p : Text}
    (hp : p ∈ portPins c) (hpin : p ∈ pinIds c) : HasNode circuit c p := by
  have hlisted : ∀ p ∈ pinIds c, Reads circuit c p → HasNode circuit c p := by
    intro p hpin hread
    by_contra hno
    refine absurd ((emitDigitalComponent_fails h hc hdig hmodel).mpr ⟨p, hread, ?_, hno⟩) ?_
    · obtain ⟨pin, hmem, rfl⟩ := List.mem_map.mp hpin
      rw [find?_of_key hfit.nodup hmem]
      rfl
    · rw [hx]
      rintro ⟨e, he⟩
      cases he
  -- the outputs are looked up first, the other pins once the outputs have their nodes
  have hfirst : ∀ q ∈ portPins c, q ≠ "set".toList → q ≠ "rst".toList → Reads circuit c q →
      HasNode circuit c q := fun q hq hs hr hread =>
    hlisted q (((hfit.wired q hq).resolve_left hs).resolve_left hr) hread
  refine hlisted p hpin ?_
  unfold portPins at hp hfirst
  rcases c.type.isDigital_cases hdig with hg | hs | ht
  · rw [if_pos hg] at hp hfirst
    rcases List.mem_append.mp hp with hin | hout
    · refine .input hg (hfirst _ (List.mem_append_right _ (List.mem_singleton.mpr rfl))
        (by decide) (by decide) (.out hg)) ?_
      split_ifs at hin
      · exact List.mem_of_mem_take hin
      · exact hin
    · rw [List.mem_singleton.mp hout]
      exact .out hg
  · have hg : c.type.isLogicGate ≠ true := fun hg => by
      revert hg hs
      cases c.type <;> simp [ComponentType.isLogicGate, ComponentType.isSequential]
    rw [if_neg hg, if_pos hs] at hp hfirst
    have hout : ∀ q ∈ ["q", "qb"].map String.toList, HasNode circuit c q := fun q hq => by
      have hq' : q ∈ ["set", "rst", "q", "qb"].map String.toList :=
        List.mem_cons_of_mem _ (List.mem_cons_of_mem _ hq)
      have hplain : q ≠ "set".toList ∧ q ≠ "rst".toList := by
        have hall : ∀ q ∈ ["q", "qb"].map String.toList,
            q ≠ "set".toList ∧ q ≠ "rst".toList := by decide
        exact hall q hq
      exact hfirst q (List.mem_append_right _ hq') hplain.1 hplain.2 (.output hs hq)
    have hq := hout "q".toList List.mem_cons_self
    have hqb := hout "qb".toList (List.mem_cons_of_mem _ List.mem_cons_self)
    rcases List.mem_append.mp hp with hin | hrest
    · exact .state hs hq hqb (List.mem_append_right _ hin)
    · by_cases hq' : p ∈ ["q", "qb"].map String.toList
      · exact .output hs hq'
      · refine .state hs hq hqb (List.mem_append_left _ ?_)
        simp only [List.map_cons, List.map_nil, List.mem_cons, List.not_mem_nil, or_false] at hrest hq' ⊢
        tauto
  · rw [ht] at hp
    exact .port ht hp

/-- A clean component of a digital type is emitted, with a pin at the port of its name on
the node the plan has for its key, else on that of its net. -/
theorem ports_of_digital
    (h : PlanSpec circuit (buildNodeMap circuit.nets) st (netRoles circuit)
      (needsLowRail circuit) A D) (hplan : deckPlan circuit options = st.plan)
    (hc : c ∈ circuit.components) (hdig : c.type.isDigital = true)
    (hmodel : ∃ model, truthy (st.plan.digitalModelName.get? c.id) = some model)
    (hclean : CleanComponent c)
    (hemit : emitComponent (emitContext circuit options) c = .ok cards) :
    cards ≠ [] ∧ ∀ pin ∈ c.pins,
      (pin.pinId ∈ portPins c → ∃ node, (st.plan.nodeOverride.get? (pinKey c.id pin.pinId)).or
        ((buildNodeMap circuit.nets).get? pin.netId) = some node) ∧
      ∀ node, (pin.pinId, node) ∈ (portNames (modelMapOf (deckModels circuit)) c).zip
          (deviceTerminals cards) ↔
        pin.pinId ∈ portPins c ∧
          (st.plan.nodeOverride.get? (pinKey c.id pin.pinId)).or
            ((buildNodeMap circuit.nets).get? pin.netId) = some node := by
  have hfit := pinsFit_of_clean hclean hdig
  unfold emitComponent at hemit
  split_ifs at hemit with hk
  obtain ⟨x, hx, rfl⟩ := Outcome.map_eq_ok.mp hemit
  rw [show (emitContext circuit options).plan = st.plan from hplan] at hx
  have hemission := emitDigitalComponent_emission hdig hx
  have hwired : IsWiredDigital circuit c := by
    refine ⟨hdig, hfit.input, fun p hp => ?_⟩
    rcases hfit.wired p hp with hs | hr | hpin
    · exact Or.inl hs
    · exact Or.inr (Or.inl hr)
    · obtain ⟨pin, hmem, rfl⟩ := List.mem_map.mp hpin
      exact Or.inr (Or.inr (Or.inr (by rw [find?_of_key hfit.nodup hmem]; rfl)))
  obtain ⟨card, rfl, hports⟩ := device_of_isWired h hc hmodel hwired hemission
  have hterms : card.analogTerminals = [] := by
    cases hemission with
    | device _ _ _ _ hterms _ => exact hterms
  refine ⟨List.cons_ne_nil _ _, fun pin hpin => ?_⟩
  have hpinNode : pinNode c (buildNodeMap circuit.nets) st.plan pin.pinId =
      (st.plan.nodeOverride.get? (pinKey c.id pin.pinId)).or
        ((buildNodeMap circuit.nets).get? pin.netId) := by
    rw [pinNode, find?_of_key hfit.nodup hpin, Option.bind_some, truthy_nodeMap]
    congr 1
    cases ho : st.plan.nodeOverride.get? (pinKey c.id pin.pinId) with
    | none => rfl
    | some d => exact truthy_eq_some.mpr ⟨rfl, h.ne_nil (Or.inr (h.override_mem _ _ ho))⟩
  have hnode : pin.pinId ∈ portPins c → ∃ node,
      pinNode c (buildNodeMap circuit.nets) st.plan pin.pinId = some node := fun hport =>
    Option.isSome_iff_exists.mp ((hasNode_iff h _).mp
      (hasNode_of_port h hc hdig hmodel hfit hx hport (List.mem_map_of_mem hpin)))
  rw [← hpinNode]
  refine ⟨hnode, fun node => ?_⟩
  rw [portNames_of_digital _ hdig, Option.toList_some, deviceTerminals, Card.terminals, hterms,
    List.nil_append, mem_zip_of_forall₂ hports]
  refine and_congr_right fun hport => ?_
  obtain ⟨node', hnode'⟩ := hnode hport
  rw [portNode, hnode', Option.some_or]

end

/-! ## The whole deck -/

section

variable {now : Timestamp} {circuit : CircuitJson} {analysis : AnalysisConfig}
  {options : NetlistOptions} {d : Deck} {c : Component}

theorem mem_digitalPinKeys (hc : c ∈ circuit.components)
    (hdig : c.type.isDigital = true) {pin : PinConnection} (hpin : pin ∈ c.pins) :
    pinKey c.id pin.pinId ∈ digitalPinKeys circuit pin.netId :=
  List.mem_flatMap.mpr ⟨c, List.mem_filter.mpr ⟨hc, hdig⟩,
    List.mem_map.mpr ⟨pin, List.mem_filter.mpr ⟨hpin, by simp⟩, rfl⟩⟩

theorem exists_of_mem_digitalPinKeys {g key : Text} (h : key ∈ digitalPinKeys circuit g) :
    ∃ c ∈ circuit.components, c.type.isDigital = true ∧ ∃ pin ∈ c.pins, pin.netId = g ∧
      pinKey c.id pin.pinId = key := by
  obtain ⟨c, hc, hkey⟩ := List.mem_flatMap.mp h
  obtain ⟨hc, hdig⟩ := List.mem_filter.mp hc
  obtain ⟨pin, hpin, hkey⟩ := List.mem_map.mp hkey
  obtain ⟨hpin, hg⟩ := List.mem_filter.mp hpin
  exact ⟨c, hc, hdig, pin, hpin, by simpa using hg, hkey⟩

/-- A twin is no node of a net. -/
theorem override_ne_net {st : PlanState} {A D : List Text}
    (h : PlanSpec circuit (buildNodeMap circuit.nets) st (netRoles circuit)
      (needsLowRail circuit) A D) {k node g : Text}
    (hk : st.plan.nodeOverride.get? k = some node) :
    (buildNodeMap circuit.nets).get? g ≠ some node := by
  intro hg
  have hmem : node ∈ st.synthesized :=
    h.parted.mem_iff.mpr (List.mem_append_right _ (h.override_mem _ _ hk))
  refine h.names.apart node hmem (List.mem_map_of_mem ?_)
  rw [h.netNodes]
  exact List.mem_map_of_mem (f := Prod.snd) (Map.mem_of_get? hg)

/-- A digital device draws all its pins exactly when it has a port for each of them and
the plan moves none of them to the twin of another net. -/
theorem drawn_iff_of_digital (hc : c ∈ circuit.components) (hdig : c.type.isDigital = true)
    (hclean : CleanComponent c) {cards : List Card}
    (hemit : emitComponent (emitContext circuit options) c = .ok cards) :
    cards ≠ [] ∧ (Drawn circuit options c cards ↔ ∀ pin ∈ c.pins, pin.pinId ∈ portPins c ∧
      ∀ n node, (deckPlan circuit options).nodeOverride.get? (pinKey c.id pin.pinId) = some node →
        Bridged (deckPlan circuit options).deviceLines node n →
          HasAnalogPin circuit pin.netId ∧ (buildNodeMap circuit.nets).get? pin.netId = some n) := by
  obtain ⟨st, A, D, hspec, hplan, hmodels⟩ := deckPlan_of_digital circuit options ⟨c, hc, hdig⟩
  obtain ⟨hne, hzip⟩ := ports_of_digital hspec hplan hc hdig (hmodels c hc hdig) hclean hemit
  refine ⟨hne, forall₂_congr fun pin hpin => ?_⟩
  obtain ⟨hnode, hzip⟩ := hzip pin hpin
  simp only [hzip, ← hplan] at hnode ⊢
  constructor
  · rintro ⟨node, hon, hport, hnode⟩
    refine ⟨hport, fun n node' ho hbridge => ?_⟩
    rw [ho, Option.some_or, Option.some.injEq] at hnode
    subst hnode
    cases hon with
    | plain _ hnet => exact absurd hnet (override_ne_net hspec (hplan ▸ ho))
    | twin _ han hnet _ hbridge' => exact ⟨han, hbridge.unique ho hbridge' ▸ hnet⟩
  · rintro ⟨hport, hkeys⟩
    obtain ⟨node, hnode⟩ := hnode hport
    refine ⟨node, ?_, hport, hnode⟩
    cases ho : (deckPlan circuit options).nodeOverride.get? (pinKey c.id pin.pinId) with
    | some node' =>
      rw [ho, Option.some_or, Option.some.injEq] at hnode
      subst hnode
      obtain ⟨g, n, _, _, _, hbridge⟩ := deckPlan_override ho
      obtain ⟨han, hnet⟩ := hkeys n _ ho hbridge
      exact .twin hdig han hnet ho hbridge
    | none =>
      rw [ho, Option.none_or] at hnode
      refine .plain (fun hmixed => ?_) hnode
      have hsplit : IsSplit circuit (pinKey c.id pin.pinId) := by
        refine ⟨pin.netId, hmixed.2, by rw [hnode]; rfl, ?_⟩
        exact mem_digitalPinKeys hc hdig hpin
      obtain ⟨node', ho'⟩ := (override_iff hspec _).mpr hsplit
      rw [hplan, ho'] at ho
      cases ho

/-- What the gate lets through reaches the deck exactly when every pin is one its device
takes. -/
theorem complete_iff (hpass : (runErc circuit).passed = true)
    (h : generateDeck now circuit analysis options = .ok d) :
    Complete circuit options d ↔ EveryPinTaken circuit := by
  obtain ⟨parts, ⟨run⟩, rfl⟩ := generateDeck_ok h
  have hloop := emitLoop_spec run.emitted
  have hclean := fun c hc => cleanComponent_of_passed hpass (c := c) hc
  have hmem : ∀ c ∈ circuit.components, ∀ card ∈ cardsOf (emitContext circuit options) c,
      card ∈ (assembleDeck now circuit analysis options parts).components := by
    intro c hc card hcard
    refine List.mem_append_left _ ?_
    rw [hloop.cards]
    exact List.mem_flatMap.mpr ⟨c, hc, hcard⟩
  have hdrawn : Complete circuit options (assembleDeck now circuit analysis options parts) ↔
      ∀ c ∈ circuit.components, c.type ≠ .ground → c.type ≠ .generic →
        Drawn circuit options c (cardsOf (emitContext circuit options) c) := by
    refine forall₂_congr fun c hc => forall₂_congr fun hground hgen => ?_
    constructor
    · rintro ⟨cards, hcards, _, _, hall⟩
      rw [cardsOf, hcards]
      exact hall
    · intro hall
      refine ⟨_, hloop.emits c hc, ?_, hmem c hc, hall⟩
      cases hdig : c.type.isDigital
      · exact (drawn_iff_of_analog (hclean c hc) hdig hground hgen (hloop.emits c hc)).1
      · exact (drawn_iff_of_digital hc hdig (hclean c hc) (hloop.emits c hc)).1
  rw [hdrawn]
  have hdigital : ∀ c : Component, c.type.isDigital = true → c.type ≠ .ground ∧ c.type ≠ .generic :=
    fun c hdig => by
      refine ⟨?_, ?_⟩ <;>
      · intro hty
        rw [hty] at hdig
        exact absurd hdig (by decide)
  constructor
  · intro hall
    have htaken : ∀ c ∈ circuit.components, c.type.isDigital = true → ∀ pin ∈ c.pins, _ :=
      fun c hc hdig => (drawn_iff_of_digital hc hdig (hclean c hc) (hloop.emits c hc)).2.mp
        (hall c hc (hdigital c hdig).1 (hdigital c hdig).2)
    refine ⟨fun c hc hty => ?_, fun c hc hs pin hpin => ?_, ?_⟩
    · have hdig : c.type.isDigital = false := by rw [hty]; rfl
      have hground : c.type ≠ .ground := by rw [hty]; decide
      have hgen : c.type ≠ .generic := by rw [hty]; decide
      exact (drawn_iff_of_analog (hclean c hc) hdig hground hgen (hloop.emits c hc)).2.mp
        (hall c hc hground hgen) hty
    · have hdig : c.type.isDigital = true := by simp [ComponentType.isDigital, hs]
      exact (mem_portPins_fixed (Or.inl hs) _).mp (htaken c hc hdig pin hpin).1
    · intro c hc hdig pin hpin c' hc' hdig' pin' hpin' hkey han
      obtain ⟨st, A, D, hspec, hplan, _⟩ := deckPlan_of_digital circuit options ⟨c, hc, hdig⟩
      -- the net of the other pin is listed, so its pins are moved
      obtain ⟨_, hon, _⟩ := hall c' hc' (hdigital c' hdig').1 (hdigital c' hdig').2 pin' hpin'
      have hlisted : ((buildNodeMap circuit.nets).get? pin'.netId).isSome = true := by
        cases hon with
        | plain _ hnet => rw [hnet]; rfl
        | twin _ _ hnet _ _ => rw [hnet]; rfl
      obtain ⟨node, ho⟩ := (override_iff hspec _).mpr
        ⟨pin'.netId, han, hlisted, mem_digitalPinKeys hc' hdig' hpin'⟩
      rw [← hplan] at ho
      obtain ⟨_, n, _, _, _, hbridge⟩ := deckPlan_override ho
      obtain ⟨_, hnet'⟩ := (htaken c' hc' hdig' pin' hpin').2 n node ho hbridge
      obtain ⟨han', hnet⟩ := (htaken c hc hdig pin hpin).2 n node (hkey ▸ ho) hbridge
      exact ⟨han', hnet'.trans hnet.symm⟩
  · intro htaken c hc hground hgen
    cases hdig : c.type.isDigital
    · exact (drawn_iff_of_analog (hclean c hc) hdig hground hgen (hloop.emits c hc)).2.mpr
        (htaken.ports c hc)
    · refine (drawn_iff_of_digital hc hdig (hclean c hc) (hloop.emits c hc)).2.mpr
        fun pin hpin => ⟨?_, fun n node ho hbridge => ?_⟩
      · exact (pinsFit_of_clean (hclean c hc) hdig).port _ (List.mem_map_of_mem hpin)
          fun hs => htaken.state c hc hs pin hpin
      · obtain ⟨g, n', han, hnet, hkey, hbridge'⟩ := deckPlan_override ho
        obtain ⟨c', hc', hdig', pin', hpin', rfl, hsame⟩ := exists_of_mem_digitalPinKeys hkey
        obtain ⟨han', hnode⟩ := htaken.keys c hc hdig pin hpin c' hc' hdig' pin' hpin' hsame han
        exact ⟨han', by rw [← hnode, hnet, hbridge.unique ho hbridge']⟩

/-- A pin whose name is none of the ports is dropped. -/
theorem not_complete_of_notMem (hc : c ∈ circuit.components) (hground : c.type ≠ .ground)
    (hgen : c.type ≠ .generic) {pin : PinConnection} (hpin : pin ∈ c.pins)
    (hport : pin.pinId ∉ portNames (modelMapOf (deckModels circuit)) c) :
    ¬ Complete circuit options d := by
  intro h
  obtain ⟨_, _, _, _, hall⟩ := h c hc hground hgen
  obtain ⟨_, _, hmem⟩ := hall pin hpin
  exact hport (List.of_mem_zip hmem).1

end

end

/-- A clocked flip-flop whose reset pin has this name. -/
def resetFlipFlop (reset : String) : Component where
  id := "u1".toList
  type := .dff
  designator := "U1".toList
  pins := [⟨"d".toList, "d".toList⟩, ⟨"clk".toList, "clk".toList⟩, ⟨"q".toList, "q".toList⟩,
    ⟨"qb".toList, "qb".toList⟩, ⟨reset.toList, "rst".toList⟩]

/-- The flip-flop between its sources. -/
def resetBoard (reset : String) : CircuitJson where
  nets := [⟨"gnd".toList, "gnd".toList, true, false⟩, ⟨"d".toList, "d".toList, false, false⟩,
    ⟨"clk".toList, "clk".toList, false, false⟩, ⟨"rst".toList, "rst".toList, false, false⟩,
    ⟨"q".toList, "q".toList, false, false⟩, ⟨"qb".toList, "qb".toList, false, false⟩]
  components := [
    { id := "v1".toList, type := .voltageSource, designator := "V1".toList
      value := some "PULSE(0 5 0 1n 1n 1u 2u)".toList
      pins := [⟨"+".toList, "clk".toList⟩, ⟨"-".toList, "gnd".toList⟩] },
    { id := "v2".toList, type := .voltageSource, designator := "V2".toList
      value := some "DC 5".toList
      pins := [⟨"+".toList, "d".toList⟩, ⟨"-".toList, "gnd".toList⟩] },
    { id := "v3".toList, type := .voltageSource, designator := "V3".toList
      value := some "DC 5".toList
      pins := [⟨"+".toList, "rst".toList⟩, ⟨"-".toList, "gnd".toList⟩] },
    resetFlipFlop reset]

/-- A macromodel of two ports with a third pin. -/
def extraPinPart : Component where
  id := "u1".toList
  type := .subckt
  designator := "U1".toList
  model := some "LOAD".toList
  pins := [⟨"a".toList, "in".toList⟩, ⟨"b".toList, "gnd".toList⟩, ⟨"c".toList, "out".toList⟩]

def extraPinBoard : CircuitJson where
  nets := [⟨"gnd".toList, "gnd".toList, true, false⟩, ⟨"in".toList, "in".toList, false, false⟩,
    ⟨"out".toList, "out".toList, false, false⟩]
  models := some [⟨"LOAD".toList, .subckt, ".subckt LOAD a b\nR1 a b 1k\n.ends".toList,
    some ["a".toList, "b".toList]⟩]
  components := [
    { id := "v1".toList, type := .voltageSource, designator := "V1".toList
      value := some "DC 5".toList
      pins := [⟨"+".toList, "in".toList⟩, ⟨"-".toList, "gnd".toList⟩] },
    { id := "r1".toList, type := .resistor, designator := "R1".toList
      value := some "1k".toList
      pins := [⟨"1".toList, "out".toList⟩, ⟨"2".toList, "gnd".toList⟩] },
    extraPinPart]

/-- A reset pin in capitals and a third pin of a two-port model pass the gate and are dropped. -/
theorem complete_fails :
    ((runErc (resetBoard "RST")).passed = true ∧
      ∃ d, generateDeck epoch (resetBoard "RST") (.op {}) = .ok d ∧
        ¬ Complete (resetBoard "RST") {} d) ∧
    ((runErc extraPinBoard).passed = true ∧
      ∃ d, generateDeck epoch extraPinBoard (.op {}) = .ok d ∧ ¬ Complete extraPinBoard {} d) := by
  refine ⟨⟨by decide +kernel, ?_⟩, by decide +kernel, ?_⟩
  · obtain ⟨d, hd, _⟩ := Outcome.exists_ok
      (x := generateDeck epoch (resetBoard "RST") (.op {})) (p := fun _ => true)
      (by decide +kernel)
    have hc : resetFlipFlop "RST" ∈ (resetBoard "RST").components := by simp [resetBoard]
    have hpin : (⟨"RST".toList, "rst".toList⟩ : PinConnection) ∈ (resetFlipFlop "RST").pins := by
      simp [resetFlipFlop]
    exact ⟨d, hd, not_complete_of_notMem hc (by decide) (by decide) hpin (by decide +kernel)⟩
  · obtain ⟨d, hd, _⟩ := Outcome.exists_ok (x := generateDeck epoch extraPinBoard (.op {}))
      (p := fun _ => true) (by decide +kernel)
    have hc : extraPinPart ∈ extraPinBoard.components := by simp [extraPinBoard]
    have hpin : (⟨"c".toList, "out".toList⟩ : PinConnection) ∈ extraPinPart.pins := by
      simp [extraPinPart]
    exact ⟨d, hd, not_complete_of_notMem hc (by decide) (by decide) hpin (by decide +kernel)⟩

theorem complete_iff_resetBoard :
    ∃ d, generateDeck epoch (resetBoard "rst") (.op {}) = .ok d ∧
      (Complete (resetBoard "rst") {} d ↔ EveryPinTaken (resetBoard "rst")) := by
  obtain ⟨d, hd, _⟩ := Outcome.exists_ok (x := generateDeck epoch (resetBoard "rst") (.op {}))
    (p := fun _ => true) (by decide +kernel)
  exact ⟨d, hd, complete_iff (by decide +kernel) hd⟩

end CircuitForge
