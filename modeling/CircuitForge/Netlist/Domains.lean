/-
The two simulation domains.

A card's terminals are analog or event driven.  The planner splits the nets, not
the nodes, so the domains can meet where several nets are one node: at node 0.
-/
import CircuitForge.Netlist.Nodes

namespace CircuitForge

open Js

section

variable [Runtime]

/-! ## Meeting at node 0 -/

/-- No node name is in both domains, as ngspice compares names. -/
def DomainsApart (d : Deck) : Prop :=
  ∀ card ∈ d.components, ∀ card' ∈ d.components, ∀ a ∈ card.analogTerminals,
    ∀ b ∈ card'.eventPorts, Runtime.lower a ≠ Runtime.lower b

instance (d : Deck) : Decidable (DomainsApart d) :=
  inferInstanceAs (Decidable (∀ card ∈ d.components, ∀ card' ∈ d.components,
    ∀ a ∈ card.analogTerminals, ∀ b ∈ card'.eventPorts, Runtime.lower a ≠ Runtime.lower b))

omit [Runtime] in
/-- The last declaration of the net has the ground flag. -/
def IsGroundNet (nets : List Net) (g : Text) : Prop := (buildNodeMap nets).get? g = some "0".toList

/-- A pin with this key stands on a net with both kinds of pins. -/
def IsSplit (circuit : CircuitJson) (key : Text) : Prop :=
  ∃ g, HasAnalogPin circuit g ∧ ((buildNodeMap circuit.nets).get? g).isSome = true ∧
    key ∈ digitalPinKeys circuit g

/-- A digital device with all its ports wired; an open `set` or `rst` is tied. -/
def IsWiredDigital (circuit : CircuitJson) (c : Component) : Prop :=
  c.type.isDigital = true ∧ (c.type.isLogicGate = true → gateInputPins c ≠ []) ∧
    ∀ p ∈ portPins c, p = "set".toList ∨ p = "rst".toList ∨ IsSplit circuit (pinKey c.id p) ∨
      (c.pins.find? (·.pinId = p)).isSome = true

/-- An event port at node 0: a driven pure-digital ground net, or the port of a
wired device on such a net. -/
def EventAtGround (circuit : CircuitJson) : Prop :=
  (∃ g, IsGroundNet circuit.nets g ∧ ¬ HasAnalogPin circuit g ∧ HasDigitalSource circuit g) ∨
    ∃ c ∈ circuit.components, IsWiredDigital circuit c ∧ ∃ p ∈ portPins c,
      ∃ pin, c.pins.find? (·.pinId = p) = some pin ∧ IsGroundNet circuit.nets pin.netId ∧
        ¬ IsSplit circuit (pinKey c.id p)

/-- An analog terminal at node 0: the source of the low rail, a bridge of a mixed
ground net, a device with a pin on a ground net, or a transformer. -/
def AnalogAtGround (circuit : CircuitJson) : Prop :=
  needsLowRail circuit = true ∨
    (∃ g, IsGroundNet circuit.nets g ∧ HasAnalogPin circuit g ∧ HasDigitalPin circuit g) ∨
    (∃ c ∈ circuit.components, (deviceSpec [] c).isSome = true ∧
      ∃ pin ∈ wiredPins (modelMapOf (deckModels circuit)) c, IsGroundNet circuit.nets pin.netId) ∨
    ∃ c ∈ circuit.components, c.type = .transformer ∧
      (parseTransformerParams c.properties).isSome = true

/-! ## The sides of the bridges -/

theorem eventSide_of_mem {circuit : CircuitJson} {t : Text} :
    t ∈ (netRoles circuit).filterMap (eventSide (buildNodeMap circuit.nets)) ↔
      ∃ g, truthy ((buildNodeMap circuit.nets).get? g) = some t ∧ ¬ HasAnalogPin circuit g ∧
        HasDigitalSource circuit g := by
  rw [List.mem_filterMap]
  constructor
  · rintro ⟨e, he, ht⟩
    have hroles := rolesAt_of_mem he
    unfold eventSide at ht
    split_ifs at ht with hs
    rw [← hroles] at hs
    refine ⟨e.1, ht, fun han => ?_, (source_pos_iff circuit e.1).mp hs.1⟩
    have := (analog_pos_iff circuit e.1).mpr han
    omega
  · rintro ⟨g, ht, han, hsrc⟩
    have hs := (source_pos_iff circuit g).mpr hsrc
    have ha : (rolesAt (netRoles circuit) g).analog = 0 := by
      by_contra h
      exact han ((analog_pos_iff circuit g).mp (Nat.pos_of_ne_zero h))
    refine ⟨_, mem_of_count (k := .source) hs, ?_⟩
    rw [eventSide, if_pos ⟨hs, ha⟩]
    exact ht

theorem analogSide_of_mem {circuit : CircuitJson} {t : Text} :
    t ∈ (netRoles circuit).filterMap (analogSide (buildNodeMap circuit.nets)) ↔
      ∃ g, truthy ((buildNodeMap circuit.nets).get? g) = some t ∧ HasAnalogPin circuit g ∧
        HasDigitalPin circuit g := by
  rw [List.mem_filterMap]
  constructor
  · rintro ⟨e, he, ht⟩
    have hroles := rolesAt_of_mem he
    unfold analogSide at ht
    split_ifs at ht with hs
    rw [← hroles] at hs
    exact ⟨e.1, ht, (analog_pos_iff circuit e.1).mp hs.2, (digital_pos_iff circuit e.1).mp hs.1⟩
  · rintro ⟨g, ht, han, hdig⟩
    have ha := (analog_pos_iff circuit g).mpr han
    refine ⟨_, mem_of_count (k := .analog) ha, ?_⟩
    rw [analogSide, if_pos ⟨(digital_pos_iff circuit g).mpr hdig, ha⟩]
    exact ht

omit [Runtime] in
theorem truthy_nodeMap {nets : List Net} {g : Text} :
    truthy ((buildNodeMap nets).get? g) = (buildNodeMap nets).get? g := by
  cases h : (buildNodeMap nets).get? g with
  | none => rfl
  | some node =>
    obtain ⟨net, _, _, hnode⟩ := mem_nodeMap (Map.mem_of_get? h)
    refine truthy_eq_some.mpr ⟨rfl, ?_⟩
    rw [show node = nodeOfNet net from hnode]
    exact nodeOfNet_ne_nil net

/-- The overridden pins are those on mixed nets. -/
theorem override_iff {circuit : CircuitJson} {st : PlanState} {A D : List Text}
    (h : PlanSpec circuit (buildNodeMap circuit.nets) st (netRoles circuit) (needsLowRail circuit)
      A D) (key : Text) :
    (∃ d, st.plan.nodeOverride.get? key = some d) ↔ IsSplit circuit key := by
  rw [h.overrides]
  constructor
  · rintro ⟨e, he, hside, hkey⟩
    obtain ⟨t, ht⟩ := Option.isSome_iff_exists.mp hside
    have hmem : t ∈ (netRoles circuit).filterMap (analogSide (buildNodeMap circuit.nets)) :=
      List.mem_filterMap.mpr ⟨e, he, ht⟩
    have hroles := rolesAt_of_mem he
    unfold analogSide at ht
    split_ifs at ht with hs
    rw [← hroles] at hs
    exact ⟨e.1, (analog_pos_iff circuit e.1).mp hs.2,
      Option.isSome_iff_exists.mpr ⟨t, (truthy_eq_some.mp ht).1⟩, hkey⟩
  · rintro ⟨g, han, hnode, hkey⟩
    have ha := (analog_pos_iff circuit g).mpr han
    have hdig : HasDigitalPin circuit g := by
      obtain ⟨c, hc, hkey⟩ := List.mem_flatMap.mp hkey
      obtain ⟨pin, hpin, _⟩ := List.mem_map.mp hkey
      obtain ⟨hpin, hg⟩ := List.mem_filter.mp hpin
      obtain ⟨hc, hd⟩ := List.mem_filter.mp hc
      exact ⟨c, hc, hd, pin, hpin, by simpa using hg⟩
    refine ⟨_, mem_of_count (k := .analog) ha, ?_, hkey⟩
    rw [analogSide, if_pos ⟨(digital_pos_iff circuit g).mpr hdig, ha⟩, truthy_nodeMap]
    exact hnode

/-! ## Event ports -/

/-- The planner's side of a deck with digital devices. -/
theorem deckPlan_of_digital (circuit : CircuitJson) (options : NetlistOptions)
    (hdig : ∃ c ∈ circuit.components, c.type.isDigital = true) :
    ∃ st A D, PlanSpec circuit (buildNodeMap circuit.nets) st (netRoles circuit)
        (needsLowRail circuit) A D ∧ deckPlan circuit options = st.plan ∧
      ∀ c ∈ circuit.components, c.type.isDigital = true →
        ∃ model, truthy (st.plan.digitalModelName.get? c.id) = some model := by
  have hany : circuit.components.any (·.type.isDigital) = true := List.any_eq_true.mpr hdig
  obtain ⟨A, D, h⟩ := planState_spec circuit (buildNodeMap circuit.nets)
    (reservedDeviceNames circuit) options.logicVoltage
  refine ⟨_, A, D, h, ?_, fun c hc hd => digitalModelName_isSome _ _ _ _ hc hd⟩
  rw [deckPlan, planMixedSignal, if_pos hany]

omit [Runtime] in
theorem IsTwin.ne_nil {nodes : List Text} {s : Text} (h : IsTwin nodes s) : s ≠ [] := by
  obtain ⟨base, n, hbase, rfl⟩ := h
  have hne : base ≠ [] := by cases hbase <;> simp
  unfold candidate
  split_ifs
  · exact hne
  · simp

theorem PlanSpec.ne_nil {circuit : CircuitJson} {nodeMap : Map Text Text} {st : PlanState}
    {done : List (Text × NetRoles)} {rail : Bool} {A D : List Text}
    (h : PlanSpec circuit nodeMap st done rail A D) {d : Text} (hd : d ∈ A ∨ d ∈ D) : d ≠ [] :=
  (h.names.twin d (h.parted.mem_iff.mpr (List.mem_append.mpr hd))).ne_nil

section

variable {circuit : CircuitJson} {st : PlanState} {A D : List Text} {c : Component}

/-- The node of a pin that no override moves. -/
theorem pinNode_of_not_split
    (h : PlanSpec circuit (buildNodeMap circuit.nets) st (netRoles circuit)
      (needsLowRail circuit) A D) {p : Text} (hsplit : ¬ IsSplit circuit (pinKey c.id p)) :
    pinNode c (buildNodeMap circuit.nets) st.plan p =
      (c.pins.find? (·.pinId = p)).bind fun pin => (buildNodeMap circuit.nets).get? pin.netId := by
  have hnone : st.plan.nodeOverride.get? (pinKey c.id p) = none := by
    rw [Option.eq_none_iff_forall_ne_some]
    exact fun d hd => hsplit ((override_iff h _).mp ⟨d, hd⟩)
  rw [pinNode, hnone]
  simp only [truthy_nodeMap]
  rfl

/-- An overridden pin is on an event twin. -/
theorem pinNode_of_split
    (h : PlanSpec circuit (buildNodeMap circuit.nets) st (netRoles circuit)
      (needsLowRail circuit) A D) {p : Text} (hsplit : IsSplit circuit (pinKey c.id p)) :
    ∃ d ∈ D, pinNode c (buildNodeMap circuit.nets) st.plan p = some d := by
  obtain ⟨d, hd⟩ := (override_iff h _).mpr hsplit
  have hmem := h.override_mem _ _ hd
  refine ⟨d, hmem, ?_⟩
  rw [pinNode, truthy_eq_some.mpr ⟨hd, h.ne_nil (Or.inr hmem)⟩]
  rfl

/-- A missing `set` or `rst` of a sequential device asks for the low rail. -/
theorem needsLowRail_of_open (hc : c ∈ circuit.components) (hseq : c.type.isSequential = true)
    {p : Text} (hp : p = "set".toList ∨ p = "rst".toList)
    (hopen : c.pins.find? (·.pinId = p) = none) : needsLowRail circuit = true := by
  have hany : c.pins.any (·.pinId = p) = false := by
    rw [List.any_eq_false]
    exact fun pin hpin => by simpa using List.find?_eq_none.mp hopen pin hpin
  refine List.any_eq_true.mpr ⟨c, hc, ?_⟩
  rcases hp with rfl | rfl
  · simp only [hseq, hany, Bool.not_false, Bool.true_or, Bool.and_true]
  · simp only [hseq, hany, Bool.not_false, Bool.or_true, Bool.and_true]

theorem isSequential_of_tied {p : Text} (hp : p ∈ portPins c)
    (htied : p = "set".toList ∨ p = "rst".toList) : c.type.isSequential = true := by
  unfold portPins at hp
  split_ifs at hp with hg hsingle hs
  · rcases List.mem_append.mp hp with hp | hp
    · have := isGateInput_plain (mem_gateInputPins (List.mem_of_mem_take hp)).2
      exact absurd htied (by simp only [this.1, this.2.1, or_self, not_false_eq_true])
    · rw [List.mem_singleton.mp hp] at htied
      exact absurd htied (by decide)
  · rcases List.mem_append.mp hp with hp | hp
    · have := isGateInput_plain (mem_gateInputPins hp).2
      exact absurd htied (by simp only [this.1, this.2.1, or_self, not_false_eq_true])
    · rw [List.mem_singleton.mp hp] at htied
      exact absurd htied (by decide)
  · exact hs
  · have hall : ∀ q ∈ ["in1", "en", "out"].map String.toList,
        ¬ (q = "set".toList ∨ q = "rst".toList) := by decide
    exact absurd htied (hall p hp)

/-- An emitted device is wired. -/
theorem isWired_of_device
    (h : PlanSpec circuit (buildNodeMap circuit.nets) st (netRoles circuit)
      (needsLowRail circuit) A D) (hdig : c.type.isDigital = true)
    (hgate : c.type.isLogicGate = true → gateInputPins c ≠ []) {ports : List Text}
    (hres : List.Forall₂ (fun p node =>
      portNode c (buildNodeMap circuit.nets) st.plan p = some node) (portPins c) ports) :
    IsWiredDigital circuit c := by
  refine ⟨hdig, hgate, fun p hp => ?_⟩
  obtain ⟨node, _, hnode⟩ := Outcome.exists_of_mem_left hres hp
  by_cases hsplit : IsSplit circuit (pinKey c.id p)
  · exact Or.inr (Or.inr (Or.inl hsplit))
  · rcases Option.or_eq_some_iff.mp hnode with hpin | ⟨_, htied⟩
    · rw [pinNode_of_not_split h hsplit] at hpin
      obtain ⟨pin, hfind, _⟩ := Option.bind_eq_some_iff.mp hpin
      exact Or.inr (Or.inr (Or.inr (by rw [hfind]; rfl)))
    · split_ifs at htied with hp
      exact hp.imp_right Or.inl

/-- A wired device is emitted. -/
theorem device_of_isWired
    (h : PlanSpec circuit (buildNodeMap circuit.nets) st (netRoles circuit)
      (needsLowRail circuit) A D) (hc : c ∈ circuit.components)
    (hmodel : ∃ model, truthy (st.plan.digitalModelName.get? c.id) = some model)
    (hwired : IsWiredDigital circuit c) {x : Option Card}
    (hx : DigitalEmission (buildNodeMap circuit.nets) st.plan c x) :
    ∃ card, x = some card ∧ List.Forall₂ (fun p node =>
      portNode c (buildNodeMap circuit.nets) st.plan p = some node) (portPins c)
        card.eventPorts := by
  cases hx with
  | unnamed hnone =>
    obtain ⟨model, hm⟩ := hmodel
    rw [hm] at hnone
    cases hnone
  | noInput hg hnil => exact absurd hnil (hwired.2.1 hg)
  | @openPort p hp hopen hfind =>
    exfalso
    have hpin := Option.or_eq_none_iff.mp hopen
    rcases hwired.2.2 p hp with hs | hs | hsplit | hsome
    · have hrail := needsLowRail_of_open hc (isSequential_of_tied hp (Or.inl hs)) (Or.inl hs) hfind
      have := h.lowRail
      rw [hrail, (if_pos (Or.inl hs)).symm.trans hpin.2] at this
      cases this
    · have hrail := needsLowRail_of_open hc (isSequential_of_tied hp (Or.inr hs)) (Or.inr hs) hfind
      have := h.lowRail
      rw [hrail, (if_pos (Or.inr hs)).symm.trans hpin.2] at this
      cases this
    · obtain ⟨d, _, hd⟩ := pinNode_of_split (c := c) h hsplit
      rw [hd] at hpin
      cases hpin.1
    · rw [hfind] at hsome
      cases hsome
  | device hm hg hres hports _ _ => exact ⟨_, rfl, hports ▸ hres⟩

/-- What puts a node on an event port. -/
theorem exists_eventPort_iff
    (h : PlanSpec circuit (buildNodeMap circuit.nets) st (netRoles circuit)
      (needsLowRail circuit) A D) {options : NetlistOptions}
    (hplan : deckPlan circuit options = st.plan)
    (hmodels : ∀ c ∈ circuit.components, c.type.isDigital = true →
      ∃ model, truthy (st.plan.digitalModelName.get? c.id) = some model)
    {owners : Map Text Text} {e : Emission}
    (hloop : LoopSpec (emitContext circuit options) owners circuit.components e) (t : Text) :
    (∃ card ∈ e.cards ++ (deckPlan circuit options).deviceLines, t ∈ card.eventPorts) ↔
      t ∈ D ∨ (∃ g, (buildNodeMap circuit.nets).get? g = some t ∧ ¬ HasAnalogPin circuit g ∧
        HasDigitalSource circuit g) ∨
      ∃ c ∈ circuit.components, IsWiredDigital circuit c ∧ ∃ p ∈ portPins c,
        ∃ pin, c.pins.find? (·.pinId = p) = some pin ∧
          (buildNodeMap circuit.nets).get? pin.netId = some t ∧
          ¬ IsSplit circuit (pinKey c.id p) := by
  have hsynth : (∃ card ∈ (deckPlan circuit options).deviceLines, t ∈ card.eventPorts) ↔
      t ∈ D ∨ ∃ g, (buildNodeMap circuit.nets).get? g = some t ∧ ¬ HasAnalogPin circuit g ∧
        HasDigitalSource circuit g := by
    rw [hplan, h.event, eventSide_of_mem]
    simp only [truthy_nodeMap]
  constructor
  · rintro ⟨card, hcard, ht⟩
    rcases List.mem_append.mp hcard with hcard | hcard
    · rw [hloop.cards] at hcard
      obtain ⟨c, hc, hcard⟩ := List.mem_flatMap.mp hcard
      cases hdig : c.type.isDigital
      · have := ((cardsOf_emission (hloop.emits c hc) hdig).terminals card hcard).1
        rw [this] at ht
        simp at ht
      · obtain ⟨x, hx, hcards⟩ := cardsOf_digital (hloop.emits c hc) hdig
        rw [hcards] at hcard
        rw [show (emitContext circuit options).plan = st.plan from hplan] at hx
        cases hx with
        | device hm hg hres hports _ _ =>
          have hwired := isWired_of_device h hdig hg hres
          rw [Option.toList_some, List.mem_singleton] at hcard
          rw [hcard, hports] at ht
          obtain ⟨p, hp, hnode⟩ := Outcome.exists_of_mem_right hres ht
          rcases Option.or_eq_some_iff.mp hnode with hpin | ⟨_, htied⟩
          · by_cases hsplit : IsSplit circuit (pinKey c.id p)
            · obtain ⟨d, hd, hpin'⟩ := pinNode_of_split (c := c) h hsplit
              rw [show pinNode c (buildNodeMap circuit.nets) st.plan p = some t from hpin,
                Option.some.injEq] at hpin'
              exact Or.inl (hpin' ▸ hd)
            · have hpin' := hpin
              rw [show (emitContext circuit options).nodeMap = buildNodeMap circuit.nets from rfl,
                pinNode_of_not_split h hsplit] at hpin'
              obtain ⟨pin, hfind, hnode⟩ := Option.bind_eq_some_iff.mp hpin'
              exact Or.inr (Or.inr ⟨c, hc, hwired, p, hp, pin, hfind, hnode, hsplit⟩)
          · split_ifs at htied
            exact Or.inl (h.lowRail_mem t htied)
        | _ => simp at hcard
    · exact (hsynth.mp ⟨card, hcard, ht⟩).imp_right Or.inl
  · rintro (ht | ht | ⟨c, hc, hwired, p, hp, pin, hfind, hnode, hsplit⟩)
    · obtain ⟨card, hcard, ht⟩ := hsynth.mpr (Or.inl ht)
      exact ⟨card, List.mem_append_right _ hcard, ht⟩
    · obtain ⟨card, hcard, ht⟩ := hsynth.mpr (Or.inr ht)
      exact ⟨card, List.mem_append_right _ hcard, ht⟩
    · obtain ⟨x, hx, hcards⟩ := cardsOf_digital (hloop.emits c hc) hwired.1
      rw [show (emitContext circuit options).plan = st.plan from hplan] at hx
      obtain ⟨card, rfl, hres⟩ := device_of_isWired h hc (hmodels c hc hwired.1) hwired hx
      refine ⟨card, List.mem_append_left _ ?_, ?_⟩
      · rw [hloop.cards]
        exact List.mem_flatMap.mpr ⟨c, hc, by rw [hcards]; simp⟩
      · obtain ⟨node, hmem, hport⟩ := Outcome.exists_of_mem_left hres hp
        have hpin : pinNode c (buildNodeMap circuit.nets) st.plan p = some t := by
          rw [pinNode_of_not_split h hsplit, hfind]
          exact hnode
        rw [portNode, hpin, Option.some_or, Option.some.injEq] at hport
        exact hport ▸ hmem

/-! ## Analog terminals -/

omit [Runtime] in
theorem mem_of_mem_filterMap_find? {pins : List PinConnection} {pinIds : List Text}
    {pin : PinConnection} (h : pin ∈ pinIds.filterMap fun p => pins.find? (·.pinId = p)) :
    pin ∈ pins := by
  obtain ⟨p, _, hfind⟩ := List.mem_filterMap.mp h
  exact List.mem_of_find?_eq_some hfind

theorem mem_of_mem_wiredPins {modelMap : Map Text ModelDef} {pin : PinConnection}
    (h : pin ∈ wiredPins modelMap c) : pin ∈ c.pins := by
  unfold wiredPins pinsInOrder at h
  split at h
  · exact h
  · exact h
  · exact h
  · split at h
    · exact mem_of_mem_filterMap_find? h
    · exact h
  · exact mem_of_mem_filterMap_find? h

/-- Whether a device is emitted does not depend on the names in its expression. -/
theorem isSome_deviceSpec (exprNodeMap : Map Text Text) (c : Component) :
    (deviceSpec exprNodeMap c).isSome = (deviceSpec [] c).isSome := by
  unfold deviceSpec
  cases c.type <;> simp only [Option.isSome_map]

theorem type_of_deviceSpec {exprNodeMap : Map Text Text}
    (h : (deviceSpec exprNodeMap c).isSome = true) :
    c.type.isDigital = false ∧ isCounted c.type = true ∧ c.type ≠ .transformer := by
  unfold deviceSpec at h
  split at h <;> simp_all [ComponentType.isDigital, ComponentType.isLogicGate,
    ComponentType.isSequential, isCounted]

omit [Runtime] in
theorem transformerCards_zero (designator pp pn sp sn : Text) (tp : TransformerParams) :
    ∃ card ∈ transformerCards designator pp pn sp sn tp, "0".toList ∈ card.analogTerminals := by
  unfold transformerCards
  dsimp only
  by_cases hpp : pp = "0".toList
  · refine ⟨_, List.mem_append_left _ (List.mem_append_left _ List.mem_cons_self), ?_⟩
    rw [hpp]
    exact List.mem_cons_self
  · by_cases hpn : pn = "0".toList
    · refine ⟨_, List.mem_append_left _ (List.mem_append_left _
        (List.mem_cons_of_mem _ List.mem_cons_self)), ?_⟩
      rw [hpn]
      exact List.mem_cons_of_mem _ List.mem_cons_self
    · rw [if_pos ⟨hpp, hpn⟩]
      refine ⟨_, List.mem_append_left _ (List.mem_append_right _ List.mem_cons_self), ?_⟩
      exact List.mem_cons_of_mem _ List.mem_cons_self

/-- What an analog terminal can be. -/
theorem analogTerminal_cases
    (h : PlanSpec circuit (buildNodeMap circuit.nets) st (netRoles circuit)
      (needsLowRail circuit) A D) {options : NetlistOptions}
    (hplan : deckPlan circuit options = st.plan)
    {owners : Map Text Text} {e : Emission}
    (hloop : LoopSpec (emitContext circuit options) owners circuit.components e) {t : Text}
    {card : Card} (hcard : card ∈ e.cards ++ (deckPlan circuit options).deviceLines)
    (ht : t ∈ card.analogTerminals) :
    t = "0".toList ∨ t ∈ A ∨ t ∈ midNodes circuit options ∨
      ∃ g, (buildNodeMap circuit.nets).get? g = some t ∧ HasAnalogPin circuit g := by
  rcases List.mem_append.mp hcard with hcard | hcard
  · rw [hloop.cards] at hcard
    obtain ⟨c, hc, hcard⟩ := List.mem_flatMap.mp hcard
    cases hdig : c.type.isDigital
    · have hemission := cardsOf_emission (hloop.emits c hc) hdig
      rcases (hemission.terminals card hcard).2 t ht with ⟨pin, hpin, hnode⟩ | ⟨hty, hzero | hmid⟩
      · refine Or.inr (Or.inr (Or.inr ⟨pin.netId, ?_, c, hc, ?_, hdig, pin,
          mem_of_mem_wiredPins hpin, rfl⟩))
        · exact (truthy_eq_some.mp hnode).1
        · generalize cardsOf (emitContext circuit options) c = cards at hemission hcard
          cases hemission with
          | skipped _ _ => simp at hcard
          | element _ hspec _ => exact (type_of_deviceSpec (by rw [hspec]; rfl)).2.1
          | transformer hty _ _ => rw [hty]; rfl
      · exact Or.inl hzero
      · refine Or.inr (Or.inr (Or.inl (List.mem_flatMap.mpr ⟨c, hc, ?_⟩)))
        rw [midsOf, if_pos ⟨hty, List.ne_nil_of_mem hcard⟩]
        simpa using hmid
    · obtain ⟨x, hx, hcards⟩ := cardsOf_digital (hloop.emits c hc) hdig
      rw [hcards] at hcard
      cases hx with
      | device _ _ _ _ hterms _ =>
        rw [Option.toList_some, List.mem_singleton] at hcard
        rw [hcard, hterms] at ht
        simp at ht
      | _ => simp at hcard
  · rw [hplan] at hcard
    rcases (h.analog t).mp ⟨card, hcard, ht⟩ with hA | hside | hrail
    · exact Or.inr (Or.inl hA)
    · obtain ⟨g, hnode, han, _⟩ := analogSide_of_mem.mp hside
      exact Or.inr (Or.inr (Or.inr ⟨g, (truthy_eq_some.mp hnode).1, han⟩))
    · exact Or.inl hrail.2

theorem PlanSpec.zero_notMem
    (h : PlanSpec circuit (buildNodeMap circuit.nets) st (netRoles circuit)
      (needsLowRail circuit) A D) : "0".toList ∉ A ∧ "0".toList ∉ D := by
  have hnot : ∀ s ∈ st.synthesized, s ≠ "0".toList := fun s hs e =>
    (h.names.twin s hs).lower.2 (e ▸ lower_zero)
  exact ⟨fun hm => hnot _ (h.parted.mem_iff.mpr (List.mem_append_left _ hm)) rfl,
    fun hm => hnot _ (h.parted.mem_iff.mpr (List.mem_append_right _ hm)) rfl⟩

theorem deckPlan_of_analog {circuit : CircuitJson} (options : NetlistOptions)
    (hanalog : ∀ c ∈ circuit.components, c.type.isDigital = false) :
    deckPlan circuit options = {} := by
  rw [deckPlan, planMixedSignal, if_neg (by simpa using hanalog)]

/-- What puts node 0 on a terminal of a synthesized device. -/
theorem exists_synthZero_iff (circuit : CircuitJson) (options : NetlistOptions) :
    (∃ card ∈ (deckPlan circuit options).deviceLines, "0".toList ∈ card.analogTerminals) ↔
      needsLowRail circuit = true ∨
        ∃ g, IsGroundNet circuit.nets g ∧ HasAnalogPin circuit g ∧ HasDigitalPin circuit g := by
  by_cases hdig : ∃ c ∈ circuit.components, c.type.isDigital = true
  · obtain ⟨st, A, D, h, hplan, _⟩ := deckPlan_of_digital circuit options hdig
    rw [hplan, h.analog, analogSide_of_mem]
    simp only [truthy_nodeMap, h.zero_notMem.1, false_or, and_true, IsGroundNet]
    exact or_comm
  · have hanalog : ∀ c ∈ circuit.components, c.type.isDigital = false := fun c hc => by
      simpa using fun hd => hdig ⟨c, hc, hd⟩
    rw [deckPlan_of_analog options hanalog]
    refine iff_of_false (by simp) ?_
    rintro (hrail | ⟨g, _, _, c, hc, hd, _⟩)
    · obtain ⟨c, hc, hseq⟩ := List.any_eq_true.mp hrail
      have hd : c.type.isDigital = true := by
        rw [Bool.and_eq_true] at hseq
        simp [ComponentType.isDigital, hseq.1]
      exact hdig ⟨c, hc, hd⟩
    · exact hdig ⟨c, hc, hd⟩

/-- What puts node 0 on an analog terminal. -/
theorem exists_analogZero_iff {options : NetlistOptions} {owners : Map Text Text} {e : Emission}
    (hloop : LoopSpec (emitContext circuit options) owners circuit.components e) :
    (∃ card ∈ e.cards ++ (deckPlan circuit options).deviceLines,
      "0".toList ∈ card.analogTerminals) ↔ AnalogAtGround circuit := by
  have hsynth := exists_synthZero_iff circuit options
  have hemission : ∀ c ∈ circuit.components, c.type.isDigital = false →
      AnalogEmission (buildNodeMap circuit.nets) (modelMapOf (deckModels circuit))
        (emitContext circuit options).exprNodeMap c (cardsOf (emitContext circuit options) c) :=
    fun c hc hdig => cardsOf_emission (hloop.emits c hc) hdig
  have hlift : ∀ c ∈ circuit.components,
      (∃ card ∈ cardsOf (emitContext circuit options) c, "0".toList ∈ card.analogTerminals) →
      ∃ card ∈ e.cards ++ (deckPlan circuit options).deviceLines,
        "0".toList ∈ card.analogTerminals := by
    rintro c hc ⟨card, hcard, ht⟩
    refine ⟨card, List.mem_append_left _ ?_, ht⟩
    rw [hloop.cards]
    exact List.mem_flatMap.mpr ⟨c, hc, hcard⟩
  constructor
  · rintro ⟨card, hcard, ht⟩
    rcases List.mem_append.mp hcard with hcard | hcard
    · rw [hloop.cards] at hcard
      obtain ⟨c, hc, hcard⟩ := List.mem_flatMap.mp hcard
      cases hdig : c.type.isDigital
      · have hem := hemission c hc hdig
        generalize cardsOf (emitContext circuit options) c = cards at hem hcard
        cases hem with
        | skipped _ _ => simp at hcard
        | element _ hspec hres =>
          rw [List.mem_singleton.mp hcard] at ht
          obtain ⟨pin, hpin, hnode⟩ := (hres.mem _).mp ht
          refine Or.inr (Or.inr (Or.inl ⟨c, hc, ?_, pin, hpin, (truthy_eq_some.mp hnode).1⟩))
          rw [← isSome_deviceSpec (emitContext circuit options).exprNodeMap, hspec]
          rfl
        | transformer hty hp _ =>
          exact Or.inr (Or.inr (Or.inr ⟨c, hc, hty, by rw [hp]; rfl⟩))
      · obtain ⟨x, hx, hcards⟩ := cardsOf_digital (hloop.emits c hc) hdig
        rw [hcards] at hcard
        cases hx with
        | device _ _ _ _ hterms _ =>
          rw [Option.toList_some, List.mem_singleton] at hcard
          rw [hcard, hterms] at ht
          simp at ht
        | _ => simp at hcard
    · rcases hsynth.mp ⟨card, hcard, ht⟩ with hr | hm
      · exact Or.inl hr
      · exact Or.inr (Or.inl hm)
  · rintro (hrail | hmixed | ⟨c, hc, hspec, pin, hpin, hnode⟩ | ⟨c, hc, hty, hp⟩)
    · obtain ⟨card, hcard, ht⟩ := hsynth.mpr (Or.inl hrail)
      exact ⟨card, List.mem_append_right _ hcard, ht⟩
    · obtain ⟨card, hcard, ht⟩ := hsynth.mpr (Or.inr hmixed)
      exact ⟨card, List.mem_append_right _ hcard, ht⟩
    · refine hlift c hc ?_
      obtain ⟨hdig, _, htr⟩ := type_of_deviceSpec hspec
      have hem := hemission c hc hdig
      rw [← isSome_deviceSpec (emitContext circuit options).exprNodeMap] at hspec
      generalize cardsOf (emitContext circuit options) c = cards at hem
      cases hem with
      | skipped hnone _ => rw [hnone] at hspec; cases hspec
      | element _ _ hres =>
        refine ⟨_, List.mem_singleton.mpr rfl, (hres.mem _).mpr ⟨pin, hpin, ?_⟩⟩
        rw [truthy_nodeMap]
        exact hnode
      | transformer hty _ _ => exact absurd hty htr
    · refine hlift c hc ?_
      have hem := hemission c hc (by rw [hty]; rfl)
      generalize cardsOf (emitContext circuit options) c = cards at hem
      cases hem with
      | skipped _ hnone => rw [hnone hty] at hp; cases hp
      | element hpre _ _ =>
        rw [hty] at hpre
        simp [ComponentType.spicePrefix] at hpre
      | transformer _ _ _ => exact transformerCards_zero _ _ _ _ _ _

/-! ## Shared names -/

theorem eq_zero_of_lower {nets : List Net} {g node : Text}
    (hg : (buildNodeMap nets).get? g = some node) (hlow : Runtime.lower node = "0".toList) :
    node = "0".toList := by
  by_contra hne
  obtain ⟨net, _, _, hnode⟩ := mem_nodeMap (Map.mem_of_get? hg)
  rw [show node = nodeOfNet net from hnode] at hne hlow
  exact (lower_nodeOfNet hne).ne_zero hlow

/-- A net's node names one net, unless it is node 0. -/
theorem nodeMap_injective {circuit : CircuitJson}
    (hnodup : ((checkedNodes circuit).map Runtime.lower).Nodup) {g g' a b : Text}
    (hg : (buildNodeMap circuit.nets).get? g = some a)
    (hg' : (buildNodeMap circuit.nets).get? g' = some b) (hzero : a ≠ "0".toList)
    (hlow : Runtime.lower a = Runtime.lower b) : g = g' := by
  have hb : b ≠ "0".toList := by
    rintro rfl
    exact hzero (eq_zero_of_lower hg (hlow.trans lower_zero))
  rw [checkedNodes, List.filter_map, List.map_map] at hnodup
  have hmem : ∀ {k v}, (buildNodeMap circuit.nets).get? k = some v → v ≠ "0".toList →
      (k, v) ∈ (buildNodeMap circuit.nets).filter ((fun s => decide (s ≠ "0".toList)) ∘ Prod.snd) :=
    fun hk hv => List.mem_filter.mpr ⟨Map.mem_of_get? hk, by simpa using hv⟩
  have := List.inj_on_of_nodup_map hnodup (hmem hg hzero) (hmem hg' hb)
  simpa using congrArg Prod.fst (this hlow)

/-- Outside node 0 the domains do not meet. -/
theorem shared_zero
    (h : PlanSpec circuit (buildNodeMap circuit.nets) st (netRoles circuit)
      (needsLowRail circuit) A D) {options : NetlistOptions}
    (hplan : deckPlan circuit options = st.plan)
    (hmodels : ∀ c ∈ circuit.components, c.type.isDigital = true →
      ∃ model, truthy (st.plan.digitalModelName.get? c.id) = some model)
    {analysis : AnalysisConfig} {parts : DeckParts}
    (run : DeckRun circuit analysis options parts) {a b : Text}
    (ha : ∃ card ∈ parts.loop.cards ++ (deckPlan circuit options).deviceLines,
      a ∈ card.analogTerminals)
    (hb : ∃ card ∈ parts.loop.cards ++ (deckPlan circuit options).deviceLines,
      b ∈ card.eventPorts)
    (hlow : Runtime.lower a = Runtime.lower b) : a = "0".toList ∧ b = "0".toList := by
  have hloop := emitLoop_spec run.emitted
  have hnets := nodup_checkedNodes_midNodes run
  rw [List.map_append] at hnets
  -- a twin shares its name with no net, no midpoint and no other twin
  have htwins : ((A ++ D).map Runtime.lower).Nodup :=
    ((h.parted.map Runtime.lower).nodup_iff).mp h.names.fresh
  rw [List.map_append, List.nodup_append] at htwins
  have hsynth : ∀ {s}, s ∈ A ∨ s ∈ D → s ∈ st.synthesized := fun hs =>
    h.parted.mem_iff.mpr (List.mem_append.mpr hs)
  have hapart : ∀ {s}, s ∈ A ∨ s ∈ D → ∀ {g t}, (buildNodeMap circuit.nets).get? g = some t →
      Runtime.lower s ≠ Runtime.lower t := fun hs g t ht e =>
    h.names.apart _ (hsynth hs) (h.netNodes ▸ e ▸ List.mem_map_of_mem
      (List.mem_map_of_mem (f := Prod.snd) (Map.mem_of_get? ht)))
  have hword : ∀ {s}, s ∈ A ∨ s ∈ D → lastWord (Runtime.lower s) ∉ midWords ∧
      Runtime.lower s ≠ "0".toList := fun hs => (h.names.twin _ (hsynth hs)).lower
  -- a net with an event port has no analog pin
  have hevent : b ∈ D ∨ ∃ g, (buildNodeMap circuit.nets).get? g = some b ∧
      ¬ HasAnalogPin circuit g := by
    rcases (exists_eventPort_iff h hplan hmodels hloop b).mp hb with
      hD | ⟨g, hg, han, _⟩ | ⟨c, hc, hwired, p, hp, pin, hfind, hg, hsplit⟩
    · exact Or.inl hD
    · exact Or.inr ⟨g, hg, han⟩
    · refine Or.inr ⟨pin.netId, hg, fun han => hsplit ⟨pin.netId, han, by rw [hg]; rfl, ?_⟩⟩
      have hid : pin.pinId = p := by simpa using List.find?_some hfind
      refine List.mem_flatMap.mpr ⟨c, List.mem_filter.mpr ⟨hc, hwired.1⟩, List.mem_map.mpr
        ⟨pin, List.mem_filter.mpr ⟨List.mem_of_find?_eq_some hfind, by simp⟩, by rw [hid]⟩⟩
  obtain ⟨card, hcard, ha⟩ := ha
  rcases analogTerminal_cases h hplan hloop hcard ha with rfl | hA | hmid | ⟨g, hg, han⟩
  · rw [lower_zero] at hlow
    refine ⟨rfl, ?_⟩
    rcases hevent with hD | ⟨g, hg, _⟩
    · exact absurd hlow.symm (hword (Or.inr hD)).2
    · exact eq_zero_of_lower hg hlow.symm
  · rcases hevent with hD | ⟨g, hg, _⟩
    · exact absurd hlow (htwins.2.2 _ (List.mem_map_of_mem hA) _ (List.mem_map_of_mem hD))
    · exact absurd hlow (hapart (Or.inl hA) hg)
  · rcases hevent with hD | ⟨g, hg, _⟩
    · exact absurd (hlow ▸ (mem_midNodes hmid).lower.lastWord_mem) (hword (Or.inr hD)).1
    · by_cases hb0 : b = "0".toList
      · rw [hb0, lower_zero] at hlow
        exact absurd hlow (mem_midNodes hmid).lower.ne_zero
      · have hchecked : b ∈ checkedNodes circuit := List.mem_filter.mpr
          ⟨List.mem_map.mpr ⟨_, Map.mem_of_get? hg, rfl⟩, by simpa using hb0⟩
        exact absurd hlow.symm ((List.nodup_append.mp hnets).2.2 _
          (List.mem_map_of_mem hchecked) _ (List.mem_map_of_mem hmid))
  · rcases hevent with hD | ⟨g', hg', han'⟩
    · exact absurd hlow.symm (hapart (Or.inr hD) hg)
    · by_cases ha0 : a = "0".toList
      · refine ⟨ha0, ?_⟩
        rw [ha0, lower_zero] at hlow
        exact eq_zero_of_lower hg' hlow.symm
      · have := nodeMap_injective (List.nodup_append.mp hnets).1 hg hg' ha0 hlow
        exact absurd (this ▸ han) han'

end

/-- Without digital devices there are no event ports. -/
theorem eventPorts_of_analog {circuit : CircuitJson} {options : NetlistOptions}
    (hanalog : ∀ c ∈ circuit.components, c.type.isDigital = false) {owners : Map Text Text}
    {e : Emission}
    (hloop : LoopSpec (emitContext circuit options) owners circuit.components e) {card : Card}
    (hcard : card ∈ e.cards ++ (deckPlan circuit options).deviceLines) : card.eventPorts = [] := by
  rcases List.mem_append.mp hcard with hcard | hcard
  · rw [hloop.cards] at hcard
    obtain ⟨c, hc, hcard⟩ := List.mem_flatMap.mp hcard
    exact ((cardsOf_emission (hloop.emits c hc) (hanalog c hc)).terminals card hcard).1
  · rw [deckPlan_of_analog options hanalog] at hcard
    simp at hcard

theorem isDigital_of_eventAtGround {circuit : CircuitJson} (h : EventAtGround circuit) :
    ∃ c ∈ circuit.components, c.type.isDigital = true := by
  rcases h with ⟨g, _, _, c, hc, pin, _, _, hrole⟩ | ⟨c, hc, hwired, _⟩
  · exact ⟨c, hc, isDigital_of_role hrole⟩
  · exact ⟨c, hc, hwired.1⟩

/-- What puts node 0 on an event port. -/
theorem exists_eventZero_iff {circuit : CircuitJson} {options : NetlistOptions}
    {owners : Map Text Text} {e : Emission}
    (hloop : LoopSpec (emitContext circuit options) owners circuit.components e) :
    (∃ card ∈ e.cards ++ (deckPlan circuit options).deviceLines,
      "0".toList ∈ card.eventPorts) ↔ EventAtGround circuit := by
  by_cases hdig : ∃ c ∈ circuit.components, c.type.isDigital = true
  · obtain ⟨st, A, D, hspec, hplan, hmodels⟩ := deckPlan_of_digital circuit options hdig
    exact (exists_eventPort_iff hspec hplan hmodels hloop "0".toList).trans
      (or_iff_right hspec.zero_notMem.2)
  · refine iff_of_false ?_ fun h => hdig (isDigital_of_eventAtGround h)
    rintro ⟨card, hcard, hzero⟩
    rw [eventPorts_of_analog (fun c hc => by simpa using fun hd => hdig ⟨c, hc, hd⟩) hloop
      hcard] at hzero
    simp at hzero

/-- The domains are apart exactly when node 0 is not in both. -/
theorem domains_apart_iff {now : Timestamp} {circuit : CircuitJson} {analysis : AnalysisConfig}
    {options : NetlistOptions} {d : Deck}
    (h : generateDeck now circuit analysis options = .ok d) :
    DomainsApart d ↔ ¬ (EventAtGround circuit ∧ AnalogAtGround circuit) := by
  obtain ⟨parts, ⟨run⟩, rfl⟩ := generateDeck_ok h
  have hloop := emitLoop_spec run.emitted
  have hev := exists_eventZero_iff hloop
  have han := exists_analogZero_iff hloop
  constructor
  · rintro hapart ⟨he, ha⟩
    obtain ⟨card, hcard, ha⟩ := han.mpr ha
    obtain ⟨card', hcard', he⟩ := hev.mpr he
    exact hapart card hcard card' hcard' _ ha _ he rfl
  · intro hnot card hcard card' hcard' a ha b hb hlow
    by_cases hdig : ∃ c ∈ circuit.components, c.type.isDigital = true
    · obtain ⟨st, A, D, hspec, hplan, hmodels⟩ := deckPlan_of_digital circuit options hdig
      obtain ⟨rfl, rfl⟩ := shared_zero hspec hplan hmodels run ⟨card, hcard, ha⟩
        ⟨card', hcard', hb⟩ hlow
      exact hnot ⟨hev.mp ⟨card', hcard', hb⟩, han.mp ⟨card, hcard, ha⟩⟩
    · rw [eventPorts_of_analog (fun c hc => by simpa using fun hd => hdig ⟨c, hc, hd⟩) hloop
        hcard'] at hb
      simp at hb

end

/-- A gate between two ground nets: its input is on a ground net of its own. -/
def twoGrounds : CircuitJson where
  nets := [⟨"agnd".toList, [], true, false⟩, ⟨"dgnd".toList, [], true, false⟩,
    ⟨"in".toList, [], false, false⟩, ⟨"out".toList, [], false, false⟩]
  components := [
    { id := ['1'], type := .voltageSource, designator := "V1".toList
      pins := [⟨"+".toList, "in".toList⟩, ⟨"-".toList, "agnd".toList⟩] },
    { id := ['2'], type := .logicAnd, designator := "U1".toList
      pins := [⟨"in1".toList, "in".toList⟩, ⟨"in2".toList, "dgnd".toList⟩,
        ⟨"out".toList, "out".toList⟩] }]

theorem domains_meet_twoGrounds :
    ∃ d, generateDeck epoch twoGrounds (.op {}) = .ok d ∧ ¬ DomainsApart d := by
  obtain ⟨d, hd, hmeet⟩ := Outcome.exists_ok (x := generateDeck epoch twoGrounds (.op {}))
    (p := fun d => !decide (DomainsApart d)) (by decide +kernel)
  exact ⟨d, hd, by simpa using hmeet⟩

theorem domains_apart_iff_splitBoard :
    ∃ d, generateDeck epoch splitBoard (.op {}) = .ok d ∧
      (DomainsApart d ↔ ¬ (EventAtGround splitBoard ∧ AnalogAtGround splitBoard)) := by
  obtain ⟨d, hd, _⟩ := Outcome.exists_ok (x := generateDeck epoch splitBoard (.op {}))
    (p := fun _ => true) (by decide +kernel)
  exact ⟨d, hd, domains_apart_iff hd⟩

end CircuitForge
