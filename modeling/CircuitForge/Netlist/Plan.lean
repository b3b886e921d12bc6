/-
What the mixed-signal plan comes to.

`PlanSpec` says of the planner's state, after the nets `done`, which nodes it has
synthesized for the analog and which for the event domain, which terminals its
bridges have and which pins it has moved.  One lemma for each thing the planner
does keeps it, and `planState_spec` is the run.
-/
import CircuitForge.Netlist.Names
import CircuitForge.Netlist.Roles

namespace CircuitForge

open Js

variable [Runtime]

omit [Runtime] in
theorem exists_mem_concat {α : Type} {p : α → Prop} {l : List α} {a : α} :
    (∃ x ∈ l ++ [a], p x) ↔ (∃ x ∈ l, p x) ∨ p a := by
  simp [List.mem_append, or_and_right, exists_or]

/-! ## Names the planner makes -/

/-- What a synthesized node is a candidate of. -/
inductive TwinBase (nodes : List Text) : Text → Prop
  | digital {node : Text} : node ∈ nodes → TwinBase nodes (node ++ "_d".toList)
  | probe {node : Text} : node ∈ nodes → TwinBase nodes (node ++ "_p".toList)
  | railAnalog : TwinBase nodes "dlogic_lo_a".toList
  | railDigital : TwinBase nodes "dlogic_lo".toList

def IsTwin (nodes : List Text) (s : Text) : Prop := ∃ base n, TwinBase nodes base ∧ s = candidate base n

/-! ## What a net contributes -/

/-- The node a pure-digital net brings to the event side of its bridge. -/
def eventSide (nodeMap : Map Text Text) (e : Text × NetRoles) : Option Text :=
  if 0 < e.2.digitalSource ∧ e.2.analog = 0 then truthy (nodeMap.get? e.1) else none

/-- The node a mixed net brings to the analog side of its bridge. -/
def analogSide (nodeMap : Map Text Text) (e : Text × NetRoles) : Option Text :=
  if 0 < e.2.digitalSource + e.2.digitalSink ∧ 0 < e.2.analog then truthy (nodeMap.get? e.1)
  else none

/-- The synthesized nodes are distinct from each other and from the nodes of the
nets, as ngspice compares names. -/
structure NamesOk (st : PlanState) : Prop where
  fresh : (st.synthesized.map Runtime.lower).Nodup
  apart : ∀ s ∈ st.synthesized, Runtime.lower s ∉ st.netNodes.map Runtime.lower
  twin : ∀ s ∈ st.synthesized, IsTwin st.netNodes s

theorem NamesOk.useNode {st : PlanState} (h : NamesOk st) {base : Text}
    (hb : TwinBase st.netNodes base) : NamesOk (st.useNode (st.freshNode base)) := by
  have hnew : Runtime.lower (st.freshNode base) ∉ st.usedNodes := uniqueName_fresh _ _
  rw [PlanState.usedNodes, List.map_append, List.mem_append, not_or] at hnew
  refine ⟨?_, ?_, ?_⟩
  · rw [PlanState.useNode, List.map_append, List.nodup_append]
    refine ⟨h.fresh, by simp, fun a ha b hb => ?_⟩
    rw [List.map_singleton, List.mem_singleton] at hb
    exact fun e => hnew.2 (hb ▸ e ▸ ha)
  · refine List.forall_mem_append.mpr ⟨h.apart, fun s hs => ?_⟩
    rw [List.mem_singleton.mp hs]
    exact hnew.1
  · refine List.forall_mem_append.mpr ⟨h.twin, fun s hs => ?_⟩
    obtain ⟨n, hn⟩ := uniqueName_eq st.usedNodes base
    exact ⟨base, n, hb, (List.mem_singleton.mp hs).trans hn⟩

/-- The planner's state after the nets `done`, with the synthesized nodes parted
into `A` for the analog and `D` for the event domain. -/
structure PlanSpec (circuit : CircuitJson) (nodeMap : Map Text Text) (st : PlanState)
    (done : List (Text × NetRoles)) (rail : Bool) (A D : List Text) : Prop where
  netNodes : st.netNodes = nodeMap.map Prod.snd
  parted : st.synthesized.Perm (A ++ D)
  names : NamesOk st
  overrides : ∀ k, (∃ d, st.plan.nodeOverride.get? k = some d) ↔
    ∃ e ∈ done, (analogSide nodeMap e).isSome ∧ k ∈ digitalPinKeys circuit e.1
  override_mem : ∀ k d, st.plan.nodeOverride.get? k = some d → d ∈ D
  probes : ∀ g d, st.plan.probeNodeForNet.get? g = some d → d ∈ A
  lowRail : st.plan.lowRailNode.isSome = rail
  lowRail_mem : ∀ d, st.plan.lowRailNode = some d → d ∈ D
  event : ∀ t, (∃ card ∈ st.plan.deviceLines, t ∈ card.eventPorts) ↔
    t ∈ D ∨ t ∈ done.filterMap (eventSide nodeMap)
  analog : ∀ t, (∃ card ∈ st.plan.deviceLines, t ∈ card.analogTerminals) ↔
    t ∈ A ∨ t ∈ done.filterMap (analogSide nodeMap) ∨ (rail = true ∧ t = "0".toList)

namespace PlanSpec

variable {circuit : CircuitJson} {nodeMap : Map Text Text} {st : PlanState}
  {done : List (Text × NetRoles)} {rail : Bool} {A D : List Text}

/-- A state that differs in the model cards, the model names and the device names
only. -/
theorem congr {st' : PlanState} (h : PlanSpec circuit nodeMap st done rail A D)
    (hn : st'.netNodes = st.netNodes) (hs : st'.synthesized = st.synthesized)
    (ho : st'.plan.nodeOverride = st.plan.nodeOverride)
    (hp : st'.plan.probeNodeForNet = st.plan.probeNodeForNet)
    (hl : st'.plan.lowRailNode = st.plan.lowRailNode)
    (hd : st'.plan.deviceLines = st.plan.deviceLines) :
    PlanSpec circuit nodeMap st' done rail A D where
  netNodes := by rw [hn, h.netNodes]
  parted := by rw [hs]; exact h.parted
  names := ⟨by rw [hs]; exact h.names.fresh, by rw [hs, hn]; exact h.names.apart,
    by rw [hs, hn]; exact h.names.twin⟩
  overrides := by rw [ho]; exact h.overrides
  override_mem := by rw [ho]; exact h.override_mem
  probes := by rw [hp]; exact h.probes
  lowRail := by rw [hl]; exact h.lowRail
  lowRail_mem := by rw [hl]; exact h.lowRail_mem
  event := by rw [hd]; exact h.event
  analog := by rw [hd]; exact h.analog

/-- A net without digital pins, or without a node, is passed over. -/
theorem skip (h : PlanSpec circuit nodeMap st done rail A D) {e : Text × NetRoles}
    (hev : eventSide nodeMap e = none) (han : analogSide nodeMap e = none) :
    PlanSpec circuit nodeMap st (done ++ [e]) rail A D where
  netNodes := h.netNodes
  parted := h.parted
  names := h.names
  overrides k := by simp [h.overrides k, han]
  override_mem := h.override_mem
  probes := h.probes
  lowRail := h.lowRail
  lowRail_mem := h.lowRail_mem
  event t := by simp [h.event t, List.filterMap_append, hev]
  analog t := by simp [h.analog t, List.filterMap_append, han]

/-- A pure-digital net with a driver gets an analog twin. -/
theorem bridgeDigitalNet (h : PlanSpec circuit nodeMap st done rail A D) (vdd : Runtime.Num)
    {e : Text × NetRoles} {node : Text} (hnode : node ∈ st.netNodes)
    (hev : eventSide nodeMap e = some node) (han : analogSide nodeMap e = none)
    (hsrc : 0 < e.2.digitalSource) :
    PlanSpec circuit nodeMap (CircuitForge.bridgeDigitalNet vdd st e.1 node e.2) (done ++ [e]) rail
      (A ++ [st.freshNode (node ++ "_p".toList)]) D := by
  have hnames := h.names.useNode (TwinBase.probe hnode)
  rw [CircuitForge.bridgeDigitalNet, if_pos hsrc]
  refine ⟨h.netNodes, ?_, ⟨hnames.fresh, hnames.apart, hnames.twin⟩, fun k => ?_, h.override_mem,
    fun g d hd => ?_, h.lowRail, h.lowRail_mem, fun t => ?_, fun t => ?_⟩
  · refine (h.parted.append_right _).trans ?_
    simp only [List.append_assoc]
    exact List.perm_append_comm.append_left A
  · refine (h.overrides k).trans ?_
    simp [han]
  · rw [Map.get?_set] at hd
    split_ifs at hd
    · rw [Option.some.injEq] at hd
      exact List.mem_append_right _ (List.mem_singleton.mpr hd.symm)
    · exact List.mem_append_left _ (h.probes g d hd)
  · refine exists_mem_concat.trans ((or_congr_left (h.event t)).trans ?_)
    simp [Card.eventPorts, List.filterMap_append, hev, or_assoc]
  · refine exists_mem_concat.trans ((or_congr_left (h.analog t)).trans ?_)
    simp only [Card.analogTerminals, List.filterMap_append, List.mem_append, List.mem_singleton, han,
      List.filterMap_cons_none, List.filterMap_nil, List.not_mem_nil, or_false]
    tauto

/-- A mixed net is split: its digital pins move to an event twin. -/
theorem bridgeMixedNet (h : PlanSpec circuit nodeMap st done rail A D) (vdd : Runtime.Num)
    {e : Text × NetRoles} {node : Text} (hnode : node ∈ st.netNodes)
    (hev : eventSide nodeMap e = none) (han : analogSide nodeMap e = some node) :
    PlanSpec circuit nodeMap (CircuitForge.bridgeMixedNet circuit vdd st e.1 node e.2)
      (done ++ [e]) rail A (D ++ [st.freshNode (node ++ "_d".toList)]) := by
  have hnames := h.names.useNode (TwinBase.digital hnode)
  have hfields : ∀ (st' : PlanState) (card : Card),
      st'.netNodes = st.netNodes →
      st'.synthesized = st.synthesized ++ [st.freshNode (node ++ "_d".toList)] →
      st'.plan.nodeOverride = Map.fill id (fun _ => st.freshNode (node ++ "_d".toList))
        (digitalPinKeys circuit e.1) st.plan.nodeOverride →
      st'.plan.probeNodeForNet = st.plan.probeNodeForNet →
      st'.plan.lowRailNode = st.plan.lowRailNode →
      st'.plan.deviceLines = st.plan.deviceLines ++ [card] →
      card.eventPorts = [st.freshNode (node ++ "_d".toList)] → card.analogTerminals = [node] →
      PlanSpec circuit nodeMap st' (done ++ [e]) rail A
        (D ++ [st.freshNode (node ++ "_d".toList)]) := by
    intro st' card hn hs ho hp hl hd hports hterms
    refine ⟨hn.trans h.netNodes, ?_, ⟨?_, ?_, ?_⟩, fun k => ?_, fun k d hk => ?_, ?_, ?_,
      fun d hk => ?_, fun t => ?_, fun t => ?_⟩
    · rw [hs, ← List.append_assoc]
      exact h.parted.append_right _
    · rw [hs]
      exact hnames.fresh
    · rw [hs, hn]
      exact hnames.apart
    · rw [hs, hn]
      exact hnames.twin
    · rw [ho, exists_mem_concat, ← h.overrides k, Map.get?_fill_const]
      split_ifs with hk <;> simp [han, hk]
    · rw [ho, Map.get?_fill_const] at hk
      split_ifs at hk
      · rw [Option.some.injEq] at hk
        exact List.mem_append_right _ (List.mem_singleton.mpr hk.symm)
      · exact List.mem_append_left _ (h.override_mem k d hk)
    · rw [hp]
      exact h.probes
    · rw [hl]
      exact h.lowRail
    · rw [hl] at hk
      exact List.mem_append_left _ (h.lowRail_mem d hk)
    · rw [hd, exists_mem_concat, h.event t, hports]
      simp only [List.filterMap_append, List.mem_append, List.mem_singleton, hev,
        List.filterMap_cons_none, List.filterMap_nil, List.not_mem_nil, or_false]
      tauto
    · have hone : [e].filterMap (analogSide nodeMap) = [node] := by simp [han]
      rw [hd, exists_mem_concat, h.analog t, hterms, List.filterMap_append, hone,
        List.mem_append]
      tauto
  rw [CircuitForge.bridgeMixedNet]
  split_ifs
  · exact hfields _ _ rfl rfl rfl rfl rfl rfl rfl rfl
  · exact hfields _ _ rfl rfl rfl rfl rfl rfl rfl rfl

/-- One net. -/
theorem bridgeNet (h : PlanSpec circuit nodeMap st done rail A D) (vdd : Runtime.Num)
    (e : Text × NetRoles) :
    ∃ A' D', PlanSpec circuit nodeMap (CircuitForge.bridgeNet circuit nodeMap vdd st e)
      (done ++ [e]) rail A' D' := by
  unfold CircuitForge.bridgeNet
  by_cases hdig : e.2.digitalSource + e.2.digitalSink = 0
  · rw [if_pos hdig]
    refine ⟨A, D, h.skip ?_ ?_⟩
    · rw [eventSide, if_neg (by omega)]
    · rw [analogSide, if_neg (by omega)]
  · rw [if_neg hdig]
    cases hnode : truthy (nodeMap.get? e.1) with
    | none =>
      refine ⟨A, D, h.skip ?_ ?_⟩
      · rw [eventSide, hnode, ite_self]
      · rw [analogSide, hnode, ite_self]
    | some node =>
      have hmem : node ∈ st.netNodes := by
        rw [h.netNodes]
        exact List.mem_map.mpr ⟨_, Map.mem_of_get? (truthy_eq_some.mp hnode).1, rfl⟩
      simp only
      split_ifs with han
      · refine ⟨A, _, h.bridgeMixedNet vdd hmem ?_ ?_⟩
        · rw [eventSide, if_neg (by omega)]
        · rw [analogSide, if_pos ⟨by omega, han⟩, hnode]
      · by_cases hsrc : 0 < e.2.digitalSource
        · refine ⟨_, D, h.bridgeDigitalNet vdd hmem ?_ ?_ hsrc⟩
          · rw [eventSide, if_pos ⟨hsrc, by omega⟩, hnode]
          · rw [analogSide, if_neg fun h => han h.2]
        · rw [CircuitForge.bridgeDigitalNet, if_neg hsrc]
          refine ⟨A, D, h.skip ?_ ?_⟩
          · rw [eventSide, if_neg fun h => hsrc h.1]
          · rw [analogSide, if_neg fun h => han h.2]

/-- The constant low rail. -/
theorem addLowRail (h : PlanSpec circuit nodeMap st done false A D) (vdd : Runtime.Num) :
    ∃ A' D', PlanSpec circuit nodeMap (CircuitForge.addLowRail vdd st) done true A' D' := by
  set railAnalog := st.freshNode "dlogic_lo_a".toList with hra
  set railDigital := (st.useNode railAnalog).freshNode "dlogic_lo".toList with hrd
  have hn₁ : NamesOk (st.useNode railAnalog) := h.names.useNode TwinBase.railAnalog
  have hn₂ : NamesOk ((st.useNode railAnalog).useNode railDigital) :=
    hn₁.useNode TwinBase.railDigital
  have hlines : (CircuitForge.addLowRail vdd st).plan.deviceLines =
      st.plan.deviceLines ++ [_] ++ [_] := rfl
  refine ⟨A ++ [railAnalog], D ++ [railDigital], h.netNodes, ?_,
    ⟨hn₂.fresh, hn₂.apart, hn₂.twin⟩, h.overrides, fun k d hk => ?_, fun g d hg => ?_, rfl,
    fun d hd => ?_, fun t => ?_, fun t => ?_⟩
  · refine ((h.parted.append_right _).append_right _).trans ?_
    simp only [List.append_assoc]
    refine List.Perm.append_left A ?_
    rw [← List.append_assoc, ← List.append_assoc]
    exact List.perm_append_comm.append_right _
  · exact List.mem_append_left _ (h.override_mem k d hk)
  · exact List.mem_append_left _ (h.probes g d hg)
  · exact List.mem_append_right _ (List.mem_singleton.mpr (Option.some.inj hd).symm)
  · rw [hlines, exists_mem_concat, exists_mem_concat, h.event t]
    simp only [Card.eventPorts, List.mem_append, List.mem_singleton, List.not_mem_nil, or_false]
    tauto
  · rw [hlines, exists_mem_concat, exists_mem_concat, h.analog t]
    simp only [Card.analogTerminals, List.mem_append, List.mem_cons, List.not_mem_nil, or_false,
      Bool.false_eq_true, false_and, true_and]
    tauto

/-- The loop over the nets. -/
theorem bridgeNets (h : PlanSpec circuit nodeMap st done rail A D) (vdd : Runtime.Num)
    (es : List (Text × NetRoles)) :
    ∃ A' D', PlanSpec circuit nodeMap (es.foldl (CircuitForge.bridgeNet circuit nodeMap vdd) st)
      (done ++ es) rail A' D' := by
  induction es generalizing st done A D with
  | nil => exact ⟨A, D, by rwa [List.append_nil]⟩
  | cons e es ih =>
    obtain ⟨A', D', h'⟩ := h.bridgeNet vdd e
    obtain ⟨A'', D'', h''⟩ := ih h'
    exact ⟨A'', D'', by rwa [List.append_assoc, List.singleton_append] at h''⟩

/-- Naming the models touches nothing the specification speaks of. -/
theorem nameModels (h : PlanSpec circuit nodeMap st done rail A D) (names : ModelNames)
    (cs : List Component) :
    PlanSpec circuit nodeMap (cs.foldl nameModel (st, names)).1 done rail A D := by
  induction cs generalizing st names with
  | nil => exact h
  | cons c cs ih =>
    have hstep : PlanSpec circuit nodeMap (nameModel (st, names) c).1 done rail A D := by
      unfold nameModel
      split
      · exact h
      · dsimp only
        split
        · exact h.congr rfl rfl rfl rfl rfl rfl
        · exact h.congr rfl rfl rfl rfl rfl rfl
    exact ih hstep _

end PlanSpec

/-- The whole plan. -/
theorem planState_spec (circuit : CircuitJson) (nodeMap : Map Text Text)
    (usedDeviceNames : List Text) (logicVoltage : Option Runtime.Num) :
    ∃ A D, PlanSpec circuit nodeMap (planState circuit nodeMap usedDeviceNames logicVoltage)
      (netRoles circuit) (needsLowRail circuit) A D := by
  have hinit : PlanSpec circuit nodeMap
      { plan := { active := true }, netNodes := nodeMap.map Prod.snd,
        usedDevices := usedDeviceNames } [] false [] [] :=
    ⟨rfl, .nil, ⟨List.nodup_nil, by simp, by simp⟩, by simp, by simp, by simp, rfl, by simp,
      by simp, by simp⟩
  obtain ⟨A, D, h⟩ := (hinit.nameModels {} circuit.components).bridgeNets
    (detectLogicHigh circuit (netRoles circuit) logicVoltage) (netRoles circuit)
  rw [List.nil_append] at h
  rw [planState]
  cases hr : needsLowRail circuit
  · exact ⟨A, D, h⟩
  · exact h.addLowRail _

/-! ## Model names -/

/-- The names given after the components `done`. -/
structure NamingSpec (acc : PlanState × ModelNames) (done : List Component) : Prop where
  names : ∀ id name, acc.1.plan.digitalModelName.get? id = some name → name ≠ []
  digital : ∀ c ∈ done, c.type.isDigital = true →
    (acc.1.plan.digitalModelName.get? c.id).isSome = true

omit [Runtime] in
theorem digitalDevice_base_ne_nil {t : ComponentType} {device base : Text}
    (h : digitalDevice t = some (device, base)) : base ≠ [] := by
  unfold digitalDevice at h
  split at h <;> simp only [Option.some.injEq, Prod.mk.injEq, reduceCtorEq] at h
  all_goals
    rw [← h.2]
    exact List.cons_ne_nil _ _

theorem NamingSpec.step {acc : PlanState × ModelNames} {done : List Component}
    (h : NamingSpec acc done) (c : Component) : NamingSpec (nameModel acc c) (done ++ [c]) := by
  unfold nameModel
  cases hdev : digitalDevice c.type with
  | none =>
    have hdig : c.type.isDigital = false := by rw [← digitalDevice_isSome, hdev]; rfl
    exact ⟨h.names, List.forall_mem_append.mpr ⟨h.digital, by simp [hdig]⟩⟩
  | some db =>
    obtain ⟨device, base⟩ := db
    have hbase := digitalDevice_base_ne_nil hdev
    have hset : ∀ (st : PlanState × ModelNames) (name : Text), name ≠ [] →
        st.1.plan.digitalModelName = acc.1.plan.digitalModelName.set c.id name →
        NamingSpec st (done ++ [c]) := by
      intro st name hname hst
      refine ⟨fun id n hn => ?_, List.forall_mem_append.mpr ⟨fun b hb hd => ?_, ?_⟩⟩
      · rw [hst, Map.get?_set] at hn
        split_ifs at hn
        · rwa [← Option.some.inj hn]
        · exact h.names id n hn
      · rw [hst, Map.get?_set]
        split_ifs
        · rfl
        · exact h.digital b hb hd
      · rw [List.forall_mem_singleton, hst, Map.get?_set_self]
        exact fun _ => rfl
    dsimp only
    split
    case h_1 name hname => exact hset _ name (truthy_eq_some.mp hname).2 rfl
    case h_2 =>
      refine hset _ _ ?_ rfl
      split_ifs <;> simp [hbase]

theorem bridgeNet_digitalModelName (circuit : CircuitJson) (nodeMap : Map Text Text)
    (vdd : Runtime.Num) (st : PlanState) (e : Text × NetRoles) :
    (CircuitForge.bridgeNet circuit nodeMap vdd st e).plan.digitalModelName =
      st.plan.digitalModelName := by
  unfold CircuitForge.bridgeNet
  by_cases hdig : e.2.digitalSource + e.2.digitalSink = 0
  · rw [if_pos hdig]
  · rw [if_neg hdig]
    cases truthy (nodeMap.get? e.1) with
    | none => rfl
    | some node =>
      dsimp only
      by_cases han : 0 < e.2.analog
      · rw [if_pos han]
        unfold bridgeMixedNet
        dsimp only
        split_ifs <;> rfl
      · rw [if_neg han]
        unfold bridgeDigitalNet
        split_ifs <;> rfl

/-- Every digital component has a timing model. -/
theorem digitalModelName_isSome (circuit : CircuitJson) (nodeMap : Map Text Text)
    (usedDeviceNames : List Text) (logicVoltage : Option Runtime.Num) {c : Component}
    (hc : c ∈ circuit.components) (hdig : c.type.isDigital = true) :
    ∃ model, truthy ((planState circuit nodeMap usedDeviceNames
      logicVoltage).plan.digitalModelName.get? c.id) = some model := by
  have hnames : ∀ (cs done : List Component) (acc : PlanState × ModelNames), NamingSpec acc done →
      NamingSpec (cs.foldl nameModel acc) (done ++ cs) := by
    intro cs
    induction cs with
    | nil => intro done acc h; rwa [List.append_nil]
    | cons c cs ih =>
      intro done acc h
      have := ih _ _ (h.step c)
      rwa [List.append_assoc, List.singleton_append] at this
  have hbridges : ∀ (vdd : Runtime.Num) (es : List (Text × NetRoles)) (st : PlanState),
      (es.foldl (CircuitForge.bridgeNet circuit nodeMap vdd) st).plan.digitalModelName =
        st.plan.digitalModelName := by
    intro vdd es
    induction es with
    | nil => exact fun _ => rfl
    | cons e es ih => exact fun st => (ih _).trans (bridgeNet_digitalModelName ..)
  set st₀ : PlanState :=
    ⟨{ active := true }, nodeMap.map Prod.snd, [], usedDeviceNames, 0⟩ with hst₀
  have hspec := hnames circuit.components [] (st₀, {}) ⟨by simp [hst₀], by simp⟩
  rw [List.nil_append] at hspec
  have hplan : (planState circuit nodeMap usedDeviceNames logicVoltage).plan.digitalModelName =
      (circuit.components.foldl nameModel (st₀, {})).1.plan.digitalModelName := by
    unfold planState
    dsimp only
    split_ifs
    · exact hbridges _ _ _
    · exact hbridges _ _ _
  rw [hplan]
  obtain ⟨model, hmodel⟩ := Option.isSome_iff_exists.mp (hspec.digital c hc hdig)
  exact ⟨model, truthy_eq_some.mpr ⟨hmodel, hspec.names _ _ hmodel⟩⟩

end CircuitForge
