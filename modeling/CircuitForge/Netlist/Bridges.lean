/-
The bridges of the mixed nets.

An event twin belongs to one bridge of the plan, and a pin that is moved to it
stands on the net the bridge serves.  `BridgeSpec` says so of the planner's lists;
a synthesized node with its card keeps it, and `planState_bridges` is the run.
-/
import CircuitForge.Netlist.Domains

namespace CircuitForge

open Js

/-- A bridge joins the event node `d` to the analog node `n`. -/
def Bridged (lines : List Card) (d n : Text) : Prop :=
  ∃ card ∈ lines, card.eventPorts = [d] ∧ card.analogTerminals = [n]

section

variable [Runtime]

/-- The planner's lists: the nodes of the nets, those synthesized since, the cards
and the moved pins. -/
structure BridgeSpec (circuit : CircuitJson) (nodeMap : Map Text Text)
    (roles : List (Text × NetRoles)) (nodes synthesized : List Text) (lines : List Card)
    (overrides : Map Text Text) : Prop where
  apart : ∀ s ∈ synthesized, s ∉ nodes
  ports : ∀ card ∈ lines, ∀ t ∈ card.eventPorts, t ∈ synthesized ∨ t ∈ nodes
  one : ∀ d ∈ synthesized, ∀ card ∈ lines, ∀ card' ∈ lines, d ∈ card.eventPorts →
    d ∈ card'.eventPorts → card.analogTerminals = card'.analogTerminals
  bridged : ∀ k d, overrides.get? k = some d → d ∈ synthesized ∧
    ∃ e ∈ roles, ∃ n, analogSide nodeMap e = some n ∧ k ∈ digitalPinKeys circuit e.1 ∧
      Bridged lines d n

namespace BridgeSpec

variable {circuit : CircuitJson} {nodeMap : Map Text Text} {roles : List (Text × NetRoles)}
  {nodes synthesized : List Text} {lines : List Card} {overrides : Map Text Text}

/-- A fresh node and a card whose event ports are that node or nodes of nets. -/
theorem add (h : BridgeSpec circuit nodeMap roles nodes synthesized lines overrides) {x : Text}
    (hold : x ∉ synthesized) (hnet : x ∉ nodes) {card : Card}
    (hports : ∀ t ∈ card.eventPorts, t = x ∨ t ∈ nodes) :
    BridgeSpec circuit nodeMap roles nodes (synthesized ++ [x]) (lines ++ [card]) overrides := by
  have hnew : ∀ b ∈ lines, x ∉ b.eventPorts := fun b hb hx =>
    (h.ports b hb x hx).elim hold hnet
  have hlast : ∀ d ∈ synthesized, d ∉ card.eventPorts := fun d hd hc =>
    (hports d hc).elim (fun he => hold (he ▸ hd)) (h.apart d hd)
  refine ⟨?_, ?_, ?_, fun k d hk => ?_⟩
  · refine List.forall_mem_append.mpr ⟨h.apart, fun s hs => ?_⟩
    rw [List.mem_singleton.mp hs]
    exact hnet
  · refine List.forall_mem_append.mpr ⟨fun b hb t ht => ?_, fun b hb t ht => ?_⟩
    · exact (h.ports b hb t ht).imp_left (List.mem_append_left _)
    · rw [List.mem_singleton.mp hb] at ht
      exact (hports t ht).imp_left fun he => List.mem_append_right _ (List.mem_singleton.mpr he)
  · intro d hd b hb b' hb' hdb hdb'
    rcases List.mem_append.mp hd with hd | hd
    · rcases List.mem_append.mp hb with hb | hb
      · rcases List.mem_append.mp hb' with hb' | hb'
        · exact h.one d hd b hb b' hb' hdb hdb'
        · exact absurd (List.mem_singleton.mp hb' ▸ hdb') (hlast d hd)
      · exact absurd (List.mem_singleton.mp hb ▸ hdb) (hlast d hd)
    · rw [List.mem_singleton.mp hd] at hdb hdb'
      rcases List.mem_append.mp hb with hb | hb
      · exact absurd hdb (hnew b hb)
      · rcases List.mem_append.mp hb' with hb' | hb'
        · exact absurd hdb' (hnew b' hb')
        · rw [List.mem_singleton.mp hb, List.mem_singleton.mp hb']
  · obtain ⟨hd, e, he, n, hn, hkey, b, hb, hbridge⟩ := h.bridged k d hk
    exact ⟨List.mem_append_left _ hd, e, he, n, hn, hkey, b, List.mem_append_left _ hb, hbridge⟩

/-- The digital pins of a mixed net move to the event side of its bridge. -/
theorem move (h : BridgeSpec circuit nodeMap roles nodes synthesized lines overrides) {x n : Text}
    {e : Text × NetRoles} (he : e ∈ roles) (hn : analogSide nodeMap e = some n)
    (hx : x ∈ synthesized) (hbridge : Bridged lines x n) :
    BridgeSpec circuit nodeMap roles nodes synthesized lines
      (Map.fill id (fun _ => x) (digitalPinKeys circuit e.1) overrides) := by
  refine ⟨h.apart, h.ports, h.one, fun k d hk => ?_⟩
  rw [Map.get?_fill_const] at hk
  split_ifs at hk with hkey
  · rw [Option.some.injEq] at hk
    subst hk
    exact ⟨hx, e, he, n, hn, hkey, hbridge⟩
  · exact h.bridged k d hk

end BridgeSpec

/-- `BridgeSpec` of the planner's state. -/
def StateBridges (circuit : CircuitJson) (nodeMap : Map Text Text) (st : PlanState) : Prop :=
  BridgeSpec circuit nodeMap (netRoles circuit) st.netNodes st.synthesized st.plan.deviceLines
    st.plan.nodeOverride

theorem freshNode_notMem (st : PlanState) (base : Text) :
    st.freshNode base ∉ st.synthesized ∧ st.freshNode base ∉ st.netNodes := by
  have hnew : Runtime.lower (st.freshNode base) ∉ st.usedNodes := uniqueName_fresh _ _
  rw [PlanState.usedNodes, List.map_append, List.mem_append, not_or] at hnew
  exact ⟨fun h => hnew.2 (List.mem_map_of_mem h), fun h => hnew.1 (List.mem_map_of_mem h)⟩

section

variable {circuit : CircuitJson} {nodeMap : Map Text Text} {st : PlanState}

theorem StateBridges.bridgeDigitalNet (h : StateBridges circuit nodeMap st) (vdd : Runtime.Num)
    (netId : Text) {node : Text} (hnode : node ∈ st.netNodes) (r : NetRoles) :
    StateBridges circuit nodeMap (CircuitForge.bridgeDigitalNet vdd st netId node r) := by
  unfold CircuitForge.bridgeDigitalNet
  split_ifs
  · obtain ⟨hold, hnet⟩ := freshNode_notMem st (node ++ "_p".toList)
    exact h.add hold hnet fun t ht => Or.inr (List.mem_singleton.mp ht ▸ hnode)
  · exact h

theorem StateBridges.bridgeMixedNet (h : StateBridges circuit nodeMap st) (vdd : Runtime.Num)
    {e : Text × NetRoles} (he : e ∈ netRoles circuit) {node : Text}
    (hn : analogSide nodeMap e = some node) :
    StateBridges circuit nodeMap (CircuitForge.bridgeMixedNet circuit vdd st e.1 node e.2) := by
  obtain ⟨hold, hnet⟩ := freshNode_notMem st (node ++ "_d".toList)
  have hcard : ∀ card : Card, card.eventPorts = [st.freshNode (node ++ "_d".toList)] →
      card.analogTerminals = [node] →
      BridgeSpec circuit nodeMap (netRoles circuit) st.netNodes
        (st.synthesized ++ [st.freshNode (node ++ "_d".toList)]) (st.plan.deviceLines ++ [card])
        (Map.fill id (fun _ => st.freshNode (node ++ "_d".toList)) (digitalPinKeys circuit e.1)
          st.plan.nodeOverride) := by
    intro card hports hterms
    have hfresh : ∀ t ∈ card.eventPorts,
        t = st.freshNode (node ++ "_d".toList) ∨ t ∈ st.netNodes := fun t ht =>
      Or.inl (List.mem_singleton.mp (hports ▸ ht))
    exact (h.add hold hnet hfresh).move he hn
      (List.mem_append_right _ (List.mem_singleton.mpr rfl))
      ⟨card, List.mem_append_right _ (List.mem_singleton.mpr rfl), hports, hterms⟩
  unfold CircuitForge.bridgeMixedNet
  dsimp only
  split_ifs
  · exact hcard _ rfl rfl
  · exact hcard _ rfl rfl

theorem StateBridges.bridgeNet (h : StateBridges circuit nodeMap st)
    (hnodes : st.netNodes = nodeMap.map Prod.snd) (vdd : Runtime.Num) {e : Text × NetRoles}
    (he : e ∈ netRoles circuit) :
    StateBridges circuit nodeMap (CircuitForge.bridgeNet circuit nodeMap vdd st e) := by
  unfold CircuitForge.bridgeNet
  by_cases hdig : e.2.digitalSource + e.2.digitalSink = 0
  · rw [if_pos hdig]
    exact h
  · rw [if_neg hdig]
    cases hnode : truthy (nodeMap.get? e.1) with
    | none => exact h
    | some node =>
      dsimp only
      split_ifs with han
      · exact h.bridgeMixedNet vdd he (by rw [analogSide, if_pos ⟨by omega, han⟩, hnode])
      · refine h.bridgeDigitalNet vdd e.1 ?_ e.2
        rw [hnodes]
        exact List.mem_map_of_mem (f := Prod.snd) (Map.mem_of_get? (truthy_eq_some.mp hnode).1)

theorem netNodes_bridgeNet (circuit : CircuitJson) (nodeMap : Map Text Text) (vdd : Runtime.Num)
    (st : PlanState) (e : Text × NetRoles) :
    (CircuitForge.bridgeNet circuit nodeMap vdd st e).netNodes = st.netNodes := by
  unfold CircuitForge.bridgeNet
  by_cases hdig : e.2.digitalSource + e.2.digitalSink = 0
  · rw [if_pos hdig]
  · rw [if_neg hdig]
    cases truthy (nodeMap.get? e.1) with
    | none => rfl
    | some node =>
      dsimp only
      unfold CircuitForge.bridgeMixedNet CircuitForge.bridgeDigitalNet
      dsimp only
      split_ifs <;> rfl

theorem StateBridges.addLowRail (h : StateBridges circuit nodeMap st) (vdd : Runtime.Num) :
    StateBridges circuit nodeMap (CircuitForge.addLowRail vdd st) := by
  obtain ⟨hold, hnet⟩ := freshNode_notMem st "dlogic_lo_a".toList
  obtain ⟨hold', hnet'⟩ := freshNode_notMem (st.useNode (st.freshNode "dlogic_lo_a".toList))
    "dlogic_lo".toList
  unfold CircuitForge.addLowRail
  refine BridgeSpec.add (BridgeSpec.add h hold hnet fun t ht => ?_) hold' hnet' fun t ht => ?_
  · cases ht
  · exact Or.inl (List.mem_singleton.mp ht)

theorem StateBridges.nameModels (h : StateBridges circuit nodeMap st) (names : ModelNames)
    (cs : List Component) :
    StateBridges circuit nodeMap (cs.foldl nameModel (st, names)).1 ∧
      (cs.foldl nameModel (st, names)).1.netNodes = st.netNodes := by
  induction cs generalizing st names with
  | nil => exact ⟨h, rfl⟩
  | cons c cs ih =>
    have hstep : StateBridges circuit nodeMap (nameModel (st, names) c).1 ∧
        (nameModel (st, names) c).1.netNodes = st.netNodes := by
      unfold nameModel
      split
      · exact ⟨h, rfl⟩
      · dsimp only
        split
        · exact ⟨h, rfl⟩
        · exact ⟨h, rfl⟩
    obtain ⟨hrun, hnodes⟩ := ih hstep.1 _
    exact ⟨hrun, hnodes.trans hstep.2⟩

theorem StateBridges.bridgeNets (h : StateBridges circuit nodeMap st)
    (hnodes : st.netNodes = nodeMap.map Prod.snd) (vdd : Runtime.Num)
    {es : List (Text × NetRoles)} (hes : ∀ e ∈ es, e ∈ netRoles circuit) :
    StateBridges circuit nodeMap (es.foldl (CircuitForge.bridgeNet circuit nodeMap vdd) st) := by
  induction es generalizing st with
  | nil => exact h
  | cons e es ih =>
    obtain ⟨he, hes⟩ := List.forall_mem_cons.mp hes
    exact ih (h.bridgeNet hnodes vdd he)
      ((netNodes_bridgeNet circuit nodeMap vdd st e).trans hnodes) hes

end

/-- The whole plan. -/
theorem planState_bridges (circuit : CircuitJson) (nodeMap : Map Text Text)
    (usedDeviceNames : List Text) (logicVoltage : Option Runtime.Num) :
    StateBridges circuit nodeMap (planState circuit nodeMap usedDeviceNames logicVoltage) := by
  have hinit : StateBridges circuit nodeMap
      { plan := { active := true }, netNodes := nodeMap.map Prod.snd,
        usedDevices := usedDeviceNames } := ⟨by simp, by simp, by simp, by simp⟩
  obtain ⟨hnamed, hnodes⟩ := hinit.nameModels {} circuit.components
  have hrun := hnamed.bridgeNets hnodes
    (detectLogicHigh circuit (netRoles circuit) logicVoltage)
    fun e (he : e ∈ netRoles circuit) => he
  rw [planState]
  split_ifs
  · exact hrun.addLowRail _
  · exact hrun

/-- Where the planner moves a pin: to the twin of a mixed net on which a pin of that key
stands. -/
theorem deckPlan_override {circuit : CircuitJson} {options : NetlistOptions} {k d : Text}
    (h : (deckPlan circuit options).nodeOverride.get? k = some d) :
    ∃ g n, HasAnalogPin circuit g ∧ (buildNodeMap circuit.nets).get? g = some n ∧
      k ∈ digitalPinKeys circuit g ∧ Bridged (deckPlan circuit options).deviceLines d n := by
  have hspec := planState_bridges circuit (buildNodeMap circuit.nets)
    (reservedDeviceNames circuit) options.logicVoltage
  unfold deckPlan planMixedSignal at h ⊢
  split_ifs at h ⊢ with hany
  · obtain ⟨_, e, he, n, hn, hkey, hbridge⟩ := hspec.bridged k d h
    unfold analogSide at hn
    split_ifs at hn with hs
    rw [← rolesAt_of_mem he] at hs
    exact ⟨e.1, n, (analog_pos_iff circuit e.1).mp hs.2, (truthy_eq_some.mp hn).1, hkey, hbridge⟩
  · cases h

/-- A twin has one analog side. -/
theorem Bridged.unique {circuit : CircuitJson} {options : NetlistOptions} {k d n n' : Text}
    (h : (deckPlan circuit options).nodeOverride.get? k = some d)
    (hn : Bridged (deckPlan circuit options).deviceLines d n)
    (hn' : Bridged (deckPlan circuit options).deviceLines d n') : n = n' := by
  have hspec := planState_bridges circuit (buildNodeMap circuit.nets)
    (reservedDeviceNames circuit) options.logicVoltage
  unfold deckPlan planMixedSignal at h hn hn'
  split_ifs at h hn hn' with hany
  · obtain ⟨card, hcard, hports, hterms⟩ := hn
    obtain ⟨card', hcard', hports', hterms'⟩ := hn'
    have := hspec.one d (hspec.bridged k d h).1 card hcard card' hcard'
      (hports ▸ List.mem_singleton.mpr rfl) (hports' ▸ List.mem_singleton.mpr rfl)
    rw [hterms, hterms'] at this
    exact List.singleton_injective this
  · cases h

end

end CircuitForge
