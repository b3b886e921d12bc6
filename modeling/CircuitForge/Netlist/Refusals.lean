/-
The errors of the generator.

A guard that fails throws a `DeckRefusal`.  The one throw that is none is in the digital path: a
pin on a net the circuit does not list.  `Reads` says which pins of a digital device the emitter
looks up, and a deck is refused in type unless the loop reaches a device that reads such a pin.
-/
import CircuitForge.Netlist.Domains
import CircuitForge.Schemas.Analysis

namespace CircuitForge

open Js

/-! ## Refusals -/

def IsRefusal : Thrown → Prop
  | .refusal _ => True
  | _ => False

/-- The computation throws refusals only. -/
abbrev Refuses {α : Type} (x : Except Thrown α) : Prop := Outcome.Throws IsRefusal x

theorem refuses_refusal {α : Type} (message : Text) :
    Refuses (.error (.refusal message) : Except Thrown α) := Outcome.Throws.error trivial

section

variable [Runtime]

theorem refuses_nodesForPinOrder (c : Component) (nodeMap : Map Text Text) (pinIds : List Text) :
    Refuses (nodesForPinOrder c nodeMap pinIds) := by
  refine Outcome.Throws.mapM fun p _ => ?_
  unfold nodeForPin
  cases c.pins.find? (·.pinId = p) with
  | none => exact refuses_refusal _
  | some pin =>
    dsimp only
    cases truthy (nodeMap.get? pin.netId) with
    | none => exact refuses_refusal _
    | some node => exact .ok

theorem refuses_authoredNodes (c : Component) (nodeMap : Map Text Text) :
    Refuses (authoredNodes c nodeMap) := by
  refine Outcome.Throws.mapM fun pin _ => ?_
  cases truthy (nodeMap.get? pin.netId) with
  | none => exact refuses_refusal _
  | some node => exact .ok

theorem refuses_orderedCard (c : Component) (nodeMap : Map Text Text) (pre : Char) (spec : Text) :
    Refuses (orderedCard c nodeMap pre spec) :=
  (refuses_nodesForPinOrder c nodeMap c.type.pins).map

theorem refuses_subcktCard (c : Component) (nodeMap : Map Text Text) (modelMap : Map Text ModelDef)
    (model : Text) (nodes : List Text) : Refuses (subcktCard c nodeMap modelMap model nodes) := by
  unfold subcktCard
  cases modelMap.get? model with
  | none => exact .ok
  | some m =>
    dsimp only
    split
    · exact (refuses_nodesForPinOrder c nodeMap _).map
    · split_ifs
      · exact refuses_refusal _
      · exact .ok

theorem refuses_prefixedCards (c : Component) (nodeMap : Map Text Text)
    (modelMap : Map Text ModelDef) (pre : Char) (nodes : List Text) :
    Refuses (prefixedCards c nodeMap modelMap pre nodes) := by
  unfold prefixedCards
  split
  -- the types without a card of their own, and the two-terminal elements, throw nothing
  case h_1 | h_2 | h_3 | h_15 => exact .ok
  case h_4 | h_5 | h_8 => exact refuses_orderedCard _ _ _ _
  case h_14 =>
    split
    · exact .ok
    · exact (refuses_subcktCard _ _ _ _ _).map
  all_goals
    split
    · exact .ok
    · exact refuses_orderedCard _ _ _ _

theorem refuses_componentToSpice (c : Component) (nodeMap : Map Text Text)
    (modelMap : Map Text ModelDef) (exprNodeMap : Map Text Text) :
    Refuses (componentToSpice c nodeMap modelMap exprNodeMap) := by
  unfold componentToSpice
  split
  case h_1 | h_2 => exact .ok
  case h_3 =>
    split
    · exact .ok
    · refine (refuses_nodesForPinOrder c nodeMap c.type.pins).bind fun nodes _ => ?_
      split <;> exact .ok
  case h_4 | h_5 =>
    split
    · exact .ok
    · exact refuses_orderedCard _ _ _ _
  case h_6 =>
    split
    · exact .ok
    · exact (refuses_authoredNodes c nodeMap).bind fun nodes _ => refuses_prefixedCards _ _ _ _ _

/-! ## Guards -/

theorem refuses_claimNodes (owners entries : Map Text Text) : Refuses (claimNodes owners entries) := by
  induction entries generalizing owners with
  | nil => exact .ok
  | cons e entries ih =>
    obtain ⟨netId, node⟩ := e
    rw [claimNodes]
    split_ifs
    · exact ih owners
    · cases owners.get? (Runtime.lower node) with
      | some prev => exact refuses_refusal _
      | none => exact ih _

theorem refuses_claimMidNodes (designator : Text) (owners : Map Text Text) (mids : List Text) :
    Refuses (claimMidNodes designator owners mids) := by
  induction mids generalizing owners with
  | nil => exact .ok
  | cons mid mids ih =>
    rw [claimMidNodes]
    cases owners.get? (Runtime.lower mid) with
    | some prev => exact refuses_refusal _
    | none => exact ih _

omit [Runtime] in
theorem refuses_declareModels (emitted : Map Text Text) (entries : List (Text × Text)) :
    Refuses (declareModels emitted entries) := by
  induction entries generalizing emitted with
  | nil => exact .ok
  | cons e entries ih =>
    obtain ⟨name, body⟩ := e
    rw [declareModels]
    cases emitted.get? name with
    | some existing =>
      dsimp only
      split_ifs
      · exact refuses_refusal _
      · exact ih emitted
    | none => exact (ih _).bind fun _ _ => .ok

theorem refuses_checkAc (circuit : CircuitJson) (analysis : AnalysisConfig) :
    Refuses (checkAc circuit analysis) := by
  unfold checkAc
  split_ifs
  · exact refuses_refusal _
  · exact .ok

theorem refuses_checkDevices (seen : List Text) (cards : List Card) :
    Refuses (checkDevices seen cards) := by
  induction cards generalizing seen with
  | nil => exact .ok
  | cons card cards ih =>
    rw [checkDevices]
    split_ifs
    · exact refuses_refusal _
    · exact ih _

theorem refuses_checkProbes (options : NetlistOptions) (probes : List Text) :
    Refuses (checkProbes options probes) := by
  unfold checkProbes
  split
  · split_ifs
    · exact refuses_refusal _
    · exact .ok
  · exact .ok

/-- Without include files no path is checked. -/
theorem includeLines_of_none {options : NetlistOptions} (h : options.includeFiles = none) :
    includeLines options = .ok [] := by
  unfold includeLines
  rw [h]
  cases truthy options.jobDir with
  | none => rfl
  | some dir => rfl

/-! ## Pins of digital devices -/

/-- The pin stands on a listed net, or its key is that of a pin on a net that is split. -/
def HasNode (circuit : CircuitJson) (c : Component) (p : Text) : Prop :=
  IsSplit circuit (pinKey c.id p) ∨
    ∃ pin, c.pins.find? (·.pinId = p) = some pin ∧ pin.netId ∈ circuit.nets.map Net.id

/-- The pin stands on a net the circuit does not list. -/
def Unlisted (circuit : CircuitJson) (c : Component) (p : Text) : Prop :=
  (c.pins.find? (·.pinId = p)).isSome = true ∧ ¬ HasNode circuit c p

/-- The pins the emitter looks up. -/
inductive Reads (circuit : CircuitJson) (c : Component) : Text → Prop
  | out : c.type.isLogicGate = true → Reads circuit c "out".toList
  | input {p : Text} : c.type.isLogicGate = true → HasNode circuit c "out".toList →
      p ∈ gateInputPins c → Reads circuit c p
  | output {p : Text} : c.type.isSequential = true → p ∈ ["q", "qb"].map String.toList →
      Reads circuit c p
  | state {p : Text} : c.type.isSequential = true → HasNode circuit c "q".toList →
      HasNode circuit c "qb".toList →
      p ∈ ["set", "rst"].map String.toList ++ sequentialInputs c.type → Reads circuit c p
  | port {p : Text} : c.type = .tristate → p ∈ ["in1", "en", "out"].map String.toList →
      Reads circuit c p

omit [Runtime] in
theorem get?_nodeMap_isSome {nets : List Net} {g : Text} :
    ((buildNodeMap nets).get? g).isSome = true ↔ g ∈ nets.map Net.id := by
  rw [buildNodeMap, Map.get?_fill, Map.get?_nil, Option.or_none, Option.isSome_map,
    List.find?_isSome, List.mem_map]
  simp

section

variable {circuit : CircuitJson} {st : PlanState} {A D : List Text} {c : Component}

theorem hasNode_iff
    (h : PlanSpec circuit (buildNodeMap circuit.nets) st (netRoles circuit)
      (needsLowRail circuit) A D) (p : Text) :
    HasNode circuit c p ↔ (pinNode c (buildNodeMap circuit.nets) st.plan p).isSome = true := by
  by_cases hsplit : IsSplit circuit (pinKey c.id p)
  · obtain ⟨d, _, hd⟩ := pinNode_of_split (c := c) h hsplit
    rw [hd]
    exact iff_of_true (Or.inl hsplit) rfl
  · rw [pinNode_of_not_split h hsplit, HasNode, or_iff_right hsplit]
    cases c.pins.find? (·.pinId = p) with
    | none => simp
    | some pin => simp only [Option.bind_some, get?_nodeMap_isSome, Option.some.injEq,
        exists_eq_left']

/-- `nodeOf` on a pin: its node, nothing for a missing pin, else an untyped error. -/
theorem digitalNodeOf_cases (nodeMap : Map Text Text) (plan : MixedSignalPlan) (p : Text) :
    (∃ node, pinNode c nodeMap plan p = some node ∧
      digitalNodeOf c nodeMap plan p = .ok (some node)) ∨
    (pinNode c nodeMap plan p = none ∧ c.pins.find? (·.pinId = p) = none ∧
      digitalNodeOf c nodeMap plan p = .ok none) ∨
    (pinNode c nodeMap plan p = none ∧ (c.pins.find? (·.pinId = p)).isSome = true ∧
      ∃ message, digitalNodeOf c nodeMap plan p = .error (.error message)) := by
  unfold digitalNodeOf pinNode
  cases truthy (plan.nodeOverride.get? (pinKey c.id p)) with
  | some node => exact Or.inl ⟨node, rfl, rfl⟩
  | none =>
    cases c.pins.find? (·.pinId = p) with
    | none => exact Or.inr (Or.inl ⟨rfl, rfl, rfl⟩)
    | some pin =>
      simp only [Option.bind_some, Option.none_or]
      cases truthy (nodeMap.get? pin.netId) with
      | some node => exact Or.inl ⟨node, rfl, rfl⟩
      | none => exact Or.inr (Or.inr ⟨rfl, rfl, _, rfl⟩)

theorem digitalNodeOf_fails
    (h : PlanSpec circuit (buildNodeMap circuit.nets) st (netRoles circuit)
      (needsLowRail circuit) A D) (p : Text) :
    (∃ e, digitalNodeOf c (buildNodeMap circuit.nets) st.plan p = .error e) ↔
      Unlisted circuit c p := by
  rw [Unlisted, hasNode_iff h]
  rcases digitalNodeOf_cases (c := c) (buildNodeMap circuit.nets) st.plan p with
    ⟨node, hp, hok⟩ | ⟨hp, hfind, hok⟩ | ⟨hp, hfind, message, he⟩
  · simp [hp, hok]
  · simp [hp, hfind, hok]
  · simp [hp, hfind, he]

/-- A pin with a node is looked up. -/
theorem hasNode_iff_ok
    (h : PlanSpec circuit (buildNodeMap circuit.nets) st (netRoles circuit)
      (needsLowRail circuit) A D) (p : Text) :
    HasNode circuit c p ↔
      ∃ node, digitalNodeOf c (buildNodeMap circuit.nets) st.plan p = .ok (some node) := by
  rw [hasNode_iff h]
  rcases digitalNodeOf_cases (c := c) (buildNodeMap circuit.nets) st.plan p with
    ⟨node, hp, hok⟩ | ⟨hp, hfind, hok⟩ | ⟨hp, hfind, message, he⟩
  · simp [hp, hok]
  · simp [hp, hok]
  · simp [hp, he]

theorem ok_or_unlisted
    (h : PlanSpec circuit (buildNodeMap circuit.nets) st (netRoles circuit)
      (needsLowRail circuit) A D) (p : Text) :
    (∃ x, digitalNodeOf c (buildNodeMap circuit.nets) st.plan p = .ok x) ∨ Unlisted circuit c p := by
  rw [← digitalNodeOf_fails h]
  cases digitalNodeOf c (buildNodeMap circuit.nets) st.plan p with
  | ok x => exact Or.inl ⟨x, rfl⟩
  | error e => exact Or.inr ⟨e, rfl⟩

theorem emitGate_fails
    (h : PlanSpec circuit (buildNodeMap circuit.nets) st (netRoles circuit)
      (needsLowRail circuit) A D) (model : Text) :
    (∃ e, emitGate c (digitalNodeOf c (buildNodeMap circuit.nets) st.plan) model = .error e) ↔
      Unlisted circuit c "out".toList ∨
        HasNode circuit c "out".toList ∧ ∃ p ∈ gateInputPins c, Unlisted circuit c p := by
  unfold emitGate
  rw [Outcome.bind_fails, digitalNodeOf_fails h]
  refine or_congr_right ?_
  constructor
  · rintro ⟨out, hout, hrest⟩
    cases out with
    | none => simp [pure, Except.pure] at hrest
    | some out =>
      refine ⟨(hasNode_iff_ok h _).mpr ⟨out, hout⟩, ?_⟩
      rw [Outcome.bind_fails, Outcome.mapM_fails] at hrest
      rcases hrest with ⟨p, hp, he⟩ | ⟨inputs, _, e, he⟩
      · exact ⟨p, hp, (digitalNodeOf_fails h p).mp he⟩
      · exfalso
        revert he
        split
        · simp [pure, Except.pure]
        · simp [pure, Except.pure]
        · split_ifs <;> simp [pure, Except.pure]
  · rintro ⟨hnode, p, hp, hu⟩
    obtain ⟨out, hout⟩ := (hasNode_iff_ok h _).mp hnode
    refine ⟨some out, hout, ?_⟩
    rw [Outcome.bind_fails, Outcome.mapM_fails]
    exact Or.inl ⟨p, hp, (digitalNodeOf_fails h p).mpr hu⟩

/-- An open preset or clear of a component is tied to the low rail. -/
theorem tied_isSome
    (h : PlanSpec circuit (buildNodeMap circuit.nets) st (netRoles circuit)
      (needsLowRail circuit) A D) (hc : c ∈ circuit.components)
    (hty : c.type.isSequential = true) {p : Text} (hp : p = "set".toList ∨ p = "rst".toList)
    {x : Option Text} (hok : digitalNodeOf c (buildNodeMap circuit.nets) st.plan p = .ok x) :
    ∃ node, x.or st.plan.lowRailNode = some node := by
  cases x with
  | some node => exact ⟨node, rfl⟩
  | none =>
    have hrail := h.lowRail
    rw [needsLowRail_of_open hc hty hp (find?_of_digitalNodeOf hok)] at hrail
    exact Option.isSome_iff_exists.mp hrail

theorem emitSequential_fails
    (h : PlanSpec circuit (buildNodeMap circuit.nets) st (netRoles circuit)
      (needsLowRail circuit) A D) (hc : c ∈ circuit.components)
    (hty : c.type.isSequential = true) (model : Text) :
    (∃ e, emitSequential c (digitalNodeOf c (buildNodeMap circuit.nets) st.plan)
        st.plan.lowRailNode model = .error e) ↔
      Unlisted circuit c "q".toList ∨ Unlisted circuit c "qb".toList ∨
        (HasNode circuit c "q".toList ∧ HasNode circuit c "qb".toList) ∧
          ∃ p ∈ ["set", "rst"].map String.toList ++ sequentialInputs c.type,
            Unlisted circuit c p := by
  unfold emitSequential
  simp only [Outcome.bind_fails, digitalNodeOf_fails h]
  have hset := ok_or_unlisted (c := c) h "set".toList
  have hrst := ok_or_unlisted (c := c) h "rst".toList
  constructor
  · rintro (hu | ⟨q, hq, hu | ⟨qb, hqb, he⟩⟩)
    · exact Or.inl hu
    · exact Or.inr (Or.inl hu)
    · refine Or.inr (Or.inr ?_)
      cases q with
      | none => simp [pure, Except.pure] at he
      | some q =>
        cases qb with
        | none => simp [pure, Except.pure] at he
        | some qb =>
          refine ⟨⟨(hasNode_iff_ok h _).mpr ⟨q, hq⟩, (hasNode_iff_ok h _).mpr ⟨qb, hqb⟩⟩, ?_⟩
          simp only [Outcome.bind_fails, digitalNodeOf_fails h] at he
          rcases he with hu | ⟨s, hs, hu | ⟨r, hr, he⟩⟩
          · exact ⟨_, List.mem_append_left _ List.mem_cons_self, hu⟩
          · exact ⟨_, List.mem_append_left _ (List.mem_cons_of_mem _ List.mem_cons_self), hu⟩
          · obtain ⟨sn, hsn⟩ := tied_isSome h hc hty (Or.inl rfl) hs
            obtain ⟨rn, hrn⟩ := tied_isSome h hc hty (Or.inr rfl) hr
            simp only [hsn, hrn, Outcome.bind_fails, Outcome.mapM_fails] at he
            rcases he with ⟨p, hp, he⟩ | ⟨inputs, _, e, he⟩
            · exact ⟨p, List.mem_append_right _ hp, (digitalNodeOf_fails h p).mp he⟩
            · exfalso
              revert he
              cases inputs.mapM id <;> simp [pure, Except.pure]
  · rintro (hu | hu | ⟨⟨hq, hqb⟩, p, hp, hu⟩)
    · exact Or.inl hu
    · rcases ok_or_unlisted (c := c) h "q".toList with ⟨q, hq⟩ | hq
      · exact Or.inr ⟨q, hq, Or.inl hu⟩
      · exact Or.inl hq
    · obtain ⟨q, hq⟩ := (hasNode_iff_ok h _).mp hq
      obtain ⟨qb, hqb⟩ := (hasNode_iff_ok h _).mp hqb
      refine Or.inr ⟨some q, hq, Or.inr ⟨some qb, hqb, ?_⟩⟩
      simp only [Outcome.bind_fails, digitalNodeOf_fails h]
      rcases hset with ⟨s, hs⟩ | hs
      · refine Or.inr ⟨s, hs, ?_⟩
        rcases hrst with ⟨r, hr⟩ | hr
        · refine Or.inr ⟨r, hr, ?_⟩
          obtain ⟨sn, hsn⟩ := tied_isSome h hc hty (Or.inl rfl) hs
          obtain ⟨rn, hrn⟩ := tied_isSome h hc hty (Or.inr rfl) hr
          simp only [hsn, hrn, Outcome.bind_fails, Outcome.mapM_fails]
          refine Or.inl ⟨p, ?_, (digitalNodeOf_fails h p).mpr hu⟩
          -- the preset and the clear were looked up, so `p` is an input
          rcases List.mem_append.mp hp with hp | hp
          · have hfails := (digitalNodeOf_fails h p).mpr hu
            rw [List.map_cons, List.map_cons, List.map_nil, List.mem_cons,
              List.mem_singleton] at hp
            rcases hp with rfl | rfl
            · rw [hs] at hfails
              cases hfails.choose_spec
            · rw [hr] at hfails
              cases hfails.choose_spec
          · exact hp
        · exact Or.inl hr
      · exact Or.inl hs

theorem emitTristate_fails
    (h : PlanSpec circuit (buildNodeMap circuit.nets) st (netRoles circuit)
      (needsLowRail circuit) A D) (model : Text) :
    (∃ e, emitTristate c (digitalNodeOf c (buildNodeMap circuit.nets) st.plan) model = .error e) ↔
      ∃ p ∈ ["in1", "en", "out"].map String.toList, Unlisted circuit c p := by
  unfold emitTristate
  simp only [Outcome.bind_fails, Outcome.mapM_fails, digitalNodeOf_fails h]
  refine or_iff_left ?_
  rintro ⟨inputs, _, e, he⟩
  revert he
  cases inputs.mapM id <;> simp [pure, Except.pure]

/-- The emitter fails exactly when it looks up a pin on a net that is not listed. -/
theorem emitDigitalComponent_fails
    (h : PlanSpec circuit (buildNodeMap circuit.nets) st (netRoles circuit)
      (needsLowRail circuit) A D) (hc : c ∈ circuit.components)
    (hdig : c.type.isDigital = true)
    (hmodel : ∃ model, truthy (st.plan.digitalModelName.get? c.id) = some model) :
    (∃ e, emitDigitalComponent c (buildNodeMap circuit.nets) st.plan = .error e) ↔
      ∃ p, Reads circuit c p ∧ Unlisted circuit c p := by
  obtain ⟨model, hmodel⟩ := hmodel
  unfold emitDigitalComponent
  rw [hmodel]
  dsimp only
  by_cases hg : c.type.isLogicGate = true
  · have hs : c.type.isSequential = false := by
      revert hg
      cases c.type <;> simp [ComponentType.isLogicGate, ComponentType.isSequential]
    have ht : c.type ≠ .tristate := by
      rintro he
      rw [he] at hg
      cases hg
    rw [if_pos hg, emitGate_fails h]
    constructor
    · rintro (hu | ⟨hout, p, hp, hu⟩)
      · exact ⟨_, .out hg, hu⟩
      · exact ⟨p, .input hg hout hp, hu⟩
    · rintro ⟨p, hp, hu⟩
      cases hp with
      | out => exact Or.inl hu
      | input _ hout hp => exact Or.inr ⟨hout, p, hp, hu⟩
      | output hs' => simp [hs] at hs'
      | state hs' => simp [hs] at hs'
      | port ht' => exact absurd ht' ht
  · rw [if_neg hg]
    by_cases hs : c.type.isSequential = true
    · have ht : c.type ≠ .tristate := by
        rintro he
        rw [he] at hs
        cases hs
      rw [if_pos hs, emitSequential_fails h hc hs]
      constructor
      · rintro (hu | hu | ⟨⟨hq, hqb⟩, p, hp, hu⟩)
        · exact ⟨_, .output hs List.mem_cons_self, hu⟩
        · exact ⟨_, .output hs (List.mem_cons_of_mem _ List.mem_cons_self), hu⟩
        · exact ⟨p, .state hs hq hqb hp, hu⟩
      · rintro ⟨p, hp, hu⟩
        cases hp with
        | out hg' => exact absurd hg' hg
        | input hg' => exact absurd hg' hg
        | output _ hp =>
          rw [List.map_cons, List.map_cons, List.map_nil, List.mem_cons, List.mem_singleton] at hp
          rcases hp with rfl | rfl
          · exact Or.inl hu
          · exact Or.inr (Or.inl hu)
        | state _ hq hqb hp => exact Or.inr (Or.inr ⟨⟨hq, hqb⟩, p, hp, hu⟩)
        | port ht' => exact absurd ht' ht
    · have ht : c.type = .tristate := by
        simpa [ComponentType.isDigital, hg, hs] using hdig
      rw [if_neg hs, if_pos ht, emitTristate_fails h]
      constructor
      · rintro ⟨p, hp, hu⟩
        exact ⟨p, .port ht hp, hu⟩
      · rintro ⟨p, hp, hu⟩
        cases hp with
        | out hg' => exact absurd hg' hg
        | input hg' => exact absurd hg' hg
        | output hs' => exact absurd hs' hs
        | state hs' => exact absurd hs' hs
        | port _ hp => exact ⟨p, hp, hu⟩

end

/-- No error of the emitter is a refusal. -/
theorem digitalNodeOf_throws (c : Component) (nodeMap : Map Text Text) (plan : MixedSignalPlan)
    (p : Text) : Outcome.Throws (¬ IsRefusal ·) (digitalNodeOf c nodeMap plan p) := by
  intro e he
  rcases digitalNodeOf_cases (c := c) nodeMap plan p with ⟨_, _, hok⟩ | ⟨_, _, hok⟩ | ⟨_, _, m, hm⟩
  · rw [hok] at he
    cases he
  · rw [hok] at he
    cases he
  · rw [hm] at he
    cases he
    exact id

theorem emitDigitalComponent_throws (c : Component) (nodeMap : Map Text Text)
    (plan : MixedSignalPlan) :
    Outcome.Throws (¬ IsRefusal ·) (emitDigitalComponent c nodeMap plan) := by
  have hnode := digitalNodeOf_throws c nodeMap plan
  unfold emitDigitalComponent
  split
  · exact .ok
  · dsimp only
    split_ifs
    · refine (hnode _).bind fun out _ => ?_
      cases out with
      | none => exact .ok
      | some out =>
        refine (Outcome.Throws.mapM fun p _ => hnode p).bind fun inputs _ => ?_
        split
        · exact .ok
        · exact .ok
        · split_ifs <;> exact .ok
    · refine (hnode _).bind fun q _ => (hnode _).bind fun qb _ => ?_
      split
      · refine (hnode _).bind fun s _ => (hnode _).bind fun r _ => ?_
        dsimp only
        split
        · refine (Outcome.Throws.mapM fun p _ => hnode p).bind fun inputs _ => ?_
          split <;> exact .ok
        · exact .ok
      · exact .ok
    · refine (Outcome.Throws.mapM fun p _ => hnode p).bind fun inputs _ => ?_
      split <;> exact .ok
    · exact .ok

/-! ## The deck -/

/-- The guards in front of the loop over the components. -/
def deckGuards (circuit : CircuitJson) (analysis : AnalysisConfig) (options : NetlistOptions) :
    Except Thrown (Map Text Text) := do
  let owners ← claimNodes [] (buildNodeMap circuit.nets)
  checkAc circuit analysis
  let (emitted, _) ←
    declareModels (defaultModels circuit) ((deckModels circuit).map fun m => (m.name, m.body))
  let (emitted, _) ←
    declareModels emitted ((zenerModels circuit).map fun m => (m.name, m.body))
  let _ ← declareModels emitted
    ((deckPlan circuit options).modelCards.map fun card => (modelCardName card, card))
  return owners

/-- The loop over the components comes to a digital device that looks up a pin on a net that is not
listed: the guards in front of the loop pass, and so do the components in front of the device. -/
def ReachesUnlisted (circuit : CircuitJson) (analysis : AnalysisConfig) (options : NetlistOptions) :
    Prop :=
  ∃ owners, deckGuards circuit analysis options = .ok owners ∧
    ∃ done c rest, circuit.components = done ++ c :: rest ∧
      (∃ e, done.foldlM (emitStep (emitContext circuit options)) { nodeOwner := owners } = .ok e) ∧
      c.type.isDigital = true ∧ ∃ p, Reads circuit c p ∧ Unlisted circuit c p

theorem refuses_deckGuards (circuit : CircuitJson) (analysis : AnalysisConfig)
    (options : NetlistOptions) : Refuses (deckGuards circuit analysis options) :=
  (refuses_claimNodes _ _).bind fun _ _ => (refuses_checkAc _ _).bind fun _ _ =>
    (refuses_declareModels _ _).bind fun _ _ => (refuses_declareModels _ _).bind fun _ _ =>
      (refuses_declareModels _ _).bind fun _ _ => .ok

/-- An error of the generator is a refusal or comes out of the loop. -/
theorem generateDeck_throws {now : Timestamp} {circuit : CircuitJson} {analysis : AnalysisConfig}
    {options : NetlistOptions} (hfiles : options.includeFiles = none) {e : Thrown}
    (h : generateDeck now circuit analysis options = .error e) :
    IsRefusal e ∨ ∃ owners, deckGuards circuit analysis options = .ok owners ∧
      circuit.components.foldlM (emitStep (emitContext circuit options)) { nodeOwner := owners } =
        .error e := by
  rcases Outcome.bind_eq_error.mp h with h | ⟨owners, howners, h⟩
  · exact Or.inl (refuses_claimNodes _ _ e h)
  rcases Outcome.bind_eq_error.mp h with h | ⟨u, hac, h⟩
  · exact Or.inl (refuses_checkAc _ _ e h)
  rcases Outcome.bind_eq_error.mp h with h | ⟨models, hmodels, h⟩
  · exact Or.inl (refuses_declareModels _ _ e h)
  rcases Outcome.bind_eq_error.mp h with h | ⟨zeners, hzeners, h⟩
  · exact Or.inl (refuses_declareModels _ _ e h)
  rcases Outcome.bind_eq_error.mp h with h | ⟨digitals, hdigitals, h⟩
  · exact Or.inl (refuses_declareModels _ _ e h)
  rcases Outcome.bind_eq_error.mp h with h | ⟨includes, _, h⟩
  · rw [includeLines_of_none hfiles] at h
    cases h
  have hguards : deckGuards circuit analysis options = .ok owners :=
    Outcome.bind_eq_ok.mpr ⟨owners, howners, Outcome.bind_eq_ok.mpr ⟨u, hac,
      Outcome.bind_eq_ok.mpr ⟨models, hmodels, Outcome.bind_eq_ok.mpr ⟨zeners, hzeners,
        Outcome.bind_eq_ok.mpr ⟨digitals, hdigitals, rfl⟩⟩⟩⟩⟩
  rcases Outcome.bind_eq_error.mp h with h | ⟨loop, _, h⟩
  · exact Or.inr ⟨owners, hguards, h⟩
  rcases Outcome.bind_eq_error.mp h with h | ⟨seen, _, h⟩
  · exact Or.inl (refuses_checkDevices _ _ e h)
  rcases Outcome.bind_eq_error.mp h with h | ⟨_, _, h⟩
  · exact Or.inl (refuses_checkProbes _ _ e h)
  · cases h

/-- What the loop throws, the generator throws. -/
theorem generateDeck_of_loop {now : Timestamp} {circuit : CircuitJson} {analysis : AnalysisConfig}
    {options : NetlistOptions} (hfiles : options.includeFiles = none) {e : Thrown}
    {owners : Map Text Text} (hguards : deckGuards circuit analysis options = .ok owners)
    (h : circuit.components.foldlM (emitStep (emitContext circuit options))
      { nodeOwner := owners } = .error e) :
    generateDeck now circuit analysis options = .error e := by
  obtain ⟨owners', howners, hguards⟩ := Outcome.bind_eq_ok.mp hguards
  obtain ⟨u, hac, hguards⟩ := Outcome.bind_eq_ok.mp hguards
  obtain ⟨models, hmodels, hguards⟩ := Outcome.bind_eq_ok.mp hguards
  obtain ⟨zeners, hzeners, hguards⟩ := Outcome.bind_eq_ok.mp hguards
  obtain ⟨digitals, hdigitals, hguards⟩ := Outcome.bind_eq_ok.mp hguards
  cases Outcome.pure_eq_ok.mp hguards
  refine Outcome.bind_eq_error.mpr (Or.inr ⟨_, howners, ?_⟩)
  refine Outcome.bind_eq_error.mpr (Or.inr ⟨_, hac, ?_⟩)
  refine Outcome.bind_eq_error.mpr (Or.inr ⟨_, hmodels, ?_⟩)
  refine Outcome.bind_eq_error.mpr (Or.inr ⟨_, hzeners, ?_⟩)
  refine Outcome.bind_eq_error.mpr (Or.inr ⟨_, hdigitals, ?_⟩)
  refine Outcome.bind_eq_error.mpr (Or.inr ⟨_, includeLines_of_none hfiles, ?_⟩)
  exact Outcome.bind_eq_error.mpr (Or.inl h)

/-- A component that throws no refusal is a digital device with an unlisted net. -/
theorem emitStep_throws {circuit : CircuitJson} {options : NetlistOptions} {e : Emission}
    {c : Component} (hc : c ∈ circuit.components) {t : Thrown}
    (h : emitStep (emitContext circuit options) e c = .error t) :
    IsRefusal t ∨ c.type.isDigital = true ∧ ∃ p, Reads circuit c p ∧ Unlisted circuit c p := by
  rcases Outcome.bind_eq_error.mp h with h | ⟨emitted, _, h⟩
  · unfold emitComponent at h
    split_ifs at h with hknown hdig
    · cases h
      exact Or.inl trivial
    · obtain ⟨st, A, D, hspec, hplan, hmodel⟩ := deckPlan_of_digital circuit options ⟨c, hc, hdig⟩
      have hfails := Outcome.map_eq_error.mp h
      rw [show (emitContext circuit options).plan = st.plan from hplan] at hfails
      exact Or.inr ⟨hdig, (emitDigitalComponent_fails hspec hc hdig (hmodel c hc hdig)).mp ⟨t, hfails⟩⟩
    · exact Or.inl (refuses_componentToSpice _ _ _ _ t h)
  · dsimp only at h
    split_ifs at h
    · rcases Outcome.bind_eq_error.mp h with h | ⟨owners, _, h⟩
      · exact Or.inl (refuses_claimMidNodes _ _ _ t h)
      · cases h
    · cases h

/-- A digital device with an unlisted net throws no refusal. -/
theorem emitStep_of_unlisted (options : NetlistOptions) {circuit : CircuitJson} {c : Component}
    (hc : c ∈ circuit.components) (hdig : c.type.isDigital = true)
    (hu : ∃ p, Reads circuit c p ∧ Unlisted circuit c p) (e : Emission) :
    ∃ t, emitStep (emitContext circuit options) e c = .error t ∧ ¬ IsRefusal t := by
  obtain ⟨st, A, D, hspec, hplan, hmodel⟩ := deckPlan_of_digital circuit options ⟨c, hc, hdig⟩
  obtain ⟨t, ht⟩ := (emitDigitalComponent_fails hspec hc hdig (hmodel c hc hdig)).mpr hu
  have hknown : c.type.isKnown = true := by
    revert hdig
    cases c.type <;> simp [ComponentType.isKnown, ComponentType.isDigital,
      ComponentType.isLogicGate, ComponentType.isSequential]
  refine ⟨t, Outcome.bind_eq_error.mpr (Or.inl ?_), emitDigitalComponent_throws _ _ _ t ht⟩
  unfold emitComponent
  rw [hknown, if_neg (by decide), if_pos hdig,
    show (emitContext circuit options).plan = st.plan from hplan]
  exact Outcome.map_eq_error.mpr ht

/-- The generator returns a deck or refuses, so `validateDeck` answers. -/
def Typed (now : Timestamp) (circuit : CircuitJson) (analysis : AnalysisConfig)
    (options : NetlistOptions) : Prop :=
  ((∃ text, generateNetlist now circuit analysis options = .ok text) ∨
    ∃ message, generateNetlist now circuit analysis options = .error (.refusal message)) ∧
  ∃ answer, validateDeck now circuit analysis options = .ok answer

theorem typed_iff_refuses {now : Timestamp} {circuit : CircuitJson} {analysis : AnalysisConfig}
    {options : NetlistOptions} :
    Typed now circuit analysis options ↔ Refuses (generateDeck now circuit analysis options) := by
  unfold Typed validateDeck generateNetlist
  cases generateDeck now circuit analysis options with
  | ok d => exact iff_of_true ⟨Or.inl ⟨_, rfl⟩, _, rfl⟩ .ok
  | error e =>
    cases e with
    | refusal message => exact iff_of_true ⟨Or.inr ⟨_, rfl⟩, _, rfl⟩ (refuses_refusal _)
    | security e =>
      refine iff_of_false ?_ fun h => h _ rfl
      rintro ⟨⟨_, h⟩ | ⟨_, h⟩, _⟩ <;> cases h
    | error message =>
      refine iff_of_false ?_ fun h => h _ rfl
      rintro ⟨⟨_, h⟩ | ⟨_, h⟩, _⟩ <;> cases h

/-- The errors of the generator are refusals unless the loop comes to a digital device that looks
up a pin on an unlisted net. -/
theorem deck_typed_iff (now : Timestamp) (circuit : CircuitJson) (analysis : AnalysisConfig)
    (options : NetlistOptions) (hfiles : options.includeFiles = none) :
    Typed now circuit analysis options ↔ ¬ ReachesUnlisted circuit analysis options := by
  rw [typed_iff_refuses]
  constructor
  · rintro h ⟨owners, hguards, done, c, rest, hcs, ⟨e, he⟩, hdig, hu⟩
    have hc : c ∈ circuit.components := by simp [hcs]
    obtain ⟨t, ht, hnot⟩ := emitStep_of_unlisted options hc hdig hu e
    refine hnot (h t (generateDeck_of_loop hfiles hguards ?_))
    exact Outcome.foldlM_eq_error.mpr ⟨done, c, rest, e, hcs, he, ht⟩
  · intro hnot t ht
    rcases generateDeck_throws hfiles ht with h | ⟨owners, hguards, hloop⟩
    · exact h
    · obtain ⟨done, c, rest, e, hcs, he, hstep⟩ := Outcome.foldlM_eq_error.mp hloop
      have hc : c ∈ circuit.components := by simp [hcs]
      rcases emitStep_throws hc hstep with h | ⟨hdig, hu⟩
      · exact h
      · exact absurd ⟨owners, hguards, done, c, rest, hcs, ⟨e, he⟩, hdig, hu⟩ hnot

/-- A circuit whose digital pins stand on listed nets is refused in type. -/
theorem typed_of_listed (now : Timestamp) {circuit : CircuitJson} (analysis : AnalysisConfig)
    {options : NetlistOptions} (hfiles : options.includeFiles = none)
    (hlisted : ∀ c ∈ circuit.components, c.type.isDigital = true →
      ∀ pin ∈ c.pins, pin.netId ∈ circuit.nets.map Net.id) :
    Refuses (generateDeck now circuit analysis options) := by
  intro t ht
  rcases generateDeck_throws hfiles ht with h | ⟨owners, hguards, hloop⟩
  · exact h
  · obtain ⟨done, c, rest, e, hcs, he, hstep⟩ := Outcome.foldlM_eq_error.mp hloop
    have hc : c ∈ circuit.components := by simp [hcs]
    rcases emitStep_throws hc hstep with h | ⟨hdig, p, _, hfind, hnode⟩
    · exact h
    · obtain ⟨pin, hpin⟩ := Option.isSome_iff_exists.mp hfind
      exact absurd (Or.inr ⟨pin, hpin, hlisted c hc hdig pin (List.mem_of_find?_eq_some hpin)⟩) hnode

end

/-- An inverter whose output stands on a net that is not listed. -/
def strayOutput : CircuitJson where
  nets := [⟨"in".toList, "in".toList, false, false⟩]
  components := [
    { id := ['1'], type := .logicNot, designator := "U1".toList
      pins := [⟨"in1".toList, "in".toList⟩, ⟨"out".toList, "out".toList⟩] }]

theorem deck_untyped_strayOutput :
    circuitJsonSchema strayOutput = true ∧ analysisConfigSchema (.op {}) = true ∧
      validateDeck epoch strayOutput (.op {}) =
        .error (.error "Net not found: out for component U1 (logic_not)".toList) ∧
      ¬ Typed epoch strayOutput (.op {}) {} := by
  have hfault : validateDeck epoch strayOutput (.op {}) =
      .error (.error "Net not found: out for component U1 (logic_not)".toList) := by
    decide +kernel
  refine ⟨by decide +kernel, by decide +kernel, hfault, ?_⟩
  rintro ⟨_, answer, h⟩
  rw [hfault] at h
  cases h

/-- The deck of `splitBoard` is built. -/
theorem deck_typed_splitBoard :
    Typed epoch splitBoard (.op {}) {} ↔ ¬ ReachesUnlisted splitBoard (.op {}) {} :=
  deck_typed_iff epoch splitBoard (.op {}) {} rfl

end CircuitForge
