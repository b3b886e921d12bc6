/-
The names of the models of a deck.

The cards of the five model sections are read back as the engine reads them: a `.model` or a
`.subckt` that stands in no subcircuit declares its second token.  Every section declares each
name once, so two cards declare one name, read without regard to case, exactly when two
definitions of the circuit differ in case only.
-/
import CircuitForge.Netlist.Texts

namespace CircuitForge

open Js

/-! ## Reading cards -/

/-- The names that lines declare at the top level, behind `depth` open subcircuits, and the
subcircuits that are open at the end. -/
def scanNames : Nat → List Text → List Text × Nat
  | depth, [] => ([], depth)
  | depth, line :: rest =>
    let card := trimStart line
    if startsWithI card ".ends".toList then scanNames (depth - 1) rest
    else if startsWithI card ".subckt".toList then
      let (names, open') := scanNames (depth + 1) rest
      (if depth = 0 then modelCardName card :: names else names, open')
    else if startsWithI card ".model".toList ∧ depth = 0 then
      let (names, open') := scanNames depth rest
      (modelCardName card :: names, open')
    else scanNames depth rest

/-- The one top-level card of a definition declares its name. -/
def Declares (body name : Text) : Prop := scanNames 0 (splitLines body) = ([name], 0)

instance (body name : Text) : Decidable (Declares body name) :=
  inferInstanceAs (Decidable (_ = _))

theorem scanNames_append {depth open' : Nat} {lines rest names : List Text}
    (h : scanNames depth lines = (names, open')) :
    scanNames depth (lines ++ rest) =
      (names ++ (scanNames open' rest).1, (scanNames open' rest).2) := by
  induction lines generalizing depth names open' with
  | nil =>
    cases h
    rfl
  | cons line lines ih =>
    rw [List.cons_append, scanNames]
    rw [scanNames] at h
    dsimp only at h ⊢
    split_ifs at h ⊢
    · exact ih h
    · obtain ⟨rfl, rfl⟩ := Prod.mk.inj h
      rw [ih rfl, List.cons_append]
    · obtain ⟨rfl, rfl⟩ := Prod.mk.inj h
      rw [ih rfl]
    · obtain ⟨rfl, rfl⟩ := Prod.mk.inj h
      rw [ih rfl, List.cons_append]
    · exact ih h

/-- The names of definitions that follow each other. -/
theorem scanNames_flatMap {defs : List (Text × Text)} (h : ∀ e ∈ defs, Declares e.2 e.1) :
    scanNames 0 ((defs.map Prod.snd).flatMap splitLines) = (defs.map Prod.fst, 0) := by
  induction defs with
  | nil => rfl
  | cons e defs ih =>
    rw [List.forall_mem_cons] at h
    rw [List.map_cons, List.flatMap_cons, scanNames_append h.1, ih h.2]
    rfl

theorem declares_of_model {card : Text} (hline : OneLine card)
    (h : ∃ r, card = ".model".toList ++ r) : Declares card (modelCardName card) := by
  obtain ⟨r, hr⟩ := h
  have hhead : trimStart card = card := by
    rw [hr]
    exact trimStart_of_head (c := '.') rfl
  have hcase : startsWithI card ".ends".toList = false ∧ startsWithI card ".subckt".toList = false ∧
      startsWithI card ".model".toList = true := by
    rw [hr]
    exact ⟨rfl, rfl, rfl⟩
  rw [Declares, splitLines_of_oneLine hline, scanNames, hhead, hcase.1, hcase.2.1, hcase.2.2]
  rfl

/-! ## Sections -/

/-- A section emits the definitions whose names are new. -/
theorem declareModels_ok {emitted emitted' : Map Text Text} {entries : List (Text × Text)}
    {lines : List Text} (h : declareModels emitted entries = .ok (emitted', lines)) :
    ∃ defs : List (Text × Text), defs.Sublist entries ∧ lines = defs.map Prod.snd ∧
      emitted'.map Prod.fst = emitted.map Prod.fst ++ defs.map Prod.fst ∧
        (emitted.Keyed → emitted'.Keyed) ∧ ∀ e ∈ entries, e.1 ∈ emitted'.map Prod.fst := by
  induction entries generalizing emitted emitted' lines with
  | nil =>
    cases h
    exact ⟨[], .slnil, rfl, by simp, id, List.forall_mem_nil _⟩
  | cons e entries ih =>
    obtain ⟨name, body⟩ := e
    rw [declareModels] at h
    cases hprev : emitted.get? name with
    | some existing =>
      simp only [hprev] at h
      split_ifs at h
      obtain ⟨defs, hsub, hlines, hkeys, hkeyed, hall⟩ := ih h
      refine ⟨defs, hsub.cons _, hlines, hkeys, hkeyed, List.forall_mem_cons.mpr ⟨?_, hall⟩⟩
      rw [hkeys]
      exact List.mem_append_left _ (List.mem_map.mpr ⟨_, Map.mem_of_get? hprev, rfl⟩)
    | none =>
      simp only [hprev] at h
      obtain ⟨⟨emitted₁, lines₁⟩, hrest, h⟩ := Outcome.bind_eq_ok.mp h
      cases Outcome.pure_eq_ok.mp h
      obtain ⟨defs, hsub, hlines, hkeys, hkeyed, hall⟩ := ih hrest
      rw [Map.keys_set, if_neg (Map.get?_eq_none_iff.mp hprev)] at hkeys
      refine ⟨(name, body) :: defs, hsub.cons_cons _, by rw [hlines]; rfl, ?_,
        fun hk => hkeyed (hk.set _ _), List.forall_mem_cons.mpr ⟨?_, hall⟩⟩
      · rw [hkeys, List.append_assoc, List.singleton_append]
        rfl
      · rw [hkeys]
        exact List.mem_append_left _ (List.mem_append_right _ List.mem_cons_self)

/-! ## What the sections define -/

/-- A generic model declares its name. -/
theorem declares_generic : ∀ m ∈ genericModels, Declares m.body m.name := by
  simp only [genericModels, genericModel, List.forall_mem_cons, List.map_cons, List.map_nil,
    String.toList_append]
  -- the literals as lists of characters, which are cheaper to evaluate
  repeat rw [String.toList_ofList]
  decide +kernel

theorem declares_defaultDiode : Declares defaultDiodeModel "DDEFAULT".toList := by
  decide +kernel

/-- The second token of a card is its name. -/
theorem modelCardName_of_solid {name : Text} (hs : Solid name) (hne : name ≠ []) (rest : Text) :
    modelCardName (".model ".toList ++ (name ++ ' ' :: rest)) = name := by
  have hblank : BlankLed (' ' :: rest) := blankLed_cons.mpr rfl
  have htail : afterToken (".model ".toList ++ (name ++ ' ' :: rest)) =
      ' ' :: (name ++ ' ' :: rest) :=
    afterToken_of_solid (s := ".model".toList) (by decide) (blankLed_cons.mpr rfl)
  obtain ⟨c, r, rfl⟩ := List.exists_cons_of_ne_nil hne
  have hc : isSpace c = false := (solid_cons.mp hs).1
  have htoken : firstToken (trimStart (afterToken
      (".model ".toList ++ ((c :: r) ++ ' ' :: rest)))) = c :: r := by
    rw [htail, show trimStart (' ' :: ((c :: r) ++ ' ' :: rest)) =
      trimStart ((c :: r) ++ ' ' :: rest) from rfl, List.cons_append, trimStart_of_head hc,
      ← List.cons_append]
    exact firstToken_of_solid hs hblank
  have hone := splitBlanks_one (".model ".toList ++ ((c :: r) ++ ' ' :: rest))
  rw [htoken] at hone
  rw [modelCardName, (truthy_eq_some.mp (hone.trans rfl)).1]
  rfl

section

variable [Runtime]

theorem solid_zenerName (v : Runtime.Num) : Solid (zenerName v) := by
  rw [zenerName, solid_append]
  refine ⟨by decide, fun c hc => ?_⟩
  obtain ⟨d, hd, rfl⟩ := List.mem_map.mp hc
  split_ifs
  · rfl
  · exact Runtime.solid_toText v d hd

theorem declares_zener {vz : Text} {m : ModelDef} (h : buildZenerModel vz = some m) :
    Declares m.body m.name := by
  have hline := (oneLine_zenerModel h).2
  obtain ⟨v, -, rfl⟩ := Option.map_eq_some_iff.mp h
  dsimp only at hline ⊢
  have hname : modelCardName (".model ".toList ++ zenerName v ++
      " D(IS=1e-14 N=1 RS=1 BV=".toList ++ Runtime.toText v ++ " IBV=5m)".toList) = zenerName v := by
    rw [List.append_assoc, List.append_assoc, List.append_assoc]
    exact modelCardName_of_solid (solid_zenerName v) (List.cons_ne_nil _ _) _
  have hdeclares := declares_of_model hline ⟨_, rfl⟩
  rwa [hname] at hdeclares

section

variable {P : Text → Prop} {st : PlanState}

omit [Runtime] in
theorem forall_addModel {cards : List Text} (h : ∀ card ∈ cards, P card) {card : Text} (hc : P card) :
    ∀ c ∈ (if card ∈ cards then cards else cards ++ [card]), P c := by
  by_cases hmem : card ∈ cards
  · rwa [if_pos hmem]
  · rw [if_neg hmem]
    exact List.forall_mem_append.mpr ⟨h, List.forall_mem_singleton.mpr hc⟩

theorem modelCards_bridgeMixedNet (hadc : ∀ v, P (adcModel v)) (hdac : ∀ v, P (dacModel v))
    (h : ∀ card ∈ st.plan.modelCards, P card) (circuit : CircuitJson) (vdd : Runtime.Num)
    (netId node : Text) (r : NetRoles) :
    ∀ card ∈ (bridgeMixedNet circuit vdd st netId node r).plan.modelCards, P card := by
  rw [bridgeMixedNet]
  dsimp only
  by_cases hs : 0 < r.digitalSource
  · rw [if_pos hs]
    exact forall_addModel h (hdac vdd)
  · rw [if_neg hs]
    exact forall_addModel h (hadc vdd)

theorem modelCards_bridgeDigitalNet (hdac : ∀ v, P (dacModel v))
    (h : ∀ card ∈ st.plan.modelCards, P card) (vdd : Runtime.Num) (netId node : Text) (r : NetRoles) :
    ∀ card ∈ (bridgeDigitalNet vdd st netId node r).plan.modelCards, P card := by
  rw [bridgeDigitalNet]
  by_cases hs : 0 < r.digitalSource
  · rw [if_pos hs]
    exact forall_addModel h (hdac vdd)
  · rwa [if_neg hs]

theorem modelCards_bridgeNet (hadc : ∀ v, P (adcModel v)) (hdac : ∀ v, P (dacModel v))
    (h : ∀ card ∈ st.plan.modelCards, P card) (circuit : CircuitJson) (nodeMap : Map Text Text)
    (vdd : Runtime.Num) (e : Text × NetRoles) :
    ∀ card ∈ (bridgeNet circuit nodeMap vdd st e).plan.modelCards, P card := by
  rw [bridgeNet]
  by_cases hnone : e.2.digitalSource + e.2.digitalSink = 0
  · rwa [if_pos hnone]
  · rw [if_neg hnone]
    cases truthy (nodeMap.get? e.1) with
    | none => exact h
    | some node =>
      dsimp only
      by_cases ha : 0 < e.2.analog
      · rw [if_pos ha]
        exact modelCards_bridgeMixedNet hadc hdac h circuit vdd e.1 node e.2
      · rw [if_neg ha]
        exact modelCards_bridgeDigitalNet hdac h vdd e.1 node e.2

theorem modelCards_addLowRail (hadc : ∀ v, P (adcModel v))
    (h : ∀ card ∈ st.plan.modelCards, P card) (vdd : Runtime.Num) :
    ∀ card ∈ (addLowRail vdd st).plan.modelCards, P card :=
  forall_addModel h (hadc vdd)

theorem modelCards_nameModel (htiming : ∀ r, P (".model ".toList ++ r))
    {acc : PlanState × ModelNames} (h : ∀ card ∈ acc.1.plan.modelCards, P card) (c : Component) :
    ∀ card ∈ (nameModel acc c).1.plan.modelCards, P card := by
  rw [nameModel]
  cases digitalDevice c.type with
  | none => exact h
  | some db =>
    dsimp only
    cases truthy (acc.2.nameByParamKey.get? (db.2 ++ '|' :: digitalParams c)) with
    | some name => exact h
    | none =>
      refine forall_addModel h ?_
      rw [List.append_assoc, List.append_assoc, List.append_assoc]
      exact htiming _

end

/-- The cards of a plan have what the bridge models and the timing models have. -/
theorem deckPlan_modelCards {P : Text → Prop} (hadc : ∀ v, P (adcModel v)) (hdac : ∀ v, P (dacModel v))
    (htiming : ∀ r, P (".model ".toList ++ r)) (circuit : CircuitJson) (options : NetlistOptions) :
    ∀ card ∈ (deckPlan circuit options).modelCards, P card := by
  have hnames : ∀ (cs : List Component) (acc : PlanState × ModelNames),
      (∀ card ∈ acc.1.plan.modelCards, P card) →
        ∀ card ∈ (cs.foldl nameModel acc).1.plan.modelCards, P card := by
    intro cs
    induction cs with
    | nil => exact fun _ h => h
    | cons c cs ih => exact fun acc h => ih _ (modelCards_nameModel htiming h c)
  have hbridges : ∀ (nodeMap : Map Text Text) (vdd : Runtime.Num) (es : List (Text × NetRoles))
      (st : PlanState), (∀ card ∈ st.plan.modelCards, P card) →
        ∀ card ∈ (es.foldl (bridgeNet circuit nodeMap vdd) st).plan.modelCards, P card := by
    intro nodeMap vdd es
    induction es with
    | nil => exact fun _ h => h
    | cons e es ih => exact fun st h => ih _ (modelCards_bridgeNet hadc hdac h circuit nodeMap vdd e)
  unfold deckPlan planMixedSignal
  split_ifs
  · unfold planState
    dsimp only
    split_ifs
    · exact modelCards_addLowRail hadc
        (hbridges _ _ _ _ (hnames _ _ (List.forall_mem_nil _))) _
    · exact hbridges _ _ _ _ (hnames _ _ (List.forall_mem_nil _))
  · exact List.forall_mem_nil _

/-- A digital or bridge model declares the name it is kept under. -/
theorem declares_modelCard {circuit : CircuitJson} {options : NetlistOptions} {card : Text}
    (h : card ∈ (deckPlan circuit options).modelCards) : Declares card (modelCardName card) := by
  refine declares_of_model ((deckPlan_lines circuit options).models card h) ?_
  refine deckPlan_modelCards (P := fun card => ∃ r, card = ".model".toList ++ r) (fun v => ?_)
    (fun v => ?_) (fun r => ⟨' ' :: r, rfl⟩) circuit options card h
  · exact ⟨_, rfl⟩
  · exact ⟨_, rfl⟩

/-! ## The deck -/

/-- The cards of the five model sections. -/
def Deck.modelCards (d : Deck) : List Text :=
  (if d.defaultDiode then [defaultDiodeModel] else []) ++ d.models ++ d.zenerModels ++ d.digitalModels

/-- The names that the model sections declare at the top level. -/
def Deck.modelNames (d : Deck) : List Text :=
  (scanNames 0 (d.modelCards.flatMap splitLines)).1

/-- What the circuit defines, section by section: the default diode, its models and the generic
ones, those of its zener diodes, and those of its digital devices and bridges. -/
def definitions (circuit : CircuitJson) (options : NetlistOptions) : List (Text × Text) :=
  defaultModels circuit ++ (deckModels circuit).map (fun m => (m.name, m.body)) ++
    (zenerModels circuit).map (fun m => (m.name, m.body)) ++
      (deckPlan circuit options).modelCards.map fun card => (modelCardName card, card)

/-- Each definition declares its own name, if the circuit's models do. -/
theorem declares_definitions {circuit : CircuitJson} {options : NetlistOptions}
    (hbody : ∀ m ∈ circuit.models.getD [], Declares m.body m.name) :
    ∀ e ∈ definitions circuit options, Declares e.2 e.1 := by
  intro e he
  simp only [definitions, List.mem_append] at he
  rcases he with ((he | he) | he) | he
  · unfold defaultModels at he
    split_ifs at he
    · obtain rfl := List.mem_singleton.mp he
      exact declares_defaultDiode
    · cases he
  · obtain ⟨m, hm, rfl⟩ := List.mem_map.mp he
    rcases List.mem_append.mp hm with hm | hm
    · exact hbody m hm
    · exact declares_generic m (mem_resolveFrom m hm)
  · obtain ⟨m, hm, rfl⟩ := List.mem_map.mp he
    obtain ⟨c, -, hc⟩ := List.mem_filterMap.mp hm
    obtain ⟨vz, -, hbuild⟩ := Option.bind_eq_some_iff.mp hc
    exact declares_zener hbuild
  · obtain ⟨card, hcard, rfl⟩ := List.mem_map.mp he
    exact declares_modelCard hcard

theorem keyed_defaultModels (circuit : CircuitJson) : (defaultModels circuit).Keyed := by
  unfold defaultModels
  split_ifs
  · exact List.nodup_singleton _
  · exact Map.Keyed.nil

/-- A deck emits the definitions whose names are new, in their order. -/
theorem modelCards_ok {now : Timestamp} {circuit : CircuitJson} {analysis : AnalysisConfig}
    {options : NetlistOptions} {d : Deck}
    (h : generateDeck now circuit analysis options = .ok d) :
    ∃ defs : List (Text × Text), d.modelCards = defs.map Prod.snd ∧ (defs.map Prod.fst).Nodup ∧
      (∀ e ∈ defs, e ∈ definitions circuit options) ∧
        ∀ e ∈ definitions circuit options, e.1 ∈ defs.map Prod.fst := by
  obtain ⟨parts, ⟨run⟩, rfl⟩ := generateDeck_ok h
  obtain ⟨models, hmodels, hlines, hkeys, hkeyed, hall⟩ := declareModels_ok run.models
  obtain ⟨zeners, hzeners, hlines', hkeys', hkeyed', hall'⟩ := declareModels_ok run.zeners
  obtain ⟨digitals, hdigitals, hlines'', hkeys'', hkeyed'', hall''⟩ := declareModels_ok run.digitals
  have hnames : run.withDigitals.map Prod.fst =
      (defaultModels circuit ++ models ++ zeners ++ digitals).map Prod.fst := by
    rw [hkeys'', hkeys', hkeys, List.map_append, List.map_append, List.map_append]
  refine ⟨defaultModels circuit ++ models ++ zeners ++ digitals, ?_, ?_, fun e he => ?_, ?_⟩
  · have hdefault : (if needsDiodeModel circuit then [defaultDiodeModel] else []) =
        (defaultModels circuit).map Prod.snd := by
      unfold defaultModels
      split_ifs <;> rfl
    rw [List.map_append, List.map_append, List.map_append, ← hlines, ← hlines', ← hlines'',
      ← hdefault]
    rfl
  · exact hnames ▸ hkeyed'' (hkeyed' (hkeyed (keyed_defaultModels circuit)))
  · simp only [List.mem_append] at he
    simp only [definitions, List.mem_append]
    rcases he with ((he | he) | he) | he
    · exact .inl (.inl (.inl he))
    · exact .inl (.inl (.inr (hmodels.mem he)))
    · exact .inl (.inr (hzeners.mem he))
    · exact .inr (hdigitals.mem he)
  · rw [← hnames]
    have hkept : ∀ {name}, name ∈ run.declared.map Prod.fst → name ∈ run.withDigitals.map Prod.fst := by
      intro name hname
      rw [hkeys'', hkeys']
      exact List.mem_append_left _ (List.mem_append_left _ hname)
    intro e he
    simp only [definitions, List.mem_append] at he
    rcases he with ((he | he) | he) | he
    · refine hkept ?_
      rw [hkeys]
      exact List.mem_append_left _ (List.mem_map_of_mem he)
    · exact hkept (hall e he)
    · rw [hkeys'']
      exact List.mem_append_left _ (hall' e he)
    · exact hall'' e he

/-- A deck declares every name that is defined, and each once. -/
theorem modelNames_ok {now : Timestamp} {circuit : CircuitJson} {analysis : AnalysisConfig}
    {options : NetlistOptions} {d : Deck}
    (hbody : ∀ m ∈ circuit.models.getD [], Declares m.body m.name)
    (h : generateDeck now circuit analysis options = .ok d) :
    d.modelNames.Nodup ∧
      ∀ name, name ∈ d.modelNames ↔ name ∈ (definitions circuit options).map Prod.fst := by
  obtain ⟨defs, hcards, hnodup, hsub, hall⟩ := modelCards_ok h
  have hnames : d.modelNames = defs.map Prod.fst := by
    rw [Deck.modelNames, hcards,
      scanNames_flatMap fun e he => declares_definitions hbody e (hsub e he)]
  rw [hnames]
  refine ⟨hnodup, fun name => ⟨fun hname => ?_, fun hname => ?_⟩⟩
  · obtain ⟨e, he, rfl⟩ := List.mem_map.mp hname
    exact List.mem_map_of_mem (hsub e he)
  · obtain ⟨e, he, rfl⟩ := List.mem_map.mp hname
    exact hall e he

end

/-- Two diodes with models of one name in two spellings. -/
def twoSpellings : CircuitJson where
  nets := [⟨"in".toList, [], false, false⟩, ⟨"gnd".toList, [], true, false⟩]
  components := [
    { id := ['1'], type := .diode, designator := "D1".toList, model := some "DX".toList
      pins := [⟨"anode".toList, "in".toList⟩, ⟨"cathode".toList, "gnd".toList⟩] },
    { id := ['2'], type := .diode, designator := "D2".toList, model := some "dx".toList
      pins := [⟨"anode".toList, "in".toList⟩, ⟨"cathode".toList, "gnd".toList⟩] }]
  models := some [⟨"DX".toList, .diode, ".model DX D(IS=1e-14)".toList, none⟩,
    ⟨"dx".toList, .diode, ".model dx D(IS=1e-9)".toList, none⟩]

/-- One of the two diodes alone. -/
def oneSpelling : CircuitJson :=
  { twoSpellings with
    components := twoSpellings.components.take 1
    models := twoSpellings.models.map (·.take 1) }

end CircuitForge
