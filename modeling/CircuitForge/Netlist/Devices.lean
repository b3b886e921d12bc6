/-
The devices a deck names outside its component cards.

A `.dc` card, a `.noise` card and the `tf` commands name a device.  The generator looks up the
swept device of a `.dc` card in the map of emitted names; the source of the other two stands as it
is written.  `InstanceName` is what a component's cards are called.
-/
import CircuitForge.Netlist.Domains
import CircuitForge.Schemas.Analysis

namespace CircuitForge

open Js

/-! ## Names of cards -/

theorem name_of_solid {name rest : Text} (hs : Solid name) :
    firstToken (name ++ ' ' :: rest) = name :=
  firstToken_of_solid hs (blankLed_cons.mpr (by decide))

theorem firstToken_cons_ne_nil {c : Char} (h : isSpace c = false) (s : Text) :
    firstToken (c :: s) ≠ [] := by
  rw [firstToken, List.takeWhile_cons, h]
  exact List.cons_ne_nil _ _

/-- What stands behind the last blank. -/
theorem eq_of_last_blank {a b s t : Text} (hs : ' ' ∉ s) (ht : ' ' ∉ t)
    (h : a ++ ' ' :: s = b ++ ' ' :: t) : s = t := by
  rcases List.append_eq_append_iff.mp h with ⟨c, _, h⟩ | ⟨c, _, h⟩
  · cases c with
    | nil => exact (List.cons.inj h).2
    | cons x xs =>
      rw [(List.cons.inj h).2] at hs
      exact absurd (List.mem_append_right xs List.mem_cons_self) hs
  · cases c with
    | nil => exact (List.cons.inj h).2.symm
    | cons x xs =>
      rw [(List.cons.inj h).2] at ht
      exact absurd (List.mem_append_right xs List.mem_cons_self) ht

theorem name_element {name : Text} (hs : Solid name) (nodes : List Text) (spec : Text) :
    (Card.element name nodes spec).name = name := by
  rw [Card.name, headD_splitBlanks]
  exact name_of_solid hs

theorem name_gate {name : Text} (hs : Solid name) (inputs : List Text) (output model : Text) :
    (Card.gate name inputs output model).name = name := by
  rw [Card.name, headD_splitBlanks]
  exact name_of_solid hs

theorem name_event {name : Text} (hs : Solid name) (ports : List Text) (model : Text) :
    (Card.event name ports model).name = name := by
  rw [Card.name, headD_splitBlanks]
  exact name_of_solid hs

theorem solid_safeDesignator (designator : Text) : Solid (safeDesignator designator) :=
  solid_of_isWord fun _ hc => (List.mem_filter.mp hc).2

theorem solid_aInstanceName (designator : Text) : Solid (aInstanceName designator) := by
  unfold aInstanceName
  dsimp only
  split_ifs
  · exact solid_safeDesignator designator
  · exact solid_cons.mpr ⟨by decide, solid_safeDesignator designator⟩

theorem isSpace_of_spicePrefix {t : ComponentType} {pre : Char} (h : t.spicePrefix = some pre) :
    isSpace pre = false := by
  unfold ComponentType.spicePrefix at h
  split at h <;> cases h <;> rfl

theorem solid_spiceInstanceName {pre : Char} (hpre : isSpace pre = false) (designator : Text) :
    Solid (spiceInstanceName designator pre) := by
  unfold spiceInstanceName
  dsimp only
  split_ifs
  · exact solid_safeDesignator designator
  · exact solid_cons.mpr ⟨hpre, solid_safeDesignator designator⟩

theorem spiceInstanceName_ne_nil (designator : Text) (pre : Char) :
    spiceInstanceName designator pre ≠ [] := by
  unfold spiceInstanceName
  dsimp only
  split_ifs with h
  · rintro he
    rw [he] at h
    cases h
  · exact List.cons_ne_nil _ _

section

variable [Runtime]

/-- The names of the cards a component comes to. -/
inductive InstanceName (circuit : CircuitJson) (c : Component) : Text → Prop
  | digital : IsWiredDigital circuit c → InstanceName circuit c (aInstanceName c.designator)
  | element {pre : Char} : (deviceSpec [] c).isSome = true → c.type.spicePrefix = some pre →
      InstanceName circuit c (spiceInstanceName c.designator pre)
  | winding {tp : TransformerParams} {pp pn sp sn : Text} {card : Card} :
      c.type = .transformer → parseTransformerParams c.properties = some tp →
      Resolved (buildNodeMap circuit.nets) (pinsInOrder c c.type.pins) [pp, pn, sp, sn] →
      card ∈ transformerCards c.designator pp pn sp sn tp → InstanceName circuit c card.name

omit [Runtime] in
theorem Resolved.unique {nodeMap : Map Text Text} {pins : List PinConnection}
    {nodes nodes' : List Text} (h : Resolved nodeMap pins nodes)
    (h' : Resolved nodeMap pins nodes') : nodes = nodes' := by
  induction h generalizing nodes' with
  | nil =>
    cases h'
    rfl
  | cons hp _ ih =>
    cases h' with
    | cons hp' h' => rw [Option.some.inj (hp.symm.trans hp'), ih h']

/-- A component's cards bear its instance names. -/
theorem instanceName_iff {circuit : CircuitJson} {options : NetlistOptions} {c : Component}
    (hc : c ∈ circuit.components)
    (hemit : emitComponent (emitContext circuit options) c =
      .ok (cardsOf (emitContext circuit options) c)) (s : Text) :
    (∃ card ∈ cardsOf (emitContext circuit options) c, card.name = s) ↔
      InstanceName circuit c s := by
  cases hdig : c.type.isDigital with
  | true =>
    obtain ⟨st, A, D, h, hplan, hmodels⟩ := deckPlan_of_digital circuit options ⟨c, hc, hdig⟩
    obtain ⟨x, hx, hcards⟩ := cardsOf_digital hemit hdig
    rw [show (emitContext circuit options).plan = st.plan from hplan] at hx
    rw [hcards]
    constructor
    · rintro ⟨card, hcard, rfl⟩
      cases hx with
      | device _ hg hres _ _ hform =>
        have hwired := isWired_of_device h hdig hg hres
        rw [Option.toList_some, List.mem_singleton] at hcard
        subst hcard
        have hname : card.name = aInstanceName c.designator := by
          rcases hform with ⟨ins, out, rfl⟩ | rfl
          · exact name_gate (solid_aInstanceName _) _ _ _
          · exact name_event (solid_aInstanceName _) _ _
        rw [hname]
        exact .digital hwired
      | _ => cases hcard
    · intro hs
      cases hs with
      | digital hwired =>
        obtain ⟨card, rfl, _⟩ := device_of_isWired h hc (hmodels c hc hdig) hwired hx
        refine ⟨card, List.mem_singleton_self card, ?_⟩
        cases hx with
        | device _ _ _ _ _ hform =>
          rcases hform with ⟨ins, out, rfl⟩ | rfl
          · exact name_gate (solid_aInstanceName _) _ _ _
          · exact name_event (solid_aInstanceName _) _ _
      | element hspec _ =>
        have := (type_of_deviceSpec hspec).1
        rw [hdig] at this
        cases this
      | winding hty =>
        rw [hty] at hdig
        cases hdig
  | false =>
    have hx := cardsOf_emission hemit hdig
    generalize cardsOf (emitContext circuit options) c = cards at hx
    have hspec := isSome_deviceSpec (emitContext circuit options).exprNodeMap c
    have hwired : ∀ m, c.type = .transformer → wiredPins m c = pinsInOrder c c.type.pins :=
      fun m hty => by rw [wiredPins, hty]
    constructor
    · rintro ⟨card, hcard, rfl⟩
      cases hx with
      | skipped => cases hcard
      | element hpre hd _ =>
        rw [List.mem_singleton] at hcard
        subst hcard
        rw [name_element (solid_spiceInstanceName (isSpace_of_spicePrefix hpre) _)]
        exact .element (by rw [← hspec, hd]; rfl) hpre
      | transformer hty hp hres =>
        rw [hwired _ hty] at hres
        exact .winding hty hp hres hcard
    · intro hs
      cases hs with
      | digital h =>
        rw [h.1] at hdig
        cases hdig
      | element hd hpre =>
        rw [← hspec] at hd
        cases hx with
        | skipped hnone =>
          rw [hnone] at hd
          cases hd
        | element hpre' _ _ =>
          obtain rfl := Option.some.inj (hpre.symm.trans hpre')
          exact ⟨_, List.mem_singleton_self _,
            name_element (solid_spiceInstanceName (isSpace_of_spicePrefix hpre) _) _ _⟩
        | transformer hty => exact absurd hty (type_of_deviceSpec hd).2.2
      | winding hty hp hres hcard =>
        cases hx with
        | skipped _ hnone =>
          rw [hnone hty] at hp
          cases hp
        | element hpre =>
          rw [hty] at hpre
          cases hpre
        | transformer _ hp' hres' =>
          rw [hwired _ hty] at hres'
          cases Resolved.unique hres hres'
          obtain rfl := Option.some.inj (hp.symm.trans hp')
          exact ⟨_, hcard, rfl⟩

/-! ## The map of emitted names -/

/-- An emitted analog component with a designator. -/
def IsMapped (ctx : EmitContext) (c : Component) : Prop :=
  c.type.isDigital = false ∧ c.designator ≠ [] ∧ ∃ card, (cardsOf ctx c).head? = some card ∧
    card.name ≠ []

/-- The map of designators after the components `done`. -/
structure MapSpec (ctx : EmitContext) (done : List Component) (e : Emission) : Prop where
  named : ∀ k name, e.designatorToInstance.get? k = some name → name ≠ [] ∧
    ∃ c ∈ done, IsMapped ctx c ∧ Runtime.lower c.designator = k ∧
      ∃ card ∈ cardsOf ctx c, card.name = name
  mapped : ∀ c ∈ done, IsMapped ctx c →
    (e.designatorToInstance.get? (Runtime.lower c.designator)).isSome = true

theorem emitStep_names {ctx : EmitContext} {e e' : Emission} {c : Component}
    (h : emitStep ctx e c = .ok e') :
    e'.designatorToInstance = (noteNames e c (cardsOf ctx c)).designatorToInstance := by
  obtain ⟨emitted, hemit, h⟩ := Outcome.bind_eq_ok.mp h
  rw [cardsOf, hemit]
  dsimp only at h ⊢
  split_ifs at h
  · obtain ⟨owners, _, h⟩ := Outcome.bind_eq_ok.mp h
    cases Outcome.pure_eq_ok.mp h
    rfl
  · cases Outcome.pure_eq_ok.mp h
    rfl

theorem noteNames_mapped {ctx : EmitContext} {c : Component} (h : IsMapped ctx c) (e : Emission) :
    ∃ card ∈ cardsOf ctx c, card.name ≠ [] ∧
      (noteNames e c (cardsOf ctx c)).designatorToInstance =
        e.designatorToInstance.set (Runtime.lower c.designator) card.name := by
  obtain ⟨hdig, hdes, card, hhead, hname⟩ := h
  refine ⟨card, List.mem_of_mem_head? hhead, hname, ?_⟩
  have hcard : truthy ((cardsOf ctx c).head?.map Card.name) = some card.name :=
    truthy_eq_some.mpr ⟨by rw [hhead]; rfl, hname⟩
  have hdesignator : truthy (some c.designator) = some c.designator :=
    truthy_eq_some.mpr ⟨rfl, hdes⟩
  unfold noteNames
  simp only [hcard, hdesignator, hdig, Bool.false_eq_true, if_false]

theorem noteNames_unmapped {ctx : EmitContext} {c : Component} (h : ¬ IsMapped ctx c)
    (e : Emission) :
    (noteNames e c (cardsOf ctx c)).designatorToInstance = e.designatorToInstance := by
  unfold noteNames
  split
  case h_1 name designator hname hdes =>
    split_ifs with hdig
    · rfl
    · exfalso
      obtain ⟨hmap, hne⟩ := truthy_eq_some.mp hname
      obtain ⟨card, hhead, rfl⟩ := Option.map_eq_some_iff.mp hmap
      obtain ⟨hd, hdne⟩ := truthy_eq_some.mp hdes
      cases hd
      exact h ⟨by simpa using hdig, hdne, card, hhead, hne⟩
  case h_2 => rfl

theorem MapSpec.step {ctx : EmitContext} {done : List Component} {c : Component} {e e' : Emission}
    (h : MapSpec ctx done e) (hstep : emitStep ctx e c = .ok e') :
    MapSpec ctx (done ++ [c]) e' := by
  have hnames := emitStep_names hstep
  have hold : ∀ k name, e.designatorToInstance.get? k = some name → name ≠ [] ∧
      ∃ b ∈ done ++ [c], IsMapped ctx b ∧ Runtime.lower b.designator = k ∧
        ∃ card ∈ cardsOf ctx b, card.name = name := fun k name hk => by
    obtain ⟨hne, b, hb, hrest⟩ := h.named k name hk
    exact ⟨hne, b, List.mem_append_left _ hb, hrest⟩
  by_cases hmapped : IsMapped ctx c
  · obtain ⟨card, hcard, hne, hset⟩ := noteNames_mapped hmapped e
    rw [hset] at hnames
    refine ⟨fun k name hk => ?_, fun b hb hm => ?_⟩
    · rw [hnames, Map.get?_set] at hk
      split_ifs at hk with heq
      · cases hk
        exact ⟨hne, c, List.mem_append_right _ (List.mem_singleton_self c), hmapped, heq, card,
          hcard, rfl⟩
      · exact hold k name hk
    · rw [hnames, Map.get?_set]
      split_ifs with heq
      · rfl
      · rcases List.mem_append.mp hb with hb | hb
        · exact h.mapped b hb hm
        · rw [List.mem_singleton.mp hb] at heq
          exact absurd rfl heq
  · rw [noteNames_unmapped hmapped e] at hnames
    refine ⟨fun k name hk => hold k name (hnames ▸ hk), fun b hb hm => ?_⟩
    rw [hnames]
    rcases List.mem_append.mp hb with hb | hb
    · exact h.mapped b hb hm
    · rw [List.mem_singleton.mp hb] at hm
      exact absurd hm hmapped

theorem emitLoop_names {ctx : EmitContext} {cs : List Component} {owners : Map Text Text}
    {e : Emission} (h : cs.foldlM (emitStep ctx) { nodeOwner := owners } = .ok e) :
    MapSpec ctx cs e := by
  have hinit : MapSpec ctx [] { nodeOwner := owners } := by
    refine ⟨fun k name hk => ?_, List.forall_mem_nil _⟩
    cases hk
  have := Outcome.foldlM_invariant (P := MapSpec ctx) (fun _ _ _ _ hp hs => hp.step hs) hinit h
  rwa [List.nil_append] at this

/-! ## The devices of a deck -/

/-- A device that a card or a command of the deck names. -/
inductive NamesDevice (d : Deck) : Text → Prop
  | dc {a : DcAnalysis} : d.analysis = .dc a → NamesDevice d a.source
  | noise {a : NoiseAnalysis} : d.analysis = .noise a → NamesDevice d a.inputSource
  | tf {a : OpAnalysis} {source : Text} (out : Text) : d.analysis = .op a → ' ' ∉ source →
      "  tf ".toList ++ out ++ ' ' :: source ∈ d.outputs → NamesDevice d source
  | printed {a : OpAnalysis} {source : Text} (out : Text) : d.analysis = .op a → ' ' ∉ source →
      "  print transfer_function output_impedance_at_".toList ++ out ++
        ' ' :: source ++ "#input_impedance".toList ∈ d.outputs → NamesDevice d source

/-- A component card bears the name, as ngspice compares names. -/
def HasDevice (d : Deck) (name : Text) : Prop :=
  ∃ card ∈ d.components, Runtime.lower card.name = Runtime.lower name

instance (d : Deck) (name : Text) : Decidable (HasDevice d name) :=
  inferInstanceAs (Decidable (∃ card ∈ d.components, Runtime.lower card.name = Runtime.lower name))

/-- A source that is called as a card is: the card of a component, or of a bridge of the plan. -/
def IsInstance (circuit : CircuitJson) (options : NetlistOptions) (source : Text) : Prop :=
  (∃ c ∈ circuit.components, ∃ name, InstanceName circuit c name ∧
    Runtime.lower name = Runtime.lower source) ∨
  ∃ card ∈ (deckPlan circuit options).deviceLines, Runtime.lower card.name = Runtime.lower source

/-- The designator of an analog component with a card. -/
def IsDesignator (circuit : CircuitJson) (source : Text) : Prop :=
  ∃ c ∈ circuit.components, c.type.isDigital = false ∧ c.designator ≠ [] ∧
    Runtime.lower c.designator = Runtime.lower source ∧ ∃ name, InstanceName circuit c name

/-- The source of the analysis stands for a card: the source of a `.dc` card as the designator of
a component, every source under the name of a card. -/
def SourceStands (circuit : CircuitJson) (options : NetlistOptions) : AnalysisConfig → Prop
  | .dc a => (a.source ≠ [] ∧ IsDesignator circuit a.source) ∨ IsInstance circuit options a.source
  | .noise a => IsInstance circuit options a.inputSource
  | .op a => ∀ tf, a.tf = some tf → IsInstance circuit options tf.inputSource
  | _ => True

/-- An analog component with a card is in the map under its designator. -/
theorem isMapped_iff {circuit : CircuitJson} {options : NetlistOptions} {c : Component}
    (hc : c ∈ circuit.components)
    (hemit : emitComponent (emitContext circuit options) c =
      .ok (cardsOf (emitContext circuit options) c)) :
    IsMapped (emitContext circuit options) c ↔
      c.type.isDigital = false ∧ c.designator ≠ [] ∧ ∃ name, InstanceName circuit c name := by
  refine and_congr_right fun hdig => and_congr_right fun _ => ?_
  constructor
  · rintro ⟨card, hhead, _⟩
    exact ⟨card.name, (instanceName_iff hc hemit _).mp ⟨card, List.mem_of_mem_head? hhead, rfl⟩⟩
  · rintro ⟨name, hname⟩
    obtain ⟨card, hcard, _⟩ := (instanceName_iff hc hemit name).mpr hname
    have hx := cardsOf_emission hemit hdig
    generalize cardsOf (emitContext circuit options) c = cards at hx hcard
    cases hx with
    | skipped => cases hcard
    | element hpre _ _ =>
      refine ⟨_, rfl, ?_⟩
      rw [name_element (solid_spiceInstanceName (isSpace_of_spicePrefix hpre) _)]
      exact spiceInstanceName_ne_nil _ _
    | transformer _ _ _ =>
      refine ⟨_, rfl, ?_⟩
      rw [Card.name, headD_splitBlanks]
      exact firstToken_cons_ne_nil (by decide) _

theorem components_assembleDeck (now : Timestamp) {circuit : CircuitJson}
    {analysis : AnalysisConfig} {options : NetlistOptions} {parts : DeckParts}
    (run : DeckRun circuit analysis options parts) :
    (assembleDeck now circuit analysis options parts).components =
      circuit.components.flatMap (cardsOf (emitContext circuit options)) ++
        (deckPlan circuit options).deviceLines := by
  rw [← (emitLoop_spec run.emitted).cards]
  rfl

theorem hasDevice_iff {now : Timestamp} {circuit : CircuitJson} {analysis : AnalysisConfig}
    {options : NetlistOptions} {parts : DeckParts}
    (run : DeckRun circuit analysis options parts) (s : Text) :
    HasDevice (assembleDeck now circuit analysis options parts) s ↔
      IsInstance circuit options s := by
  have hloop := emitLoop_spec run.emitted
  rw [HasDevice, IsInstance, components_assembleDeck _ run]
  simp only [List.mem_append, or_and_right, exists_or]
  refine or_congr_left ?_
  constructor
  · rintro ⟨card, hcard, hname⟩
    obtain ⟨c, hc, hcard⟩ := List.mem_flatMap.mp hcard
    exact ⟨c, hc, card.name, (instanceName_iff hc (hloop.emits c hc) _).mp ⟨card, hcard, rfl⟩, hname⟩
  · rintro ⟨c, hc, name, hinst, hname⟩
    obtain ⟨card, hcard, rfl⟩ := (instanceName_iff hc (hloop.emits c hc) _).mpr hinst
    exact ⟨card, List.mem_flatMap.mpr ⟨c, hc, hcard⟩, hname⟩

/-- The swept device of the deck has a card exactly when the source stands for one. -/
theorem dc_hasDevice_iff {now : Timestamp} {circuit : CircuitJson} {a : DcAnalysis}
    {options : NetlistOptions} {parts : DeckParts}
    (run : DeckRun circuit (.dc a) options parts) :
    (∀ s, NamesDevice (assembleDeck now circuit (.dc a) options parts) s →
      HasDevice (assembleDeck now circuit (.dc a) options parts) s) ↔
      SourceStands circuit options (.dc a) := by
  have hloop := emitLoop_spec run.emitted
  have hmap := emitLoop_names run.emitted
  set ctx := deckProbeContext circuit (.dc a) options parts with hctx
  have hinstances : ctx.designatorToInstance = parts.loop.designatorToInstance := rfl
  -- the swept device of the card is the one the map gives, else the source as it is written
  have hcases : (∃ name, effectiveAnalysis ctx (.dc a) = .dc { a with source := name } ∧
        a.source ≠ [] ∧ IsDesignator circuit a.source ∧ IsInstance circuit options name) ∨
      (effectiveAnalysis ctx (.dc a) = .dc a ∧
        ¬ (a.source ≠ [] ∧ IsDesignator circuit a.source)) := by
    rw [effectiveAnalysis]
    cases hs : truthy (some a.source) with
    | none =>
      refine Or.inr ⟨rfl, fun hne => ?_⟩
      rw [truthy_eq_some.mpr ⟨rfl, hne.1⟩] at hs
      cases hs
    | some source =>
      obtain ⟨hsource, hne⟩ := truthy_eq_some.mp hs
      cases hsource
      dsimp only [Option.bind_some]
      cases hget : truthy (ctx.designatorToInstance.get? (Runtime.lower a.source)) with
      | some name =>
        obtain ⟨_, c, hc, hm, hdes, card, hcard, rfl⟩ :=
          hmap.named _ _ (truthy_eq_some.mp hget).1
        have hinst := (instanceName_iff hc (hloop.emits c hc) _).mp ⟨card, hcard, rfl⟩
        exact Or.inl ⟨_, rfl, hne, ⟨c, hc, hm.1, hm.2.1, hdes, _, hinst⟩,
          Or.inl ⟨c, hc, _, hinst, rfl⟩⟩
      | none =>
        refine Or.inr ⟨rfl, ?_⟩
        rintro ⟨_, c, hc, hdig, hdes, hlow, hname⟩
        have hsome := hmap.mapped c hc ((isMapped_iff hc (hloop.emits c hc)).mpr ⟨hdig, hdes, hname⟩)
        rw [hlow] at hsome
        obtain ⟨name, hname⟩ := Option.isSome_iff_exists.mp hsome
        rw [hinstances, truthy_eq_some.mpr ⟨hname, (hmap.named _ _ hname).1⟩] at hget
        cases hget
  have hanalysis : (assembleDeck now circuit (.dc a) options parts).analysis =
      effectiveAnalysis ctx (.dc a) := rfl
  simp only [hasDevice_iff run]
  rcases hcases with ⟨name, heff, hne, hdes, hinst⟩ | ⟨heff, hnot⟩
  · refine iff_of_true (fun s hs => ?_) (Or.inl ⟨hne, hdes⟩)
    rw [heff] at hanalysis
    cases hs with
    | dc h =>
      cases hanalysis.symm.trans h
      exact hinst
    | noise h => cases hanalysis.symm.trans h
    | tf _ h => cases hanalysis.symm.trans h
    | printed _ h => cases hanalysis.symm.trans h
  · rw [heff] at hanalysis
    rw [SourceStands, or_iff_right hnot]
    constructor
    · exact fun h => h _ (.dc hanalysis)
    · intro h s hs
      cases hs with
      | dc h' =>
        cases hanalysis.symm.trans h'
        exact h
      | noise h' => cases hanalysis.symm.trans h'
      | tf _ h' => cases hanalysis.symm.trans h'
      | printed _ h' => cases hanalysis.symm.trans h'

/-- The source of a `.noise` card stands as it is written. -/
theorem noise_hasDevice_iff {now : Timestamp} {circuit : CircuitJson} {a : NoiseAnalysis}
    {options : NetlistOptions} {parts : DeckParts}
    (run : DeckRun circuit (.noise a) options parts) :
    (∀ s, NamesDevice (assembleDeck now circuit (.noise a) options parts) s →
      HasDevice (assembleDeck now circuit (.noise a) options parts) s) ↔
      SourceStands circuit options (.noise a) := by
  obtain ⟨a', hanalysis, hsource⟩ :
      ∃ a' : NoiseAnalysis, (assembleDeck now circuit (.noise a) options parts).analysis =
        .noise a' ∧ a'.inputSource = a.inputSource := ⟨_, rfl, rfl⟩
  simp only [hasDevice_iff run]
  rw [SourceStands, ← hsource]
  constructor
  · exact fun h => h _ (.noise hanalysis)
  · intro h s hs
    cases hs with
    | noise h' =>
      cases hanalysis.symm.trans h'
      exact h
    | dc h' => cases hanalysis.symm.trans h'
    | tf _ h' => cases hanalysis.symm.trans h'
    | printed _ h' => cases hanalysis.symm.trans h'

omit [Runtime] in
theorem isWord_of_sourceDesignator {s : Text} (h : sourceDesignatorRe.accepts s = true) :
    ∀ c ∈ s, isWord c = true := by
  intro c hc
  have hchars := Re.chars_of_accepts h hc
  simp only [sourceDesignatorRe, Re.letter, Re.plus, Re.digit, Re.chars, Bool.or_eq_true,
    isAlpha_iff, isAlphanum_iff, isDigit_iff] at hchars
  rw [isWord_iff]
  omega

/-- The names in the `tf` commands. -/
theorem tfCommands_names {ctx : ProbeContext} {circuit : CircuitJson} {a : OpAnalysis}
    {line : Text} (h : line ∈ tfCommands ctx circuit (.op a)) :
    ∃ tf out, a.tf = some tf ∧ sourceDesignatorRe.accepts tf.inputSource = true ∧
      tfCommands ctx circuit (.op a) =
        ["  tf ".toList ++ out ++ ' ' :: tf.inputSource,
         "  print transfer_function output_impedance_at_".toList ++ out ++
           ' ' :: Runtime.lower tf.inputSource ++ "#input_impedance".toList] := by
  rw [tfCommands] at h ⊢
  cases htf : a.tf with
  | none =>
    rw [htf] at h
    cases h
  | some tf =>
    rw [htf] at h
    dsimp only at h ⊢
    split_ifs at h ⊢ with hcond
    · exact ⟨tf, _, rfl, hcond.2.2, rfl⟩
    · cases h

omit [Runtime] in
theorem blank_notMem_of_isWord {s : Text} (h : ∀ c ∈ s, isWord c = true) : ' ' ∉ s := by
  intro hm
  exact absurd (h ' ' hm) (by decide)

/-- The source of the `tf` commands stands as it is written, in the print vector in lower case. -/
theorem op_namesDevice {now : Timestamp} {circuit : CircuitJson} {a : OpAnalysis}
    {options : NetlistOptions} {parts : DeckParts} {s : Text}
    (h : NamesDevice (assembleDeck now circuit (.op a) options parts) s) :
    ∃ tf, a.tf = some tf ∧ sourceDesignatorRe.accepts tf.inputSource = true ∧
      NamesDevice (assembleDeck now circuit (.op a) options parts) tf.inputSource ∧
      (s = tf.inputSource ∨ s = Runtime.lower tf.inputSource) := by
  set d := assembleDeck now circuit (.op a) options parts with hd
  have hanalysis : d.analysis = .op a := rfl
  have houtputs : ∃ wr, (∀ l ∈ wr, ∃ r, l = "  wrdata output.csv ".toList ++ r) ∧
      d.outputs = wr ++ tfCommands (deckProbeContext circuit (.op a) options parts) circuit
        (.op a) := by
    refine ⟨if deckProbes circuit (.op a) options parts = [] then [] else
      ["  wrdata output.csv ".toList ++ join " ".toList (deckProbes circuit (.op a) options parts)],
      ?_, ?_⟩
    · split_ifs
      · exact List.forall_mem_nil _
      · exact List.forall_mem_singleton.mpr ⟨_, rfl⟩
    · rw [hd, assembleDeck]
      dsimp only [outputCommands, fourierCommands]
      rw [List.append_nil]
  obtain ⟨wr, hwr, houtputs⟩ := houtputs
  have hread : ∀ {line : Text}, line ∈ d.outputs → (∀ r, line ≠ "  wrdata output.csv ".toList ++ r) →
      ∃ tf out, a.tf = some tf ∧ sourceDesignatorRe.accepts tf.inputSource = true ∧
        NamesDevice d tf.inputSource ∧
        (line = "  tf ".toList ++ out ++ ' ' :: tf.inputSource ∨
          line = "  print transfer_function output_impedance_at_".toList ++ out ++
            ' ' :: Runtime.lower tf.inputSource ++ "#input_impedance".toList) := by
    intro line hline hnot
    rw [houtputs] at hline
    rcases List.mem_append.mp hline with hline | hline
    · obtain ⟨r, hr⟩ := hwr line hline
      exact absurd hr (hnot r)
    · obtain ⟨tf, out, htf, hre, hcommands⟩ := tfCommands_names hline
      have hblank := blank_notMem_of_isWord (isWord_of_sourceDesignator hre)
      refine ⟨tf, out, htf, hre, .tf out hanalysis hblank ?_, ?_⟩
      · rw [houtputs, hcommands]
        exact List.mem_append_right _ List.mem_cons_self
      · rw [hcommands] at hline
        simpa only [List.mem_cons, List.not_mem_nil, or_false] using hline
  cases h with
  | dc h => cases hanalysis.symm.trans h
  | noise h => cases hanalysis.symm.trans h
  | tf _ _ hs hline =>
    obtain ⟨tf, out, htf, hre, hnames, hline | hline⟩ := hread hline (by intro r hr; simp at hr)
    · have hblank := blank_notMem_of_isWord (isWord_of_sourceDesignator hre)
      exact ⟨tf, htf, hre, hnames, Or.inl (eq_of_last_blank hs hblank hline)⟩
    · simp at hline
  | printed _ _ hs hline =>
    obtain ⟨tf, out, htf, hre, hnames, hline | hline⟩ := hread hline (by intro r hr; simp at hr)
    · simp at hline
    · have hword := isWord_of_sourceDesignator hre
      have hlower : ∀ c ∈ Runtime.lower tf.inputSource, isWord c = true := by
        rw [Runtime.lower_of_isWord hword]
        exact List.forall_mem_map.mpr fun c hc => isWord_toLower (hword c hc)
      exact ⟨tf, htf, hre, hnames, Or.inr (eq_of_last_blank hs (blank_notMem_of_isWord hlower)
        (List.append_cancel_right hline))⟩

theorem isInstance_lower {circuit : CircuitJson} {options : NetlistOptions} {s : Text}
    (hword : ∀ c ∈ s, isWord c = true) :
    IsInstance circuit options (Runtime.lower s) ↔ IsInstance circuit options s := by
  have hidem : Runtime.lower (Runtime.lower s) = Runtime.lower s := by
    have hlower : ∀ c ∈ asciiLower s, isWord c = true :=
      List.forall_mem_map.mpr fun c hc => isWord_toLower (hword c hc)
    rw [Runtime.lower_of_isWord hword, Runtime.lower_of_isWord hlower]
    simp only [asciiLower, List.map_map, Function.comp_def, toLower_toLower]
  rw [IsInstance, IsInstance, hidem]

theorem op_hasDevice_iff {now : Timestamp} {circuit : CircuitJson} {a : OpAnalysis}
    {options : NetlistOptions} {parts : DeckParts}
    (run : DeckRun circuit (.op a) options parts)
    (hnames : ∃ s, NamesDevice (assembleDeck now circuit (.op a) options parts) s) :
    (∀ s, NamesDevice (assembleDeck now circuit (.op a) options parts) s →
      HasDevice (assembleDeck now circuit (.op a) options parts) s) ↔
      SourceStands circuit options (.op a) := by
  obtain ⟨_, hs⟩ := hnames
  obtain ⟨tf, htf, _, hcommand, _⟩ := op_namesDevice hs
  simp only [hasDevice_iff run]
  constructor
  · intro h tf' htf'
    cases htf.symm.trans htf'
    exact h _ hcommand
  · intro h s hs
    obtain ⟨tf', htf', hre, _, hs⟩ := op_namesDevice hs
    have hinst := h tf' htf'
    rcases hs with rfl | rfl
    · exact hinst
    · exact (isInstance_lower (isWord_of_sourceDesignator hre)).mpr hinst

/-- The device a `.noise` card names is the source of the request. -/
theorem noise_namesDevice {now : Timestamp} {circuit : CircuitJson} {a : NoiseAnalysis}
    {options : NetlistOptions} {d : Deck}
    (h : generateDeck now circuit (.noise a) options = .ok d) : NamesDevice d a.inputSource := by
  obtain ⟨parts, -, rfl⟩ := generateDeck_ok h
  obtain ⟨a', hanalysis, hsource⟩ :
      ∃ a' : NoiseAnalysis, (assembleDeck now circuit (.noise a) options parts).analysis =
        .noise a' ∧ a'.inputSource = a.inputSource := ⟨_, rfl, rfl⟩
  rw [← hsource]
  exact .noise hanalysis

/-- The devices that the analysis card or the `tf` commands of a deck name have cards exactly when
the source of the analysis stands for one. -/
theorem devices_exist_iff {now : Timestamp} {circuit : CircuitJson} {analysis : AnalysisConfig}
    {options : NetlistOptions} {d : Deck}
    (h : generateDeck now circuit analysis options = .ok d) (hnames : ∃ s, NamesDevice d s) :
    (∀ s, NamesDevice d s → HasDevice d s) ↔ SourceStands circuit options analysis := by
  obtain ⟨parts, ⟨run⟩, rfl⟩ := generateDeck_ok h
  obtain ⟨s, hs⟩ := hnames
  cases analysis with
  | dc a => exact dc_hasDevice_iff run
  | noise a => exact noise_hasDevice_iff run
  | op a => exact op_hasDevice_iff run ⟨s, hs⟩
  | _ =>
    exfalso
    cases hs with
    | dc h => cases h
    | noise h => cases h
    | tf _ h => cases h
    | printed _ h => cases h

end

/-- A battery and its load. -/
def battery : CircuitJson where
  nets := [⟨"out".toList, "out".toList, false, false⟩, ⟨"gnd".toList, "gnd".toList, true, false⟩]
  components := [
    { id := ['1'], type := .voltageSource, designator := "BAT1".toList, value := some "AC 1".toList
      pins := [⟨"+".toList, "out".toList⟩, ⟨"-".toList, "gnd".toList⟩] },
    { id := ['2'], type := .resistor, designator := "R1".toList, value := some "1k".toList
      pins := [⟨"1".toList, "out".toList⟩, ⟨"2".toList, "gnd".toList⟩] }]

/-- The noise of its output, referred to the battery. -/
def batteryNoise : AnalysisConfig :=
  .noise ⟨"v(out)".toList, "BAT1".toList, ⟨.dec, (10 : Rat), "1".toList, "1Meg".toList⟩, none⟩

/-- The transfer function from the battery to its output. -/
def batteryTf : AnalysisConfig := .op { tf := some ⟨"v(out)".toList, "bat1".toList⟩ }

theorem devices_exist_iff_battery :
    ∃ d, generateDeck epoch battery batteryNoise = .ok d ∧
      ((∀ s, NamesDevice d s → HasDevice d s) ↔ SourceStands battery {} batteryNoise) := by
  obtain ⟨d, hd, -⟩ := Outcome.exists_ok (x := generateDeck epoch battery batteryNoise)
    (p := fun _ => true) (by decide +kernel)
  exact ⟨d, hd, devices_exist_iff hd ⟨"BAT1".toList, noise_namesDevice hd⟩⟩

/-- The battery is emitted as `VBAT1`, but the noise card and the `tf` commands name `BAT1`. -/
theorem devices_missing_battery :
    circuitJsonSchema battery = true ∧ analysisConfigSchema batteryNoise = true ∧
      analysisConfigSchema batteryTf = true ∧
      (∃ d, generateDeck epoch battery batteryNoise = .ok d ∧ NamesDevice d "BAT1".toList ∧
        ¬ HasDevice d "BAT1".toList) ∧
      ∃ d, generateDeck epoch battery batteryTf = .ok d ∧ NamesDevice d "bat1".toList ∧
        ¬ HasDevice d "bat1".toList := by
  refine ⟨by decide +kernel, by decide +kernel, by decide +kernel, ?_, ?_⟩
  · obtain ⟨d, hd, hnot⟩ := Outcome.exists_ok (x := generateDeck epoch battery batteryNoise)
      (p := fun d => !decide (HasDevice d "BAT1".toList)) (by decide +kernel)
    exact ⟨d, hd, noise_namesDevice hd, by simpa using hnot⟩
  · obtain ⟨d, hd, htest⟩ := Outcome.exists_ok (x := generateDeck epoch battery batteryTf)
      (p := fun d => decide ("  tf v(x_out) bat1".toList ∈ d.outputs) &&
        !decide (HasDevice d "bat1".toList)) (by decide +kernel)
    rw [Bool.and_eq_true, decide_eq_true_eq] at htest
    obtain ⟨parts, -, rfl⟩ := generateDeck_ok hd
    exact ⟨_, hd, .tf "v(x_out)".toList rfl (by decide) htest.1, by simpa using htest.2⟩

end CircuitForge
