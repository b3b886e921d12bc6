/-
Texts of one line.

Names, numbers and vetted parameters never hold a newline, and neither does what
the generator builds of them.  Of a component only `freeText` reaches its card as
authored: a card is of one line exactly when that string is.
-/
import CircuitForge.Js.Lines
import CircuitForge.Netlist.Nodes

namespace CircuitForge

open Js

variable [Runtime]

/-! ## Names and numbers -/

omit [Runtime] in
theorem oneLine_digits (n : Nat) : OneLine (Nat.toDigits 10 n) := by
  refine oneLine_of_isWord fun c hc => ?_
  have := isDigit_iff.mp (Nat.isDigit_of_mem_toDigits (by decide) (by decide) hc)
  rw [isWord_iff]
  omega

theorem oneLine_toText (n : Runtime.Num) : OneLine (Runtime.toText n) :=
  (Runtime.solid_toText n).oneLine

omit [Runtime] in
theorem oneLine_safeDesignator (designator : Text) : OneLine (safeDesignator designator) :=
  oneLine_of_isWord fun _ hc => (List.mem_filter.mp hc).2

omit [Runtime] in
theorem oneLine_aInstanceName (designator : Text) : OneLine (aInstanceName designator) := by
  unfold aInstanceName
  dsimp only
  split_ifs
  · exact oneLine_safeDesignator designator
  · exact oneLine_cons.mpr ⟨by decide, oneLine_safeDesignator designator⟩

omit [Runtime] in
theorem oneLine_spiceInstanceName (designator : Text) {pre : Char} (hp : pre ≠ '\n') :
    OneLine (spiceInstanceName designator pre) := by
  unfold spiceInstanceName
  dsimp only
  split_ifs
  · exact oneLine_safeDesignator designator
  · exact oneLine_cons.mpr ⟨hp, oneLine_safeDesignator designator⟩

omit [Runtime] in
theorem spicePrefix_ne_newline {t : ComponentType} {pre : Char} (h : t.spicePrefix = some pre) :
    pre ≠ '\n' := by
  cases t <;> simp only [ComponentType.spicePrefix, Option.some.injEq, reduceCtorEq] at h
  all_goals
    rw [← h]
    decide

theorem oneLine_uniqueName (used : List Text) {base : Text} (h : OneLine base) :
    OneLine (uniqueName used base) := by
  obtain ⟨n, hn⟩ := uniqueName_eq used base
  rw [hn, candidate]
  split_ifs
  · exact h
  · rw [oneLine_append, oneLine_cons]
    exact ⟨h, by decide, oneLine_digits n⟩

omit [Runtime] in
theorem oneLine_nodeMap {circuit : List Net} {e : Text × Text} (h : e ∈ buildNodeMap circuit) :
    OneLine e.2 := by
  obtain ⟨net, _, _, hnode⟩ := mem_nodeMap h
  rw [hnode]
  exact oneLine_of_isWord (isWord_nodeOfNet net)

/-! ## The plan -/

/-- A plan whose texts are of one line each. -/
structure PlanLines (plan : MixedSignalPlan) : Prop where
  models : ∀ m ∈ plan.modelCards, OneLine m
  devices : ∀ card ∈ plan.deviceLines, OneLine card.text
  probes : ∀ e ∈ plan.probeNodeForNet, OneLine e.2
  names : ∀ e ∈ plan.digitalModelName, OneLine e.2

omit [Runtime] in
theorem PlanLines.addModel {st : PlanState} (h : PlanLines st.plan) {card : Text}
    (hc : OneLine card) : PlanLines (st.addModel card).plan := by
  refine ⟨?_, h.devices, h.probes, h.names⟩
  unfold PlanState.addModel
  dsimp only
  split_ifs
  · exact h.models
  · exact List.forall_mem_append.mpr ⟨h.models, List.forall_mem_singleton.mpr hc⟩

theorem PlanLines.addDevice {st : PlanState} (h : PlanLines st.plan) (stem : String)
    (hs : OneLine stem.toList) (card : Text → Card)
    (hc : ∀ name, OneLine name → OneLine (card name).text) :
    PlanLines (st.addDevice stem card).plan := by
  refine ⟨h.models, List.forall_mem_append.mpr ⟨h.devices, List.forall_mem_singleton.mpr ?_⟩,
    h.probes, h.names⟩
  exact hc _ (oneLine_uniqueName _ (oneLine_append.mpr ⟨hs, oneLine_digits _⟩))

omit [Runtime] in
theorem oneLine_adc {name a d : Text} (hn : OneLine name) (ha : OneLine a) (hd : OneLine d) :
    OneLine (Card.adc name a d).text := by
  simp only [Card.text, oneLine_append, oneLine_cons]
  exact ⟨hn, by decide, by decide, ha, by decide, by decide, by decide, hd, by decide, by decide⟩

omit [Runtime] in
theorem oneLine_dac {name d a : Text} (hn : OneLine name) (hd : OneLine d) (ha : OneLine a) :
    OneLine (Card.dac name d a).text := by
  simp only [Card.text, oneLine_append, oneLine_cons]
  exact ⟨hn, by decide, by decide, hd, by decide, by decide, by decide, ha, by decide, by decide⟩

theorem oneLine_fmtVolts (v : Runtime.Num) : OneLine (fmtVolts v) := oneLine_toText _

theorem oneLine_adcModel (vdd : Runtime.Num) : OneLine (adcModel vdd) := by
  have hlow : OneLine ".model CFD_ADC adc_bridge(in_low=".toList := by decide
  have hhigh : OneLine " in_high=".toList := by decide
  have hclose : OneLine ")".toList := by decide
  unfold adcModel
  exact (((hlow.append (oneLine_fmtVolts _)).append hhigh).append (oneLine_fmtVolts _)).append hclose

theorem oneLine_dacModel (vdd : Runtime.Num) : OneLine (dacModel vdd) := by
  have hhigh : OneLine ".model CFD_DAC dac_bridge(out_low=0 out_high=".toList := by decide
  have hclose : OneLine ")".toList := by decide
  unfold dacModel
  exact (hhigh.append (oneLine_fmtVolts _)).append hclose

section

variable {circuit : CircuitJson} {nodeMap : Map Text Text} {st : PlanState}

theorem PlanLines.bridgeMixedNet (h : PlanLines st.plan) (vdd : Runtime.Num) (netId : Text)
    {node : Text} (hnode : OneLine node) (r : NetRoles) :
    PlanLines (bridgeMixedNet circuit vdd st netId node r).plan := by
  have htwin : OneLine (st.freshNode (node ++ "_d".toList)) :=
    oneLine_uniqueName _ (oneLine_append.mpr ⟨hnode, by decide⟩)
  unfold CircuitForge.bridgeMixedNet
  dsimp only
  split_ifs
  · refine PlanLines.addDevice (PlanLines.addModel ?_ (oneLine_dacModel vdd)) _ (by decide) _
      fun name hn => oneLine_dac hn htwin hnode
    exact ⟨h.models, h.devices, h.probes, h.names⟩
  · refine PlanLines.addDevice (PlanLines.addModel ?_ (oneLine_adcModel vdd)) _ (by decide) _
      fun name hn => oneLine_adc hn hnode htwin
    exact ⟨h.models, h.devices, h.probes, h.names⟩

theorem PlanLines.bridgeDigitalNet (h : PlanLines st.plan) (vdd : Runtime.Num) (netId : Text)
    {node : Text} (hnode : OneLine node) (r : NetRoles) :
    PlanLines (bridgeDigitalNet vdd st netId node r).plan := by
  have htwin : OneLine (st.freshNode (node ++ "_p".toList)) :=
    oneLine_uniqueName _ (oneLine_append.mpr ⟨hnode, by decide⟩)
  unfold CircuitForge.bridgeDigitalNet
  split_ifs
  · have hst : PlanLines (st.useNode (st.freshNode (node ++ "_p".toList))).plan :=
      ⟨h.models, h.devices, h.probes, h.names⟩
    have hbridge := (hst.addModel (oneLine_dacModel vdd)).addDevice "axsyn" (by decide)
      (.dac · node (st.freshNode (node ++ "_p".toList)))
      fun name hn => oneLine_dac hn hnode htwin
    refine ⟨hbridge.models, hbridge.devices, fun e he => ?_, hbridge.names⟩
    rcases Map.mem_set he with rfl | he
    · exact htwin
    · exact hbridge.probes e he
  · exact h

theorem PlanLines.bridgeNet (h : PlanLines st.plan)
    (hnodes : ∀ e ∈ nodeMap, OneLine e.2) (vdd : Runtime.Num) (e : Text × NetRoles) :
    PlanLines (bridgeNet circuit nodeMap vdd st e).plan := by
  unfold CircuitForge.bridgeNet
  by_cases hnone : e.2.digitalSource + e.2.digitalSink = 0
  · rwa [if_pos hnone]
  · rw [if_neg hnone]
    cases hnode : truthy (nodeMap.get? e.1) with
    | none => exact h
    | some node =>
      have hline := hnodes _ (Map.mem_of_get? (truthy_eq_some.mp hnode).1)
      dsimp only
      split_ifs
      · exact h.bridgeMixedNet vdd e.1 hline e.2
      · exact h.bridgeDigitalNet vdd e.1 hline e.2

theorem PlanLines.addLowRail (h : PlanLines st.plan) (vdd : Runtime.Num) :
    PlanLines (addLowRail vdd st).plan := by
  unfold CircuitForge.addLowRail
  dsimp only
  have ha := oneLine_uniqueName st.usedNodes (show OneLine "dlogic_lo_a".toList by decide)
  have hd := oneLine_uniqueName (st.useNode (st.freshNode "dlogic_lo_a".toList)).usedNodes
    (show OneLine "dlogic_lo".toList by decide)
  have hst : PlanLines ((st.useNode (st.freshNode "dlogic_lo_a".toList)).useNode
      ((st.useNode (st.freshNode "dlogic_lo_a".toList)).freshNode "dlogic_lo".toList)).plan :=
    ⟨h.models, h.devices, h.probes, h.names⟩
  have hsource := (hst.addModel (oneLine_adcModel vdd)).addDevice "vxsyn" (by decide)
    (.element · [st.freshNode "dlogic_lo_a".toList, "0".toList] "DC 0".toList) ?_
  · have hrail := hsource.addDevice "axsyn" (by decide) (.adc · _ _)
      fun name hn => oneLine_adc hn ha hd
    exact ⟨hrail.models, hrail.devices, hrail.probes, hrail.names⟩
  · intro name hn
    simp only [Card.text, oneLine_append, oneLine_cons, oneLine_join (show OneLine " ".toList by decide),
      List.forall_mem_cons]
    exact ⟨hn, by decide, ⟨ha, by decide, List.forall_mem_nil _⟩, by decide, by decide⟩

end

omit [Runtime] in
theorem oneLine_validTime (raw : Option Text) {fallback : String}
    (h : OneLine fallback.toList) : OneLine (validTime raw fallback) := by
  unfold validTime
  split
  · split_ifs with hacc
    · exact (Re.solid_of_accepts (fun _ => isSpace_of_spiceNumRe) hacc).oneLine
    · exact h
  · exact h

omit [Runtime] in
theorem oneLine_timingParams (t : ComponentType) :
    ∀ p ∈ timingParams t, OneLine p.key.toList ∧ OneLine p.default.toList := by
  unfold timingParams
  split <;> decide

theorem oneLine_digitalParams (c : Component) : OneLine (digitalParams c) := by
  have hbase : OneLine (join " ".toList ((timingParams c.type).map fun p =>
      p.key.toList ++ '=' :: validTime (digitalProp c p.prop) p.default)) := by
    rw [oneLine_join (by decide), List.forall_mem_map]
    intro p hp
    have hp := oneLine_timingParams c.type p hp
    exact hp.1.append (.cons (by decide) (oneLine_validTime _ hp.2))
  have hic : OneLine " ic=1".toList := by decide
  unfold digitalParams
  dsimp only
  split_ifs
  · exact hbase.append hic
  · exact hbase

omit [Runtime] in
theorem oneLine_digitalDevice {t : ComponentType} {device base : Text}
    (h : digitalDevice t = some (device, base)) : OneLine device ∧ OneLine base := by
  unfold digitalDevice at h
  split at h <;> simp only [Option.some.injEq, Prod.mk.injEq, reduceCtorEq] at h
  all_goals
    rw [← h.1, ← h.2]
    decide

theorem PlanLines.nameModel {acc : PlanState × ModelNames} (h : PlanLines acc.1.plan)
    (hn : ∀ e ∈ acc.2.nameByParamKey, OneLine e.2) (c : Component) :
    PlanLines (nameModel acc c).1.plan ∧
      ∀ e ∈ (nameModel acc c).2.nameByParamKey, OneLine e.2 := by
  unfold CircuitForge.nameModel
  cases hdev : digitalDevice c.type with
  | none => exact ⟨h, hn⟩
  | some db =>
    obtain ⟨device, base⟩ := db
    obtain ⟨hdevice, hbase⟩ := oneLine_digitalDevice hdev
    have hset : ∀ {m : Map Text Text} {k name : Text}, (∀ e ∈ m, OneLine e.2) → OneLine name →
        ∀ e ∈ m.set k name, OneLine e.2 := by
      intro m k name hm hname e he
      rcases Map.mem_set he with rfl | he
      · exact hname
      · exact hm e he
    dsimp only
    split
    case h_1 name hname =>
      have hline := hn _ (Map.mem_of_get? (truthy_eq_some.mp hname).1)
      exact ⟨⟨h.models, h.devices, h.probes, hset h.names hline⟩, hn⟩
    case h_2 =>
      have hname : OneLine (if digitalParams c ≠ defaultParams c.type then
          base ++ '_' :: Nat.toDigits 10 ((acc.2.variantCount.get? base).getD 0 + 1)
          else base) := by
        split_ifs
        · exact hbase.append (.cons (by decide) (oneLine_digits _))
        · exact hbase
      have hmodel : OneLine ".model ".toList := by decide
      have hclose : OneLine ")".toList := by decide
      have hcard := (((hmodel.append hname).append (.cons (c := ' ') (by decide) hdevice)).append
        (.cons (c := '(') (by decide) (oneLine_digitalParams c))).append hclose
      have hadd := h.addModel hcard
      exact ⟨⟨hadd.models, hadd.devices, hadd.probes, hset hadd.names hname⟩, hset hn hname⟩

/-- The plan of a deck. -/
theorem deckPlan_lines (circuit : CircuitJson) (options : NetlistOptions) :
    PlanLines (deckPlan circuit options) := by
  have hnames : ∀ (cs : List Component) (acc : PlanState × ModelNames), PlanLines acc.1.plan →
      (∀ e ∈ acc.2.nameByParamKey, OneLine e.2) →
        PlanLines (cs.foldl CircuitForge.nameModel acc).1.plan := by
    intro cs
    induction cs with
    | nil => exact fun _ h _ => h
    | cons c cs ih =>
      intro acc h hn
      obtain ⟨h, hn⟩ := h.nameModel hn c
      exact ih _ h hn
  have hbridges : ∀ (vdd : Runtime.Num) (es : List (Text × NetRoles)) (st : PlanState),
      PlanLines st.plan → PlanLines (es.foldl
        (CircuitForge.bridgeNet circuit (buildNodeMap circuit.nets) vdd) st).plan := by
    intro vdd es
    induction es with
    | nil => exact fun _ h => h
    | cons e es ih => exact fun st h => ih _ (h.bridgeNet (fun _ => oneLine_nodeMap) vdd e)
  unfold deckPlan planMixedSignal
  split_ifs
  · unfold planState
    dsimp only
    have hplan := hbridges (detectLogicHigh circuit (netRoles circuit) options.logicVoltage)
      (netRoles circuit) _ (hnames circuit.components
        (⟨{ active := true }, (buildNodeMap circuit.nets).map Prod.snd, [],
          reservedDeviceNames circuit, 0⟩, {}) ⟨by simp, by simp, by simp, by simp⟩ (by simp))
    split_ifs
    · exact hplan.addLowRail _
    · exact hplan
  · exact ⟨by simp, by simp, by simp, by simp⟩

/-! ## Parameters -/

theorem trim_propText {props : Option (Map Text PropValue)} {key : String} {s : Text}
    (h : propText props key = some s) : trim s = s := by
  unfold propText at h
  split at h
  · rw [← Option.some.inj h, trim_trim]
  · split_ifs at h
    rw [← Option.some.inj h]
    exact trim_of_solid (Runtime.solid_toText _)
  · cases h

theorem oneLine_of_positive {s : Text} (ht : trim s = s) (h : isPositiveSpiceValue s = true) :
    OneLine s := by
  simp only [isPositiveSpiceValue, Bool.and_eq_true] at h
  rw [ht] at h
  exact oneLine_of_accepts (by decide) h.1

theorem oneLine_parseCoupling {raw : Option Text} {k : Text} (h : parseCoupling raw = some k) :
    OneLine k := by
  unfold parseCoupling at h
  split at h
  · rw [← Option.some.inj h]
    decide
  · dsimp only at h
    split_ifs at h with hk
    simp only [Bool.and_eq_true] at hk
    rw [← Option.some.inj h]
    exact oneLine_of_accepts (by decide) hk.1.1.1

theorem oneLine_transformerParams {props : Option (Map Text PropValue)} {tp : TransformerParams}
    (h : parseTransformerParams props = some tp) :
    OneLine tp.lp ∧ OneLine tp.ls ∧ OneLine tp.k ∧ ∀ r ∈ tp.dcr, OneLine r := by
  unfold parseTransformerParams at h
  split at h
  case h_2 => cases h
  case h_1 lp ls hlp hls =>
    split_ifs at h with hpos
    rw [Bool.and_eq_true] at hpos
    split at h
    case h_1 => cases h
    case h_2 k hk =>
      rw [← Option.some.inj h]
      refine ⟨oneLine_of_positive (trim_propText (truthy_eq_some.mp hlp).1) hpos.1,
        oneLine_of_positive (trim_propText (truthy_eq_some.mp hls).1) hpos.2,
        oneLine_parseCoupling hk, fun r hr => ?_⟩
      obtain ⟨hr, hrpos⟩ := Option.filter_eq_some_iff.mp hr
      refine oneLine_of_positive ?_ hrpos
      rcases Option.or_eq_some_iff.mp (truthy_eq_some.mp hr).1 with hr | ⟨_, hr⟩
      · exact trim_propText hr
      · exact trim_propText hr

theorem oneLine_lineSpec {props : Option (Map Text PropValue)} {tl : TransmissionLineParams}
    (h : parseTransmissionLineParams props = some tl) : OneLine (lineSpec tl) := by
  have heither : ∀ {a b : String} {v : Text},
      truthy ((propText props a).or (propText props b)) = some v →
        isPositiveSpiceValue v = true → OneLine v := by
    intro a b v hv hpos
    refine oneLine_of_positive ?_ hpos
    rcases Option.or_eq_some_iff.mp (truthy_eq_some.mp hv).1 with hv | ⟨_, hv⟩
    · exact trim_propText hv
    · exact trim_propText hv
  have hz : OneLine "Z0=".toList := by decide
  have htd : OneLine "TD=".toList := by decide
  have hf : OneLine "F=".toList := by decide
  have hnl : OneLine " NL=".toList := by decide
  unfold parseTransmissionLineParams at h
  split at h
  case h_1 => cases h
  case h_2 z0 hz0 =>
    split_ifs at h with hneg
    have hz0 := heither hz0 (by simpa using hneg)
    split at h
    case h_1 td htd' =>
      split_ifs at h with hpos
      rw [← Option.some.inj h]
      exact (hz.append hz0).append (.cons (by decide) (htd.append (heither htd' hpos)))
    case h_2 =>
      split at h
      case h_2 => cases h
      case h_1 f hf' =>
        split_ifs at h with hpos
        rw [← Option.some.inj h]
        refine (hz.append hz0).append (.cons (by decide) ((hf.append (heither hf' hpos)).append ?_))
        cases hfl : (truthy (propText props "nl")).filter isPositiveSpiceValue with
        | none => exact oneLine_nil
        | some nl =>
          obtain ⟨hnl', hnlpos⟩ := Option.filter_eq_some_iff.mp hfl
          exact hnl.append
            (oneLine_of_positive (trim_propText (truthy_eq_some.mp hnl').1) hnlpos)

omit [Runtime] in
theorem oneLine_gain {raw gain : Text} (h : normalizeControlledSourceGain raw = some gain) :
    OneLine gain := by
  unfold normalizeControlledSourceGain at h
  dsimp only at h
  split_ifs at h with hacc
  rw [← Option.some.inj h]
  exact oneLine_of_accepts (by decide) hacc

theorem oneLine_zenerModel {vz : Text} {m : ModelDef} (h : buildZenerModel vz = some m) :
    OneLine m.name ∧ OneLine m.body := by
  obtain ⟨v, _, rfl⟩ := Option.map_eq_some_iff.mp h
  have hname : OneLine (zenerName v) := by
    have hz : OneLine "DZ".toList := by decide
    refine hz.append fun hm => ?_
    obtain ⟨c, hc, he⟩ := List.mem_map.mp hm
    split_ifs at he with hp
    · exact absurd he (by decide)
    · exact oneLine_toText v (he ▸ hc)
  have hmodel : OneLine ".model ".toList := by decide
  have hbv : OneLine " D(IS=1e-14 N=1 RS=1 BV=".toList := by decide
  have hend : OneLine " IBV=5m)".toList := by decide
  exact ⟨hname, ((((hmodel.append hname).append hbv).append (oneLine_toText v)).append hend)⟩

/-! ## Device cards -/

/-- The string of a component that reaches its card as authored: the value of an
independent source, the model of a device that names one. -/
def freeText (c : Component) : Option Text :=
  match c.type with
  | .voltageSource | .currentSource => truthy c.value
  | .diode | .bjt | .mosfet | .jfet | .switch | .subckt => truthy c.model
  | _ => none

theorem oneLine_rewriteExprNodeRefs {nodeMap : Map Text Text} (hm : ∀ e ∈ nodeMap, OneLine e.2)
    {expr : Text} (h : OneLine expr) : OneLine (rewriteExprNodeRefs expr nodeMap) := by
  have hv : OneLine "V(".toList := by decide
  have hclose : OneLine ")".toList := by decide
  refine oneLine_replaceCalls (fun _ args _ hargs => ?_) h
  refine (hv.append (oneLine_mapCommas (fun t ht => ?_) hargs)).append hclose
  unfold exprRef
  cases href : (Map.fill (fun e : Text × Text => Runtime.lower e.1) Prod.snd nodeMap []).get?
      (Runtime.lower (trim t)) with
  | none => exact ht.trim
  | some node =>
    rcases Map.mem_fill (Map.mem_of_get? href) with ⟨e, he, hnode⟩ | hnil
    · exact (Prod.mk.inj hnode).2 ▸ hm e he
    · exact absurd hnil List.not_mem_nil

theorem deviceSpec_of_freeText (exprNodeMap : Map Text Text) {c : Component} {t : Text}
    (h : freeText c = some t) : deviceSpec exprNodeMap c = some t := by
  unfold freeText at h
  unfold deviceSpec
  split at h
  case h_9 => cases h
  all_goals
    rename_i hty
    simp only [hty, h, Option.getD_some]

theorem deviceSpec_oneLine {exprNodeMap : Map Text Text} (hm : ∀ e ∈ exprNodeMap, OneLine e.2)
    {c : Component} {spec : Text} (h : deviceSpec exprNodeMap c = some spec) :
    OneLine spec ↔ ∀ t ∈ freeText c, OneLine t := by
  cases hfree : freeText c with
  | some t =>
    rw [deviceSpec_of_freeText exprNodeMap hfree] at h
    simp [Option.some.inj h]
  | none =>
    refine iff_of_true ?_ (by simp)
    unfold deviceSpec at h
    split at h
    case h_1 | h_2 | h_3 =>
      rw [← Option.some.inj h]
      cases hv : truthy (some ((c.value.getD []).filter (!isSpace ·))) with
      | none => decide
      | some v =>
        have hsolid : Solid v := by
          rw [← Option.some.inj (truthy_eq_some.mp hv).1]
          exact fun c hc => by simpa using (List.mem_filter.mp hc).2
        exact hsolid.oneLine
    case h_4 hty | h_5 hty =>
      simp only [freeText, hty] at hfree
      rw [← Option.some.inj h, hfree]
      decide
    case h_6 | h_7 =>
      obtain ⟨raw, _, hgain⟩ := Option.bind_eq_some_iff.mp h
      exact oneLine_gain hgain
    case h_8 hty =>
      simp only [freeText, hty] at hfree
      rw [← Option.some.inj h, hfree]
      decide
    case h_9 =>
      obtain ⟨m, hzener, rfl⟩ := Option.map_eq_some_iff.mp h
      obtain ⟨vz, _, hbuild⟩ := Option.bind_eq_some_iff.mp hzener
      exact (oneLine_zenerModel hbuild).1
    case h_10 hty | h_11 hty | h_12 hty | h_13 hty | h_14 hty =>
      simp only [freeText, hty] at hfree
      rw [hfree] at h
      cases h
    case h_15 =>
      obtain ⟨tl, htl, rfl⟩ := Option.map_eq_some_iff.mp h
      exact oneLine_lineSpec htl
    case h_16 =>
      obtain ⟨value, hvalue, rfl⟩ := Option.map_eq_some_iff.mp h
      have hexpr := (Option.filter_eq_some_iff.mp hvalue).2
      rw [isSourceExpr, Bool.and_eq_true, Bool.not_eq_true', List.any_eq_false] at hexpr
      refine oneLine_rewriteExprNodeRefs hm (NoLineBreak.oneLine fun c hc => ?_)
      exact Bool.eq_false_iff.mpr (hexpr.1 c hc)
    case h_17 => cases h

omit [Runtime] in
theorem oneLine_resolved {nets : List Net} {pins : List PinConnection} {nodes : List Text}
    (h : Resolved (buildNodeMap nets) pins nodes) : ∀ n ∈ nodes, OneLine n := by
  intro n hn
  obtain ⟨pin, _, hpin⟩ := Outcome.exists_of_mem_right h hn
  exact oneLine_nodeMap (Map.mem_of_get? (truthy_eq_some.mp hpin).1)

omit [Runtime] in
theorem oneLine_element {name spec : Text} {nodes : List Text} (hname : OneLine name)
    (hnodes : ∀ n ∈ nodes, OneLine n) :
    OneLine (Card.element name nodes spec).text ↔ OneLine spec := by
  have hjoin := (oneLine_join (show OneLine " ".toList by decide)).mpr hnodes
  simp only [Card.text, oneLine_append, oneLine_cons, hname, hjoin, true_and]
  exact ⟨fun h => h.2.2, fun h => ⟨by decide, by decide, h⟩⟩

omit [Runtime] in
theorem oneLine_transformerCards {designator pp pn sp sn : Text} {tp : TransformerParams}
    (hd : OneLine designator) (hnodes : ∀ n ∈ [pp, pn, sp, sn], OneLine n)
    (htp : OneLine tp.lp ∧ OneLine tp.ls ∧ OneLine tp.k ∧ ∀ r ∈ tp.dcr, OneLine r) :
    ∀ card ∈ transformerCards designator pp pn sp sn tp, OneLine card.text := by
  obtain ⟨hlp, hls, hk, hdcr⟩ := htp
  simp only [List.forall_mem_cons] at hnodes
  obtain ⟨hpp, hpn, hsp, hsn, -⟩ := hnodes
  have hname : ∀ (pre : Char) (suffix : Text), pre ≠ '\n' → OneLine suffix →
      OneLine (pre :: (designator ++ suffix)) := fun _ _ hp hs => .cons hp (hd.append hs)
  have hrser : OneLine (tp.dcr.getD "1m".toList) := by
    cases h : tp.dcr with
    | none => decide
    | some r => exact hdcr r h
  have hzero : OneLine "0".toList := by decide
  have hpMid : OneLine (designator ++ "_wp".toList) := hd.append (by decide)
  have hsMid : OneLine (designator ++ "_ws".toList) := hd.append (by decide)
  have htwo : ∀ {pre : Char} {suffix a b spec : Text}, pre ≠ '\n' → OneLine suffix → OneLine a →
      OneLine b → OneLine spec →
      OneLine (Card.element (pre :: (designator ++ suffix)) [a, b] spec).text :=
    fun hp hs ha hb hspec => (oneLine_element (hname _ _ hp hs) (by simp [ha, hb])).mpr hspec
  have hkey : OneLine (Card.coupling ('K' :: designator) ('L' :: (designator ++ ['P']))
      ('L' :: (designator ++ ['S'])) tp.k).text := by
    simp only [Card.text, oneLine_append, oneLine_cons]
    exact ⟨⟨by decide, hd⟩, by decide, ⟨by decide, hd, by decide, oneLine_nil⟩, by decide,
      ⟨by decide, hd, by decide, oneLine_nil⟩, by decide, hk⟩
  unfold transformerCards
  refine List.forall_mem_append.mpr ⟨List.forall_mem_append.mpr ⟨?_, ?_⟩, ?_⟩
  · simp only [List.forall_mem_cons]
    exact ⟨htwo (by decide) (by decide) hpp hpMid hlp, htwo (by decide) (by decide) hpMid hpn hrser,
      htwo (by decide) (by decide) hsp hsMid hls, htwo (by decide) (by decide) hsMid hsn hrser,
      hkey, List.forall_mem_nil _⟩
  · split_ifs
    · exact List.forall_mem_singleton.mpr (htwo (by decide) (by decide) hpn hzero (by decide))
    · exact List.forall_mem_nil _
  · split_ifs
    · exact List.forall_mem_singleton.mpr (htwo (by decide) (by decide) hsn hzero (by decide))
    · exact List.forall_mem_nil _

theorem oneLine_twinNode {circuit : CircuitJson} {options : NetlistOptions} {s : Text}
    (h : s ∈ twinNodes circuit options) : OneLine s := by
  obtain ⟨base, n, hbase, rfl⟩ := (twinNodes_spec circuit options).2.2 s h
  have hline : OneLine base := by
    have hnode : ∀ {node}, node ∈ (buildNodeMap circuit.nets).map Prod.snd → OneLine node := by
      intro node hn
      obtain ⟨e, he, rfl⟩ := List.mem_map.mp hn
      exact oneLine_nodeMap he
    cases hbase with
    | digital hn => exact (hnode hn).append (by decide)
    | probe hn => exact (hnode hn).append (by decide)
    | railAnalog => decide
    | railDigital => decide
  unfold candidate
  split_ifs
  · exact hline
  · exact hline.append (.cons (by decide) (oneLine_digits n))

theorem oneLine_portNode {circuit : CircuitJson} {options : NetlistOptions} {c : Component}
    {p t : Text}
    (h : portNode c (buildNodeMap circuit.nets) (deckPlan circuit options) p = some t) :
    OneLine t := by
  rcases portNode_value h with rfl | h | h
  · decide
  · obtain ⟨net, _, rfl⟩ := List.mem_map.mp h
    exact oneLine_of_isWord (isWord_nodeOfNet net)
  · exact oneLine_twinNode h

theorem freeText_of_isDigital {c : Component} (h : c.type.isDigital = true) :
    freeText c = none := by
  unfold freeText
  split <;> simp_all [ComponentType.isDigital, ComponentType.isLogicGate,
    ComponentType.isSequential]

/-- The cards of an analog component. -/
theorem AnalogEmission.oneLine {circuit : CircuitJson} {options : NetlistOptions} {c : Component}
    {cards : List Card} (hd : OneLine c.designator)
    (h : AnalogEmission (buildNodeMap circuit.nets) (modelMapOf (deckModels circuit))
      (emitContext circuit options).exprNodeMap c cards) :
    (∀ card ∈ cards, OneLine card.text) ↔ ∀ t ∈ freeText c, OneLine t := by
  have hexpr : ∀ e ∈ (emitContext circuit options).exprNodeMap, OneLine e.2 := by
    intro e he
    rcases Map.mem_fill he with ⟨x, hx, rfl⟩ | he
    · exact (deckPlan_lines circuit options).probes x hx
    · exact oneLine_nodeMap he
  cases h with
  | skipped hspec _ =>
    refine iff_of_true (List.forall_mem_nil _) fun t ht => ?_
    rw [deviceSpec_of_freeText _ ht] at hspec
    cases hspec
  | element hpre hspec hres =>
    rw [List.forall_mem_singleton, oneLine_element
      (oneLine_spiceInstanceName _ (spicePrefix_ne_newline hpre)) (oneLine_resolved hres)]
    exact deviceSpec_oneLine hexpr hspec
  | transformer hty htp hres =>
    refine iff_of_true (oneLine_transformerCards hd (oneLine_resolved hres)
      (oneLine_transformerParams htp)) ?_
    simp [freeText, hty]

/-- The card of a digital component. -/
theorem DigitalEmission.oneLine {circuit : CircuitJson} {options : NetlistOptions} {c : Component}
    {x : Option Card}
    (h : DigitalEmission (buildNodeMap circuit.nets) (deckPlan circuit options) c x) :
    ∀ card ∈ x.toList, OneLine card.text := by
  cases h with
  | @device card ports model hmodel _ hres hports hterms hform =>
    have hname := oneLine_aInstanceName c.designator
    have hmodel := (deckPlan_lines circuit options).names _
      (Map.mem_of_get? (truthy_eq_some.mp hmodel).1)
    have hnodes : ∀ n ∈ ports, OneLine n := fun n hn => by
      obtain ⟨p, _, hp⟩ := Outcome.exists_of_mem_right hres hn
      exact oneLine_portNode hp
    rw [Option.toList_some, List.forall_mem_singleton]
    rcases hform with ⟨ins, out, rfl⟩ | rfl
    · rw [← hports, Card.eventPorts, List.forall_mem_append, List.forall_mem_singleton] at hnodes
      have hjoin := (oneLine_join (show OneLine " ".toList by decide)).mpr hnodes.1
      simp only [Card.text, oneLine_append, oneLine_cons]
      exact ⟨hname, by decide, by decide, hjoin, by decide, by decide, hnodes.2, by decide, hmodel⟩
    · have hjoin := (oneLine_join (show OneLine " ".toList by decide)).mpr hnodes
      simp only [Card.text, oneLine_append, oneLine_cons]
      exact ⟨hname, by decide, hjoin, by decide, hmodel⟩
  | _ => simp

/-- The component section. -/
theorem components_oneLine {circuit : CircuitJson} {analysis : AnalysisConfig}
    {options : NetlistOptions} {parts : DeckParts}
    (run : DeckRun circuit analysis options parts)
    (hd : ∀ c ∈ circuit.components, OneLine c.designator) :
    (∀ card ∈ parts.loop.cards ++ (deckPlan circuit options).deviceLines, OneLine card.text) ↔
      ∀ c ∈ circuit.components, ∀ t ∈ freeText c, OneLine t := by
  have hloop := emitLoop_spec run.emitted
  have heach : ∀ c ∈ circuit.components,
      ((∀ card ∈ cardsOf (emitContext circuit options) c, OneLine card.text) ↔
        ∀ t ∈ freeText c, OneLine t) := by
    intro c hc
    cases hdig : c.type.isDigital
    · exact (cardsOf_emission (hloop.emits c hc) hdig).oneLine (hd c hc)
    · obtain ⟨x, hx, hcards⟩ := cardsOf_digital (hloop.emits c hc) hdig
      rw [hcards, freeText_of_isDigital hdig]
      exact iff_of_true hx.oneLine (by simp)
  rw [List.forall_mem_append, and_iff_left (deckPlan_lines circuit options).devices, hloop.cards]
  constructor
  · intro h c hc
    exact (heach c hc).mp fun card hcard => h card (List.mem_flatMap.mpr ⟨c, hc, hcard⟩)
  · intro h card hcard
    obtain ⟨c, hc, hcard⟩ := List.mem_flatMap.mp hcard
    exact (heach c hc).mpr (h c hc) card hcard

/-! ## Models -/

omit [Runtime] in
theorem mem_of_declareModels {emitted emitted' : Map Text Text} {entries : List (Text × Text)}
    {lines : List Text} (h : declareModels emitted entries = .ok (emitted', lines)) :
    ∀ l ∈ lines, ∃ e ∈ entries, e.2 = l := by
  induction entries generalizing emitted emitted' lines with
  | nil =>
    cases h
    exact List.forall_mem_nil _
  | cons e entries ih =>
    obtain ⟨name, body⟩ := e
    rw [declareModels] at h
    cases hprev : emitted.get? name with
    | some existing =>
      simp only [hprev] at h
      split_ifs at h
      exact fun l hl => List.exists_mem_cons_of_exists (ih h l hl)
    | none =>
      simp only [hprev] at h
      obtain ⟨⟨emitted₁, lines₁⟩, hrest, h⟩ := Outcome.bind_eq_ok.mp h
      cases Outcome.pure_eq_ok.mp h
      exact List.forall_mem_cons.mpr ⟨⟨_, List.mem_cons_self, rfl⟩,
        fun l hl => List.exists_mem_cons_of_exists (ih hrest l hl)⟩

theorem mem_resolveFrom {present : List Text} {cs : List Component} :
    ∀ m ∈ resolveFrom present cs, m ∈ genericModels := by
  induction cs generalizing present with
  | nil => exact List.forall_mem_nil _
  | cons c cs ih =>
    rw [resolveFrom]
    cases hm : (truthy c.model).bind genericModelByName with
    | none => exact ih
    | some m =>
      dsimp only
      split_ifs
      · exact ih
      · obtain ⟨name, _, hfind⟩ := Option.bind_eq_some_iff.mp hm
        exact List.forall_mem_cons.mpr ⟨List.mem_of_find?_eq_some hfind, ih⟩

/-- Without caller-supplied models the model section holds generic bodies only. -/
theorem models_generic {circuit : CircuitJson} {analysis : AnalysisConfig}
    {options : NetlistOptions} {parts : DeckParts}
    (run : DeckRun circuit analysis options parts) (hm : circuit.models.getD [] = []) :
    ∀ l ∈ parts.models, ∃ m ∈ genericModels, m.body = l := by
  intro l hl
  obtain ⟨e, he, rfl⟩ := mem_of_declareModels run.models l hl
  obtain ⟨m, hmem, rfl⟩ := List.mem_map.mp he
  rw [deckModels, hm, List.nil_append] at hmem
  exact ⟨m, mem_resolveFrom m hmem, rfl⟩

theorem zenerModels_oneLine {circuit : CircuitJson} {analysis : AnalysisConfig}
    {options : NetlistOptions} {parts : DeckParts}
    (run : DeckRun circuit analysis options parts) : ∀ l ∈ parts.zenerModels, OneLine l := by
  intro l hl
  obtain ⟨e, he, rfl⟩ := mem_of_declareModels run.zeners l hl
  obtain ⟨m, hmem, rfl⟩ := List.mem_map.mp he
  obtain ⟨c, _, hc⟩ := List.mem_filterMap.mp hmem
  obtain ⟨vz, _, hbuild⟩ := Option.bind_eq_some_iff.mp hc
  exact (oneLine_zenerModel hbuild).2

theorem digitalModels_oneLine {circuit : CircuitJson} {analysis : AnalysisConfig}
    {options : NetlistOptions} {parts : DeckParts}
    (run : DeckRun circuit analysis options parts) : ∀ l ∈ parts.digitalModels, OneLine l := by
  intro l hl
  obtain ⟨e, he, rfl⟩ := mem_of_declareModels run.digitals l hl
  obtain ⟨card, hcard, rfl⟩ := List.mem_map.mp he
  exact (deckPlan_lines circuit options).models card hcard

/-! ## Probes -/

/-- Probe maps that put strings of one line. -/
structure ProbeLines (ctx : ProbeContext) : Prop where
  instances : ∀ e ∈ ctx.designatorToInstance, OneLine e.2
  nodes : ∀ e ∈ ctx.netRefToNode, OneLine e.2

theorem noteNames_instances {e : Emission} (h : ∀ x ∈ e.designatorToInstance, OneLine x.2)
    (c : Component) (emitted : List Card) :
    ∀ x ∈ (noteNames e c emitted).designatorToInstance, OneLine x.2 := by
  unfold noteNames
  split
  case h_1 name designator hname _ =>
    split_ifs
    · exact h
    · intro x hx
      rcases Map.mem_set hx with rfl | hx
      · obtain ⟨card, _, rfl⟩ := Option.map_eq_some_iff.mp (truthy_eq_some.mp hname).1
        rw [Card.name, headD_splitBlanks]
        exact (solid_firstToken _).oneLine
      · exact h x hx
  case h_2 => exact h

theorem emitLoop_instances {ctx : EmitContext} {cs : List Component} {owners : Map Text Text}
    {e : Emission} (h : cs.foldlM (emitStep ctx) { nodeOwner := owners } = .ok e) :
    ∀ x ∈ e.designatorToInstance, OneLine x.2 := by
  refine @Outcome.foldlM_invariant _ _ _ _ (fun _ e => ∀ x ∈ e.designatorToInstance, OneLine x.2)
    (fun _ c e e' hp hs => ?_) _ [] _ _ (List.forall_mem_nil _) h
  obtain ⟨emitted, _, hs⟩ := Outcome.bind_eq_ok.mp hs
  have hnote := noteNames_instances hp c emitted
  split_ifs at hs
  · obtain ⟨owners', _, hs⟩ := Outcome.bind_eq_ok.mp hs
    cases Outcome.pure_eq_ok.mp hs
    exact hnote
  · cases Outcome.pure_eq_ok.mp hs
    exact hnote

theorem netRefToNode_oneLine (circuit : CircuitJson) (options : NetlistOptions) :
    ∀ e ∈ buildNetRefToNode circuit (buildNodeMap circuit.nets)
      (deckPlan circuit options).probeNodeForNet, OneLine e.2 := by
  have hfold : ∀ {f : Map Text Text → Net → Map Text Text},
      (∀ m net, (∀ e ∈ m, OneLine e.2) → ∀ e ∈ f m net, OneLine e.2) →
      ∀ (nets : List Net) (m : Map Text Text), (∀ e ∈ m, OneLine e.2) →
        ∀ e ∈ nets.foldl f m, OneLine e.2 := by
    intro f hf nets
    induction nets with
    | nil => exact fun _ h => h
    | cons net nets ih => exact fun m h => ih _ (hf m net h)
  have hset : ∀ {m : Map Text Text} {k node : Text}, (∀ e ∈ m, OneLine e.2) → OneLine node →
      ∀ e ∈ m.set k node, OneLine e.2 := by
    intro m k node hm hnode e he
    rcases Map.mem_set he with rfl | he
    · exact hnode
    · exact hm e he
  have hnode : ∀ {g node}, truthy ((buildNodeMap circuit.nets).get? g) = some node →
      OneLine node := fun h => oneLine_nodeMap (Map.mem_of_get? (truthy_eq_some.mp h).1)
  refine hfold (fun m net hm => ?_) _ _ (hfold (fun m net hm => ?_) _ _
    (hfold (fun m net hm => ?_) _ _ (List.forall_mem_nil _)))
  · unfold seedTwin
    split
    case h_1 => exact hm
    case h_2 twin htwin =>
      have htwin := (deckPlan_lines circuit options).probes _
        (Map.mem_of_get? (truthy_eq_some.mp htwin).1)
      have hid := hset (k := Runtime.lower net.id) hm htwin
      dsimp only
      split <;> split
      · exact hset (hset hid htwin) htwin
      · exact hset hid htwin
      · exact hset hid htwin
      · exact hid
  · unfold seedId
    split
    case h_1 node hn => exact hset hm (hnode hn)
    case h_2 => exact hm
  · unfold seedName
    split
    case h_1 node name hn _ => exact hset hm (hnode hn)
    case h_2 => exact hm

theorem probeLines {circuit : CircuitJson} {analysis : AnalysisConfig}
    {options : NetlistOptions} {parts : DeckParts}
    (run : DeckRun circuit analysis options parts) :
    ProbeLines (deckProbeContext circuit analysis options parts) :=
  ⟨emitLoop_instances run.emitted, netRefToNode_oneLine circuit options⟩

theorem ProbeLines.deviceRefs {ctx : ProbeContext} (h : ProbeLines ctx) {p : Text}
    (hp : OneLine p) : OneLine (rewriteProbeDeviceRefs p ctx.designatorToInstance) := by
  have hi : OneLine "i(".toList := by decide
  have hclose : OneLine ")".toList := by decide
  refine oneLine_replaceCalls (fun whole inner hw _ => ?_) hp
  split
  case h_1 mapped hm =>
    exact (hi.append (h.instances _ (Map.mem_of_get? (truthy_eq_some.mp hm).1))).append hclose
  case h_2 => exact hw

theorem ProbeLines.nodeRefs {ctx : ProbeContext} (h : ProbeLines ctx) {p : Text}
    (hp : OneLine p) (keep : Bool) :
    OneLine (rewriteProbeNodeRefs p ctx.netRefToNode keep) := by
  have hv : OneLine "v(".toList := by decide
  have hclose : OneLine ")".toList := by decide
  refine oneLine_replaceCalls (fun whole inner hw hinner => ?_) hp
  unfold rewriteNodeRef
  dsimp only
  split
  case h_1 exact hm =>
    split_ifs
    · exact oneLine_nil
    · exact (hv.append (h.nodes _ (Map.mem_of_get? hm))).append hclose
  case h_2 =>
    have hmapped : ∀ t ∈ ((inner.splitOn ',').map trim).map
        (fun p => (ctx.netRefToNode.get? (Runtime.lower p)).getD p), OneLine t := by
      rw [List.forall_mem_map, List.forall_mem_map]
      intro t ht
      cases href : ctx.netRefToNode.get? (Runtime.lower (trim t)) with
      | none => exact (hinner.of_subset (splitOn_subset ht)).trim
      | some node => exact h.nodes _ (Map.mem_of_get? href)
    split_ifs
    · exact oneLine_nil
    · exact hw
    · exact oneLine_nil
    · exact (hv.append ((oneLine_join (by decide)).mpr
        fun t ht => hmapped t (List.mem_filter.mp ht).1)).append hclose

theorem ProbeLines.rewriteProbe {ctx : ProbeContext} (h : ProbeLines ctx) {p : Text}
    (hp : OneLine p) (keep : Bool) : OneLine (rewriteProbe ctx p keep) :=
  (h.nodeRefs (h.deviceRefs hp) keep).trim

end CircuitForge
