/-
The physical lines of a deck.

The generator pushes lines and joins them by newlines.  A name, a number or a
vetted parameter never holds a newline; the strings listed by `freeTexts` reach
their line as authored.  A deck of schema-valid documents has the lines the
generator built exactly when these strings are of one line each.
-/
import CircuitForge.Netlist.Texts
import CircuitForge.Schemas.Analysis

namespace CircuitForge

open Js

/-! ## The lines of a deck -/

section

variable [Runtime]

/-- The lines the generator builds; a generic model brings the lines of its body. -/
def Deck.ownLines (d : Deck) : List Text :=
  { d with models := d.models.flatMap splitLines }.lines

/-- Every physical line of the deck is a line the generator builds. -/
def Deck.HasOwnLines (d : Deck) : Prop := splitLines d.text = d.ownLines

omit [Runtime] in
theorem block_splitLines (header : String) (body : List Text) :
    (block header (body.flatMap splitLines)).flatMap splitLines =
      (block header body).flatMap splitLines := by
  cases body with
  | nil => rfl
  | cons b body =>
    have hne : (b :: body).flatMap splitLines ≠ [] := fun h =>
      splitLines_ne_nil b (List.append_eq_nil_iff.mp h).1
    rw [block, if_neg hne, block, if_neg (List.cons_ne_nil _ _)]
    simp only [List.flatMap_cons (x := header.toList), List.flatMap_append, flatMap_splitLines_idem]

theorem Deck.ownLines_ne_nil (d : Deck) : d.ownLines ≠ [] := List.cons_ne_nil _ _

theorem Deck.text_eq (d : Deck) : d.text = join "\n".toList d.ownLines := by
  have hsame : d.ownLines.flatMap splitLines = d.lines.flatMap splitLines := by
    simp only [Deck.ownLines, Deck.lines, List.flatMap_append, block_splitLines]
  rw [Deck.text, ← join_flatMap_splitLines, ← hsame, join_flatMap_splitLines]

theorem Deck.hasOwnLines_iff (d : Deck) : d.HasOwnLines ↔ ∀ l ∈ d.ownLines, OneLine l := by
  rw [Deck.HasOwnLines, d.text_eq, splitLines_join_iff d.ownLines_ne_nil]

omit [Runtime] in
theorem forall_mem_block (header : String) (hh : OneLine header.toList) (body : List Text) :
    (∀ l ∈ block header body, OneLine l) ↔ ∀ l ∈ body, OneLine l := by
  unfold block
  split_ifs with hb
  · simp [hb]
  · rw [List.forall_mem_cons, List.forall_mem_append, List.forall_mem_singleton]
    exact ⟨fun h => h.2.1, fun h => ⟨hh, h, oneLine_nil⟩⟩

/-- A deck whose own lines are of one line each, section by section. -/
structure Deck.SectionsOneLine (d : Deck) : Prop where
  title : OneLine d.title
  zenerModels : ∀ l ∈ d.zenerModels, OneLine l
  digitalModels : ∀ l ∈ d.digitalModels, OneLine l
  includes : ∀ l ∈ d.includes, OneLine l
  components : ∀ card ∈ d.components, OneLine card.text
  initialConditions : ∀ l ∈ d.initialConditions, OneLine l
  optionTokens : ∀ l ∈ d.optionTokens, OneLine l
  temperature : ∀ l ∈ d.temperature, OneLine l
  analysis : ∀ l ∈ d.analysis.fields, OneLine l
  measures : ∀ l ∈ d.measures, OneLine l
  outputs : ∀ l ∈ d.outputs, OneLine l

theorem Deck.hasOwnLines_iff_sections (d : Deck) : d.HasOwnLines ↔ d.SectionsOneLine := by
  have hmodels : ∀ l ∈ d.models.flatMap splitLines, OneLine l := by
    intro l hl
    obtain ⟨m, _, hl⟩ := List.mem_flatMap.mp hl
    exact newline_notMem_of_mem_splitLines hl
  have hdiode : ∀ l ∈ (if d.defaultDiode then [defaultDiodeModel] else []), OneLine l := by
    split_ifs
    · exact List.forall_mem_singleton.mpr (by decide)
    · exact List.forall_mem_nil _
  have hoptions : (∀ l ∈ (if d.optionTokens = [] then []
      else [".options ".toList ++ join " ".toList d.optionTokens]), OneLine l) ↔
      ∀ l ∈ d.optionTokens, OneLine l := by
    split_ifs with h
    · simp [h]
    · rw [List.forall_mem_singleton, oneLine_append, oneLine_join (by decide)]
      exact and_iff_right (by decide)
  have htemp : (∀ l ∈ d.temperature.toList.map (".temp ".toList ++ ·), OneLine l) ↔
      ∀ l ∈ d.temperature, OneLine l := by
    cases d.temperature with
    | none => simp
    | some t =>
      simp only [Option.toList_some, List.map_singleton, List.forall_mem_singleton, oneLine_append,
        Option.mem_some_iff, forall_eq']
      exact and_iff_right (by decide)
  have hanalysis : OneLine (analysisToSpice d.analysis) ↔ ∀ l ∈ d.analysis.fields, OneLine l :=
    oneLine_join (by decide)
  have hcards : (∀ l ∈ d.components.map Card.text, OneLine l) ↔
      ∀ card ∈ d.components, OneLine card.text := List.forall_mem_map
  have htitle : OneLine ("* ".toList ++ d.title) ↔ OneLine d.title := by
    rw [oneLine_append]
    exact and_iff_right (by decide)
  have hstamp : OneLine ("* ".toList ++ d.generatedAt.iso) := by
    rw [oneLine_append]
    exact ⟨by decide, d.generatedAt.solid.oneLine⟩
  rw [d.hasOwnLines_iff, Deck.ownLines, Deck.lines]
  simp only [List.forall_mem_append, List.forall_mem_cons, and_assoc,
    forall_mem_block "* Default diode model" (by decide),
    forall_mem_block "* Models" (by decide),
    forall_mem_block "* Zener models" (by decide),
    forall_mem_block "* Digital / bridge models" (by decide),
    forall_mem_block "* Include files" (by decide),
    forall_mem_block "* Initial conditions" (by decide),
    forall_mem_block "* Options" (by decide),
    forall_mem_block "* Temperature corner (ambient)" (by decide),
    htitle, hoptions, htemp, hanalysis, hcards, iff_true_intro (List.forall_mem_nil OneLine),
    iff_true_intro hmodels, iff_true_intro hdiode, iff_true_intro hstamp, oneLine_nil, true_and]
  constructor
  · rintro ⟨ht, _, hz, hd, hi, _, hc, hic, ho, htm, _, ha, hm, _, hout, _⟩
    exact ⟨ht, hz, hd, hi, hc, hic, ho, htm, ha, hm, hout⟩
  · intro h
    exact ⟨h.title, by decide, h.zenerModels, h.digitalModels, h.includes, by decide, h.components,
      h.initialConditions, h.optionTokens, h.temperature, by decide, h.analysis, h.measures,
      by decide, h.outputs, by decide⟩

/-! ## Steps -/

/-- Whether `clampStepToPointBudget` replaces the step: the sweep has more than
`maxSimPoints` points. -/
def overPointBudget (start stop step : Text) : Bool :=
  match parseSpiceValue stop, parseSpiceValue start, parseSpiceValue step with
  | some pStop, some pStart, some pStep =>
    let span := Runtime.abs (Runtime.sub pStop.value pStart.value)
    Runtime.lt (Runtime.lit 0 0) span && Runtime.lt (Runtime.lit 0 0) pStep.value &&
      !Runtime.le (Runtime.div span pStep.value) maxSimPoints
  | _, _, _ => false

theorem oneLine_formatSpiceValue (v : Runtime.Num) : OneLine (formatSpiceValue v) := by
  have hband : OneLine (formatBand (Runtime.abs v)).1 := by
    unfold formatBand
    split_ifs <;> (dsimp only; decide)
  unfold formatSpiceValue
  by_cases hzero : Runtime.eq v (Runtime.lit 0 0) = true
  · rw [if_pos hzero]
    decide
  · rw [if_neg hzero]
    exact OneLine.append (.append (.append (.ite (by decide) oneLine_nil)
      (.ite (oneLine_toText _) (oneLine_toText _))) hband) oneLine_nil

theorem oneLine_clampStep (start stop step : Text) :
    OneLine (clampStepToPointBudget start stop step) ↔
      (overPointBudget start stop step = false → OneLine step) := by
  unfold clampStepToPointBudget overPointBudget
  cases parseSpiceValue stop with
  | none => simp
  | some pStop =>
    cases parseSpiceValue start with
    | none => simp
    | some pStart =>
      cases parseSpiceValue step with
      | none => simp
      | some pStep =>
        dsimp only
        split_ifs with hpos hbudget
        · rw [Bool.or_eq_true, Bool.not_eq_true', Bool.not_eq_true'] at hpos
          rcases hpos with h | h <;> simp [h]
        · simp [hbudget]
        · rw [Bool.or_eq_true, not_or, Bool.not_eq_true', Bool.not_eq_true', Bool.not_eq_false,
            Bool.not_eq_false] at hpos
          simp [hpos.1, hpos.2, hbudget, oneLine_formatSpiceValue]

theorem oneLine_calculateDefaultStep {stopTime : Text} (h : OneLine stopTime) :
    OneLine (calculateDefaultStep stopTime) := by
  unfold calculateDefaultStep
  split
  · split_ifs
    · exact oneLine_formatSpiceValue _
    · exact h
  · exact h

/-! ## Fourier requests -/

/-- Whether a probe of a Fourier request is a voltage off the reference node, so
that it keeps its command. -/
def readsVoltage (circuit : CircuitJson) (p : Text) : Bool :=
  startsWithI (trim (rewriteProbeNodeRefs p (buildNetRefToNode circuit
    (buildNodeMap circuit.nets) (deckPlan circuit {}).probeNodeForNet))) "v(".toList

omit [Runtime] in
/-- A call is replaced only at its own letter. -/
theorem replaceCalls_cons {l c : Char} (h : sameLetter l c = false) (ok : Text → Bool)
    (f : Text → Text → Text) (s : Text) : ∃ r, replaceCalls l ok f (c :: s) = c :: r := by
  refine ⟨replaceCallsFrom l ok f (isWord c) 0 s, ?_⟩
  rw [replaceCalls, replaceCallsFrom]
  simp [callAt, h]

omit [Runtime] in
theorem replaceCallsFrom_of_noParen {l : Char} {ok : Text → Bool} {f : Text → Text → Text}
    {s : Text} (h : '(' ∉ s) (prev : Bool) : replaceCallsFrom l ok f prev 0 s = s := by
  induction s generalizing prev with
  | nil => rfl
  | cons c s ih =>
    rw [List.mem_cons, not_or] at h
    have hcall : callAt l (c :: s) = none := by
      unfold callAt
      dsimp only
      split_ifs
      · split
        case h_1 t ht =>
          refine absurd ((List.dropWhile_sublist isSpace).mem ?_) h.2
          change '(' ∈ trimStart s
          rw [ht]
          exact List.mem_cons_self
        case h_2 => rfl
      · rfl
    rw [replaceCallsFrom, hcall, ite_self]
    exact congrArg (c :: ·) (ih h.2 _)

omit [Runtime] in
theorem startsWithI_cons_false {c : Char} {r : Text} (h : sameLetter 'v' c = false) :
    startsWithI (c :: r) "v(".toList = false := by
  have hc : ('v' == c.toLower) = false := by
    rw [sameLetter] at h
    rw [Bool.eq_false_iff, Ne, beq_iff_eq]
    intro e
    rw [← e] at h
    exact absurd h (by decide)
  change List.isPrefixOf ['v', '('] (c.toLower :: asciiLower r) = false
  rw [List.isPrefixOf, hc, Bool.false_and]

omit [Runtime] in
theorem trim_cons {c : Char} (h : isSpace c = false) (s : Text) : ∃ r, trim (c :: s) = c :: r := by
  rw [trim, trimStart_of_head h, trimEnd]
  cases hd : List.rdropWhile isSpace (c :: s) with
  | nil =>
    rw [List.rdropWhile_eq_nil_iff] at hd
    rw [hd c List.mem_cons_self] at h
    cases h
  | cons d r =>
    obtain ⟨t, ht⟩ := List.rdropWhile_prefix isSpace (c :: s)
    rw [hd, List.cons_append, List.cons.injEq] at ht
    exact ⟨r, by rw [ht.1]⟩

omit [Runtime] in
theorem letter_i {c : Char} (h : sameLetter 'i' c = true) :
    sameLetter 'v' c = false ∧ isSpace c = false := by
  rw [sameLetter, beq_iff_eq] at h
  have hcode : c.toLower.toNat = 105 := by
    rw [h]
    decide
  rw [toNat_toLower] at hcode
  refine ⟨?_, isSpace_eq_false_of_isWord (isWord_iff.mpr ?_)⟩
  · rw [sameLetter, h]
    decide
  · split_ifs at hcode <;> omega

/-- A current keeps its letter when its device is renamed. -/
theorem deviceRefs_head (m : Map Text Text) {l : Char} (h : sameLetter 'i' l = true) (s : Text) :
    ∃ c r, rewriteProbeDeviceRefs (l :: s) m = c :: r ∧ sameLetter 'i' c = true := by
  rw [rewriteProbeDeviceRefs, replaceCalls, replaceCallsFrom]
  simp only [Bool.false_eq_true, if_false]
  cases hcall : callAt 'i' (l :: s) with
  | none => exact ⟨l, _, rfl, h⟩
  | some call =>
    obtain ⟨inner, n⟩ := call
    obtain ⟨k, rfl⟩ : ∃ k, n = k + 1 := ⟨n - 1, by have := callAt_pos hcall; omega⟩
    dsimp only
    split_ifs
    · split
      · exact ⟨'i', _, rfl, by decide⟩
      · exact ⟨l, _, rfl, h⟩
    · exact ⟨l, _, rfl, h⟩

/-- A schema-valid probe keeps a `fourier` command exactly when it reads a voltage. -/
theorem startsWith_rewriteProbe {circuit : CircuitJson} {analysis : AnalysisConfig}
    {parts : DeckParts} {p : Text} (h : probeSchema p = true) :
    startsWithI (rewriteProbe (deckProbeContext circuit analysis {} parts) p) "v(".toList =
      readsVoltage circuit p := by
  obtain ⟨l, inner, rfl, hl, hparen, _⟩ := probe_shape h
  have hl : sameLetter 'v' l = true ∧ sameLetter 'i' l = false ∨
      sameLetter 'v' l = false ∧ sameLetter 'i' l = true := by
    simp only [sameLetter, beq_iff_eq, beq_eq_false_iff_ne] at hl ⊢
    rcases hl with hl | hl
    · exact Or.inl ⟨hl, by rw [hl]; decide⟩
    · exact Or.inr ⟨by rw [hl]; decide, hl⟩
  unfold rewriteProbe readsVoltage
  rcases hl with ⟨_, hi⟩ | ⟨hv, hi⟩
  · -- a voltage: no device is named
    have hrest : '(' ∉ inner ++ [')'] := by
      rw [List.mem_append, not_or]
      exact ⟨hparen, by decide⟩
    have hkeep : rewriteProbeDeviceRefs (l :: '(' :: (inner ++ [')']))
        (deckProbeContext circuit analysis {} parts).designatorToInstance =
          l :: '(' :: (inner ++ [')']) := by
      rw [rewriteProbeDeviceRefs, replaceCalls, replaceCallsFrom]
      have hhead : callAt 'i' (l :: '(' :: (inner ++ [')'])) = none := by simp [callAt, hi]
      rw [hhead, ite_self]
      dsimp only
      rw [replaceCallsFrom]
      have hopen : callAt 'i' ('(' :: (inner ++ [')'])) = none := by
        simp [callAt, show sameLetter 'i' '(' = false by decide]
      rw [hopen, ite_self]
      exact congrArg (fun r => l :: '(' :: r) (replaceCallsFrom_of_noParen hrest _)
    rw [hkeep]
    rfl
  · -- a current stays one
    obtain ⟨c, r, hdevice, hc⟩ := deviceRefs_head
      (deckProbeContext circuit analysis {} parts).designatorToInstance hi ('(' :: (inner ++ [')']))
    have hnever : ∀ {c : Char}, sameLetter 'i' c = true → ∀ (s : Text) (m : Map Text Text),
        startsWithI (trim (rewriteProbeNodeRefs (c :: s) m)) "v(".toList = false := by
      intro c hc s m
      obtain ⟨hvc, hblank⟩ := letter_i hc
      obtain ⟨r, hr⟩ := replaceCalls_cons hvc (· ≠ []) (rewriteNodeRef m false) s
      obtain ⟨r', hr'⟩ := trim_cons hblank r
      rw [rewriteProbeNodeRefs, hr, hr']
      exact startsWithI_cons_false hvc
    rw [hdevice, hnever hc, hnever hi]

/-! ## Analysis requests -/

/-- The fundamental of a Fourier request that keeps a command. -/
def fundamental (circuit : CircuitJson) (a : TranAnalysis) : List Text :=
  match a.fourier with
  | some f => if f.probes.any (readsVoltage circuit) then [f.fundamentalFreq] else []
  | none => []

/-- The values on the analysis card as authored. -/
def cardValues : AnalysisConfig → List Text
  | .tran a =>
    a.stopTime :: (truthy a.startTime).toList ++ (truthy a.maxStep).toList ++
      ((truthy a.stepTime).filter (!overPointBudget a.start a.stopTime ·)).toList
  | .ac a => [a.sweep.startFreq, a.sweep.stopFreq]
  | .dc a =>
    [a.startVal, a.stopVal] ++
      (if overPointBudget a.startVal a.stopVal a.increment then [] else [a.increment])
  | .op _ => []
  | .noise a => [a.sweep.startFreq, a.sweep.stopFreq]
  | .sens _ => []

/-- The values of a request that reach a line as authored. -/
def freeValues (circuit : CircuitJson) : AnalysisConfig → List Text
  | .tran a => cardValues (.tran a) ++ fundamental circuit a
  | a => cardValues a

theorem oneLine_tranFields (a : TranAnalysis) :
    (∀ l ∈ a.fields, OneLine l) ↔ ∀ t ∈ cardValues (.tran a), OneLine t := by
  have hstart : OneLine a.start ↔ ∀ t ∈ (truthy a.startTime).toList, OneLine t := by
    unfold TranAnalysis.start
    cases truthy a.startTime with
    | none => exact iff_of_true (by decide) (List.forall_mem_nil _)
    | some t => exact List.forall_mem_singleton.symm
  have hstep : OneLine a.stopTime → (OneLine a.emittedStep ↔
      ∀ t ∈ ((truthy a.stepTime).filter (!overPointBudget a.start a.stopTime ·)).toList,
        OneLine t) := by
    intro hstop
    unfold TranAnalysis.emittedStep
    rw [oneLine_clampStep]
    cases truthy a.stepTime with
    | none =>
      exact iff_of_true (fun _ => oneLine_calculateDefaultStep hstop) (List.forall_mem_nil _)
    | some step =>
      rw [Option.getD_some, Option.filter_some]
      cases overPointBudget a.start a.stopTime step <;> simp
  have huic : ∀ l ∈ (if a.uic then ["uic".toList] else []), OneLine l := by
    split_ifs
    · exact List.forall_mem_singleton.mpr (by decide)
    · exact List.forall_mem_nil _
  simp only [TranAnalysis.fields, cardValues, List.forall_mem_append, List.forall_mem_cons, hstart]
  constructor
  · rintro ⟨⟨⟨_, hs, hstop, hst, _⟩, hmax⟩, _⟩
    exact ⟨⟨⟨hstop, hst⟩, hmax⟩, (hstep hstop).mp hs⟩
  · rintro ⟨⟨⟨hstop, hst⟩, hmax⟩, hs⟩
    exact ⟨⟨⟨by decide, (hstep hstop).mpr hs, hstop, hst, List.forall_mem_nil _⟩, hmax⟩, huic⟩

omit [Runtime] in
theorem oneLine_variation (v : Variation) : OneLine v.name := by
  cases v <;> decide

theorem oneLine_sweepFields (s : Sweep) :
    (∀ l ∈ s.fields, OneLine l) ↔ ∀ t ∈ [s.startFreq, s.stopFreq], OneLine t := by
  simp only [Sweep.fields, List.forall_mem_cons]
  exact ⟨fun h => h.2.2, fun h => ⟨oneLine_variation _, oneLine_toText _, h⟩⟩

theorem oneLine_acFields (a : AcAnalysis) :
    (∀ l ∈ a.fields, OneLine l) ↔ ∀ t ∈ cardValues (.ac a), OneLine t := by
  have hac : OneLine ".ac".toList := by decide
  unfold AcAnalysis.fields
  split_ifs
  · have hlin : OneLine "lin".toList := by decide
    have hone : OneLine "1".toList := by decide
    simp only [cardValues, List.forall_mem_cons, hac, hlin, hone, true_and]
  · rw [List.forall_mem_cons, and_iff_right hac]
    exact oneLine_sweepFields a.sweep

theorem oneLine_dcFields {a : DcAnalysis} (hs : OneLine a.source) :
    (∀ l ∈ a.fields, OneLine l) ↔ ∀ t ∈ cardValues (.dc a), OneLine t := by
  have hdc : OneLine ".dc".toList := by decide
  have hincrement : OneLine a.emittedIncrement ↔
      ∀ t ∈ (if overPointBudget a.startVal a.stopVal a.increment then [] else [a.increment]),
        OneLine t := by
    rw [DcAnalysis.emittedIncrement, oneLine_clampStep]
    cases overPointBudget a.startVal a.stopVal a.increment <;> simp
  simp only [DcAnalysis.fields, cardValues, List.forall_mem_append, List.forall_mem_cons, hdc, hs,
    hincrement, true_and]
  exact ⟨fun h => ⟨⟨h.1, h.2.1, h.2.2.2⟩, h.2.2.1⟩, fun h => ⟨h.1.1, h.1.2.1, h.2, h.1.2.2⟩⟩

omit [Runtime] in
theorem oneLine_of_sourceDesignator {s : Text} (h : sourceDesignatorRe.accepts s = true) :
    OneLine s := oneLine_of_accepts (by decide) h

omit [Runtime] in
theorem oneLine_of_probe {p : Text} (h : probeSchema p = true) : OneLine p :=
  oneLine_of_accepts (by decide) h

/-- The analysis card. -/
theorem oneLine_fields {ctx : ProbeContext} (hctx : ProbeLines ctx) {analysis : AnalysisConfig}
    (ha : analysisConfigSchema analysis = true) :
    (∀ l ∈ (effectiveAnalysis ctx analysis).fields, OneLine l) ↔
      ∀ t ∈ cardValues analysis, OneLine t := by
  have houtput : ∀ {p : Text}, probeSchema p = true →
      OneLine ((truthy (some (rewriteProbe ctx p true))).getD p) := by
    intro p hp
    cases h : truthy (some (rewriteProbe ctx p true)) with
    | none => exact oneLine_of_probe hp
    | some q =>
      rw [Option.getD_some, ← Option.some.inj (truthy_eq_some.mp h).1]
      exact hctx.rewriteProbe (oneLine_of_probe hp) true
  cases analysis with
  | tran a => exact oneLine_tranFields a
  | ac a => exact oneLine_acFields a
  | dc a =>
    simp only [analysisConfigSchema, dcAnalysisSchema, Bool.and_eq_true] at ha
    rw [effectiveAnalysis]
    split
    case h_1 mapped hm =>
      obtain ⟨_, _, hmapped⟩ := Option.bind_eq_some_iff.mp hm
      exact oneLine_dcFields (a := { a with source := mapped })
        (hctx.instances _ (Map.mem_of_get? (truthy_eq_some.mp hmapped).1))
    case h_2 => exact oneLine_dcFields (oneLine_of_sourceDesignator ha.1.1.1.1)
  | op a => exact iff_of_true (List.forall_mem_singleton.mpr (by decide)) (List.forall_mem_nil _)
  | noise a =>
    simp only [analysisConfigSchema, noiseAnalysisSchema, Bool.and_eq_true] at ha
    have hnoise : OneLine ".noise".toList := by decide
    change (∀ l ∈ NoiseAnalysis.fields _, OneLine l) ↔ _
    rw [NoiseAnalysis.fields, List.forall_mem_append, oneLine_sweepFields]
    refine and_iff_right ?_
    simp only [List.forall_mem_cons]
    exact ⟨hnoise, houtput ha.1.1.1, oneLine_of_sourceDesignator ha.1.1.2, List.forall_mem_nil _⟩
  | sens a =>
    simp only [analysisConfigSchema, sensAnalysisSchema, Bool.and_eq_true] at ha
    refine iff_of_true ?_ (List.forall_mem_nil _)
    change ∀ l ∈ SensAnalysis.fields _, OneLine l
    simp only [SensAnalysis.fields, List.forall_mem_cons]
    exact ⟨by decide, houtput ha.1, List.forall_mem_nil _⟩

theorem oneLine_initialConditions (nets : List Net) (analysis : AnalysisConfig) :
    ∀ l ∈ initialConditionCards (buildNodeMap nets) analysis, OneLine l := by
  intro l hl
  unfold initialConditionCards at hl
  split at hl
  case h_2 => exact absurd hl List.not_mem_nil
  case h_1 a =>
    obtain ⟨e, _, he⟩ := List.mem_filterMap.mp hl
    split at he
    case h_2 => cases he
    case h_1 node hnode =>
      split_ifs at he
      have hic : OneLine ".ic v(".toList := by decide
      have hclose : OneLine ")=".toList := by decide
      rw [← Option.some.inj he]
      exact ((hic.append (oneLine_nodeMap (Map.mem_of_get? (truthy_eq_some.mp hnode).1))).append
        hclose).append (oneLine_toText _)

/-! ## Measurements and outputs -/

omit [Runtime] in
theorem oneLine_asciiUpper_name (t : MeasureType) : OneLine (asciiUpper t.name) := by
  cases t <;> decide

omit [Runtime] in
theorem oneLine_asciiUpper_edge (e : Edge) : OneLine (asciiUpper e.name) := by
  cases e <;> decide

theorem oneLine_measureCard {ctx : ProbeContext} (hctx : ProbeLines ctx) {ms : MeasureSpec}
    (hms : measureSpecSchema ms = true) {l : Text} (hl : measureCard ctx ms = some l) :
    OneLine l := by
  simp only [measureSpecSchema, Bool.and_eq_true] at hms
  have hname : OneLine ms.name := oneLine_of_accepts (by decide) hms.1.1.1
  obtain ⟨probe, hprobe, hl⟩ := Option.bind_eq_some_iff.mp hl
  have hprobe : OneLine probe := by
    rw [← Option.some.inj (truthy_eq_some.mp hprobe).1]
    exact hctx.rewriteProbe (oneLine_of_probe hms.1.2) false
  have hmeas : OneLine ".meas tran ".toList := by decide
  have hwhen : OneLine " WHEN ".toList := by decide
  have hcross : OneLine "=1".toList := by decide
  split at hl
  · obtain ⟨v, _, rfl⟩ := Option.map_eq_some_iff.mp hl
    exact (((((hmeas.append hname).append hwhen).append hprobe).append
      (.cons (c := '=') (by decide) (oneLine_toText v))).append
        (.cons (c := ' ') (by decide) (oneLine_asciiUpper_edge _))).append hcross
  · rw [← Option.some.inj hl]
    exact (((hmeas.append hname).append (.cons (c := ' ') (by decide)
      (oneLine_asciiUpper_name _))).append (.cons (c := ' ') (by decide) hprobe))

theorem oneLine_measureCards {ctx : ProbeContext} (hctx : ProbeLines ctx)
    {analysis : AnalysisConfig} (ha : analysisConfigSchema analysis = true) :
    ∀ l ∈ measureCards ctx analysis, OneLine l := by
  intro l hl
  cases analysis with
  | tran a =>
    simp only [analysisConfigSchema, tranAnalysisSchema, Bool.and_eq_true] at ha
    obtain ⟨ms, hms, hcard⟩ := List.mem_filterMap.mp hl
    cases hlist : a.measurements with
    | none =>
      rw [hlist] at hms
      exact absurd hms List.not_mem_nil
    | some list =>
      rw [hlist] at hms ha
      have := ha.2
      simp only [Option.all_some, Bool.and_eq_true, List.all_eq_true] at this
      exact oneLine_measureCard hctx (this.1 ms hms) hcard
  | _ => exact absurd hl List.not_mem_nil

theorem oneLine_rewriteCurrentProbeVector {p : Text} (hp : OneLine p) (emitted : List Text)
    (isAc : Bool) : OneLine (rewriteCurrentProbeVector p emitted isAc).token := by
  have hi : OneLine "i(".toList := by decide
  have hclose : OneLine ")".toList := by decide
  have hbracket : OneLine "]".toList := by decide
  unfold rewriteCurrentProbeVector
  split
  case h_1 => exact hp
  case h_2 name hname =>
    have hname : OneLine name := by
      unfold soleCall at hname
      split at hname
      case h_2 => cases hname
      case h_1 inner n hcall =>
        split_ifs at hname
        rw [← Option.some.inj hname]
        exact (hp.trim.of_subset (callAt_subset hcall)).trim
    have hvector : ∀ {param : Text}, OneLine param →
        OneLine ('@' :: (name ++ '[' :: (param ++ "]".toList))) := fun hparam =>
      .cons (by decide) (hname.append (.cons (by decide) (hparam.append hbracket)))
    dsimp only
    split_ifs
    all_goals first
      | exact oneLine_nil
      | exact (hi.append hname).append hclose
      | exact hvector (by decide)

theorem oneLine_probeTokens {ctx : ProbeContext} (hctx : ProbeLines ctx) {raw : List Text}
    (hraw : ∀ p ∈ raw, OneLine p) : ∀ t ∈ probeTokens ctx raw, OneLine t := by
  intro t ht
  obtain ⟨cp, hcp, rfl⟩ := List.mem_map.mp (List.mem_filter.mp (List.mem_eraseDups.mp ht)).1
  obtain ⟨p, hp, rfl⟩ := List.mem_map.mp hcp
  have hv : OneLine "v(".toList := by decide
  have hclose : OneLine ")".toList := by decide
  have hnormal : OneLine (normalizeProbe p) := by
    unfold normalizeProbe
    dsimp only
    split_ifs
    · exact (hraw p hp).trim
    · exact (hv.append (hraw p hp).trim).append hclose
  unfold resolveProbe
  dsimp only
  split_ifs
  · exact oneLine_nil
  · exact oneLine_rewriteCurrentProbeVector
      (hctx.nodeRefs (hctx.deviceRefs hnormal) false) ctx.seenDevices ctx.isAc

theorem oneLine_defaultProbes (circuit : CircuitJson) :
    ∀ p ∈ deckRawProbes circuit {}, OneLine p := by
  intro p hp
  have hv : OneLine "v(".toList := by decide
  have hclose : OneLine ")".toList := by decide
  obtain ⟨net, _, hnet⟩ := List.mem_filterMap.mp (List.mem_of_mem_take hp)
  obtain ⟨node, hnode, rfl⟩ := Option.map_eq_some_iff.mp hnet
  refine (hv.append ?_).append hclose
  rcases Option.or_eq_some_iff.mp (truthy_eq_some.mp hnode).1 with h | ⟨_, h⟩
  · exact (deckPlan_lines circuit {}).probes _ (Map.mem_of_get? h)
  · exact oneLine_nodeMap (Map.mem_of_get? h)

theorem oneLine_fourierCommands {circuit : CircuitJson} {analysis : AnalysisConfig}
    {parts : DeckParts} (hctx : ProbeLines (deckProbeContext circuit analysis {} parts))
    {a : TranAnalysis} (ha : tranAnalysisSchema a = true) :
    (∀ l ∈ fourierCommands (deckProbeContext circuit analysis {} parts) (.tran a), OneLine l) ↔
      ∀ t ∈ fundamental circuit a, OneLine t := by
  rw [fourierCommands, fundamental]
  cases hf : a.fourier with
  | none => exact iff_of_true (List.forall_mem_nil _) (List.forall_mem_nil _)
  | some f =>
    simp only [tranAnalysisSchema, hf, Option.all_some, fourierSchema, Bool.and_eq_true] at ha
    obtain ⟨⟨_, ⟨hfreq, hprobes⟩, _⟩, _⟩ := ha
    rw [List.all_eq_true] at hprobes
    have hcommand : ∀ p ∈
        ((f.probes.map (rewriteProbe (deckProbeContext circuit analysis {} parts))).filter
        (startsWithI · "v(".toList)).eraseDups,
        (OneLine ("  fourier ".toList ++ f.fundamentalFreq ++ ' ' :: p) ↔
          OneLine f.fundamentalFreq) := by
      intro q hq
      obtain ⟨p, hp, rfl⟩ := List.mem_map.mp (List.mem_filter.mp (List.mem_eraseDups.mp hq)).1
      have hq := hctx.rewriteProbe (oneLine_of_probe (hprobes p hp)) false
      have hhead : OneLine "  fourier ".toList := by decide
      exact ⟨fun h => (oneLine_append.mp (oneLine_append.mp h).1).2,
        fun h => (hhead.append h).append (.cons (by decide) hq)⟩
    have hany : f.probes.any (readsVoltage circuit) = true ↔
        ∃ q, q ∈ ((f.probes.map (rewriteProbe (deckProbeContext circuit analysis {} parts))).filter
          (startsWithI · "v(".toList)).eraseDups := by
      rw [List.any_eq_true]
      constructor
      · rintro ⟨p, hp, hv⟩
        have he : startsWithI (rewriteProbe (deckProbeContext circuit analysis {} parts) p)
            "v(".toList = readsVoltage circuit p := startsWith_rewriteProbe (hprobes p hp)
        rw [← he] at hv
        exact ⟨_, List.mem_eraseDups.mpr (List.mem_filter.mpr ⟨List.mem_map_of_mem hp, hv⟩)⟩
      · rintro ⟨q, hq⟩
        obtain ⟨hmem, hv⟩ := List.mem_filter.mp (List.mem_eraseDups.mp hq)
        obtain ⟨p, hp, rfl⟩ := List.mem_map.mp hmem
        exact ⟨p, hp, by rwa [startsWith_rewriteProbe (hprobes p hp)] at hv⟩
    dsimp only
    rw [spiceValueSchema] at hfreq
    rw [if_pos hfreq, List.forall_mem_map]
    by_cases hv : f.probes.any (readsVoltage circuit) = true
    · rw [if_pos hv, List.forall_mem_singleton]
      obtain ⟨q, hq⟩ := hany.mp hv
      exact ⟨fun h => (hcommand q hq).mp (h q hq), fun h p hp => (hcommand p hp).mpr h⟩
    · rw [if_neg hv]
      exact iff_of_true (fun p hp => absurd (hany.mpr ⟨p, hp⟩) hv) (List.forall_mem_nil _)

theorem oneLine_tfCommands {ctx : ProbeContext} (hctx : ProbeLines ctx) (circuit : CircuitJson)
    {a : OpAnalysis} (ha : opAnalysisSchema a = true) :
    ∀ l ∈ tfCommands ctx circuit (.op a), OneLine l := by
  rw [tfCommands]
  cases htf : a.tf with
  | none => exact List.forall_mem_nil _
  | some tf =>
    simp only [opAnalysisSchema, htf, Option.all_some, Bool.and_eq_true] at ha
    have hout : OneLine (rewriteProbe ctx tf.output) :=
      hctx.rewriteProbe (oneLine_of_probe ha.2.1) false
    have hsource : OneLine tf.inputSource := oneLine_of_sourceDesignator ha.2.2
    have hascii : ∀ c ∈ tf.inputSource, isWord c = true := by
      intro c hc
      have := Re.chars_of_accepts ha.2.2 hc
      simp only [sourceDesignatorRe, Re.letter, Re.plus, Re.digit, Re.chars, Bool.or_self,
        Bool.or_eq_true] at this
      rw [isWord, Bool.or_eq_true]
      left
      rw [isAlphanum_iff]
      rcases this with h | h | h
      · rw [isAlpha_iff] at h
        omega
      · exact isAlphanum_iff.mp h
      · rw [isDigit_iff] at h
        omega
    have hlower : OneLine (Runtime.lower tf.inputSource) := by
      rw [Runtime.lower_of_isWord hascii]
      refine oneLine_of_isWord fun c hc => ?_
      obtain ⟨d, hd, rfl⟩ := List.mem_map.mp hc
      exact isWord_toLower (hascii d hd)
    have htfHead : OneLine "  tf ".toList := by decide
    have hprint : OneLine "  print transfer_function output_impedance_at_".toList := by decide
    have himpedance : OneLine "#input_impedance".toList := by decide
    dsimp only
    split_ifs
    · simp only [List.forall_mem_cons]
      exact ⟨(htfHead.append hout).append (.cons (by decide) hsource),
        ((hprint.append hout).append (.cons (c := ' ') (by decide) hlower)).append himpedance,
        List.forall_mem_nil _⟩
    · exact List.forall_mem_nil _

/-- The output section: only a fundamental reaches it as authored. -/
theorem oneLine_outputs {circuit : CircuitJson} {analysis : AnalysisConfig} {parts : DeckParts}
    (run : DeckRun circuit analysis {} parts) (ha : analysisConfigSchema analysis = true) :
    (∀ l ∈ outputCommands (deckProbeContext circuit analysis {} parts) circuit
      (deckProbes circuit analysis {} parts) analysis, OneLine l) ↔
      ∀ a, analysis = .tran a → ∀ t ∈ fundamental circuit a, OneLine t := by
  have hctx := probeLines run
  have hwrdata : ∀ l ∈ (if deckProbes circuit analysis {} parts = [] then [] else
      ["  wrdata output.csv ".toList ++ join " ".toList (deckProbes circuit analysis {} parts)]),
      OneLine l := by
    have hhead : OneLine "  wrdata output.csv ".toList := by decide
    have htokens := oneLine_probeTokens hctx (oneLine_defaultProbes circuit)
    split_ifs
    · exact List.forall_mem_nil _
    · exact List.forall_mem_singleton.mpr (hhead.append ((oneLine_join (by decide)).mpr htokens))
  have hsplit : ∀ {xs ys zs : List Text}, (∀ l ∈ xs, OneLine l) → (∀ l ∈ zs, OneLine l) →
      ((∀ l ∈ xs ++ ys ++ zs, OneLine l) ↔ ∀ l ∈ ys, OneLine l) := by
    intro xs ys zs hx hz
    rw [List.forall_mem_append, List.forall_mem_append, and_iff_right hx, and_iff_left hz]
  cases analysis with
  | tran a =>
    change (∀ l ∈ _ ++ _ ++ [], OneLine l) ↔ _
    rw [hsplit hwrdata (List.forall_mem_nil _), oneLine_fourierCommands hctx ha]
    constructor
    · rintro h b hb
      cases hb
      exact h
    · exact fun h => h a rfl
  | op a =>
    refine iff_of_true ?_ (fun b hb => by cases hb)
    change ∀ l ∈ _ ++ [] ++ tfCommands _ _ (.op a), OneLine l
    exact (hsplit hwrdata (oneLine_tfCommands hctx circuit ha)).mpr (List.forall_mem_nil _)
  | noise a =>
    refine iff_of_true ?_ (fun b hb => by cases hb)
    change ∀ l ∈ ["  setplot noise1", "  wrdata output.csv onoise_spectrum inoise_spectrum",
      "  setplot noise2", "  print onoise_total inoise_total"].map String.toList, OneLine l
    decide
  | sens a =>
    refine iff_of_true ?_ (fun b hb => by cases hb)
    change ∀ l ∈ ["  print all".toList], OneLine l
    decide
  | ac a | dc a =>
    refine iff_of_true ?_ (fun b hb => by cases hb)
    change ∀ l ∈ _ ++ [] ++ [], OneLine l
    exact (hsplit hwrdata (List.forall_mem_nil _)).mpr (List.forall_mem_nil _)

/-! ## The lines of a schema-valid deck -/

/-- The strings of both documents that reach a line as authored. -/
def freeTexts (circuit : CircuitJson) (analysis : AnalysisConfig) : List Text :=
  (truthy circuit.metadataName).toList ++ circuit.components.filterMap freeText ++
    freeValues circuit analysis

theorem forall_mem_freeTexts {circuit : CircuitJson} {analysis : AnalysisConfig} :
    (∀ t ∈ freeTexts circuit analysis, OneLine t) ↔
      (∀ t ∈ (truthy circuit.metadataName).toList, OneLine t) ∧
        (∀ c ∈ circuit.components, ∀ t ∈ freeText c, OneLine t) ∧
          (∀ t ∈ cardValues analysis, OneLine t) ∧
            ∀ a, analysis = .tran a → ∀ t ∈ fundamental circuit a, OneLine t := by
  have hcomponents : (∀ t ∈ circuit.components.filterMap freeText, OneLine t) ↔
      ∀ c ∈ circuit.components, ∀ t ∈ freeText c, OneLine t := by
    constructor
    · exact fun h c hc t ht => h t (List.mem_filterMap.mpr ⟨c, hc, ht⟩)
    · intro h t ht
      obtain ⟨c, hc, ht⟩ := List.mem_filterMap.mp ht
      exact h c hc t ht
  have hvalues : (∀ t ∈ freeValues circuit analysis, OneLine t) ↔
      (∀ t ∈ cardValues analysis, OneLine t) ∧
        ∀ a, analysis = .tran a → ∀ t ∈ fundamental circuit a, OneLine t := by
    cases analysis with
    | tran a =>
      rw [freeValues, List.forall_mem_append]
      refine and_congr_right fun _ => ⟨fun h b hb => ?_, fun h => h a rfl⟩
      cases hb
      exact h
    | _ => exact (and_iff_left fun b hb => by cases hb).symm
  rw [freeTexts, List.forall_mem_append, List.forall_mem_append, hcomponents, hvalues, and_assoc]

/-- Without caller-supplied models, the lines of a deck are the generator's own
exactly when no string that reaches a line as authored holds a newline. -/
theorem deck_lines_iff {now : Timestamp} {circuit : CircuitJson} {analysis : AnalysisConfig}
    {d : Deck} (hcircuit : circuitJsonSchema circuit = true) (hmodels : circuit.models.getD [] = [])
    (hanalysis : analysisConfigSchema analysis = true)
    (h : generateDeck now circuit analysis = .ok d) :
    (∀ l ∈ d.models, ∃ m ∈ genericModels, m.body = l) ∧
      (d.HasOwnLines ↔ ∀ t ∈ freeTexts circuit analysis, OneLine t) := by
  obtain ⟨parts, ⟨run⟩, rfl⟩ := generateDeck_ok h
  refine ⟨models_generic run hmodels, ?_⟩
  have hdesignators : ∀ c ∈ circuit.components, OneLine c.designator := fun c hc =>
    oneLine_of_accepts (by decide) (designatorRe_of_component (componentSchema_of_circuit hcircuit hc))
  have hctx := probeLines run
  have htitle : OneLine (assembleDeck now circuit analysis {} parts).title ↔
      ∀ t ∈ (truthy circuit.metadataName).toList, OneLine t := by
    change OneLine ((truthy circuit.metadataName).getD "Untitled Circuit".toList) ↔ _
    cases truthy circuit.metadataName with
    | none => exact iff_of_true (by decide) (List.forall_mem_nil _)
    | some t => exact List.forall_mem_singleton.symm
  have hincludes : ∀ l ∈ parts.includes, OneLine l := by
    have hnone : includeLines {} = .ok [] := rfl
    have := run.includes
    rw [hnone, Except.ok.injEq] at this
    rw [← this]
    exact List.forall_mem_nil _
  have hoptions : ∀ t ∈ solverOptionTokens analysis.options ++
      (if needSaveCurrents (deckProbeContext circuit analysis {} parts) (deckRawProbes circuit {})
        then ["savecurrents".toList] else []), OneLine t := by
    refine List.forall_mem_append.mpr ⟨fun t ht => (solid_solverOptionTokens ht).oneLine, ?_⟩
    split_ifs
    · exact List.forall_mem_singleton.mpr (by decide)
    · exact List.forall_mem_nil _
  have htemperature : ∀ l ∈ (assembleDeck now circuit analysis {} parts).temperature, OneLine l := by
    rintro l ⟨⟩
  rw [Deck.hasOwnLines_iff_sections, forall_mem_freeTexts]
  constructor
  · intro hs
    exact ⟨htitle.mp hs.title, (components_oneLine run hdesignators).mp hs.components,
      (oneLine_fields hctx hanalysis).mp hs.analysis, (oneLine_outputs run hanalysis).mp hs.outputs⟩
  · rintro ⟨hname, hcomponents, hvalues, hfundamental⟩
    exact ⟨htitle.mpr hname, zenerModels_oneLine run, digitalModels_oneLine run, hincludes,
      (components_oneLine run hdesignators).mpr hcomponents,
      oneLine_initialConditions circuit.nets analysis, hoptions, htemperature,
      (oneLine_fields hctx hanalysis).mpr hvalues, oneLine_measureCards hctx hanalysis,
      (oneLine_outputs run hanalysis).mpr hfundamental⟩

end

/-- A source on a resistor; the value of the source is a parameter. -/
def sourceBoard (value : Text) : CircuitJson where
  nets := [⟨"gnd".toList, "gnd".toList, true, false⟩, ⟨"a".toList, "a".toList, false, false⟩]
  components := [
    { id := ['1'], type := .voltageSource, designator := "V1".toList, value := some value
      pins := [⟨"+".toList, "a".toList⟩, ⟨"-".toList, "gnd".toList⟩] },
    { id := ['2'], type := .resistor, designator := "R1".toList, value := some "1k".toList
      pins := [⟨"1".toList, "a".toList⟩, ⟨"2".toList, "gnd".toList⟩] }]

theorem deck_lines_iff_sourceBoard :
    ∃ d, generateDeck epoch (sourceBoard "DC 5".toList) (.op {}) = .ok d ∧
      ((∀ l ∈ d.models, ∃ m ∈ genericModels, m.body = l) ∧
        (d.HasOwnLines ↔ ∀ t ∈ freeTexts (sourceBoard "DC 5".toList) (.op {}), OneLine t)) := by
  obtain ⟨d, hd, _⟩ := Outcome.exists_ok
    (x := generateDeck epoch (sourceBoard "DC 5".toList) (.op {})) (p := fun _ => true)
    (by decide +kernel)
  exact ⟨d, hd, deck_lines_iff (by decide +kernel) rfl (by decide +kernel) hd⟩

/-- A source value carries a card of its own into the deck. -/
theorem deck_lines_injected :
    circuitJsonSchema (sourceBoard "DC 5\n.include secrets".toList) = true ∧
      analysisConfigSchema (.op {}) = true ∧
      ∃ d, generateDeck epoch (sourceBoard "DC 5\n.include secrets".toList) (.op {}) = .ok d ∧
        ¬ d.HasOwnLines ∧ (splitLines d.text).length ≠ d.lines.length ∧
          ".include secrets".toList ∈ splitLines d.text := by
  refine ⟨by decide +kernel, by decide +kernel, ?_⟩
  obtain ⟨d, hd, hlines⟩ := Outcome.exists_ok
    (x := generateDeck epoch (sourceBoard "DC 5\n.include secrets".toList) (.op {}))
    (p := fun d => decide (splitLines d.text ≠ d.ownLines ∧
      (splitLines d.text).length ≠ d.lines.length ∧ ".include secrets".toList ∈ splitLines d.text))
    (by decide +kernel)
  have hlines := of_decide_eq_true hlines
  exact ⟨d, hd, hlines.1, hlines.2⟩

end CircuitForge
