/-
What a passed check says of a component.

The checks of `runErc` report by component; `CleanComponent` collects what is
left when none of them reports an error, and the lemmas below read it for the
emitters: an analog type has the text of its card, and a digital type has pins of
the names its device looks up.
-/
import CircuitForge.Erc.Checker
import CircuitForge.Netlist.Emission

namespace CircuitForge

open Js

variable [Runtime]

/-- A component none of the checks finds an error in. -/
structure CleanComponent (c : Component) : Prop where
  count : ∀ n, expectedPinCount c.type = some n → c.pins.length = n
  value : requiresValue c.type = true → truthy c.value ≠ none
  model : modelRequired c.type = true → truthy c.model ≠ none
  typed : typedValueIssues c = []
  shape : c.type.isDigital = true → shapeIssues c = []

/-! ## The errors of the checks -/

theorem severity_readableValueIssues {c : Component} {accepts : Text → Bool} {complaint : String}
    {i : ErcIssue} (h : i ∈ readableValueIssues c accepts complaint) : i.severity = .error := by
  unfold readableValueIssues at h
  split at h
  · split_ifs at h
    · simp at h
    · rw [List.mem_singleton.mp h]
      rfl
  · simp at h

theorem severity_typedValueIssues {c : Component} {i : ErcIssue} (h : i ∈ typedValueIssues c) :
    i.severity = .error := by
  unfold typedValueIssues at h
  split at h
  case h_1 | h_2 | h_3 => exact severity_readableValueIssues h
  case h_4 | h_5 =>
    split_ifs at h
    · simp at h
    · rw [List.mem_singleton.mp h, createIssue]
      dsimp only
      split_ifs <;> rfl
  case h_6 =>
    split at h
    · rw [List.mem_singleton.mp h]
      rfl
    · split_ifs at h
      · rw [List.mem_singleton.mp h]
        rfl
      · simp at h
  case h_7 => simp at h

theorem severity_of_reported {c : Component} {text : Text} {p : Prop} [Decidable p] {i : ErcIssue}
    (h : i ∈ if p then [] else [shapeIssue c text]) : i.severity = .error := by
  by_cases hp : p
  · rw [if_pos hp] at h
    cases h
  · rw [if_neg hp] at h
    exact (List.mem_singleton.mp h) ▸ rfl

theorem severity_gateShapeIssues {c : Component} {i : ErcIssue} (h : i ∈ gateShapeIssues c) :
    i.severity = .error := by
  unfold gateShapeIssues at h
  dsimp only at h
  rw [← ite_not] at h
  exact severity_of_reported h

theorem severity_fixedShapeIssues {c : Component} {i : ErcIssue} (h : i ∈ fixedShapeIssues c) :
    i.severity = .error := by
  unfold fixedShapeIssues at h
  dsimp only at h
  rcases List.mem_append.mp h with h | h
  · rcases List.mem_append.mp h with h | h
    · obtain ⟨req, _, h⟩ := List.mem_flatMap.mp h
      exact severity_of_reported h
    · exact severity_of_reported h
  · exact severity_of_reported h

theorem severity_shapeIssues {c : Component} {i : ErcIssue} (h : i ∈ shapeIssues c) :
    i.severity = .error := by
  unfold shapeIssues at h
  split_ifs at h
  · exact severity_gateShapeIssues h
  · exact severity_fixedShapeIssues h
  · cases h

/-- The components of a circuit that passed. -/
theorem cleanComponent_of_passed {circuit : CircuitJson}
    (h : (runErc circuit).passed = true) {c : Component} (hc : c ∈ circuit.components) :
    CleanComponent c := by
  rw [ErcResult.passed_iff] at h
  have hcounts : ∀ i ∈ checkPinCounts circuit, i.severity ≠ .error := fun i hi =>
    h i (by simp only [runErc, List.mem_append, hi, true_or, or_true])
  have hvalues : ∀ i ∈ componentValueIssues c, i.severity ≠ .error := fun i hi => by
    refine h i ?_
    have : i ∈ checkComponentValues circuit := List.mem_flatMap.mpr ⟨c, hc, hi⟩
    simp only [runErc, List.mem_append, this, true_or, or_true]
  have hshapes : ∀ i ∈ checkDigitalConnectivity circuit, i.severity ≠ .error := fun i hi =>
    h i (by simp only [runErc, List.mem_append, hi, or_true])
  refine ⟨fun n hn => ?_, fun hr hnone => ?_, fun hr hnone => ?_, ?_, fun hdig => ?_⟩
  · by_contra hne
    have hfound : ∃ i ∈ checkPinCounts circuit, i.severity = .error := by
      refine ⟨createIssue .pinCountMismatch [ofComponent c] (c.label ++ ": expected ".toList ++
        countText n ++ " pins, got ".toList ++ countText c.pins.length), ?_, rfl⟩
      refine List.mem_flatMap.mpr ⟨c, hc, ?_⟩
      simp only [hn, if_neg hne, List.mem_singleton]
    obtain ⟨i, hi, herror⟩ := hfound
    exact hcounts i hi herror
  · have hfound : ∃ i ∈ componentValueIssues c, i.severity = .error := by
      refine ⟨createIssue .missingValue [ofComponent c]
        (c.label ++ " (".toList ++ c.type.name ++ ")".toList), ?_, rfl⟩
      simp only [componentValueIssues, hr, hnone, and_self, if_true, List.mem_append,
        List.mem_singleton, true_or]
    obtain ⟨i, hi, herror⟩ := hfound
    exact hvalues i hi herror
  · have hfound : ∃ i ∈ componentValueIssues c, i.severity = .error := by
      refine ⟨createIssue .modelRequired [ofComponent c]
        (c.label ++ " (".toList ++ c.type.name ++ ")".toList), ?_, rfl⟩
      simp only [componentValueIssues, hr, hnone, and_self, if_true, List.mem_append,
        List.mem_singleton, or_true]
    obtain ⟨i, hi, herror⟩ := hfound
    exact hvalues i hi herror
  · refine List.eq_nil_iff_forall_not_mem.mpr fun i hi => ?_
    refine hvalues i ?_ (severity_typedValueIssues hi)
    simp only [componentValueIssues, List.mem_append, hi, true_or, or_true]
  · refine List.eq_nil_iff_forall_not_mem.mpr fun i hi => ?_
    refine hshapes i ?_ (severity_shapeIssues hi)
    rw [checkDigitalConnectivity, if_pos (List.any_eq_true.mpr ⟨c, hc, hdig⟩)]
    simp only [List.mem_append]
    exact Or.inl (Or.inl (List.mem_flatMap.mpr ⟨c, hc, hi⟩))

/-! ## Analog types -/

omit [Runtime] in
/-- The pattern of an expression does not see the blanks at the end. -/
theorem isExprHead_trimStart {value : Text} (h : isExprHead (trim value) = true) :
    isExprHead (trimStart value) = true := by
  obtain ⟨b, _, hb⟩ := trimEnd_append_blank (trimStart value)
  rw [← hb, show trimEnd (trimStart value) = trim value from rfl]
  cases hv : trim value with
  | nil => rw [hv] at h; cases h
  | cons k r =>
    rw [hv] at h
    rw [List.cons_append]
    unfold isExprHead at h ⊢
    rw [Bool.and_eq_true] at h ⊢
    refine ⟨h.1, ?_⟩
    have hbody := h.2
    split at hbody
    case h_1 e he =>
      rw [trimStart_append (by rw [he]; exact List.cons_ne_nil _ _), he, List.cons_append]
      have hne : trimStart e ≠ [] := by simpa using hbody
      show (!(trimStart (e ++ b)).isEmpty) = true
      rw [trimStart_append hne]
      simp [hne]
    case h_2 => cases hbody

theorem readable_of_clean {c : Component} {accepts : Text → Bool} {complaint : String}
    (h : readableValueIssues c accepts complaint = []) {value : Text}
    (hv : truthy c.value = some value) : accepts value = true := by
  by_contra hno
  simp [readableValueIssues, hv, hno] at h

section

variable {c : Component}

/-- The type has a card of its own, apart from a transformer's five. -/
def HasSpec (t : ComponentType) : Prop :=
  t.isKnown = true ∧ t.isDigital = false ∧ t ≠ .ground ∧ t ≠ .generic ∧ t ≠ .transformer

theorem CleanComponent.exists_value (h : CleanComponent c) (ht : requiresValue c.type = true) :
    ∃ value, truthy c.value = some value := Option.ne_none_iff_exists'.mp (h.value ht)

theorem CleanComponent.exists_model (h : CleanComponent c) (ht : modelRequired c.type = true) :
    ∃ model, truthy c.model = some model := Option.ne_none_iff_exists'.mp (h.model ht)

/-- A component of an analog type has the text of its card. -/
theorem CleanComponent.deviceSpec_isSome (h : CleanComponent c) (ht : HasSpec c.type)
    (exprNodeMap : Map Text Text) : (deviceSpec exprNodeMap c).isSome = true := by
  have htyped := h.typed
  unfold typedValueIssues at htyped
  unfold deviceSpec
  cases hty : c.type
  case resistor | capacitor | inductor | voltageSource | currentSource | diode => rfl
  case vcvs | vccs =>
    obtain ⟨value, hv⟩ := h.exists_value (by rw [hty]; rfl)
    rw [hty] at htyped
    rw [hv]
    exact readable_of_clean htyped hv
  case zener =>
    obtain ⟨value, hv⟩ := h.exists_value (by rw [hty]; rfl)
    rw [hty] at htyped
    rw [hv]
    simpa using readable_of_clean htyped hv
  case bjt | mosfet | jfet | switch | subckt =>
    obtain ⟨model, hm⟩ := h.exists_model (by rw [hty]; rfl)
    rw [hm]
    rfl
  case tline =>
    rw [hty] at htyped
    by_contra hno
    simp_all
  case bsource =>
    rw [hty] at htyped
    dsimp only at htyped ⊢
    cases hv : c.value with
    | none => simp [hv, truthy] at htyped
    | some value =>
      cases ht : truthy (some (trim value)) with
      | none => simp [hv, ht] at htyped
      | some v =>
        have htrim : v = trim value := (Option.some.inj (truthy_eq_some.mp ht).1).symm
        simp only [hv, Option.map_some, ht, Option.getD_some] at htyped
        split_ifs at htyped with hbad
        rw [Bool.or_eq_true, not_or, Bool.not_eq_true', Bool.not_eq_false, htrim] at hbad
        have hne : value ≠ [] := by
          rintro rfl
          exact (truthy_eq_some.mp ht).2 htrim
        have hsome : truthy (some value) = some value := truthy_eq_some.mpr ⟨rfl, hne⟩
        have hexpr : isSourceExpr value = true := by
          rw [isSourceExpr, isExprHead_trimStart hbad.1, Bool.and_true, Bool.not_eq_true']
          exact Bool.eq_false_iff.mpr hbad.2
        simp [hsome, hexpr]
  all_goals
    rw [hty] at ht
    obtain ⟨hk, hd, hg, hn, htr⟩ := ht
    first
      | exact absurd rfl hg
      | exact absurd rfl hn
      | exact absurd rfl htr
      | exact absurd hd (by decide)
      | exact absurd hk (by simp [ComponentType.isKnown])

theorem CleanComponent.transformer (h : CleanComponent c) (ht : c.type = .transformer) :
    (parseTransformerParams c.properties).isSome = true := by
  have htyped := h.typed
  rw [typedValueIssues, ht] at htyped
  by_contra hno
  simp_all

/-! ## Digital types -/

omit [Runtime] in
theorem length_eraseDups_le {l : List Text} : l.eraseDups.length ≤ l.length := by
  induction hn : l.length using Nat.strong_induction_on generalizing l with
  | _ n ih =>
    subst hn
    cases l with
    | nil => simp
    | cons a as =>
      have hfilter := List.length_filter_le (fun b => !b == a) as
      rw [List.eraseDups_cons, List.length_cons, List.length_cons]
      have := ih _ (Nat.lt_succ_of_le hfilter) rfl
      omega

omit [Runtime] in
/-- A list that loses nothing has no repetition. -/
theorem nodup_of_length_eraseDups {l : List Text} (h : l.eraseDups.length = l.length) :
    l.Nodup := by
  induction l with
  | nil => exact List.nodup_nil
  | cons a as ih =>
    rw [List.eraseDups_cons, List.length_cons, List.length_cons] at h
    have hle := length_eraseDups_le (l := as.filter fun b => !b == a)
    have hfilter := List.length_filter_le (fun b => !b == a) as
    have hkept : as.filter (fun b => !b == a) = as :=
      List.length_filter_eq_length_iff.mp (by omega) |> List.filter_eq_self.mpr
    rw [hkept] at h
    refine List.nodup_cons.mpr ⟨fun ha => ?_, ih (by omega)⟩
    have := List.filter_eq_self.mp hkept a ha
    simp at this

omit [Runtime] in
theorem nodup_of_repeated {ids : List Text} (h : repeated ids = []) : ids.Nodup := by
  have hnone : ids.zipIdx.filter (fun e => ids.idxOf e.1 ≠ e.2) = [] := by
    by_contra hne
    obtain ⟨e, he⟩ := List.exists_mem_of_ne_nil _ hne
    have hmem : e.1 ∈ repeated ids := List.mem_eraseDups.mpr (List.mem_map_of_mem he)
    rw [h] at hmem
    cases hmem
  -- every element is found where it stands
  have hplace : ∀ i (hi : i < ids.length), ids.idxOf ids[i] = i := fun i hi => by
    have := List.filter_eq_nil_iff.mp hnone (ids[i], i)
      (List.mem_iff_getElem.mpr ⟨i, by simpa using hi, by simp⟩)
    simpa using this
  rw [List.nodup_iff_injective_get]
  intro i j hij
  have hi := hplace i.1 i.2
  have hj := hplace j.1 j.2
  rw [List.get_eq_getElem, List.get_eq_getElem] at hij
  rw [hij] at hi
  exact Fin.ext (hi.symm.trans hj)

/-- The names of the pins. -/
def pinIds (c : Component) : List Text := c.pins.map PinConnection.pinId

theorem gateShape_of_clean (h : CleanComponent c) (hg : c.type.isLogicGate = true) :
    ((pinIds c).filter (· = "out".toList)).length = 1 ∧
      (if c.type.isSingleInputGate then ((pinIds c).filter isGateInput).length = 1
        else 2 ≤ ((pinIds c).filter isGateInput).length) ∧
      (((pinIds c).filter isGateInput).map Runtime.lower).Nodup ∧
      ∀ p ∈ pinIds c, p = "out".toList ∨ isGateInput p = true := by
  have hshape := h.shape (by simp [ComponentType.isDigital, hg])
  rw [shapeIssues, if_pos hg, gateShapeIssues] at hshape
  dsimp only at hshape
  rw [ite_eq_right_iff] at hshape
  have hno := fun hbad => List.cons_ne_nil _ _ (hshape hbad)
  simp only [imp_false, not_or, not_not, ne_eq] at hno
  obtain ⟨hout, hin, hdistinct, hstray⟩ := hno
  refine ⟨hout, ?_, nodup_of_length_eraseDups hdistinct, fun p hp => ?_⟩
  · rwa [List.length_map] at hin
  · by_contra hne
    rw [not_or] at hne
    refine hstray (List.length_pos_of_mem (List.mem_filter.mpr ⟨hp, ?_⟩))
    simpa using hne

theorem fixedShape_of_clean (h : CleanComponent c)
    (ht : c.type.isSequential = true ∨ c.type = .tristate) :
    (∀ p ∈ c.type.pins, p ∉ ["set", "rst"].map String.toList → p ∈ pinIds c) ∧
      ((pinIds c).map Runtime.lower).Nodup ∧
      ∀ p ∈ pinIds c, Runtime.lower p ∈ c.type.pins := by
  have hg : c.type.isLogicGate ≠ true := by
    rcases ht with ht | ht
    · cases hty : c.type <;> simp [hty, ComponentType.isSequential, ComponentType.isLogicGate] at *
    · rw [ht]
      decide
  have hshape := h.shape (by rcases ht with ht | ht <;> simp [ComponentType.isDigital, ht])
  rw [shapeIssues, if_neg hg, if_pos (by simpa using ht), fixedShapeIssues] at hshape
  dsimp only at hshape
  rw [show c.pins.map PinConnection.pinId = pinIds c from rfl, List.append_eq_nil_iff,
    List.append_eq_nil_iff] at hshape
  obtain ⟨⟨hrequired, hdups⟩, hstrays⟩ := hshape
  refine ⟨fun p hp hopt => ?_, ?_, fun p hp => ?_⟩
  · by_contra hno
    have := List.flatMap_eq_nil_iff.mp hrequired p
      (List.mem_filter.mpr ⟨hp, decide_eq_true hopt⟩)
    rw [if_neg hno] at this
    exact List.cons_ne_nil _ _ this
  · refine nodup_of_repeated ?_
    by_contra hne
    rw [if_neg hne] at hdups
    exact List.cons_ne_nil _ _ hdups
  · by_contra hno
    have hmem : p ∈ ((pinIds c).filter (Runtime.lower · ∉ c.type.pins)).eraseDups :=
      List.mem_eraseDups.mpr (List.mem_filter.mpr ⟨hp, decide_eq_true hno⟩)
    rw [if_neg (List.ne_nil_of_mem hmem)] at hstrays
    exact List.cons_ne_nil _ _ hstrays

/-- The ports of a flip-flop, a latch or a tristate buffer are its canonical pins. -/
theorem mem_portPins_fixed (ht : c.type.isSequential = true ∨ c.type = .tristate) (p : Text) :
    p ∈ portPins c ↔ p ∈ c.type.pins := by
  unfold portPins
  cases hty : c.type <;>
    simp only [hty, ComponentType.isSequential, reduceCtorEq, or_self, Bool.false_eq_true] at ht
  case dff | jkff | tff | dlatch =>
    simp only [ComponentType.isLogicGate, ComponentType.isSequential, sequentialInputs,
      ComponentType.pins, Bool.false_eq_true, if_false, if_true]
    exact List.Perm.mem_iff (by decide)
  case tristate => rfl

/-- The canonical names are in lower case. -/
theorem lower_canonical {t : ComponentType} (ht : t.isSequential = true ∨ t = .tristate) {p : Text}
    (hp : p ∈ t.pins) : Runtime.lower p = p := by
  have hall : ∀ p ∈ t.pins, (∀ k ∈ p, isWord k = true) ∧ asciiLower p = p := by
    cases t <;> simp only [ComponentType.isSequential, reduceCtorEq, or_self,
      Bool.false_eq_true] at ht
    all_goals decide
  rw [Runtime.lower_of_isWord (hall p hp).1, (hall p hp).2]

/-- The pins of a digital component, as its device looks them up. -/
structure PinsFit (c : Component) : Prop where
  nodup : (pinIds c).Nodup
  wired : ∀ p ∈ portPins c, p = "set".toList ∨ p = "rst".toList ∨ p ∈ pinIds c
  input : c.type.isLogicGate = true → gateInputPins c ≠ []
  port : ∀ p ∈ pinIds c, (c.type.isSequential = true → p ∈ c.type.pins) → p ∈ portPins c

theorem pinsFit_of_gate (h : CleanComponent c) (hg : c.type.isLogicGate = true) : PinsFit c := by
  obtain ⟨hout, hinputs, hdistinct, hall⟩ := gateShape_of_clean h hg
  have hmem : ∀ p, p ∈ gateInputPins c ↔ p ∈ pinIds c ∧ isGateInput p = true := fun p => by
    rw [gateInputPins, List.mem_insertionSort, List.mem_filter, pinIds]
  have hlength : (gateInputPins c).length = ((pinIds c).filter isGateInput).length :=
    (List.perm_insertionSort _ _).length_eq
  have houtMem : "out".toList ∈ pinIds c := by
    obtain ⟨p, hp⟩ := List.exists_mem_of_length_pos (by omega :
      0 < ((pinIds c).filter (· = "out".toList)).length)
    have hp := List.mem_filter.mp hp
    exact (of_decide_eq_true hp.2) ▸ hp.1
  have htaken : ∀ p, p ∈ (if c.type.isSingleInputGate then (gateInputPins c).take 1
      else gateInputPins c) ↔ p ∈ gateInputPins c := fun p => by
    split_ifs at hinputs ⊢
    · rw [List.take_of_length_le (by omega)]
    · rfl
  have hport : ∀ p, p ∈ portPins c ↔ p ∈ gateInputPins c ∨ p = "out".toList := fun p => by
    rw [portPins, if_pos hg, List.mem_append, htaken, List.mem_singleton]
  refine ⟨?_, fun p hp => ?_, fun _ hnil => ?_, fun p hp _ => ?_⟩
  · refine List.nodup_iff_count_le_one.mpr fun p => ?_
    by_cases hp : p ∈ pinIds c
    · rcases hall p hp with rfl | hin
      · rw [List.count_eq_length_filter]
        refine le_of_eq (Eq.trans ?_ hout)
        congr 2
        exact funext fun q => Bool.eq_iff_iff.mpr (by simp)
      · rw [← List.count_filter hin]
        exact List.nodup_iff_count_le_one.mp hdistinct.of_map p
    · rw [List.count_eq_zero_of_not_mem hp]
      exact Nat.zero_le 1
  · rcases (hport p).mp hp with hin | rfl
    · exact Or.inr (Or.inr ((hmem p).mp hin).1)
    · exact Or.inr (Or.inr houtMem)
  · rw [hnil, List.length_nil] at hlength
    split_ifs at hinputs <;> omega
  · rcases hall p hp with rfl | hin
    · exact (hport _).mpr (Or.inr rfl)
    · exact (hport _).mpr (Or.inl ((hmem p).mpr ⟨hp, hin⟩))

theorem pinsFit_of_fixed (h : CleanComponent c)
    (ht : c.type.isSequential = true ∨ c.type = .tristate) : PinsFit c := by
  obtain ⟨hrequired, hdistinct, hlower⟩ := fixedShape_of_clean h ht
  refine ⟨hdistinct.of_map, fun p hp => ?_, fun hg => ?_, fun p hp hseq => ?_⟩
  · by_contra hno
    rw [not_or, not_or] at hno
    refine hno.2.2 (hrequired p ((mem_portPins_fixed ht p).mp hp) ?_)
    simp only [List.map_cons, List.map_nil, List.mem_cons, List.not_mem_nil, or_false]
    exact not_or.mpr ⟨hno.1, hno.2.1⟩
  · exfalso
    rcases ht with ht | ht
    · cases hty : c.type <;> simp [hty, ComponentType.isSequential, ComponentType.isLogicGate] at *
    · rw [ht] at hg
      exact absurd hg (by decide)
  · refine (mem_portPins_fixed ht p).mpr ?_
    rcases ht with hs | htri
    · exact hseq hs
    · -- all three pins are required, so the pin has the name its lower case has
      have hreq : Runtime.lower p ∈ pinIds c := hrequired _ (hlower p hp) (by
        have := hlower p hp
        rw [htri] at this
        revert this
        generalize Runtime.lower p = q
        intro hq
        have hall : ∀ q ∈ ComponentType.tristate.pins, q ∉ ["set", "rst"].map String.toList := by
          decide
        exact hall q hq)
      have hsame := lower_canonical (Or.inr htri) (hlower p hp)
      rw [List.inj_on_of_nodup_map hdistinct hp hreq hsame.symm]
      exact hlower p hp

theorem pinsFit_of_clean (h : CleanComponent c) (hdig : c.type.isDigital = true) : PinsFit c := by
  rcases c.type.isDigital_cases hdig with hg | hs | ht
  · exact pinsFit_of_gate h hg
  · exact pinsFit_of_fixed h (Or.inl hs)
  · exact pinsFit_of_fixed h (Or.inr ht)

end

end CircuitForge
