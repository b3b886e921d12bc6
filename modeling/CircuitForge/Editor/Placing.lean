/-
Adding, removing and copying parts keeps the document.
-/
import CircuitForge.Editor.WellFormed

namespace CircuitForge

open Js

variable [Runtime]

/-! ## One more part -/

/-- What a part must bring to stand beside the others. -/
structure Fits (circuit : CircuitJson) (component : Component) (nets : List Net) : Prop where
  id : ∀ c ∈ circuit.components, c.id ≠ component.id
  designator : ∀ c ∈ circuit.components,
    Runtime.lower c.designator ≠ Runtime.lower component.designator
  netIds : (nets.map Net.id).Nodup
  netNames : (nets.map fun n => Runtime.lower n.name).Nodup
  netsFresh : ∀ net ∈ nets, net.id ∉ circuit.nets.map Net.id ∧
    Runtime.lower net.name ∉ takenNames circuit
  declared : ∀ p ∈ component.pins, p.netId ∈ (circuit.nets ++ nets).map Net.id

theorem pinsOf_withPart (circuit : CircuitJson) (component : Component) (nets : List Net) :
    pinsOf (withPart circuit component nets) =
      pinsOf circuit ++ component.pins.map fun p => (⟨component.id, p.pinId⟩, p.netId) := by
  rw [pinsOf, withPart, List.flatMap_append, List.flatMap_singleton]
  rfl

theorem Wired.withPart {circuit : CircuitJson} (h : Wired circuit) {component : Component}
    {nets : List Net} (hid : ∀ c ∈ circuit.components, c.id ≠ component.id)
    (hdeclared : ∀ p ∈ component.pins, p.netId ∈ (circuit.nets ++ nets).map Net.id) :
    Wired (withPart circuit component nets) where
  componentIds := by
    rw [CircuitForge.withPart, List.map_append, List.map_singleton]
    refine List.nodup_append.mpr ⟨h.componentIds, List.nodup_singleton _, ?_⟩
    intro x hx y hy he
    obtain ⟨c, hc, rfl⟩ := List.mem_map.mp hx
    exact hid c hc (he.trans (List.mem_singleton.mp hy))
  declared := by
    intro e he
    rw [pinsOf_withPart] at he
    rcases List.mem_append.mp he with he | he
    · rw [CircuitForge.withPart, List.map_append]
      exact List.mem_append_left _ (h.declared e he)
    · obtain ⟨p, hp, rfl⟩ := List.mem_map.mp he
      exact hdeclared p hp

theorem WellFormed.withPart {circuit : CircuitJson} (h : WellFormed circuit)
    {component : Component} {nets : List Net} (hfit : Fits circuit component nets) :
    WellFormed (withPart circuit component nets) where
  componentIds := (h.wired.withPart hfit.id hfit.declared).componentIds
  designators := by
    rw [CircuitForge.withPart, List.map_append, List.map_singleton]
    refine List.nodup_append.mpr ⟨h.designators, List.nodup_singleton _, ?_⟩
    intro x hx y hy he
    obtain ⟨c, hc, rfl⟩ := List.mem_map.mp hx
    exact hfit.designator c hc (he.trans (List.mem_singleton.mp hy))
  netIds := by
    rw [CircuitForge.withPart, List.map_append]
    refine List.nodup_append.mpr ⟨h.netIds, hfit.netIds, ?_⟩
    intro x hx y hy he
    obtain ⟨net, hnet, rfl⟩ := List.mem_map.mp hy
    exact (hfit.netsFresh net hnet).1 (he ▸ hx)
  netNames := by
    rw [takenNames, CircuitForge.withPart, List.map_append]
    refine List.nodup_append.mpr ⟨h.netNames, hfit.netNames, ?_⟩
    intro x hx y hy he
    obtain ⟨net, hnet, rfl⟩ := List.mem_map.mp hy
    exact (hfit.netsFresh net hnet).2 (he ▸ hx)
  declared := (h.wired.withPart hfit.id hfit.declared).declared

/-- The pins a new part is given. -/
def NewPart.pinIds (spec : NewPart) : List Text := spec.pins.getD spec.type.pins

/-- The part a specification adds to a document. -/
def NewPart.component (spec : NewPart) (circuit : CircuitJson) : Component :=
  newComponent spec (designatorFor circuit spec) spec.pinIds (netsFor circuit spec.pinIds)

omit [Runtime] in
theorem mem_zipWith_pins {pins : List Text} {nets : List Net} {p : PinConnection}
    (h : p ∈ List.zipWith (fun pinId net => ⟨pinId, Net.id net⟩) pins nets) :
    p.netId ∈ nets.map Net.id := by
  obtain ⟨i, hi⟩ := List.getElem?_of_mem h
  rw [List.getElem?_zipWith_eq_some] at hi
  obtain ⟨_, net, -, hnet, rfl⟩ := hi
  exact List.mem_map_of_mem (List.mem_of_getElem? hnet)

theorem fits_newComponent {circuit : CircuitJson} {spec : NewPart} {designator : Text}
    {pins : List Text}
    (hd : ∀ c ∈ circuit.components, Runtime.lower c.designator ≠ Runtime.lower designator)
    (hid : ∀ c ∈ circuit.components, c.id ≠ Runtime.lower designator) :
    Fits circuit (newComponent spec designator pins (netsFor circuit pins))
      (netsFor circuit pins) where
  id := hid
  designator := hd
  netIds := (nodup_freshNets _ _ _).1
  netNames := (nodup_freshNets _ _ _).2
  netsFresh := fun _ hn => freshNets_fresh hn
  declared := by
    intro p hp
    rw [List.map_append]
    exact List.mem_append_right _ (mem_zipWith_pins hp)

/-- What a successful addition did. -/
theorem addComponent_cases {circuit after : CircuitJson} {spec : NewPart}
    (h : (addComponent circuit spec).circuit? = some after) :
    after = withPart circuit (spec.component circuit) (netsFor circuit spec.pinIds) ∧
      spec.pinIds.Nodup ∧ designatorRe.accepts (designatorFor circuit spec) = true ∧
      Fits circuit (spec.component circuit) (netsFor circuit spec.pinIds) := by
  unfold addComponent at h
  by_cases h₁ : (!spec.type.isKnown) = true
  · rw [if_pos h₁] at h
    cases h
  rw [if_neg h₁] at h
  by_cases h₂ : (spec.pins.isNone && isVariableArity spec.type) = true
  · rw [if_pos h₂] at h
    cases h
  rw [if_neg h₂] at h
  simp only at h
  by_cases h₃ : (spec.pins.getD spec.type.pins).length = 0
  · rw [if_pos h₃] at h
    cases h
  rw [if_neg h₃] at h
  by_cases h₄ : ¬ (spec.pins.getD spec.type.pins).Nodup
  · rw [if_pos h₄] at h
    cases h
  rw [if_neg h₄] at h
  split at h
  case h_1 => cases h
  case h_2 =>
    by_cases h₅ : (designatorFor circuit spec).length = 0
    · rw [if_pos h₅] at h
      cases h
    rw [if_neg h₅] at h
    by_cases h₆ : (!designatorRe.accepts (designatorFor circuit spec)) = true
    · rw [if_pos h₆] at h
      cases h
    rw [if_neg h₆] at h
    split at h
    case h_1 => cases h
    case h_2 hclash =>
      by_cases h₇ : (circuit.components.any
          (·.id = Runtime.lower (designatorFor circuit spec))) = true
      · rw [if_pos h₇] at h
        cases h
      rw [if_neg h₇] at h
      cases h
      refine ⟨rfl, not_not.mp h₄, by simpa using h₆, fits_newComponent ?_ ?_⟩
      · intro c hc
        simpa using List.find?_eq_none.mp hclash c hc
      · intro c hc he
        exact h₇ (List.any_eq_true.mpr ⟨c, hc, by simpa using he⟩)

theorem addComponent_ne_unchanged (circuit after : CircuitJson) (spec : NewPart) :
    addComponent circuit spec ≠ .unchanged after := by
  unfold addComponent
  simp only
  repeat' split
  all_goals exact fun h => nomatch h

theorem mem_nets_withPart {circuit : CircuitJson} {component : Component} {nets : List Net}
    {net : Net} : net ∈ (withPart circuit component nets).nets ↔ net ∈ circuit.nets ∨ net ∈ nets :=
  List.mem_append

/-- Every fresh net of a part holds one of its pins. -/
theorem occupied_newComponent {circuit : CircuitJson} (spec : NewPart) (designator : Text)
    {pins : List Text} {net : Net} (h : net ∈ netsFor circuit pins) :
    ∃ p ∈ (newComponent spec designator pins (netsFor circuit pins)).pins, p.netId = net.id := by
  obtain ⟨i, hi⟩ := List.getElem?_of_mem h
  have hlt : i < pins.length := by
    rw [← length_freshNets (circuit.nets.map Net.id) (takenNames circuit) pins.length]
    exact (List.getElem?_eq_some_iff.mp hi).1
  have hp : (newComponent spec designator pins (netsFor circuit pins)).pins[i]? =
      some ⟨pins[i], net.id⟩ := by
    rw [newComponent, List.getElem?_zipWith_eq_some]
    exact ⟨_, net, List.getElem?_eq_getElem hlt, hi, rfl⟩
  exact ⟨_, List.mem_of_getElem? hp, rfl⟩

theorem keepsDocument_addComponent {circuit after : CircuitJson} {spec : NewPart}
    (h : WellFormed circuit) (hs : (addComponent circuit spec).circuit? = some after) :
    KeepsDocument circuit after := by
  obtain ⟨rfl, -, -, hfit⟩ := addComponent_cases hs
  refine ⟨h.withPart hfit, ?_, ?_⟩
  · intro net hn ho
    simp only [Occupied, pinsOf_withPart, List.mem_append, not_exists, not_or] at ho
    rcases mem_nets_withPart.mp hn with hn | hn
    · exact ⟨List.mem_map_of_mem hn, fun ⟨key, hkey⟩ => (ho key).1 hkey⟩
    · obtain ⟨p, hp, hpn⟩ := occupied_newComponent spec (designatorFor circuit spec) hn
      exact absurd (List.mem_map.mpr ⟨p, hp, by rw [hpn]⟩) (ho ⟨_, p.pinId⟩).2
  · intro c hc c' hc' hid
    rcases List.mem_append.mp hc' with hc' | hc'
    · rw [h.component_eq hc hc' hid]
    · rw [List.mem_singleton.mp hc'] at hid
      exact absurd hid.symm (hfit.id c hc)

/-! ## One part fewer -/

/-- The document without a part and without the nets that only the part was on. -/
def withoutPart (circuit : CircuitJson) (target : Component) : CircuitJson :=
  let remaining := circuit.components.filter (·.id ≠ target.id)
  let orphaned := circuit.nets.filter fun n => n.id ∈ target.pins.map PinConnection.netId ∧
    n.id ∉ remaining.flatMap fun c => c.pins.map PinConnection.netId
  { circuit with
    components := remaining
    nets := circuit.nets.filter fun n => n.id ∉ orphaned.map Net.id }

/-- What a successful deletion did. -/
theorem deleteComponent_result {circuit after : CircuitJson} {componentId : Text}
    (hs : (deleteComponent circuit componentId).circuit? = some after) :
    ∃ target ∈ circuit.components, target.id = componentId ∧ after = withoutPart circuit target := by
  unfold deleteComponent at hs
  split at hs
  case h_1 => cases hs
  case h_2 target htarget =>
    simp only at hs
    cases hs
    obtain rfl : target.id = componentId := by simpa using List.find?_some htarget
    exact ⟨target, List.mem_of_find?_eq_some htarget, rfl, rfl⟩

/-- A net stays unless the part was on it and nothing else is. -/
theorem mem_nets_withoutPart {circuit : CircuitJson} {target : Component} {net : Net} :
    net ∈ (withoutPart circuit target).nets ↔
      net ∈ circuit.nets ∧ (net.id ∈ target.pins.map PinConnection.netId →
        ∃ c ∈ circuit.components, c.id ≠ target.id ∧ ∃ p ∈ c.pins, p.netId = net.id) := by
  simp only [withoutPart, List.mem_filter, decide_eq_true_eq, and_congr_right_iff]
  intro hn
  have hused : net.id ∈ ((circuit.components.filter (·.id ≠ target.id)).flatMap
        fun c => c.pins.map PinConnection.netId) ↔
      ∃ c ∈ circuit.components, c.id ≠ target.id ∧ ∃ p ∈ c.pins, p.netId = net.id := by
    simp only [List.mem_flatMap, List.mem_map, List.mem_filter, decide_eq_true_eq, and_assoc]
  rw [← hused, List.mem_map]
  constructor
  · intro hkept htouched
    by_contra hunused
    exact hkept ⟨net, List.mem_filter.mpr ⟨hn, decide_eq_true ⟨htouched, hunused⟩⟩, rfl⟩
  · rintro hstays ⟨n, hmem, he⟩
    have := (List.mem_filter.mp hmem).2
    rw [he, decide_eq_true_eq] at this
    exact this.2 (hstays this.1)

theorem Wired.withoutPart {circuit : CircuitJson} (h : Wired circuit) (target : Component) :
    Wired (withoutPart circuit target) where
  componentIds := (List.filter_sublist.map _).nodup h.componentIds
  declared := by
    rintro ⟨key, netId⟩ he
    obtain ⟨c, hc, p, hp, rfl, rfl⟩ := mem_pinsOf.mp he
    obtain ⟨hc, hne⟩ := List.mem_filter.mp hc
    rw [decide_eq_true_eq] at hne
    obtain ⟨net, hn, hnet⟩ := List.mem_map.mp
      (h.declared _ (mem_pinsOf.mpr ⟨c, hc, p, hp, rfl, rfl⟩))
    exact List.mem_map.mpr ⟨net, mem_nets_withoutPart.mpr
      ⟨hn, fun _ => ⟨c, hc, hne, p, hp, hnet.symm⟩⟩, hnet⟩

theorem keepsDocument_deleteComponent {circuit after : CircuitJson} {componentId : Text}
    (h : WellFormed circuit) (hs : (deleteComponent circuit componentId).circuit? = some after) :
    KeepsDocument circuit after := by
  obtain ⟨target, htarget, rfl, rfl⟩ := deleteComponent_result hs
  have hsub : (withoutPart circuit target).components.Sublist circuit.components :=
    List.filter_sublist
  have hnets : (withoutPart circuit target).nets.Sublist circuit.nets := List.filter_sublist
  have hwired := h.wired.withoutPart target
  refine ⟨⟨hwired.componentIds, (hsub.map _).nodup h.designators, (hnets.map _).nodup h.netIds,
    (hnets.map _).nodup h.netNames, hwired.declared⟩, ?_, ?_⟩
  · intro net hn ho
    obtain ⟨hn, hstays⟩ := mem_nets_withoutPart.mp hn
    refine ⟨List.mem_map_of_mem hn, ?_⟩
    -- a part that is left would still be on the net
    have hunused : ¬ ∃ c ∈ circuit.components, c.id ≠ target.id ∧ ∃ p ∈ c.pins, p.netId = net.id := by
      rintro ⟨c, hc, hne, p, hp, hpn⟩
      exact ho ⟨_, mem_pinsOf.mpr
        ⟨c, List.mem_filter.mpr ⟨hc, by simpa using hne⟩, p, hp, rfl, hpn⟩⟩
    rintro ⟨key, hkey⟩
    obtain ⟨c, hc, p, hp, -, hpn⟩ := mem_pinsOf.mp hkey
    by_cases hct : c.id = target.id
    · -- the only part with the id is the one that goes
      rw [h.component_eq htarget hc hct] at hp
      exact hunused (hstays (List.mem_map.mpr ⟨p, hp, hpn⟩))
    · exact hunused ⟨c, hc, hct, p, hp, hpn⟩
  · intro c hc c' hc' hid
    rw [h.component_eq hc (hsub.subset hc') hid]

/-! ## Copies -/

theorem replaceComponent_withPart {circuit : CircuitJson} {component : Component}
    {nets : List Net} (h : ∀ c ∈ circuit.components, c.id ≠ component.id)
    (f : Component → Component) :
    replaceComponent (withPart circuit component nets) component.id f =
      withPart circuit (f component) nets := by
  have hold : (circuit.components.map fun c => if c.id = component.id then f c else c) =
      circuit.components := by
    conv_rhs => rw [← List.map_id circuit.components]
    refine List.map_congr_left fun c hc => ?_
    rw [if_neg (h c hc)]
    rfl
  rw [replaceComponent, withPart, withPart]
  simp only [List.map_append, hold, List.map_singleton, if_true]

/-- The net a pin of the original was on. -/
def wasOn (original : Component) : Map Text Text :=
  Map.fill PinConnection.pinId PinConnection.netId original.pins []

/-- The pins of the copy of a part, and the fresh nets known after it. -/
def pinsOfCopy (shared : List Text) (inside : Map Text Nat) (st : Copying)
    (original : Component) : Map Text Text × List PinConnection :=
  copyPins shared inside (wasOn original) st.netFor ((specOf original).component st.next).pins

/-- The copy of a part. -/
def copyOf (shared : List Text) (inside : Map Text Nat) (st : Copying) (original : Component) :
    Component :=
  { original.carry ((specOf original).component st.next) with
    pins := (pinsOfCopy shared inside st original).2 }

/-- What a successful copy did. -/
theorem copyOne_cases {shared : List Text} {inside : Map Text Nat} {st st' : Copying}
    {original : Component} (h : copyOne shared inside st original = .ok st') :
    (specOf original).pinIds.Nodup ∧
      designatorRe.accepts (designatorFor st.next (specOf original)) = true ∧
      Fits st.next ((specOf original).component st.next) (netsFor st.next (specOf original).pinIds) ∧
      st' = { next := withPart st.next (copyOf shared inside st original)
                (netsFor st.next (specOf original).pinIds)
              created := st.created ++ [(copyOf shared inside st original).id]
              netFor := (pinsOfCopy shared inside st original).1 } := by
  unfold copyOne at h
  split at h
  case h_1 => cases h
  case h_2 hadd =>
    exact absurd hadd (addComponent_ne_unchanged _ _ _)
  case h_3 added _ _ _ hadd =>
    obtain ⟨rfl, hpins, hname, hfit⟩ := addComponent_cases (by rw [hadd]; rfl)
    have hlast : (withPart st.next ((specOf original).component st.next)
        (netsFor st.next (specOf original).pinIds)).components.getLast? =
        some ((specOf original).component st.next) := List.getLast?_concat
    rw [hlast] at h
    refine ⟨hpins, hname, hfit, ?_⟩
    cases h
    rw [replaceComponent_withPart hfit.id]
    rfl

omit [Runtime] in
/-- What holds of the nets shared, of those the fresh pins are on and of the fresh nets
known, holds of the nets of the copy and of the fresh nets known after it. -/
theorem copyPins_nets {shared : List Text} (inside : Map Text Nat) (was : Map Text Text)
    (P : Text → Prop) (hshared : ∀ netId ∈ shared, P netId) {netFor netFor' : Map Text Text}
    {pins pins' : List PinConnection} (hpins : ∀ p ∈ pins, P p.netId)
    (hfor : ∀ netId to', netFor.get? netId = some to' → P to')
    (h : copyPins shared inside was netFor pins = (netFor', pins')) :
    (∀ p ∈ pins', P p.netId) ∧ ∀ netId to', netFor'.get? netId = some to' → P to' := by
  induction pins generalizing netFor netFor' pins' with
  | nil =>
    cases h
    exact ⟨fun _ hp => absurd hp List.not_mem_nil, hfor⟩
  | cons pin pins ih =>
    obtain ⟨hpin, hpins⟩ := List.forall_mem_cons.mp hpins
    -- one pin, and the rest from the fresh nets known after it
    have next {netFor₁ : Map Text Text} {pin' : PinConnection} (hpin' : P pin'.netId)
        (hfor₁ : ∀ netId to', netFor₁.get? netId = some to' → P to')
        (h : ((copyPins shared inside was netFor₁ pins).1,
          pin' :: (copyPins shared inside was netFor₁ pins).2) = (netFor', pins')) :
        (∀ p ∈ pins', P p.netId) ∧ ∀ netId to', netFor'.get? netId = some to' → P to' := by
      obtain ⟨hrest, hknown⟩ := ih hpins hfor₁ rfl
      cases h
      exact ⟨List.forall_mem_cons.mpr ⟨hpin', hrest⟩, hknown⟩
    unfold copyPins at h
    split at h
    case h_1 => exact next hpin hfor h
    case h_2 wasNet _ =>
      by_cases hs : wasNet ∈ shared
      · rw [if_pos hs] at h
        exact next (hshared wasNet hs) hfor h
      rw [if_neg hs] at h
      by_cases hi : (inside.get? wasNet).getD 0 < 2
      · rw [if_pos hi] at h
        exact next hpin hfor h
      rw [if_neg hi] at h
      have hmapped : P ((netFor.get? wasNet).getD pin.netId) := by
        cases hg : netFor.get? wasNet with
        | none => exact hpin
        | some to' => exact hfor wasNet to' hg
      refine next hmapped (fun netId to' hg => ?_) h
      rw [Map.get?_set] at hg
      split at hg
      case isTrue =>
        cases hg
        exact hmapped
      case isFalse => exact hfor netId to' hg

/-- What has been built while copying, on top of the document copied from. -/
structure CopiesOn (circuit : CircuitJson) (st : Copying) : Prop where
  wellFormed : WellFormed st.next
  components : ∃ copies, st.next.components = circuit.components ++ copies
  nets : ∃ fresh, st.next.nets = circuit.nets ++ fresh
  netFor : ∀ netId to', st.netFor.get? netId = some to' → to' ∈ st.next.nets.map Net.id

theorem CopiesOn.copyOne {circuit : CircuitJson} {shared : List Text} {inside : Map Text Nat}
    {st st' : Copying} {original : Component} (h : CopiesOn circuit st)
    (hshared : ∀ netId ∈ shared, netId ∈ circuit.nets.map Net.id)
    (hc : copyOne shared inside st original = .ok st') : CopiesOn circuit st' := by
  obtain ⟨-, -, hfit, rfl⟩ := copyOne_cases hc
  set fresh := netsFor st.next (specOf original).pinIds with hfresh
  have hold {netId : Text} (hn : netId ∈ st.next.nets.map Net.id) :
      netId ∈ (st.next.nets ++ fresh).map Net.id := by
    rw [List.map_append]
    exact List.mem_append_left _ hn
  obtain ⟨hpins, hfor⟩ := copyPins_nets inside (wasOn original)
    (· ∈ (st.next.nets ++ fresh).map Net.id)
    (fun netId hn => hold (by
      obtain ⟨ns, hns⟩ := h.nets
      rw [hns, List.map_append]
      exact List.mem_append_left _ (hshared netId hn)))
    hfit.declared (fun netId to' hg => hold (h.netFor netId to' hg)) rfl
  obtain ⟨copies, hcopies⟩ := h.components
  obtain ⟨ns, hns⟩ := h.nets
  refine ⟨h.wellFormed.withPart ⟨hfit.id, hfit.designator, hfit.netIds, hfit.netNames,
    hfit.netsFresh, hpins⟩, ⟨copies ++ [copyOf shared inside st original], ?_⟩,
    ⟨ns ++ fresh, ?_⟩, hfor⟩
  · rw [withPart, hcopies, List.append_assoc]
  · rw [withPart, hns, List.append_assoc]

theorem CopiesOn.copyAll {circuit : CircuitJson} {shared : List Text} {inside : Map Text Nat}
    {originals : List Component} {st st' : Copying} (h : CopiesOn circuit st)
    (hshared : ∀ netId ∈ shared, netId ∈ circuit.nets.map Net.id)
    (hc : copyAll shared inside st originals = .ok st') : CopiesOn circuit st' := by
  induction originals generalizing st with
  | nil =>
    cases hc
    exact h
  | cons original originals ih =>
    unfold CircuitForge.copyAll at hc
    split at hc
    case h_1 => cases hc
    case h_2 st₁ h₁ => exact ih (h.copyOne hshared h₁) hc

theorem CopiesOn.start {circuit : CircuitJson} (h : WellFormed circuit) :
    CopiesOn circuit { next := circuit } where
  wellFormed := h
  components := ⟨[], (List.append_nil _).symm⟩
  nets := ⟨[], (List.append_nil _).symm⟩
  netFor := fun _ _ hg => nomatch hg

theorem pinsOf_finishCopies (circuit : CircuitJson) (shared : List Text) (st : Copying) :
    pinsOf (finishCopies circuit shared st) = pinsOf st.next := by
  rw [pinsOf, finishCopies, List.flatMap_map]
  rfl

theorem mem_sharedNets {circuit : CircuitJson} {netId : Text} (h : netId ∈ sharedNets circuit) :
    netId ∈ circuit.nets.map Net.id :=
  (List.filter_sublist.map Net.id).subset h

theorem CopiesOn.finish {circuit : CircuitJson} {shared : List Text} {st : Copying}
    (hst : CopiesOn circuit st) :
    KeepsDocument circuit (finishCopies circuit shared st) := by
  obtain ⟨copies, hcopies⟩ := hst.components
  obtain ⟨fresh, hfresh⟩ := hst.nets
  have hreferenced {netId : Text} :
      netId ∈ (st.next.components.flatMap fun c => c.pins.map PinConnection.netId) ↔
        Occupied st.next netId := by
    simp only [Occupied, mem_pinsOf, List.mem_flatMap, List.mem_map]
    constructor
    · rintro ⟨c, hc, p, hp, hn⟩
      exact ⟨_, c, hc, p, hp, rfl, hn⟩
    · rintro ⟨_, c, hc, p, hp, -, hn⟩
      exact ⟨c, hc, p, hp, hn⟩
  have hsub : (finishCopies circuit shared st).nets.Sublist st.next.nets := List.filter_sublist
  refine ⟨⟨?_, ?_, (hsub.map _).nodup hst.wellFormed.netIds,
    (hsub.map _).nodup hst.wellFormed.netNames, ?_⟩, ?_, ?_⟩
  · rw [finishCopies, List.map_map]
    exact hst.wellFormed.componentIds
  · rw [finishCopies, List.map_map]
    exact hst.wellFormed.designators
  · rintro ⟨key, netId⟩ he
    rw [pinsOf_finishCopies] at he
    obtain ⟨net, hn, rfl⟩ := List.mem_map.mp (hst.wellFormed.declared _ he)
    refine List.mem_map_of_mem (List.mem_filter.mpr ⟨hn, ?_⟩)
    rw [decide_eq_true_eq]
    exact .inl (hreferenced.mpr ⟨key, he⟩)
  · intro net hn ho
    rw [Occupied, pinsOf_finishCopies] at ho
    have hkept := (List.mem_filter.mp hn).2
    rw [decide_eq_true_eq] at hkept
    refine ⟨hkept.resolve_left fun hr => ho (hreferenced.mp hr), ?_⟩
    rintro ⟨key, hkey⟩
    refine ho ⟨key, ?_⟩
    rw [pinsOf, hcopies, List.flatMap_append]
    exact List.mem_append_left _ hkey
  · intro c hc c' hc' hid
    obtain ⟨c₁, hc₁, rfl⟩ := List.mem_map.mp hc'
    have hmem : c ∈ st.next.components := by
      rw [hcopies]
      exact List.mem_append_left _ hc
    rw [hst.wellFormed.component_eq hmem hc₁ hid]

theorem keepsDocument_duplicateComponents {circuit after : CircuitJson} {ids : List Text}
    (h : WellFormed circuit)
    (hs : (duplicateComponents circuit ids).circuit? = some after) :
    KeepsDocument circuit after := by
  unfold duplicateComponents at hs
  simp only at hs
  split at hs
  case h_1 => cases hs
  case h_2 =>
    split at hs
    case isTrue =>
      cases hs
      exact .refl h
    case isFalse =>
      split at hs
      case h_1 => cases hs
      case h_2 st hst =>
        cases hs
        exact ((CopiesOn.start h).copyAll (fun _ => mem_sharedNets) hst).finish

end CircuitForge
