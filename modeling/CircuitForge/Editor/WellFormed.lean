/-
Well-formed documents and what the kernel edits keep of them.

A net that nothing sits on is no node, so an edit that takes the last pin off a net
removes it.  An edit moves pins by their key, the component's id with the pin's; where
one key occurs twice it can move a pin it does not look at.
-/
import CircuitForge.Editor.Fresh

namespace CircuitForge

open Js

variable [Runtime]

/-! ## Documents -/

/-- Every pin of the document, by its key, with its net. -/
def pinsOf (circuit : CircuitJson) : List (PinRef × Text) :=
  circuit.components.flatMap fun c => c.pins.map fun p => (⟨c.id, p.pinId⟩, p.netId)

structure WellFormed (circuit : CircuitJson) : Prop where
  componentIds : (circuit.components.map Component.id).Nodup
  designators : (circuit.components.map fun c => Runtime.lower c.designator).Nodup
  netIds : (circuit.nets.map Net.id).Nodup
  netNames : (takenNames circuit).Nodup
  declared : ∀ e ∈ pinsOf circuit, e.2 ∈ circuit.nets.map Net.id

/-- What a drawing needs of its circuit. -/
structure Wired (circuit : CircuitJson) : Prop where
  componentIds : (circuit.components.map Component.id).Nodup
  declared : ∀ e ∈ pinsOf circuit, e.2 ∈ circuit.nets.map Net.id

theorem WellFormed.wired {circuit : CircuitJson} (h : WellFormed circuit) : Wired circuit :=
  ⟨h.componentIds, h.declared⟩

def Occupied (circuit : CircuitJson) (netId : Text) : Prop := ∃ key, (key, netId) ∈ pinsOf circuit

/-- What a successful edit owes the document it was given. -/
structure KeepsDocument (before after : CircuitJson) : Prop where
  wellFormed : WellFormed after
  /-- A net nothing sits on was there before, and nothing sat on it. -/
  noneEmptied : ∀ net ∈ after.nets, ¬ Occupied after net.id →
    net.id ∈ before.nets.map Net.id ∧ ¬ Occupied before net.id
  /-- The pins of a surviving component keep their order. -/
  pinOrder : ∀ c ∈ before.components, ∀ c' ∈ after.components, c'.id = c.id →
    c'.pins.map PinConnection.pinId = c.pins.map PinConnection.pinId

theorem mem_pinsOf {circuit : CircuitJson} {key : PinRef} {netId : Text} :
    (key, netId) ∈ pinsOf circuit ↔
      ∃ c ∈ circuit.components, ∃ p ∈ c.pins, ⟨c.id, p.pinId⟩ = key ∧ p.netId = netId := by
  simp only [pinsOf, List.mem_flatMap, List.mem_map, Prod.mk.injEq]

theorem mem_pinsOn {circuit : CircuitJson} {key : PinRef} {netId : Text} :
    key ∈ pinsOn circuit netId ↔ (key, netId) ∈ pinsOf circuit := by
  simp only [pinsOn, mem_pinsOf, List.mem_flatMap, List.mem_map, List.mem_filter,
    decide_eq_true_eq]
  constructor
  · rintro ⟨c, hc, p, ⟨hp, hn⟩, hk⟩
    exact ⟨c, hc, p, hp, hk, hn⟩
  · rintro ⟨c, hc, p, hp, hk, hn⟩
    exact ⟨c, hc, p, ⟨hp, hn⟩, hk⟩

theorem findPin_ok {circuit : CircuitJson} {ref : PinRef} {c : Component} {netId : Text}
    (h : findPin circuit ref = .ok (c, netId)) : (ref, netId) ∈ pinsOf circuit := by
  unfold findPin at h
  split at h
  case h_1 => cases h
  case h_2 component hc =>
    split at h
    case h_1 => cases h
    case h_2 pin hp =>
      cases h
      refine mem_pinsOf.mpr ⟨c, List.mem_of_find?_eq_some hc, pin, List.mem_of_find?_eq_some hp, ?_,
        rfl⟩
      have hid := List.find?_some hc
      have hpin := List.find?_some hp
      simp only [decide_eq_true_eq] at hid hpin
      rw [hid, hpin]

theorem netById_eq_some {circuit : CircuitJson} {id : Text} {net : Net}
    (h : netById circuit id = some net) : net ∈ circuit.nets ∧ net.id = id :=
  ⟨List.mem_of_find?_eq_some h, by simpa using List.find?_some h⟩

/-- A component is the one with its id. -/
theorem WellFormed.component_eq {circuit : CircuitJson} (h : WellFormed circuit)
    {c c' : Component} (hc : c ∈ circuit.components) (hc' : c' ∈ circuit.components)
    (hid : c'.id = c.id) : c' = c :=
  List.inj_on_of_nodup_map h.componentIds hc' hc hid

theorem KeepsDocument.refl {circuit : CircuitJson} (h : WellFormed circuit) :
    KeepsDocument circuit circuit where
  wellFormed := h
  noneEmptied := fun net hn ho => ⟨List.mem_map_of_mem hn, ho⟩
  pinOrder := fun c hc c' hc' hid => by rw [h.component_eq hc hc' hid]

/-! ## Edits on one component or net -/

theorem pinsOf_map {circuit : CircuitJson} {f : Component → Component} (hid : ∀ c, (f c).id = c.id)
    (hpins : ∀ c, (f c).pins = c.pins) :
    pinsOf { circuit with components := circuit.components.map f } = pinsOf circuit := by
  simp only [pinsOf, List.flatMap_map, hid, hpins]

/-- An edit of the components that leaves ids, pins and nets alone. -/
theorem Wired.map {circuit : CircuitJson} (h : Wired circuit) {f : Component → Component}
    (hid : ∀ c, (f c).id = c.id) (hpins : ∀ c, (f c).pins = c.pins) :
    Wired { circuit with components := circuit.components.map f } where
  componentIds := by
    simp only [List.map_map, Function.comp_def, hid]
    exact h.componentIds
  declared := by
    rw [pinsOf_map hid hpins]
    exact h.declared

theorem keepsDocument_of_map {circuit : CircuitJson} (h : WellFormed circuit)
    (f : Component → Component) (hid : ∀ c, (f c).id = c.id) (hpins : ∀ c, (f c).pins = c.pins)
    (hnames : ((circuit.components.map f).map fun c => Runtime.lower c.designator).Nodup) :
    KeepsDocument circuit { circuit with components := circuit.components.map f } := by
  have hwired := h.wired.map hid hpins
  refine ⟨⟨hwired.componentIds, hnames, h.netIds, h.netNames, hwired.declared⟩, ?_, ?_⟩
  · intro net hn ho
    unfold Occupied at ho
    rw [pinsOf_map hid hpins] at ho
    exact ⟨List.mem_map_of_mem hn, ho⟩
  · intro c hc c' hc' he
    obtain ⟨c'', hc'', rfl⟩ := List.mem_map.mp hc'
    rw [hid] at he
    rw [hpins, h.component_eq hc hc'' he]

omit [Runtime] in
/-- One value of a list of distinct ones replaced by a new one, or by itself. -/
theorem nodup_map_replace {α β : Type} {xs : List α} {key : α → Text} {old new : α → β}
    (hkeys : (xs.map key).Nodup) (hold : (xs.map old).Nodup) {k : Text}
    (hne : ∀ x ∈ xs, key x ≠ k → new x = old x)
    (hnew : ∀ x ∈ xs, key x = k → ∀ y ∈ xs, key y ≠ k → new x ≠ old y) :
    (xs.map new).Nodup := by
  rw [List.nodup_map_iff_inj_on (List.Nodup.of_map _ hkeys)]
  intro x hx y hy he
  by_cases hxk : key x = k <;> by_cases hyk : key y = k
  · exact List.inj_on_of_nodup_map hkeys hx hy (hxk.trans hyk.symm)
  · rw [hne y hy hyk] at he
    exact absurd he (hnew x hx hxk y hy hyk)
  · rw [hne x hx hxk] at he
    exact absurd he.symm (hnew y hy hyk x hx hxk)
  · rw [hne x hx hxk, hne y hy hyk] at he
    exact List.inj_on_of_nodup_map hold hx hy he

/-- The circuit after a successful edit. -/
def EditResult.circuit? {Circuit : Type} : EditResult Circuit → Option Circuit
  | .changed circuit _ _ _ => some circuit
  | .unchanged circuit => some circuit
  | .refused _ _ => none

/-- What a successful change of a designator did. -/
theorem setDesignator_result {circuit after : CircuitJson} {componentId next : Text}
    (hs : (setDesignator circuit componentId next).circuit? = some after) :
    after = circuit ∨
      ∃ designator, after = replaceComponent circuit componentId (fun c => { c with designator }) ∧
        ∀ c ∈ circuit.components, c.id ≠ componentId →
          Runtime.lower c.designator ≠ Runtime.lower designator := by
  unfold setDesignator at hs
  split at hs
  case h_1 => cases hs
  case h_2 target htarget =>
    simp only at hs
    by_cases h₁ : trim next = []
    · rw [if_pos h₁] at hs
      cases hs
    rw [if_neg h₁] at hs
    by_cases h₂ : (!designatorRe.accepts (trim next)) = true
    · rw [if_pos h₂] at hs
      cases hs
    rw [if_neg h₂] at hs
    by_cases h₃ : trim next = target.designator
    · rw [if_pos h₃] at hs
      cases hs
      exact .inl rfl
    rw [if_neg h₃] at hs
    split at hs
    case h_1 => cases hs
    case h_2 hclash =>
      cases hs
      refine .inr ⟨trim next, rfl, fun c hc hne he => ?_⟩
      have := List.find?_eq_none.mp hclash c hc
      simp only [decide_eq_true_eq, not_and] at this
      exact this hne he

theorem setValue_result {circuit after : CircuitJson} {componentId next : Text}
    (hs : (setValue circuit componentId next).circuit? = some after) :
    after = circuit ∨
      ∃ value, after = replaceComponent circuit componentId fun c => { c with value } := by
  unfold setValue at hs
  split at hs
  case h_1 => cases hs
  case h_2 target htarget =>
    simp only at hs
    by_cases h₁ : trim next = []
    · rw [if_pos h₁] at hs
      cases hs
    rw [if_neg h₁] at hs
    by_cases h₂ : some (trim next) = target.value
    · rw [if_pos h₂] at hs
      cases hs
      exact .inl rfl
    · rw [if_neg h₂] at hs
      cases hs
      exact .inr ⟨some (trim next), rfl⟩

/-- The nets with one of them renamed. -/
def renamed (circuit : CircuitJson) (netId name : Text) : CircuitJson :=
  { circuit with
    nets := circuit.nets.map fun n => if n.id = netId then { n with name } else n }

theorem setNetName_result {circuit after : CircuitJson} {netId next : Text}
    (hs : (setNetName circuit netId next).circuit? = some after) :
    after = circuit ∨ ∃ name, after = renamed circuit netId name ∧
      ∀ n ∈ circuit.nets, n.id ≠ netId → Runtime.lower n.name ≠ Runtime.lower name := by
  unfold setNetName at hs
  split at hs
  case h_1 => cases hs
  case h_2 target htarget =>
    simp only at hs
    by_cases h₁ : trim next = []
    · rw [if_pos h₁] at hs
      cases hs
    rw [if_neg h₁] at hs
    by_cases h₂ : trim next = target.name
    · rw [if_pos h₂] at hs
      cases hs
      exact .inl rfl
    rw [if_neg h₂] at hs
    split at hs
    case h_1 => cases hs
    case h_2 hclash =>
      cases hs
      refine .inr ⟨trim next, rfl, fun n hn hne he => ?_⟩
      have := List.find?_eq_none.mp hclash n hn
      simp only [decide_eq_true_eq, not_and] at this
      exact this hne he

theorem replaceComponent_fields (componentId : Text) {update : Component → Component}
    (hid : ∀ c, (update c).id = c.id) (hpins : ∀ c, (update c).pins = c.pins) (c : Component) :
    (if c.id = componentId then update c else c).id = c.id ∧
      (if c.id = componentId then update c else c).pins = c.pins := by
  split
  · exact ⟨hid c, hpins c⟩
  · exact ⟨rfl, rfl⟩

theorem Wired.replaceComponent {circuit : CircuitJson} (h : Wired circuit) (componentId : Text)
    {update : Component → Component} (hid : ∀ c, (update c).id = c.id)
    (hpins : ∀ c, (update c).pins = c.pins) :
    Wired (replaceComponent circuit componentId update) :=
  h.map (fun c => (replaceComponent_fields componentId hid hpins c).1)
    fun c => (replaceComponent_fields componentId hid hpins c).2

theorem ids_renamed (circuit : CircuitJson) (netId name : Text) :
    (renamed circuit netId name).nets.map Net.id = circuit.nets.map Net.id := by
  rw [renamed, List.map_map]
  refine List.map_congr_left fun n _ => ?_
  simp only [Function.comp_apply]
  split <;> rfl

theorem Wired.renamed {circuit : CircuitJson} (h : Wired circuit) (netId name : Text) :
    Wired (renamed circuit netId name) where
  componentIds := h.componentIds
  declared := by
    rw [ids_renamed]
    exact h.declared

theorem keepsDocument_setDesignator {circuit after : CircuitJson} {componentId next : Text}
    (h : WellFormed circuit) (hs : (setDesignator circuit componentId next).circuit? = some after) :
    KeepsDocument circuit after := by
  obtain rfl | ⟨designator, rfl, hclash⟩ := setDesignator_result hs
  · exact .refl h
  refine keepsDocument_of_map h _ (fun c => by split <;> rfl) (fun c => by split <;> rfl) ?_
  rw [List.map_map]
  refine nodup_map_replace h.componentIds h.designators (k := componentId) ?_ ?_
  · intro c _ hne
    simp only [Function.comp_apply, if_neg hne]
  · intro c _ hid c' hc' hne
    simp only [Function.comp_apply, if_pos hid]
    exact (hclash c' hc' hne).symm

theorem keepsDocument_setValue {circuit after : CircuitJson} {componentId next : Text}
    (h : WellFormed circuit) (hs : (setValue circuit componentId next).circuit? = some after) :
    KeepsDocument circuit after := by
  obtain rfl | ⟨value, rfl⟩ := setValue_result hs
  · exact .refl h
  refine keepsDocument_of_map h _ (fun c => by split <;> rfl) (fun c => by split <;> rfl) ?_
  rw [List.map_map]
  have : (fun c : Component => Runtime.lower c.designator) ∘ (fun c =>
      if c.id = componentId then { c with value } else c) =
      fun c => Runtime.lower c.designator := by
    funext c
    simp only [Function.comp_apply]
    split <;> rfl
  rw [this]
  exact h.designators

theorem keepsDocument_setNetName {circuit after : CircuitJson} {netId next : Text}
    (h : WellFormed circuit) (hs : (setNetName circuit netId next).circuit? = some after) :
    KeepsDocument circuit after := by
  obtain rfl | ⟨name, rfl, hclash⟩ := setNetName_result hs
  · exact .refl h
  refine ⟨⟨h.componentIds, h.designators, ?_, ?_, (h.wired.renamed netId name).declared⟩, ?_, ?_⟩
  · rw [ids_renamed]
    exact h.netIds
  · rw [takenNames, renamed, List.map_map]
    refine nodup_map_replace h.netIds h.netNames (k := netId) ?_ ?_
    · intro n _ hne
      simp only [Function.comp_apply, if_neg hne]
    · intro n _ hid n' hn' hne
      simp only [Function.comp_apply, if_pos hid]
      exact (hclash n' hn' hne).symm
  · intro net hn ho
    refine ⟨?_, ho⟩
    rw [← ids_renamed circuit netId name]
    exact List.mem_map_of_mem hn
  · exact (KeepsDocument.refl h).pinOrder

end CircuitForge
