/-
Copies and their originals, part by part and pin by pin.

A copy has the type, the value and the pins of its original.  The copies of two pins meet where
the pins do: on the marked net they are both on, or on the fresh net of the net between them.
-/
import CircuitForge.Editor.CopiedPins
import CircuitForge.Js.Tallies
import Mathlib.Data.List.NodupEquivFin

namespace CircuitForge

open Js

variable [Runtime]

/-! ## Copies part by part -/

omit [Runtime] in
/-- Two lists that are related place by place. -/
theorem forall₂_sides {α β : Type} {R : α → β → Prop} {xs : List α} {ys : List β}
    (h : List.Forall₂ R xs ys) : (∀ y ∈ ys, ∃ x ∈ xs, R x y) ∧ ∀ x ∈ xs, ∃ y ∈ ys, R x y := by
  induction h with
  | nil => exact ⟨fun _ h => absurd h List.not_mem_nil, fun _ h => absurd h List.not_mem_nil⟩
  | cons h _ ih =>
    refine ⟨List.forall_mem_cons.mpr ⟨⟨_, List.mem_cons_self, h⟩, fun y hy => ?_⟩,
      List.forall_mem_cons.mpr ⟨⟨_, List.mem_cons_self, h⟩, fun x hx => ?_⟩⟩
    · obtain ⟨x, hx, hxy⟩ := ih.1 y hy
      exact ⟨x, List.mem_cons_of_mem _ hx, hxy⟩
    · obtain ⟨y, hy, hxy⟩ := ih.2 x hx
      exact ⟨y, List.mem_cons_of_mem _ hy, hxy⟩

/-- What a copy has of its original before its expression is rewritten. -/
structure IsCopy (original copy : Component) : Prop where
  type : copy.type = original.type
  value : copy.value = original.value
  pinIds : copy.pins.map PinConnection.pinId = original.pins.map PinConnection.pinId
  designator : Solid copy.designator

omit [Runtime] in
theorem copyPins_pinIds (shared : List Text) (inside : Map Text Nat) (was : Map Text Text)
    (pins : List PinConnection) (netFor : Map Text Text) :
    (copyPins shared inside was netFor pins).2.map PinConnection.pinId =
      pins.map PinConnection.pinId := by
  induction pins generalizing netFor with
  | nil => rfl
  | cons pin pins ih =>
    have next (netFor' : Map Text Text) (netId : Text) :
        (pin.pinId :: (copyPins shared inside was netFor' pins).2.map PinConnection.pinId) =
          ({ pin with netId } :: pins).map PinConnection.pinId := congrArg _ (ih netFor')
    rw [copyPins]
    split
    case h_1 => exact next netFor pin.netId
    case h_2 wasNet _ =>
      by_cases hs : wasNet ∈ shared
      · rw [if_pos hs]
        exact next netFor wasNet
      rw [if_neg hs]
      by_cases hi : (inside.get? wasNet).getD 0 < 2
      · rw [if_pos hi]
        exact next netFor pin.netId
      · rw [if_neg hi]
        exact next _ pin.netId

theorem pinIds_component (circuit : CircuitJson) (spec : NewPart) :
    (spec.component circuit).pins.map PinConnection.pinId = spec.pinIds := by
  have hlen : spec.pinIds.length ≤ (netsFor circuit spec.pinIds).length :=
    (length_freshNets _ _ _).ge
  rw [NewPart.component, newComponent, List.map_zipWith, ← List.map_uncurry_zip_eq_zipWith]
  exact List.map_fst_zip hlen

omit [Runtime] in
theorem solid_designator {s : Text} (h : designatorRe.accepts s = true) : Solid s := by
  refine Re.solid_of_accepts (fun c hc => isSpace_eq_false_of_isWord ?_) h
  simp only [designatorRe, Re.opt, Re.plus, Re.digit, Re.letter, Re.chars, Bool.or_eq_true,
    Bool.false_or, isAlpha_iff, isAlphanum_iff, isDigit_iff] at hc
  rw [isWord_iff]
  omega

theorem isCopy_copyOf {shared : List Text} {inside : Map Text Nat} {st : Copying}
    {original : Component}
    (h : designatorRe.accepts (designatorFor st.next (specOf original)) = true) :
    IsCopy original (copyOf shared inside st original) where
  type := rfl
  value := by
    change (original.value.orElse fun _ => original.value) = original.value
    cases original.value <;> rfl
  pinIds := by
    rw [copyOf, pinsOfCopy, copyPins_pinIds, pinIds_component]
    rfl
  designator := solid_designator h

/-- The copies made so far, part by part. -/
structure Cloned (circuit : CircuitJson) (done : List Component) (copies : List Component)
    (st : Copying) : Prop where
  rest : st.next = { circuit with components := circuit.components ++ copies, nets := st.next.nets }
  created : st.created = copies.map Component.id
  parts : List.Forall₂ IsCopy done copies

theorem Cloned.copyOne {circuit : CircuitJson} {shared : List Text} {inside : Map Text Nat}
    {done copies : List Component} {st st' : Copying} {original : Component}
    (h : Cloned circuit done copies st) (hc : copyOne shared inside st original = .ok st') :
    Cloned circuit (done ++ [original]) (copies ++ [copyOf shared inside st original]) st' := by
  obtain ⟨-, hname, -, rfl⟩ := copyOne_cases hc
  refine ⟨?_, ?_, ?_⟩
  · rw [withPart, h.rest, List.append_assoc]
  · rw [h.created, List.map_append, List.map_singleton]
  · exact List.rel_append h.parts (.cons (isCopy_copyOf hname) .nil)

theorem Cloned.copyAll {circuit : CircuitJson} {shared : List Text} {inside : Map Text Nat}
    {originals done copies : List Component} {st st' : Copying} (h : Cloned circuit done copies st)
    (hc : copyAll shared inside st originals = .ok st') :
    ∃ copies, Cloned circuit (done ++ originals) copies st' := by
  induction originals generalizing done copies st with
  | nil =>
    cases hc
    rw [List.append_nil]
    exact ⟨copies, h⟩
  | cons original originals ih =>
    unfold CircuitForge.copyAll at hc
    split at hc
    case h_1 => cases hc
    case h_2 st₁ h₁ =>
      rw [List.append_cons]
      exact ih (h.copyOne h₁) hc

theorem Cloned.start (circuit : CircuitJson) : Cloned circuit [] [] { next := circuit } where
  rest := by rw [List.append_nil]
  created := rfl
  parts := .nil

/-! ## Copied pins -/

/-- The terminals of a net inside the selection. -/
theorem insideCounts_count {shared : List Text} (originals : List Component) {was : Text}
    (h : was ∉ shared) :
    ((insideCounts shared originals).get? was).getD 0 = (netIdsOf originals).count was := by
  have htotal (xs : List Text) :
      Tallies.total (xs.map fun netId => (netId, 1)) was = xs.count was := by
    induction xs with
    | nil => rfl
    | cons x xs ih =>
      rw [List.map_cons, Tallies.total_cons, ih, List.count_cons, Nat.add_comm]
      simp only [beq_iff_eq]
  have hpins : ((originals.flatMap fun c => c.pins.filter (·.netId ∉ shared)).map
      PinConnection.netId) = (netIdsOf originals).filter (· ∉ shared) := by
    rw [netIdsOf, List.filter_flatMap, List.map_flatMap]
    have hone (c : Component) : (c.pins.filter (·.netId ∉ shared)).map PinConnection.netId =
        (c.pins.map PinConnection.netId).filter (· ∉ shared) := by
      rw [List.filter_map]
      rfl
    exact congrArg (fun f => List.flatMap f originals) (funext hone)
  have hfold : insideCounts shared originals =
      Tallies.creditAll ((((originals.flatMap fun c => c.pins.filter (·.netId ∉ shared)).map
        PinConnection.netId)).map fun netId => (netId, 1)) [] := by
    rw [insideCounts, Tallies.creditAll, List.map_map, List.foldl_map]
    rfl
  rw [hfold, Tallies.getD_creditAll, htotal, hpins, List.count_filter (by simpa using h)]

omit [Runtime] in
theorem two_le_count_of_places {xs : List Text} {x : Text} {i j : Nat} (hi : xs[i]? = some x)
    (hj : xs[j]? = some x) (hij : i ≠ j) : 2 ≤ xs.count x := by
  obtain ⟨hilt, hix⟩ := List.getElem?_eq_some_iff.mp hi
  obtain ⟨hjlt, hjx⟩ := List.getElem?_eq_some_iff.mp hj
  have htwice : List.Duplicate x xs := by
    rw [List.duplicate_iff_exists_distinct_get]
    rcases Nat.lt_or_gt_of_ne hij with hlt | hlt
    · exact ⟨⟨i, hilt⟩, ⟨j, hjlt⟩, hlt, hix.symm, hjx.symm⟩
    · exact ⟨⟨j, hjlt⟩, ⟨i, hilt⟩, hlt, hjx.symm, hix.symm⟩
  exact List.replicate_sublist_iff.mp (List.duplicate_iff_sublist.mp htwice)

section Landing

variable {circuit : CircuitJson} {originals : List Component}

omit [Runtime] in
/-- The place of the fresh net is one of the places of the original's net. -/
theorem getElem?_slot (inside : Map Text Nat) {selected : List Text} {i : Nat} {was : Text}
    (h : selected[i]? = some was) : selected[slot inside selected i was]? = some was := by
  rw [slot]
  split
  · exact h
  · exact List.getElem?_idxOf (List.mem_of_getElem? h)

/-- Two copied pins share a net where their originals do. -/
theorem landing_eq_iff {i j : Nat} {was was' : Text} (hi : (netIdsOf originals)[i]? = some was)
    (hj : (netIdsOf originals)[j]? = some was') (hij : i ≠ j) :
    landing circuit (sharedNets circuit) (insideCounts (sharedNets circuit) originals)
        (netIdsOf originals) i was =
      landing circuit (sharedNets circuit) (insideCounts (sharedNets circuit) originals)
        (netIdsOf originals) j was' ↔ was = was' := by
  rw [landing, landing]
  constructor
  · intro h
    by_cases hs : was ∈ sharedNets circuit <;> by_cases hs' : was' ∈ sharedNets circuit
    · rwa [if_pos hs, if_pos hs'] at h
    · rw [if_pos hs, if_neg hs'] at h
      exact absurd (h ▸ mem_sharedNets hs) (mintedId_fresh circuit _)
    · rw [if_neg hs, if_pos hs'] at h
      exact absurd (h ▸ mem_sharedNets hs') (mintedId_fresh circuit _)
    · rw [if_neg hs, if_neg hs'] at h
      have hplace := getElem?_slot (insideCounts (sharedNets circuit) originals) hi
      rw [mintedId_injective circuit h, getElem?_slot _ hj] at hplace
      exact (Option.some.inj hplace).symm
  · rintro rfl
    by_cases hs : was ∈ sharedNets circuit
    · rw [if_pos hs, if_pos hs]
    have htwice : ¬ ((insideCounts (sharedNets circuit) originals).get? was).getD 0 < 2 := by
      rw [insideCounts_count originals hs, Nat.not_lt]
      exact two_le_count_of_places hi hj hij
    rw [if_neg hs, if_neg hs, slot, slot, if_neg htwice, if_neg htwice]

end Landing

end CircuitForge
