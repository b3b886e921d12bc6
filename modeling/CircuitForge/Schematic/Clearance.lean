/-
What placing new parts keeps clear.

A spot is free when a lattice step lies between the part's box and every box on the sheet.
The last resort, right of everything, is free too: it is four steps out, and rounding to the
lattice takes back half a step at most.  Positions are kept by id, so that two new parts of
one id end up on one spot.
-/
import CircuitForge.Schematic.Conductors

namespace CircuitForge

open Js

/-! ## Boxes -/

theorem apart_symm {b o : Bounds Rat} (h : apart b o = true) : apart o b = true := by
  unfold apart at h ⊢
  simp only [Bool.or_eq_true, decide_eq_true_eq] at h ⊢
  rcases h with ((h | h) | h) | h
  · exact .inl (.inl (.inr (by linarith)))
  · exact .inl (.inl (.inl (by linarith)))
  · exact .inr (by linarith)
  · exact .inl (.inr (by linarith))

/-- The box holds the spot the symbol is placed at. -/
def Bounds.HoldsOrigin (b : Bounds Int) : Prop := b.minX ≤ 0 ∧ 0 ≤ b.maxX ∧ b.minY ≤ 0 ∧ 0 ≤ b.maxY

theorem Bounds.HoldsOrigin.cast {b : Bounds Int} (h : b.HoldsOrigin) :
    (b.minX : Rat) ≤ 0 ∧ 0 ≤ (b.maxX : Rat) ∧ (b.minY : Rat) ≤ 0 ∧ 0 ≤ (b.maxY : Rat) := by
  obtain ⟨h₁, h₂, h₃, h₄⟩ := h
  exact ⟨by exact_mod_cast h₁, by exact_mod_cast h₂, by exact_mod_cast h₃, by exact_mod_cast h₄⟩

theorem boundsOf_holds {ps : List (Int × Int)} {p : Int × Int} (h : p ∈ ps) :
    (boundsOf ps).minX ≤ p.1 ∧ (boundsOf ps).minY ≤ p.2 ∧ p.1 ≤ (boundsOf ps).maxX ∧
      p.2 ≤ (boundsOf ps).maxY := by
  cases ps with
  | nil => cases h
  | cons q qs =>
    unfold boundsOf
    simp only
    -- A box holds what the box it grew from held, and the point it was grown by.
    suffices hgrow : ∀ (qs : List (Int × Int)) (b : Bounds Int),
        let b' := qs.foldl
          (fun b q => ⟨min b.minX q.1, min b.minY q.2, max b.maxX q.1, max b.maxY q.2⟩) b
        (b'.minX ≤ b.minX ∧ b'.minY ≤ b.minY ∧ b.maxX ≤ b'.maxX ∧ b.maxY ≤ b'.maxY) ∧
          ∀ p ∈ qs, b'.minX ≤ p.1 ∧ b'.minY ≤ p.2 ∧ p.1 ≤ b'.maxX ∧ p.2 ≤ b'.maxY by
      rcases List.mem_cons.mp h with rfl | h
      · exact (hgrow qs ⟨p.1, p.2, p.1, p.2⟩).1
      · exact (hgrow qs ⟨q.1, q.2, q.1, q.2⟩).2 p h
    intro qs
    induction qs with
    | nil => exact fun b => ⟨⟨le_rfl, le_rfl, le_rfl, le_rfl⟩, fun p hp => by cases hp⟩
    | cons q qs ih =>
      intro b
      obtain ⟨⟨h₁, h₂, h₃, h₄⟩, hmem⟩ :=
        ih ⟨min b.minX q.1, min b.minY q.2, max b.maxX q.1, max b.maxY q.2⟩
      refine ⟨⟨h₁.trans (min_le_left _ _), h₂.trans (min_le_left _ _),
        (le_max_left _ _).trans h₃, (le_max_left _ _).trans h₄⟩, ?_⟩
      intro p hp
      rcases List.mem_cons.mp hp with rfl | hp
      · exact ⟨h₁.trans (min_le_right _ _), h₂.trans (min_le_right _ _),
          (le_max_right _ _).trans h₃, (le_max_right _ _).trans h₄⟩
      · exact hmem p hp

/-- A body with a point on either side of the origin along each axis. -/
def Straddles (ps : List (Int × Int)) : Prop :=
  ((∃ p ∈ ps, p.1 ≤ 0) ∧ ∃ p ∈ ps, 0 ≤ p.1) ∧ (∃ p ∈ ps, p.2 ≤ 0) ∧ ∃ p ∈ ps, 0 ≤ p.2

theorem Straddles.holdsOrigin {ps : List (Int × Int)} (h : Straddles ps) :
    (boundsOf ps).HoldsOrigin := by
  obtain ⟨⟨⟨p, hp, hpx⟩, q, hq, hqx⟩, ⟨r, hr, hry⟩, s, hs, hsy⟩ := h
  exact ⟨(boundsOf_holds hp).1.trans hpx, hqx.trans (boundsOf_holds hq).2.2.1,
    (boundsOf_holds hr).2.1.trans hry, hsy.trans (boundsOf_holds hs).2.2.2⟩

theorem Straddles.append {ps : List (Int × Int)} (h : Straddles ps) (qs : List (Int × Int)) :
    Straddles (ps ++ qs) := by
  obtain ⟨⟨⟨p, hp, hpx⟩, q, hq, hqx⟩, ⟨r, hr, hry⟩, s, hs, hsy⟩ := h
  exact ⟨⟨⟨p, List.mem_append_left _ hp, hpx⟩, q, List.mem_append_left _ hq, hqx⟩,
    ⟨r, List.mem_append_left _ hr, hry⟩, s, List.mem_append_left _ hs, hsy⟩

instance (ps : List (Int × Int)) : Decidable (Straddles ps) := by
  unfold Straddles
  infer_instance

section

variable [Runtime]

/-- A symbol's bounds are those of its points, which straddle the origin. -/
structure SymbolGeometry.Measured (g : SymbolGeometry) : Prop where
  bounds : g.bounds = boundsOf g.points
  straddles : Straddles g.points

omit [Runtime] in
theorem measured_withPins {body : List (Int × Int)} (h : Straddles body) (pins : List SymbolPin) :
    (withPins body pins).Measured := ⟨rfl, h.append _⟩

omit [Runtime] in
theorem measured_derive (pins : List Text) : (derive pins).Measured := by
  unfold derive
  refine measured_withPins ?_ _
  have hx : (0 : Int) ≤ max (2 * pinGrid) (6 + ((pins.map List.length).foldl max 1 : Nat) * 4) :=
    le_max_of_le_left (by decide)
  have hy : (0 : Int) ≤ max (2 * pinGrid)
      (((max 1 ((pins.length + 1) / 2) : Nat) : Int) * pinGrid / 2 + 4) :=
    le_max_of_le_left (by decide)
  refine ⟨⟨⟨_, List.mem_cons_self, neg_nonpos.mpr hx⟩,
    _, List.mem_cons_of_mem _ List.mem_cons_self, hx⟩,
    ⟨_, List.mem_cons_self, neg_nonpos.mpr hy⟩,
    _, List.mem_cons_of_mem _ (List.mem_cons_of_mem _ List.mem_cons_self), hy⟩

theorem measured_drawnSymbol {type : ComponentType} {pins : List Text} {g : SymbolGeometry}
    (h : drawnSymbol type pins = some g) : g.Measured := by
  unfold drawnSymbol at h
  split at h
  case h_1 => cases h; exact measured_withPins (by decide) _
  case h_2 => cases h; exact measured_withPins (by decide) _
  case h_3 => cases h; exact measured_withPins (by decide) _
  case h_4 =>
    obtain ⟨p, -, rfl⟩ := Option.map_eq_some_iff.mp h
    exact measured_withPins (by decide) _
  case h_5 =>
    obtain ⟨p, -, rfl⟩ := Option.map_eq_some_iff.mp h
    exact measured_withPins (by decide) _
  case h_6 => cases h; exact measured_withPins (by decide) _
  case h_7 => cases h

theorem measured_symbolFor (c : Component) : (symbolFor c).Measured := by
  unfold symbolFor
  simp only
  split
  · exact measured_derive _
  · next geometry hg =>
    split
    · exact measured_drawnSymbol hg
    · exact measured_derive _

/-- A part that is not turned has its symbol's bounds around its spot. -/
theorem boxAt_upright (c : Component) (p : XY) :
    boxAt c { p with } = ⟨p.x + (symbolFor c).bounds.minX, p.y + (symbolFor c).bounds.minY,
      p.x + (symbolFor c).bounds.maxX, p.y + (symbolFor c).bounds.maxY⟩ := by
  have hmap : (symbolFor c).points.map (fun q => rotatePoint Turn.deg0 (mirrorPoint none q)) =
      (symbolFor c).points := List.map_id _
  unfold boxAt orientSymbol
  simp only [Option.getD_none, hmap, ← (measured_symbolFor c).bounds]

/-- Two parts that are not turned are not apart on one spot. -/
theorem not_apart_upright (c o : Component) (p : XY) :
    apart (boxAt c { p with }) (boxAt o { p with }) = false := by
  have hc := (measured_symbolFor c).straddles.holdsOrigin
  have ho := (measured_symbolFor o).straddles.holdsOrigin
  rw [← (measured_symbolFor c).bounds] at hc
  rw [← (measured_symbolFor o).bounds] at ho
  obtain ⟨hc₁, hc₂, hc₃, hc₄⟩ := hc.cast
  obtain ⟨ho₁, ho₂, ho₃, ho₄⟩ := ho.cast
  rw [boxAt_upright, boxAt_upright]
  have hg : ((pinGrid : Int) : Rat) = 10 := rfl
  simp only [apart, hg, Bool.or_eq_false_iff, decide_eq_false_iff_not, not_le, ge_iff_le]
  refine ⟨⟨⟨?_, ?_⟩, ?_⟩, ?_⟩ <;> linarith

/-! ## A free spot -/

omit [Runtime] in
/-- Rounding takes back half a step at most. -/
theorem le_snap (v : Rat) : v - 5 ≤ snap v := by
  have hg : ((pinGrid : Int) : Rat) = 10 := rfl
  have hlt : v / 10 + 1 / 2 < ((v / 10 + 1 / 2).floor : Rat) + 1 := by
    exact_mod_cast Rat.lt_floor_add_one (v / 10 + 1 / 2)
  unfold snap
  rw [hg]
  linarith

/-- Right of everything is apart from everything. -/
theorem apart_rightEdge {st : Placing} (c : Component) (y : Rat) {b : Bounds Rat}
    (hb : b ∈ st.boxes) :
    apart (boxAt c { (⟨st.rightEdge (symbolFor c).bounds, y⟩ : XY) with }) b = true := by
  have hmem : b.maxX ∈ st.boxes.map Bounds.maxX := List.mem_map_of_mem hb
  have hg : ((pinGrid : Int) : Rat) = 10 := rfl
  have hle : b.maxX ≤ (st.boxes.map Bounds.maxX).max?.getD 0 := by
    cases hm : (st.boxes.map Bounds.maxX).max? with
    | none => rw [List.max?_eq_none_iff.mp hm] at hmem; cases hmem
    | some m => exact (List.max?_le_iff hm).mp le_rfl _ hmem
  have hsnap := le_snap ((st.boxes.map Bounds.maxX).max?.getD 0 + 4 * pinGrid -
    (symbolFor c).bounds.minX)
  rw [boxAt_upright]
  unfold apart Placing.rightEdge
  simp only [hg, Bool.or_eq_true, decide_eq_true_eq, ge_iff_le] at hsnap ⊢
  exact .inl (.inl (.inr (by linarith)))

/-- A part gets a spot that is apart from all that stands on the sheet. -/
theorem placePart_spot (parts : List Component) (rails : List Text) (st : Placing)
    (c : Component) :
    ∃ p : XY, placePart parts rails st c =
        { positions := st.positions.set c.id { p with }
          boxes := st.boxes ++ [boxAt c { p with }] } ∧
      ∀ b ∈ st.boxes, apart (boxAt c { p with }) b = true := by
  unfold placePart
  simp only
  refine ⟨_, rfl, fun b hb => ?_⟩
  split
  · next =>
    -- The rings are searched; with none of them free the spot is the right edge.
    cases hf : List.find? _ _ with
    | some p =>
      have hfree := List.find?_some hf
      exact List.all_eq_true.mp hfree b hb
    | none => exact apart_rightEdge c _ hb
  · next hfree =>
    rw [Bool.or_eq_true, not_or, Bool.not_eq_true', Bool.not_eq_false] at hfree
    exact List.all_eq_true.mp hfree.2 b hb

/-! ## All new parts -/

/-- The parts without a position. -/
def missingParts (circuit : CircuitJson) (ui : UiJson) : List Component :=
  circuit.components.filter fun c => (ui.positions.get? c.id).isNone

/-- What holds while parts are placed: what has a position has its box on the sheet, and is
apart from every other part that was placed. -/
structure Cleared (circuit : CircuitJson) (ui : UiJson) (st : Placing) : Prop where
  boxed : ∀ c ∈ circuit.components, ∀ p, st.positions.get? c.id = some p → boxAt c p ∈ st.boxes
  clear : ∀ c ∈ missingParts circuit ui, ∀ o ∈ circuit.components, o.id ≠ c.id → ∀ p q,
    st.positions.get? c.id = some p → st.positions.get? o.id = some q →
      apart (boxAt c p) (boxAt o q) = true

theorem mem_missingParts {circuit : CircuitJson} {ui : UiJson} {c : Component} :
    c ∈ missingParts circuit ui ↔ c ∈ circuit.components ∧ ui.positions.get? c.id = none := by
  rw [missingParts, List.mem_filter, Option.isNone_iff_eq_none]

/-- A component with the id of a new part is that part, where new parts have their own ids. -/
theorem eq_of_missing {circuit : CircuitJson} {ui : UiJson}
    (hids : ((missingParts circuit ui).map Component.id).Nodup) {c o : Component}
    (hc : c ∈ missingParts circuit ui) (ho : o ∈ circuit.components) (hid : o.id = c.id) :
    o = c := by
  refine List.inj_on_of_nodup_map hids (mem_missingParts.mpr ⟨ho, ?_⟩) hc hid
  rw [hid]
  exact (mem_missingParts.mp hc).2

/-- Placing one part. -/
theorem Cleared.placePart {circuit : CircuitJson} {ui : UiJson} {st : Placing}
    (h : Cleared circuit ui st) (hids : ((missingParts circuit ui).map Component.id).Nodup)
    {c : Component} (hc : c ∈ missingParts circuit ui) (rails : List Text) :
    Cleared circuit ui (placePart circuit.components rails st c) := by
  obtain ⟨spot, hplace, hfree⟩ := placePart_spot circuit.components rails st c
  rw [hplace]
  have hother : ∀ o : Component, o.id ≠ c.id → ∀ p,
      (st.positions.set c.id { spot with }).get? o.id = some p →
        st.positions.get? o.id = some p := by
    intro o hne p hp
    rwa [Map.get?_set_ne hne.symm] at hp
  have hself : ∀ o ∈ circuit.components, o.id = c.id → ∀ p,
      (st.positions.set c.id { spot with }).get? o.id = some p →
        o = c ∧ p = { spot with } := by
    intro o ho hid p hp
    rw [hid, Map.get?_set_self] at hp
    exact ⟨eq_of_missing hids hc ho hid, (Option.some.inj hp).symm⟩
  refine ⟨fun o ho p hp => ?_, fun x hx o ho hne p q hp hq => ?_⟩
  · by_cases hid : o.id = c.id
    · obtain ⟨rfl, rfl⟩ := hself o ho hid p hp
      exact List.mem_append_right _ (List.mem_singleton_self _)
    · exact List.mem_append_left _ (h.boxed o ho p (hother o hid p hp))
  · have hmem := (mem_missingParts.mp hx).1
    by_cases hid : x.id = c.id
    · obtain ⟨rfl, rfl⟩ := hself x hmem hid p hp
      exact hfree _ (h.boxed o ho q (hother o hne q hq))
    · have hp' := hother x hid p hp
      by_cases hid' : o.id = c.id
      · obtain ⟨rfl, rfl⟩ := hself o ho hid' q hq
        exact apart_symm (hfree _ (h.boxed x hmem p hp'))
      · exact h.clear x hx o ho hne p q hp' (hother o hid' q hq)

/-- Placing parts one after the other. -/
theorem Cleared.placeParts {circuit : CircuitJson} {ui : UiJson}
    (hids : ((missingParts circuit ui).map Component.id).Nodup) (rails : List Text) :
    ∀ (cs : List Component) {st : Placing}, Cleared circuit ui st →
      (∀ c ∈ cs, c ∈ missingParts circuit ui) →
      Cleared circuit ui (cs.foldl (CircuitForge.placePart circuit.components rails) st)
  | [], _, h, _ => h
  | c :: cs, st, h, hcs => by
    obtain ⟨hc, hcs⟩ := List.forall_mem_cons.mp hcs
    rw [List.foldl_cons]
    exact Cleared.placeParts hids rails cs (h.placePart hids hc rails) hcs

/-- Before the first new part there is nothing to keep apart. -/
theorem cleared_start (circuit : CircuitJson) (ui : UiJson) :
    Cleared circuit ui
      ⟨ui.positions, circuit.components.filterMap fun c => (ui.positions.get? c.id).map (boxAt c)⟩
    where
  boxed := fun c hc p hp => List.mem_filterMap.mpr ⟨c, hc, by rw [hp]; rfl⟩
  clear := fun c hc o _ _ p _ hp => by
    rw [(mem_missingParts.mp hc).2] at hp
    cases hp

/-- A part that was placed stays placed, and the parts placed get a position. -/
theorem placed_placeParts (parts : List Component) (rails : List Text) (id : Text) :
    ∀ (cs : List Component) (st : Placing),
      ((st.positions.get? id).isSome = true ∨ ∃ c ∈ cs, c.id = id) →
        ((cs.foldl (placePart parts rails) st).positions.get? id).isSome = true
  | [], _, h => h.elim (fun h => h) fun ⟨_, hc, _⟩ => by cases hc
  | c :: cs, st, h => by
    obtain ⟨spot, hplace, -⟩ := placePart_spot parts rails st c
    rw [List.foldl_cons]
    refine placed_placeParts parts rails id cs _ ?_
    rw [hplace]
    by_cases hid : c.id = id
    · subst hid
      exact .inl (by rw [Map.get?_set_self]; rfl)
    · rw [Map.get?_set_ne hid]
      refine h.imp_right fun ⟨o, ho, he⟩ => ?_
      rcases List.mem_cons.mp ho with rfl | ho
      · exact absurd he hid
      · exact ⟨o, ho, he⟩

/-- Every new position is upright. -/
theorem upright_placeParts (parts : List Component) (rails : List Text) {id : Text} :
    ∀ (cs : List Component) (st : Placing),
      (∀ p, st.positions.get? id = some p → ∃ xy : XY, p = { xy with }) →
        ∀ p, (cs.foldl (placePart parts rails) st).positions.get? id = some p →
          ∃ xy : XY, p = { xy with }
  | [], _, h => h
  | c :: cs, st, h => by
    obtain ⟨spot, hplace, -⟩ := placePart_spot parts rails st c
    rw [List.foldl_cons]
    refine upright_placeParts parts rails cs _ ?_
    rw [hplace]
    intro p hp
    by_cases hid : c.id = id
    · subst hid
      rw [Map.get?_set_self] at hp
      exact ⟨spot, (Option.some.inj hp).symm⟩
    · rw [Map.get?_set_ne hid] at hp
      exact h p hp

/-- `placeNewParts` as its fold over the parts without a position. -/
theorem placeNewParts_positions (circuit : CircuitJson) (ui : UiJson) :
    (placeNewParts circuit ui).positions =
      ((missingParts circuit ui).foldl (placePart circuit.components (sharedNets circuit))
        ⟨ui.positions, circuit.components.filterMap fun c =>
          (ui.positions.get? c.id).map (boxAt c)⟩).positions := by
  unfold placeNewParts missingParts
  simp only
  split
  · next hzero =>
    rw [List.length_eq_zero_iff.mp hzero]
    rfl
  · rfl

/-- Every part that had no position keeps a lattice step from every other part. -/
def KeepsClear (circuit : CircuitJson) (ui after : UiJson) : Prop :=
  ∀ (i j : Nat) (c o : Component) (p q : Position), i ≠ j → circuit.components[i]? = some c →
    circuit.components[j]? = some o → ui.positions.get? c.id = none →
      after.positions.get? c.id = some p → after.positions.get? o.id = some q →
        apart (boxAt c p) (boxAt o q) = true

/-- The parts without a position stand at their own places of the list. -/
theorem ids_missing_iff {circuit : CircuitJson} {ui : UiJson} :
    ((missingParts circuit ui).map Component.id).Nodup ↔
      ∀ (i j : Nat) (c o : Component), i ≠ j → circuit.components[i]? = some c →
        circuit.components[j]? = some o → ui.positions.get? c.id = none → o.id ≠ c.id := by
  rw [missingParts, List.Nodup, List.pairwise_map, List.pairwise_filter,
    List.pairwise_iff_getElem]
  constructor
  · intro h i j c o hij hc ho hnone he
    obtain ⟨hi, rfl⟩ := List.getElem?_eq_some_iff.mp hc
    obtain ⟨hj, rfl⟩ := List.getElem?_eq_some_iff.mp ho
    have hnone' := hnone
    rw [← he] at hnone'
    rcases Nat.lt_or_gt_of_ne hij with hlt | hlt
    · exact h i j hi hj hlt (by rw [hnone]; rfl) (by rw [hnone']; rfl) he.symm
    · exact h j i hj hi hlt (by rw [hnone']; rfl) (by rw [hnone]; rfl) he
  · intro h i j hi hj hlt hnone _ he
    exact h i j _ _ hlt.ne (List.getElem?_eq_getElem hi) (List.getElem?_eq_getElem hj)
      (Option.isNone_iff_eq_none.mp hnone) he.symm

/-- New parts of two ids keep clear of all others. -/
theorem keepsClear_of_ids {circuit : CircuitJson} {ui : UiJson}
    (hids : ((missingParts circuit ui).map Component.id).Nodup) :
    KeepsClear circuit ui (placeNewParts circuit ui) := by
  intro i j c o p q hij hc ho hnone hp hq
  have hclear := (cleared_start circuit ui).placeParts hids (sharedNets circuit)
    (missingParts circuit ui) fun c hc => hc
  rw [placeNewParts_positions] at hp hq
  exact hclear.clear c (mem_missingParts.mpr ⟨List.mem_of_getElem? hc, hnone⟩) o
    (List.mem_of_getElem? ho) (ids_missing_iff.mp hids i j c o hij hc ho hnone) p q hp hq

/-- Two new parts of one id lie on one spot. -/
theorem ids_of_keepsClear {circuit : CircuitJson} {ui : UiJson}
    (h : KeepsClear circuit ui (placeNewParts circuit ui)) :
    ((missingParts circuit ui).map Component.id).Nodup := by
  refine ids_missing_iff.mpr fun i j c o hij hc ho hnone he => ?_
  have hplaced := placed_placeParts circuit.components (sharedNets circuit) c.id
    (missingParts circuit ui)
    ⟨ui.positions, circuit.components.filterMap fun c => (ui.positions.get? c.id).map (boxAt c)⟩
    (.inr ⟨c, mem_missingParts.mpr ⟨List.mem_of_getElem? hc, hnone⟩, rfl⟩)
  obtain ⟨p, hp⟩ := Option.isSome_iff_exists.mp hplaced
  obtain ⟨xy, rfl⟩ := upright_placeParts circuit.components (sharedNets circuit) _ _
    (fun p hp => by rw [hnone] at hp; cases hp) p hp
  rw [← placeNewParts_positions] at hp
  have hapart := h i j c o _ _ hij hc ho hnone hp (he ▸ hp)
  rw [not_apart_upright] at hapart
  cases hapart

/-- Placing new parts moves no part and places every part; the new parts keep clear of every
other part exactly if no two of them share an id. -/
theorem placeNewParts_clear (circuit : CircuitJson) (ui : UiJson) :
    (∀ id at', ui.positions.get? id = some at' →
      (placeNewParts circuit ui).positions.get? id = some at') ∧
    (∀ c ∈ circuit.components, ((placeNewParts circuit ui).positions.get? c.id).isSome = true) ∧
    (KeepsClear circuit ui (placeNewParts circuit ui) ↔
      ((missingParts circuit ui).map Component.id).Nodup) := by
  refine ⟨fun id at' h => placeNewParts_keeps circuit h, fun c hc => ?_,
    ids_of_keepsClear, keepsClear_of_ids⟩
  rw [placeNewParts_positions]
  refine placed_placeParts circuit.components _ c.id _ _ ?_
  cases hpos : ui.positions.get? c.id with
  | some p => exact .inl rfl
  | none => exact .inr ⟨c, mem_missingParts.mpr ⟨hc, hpos⟩, rfl⟩

end

/-- Two new resistors of one id. -/
def twins : CircuitJson where
  components := [
    { id := "r1".toList, type := .resistor, designator := "R1".toList,
      pins := [⟨"1".toList, "a".toList⟩, ⟨"2".toList, "b".toList⟩] },
    { id := "r1".toList, type := .resistor, designator := "R2".toList,
      pins := [⟨"1".toList, "a".toList⟩, ⟨"2".toList, "b".toList⟩] }]
  nets := [{ id := "a".toList, name := "A".toList }, { id := "b".toList, name := "B".toList }]

theorem twins_meet : ¬ KeepsClear twins {} (placeNewParts twins {}) := fun h =>
  absurd (ids_of_keepsClear h) (by decide)

end CircuitForge
