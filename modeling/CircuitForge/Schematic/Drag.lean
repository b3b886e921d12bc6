/-
Dragging parts, over runs of position maps.

A wire follows the terminals its ends are recorded on.  Two shapes do not survive it: a
wire that has shrunk to a point has no second end left to keep, and a wire that folds
back at its first bend has no corner left to move.
-/
import CircuitForge.Js.Exact
import CircuitForge.Js.Runs
import CircuitForge.Schematic.Bends

namespace CircuitForge

open Js Runs

section

variable [Runtime]

/-! ## Terminals -/

/-- The terminals a component's symbol has, in the order of its pins. -/
def terminalsOf (c : Component) : List (PinConnection × SymbolPin) :=
  c.pins.filterMap fun pin =>
    ((symbolFor c).pins.find? (·.pinId = pin.pinId)).map fun sp => (pin, sp)

/-- A terminal of a part placed on the sheet. -/
def placeTerminal (at' : Position) (e : Component × PinConnection × SymbolPin) : SheetPin :=
  let sp := orientPin (at'.rotation.getD .deg0) at'.mirror e.2.2
  { componentId := e.1.id, pinId := e.2.1.pinId, netId := e.2.1.netId
    x := at'.x + sp.x, y := at'.y + sp.y, side := sp.side }

/-- The terminals a reference names. -/
def terminalsAt (circuit : CircuitJson) (ref : PinRef) :
    List (Component × PinConnection × SymbolPin) :=
  circuit.components.flatMap fun c =>
    if c.id = ref.componentId then
      ((terminalsOf c).filter (·.1.pinId = ref.pinId)).map fun t => (c, t)
    else []

theorem sheetPins_eq (circuit : CircuitJson) (positions : Map Text Position) :
    sheetPins circuit positions = circuit.components.flatMap fun c =>
      match positions.get? c.id with
      | none => []
      | some at' => (terminalsOf c).map fun t => placeTerminal at' (c, t) := by
  unfold sheetPins
  congr 1
  funext c
  cases positions.get? c.id with
  | none => rfl
  | some at' =>
    simp only [terminalsOf, List.map_filterMap]
    congr 1
    funext pin
    rw [orientSymbol]
    simp only [List.find?_map]
    have hfind : ((fun sp : SymbolPin => decide (sp.pinId = pin.pinId)) ∘
        orientPin (at'.rotation.getD .deg0) at'.mirror) =
        fun sp => decide (sp.pinId = pin.pinId) := rfl
    rw [hfind]
    cases (symbolFor c).pins.find? fun sp => decide (sp.pinId = pin.pinId) <;> rfl

/-- The terminal of a reference is the last it names, where its part is placed. -/
theorem get_pinMap (circuit : CircuitJson) (positions : Map Text Position) (ref : PinRef) :
    (pinMap circuit positions).get? ref =
      (positions.get? ref.componentId).bind fun at' =>
        (terminalsAt circuit ref).getLast?.map (placeTerminal at') := by
  rw [pinMap, Map.get?_fill, Map.get?_nil, Option.or_none, Option.map_id, id,
    ← List.getLast?_filter, sheetPins_eq, List.filter_flatMap]
  cases hat : positions.get? ref.componentId with
  | none =>
    rw [Option.bind_none, List.getLast?_eq_none_iff, List.flatMap_eq_nil_iff]
    intro c _
    rw [List.filter_eq_nil_iff]
    intro p hp hk
    cases hc : positions.get? c.id with
    | none =>
      rw [hc] at hp
      cases hp
    | some at' =>
      rw [hc] at hp
      obtain ⟨t, -, rfl⟩ := List.mem_map.mp hp
      rw [decide_eq_true_eq] at hk
      rw [show c.id = ref.componentId from congrArg PinRef.componentId hk, hat] at hc
      cases hc
  | some at' =>
    rw [Option.bind_some, ← List.getLast?_map, terminalsAt, List.map_flatMap]
    congr 2
    funext c
    by_cases hid : c.id = ref.componentId
    · rw [if_pos hid, hid, hat, List.map_map, List.filter_map]
      refine congrArg _ (List.filter_congr fun t _ => ?_)
      refine decide_eq_decide.mpr ⟨fun h => congrArg PinRef.pinId h, fun h => ?_⟩
      change (⟨c.id, t.1.pinId⟩ : PinRef) = ref
      rw [hid, h]
    · rw [if_neg hid, List.map_nil, List.filter_eq_nil_iff]
      intro p hp hk
      cases hc : positions.get? c.id with
      | none =>
        rw [hc] at hp
        cases hp
      | some at' =>
        rw [hc] at hp
        obtain ⟨t, -, rfl⟩ := List.mem_map.mp hp
        rw [decide_eq_true_eq] at hk
        exact hid (congrArg PinRef.componentId hk)

/-- A terminal that stays on the sheet keeps its net. -/
theorem get_pinMap_moved {circuit : CircuitJson} {before after : Map Text Position} {ref : PinRef}
    {p : SheetPin} (h : (pinMap circuit before).get? ref = some p)
    (hafter : (after.get? ref.componentId).isSome = true) :
    ∃ q, (pinMap circuit after).get? ref = some q ∧ q.netId = p.netId := by
  rw [get_pinMap] at h ⊢
  obtain ⟨at', hat⟩ := Option.isSome_iff_exists.mp hafter
  obtain ⟨at₀, -, h⟩ := Option.bind_eq_some_iff.mp h
  obtain ⟨t, ht, rfl⟩ := Option.map_eq_some_iff.mp h
  rw [hat, Option.bind_some, ht]
  exact ⟨_, rfl, rfl⟩

omit [Runtime] in
theorem flatMap_filter_of_nil {α β : Type} {xs : List α} {p : α → Bool} {f : α → List β}
    (h : ∀ x ∈ xs, p x = false → f x = []) : (xs.filter p).flatMap f = xs.flatMap f := by
  induction xs with
  | nil => rfl
  | cons x xs ih =>
    obtain ⟨hx, hxs⟩ := List.forall_mem_cons.mp h
    cases hp : p x with
    | false => rw [List.filter_cons_of_neg (by simp [hp]), ih hxs, List.flatMap_cons, hx hp,
        List.nil_append]
    | true => rw [List.filter_cons_of_pos hp, List.flatMap_cons, List.flatMap_cons, ih hxs]

theorem terminalsAt_filter (circuit : CircuitJson) (ids : List Text) (ref : PinRef) :
    terminalsAt { circuit with components := circuit.components.filter (·.id ∈ ids) } ref =
      if ref.componentId ∈ ids then terminalsAt circuit ref else [] := by
  unfold terminalsAt
  simp only
  by_cases hid : ref.componentId ∈ ids
  · rw [if_pos hid]
    refine flatMap_filter_of_nil fun c _ hc => if_neg fun he => ?_
    exact of_decide_eq_false hc (he ▸ hid)
  · rw [if_neg hid, List.flatMap_eq_nil_iff]
    intro c hc
    have hmem := of_decide_eq_true (List.mem_filter.mp hc).2
    exact if_neg fun he : c.id = ref.componentId => hid (he ▸ hmem)

/-- How far a terminal moves does not depend on looking at the moved parts only. -/
theorem delta_subset (circuit : CircuitJson) (ui : UiJson) (positions : Map Text Position)
    (ref : Option PinRef) :
    delta
        (pinMap { circuit with
          components := circuit.components.filter (·.id ∈ movedIds ui positions) } ui.positions)
        (pinMap { circuit with
          components := circuit.components.filter (·.id ∈ movedIds ui positions) } positions) ref =
      delta (pinMap circuit ui.positions) (pinMap circuit positions) ref := by
  cases ref with
  | none => rfl
  | some ref =>
    rw [delta, delta]
    simp only [get_pinMap, terminalsAt_filter]
    by_cases hid : ref.componentId ∈ movedIds ui positions
    · rw [if_pos hid]
    · rw [if_neg hid]
      simp only [List.getLast?_nil, Option.map_none]
      -- the part has its old position, or none in the new map
      cases hnew : positions.get? ref.componentId with
      | none => split <;> simp_all
      | some at' =>
        have hold : ui.positions.get? ref.componentId = some at' := by
          by_contra hne
          refine hid (List.mem_filter.mpr ⟨List.mem_map_of_mem (Map.mem_of_get? hnew), ?_⟩)
          rw [decide_eq_true_eq, hnew]
          exact fun h => hne h.symm
        rw [hold]
        simp only [Option.bind_some]
        cases (terminalsAt circuit ref).getLast? with
        | none => simp
        | some t => simp

/-! ## Wires in step -/

/-- A recorded end sits on its terminal, which is on the wire's net. -/
def EndInStep (pins : Map PinRef SheetPin) (w : Wire) (end' : Option PinRef)
    (at' : Option XY) : Prop :=
  ∀ ref, end' = some ref → ∃ p, pins.get? ref = some p ∧ p.netId = w.netId ∧ at' = some p.toXY

structure WireInStep (circuit : CircuitJson) (pins : Map PinRef SheetPin) (w : Wire) : Prop where
  net : w.netId ∈ circuit.nets.map Net.id
  fromEnd : EndInStep pins w w.fromRef w.points.head?
  toEnd : EndInStep pins w w.toRef w.points.getLast?

omit [Runtime] in
theorem endProblems_eq_nil {pins : Map PinRef SheetPin} {name : Text} {w : Wire}
    {end' : Option PinRef} {at' : Option XY} :
    endProblems pins name w end' at' = [] ↔ EndInStep pins w end' at' := by
  cases end' with
  | none => exact ⟨fun _ _ h => (nomatch h), fun _ => rfl⟩
  | some ref =>
    simp only [endProblems, EndInStep, Option.some.injEq, forall_eq']
    cases hp : pins.get? ref with
    | none => simp
    | some p =>
      by_cases hn : p.netId = w.netId
      · by_cases ha : at' = some p.toXY
        · simp [hn, ha]
        · simp [hn, ha]
      · simp [hn]

theorem wireProblems_eq_nil {circuit : CircuitJson} {pins : Map PinRef SheetPin} {w : Wire}
    {i : Nat} : wireProblems circuit pins w i = [] ↔ WireInStep circuit pins w := by
  rw [wireProblems, List.append_eq_nil_iff, List.append_eq_nil_iff, endProblems_eq_nil,
    endProblems_eq_nil]
  constructor
  · rintro ⟨⟨hn, hf⟩, ht⟩
    refine ⟨?_, hf, ht⟩
    by_contra hnet
    rw [if_pos hnet] at hn
    cases hn
  · rintro ⟨hn, hf, ht⟩
    exact ⟨⟨if_neg (not_not.mpr hn), hf⟩, ht⟩

/-- A drawing without problems has every wire in step. -/
theorem drawingProblems_eq_nil {circuit : CircuitJson} {ui : UiJson} :
    drawingProblems circuit ui = [] ↔
      ∀ wires, ui.wires = some wires → ∀ w ∈ wires,
        WireInStep circuit (pinMap circuit ui.positions) w := by
  unfold drawingProblems
  cases hw : ui.wires with
  | none => simp
  | some wires =>
    simp only [List.flatten_eq_nil_iff, Option.some.injEq, forall_eq']
    constructor
    · intro h w hmem
      obtain ⟨i, hi, rfl⟩ := List.getElem_of_mem hmem
      exact wireProblems_eq_nil.mp (h _ (List.mem_mapIdx.mpr ⟨i, hi, rfl⟩))
    · intro h problems hmem
      obtain ⟨i, hi, rfl⟩ := List.mem_mapIdx.mp hmem
      exact wireProblems_eq_nil.mpr (h _ (List.getElem_mem hi))

/-! ## One wire -/

/-- The wire can follow its ends: they move alike, or it is more than a point where both
are recorded, and where it is at right angles each moved end has a corner to move. -/
def CanFollow (w : Wire) (h t : Option (XY × XY)) : Prop :=
  match h, t with
  | none, none => True
  | some h, some t =>
    (h.2.x - h.1.x = t.2.x - t.1.x ∧ h.2.y - h.1.y = t.2.y - t.1.y) ∨
      (1 < w.points.length ∧ (AtRightAngles w.points →
        Turns w.points h.2 ∧ Turns (moveEnd w.points true h.2).reverse t.2))
  | some h, none =>
    (1 < w.points.length ∨ w.toRef = none) ∧ (AtRightAngles w.points → Turns w.points h.2)
  | none, some t =>
    (1 < w.points.length ∨ w.fromRef = none) ∧
      (AtRightAngles w.points → Turns w.points.reverse t.2)

omit [Runtime] in
theorem moveWire_same (w : Wire) (h t : Option (XY × XY)) :
    (moveWire w h t).netId = w.netId ∧ (moveWire w h t).fromRef = w.fromRef ∧
      (moveWire w h t).toRef = w.toRef := by
  unfold moveWire
  repeat' split
  all_goals exact ⟨rfl, rfl, rfl⟩

omit [Runtime] in
theorem atRightAngles_moveWire {w : Wire} {h t : Option (XY × XY)} (hw : AtRightAngles w.points)
    (hcan : CanFollow w h t) : AtRightAngles (moveWire w h t).points := by
  unfold moveWire
  unfold CanFollow at hcan
  cases h with
  | none =>
    cases t with
    | none => exact hw
    | some t => exact atRightAngles_tidyPoints (atRightAngles_moveTail hw (hcan.2 hw))
  | some h =>
    cases t with
    | none => exact atRightAngles_tidyPoints (atRightAngles_moveHead hw (hcan.2 hw))
    | some t =>
      simp only at hcan ⊢
      by_cases halike : h.2.x - h.1.x = t.2.x - t.1.x ∧ h.2.y - h.1.y = t.2.y - t.1.y
      · rw [if_pos halike]
        exact atRightAngles_shift hw
      · rw [if_neg halike]
        obtain ⟨hh, ht⟩ := (hcan.resolve_left halike).2 hw
        exact atRightAngles_tidyPoints (atRightAngles_moveTail (atRightAngles_moveHead hw hh) ht)

/-- The end moved from one point to another, or stayed. -/
def Went (d : Option (XY × XY)) (a b : XY) : Prop := (d = none ∧ b = a) ∨ d = some (a, b)

omit [Runtime] in
theorem went_delta {before after : Map PinRef SheetPin} {ref : PinRef} {p q : SheetPin}
    (hb : before.get? ref = some p) (ha : after.get? ref = some q) :
    Went (delta before after (some ref)) p.toXY q.toXY := by
  rw [delta, hb, ha]
  simp only
  by_cases hmoved : p.x ≠ q.x ∨ p.y ≠ q.y
  · rw [if_pos hmoved]
    exact .inr rfl
  · rw [if_neg hmoved]
    simp only [not_or, not_not] at hmoved
    exact .inl ⟨rfl, XY.ext hmoved.1.symm hmoved.2.symm⟩

omit [Runtime] in
theorem head_moveWire {w : Wire} {h t : Option (XY × XY)} {a b : XY} (hcan : CanFollow w h t)
    (hrec : w.fromRef ≠ none) (hhead : w.points.head? = some a) (hw : Went h a b) :
    (moveWire w h t).points.head? = some b := by
  unfold moveWire
  unfold CanFollow at hcan
  rcases hw with ⟨rfl, rfl⟩ | rfl
  · cases t with
    | none => exact hhead
    | some t =>
      simp only at hcan ⊢
      rw [head_tidyPoints, head_moveTail (hcan.1.resolve_right hrec), hhead]
  · cases t with
    | none => rw [head_tidyPoints, moveEnd_head, head_moveHead]
    | some t =>
      simp only at hcan ⊢
      by_cases halike : b.x - a.x = t.2.x - t.1.x ∧ b.y - a.y = t.2.y - t.1.y
      · rw [if_pos halike, head_shift, hhead, Option.map_some]
        simp
      · rw [if_neg halike, head_tidyPoints, head_moveTail, moveEnd_head, head_moveHead]
        exact length_moveHead (hcan.resolve_left halike).1 _

omit [Runtime] in
theorem getLast_moveWire {w : Wire} {h t : Option (XY × XY)} {a b : XY} (hcan : CanFollow w h t)
    (hrec : w.toRef ≠ none) (hlast : w.points.getLast? = some a) (hw : Went t a b) :
    (moveWire w h t).points.getLast? = some b := by
  unfold moveWire
  unfold CanFollow at hcan
  rcases hw with ⟨rfl, rfl⟩ | rfl
  · cases h with
    | none => exact hlast
    | some h =>
      simp only at hcan ⊢
      rw [getLast_tidyPoints, moveEnd_head, getLast_moveHead (hcan.1.resolve_right hrec), hlast]
  · cases h with
    | none => rw [getLast_tidyPoints, getLast_moveTail]
    | some h =>
      simp only at hcan ⊢
      by_cases halike : h.2.x - h.1.x = b.x - a.x ∧ h.2.y - h.1.y = b.y - a.y
      · rw [if_pos halike, getLast_shift, hlast, Option.map_some, halike.1, halike.2]
        simp
      · rw [if_neg halike, getLast_tidyPoints, getLast_moveTail]

/-! ## One map -/

/-- The parts that wires end on have a place in the map, and every wire can follow. -/
def DragMeets (circuit : CircuitJson) (ui : UiJson) (positions : Map Text Position) : Prop :=
  ∀ wires, ui.wires = some wires → ∀ w ∈ wires,
    (∀ ref, w.fromRef = some ref ∨ w.toRef = some ref →
      (positions.get? ref.componentId).isSome = true) ∧
    CanFollow w (delta (pinMap circuit ui.positions) (pinMap circuit positions) w.fromRef)
      (delta (pinMap circuit ui.positions) (pinMap circuit positions) w.toRef)

theorem wireInStep_moveWire {circuit : CircuitJson} {before after : Map Text Position} {w : Wire}
    (h : WireInStep circuit (pinMap circuit before) w)
    (hplaced : ∀ ref, w.fromRef = some ref ∨ w.toRef = some ref →
      (after.get? ref.componentId).isSome = true)
    (hcan : CanFollow w (delta (pinMap circuit before) (pinMap circuit after) w.fromRef)
      (delta (pinMap circuit before) (pinMap circuit after) w.toRef)) :
    WireInStep circuit (pinMap circuit after)
      (moveWire w (delta (pinMap circuit before) (pinMap circuit after) w.fromRef)
        (delta (pinMap circuit before) (pinMap circuit after) w.toRef)) := by
  obtain ⟨hnet, hfrom, hto⟩ := moveWire_same w
    (delta (pinMap circuit before) (pinMap circuit after) w.fromRef)
    (delta (pinMap circuit before) (pinMap circuit after) w.toRef)
  refine ⟨by rw [hnet]; exact h.net, ?_, ?_⟩
  · rw [hfrom]
    intro ref href
    obtain ⟨p, hp, hpn, hat⟩ := h.fromEnd ref href
    obtain ⟨q, hq, hqn⟩ := get_pinMap_moved hp (hplaced ref (.inl href))
    refine ⟨q, hq, by rw [hqn, hpn, hnet], ?_⟩
    exact head_moveWire hcan (by rw [href]; exact Option.some_ne_none ref) hat
      (by rw [href]; exact went_delta hp hq)
  · rw [hto]
    intro ref href
    obtain ⟨p, hp, hpn, hat⟩ := h.toEnd ref href
    obtain ⟨q, hq, hqn⟩ := get_pinMap_moved hp (hplaced ref (.inr href))
    refine ⟨q, hq, by rw [hqn, hpn, hnet], ?_⟩
    exact getLast_moveWire hcan (by rw [href]; exact Option.some_ne_none ref) hat
      (by rw [href]; exact went_delta hp hq)

/-- The wires of the drawing, in order. -/
def UiJson.drawn (ui : UiJson) : List Wire := ui.wires.getD []

omit [Runtime] in
theorem moveWire_none (w : Wire) : moveWire w none none = w := rfl

/-- Every wire of the drawing follows its ends. -/
theorem withPositions_wires (circuit : CircuitJson) (ui : UiJson) (positions : Map Text Position) :
    (withPositions circuit ui positions).positions = positions ∧
      (withPositions circuit ui positions).wires = ui.wires.map (List.map fun w =>
        moveWire w (delta (pinMap circuit ui.positions) (pinMap circuit positions) w.fromRef)
          (delta (pinMap circuit ui.positions) (pinMap circuit positions) w.toRef)) := by
  unfold withPositions
  cases hw : ui.wires with
  | none => exact ⟨rfl, rfl⟩
  | some wires =>
    simp only
    by_cases hids : (movedIds ui positions).length = 0
    · rw [if_pos hids]
      refine ⟨rfl, ?_⟩
      have hstill (ref : Option PinRef) :
          delta (pinMap circuit ui.positions) (pinMap circuit positions) ref = none := by
        rw [← delta_subset, List.length_eq_zero_iff.mp hids]
        cases ref with
        | none => rfl
        | some ref =>
          rw [delta]
          simp [get_pinMap, terminalsAt]
      simp only [hstill, moveWire_none, Option.map_some, List.map_id']
    · rw [if_neg hids]
      refine ⟨rfl, ?_⟩
      simp only [delta_subset, Option.map_some]

/-! ## Runs -/

/-- One map applied. -/
def drag (circuit : CircuitJson) (ui : UiJson) (positions : Map Text Position) : Option UiJson :=
  some (withPositions circuit ui positions)

/-- No problems, and every wire that was at right angles at the start still is. -/
def KeepsWires (circuit : CircuitJson) (start ui : UiJson) : Prop :=
  drawingProblems circuit ui = [] ∧
    List.Forall₂ (fun w w' => AtRightAngles w.points → AtRightAngles w'.points) start.drawn ui.drawn

omit [Runtime] in
theorem forall₂_and {α β : Type} {R : α → β → Prop} {P : β → Prop} {xs : List α} {ys : List β}
    (h : List.Forall₂ R xs ys) (hp : ∀ y ∈ ys, P y) :
    List.Forall₂ (fun x y => R x y ∧ P y) xs ys := by
  induction h with
  | nil => exact .nil
  | cons hr _ ih =>
    obtain ⟨hy, hys⟩ := List.forall_mem_cons.mp hp
    exact .cons ⟨hr, hy⟩ (ih hys)

theorem keepsWires_withPositions {circuit : CircuitJson} {start ui : UiJson}
    {positions : Map Text Position} (h : KeepsWires circuit start ui)
    (hmeets : DragMeets circuit ui positions) :
    KeepsWires circuit start (withPositions circuit ui positions) := by
  obtain ⟨hpositions, hwires⟩ := withPositions_wires circuit ui positions
  obtain ⟨hproblems, hangles⟩ := h
  rw [drawingProblems_eq_nil] at hproblems
  refine ⟨?_, ?_⟩
  · rw [drawingProblems_eq_nil, hpositions, hwires]
    intro wires hw w' hw'
    obtain ⟨wires₀, hw₀, rfl⟩ := Option.map_eq_some_iff.mp hw
    obtain ⟨w, hmem, rfl⟩ := List.mem_map.mp hw'
    obtain ⟨hplaced, hcan⟩ := hmeets wires₀ hw₀ w hmem
    exact wireInStep_moveWire (hproblems wires₀ hw₀ w hmem) hplaced hcan
  · rw [UiJson.drawn, UiJson.drawn, hwires]
    cases hw : ui.wires with
    | none =>
      rw [UiJson.drawn, UiJson.drawn, hw] at hangles
      exact hangles
    | some wires =>
      rw [UiJson.drawn, UiJson.drawn, hw] at hangles
      rw [Option.map_some, Option.getD_some, List.forall₂_map_right_iff]
      exact (forall₂_and hangles fun w hmem => (hmeets wires hw w hmem).2).imp
        fun w w' hboth hangle => atRightAngles_moveWire (hboth.1 hangle) hboth.2

end

/-- Two resistors with a wire between them. -/
def wiredPair : CircuitJson where
  components := [
    { id := "r1".toList, type := .resistor, designator := "R1".toList,
      pins := [⟨"1".toList, "a".toList⟩, ⟨"2".toList, "m".toList⟩] },
    { id := "r2".toList, type := .resistor, designator := "R2".toList,
      pins := [⟨"1".toList, "m".toList⟩, ⟨"2".toList, "b".toList⟩] }]
  nets := [{ id := "a".toList, name := "A".toList }, { id := "m".toList, name := "M".toList },
    { id := "b".toList, name := "B".toList }]

/-- `R1` at the origin, `R2` beside it. -/
def pairAt (x y : Rat) : Map Text Position :=
  [("r1".toList, { x := 0, y := 0 }), ("r2".toList, { x, y })]

def pairDrawing : UiJson where
  positions := pairAt 60 0
  wires := some [{
    id := some "w1".toList, netId := "m".toList, points := [⟨20, 0⟩, ⟨40, 0⟩]
    fromRef := some ⟨"r1".toList, "2".toList⟩, toRef := some ⟨"r2".toList, "1".toList⟩ }]

end CircuitForge
