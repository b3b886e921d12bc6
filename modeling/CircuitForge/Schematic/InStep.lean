/-
Commits keep the drawing and the netlist in step.

A wire that stays ends on terminals that exist, are on its net and sit where it ends.
The last of these is not looked at: a part that is deleted and comes back under its id
keeps its place and its wires, wherever its new symbol has its pins.
-/
import CircuitForge.Editor.CopiedPins
import CircuitForge.Schematic.Conductors
import CircuitForge.Schematic.Gestures

namespace CircuitForge

open Js Runs

section

variable [Runtime]

theorem wired_edited {circuit after : CircuitJson} {edit : KernelEdit} (h : Wired circuit)
    (hs : edited circuit edit = some after) : Wired after := by
  cases edit with
  | setDesignator =>
    obtain rfl | ⟨_, rfl, -⟩ := setDesignator_result hs
    · exact h
    · exact h.replaceComponent _ (fun _ => rfl) fun _ => rfl
  | setValue =>
    obtain rfl | ⟨_, rfl⟩ := setValue_result hs
    · exact h
    · exact h.replaceComponent _ (fun _ => rfl) fun _ => rfl
  | setNetName =>
    obtain rfl | ⟨_, rfl, -⟩ := setNetName_result hs
    · exact h
    · exact h.renamed _ _
  | connectPins =>
    obtain rfl | ⟨_, hkeep, _, hne, rfl⟩ := connectPins_result hs
    · exact h
    · exact h.absorb hkeep hne
  | disconnectPin =>
    obtain ⟨_, _, -, ⟨rfl, -⟩ | ⟨rfl, -⟩⟩ := disconnectPin_result hs
    · exact h
    · exact h.rekey_fresh _
  | movePinToNet =>
    obtain ⟨hnet, _, _, -, ⟨-, rfl⟩ | ⟨hne, rfl⟩⟩ := movePinToNet_result hs
    · exact h
    · exact h.netsLeft hnet hne
  | splitNet =>
    obtain ⟨rfl, -⟩ := splitNet_result hs
    exact h.rekey_fresh _
  | addComponent =>
    obtain ⟨rfl, -, -, hfit⟩ := addComponent_cases hs
    exact h.withPart hfit.id hfit.declared
  | deleteComponent =>
    obtain ⟨target, -, -, rfl⟩ := deleteComponent_result hs
    exact h.withoutPart target
  | duplicateComponents => exact h.duplicateComponents hs

/-! ## Spots -/

/-- Where the symbol of a part has the terminal that a reference names. -/
def spotAt (circuit : CircuitJson) (ref : PinRef) : Option (Int × Int) :=
  (terminalsAt circuit ref).getLast?.map fun t => (t.2.2.x, t.2.2.y)

omit [Runtime] in
/-- A spot of a symbol, on the sheet. -/
def placeSpot (at' : Position) (spot : Int × Int) : XY :=
  let p := rotatePoint (at'.rotation.getD .deg0) (mirrorPoint at'.mirror spot)
  ⟨at'.x + p.1, at'.y + p.2⟩

/-- A pin that is there has a spot on its symbol if it had one, and the same. -/
def SamePins (before after : CircuitJson) : Prop :=
  ∀ ref spot, spotAt before ref = some spot → (∃ netId, (ref, netId) ∈ pinsOf after) →
    spotAt after ref = some spot

theorem get_pinMap_iff {circuit : CircuitJson} {positions : Map Text Position} {ref : PinRef}
    {point : XY} :
    (∃ p, (pinMap circuit positions).get? ref = some p ∧ p.toXY = point) ↔
      ∃ at' spot, positions.get? ref.componentId = some at' ∧ spotAt circuit ref = some spot ∧
        placeSpot at' spot = point := by
  rw [get_pinMap]
  constructor
  · rintro ⟨p, hp, rfl⟩
    obtain ⟨at', hat, hp⟩ := Option.bind_eq_some_iff.mp hp
    obtain ⟨t, ht, rfl⟩ := Option.map_eq_some_iff.mp hp
    exact ⟨at', _, hat, by rw [spotAt, ht, Option.map_some], rfl⟩
  · rintro ⟨at', spot, hat, hspot, rfl⟩
    obtain ⟨t, ht, rfl⟩ := Option.map_eq_some_iff.mp hspot
    refine ⟨placeTerminal at' t, ?_, rfl⟩
    rw [hat, Option.bind_some, ht, Option.map_some]

omit [Runtime] in
/-- One of distinct elements picked out of a list. -/
theorem flatMap_of_key {α β : Type} {xs : List α} {key : α → Text} (h : (xs.map key).Nodup)
    {x : α} (hx : x ∈ xs) (f : α → List β) :
    (xs.flatMap fun y => if key y = key x then f y else []) = f x := by
  induction xs with
  | nil => cases hx
  | cons y xs ih =>
    rw [List.map_cons, List.nodup_cons] at h
    rw [List.flatMap_cons]
    rcases List.mem_cons.mp hx with rfl | hmem
    · have hnil : (xs.flatMap fun z => if key z = key x then f z else []) = [] := by
        rw [List.flatMap_eq_nil_iff]
        exact fun z hz => if_neg fun he : key z = key x => h.1 (he ▸ List.mem_map_of_mem hz)
      rw [if_pos rfl, hnil, List.append_nil]
    · have hne : key y ≠ key x := fun he => h.1 (he ▸ List.mem_map_of_mem hmem)
      rw [if_neg hne, List.nil_append, ih h.2 hmem]

theorem get_pinNets (circuit : CircuitJson) (ref : PinRef) :
    (pinNets circuit).get? ref = (circuit.components.flatMap fun c =>
      if c.id = ref.componentId then c.pins.filter (·.pinId = ref.pinId) else []).getLast?.map
        PinConnection.netId := by
  rw [pinNets, Map.get?_fill, Map.get?_nil, Option.or_none, ← List.getLast?_filter, pinsOf,
    List.filter_flatMap]
  have hpins (c : Component) :
      (c.pins.map fun p => ((⟨c.id, p.pinId⟩ : PinRef), p.netId)).filter (·.1 = ref) =
        (if c.id = ref.componentId then c.pins.filter (·.pinId = ref.pinId) else []).map
          fun p => (ref, p.netId) := by
    by_cases hid : c.id = ref.componentId
    · rw [if_pos hid, List.filter_map]
      have hkey : ∀ p : PinConnection, (⟨c.id, p.pinId⟩ : PinRef) = ref ↔ p.pinId = ref.pinId := by
        intro p
        cases ref
        simp [hid]
      have hfilter : (c.pins.filter ((fun e : PinRef × Text => decide (e.1 = ref)) ∘
          fun p => (⟨c.id, p.pinId⟩, p.netId))) = c.pins.filter (·.pinId = ref.pinId) :=
        List.filter_congr fun p _ => decide_eq_decide.mpr (hkey p)
      rw [hfilter]
      refine List.map_congr_left fun p hp => ?_
      have := of_decide_eq_true (List.mem_filter.mp hp).2
      rw [(hkey p).mpr this]
    · rw [if_neg hid, List.map_nil, List.filter_eq_nil_iff]
      rintro e he hk
      obtain ⟨p, -, rfl⟩ := List.mem_map.mp he
      exact hid (congrArg PinRef.componentId (of_decide_eq_true hk))
  simp only [hpins]
  rw [← List.map_flatMap, List.getLast?_map, Option.map_map]
  rfl

/-- The terminal of a reference is on the net that its pin is on. -/
theorem netId_pinMap {circuit : CircuitJson} (h : Wired circuit)
    {positions : Map Text Position} {ref : PinRef} {p : SheetPin}
    (hp : (pinMap circuit positions).get? ref = some p) :
    (pinNets circuit).get? ref = some p.netId := by
  rw [get_pinMap] at hp
  obtain ⟨at', -, hp⟩ := Option.bind_eq_some_iff.mp hp
  obtain ⟨t, ht, rfl⟩ := Option.map_eq_some_iff.mp hp
  obtain ⟨c, hc, htc⟩ := List.mem_flatMap.mp (List.mem_of_getLast? ht)
  by_cases hid : c.id = ref.componentId
  · rw [if_pos hid] at htc
    obtain ⟨⟨pin, sp⟩, hpin, rfl⟩ := List.mem_map.mp htc
    obtain ⟨hpin, hpid⟩ := List.mem_filter.mp hpin
    obtain ⟨pin', -, hsp⟩ := List.mem_filterMap.mp hpin
    obtain ⟨sp', hsp, he⟩ := Option.map_eq_some_iff.mp hsp
    cases he
    rw [decide_eq_true_eq] at hpid
    have hall : ((terminalsOf c).filter (·.1.pinId = ref.pinId)) =
        (c.pins.filter (·.pinId = ref.pinId)).map fun p => (p, sp) := by
      rw [terminalsOf, List.filter_filterMap]
      induction c.pins with
      | nil => rfl
      | cons q qs ih =>
        by_cases hq : q.pinId = ref.pinId
        · have hfind : (symbolFor c).pins.find? (·.pinId = q.pinId) = some sp := by
            rw [hq, ← hpid]
            exact hsp
          rw [List.filterMap_cons, hfind, List.filter_cons_of_pos (by simpa using hq),
            List.map_cons, ← ih]
          simp [Option.filter, hq]
        · rw [List.filterMap_cons, List.filter_cons_of_neg (by simpa using hq), ← ih]
          cases (symbolFor c).pins.find? (·.pinId = q.pinId) with
          | none => rfl
          | some sp' => simp [Option.filter, hq]
    rw [terminalsAt, ← hid, flatMap_of_key h.componentIds hc
      fun c => ((terminalsOf c).filter (·.1.pinId = ref.pinId)).map fun t => (c, t)] at ht
    rw [hall, List.map_map, List.getLast?_map, Option.map_eq_some_iff] at ht
    obtain ⟨q, hq, he⟩ := ht
    cases he
    rw [get_pinNets, ← hid, flatMap_of_key h.componentIds hc
      fun c => c.pins.filter (·.pinId = ref.pinId), hq]
    rfl
  · rw [if_neg hid] at htc
    cases htc

/-! ## Edits that move pins -/

theorem symbolFor_repoint (c : Component) (moves : PinConnection → Bool) (netId : Text) :
    symbolFor (c.repoint moves netId) = symbolFor c := by
  have hids : (c.repoint moves netId).pins.mapIdx (fun i p =>
      if p.pinId = [] then Nat.toDigits 10 (i + 1) else p.pinId) =
      c.pins.mapIdx fun i p => if p.pinId = [] then Nat.toDigits 10 (i + 1) else p.pinId := by
    refine List.ext_getElem? fun i => ?_
    rw [List.getElem?_mapIdx, List.getElem?_mapIdx, Component.repoint, List.getElem?_map,
      Option.map_map]
    congr 1
    funext p
    simp only [Function.comp_apply]
    split <;> rfl
  rw [symbolFor, symbolFor, hids]
  rfl

theorem terminalsOf_repoint (c : Component) (moves : PinConnection → Bool) (netId : Text) :
    terminalsOf (c.repoint moves netId) =
      (terminalsOf c).map fun t => (if moves t.1 then { t.1 with netId } else t.1, t.2) := by
  rw [terminalsOf, terminalsOf, symbolFor_repoint, Component.repoint, List.filterMap_map,
    List.map_filterMap]
  congr 1
  funext pin
  have hpin : (if moves pin then { pin with netId } else pin).pinId = pin.pinId := by
    split <;> rfl
  rw [Function.comp_apply, hpin, Option.map_map]
  rfl

/-- Pins moved to another net stay where they are on the sheet. -/
theorem spotAt_moveAll (circuit : CircuitJson) (moves : PinRef → PinConnection → Bool)
    (netId : Text) (nets : List Net) (ref : PinRef) :
    spotAt { circuit with components := moveAll circuit.components moves netId, nets } ref =
      spotAt circuit ref := by
  rw [spotAt, spotAt, ← List.getLast?_map, ← List.getLast?_map, terminalsAt, terminalsAt, moveAll,
    List.flatMap_map, List.map_flatMap, List.map_flatMap]
  congr 2
  funext c
  have hsame : (c.repoint (fun p => moves ⟨c.id, p.pinId⟩ p) netId).id = c.id := rfl
  rw [hsame]
  by_cases hid : c.id = ref.componentId
  · have hfilter (t : PinConnection × SymbolPin) :
        (if moves ⟨c.id, t.1.pinId⟩ t.1 then { t.1 with netId } else t.1).pinId = t.1.pinId := by
      split <;> rfl
    rw [if_pos hid, if_pos hid, terminalsOf_repoint, List.filter_map, List.map_map, List.map_map,
      List.map_map]
    simp only [Function.comp_def, hfilter]
  · rw [if_neg hid, if_neg hid, List.map_nil]

/-! ## The drawing after an edit -/

/-- An end that is recorded on a pin that is there sits on the terminal of it. -/
def EndSits (circuit : CircuitJson) (positions : Map Text Position) (end' : Option PinRef)
    (at' : Option XY) : Prop :=
  ∀ ref, end' = some ref → (∃ netId, (ref, netId) ∈ pinsOf circuit) →
    ∃ p, (pinMap circuit positions).get? ref = some p ∧ at' = some p.toXY

structure WireSits (circuit : CircuitJson) (positions : Map Text Position) (w : Wire) : Prop where
  fromEnd : EndSits circuit positions w.fromRef w.points.head?
  toEnd : EndSits circuit positions w.toRef w.points.getLast?

/-- An end that sits on a terminal is in step with a net its pin is on. -/
theorem EndSits.inStep {circuit : CircuitJson} (h : Wired circuit)
    {positions positions' : Map Text Position} {w : Wire} {end' : Option PinRef} {at' : Option XY}
    (hsits : EndSits circuit positions end' at')
    (hkeep : ∀ id p, positions.get? id = some p → positions'.get? id = some p)
    (hnets : ∀ ref, end' = some ref → (pinNets circuit).get? ref = some w.netId) :
    EndInStep (pinMap circuit positions') w end' at' := by
  intro ref href
  have hnet := hnets ref href
  obtain ⟨p, hp, hat⟩ := hsits ref href ⟨_, mem_of_get_pinNets hnet⟩
  obtain ⟨place, spot, hplace, hspot, hpoint⟩ := get_pinMap_iff.mp ⟨p, hp, rfl⟩
  obtain ⟨q, hq, hqp⟩ := get_pinMap_iff.mpr ⟨place, spot, hkeep _ _ hplace, hspot, hpoint⟩
  refine ⟨q, hq, ?_, hat.trans (congrArg some hqp.symm)⟩
  exact Option.some.inj ((netId_pinMap h hq).symm.trans hnet)

/-- Where the wires sit on the terminals that are there, `syncDrawing` leaves a drawing in
step, every part where it was and every wire that stays as it was. -/
theorem syncDrawing_keeps {circuit : CircuitJson} (h : Wired circuit) {ui : UiJson}
    {before : List Wire} (hwires : ui.wires = some before)
    (hlabels : ∀ w ∈ before, w.netId ≠ deadNet)
    (hsits : ∀ w ∈ before, WireSits circuit ui.positions w) :
    drawingProblems circuit (syncDrawing circuit ui) = [] ∧
      (∀ id p, ui.positions.get? id = some p →
        (syncDrawing circuit ui).positions.get? id = some p) ∧
      ((syncDrawing circuit ui).drawn.map Wire.line).Sublist (before.map Wire.line) := by
  have hsync : syncDrawing circuit ui =
      placeNewParts circuit { ui with wires := some (syncWires circuit before) } := by
    rw [syncDrawing, hwires]
  have hdrawn : (syncDrawing circuit ui).wires = some (syncWires circuit before) := by
    rw [hsync, placeNewParts_wires]
  have hkeep : ∀ id p, ui.positions.get? id = some p →
      (syncDrawing circuit ui).positions.get? id = some p := by
    intro id p hp
    rw [hsync]
    exact placeNewParts_keeps circuit hp
  have hlines := syncWires_lines circuit before
  refine ⟨?_, hkeep, ?_⟩
  · rw [drawingProblems_eq_nil, hdrawn]
    rintro _ ⟨⟩ w' hw'
    obtain ⟨hnet, hends⟩ := mem_syncWires h.declared hlabels hw'
    obtain ⟨w, hw, hline⟩ := List.mem_map.mp (hlines.subset (List.mem_map_of_mem hw'))
    have hpoints : w.points = w'.points := (congrArg Wire.points hline :)
    have hfrom : w.fromRef = w'.fromRef := (congrArg Wire.fromRef hline :)
    have hto : w.toRef = w'.toRef := (congrArg Wire.toRef hline :)
    obtain ⟨hsitsFrom, hsitsTo⟩ := hsits w hw
    rw [hfrom, hpoints] at hsitsFrom
    rw [hto, hpoints] at hsitsTo
    refine ⟨hnet, hsitsFrom.inStep h hkeep fun ref href => hends ref ?_,
      hsitsTo.inStep h hkeep fun ref href => hends ref ?_⟩
    · exact List.mem_append_left _ (Option.mem_toList.mpr href)
    · exact List.mem_append_right _ (Option.mem_toList.mpr href)
  · rw [UiJson.drawn, hdrawn, Option.getD_some]
    exact hlines

end

end CircuitForge
