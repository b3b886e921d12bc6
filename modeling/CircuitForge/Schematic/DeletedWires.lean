/-
What a deletion of wires parts.

Each piece that comes off its island goes to a fresh net, all together, and every other pin
stays where it was.  The wires that are left end within one piece, so bringing the drawing in
step drops none of them.
-/
import CircuitForge.Schematic.DrawnWires
import CircuitForge.Schematic.Pieces

namespace CircuitForge

open Js Relation Classes

section

variable [Runtime]

/-! ## Splitting off -/

/-- The circuit with some pins on a fresh net. -/
def splitInto (circuit : CircuitJson) (take : List PinRef) : CircuitJson :=
  rekey circuit take.dedup (freshNet circuit).id (circuit.nets ++ [freshNet circuit])

/-- Every net has an id that is not empty. -/
def Named (circuit : CircuitJson) : Prop := ∀ net ∈ circuit.nets, net.id ≠ []

/-- What a circuit has become with some pins split off. -/
structure SplitsOff (circuit after : CircuitJson) (takes : List (List PinRef)) : Prop where
  wired : WellWired after
  named : Named after
  nets : circuit.nets <+: after.nets
  stays : ∀ ref, (∀ take ∈ takes, ref ∉ take) →
    ∀ netId, (ref, netId) ∈ pinsOf after ↔ (ref, netId) ∈ pinsOf circuit
  moved : ∀ take ∈ takes, ∀ ref ∈ take, ∀ netId, (ref, netId) ∈ pinsOf after →
    netId ∉ circuit.nets.map Net.id
  sameNet : ∀ p q, SameNet after p q ↔
    SameNet circuit p q ∧ ∀ take ∈ takes, (p ∈ take ↔ q ∈ take)

/-- Some pins of one net, and another of that net that is in none of the lists. -/
def Splittable (circuit : CircuitJson) (takes : List (List PinRef)) (take : List PinRef) : Prop :=
  take ≠ [] ∧ ∃ netId, (∀ ref ∈ take, (ref, netId) ∈ pinsOf circuit) ∧
    ∃ keeper, (keeper, netId) ∈ pinsOf circuit ∧ ∀ take' ∈ takes, keeper ∉ take'

theorem mem_pinsOf_splitInto {circuit : CircuitJson} {take : List PinRef} {ref : PinRef}
    {netId : Text} :
    (ref, netId) ∈ pinsOf (splitInto circuit take) ↔
      (ref ∈ take ∧ netId = (freshNet circuit).id ∧ ∃ was, (ref, was) ∈ pinsOf circuit) ∨
        (ref ∉ take ∧ (ref, netId) ∈ pinsOf circuit) := by
  rw [splitInto, mem_pinsOf_rekey, List.mem_dedup]

theorem freshNet_named (circuit : CircuitJson) : (freshNet circuit).id ≠ [] := by
  obtain ⟨k, hk, -⟩ := freshNet_eq circuit
  rw [hk]
  exact List.cons_ne_nil _ _

theorem WellWired.splitInto {circuit : CircuitJson} (h : WellWired circuit) (take : List PinRef) :
    WellWired (splitInto circuit take) where
  toWired := h.toWired.rekey_fresh take.dedup
  pinIds := fun c hc => by
    have hmoved : c ∈ moveAll circuit.components (fun key _ => key ∈ take.dedup) _ := hc
    exact pinIds_moveAll h hmoved

/-- One list of pins split off. -/
theorem splitsOff_one {circuit : CircuitJson} (h : WellWired circuit) (hnamed : Named circuit)
    {takes : List (List PinRef)} {take : List PinRef} (ht : Splittable circuit takes take) :
    SplitsOff circuit (splitInto circuit take) [take] := by
  obtain ⟨-, netId, hon, -⟩ := ht
  have hfresh : ∀ ref, (ref, (freshNet circuit).id) ∉ pinsOf circuit := fun ref hpin =>
    freshNet_id_fresh circuit (h.declared _ hpin)
  refine ⟨h.splitInto take, fun net hnet => ?_, List.prefix_append _ _, fun ref hout n => ?_,
    fun take' htake' ref hin n hpin => ?_, fun p q => ?_⟩
  · rcases List.mem_append.mp hnet with hnet | hnet
    · exact hnamed net hnet
    · rw [List.mem_singleton.mp hnet]
      exact freshNet_named circuit
  · have hout' := hout take (List.mem_singleton_self _)
    rw [mem_pinsOf_splitInto]
    exact ⟨fun h => h.elim (fun h => absurd h.1 hout') And.right, fun h => .inr ⟨hout', h⟩⟩
  · rw [List.mem_singleton.mp htake'] at hin
    rcases mem_pinsOf_splitInto.mp hpin with ⟨-, rfl, -⟩ | ⟨hout, -⟩
    · exact freshNet_id_fresh circuit
    · exact absurd hin hout
  · simp only [List.mem_singleton, forall_eq]
    constructor
    · rintro ⟨n, hp, hq⟩
      rcases mem_pinsOf_splitInto.mp hp with ⟨hpt, rfl, -⟩ | ⟨hpt, hpn⟩
      · rcases mem_pinsOf_splitInto.mp hq with ⟨hqt, -, -⟩ | ⟨-, hqn⟩
        · exact ⟨⟨netId, hon p hpt, hon q hqt⟩, iff_of_true hpt hqt⟩
        · exact absurd hqn (hfresh q)
      · rcases mem_pinsOf_splitInto.mp hq with ⟨-, rfl, -⟩ | ⟨hqt, hqn⟩
        · exact absurd hpn (hfresh p)
        · exact ⟨⟨n, hpn, hqn⟩, iff_of_false hpt hqt⟩
    · rintro ⟨⟨n, hp, hq⟩, hside⟩
      by_cases hin : p ∈ take
      · exact ⟨_, mem_pinsOf_splitInto.mpr (.inl ⟨hin, rfl, n, hp⟩),
          mem_pinsOf_splitInto.mpr (.inl ⟨hside.mp hin, rfl, n, hq⟩)⟩
      · exact ⟨n, mem_pinsOf_splitInto.mpr (.inr ⟨hin, hp⟩),
          mem_pinsOf_splitInto.mpr (.inr ⟨fun hq' => hin (hside.mpr hq'), hq⟩)⟩

theorem splitRefusal_eq_none {circuit : CircuitJson} (h : WellWired circuit) {net : Net}
    {netId : Text} {on : List PinRef} : ∀ {take : List PinRef},
    (∀ ref ∈ take, (ref, netId) ∈ pinsOf circuit ∧ ref ∈ on) →
      splitRefusal circuit net on take = none
  | [], _ => rfl
  | ref :: take, htake => by
    obtain ⟨⟨hpin, hmem⟩, htake⟩ := List.forall_mem_cons.mp htake
    obtain ⟨c, hc⟩ := h.findPin_eq hpin
    unfold splitRefusal
    rw [hc]
    dsimp only
    rw [if_pos hmem]
    exact splitRefusal_eq_none h htake

/-- The edit is not refused. -/
theorem splitOff_eq {circuit : CircuitJson} (h : WellWired circuit) (hnamed : Named circuit)
    {takes : List (List PinRef)} {take : List PinRef} (htake : take ∈ takes)
    (ht : Splittable circuit takes take) :
    (splitOff take circuit).circuit? = some (splitInto circuit take) := by
  obtain ⟨hne, netId, hon, keeper, hkeeper, hout⟩ := ht
  obtain ⟨first, rest, rfl⟩ := List.exists_cons_of_ne_nil hne
  have hfirst := hon first List.mem_cons_self
  obtain ⟨net, hnet, rfl⟩ := h.netById_eq hfirst
  have htruthy : truthy (((first :: rest : List PinRef).head?).bind (pinNets circuit).get?) =
      some net.id := by
    rw [List.head?_cons, Option.bind_some, get_pinNets_of_mem h.keys hfirst]
    have := hnamed net (netById_eq_some hnet).1
    obtain ⟨c, cs, hid⟩ := List.exists_cons_of_ne_nil this
    rw [hid]
    rfl
  have hrefusal : splitRefusal circuit net (pinsOn circuit net.id) (first :: rest) = none :=
    splitRefusal_eq_none h fun ref href => ⟨hon ref href, mem_pinsOn.mpr (hon ref href)⟩
  have hzero : (first :: rest).dedup.length ≠ 0 :=
    (List.length_pos_of_mem (List.mem_dedup.mpr List.mem_cons_self)).ne'
  -- The keeper is on the net, too.
  have hall : (first :: rest).dedup.length ≠ (pinsOn circuit net.id).length := by
    have hnodup : (keeper :: (first :: rest).dedup).Nodup :=
      List.nodup_cons.mpr ⟨fun hk => hout _ htake (List.mem_dedup.mp hk), List.nodup_dedup _⟩
    have hsub : keeper :: (first :: rest).dedup ⊆ pinsOn circuit net.id := by
      intro ref href
      rcases List.mem_cons.mp href with rfl | href
      · exact mem_pinsOn.mpr hkeeper
      · exact mem_pinsOn.mpr (hon ref (List.mem_dedup.mp href))
    have := (hnodup.subperm hsub).length_le
    rw [List.length_cons] at this
    omega
  unfold splitOff
  rw [htruthy]
  dsimp only
  unfold splitNet
  rw [hnet]
  dsimp only
  rw [hrefusal]
  dsimp only
  rw [if_neg hzero, if_neg hall, splitPins_eq]
  rfl

/-- Lists of pins split off in turn. -/
theorem splitsOff {circuit : CircuitJson} (h : WellWired circuit) (hnamed : Named circuit)
    {takes : List (List PinRef)} (hdisjoint : takes.Pairwise List.Disjoint)
    (htakes : ∀ take ∈ takes, Splittable circuit takes take) :
    ∃ after, (takes.map splitOff).foldlM (fun c edit => (edit c).circuit?) circuit = some after ∧
      SplitsOff circuit after takes := by
  induction takes generalizing circuit with
  | nil =>
    refine ⟨circuit, rfl, h, hnamed, List.prefix_refl _, fun _ _ _ => Iff.rfl,
      fun _ htake => absurd htake List.not_mem_nil, fun p q => ?_⟩
    simp only [List.not_mem_nil, false_imp_iff, implies_true, and_true]
  | cons take takes ih =>
    obtain ⟨ht, hrest⟩ := List.forall_mem_cons.mp htakes
    obtain ⟨hfirst, hdisjoint⟩ := List.pairwise_cons.mp hdisjoint
    have hone := splitsOff_one h hnamed ht
    have hout : ∀ ref, ref ∉ take → ∀ take' ∈ [take], ref ∉ take' := fun ref href take' he =>
      List.mem_singleton.mp he ▸ href
    -- The other lists are as they were.
    have hsplittable : ∀ take' ∈ takes, Splittable (splitInto circuit take) takes take' := by
      intro take' htake'
      obtain ⟨hne, netId, hon, keeper, hkeeper, hnone⟩ := hrest take' htake'
      refine ⟨hne, netId, fun ref href => ?_, keeper, ?_, fun t ht => hnone t
        (List.mem_cons_of_mem _ ht)⟩
      · exact (hone.stays ref (hout ref fun hin => hfirst take' htake' hin href) netId).mpr
          (hon ref href)
      · exact (hone.stays keeper (hout keeper (hnone take List.mem_cons_self)) netId).mpr hkeeper
    obtain ⟨after, hafter, hsplits⟩ := ih hone.wired hone.named hdisjoint hsplittable
    refine ⟨after, ?_, hsplits.wired, hsplits.named, hone.nets.trans hsplits.nets,
      fun ref hnone netId => ?_, fun t ht ref hin netId hpin hdeclared => ?_, fun p q => ?_⟩
    · rw [List.map_cons, List.foldlM_cons, splitOff_eq h hnamed List.mem_cons_self ht]
      exact hafter
    · rw [hsplits.stays ref (fun t ht => hnone t (List.mem_cons_of_mem _ ht)),
        hone.stays ref (hout ref (hnone take List.mem_cons_self))]
    · rcases List.mem_cons.mp ht with rfl | ht
      · have hout' : ∀ t' ∈ takes, ref ∉ t' := fun t' ht' hin' => hfirst t' ht' hin hin'
        exact hone.moved t (List.mem_singleton_self _) ref hin netId
          ((hsplits.stays ref hout' netId).mp hpin) hdeclared
      · exact hsplits.moved t ht ref hin netId hpin
          ((hone.nets.sublist.map _).subset hdeclared)
    · rw [hsplits.sameNet, hone.sameNet]
      simp only [List.forall_mem_cons, List.not_mem_nil, false_imp_iff, implies_true, and_true,
        and_assoc]

/-! ## The terminals of a deletion -/

/-- The terminals on the sheet are pins, in the order of these. -/
theorem sheetPins_sublist (circuit : CircuitJson) (positions : Map Text Position) :
    ((sheetPins circuit positions).map fun p => (p.key, p.netId)).Sublist (pinsOf circuit) := by
  rw [sheetPins_eq, List.map_flatMap, pinsOf]
  refine List.Sublist.flatMap_right _ fun c _ => ?_
  cases positions.get? c.id with
  | none => exact List.nil_sublist _
  | some at' =>
    rw [List.map_map, terminalsOf, List.map_filterMap]
    induction c.pins with
    | nil => exact List.Sublist.refl _
    | cons pin rest ih =>
      rw [List.filterMap_cons, List.map_cons]
      cases (symbolFor c).pins.find? (·.pinId = pin.pinId) with
      | none => exact ih.cons _
      | some sp => exact ih.cons_cons _

theorem mem_pinsOf_of_mem_sheet {circuit : CircuitJson} {positions : Map Text Position}
    {p : SheetPin} (hp : p ∈ sheetPins circuit positions) : (p.key, p.netId) ∈ pinsOf circuit :=
  (sheetPins_sublist circuit positions).subset (List.mem_map_of_mem hp)

theorem WellWired.ownKey {circuit : CircuitJson} (h : WellWired circuit)
    (positions : Map Text Position) : OwnKey (sheetPins circuit positions) := by
  have hsub := (sheetPins_sublist circuit positions).map Prod.fst
  rw [List.map_map] at hsub
  exact hsub.nodup h.keys

omit [Runtime] in
theorem get_pinIndex {pins : List SheetPin} (h : OwnKey pins) {i : Nat} {a : SheetPin}
    (hi : pins[i]? = some a) : (pinIndex pins).get? a.key = some i := by
  have hnodup : (pins.zipIdx.map fun e => e.1.key).Nodup := by
    have hkeys : (pins.zipIdx.map fun e => e.1.key) = pins.map SheetPin.key := by
      conv_rhs => rw [← List.zipIdx_map_fst 0 pins, List.map_map]
      rfl
    rw [hkeys]
    exact h
  have hmem : (a, i) ∈ pins.zipIdx := List.mem_zipIdx_iff_getElem?.mpr hi
  exact Map.get?_fill_of_nodup hnodup hmem []

/-- The nets of the wires that go, less ground and the supplies. -/
def affectedNets (circuit : CircuitJson) (ui : UiJson) (keys : List Text) : List Text :=
  (((ui.drawn.zipIdx.filter fun e => wireKey e.1 e.2 ∈ keys).map Prod.fst).filter
    (·.netId ∉ sharedNets circuit)).map Wire.netId

/-- `pins` of a deletion: the terminals on these nets. -/
def deletionPins (circuit : CircuitJson) (ui : UiJson) (keys : List Text) : List SheetPin :=
  (sheetPins circuit ui.positions).filter (·.netId ∈ affectedNets circuit ui keys)

theorem WellWired.ownKey_deletionPins {circuit : CircuitJson} (h : WellWired circuit) (ui : UiJson)
    (keys : List Text) : OwnKey (deletionPins circuit ui keys) :=
  ((List.filter_sublist).map SheetPin.key).nodup (h.ownKey ui.positions)

omit [Runtime] in
theorem keptWires_sublist (keys : List Text) (wires : List Wire) :
    (keptWires keys wires).Sublist wires := by
  have h := (List.filter_sublist
    (l := wires.zipIdx) (p := fun e => decide (wireKey e.1 e.2 ∉ keys))).map Prod.fst
  rwa [List.zipIdx_map_fst] at h

/-- What comes off in a deletion. -/
def takesOf (circuit : CircuitJson) (ui : UiJson) (keys : List Text) : List (List PinRef) :=
  splitsOf (deletionPins circuit ui keys) ui.drawn (keptWires keys ui.drawn)

/-- What comes off is on affected nets. -/
theorem mem_takesOf {circuit : CircuitJson} (h : WellWired circuit) {ui : UiJson}
    {keys : List Text} {take : List PinRef} (htake : take ∈ takesOf circuit ui keys)
    {ref : PinRef} (href : ref ∈ take) :
    ∃ p ∈ deletionPins circuit ui keys, p.key = ref := by
  obtain ⟨-, netId, hon, -⟩ := splitsOf_spec (h.ownKey_deletionPins ui keys)
    (keptWires_sublist keys ui.drawn) htake
  obtain ⟨p, hp, hkey, -⟩ := hon ref href
  exact ⟨p, hp, hkey⟩

theorem splittable_takesOf {circuit : CircuitJson} (h : WellWired circuit) (ui : UiJson)
    (keys : List Text) :
    ∀ take ∈ takesOf circuit ui keys, Splittable circuit (takesOf circuit ui keys) take := by
  intro take htake
  obtain ⟨hne, netId, hon, keeper, hkeeper, hnet, hout⟩ :=
    splitsOf_spec (h.ownKey_deletionPins ui keys) (keptWires_sublist keys ui.drawn) htake
  refine ⟨hne, netId, fun ref href => ?_, keeper.key, ?_, hout⟩
  · obtain ⟨p, hp, rfl, rfl⟩ := hon ref href
    exact mem_pinsOf_of_mem_sheet (List.mem_filter.mp hp).1
  · rw [← hnet]
    exact mem_pinsOf_of_mem_sheet (List.mem_filter.mp hkeeper).1

/-- The edits of a deletion split off what comes off its islands. -/
theorem splitsOff_takesOf {circuit : CircuitJson} (h : WellWired circuit) (hnamed : Named circuit)
    (ui : UiJson) (keys : List Text) :
    ∃ after, ((takesOf circuit ui keys).map splitOff).foldlM
        (fun c edit => (edit c).circuit?) circuit = some after ∧
      SplitsOff circuit after (takesOf circuit ui keys) :=
  splitsOff h hnamed
    (pairwise_splitsOf (h.ownKey_deletionPins ui keys) (keptWires_sublist keys ui.drawn))
    (splittable_takesOf h ui keys)

/-! ## The wires that are left -/

/-- The terminal that a recorded end of a wire in step is on. -/
theorem WireInStep.terminal {circuit : CircuitJson} {positions : Map Text Position} {w : Wire}
    (h : WireInStep circuit (pinMap circuit positions) w) {ref : PinRef} (href : ref ∈ w.ends) :
    ∃ p ∈ sheetPins circuit positions, p.key = ref ∧ p.netId = w.netId := by
  obtain ⟨p, hp, hnet⟩ := h.ends href
  rcases Map.mem_fill (Map.mem_of_get? hp) with ⟨q, hq, he⟩ | hnil
  · obtain ⟨rfl, rfl⟩ := Prod.mk.inj he
    exact ⟨_, hq, rfl, hnet⟩
  · cases hnil

/-- The wires that are left end on terminals that have not come apart. -/
theorem SplitsOff.oneNet {circuit after : CircuitJson} (h : WellWired circuit) {ui : UiJson}
    {keys : List Text} (hs : SplitsOff circuit after (takesOf circuit ui keys))
    (hwires : ∀ w ∈ ui.drawn, WireInStep circuit (pinMap circuit ui.positions) w) {i k : Nat}
    {v w : Wire} (hik : SameConductor (keptWires keys ui.drawn) i k)
    (hv : (keptWires keys ui.drawn)[i]? = some v) (hw : (keptWires keys ui.drawn)[k]? = some w)
    {ref ref' : PinRef} (href : ref ∈ v.ends) (href' : ref' ∈ w.ends) :
    SameNet after ref ref' := by
  have hsub := keptWires_sublist keys ui.drawn
  have hown := h.ownKey_deletionPins ui keys
  obtain ⟨p, hp, rfl, hpv⟩ := (hwires v (hsub.subset (List.mem_of_getElem? hv))).terminal href
  obtain ⟨q, hq, rfl, hqw⟩ := (hwires w (hsub.subset (List.mem_of_getElem? hw))).terminal href'
  have hnets := hik.netId
  rw [hv, hw, Option.map_some, Option.map_some, Option.some.injEq] at hnets
  have hpq : p.netId = q.netId := hpv.trans (hnets.trans hqw.symm)
  refine (hs.sameNet _ _).mpr ⟨⟨p.netId, mem_pinsOf_of_mem_sheet hp, ?_⟩, ?_⟩
  · rw [hpq]
    exact mem_pinsOf_of_mem_sheet hq
  · by_cases hin : p.netId ∈ affectedNets circuit ui keys
    · have hp' : p ∈ deletionPins circuit ui keys :=
        List.mem_filter.mpr ⟨hp, decide_eq_true hin⟩
      have hq' : q ∈ deletionPins circuit ui keys :=
        List.mem_filter.mpr ⟨hq, decide_eq_true (hpq ▸ hin)⟩
      obtain ⟨m, hm⟩ := List.mem_iff_getElem?.mp hp'
      obtain ⟨n, hn⟩ := List.mem_iff_getElem?.mp hq'
      refine (oneSide_iff hown hsub hm hn).mpr (.inl (.rel _ _ (.inl ⟨i, k, ?_, ?_, hik⟩)))
      · exact ⟨p, v, hm, hv, hpv, .inr ⟨_, href, get_pinIndex hown hm⟩⟩
      · exact ⟨q, w, hn, hw, hqw, .inr ⟨_, href', get_pinIndex hown hn⟩⟩
    · -- Nothing of another net comes off.
      have hout : ∀ t ∈ sheetPins circuit ui.positions,
          t.netId ∉ affectedNets circuit ui keys → ∀ take ∈ takesOf circuit ui keys,
            t.key ∉ take := by
        intro t ht htn take htake hmem
        obtain ⟨t', ht', hkey⟩ := mem_takesOf h htake hmem
        obtain ⟨hsheet, hnet⟩ := List.mem_filter.mp ht'
        have hnets := h.netId_eq (hkey ▸ mem_pinsOf_of_mem_sheet hsheet)
          (mem_pinsOf_of_mem_sheet ht)
        exact htn (hnets ▸ of_decide_eq_true hnet)
      exact fun take htake => iff_of_false (hout p hp hin take htake)
        (hout q hq (hpq ▸ hin) take htake)

/-- Bringing the drawing in step drops none of the wires that are left. -/
theorem SplitsOff.lines {circuit after : CircuitJson} (h : WellWired circuit) {ui : UiJson}
    {keys : List Text} (hs : SplitsOff circuit after (takesOf circuit ui keys))
    (hwires : ∀ w ∈ ui.drawn, WireInStep circuit (pinMap circuit ui.positions) w) :
    (syncWires after (keptWires keys ui.drawn)).map Wire.line =
      (keptWires keys ui.drawn).map Wire.line := by
  have hsub := keptWires_sublist keys ui.drawn
  refine syncWires_keeps_lines (fun w hw => ?_) (fun w hw ref href => ?_)
    fun i k v w hik hv hw ref href ref' href' => ?_
  · exact (hs.nets.sublist.map Net.id).subset (hwires w (hsub.subset hw)).net
  · obtain ⟨i, hi⟩ := List.mem_iff_getElem?.mp hw
    obtain ⟨netId, hpin, -⟩ := hs.oneNet h hwires (.refl i) hi hi href href
    rw [get_pinNets_of_mem hs.wired.keys hpin]
    rfl
  · obtain ⟨netId, hpin, hpin'⟩ := hs.oneNet h hwires hik hv hw href href'
    rw [get_pinNets_of_mem hs.wired.keys hpin, get_pinNets_of_mem hs.wired.keys hpin']

/-! ## The deletion -/

/-- The terminal of a reference, if it is on an affected net, does not come off. -/
def StaysPut (circuit : CircuitJson) (ui : UiJson) (keys : List Text) (ref : PinRef) : Prop :=
  ∀ i a, (deletionPins circuit ui keys)[i]? = some a → a.key = ref →
    StaysOn (deletionPins circuit ui keys) ui.drawn (keptWires keys ui.drawn) i

/-- The wires join the terminals of the references. -/
def JoinedBy (pins : List SheetPin) (wires : List Wire) (p q : PinRef) : Prop :=
  ∃ i j a b, pins[i]? = some a ∧ a.key = p ∧ pins[j]? = some b ∧ b.key = q ∧
    DrawingJoins pins wires i j

/-- What a deletion of wires does. -/
structure DeletesWires (circuit : CircuitJson) (ui : UiJson) (keys : List Text)
    (after : CircuitJson) (ui' : UiJson) : Prop where
  owned : ui'.wires.isSome = true
  /-- Exactly the named wires go. -/
  lines : ui'.drawn.map Wire.line = (keptWires keys ui.drawn).map Wire.line
  rails : ∀ net ∈ circuit.nets, (net.isGround || net.isPower) = true → net ∈ after.nets ∧
    ∀ ref, (ref, net.id) ∈ pinsOf after ↔ (ref, net.id) ∈ pinsOf circuit
  merges : ∀ p q, SameNet after p q → SameNet circuit p q
  /-- Pins of one net stay together exactly if the wires left join them or both stay put. -/
  together : ∀ p q, SameNet circuit p q → (SameNet after p q ↔
    JoinedBy (deletionPins circuit ui keys) (keptWires keys ui.drawn) p q ∨
      (StaysPut circuit ui keys p ∧ StaysPut circuit ui keys q))
  /-- What does not stay put was joined to a terminal that it is no longer joined to. -/
  comesOff : ∀ p, ¬ StaysPut circuit ui keys p → ∃ q,
    JoinedBy (deletionPins circuit ui keys) ui.drawn p q ∧
      ¬ JoinedBy (deletionPins circuit ui keys) (keptWires keys ui.drawn) p q

omit [Runtime] in
theorem joinedBy_iff {pins : List SheetPin} (h : OwnKey pins) {wires : List Wire} {i j : Nat}
    {a b : SheetPin} (hi : pins[i]? = some a) (hj : pins[j]? = some b) :
    JoinedBy pins wires a.key b.key ↔ DrawingJoins pins wires i j := by
  constructor
  · rintro ⟨i', j', a', b', hi', hkey, hj', hkey', hjoins⟩
    rwa [h.index hi hi' hkey.symm, h.index hj hj' hkey'.symm]
  · exact fun hjoins => ⟨i, j, a, b, hi, rfl, hj, rfl, hjoins⟩

theorem staysPut_iff {circuit : CircuitJson} (h : WellWired circuit) (ui : UiJson)
    (keys : List Text) (ref : PinRef) :
    StaysPut circuit ui keys ref ↔ ∀ take ∈ takesOf circuit ui keys, ref ∉ take := by
  have hsub := keptWires_sublist keys ui.drawn
  have hown := h.ownKey_deletionPins ui keys
  constructor
  · intro hstays take htake hmem
    obtain ⟨p, hp, rfl⟩ := mem_takesOf h htake hmem
    obtain ⟨i, hi⟩ := List.mem_iff_getElem?.mp hp
    exact (staysOn_iff hown hsub hi).mp (hstays i p hi rfl) take htake hmem
  · rintro hnone i a hi rfl
    exact (staysOn_iff hown hsub hi).mpr hnone

/-- On one side of all that comes off are those that are still joined, and those that stay. -/
theorem oneSide_takesOf {circuit : CircuitJson} (h : WellWired circuit) (ui : UiJson)
    (keys : List Text) (p q : PinRef) :
    (∀ take ∈ takesOf circuit ui keys, p ∈ take ↔ q ∈ take) ↔
      JoinedBy (deletionPins circuit ui keys) (keptWires keys ui.drawn) p q ∨
        (StaysPut circuit ui keys p ∧ StaysPut circuit ui keys q) := by
  have hsub := keptWires_sublist keys ui.drawn
  have hown := h.ownKey_deletionPins ui keys
  constructor
  · intro hside
    by_cases hp : StaysPut circuit ui keys p
    · refine .inr ⟨hp, (staysPut_iff h ui keys q).mpr fun take htake hmem => ?_⟩
      exact (staysPut_iff h ui keys p).mp hp take htake ((hside take htake).mpr hmem)
    · rw [staysPut_iff h] at hp
      push Not at hp
      obtain ⟨take, htake, hmem⟩ := hp
      obtain ⟨a, ha, rfl⟩ := mem_takesOf h htake hmem
      obtain ⟨b, hb, rfl⟩ := mem_takesOf h htake ((hside take htake).mp hmem)
      obtain ⟨i, hi⟩ := List.mem_iff_getElem?.mp ha
      obtain ⟨j, hj⟩ := List.mem_iff_getElem?.mp hb
      rcases (oneSide_iff hown hsub hi hj).mp hside with hjoins | ⟨hstays, -⟩
      · exact .inl ((joinedBy_iff hown hi hj).mpr hjoins)
      · exact absurd hmem ((staysOn_iff hown hsub hi).mp hstays take htake)
  · rintro (⟨i, j, a, b, hi, rfl, hj, rfl, hjoins⟩ | ⟨hp, hq⟩)
    · exact (oneSide_iff hown hsub hi hj).mpr (.inl hjoins)
    · exact fun take htake => iff_of_false ((staysPut_iff h ui keys p).mp hp take htake)
        ((staysPut_iff h ui keys q).mp hq take htake)

/-- A deletion, from the circuit that the edits make and the drawing that is stored. -/
theorem SplitsOff.deletes {circuit after : CircuitJson} (h : WellWired circuit) {ui ui' : UiJson}
    {keys : List Text} (hs : SplitsOff circuit after (takesOf circuit ui keys))
    (hwires : ∀ w ∈ ui.drawn, WireInStep circuit (pinMap circuit ui.positions) w)
    (hnext : ui'.wires = some (syncWires after (keptWires keys ui.drawn))) :
    DeletesWires circuit ui keys after ui' where
  owned := by
    rw [hnext]
    rfl
  lines := by
    rw [UiJson.drawn, hnext, Option.getD_some]
    exact hs.lines h hwires
  rails := fun net hnet hrail => by
    refine ⟨hs.nets.subset hnet, fun ref => ⟨fun hpin => ?_, fun hpin => ?_⟩⟩
    · by_cases hin : ∃ take ∈ takesOf circuit ui keys, ref ∈ take
      · obtain ⟨take, htake, hmem⟩ := hin
        exact absurd (List.mem_map_of_mem hnet) (hs.moved take htake ref hmem _ hpin)
      · exact (hs.stays ref (fun take htake hmem => hin ⟨take, htake, hmem⟩) _).mp hpin
    · refine (hs.stays ref (fun take htake hmem => ?_) _).mpr hpin
      obtain ⟨p, hp, rfl⟩ := mem_takesOf h htake hmem
      obtain ⟨hsheet, haffected⟩ := List.mem_filter.mp hp
      have hid := h.netId_eq (mem_pinsOf_of_mem_sheet hsheet) hpin
      obtain ⟨w, hw, hwn⟩ := List.mem_map.mp (of_decide_eq_true haffected)
      have hnot := of_decide_eq_true (List.mem_filter.mp hw).2
      rw [hwn, hid] at hnot
      exact hnot (List.mem_map_of_mem (List.mem_filter.mpr ⟨hnet, hrail⟩))
  merges := fun p q hsame => ((hs.sameNet p q).mp hsame).1
  together := fun p q hsame => by
    rw [hs.sameNet, oneSide_takesOf h, and_iff_right hsame]
  comesOff := fun p hgoes => by
    have hsub := keptWires_sublist keys ui.drawn
    have hown := h.ownKey_deletionPins ui keys
    unfold StaysPut at hgoes
    push Not at hgoes
    obtain ⟨i, a, hi, rfl, hgoes⟩ := hgoes
    obtain ⟨j, hj, hjoins, hstays⟩ := exists_staysOn hsub (List.getElem?_eq_some_iff.mp hi).1
    obtain ⟨b, hb⟩ : ∃ b, (deletionPins circuit ui keys)[j]? = some b :=
      ⟨_, List.getElem?_eq_getElem hj⟩
    refine ⟨b.key, (joinedBy_iff hown hi hb).mpr hjoins, fun hleft => hgoes ?_⟩
    exact (staysOn_congr hsub ((joinedBy_iff hown hi hb).mp hleft)).mpr hstays

section

variable [FirstDrawing]

theorem answersSame_splitOff (take : List PinRef) : AnswersSame (splitOff take) := by
  intro circuit after he
  unfold splitOff at he
  split at he
  · unfold splitNet at he
    split at he
    · cases he
    · simp only at he
      split at he
      · cases he
      · split at he
        · cases he
        · split at he <;> cases he
  · cases he

omit [FirstDrawing] in
theorem planWireDeletion_some (circuit : CircuitJson) {ui : UiJson} {keys : List Text}
    (h : keptWires keys ui.drawn ≠ ui.drawn) :
    (planWireDeletion circuit ui keys).edits = (takesOf circuit ui keys).map splitOff ∧
      (planWireDeletion circuit ui keys).drawing = fun current _ _ =>
        { current with wires := some (keptWires keys current.drawn) } := by
  have hgone : ¬ ((ui.drawn.zipIdx.filter fun e =>
      wireKey e.1 e.2 ∈ keys).map Prod.fst).length = 0 := by
    intro hzero
    rw [List.length_map, List.length_eq_zero_iff, List.filter_eq_nil_iff] at hzero
    refine h ?_
    rw [keptWires, List.filter_eq_self.mpr fun e he => ?_, List.zipIdx_map_fst]
    exact decide_eq_true fun hin => hzero e he (decide_eq_true hin)
  unfold planWireDeletion
  simp only [if_neg hgone]
  exact ⟨rfl, trivial⟩

omit [FirstDrawing] in
/-- A deletion that names no wire leaves the drawing. -/
theorem planWireDeletion_none (circuit : CircuitJson) {ui : UiJson} {keys : List Text}
    (h : keptWires keys ui.drawn = ui.drawn) :
    (planWireDeletion circuit ui keys).edits = [] ∧
      (planWireDeletion circuit ui keys).drawing = keepDrawing ∧
        affectedNets circuit ui keys = [] := by
  have hnone : ui.drawn.zipIdx.filter (fun e => decide (wireKey e.1 e.2 ∈ keys)) = [] := by
    refine List.filter_eq_nil_iff.mpr fun e he hin => ?_
    have hlength := congrArg List.length h
    rw [keptWires, List.length_map, ← List.length_zipIdx (l := ui.drawn) (i := 0)] at hlength
    have hall := List.length_filter_eq_length_iff.mp hlength e he
    exact of_decide_eq_true hall (of_decide_eq_true hin)
  have hgone : ((ui.drawn.zipIdx.filter fun e =>
      wireKey e.1 e.2 ∈ keys).map Prod.fst).length = 0 := by
    rw [hnone]
    rfl
  refine ⟨?_, ?_, ?_⟩
  · unfold planWireDeletion
    simp only [if_pos hgone]
  · unfold planWireDeletion
    simp only [if_pos hgone]
  · rw [affectedNets, hnone]
    rfl

omit [FirstDrawing] in
/-- With no terminals nothing comes off. -/
theorem takesOf_eq_nil {circuit : CircuitJson} {ui : UiJson} {keys : List Text}
    (h : affectedNets circuit ui keys = []) : takesOf circuit ui keys = [] := by
  have hpins : deletionPins circuit ui keys = [] := by
    rw [deletionPins, h]
    exact List.filter_eq_nil_iff.mpr fun p _ hin =>
      absurd (of_decide_eq_true hin) List.not_mem_nil
  rw [takesOf, hpins]
  rfl

omit [FirstDrawing] in
/-- The edits of a deletion, and its drawing. -/
theorem planWireDeletion_spec (circuit : CircuitJson) (ui : UiJson) (hui : ui.wires.isSome = true)
    (keys : List Text) :
    (planWireDeletion circuit ui keys).edits = (takesOf circuit ui keys).map splitOff ∧
      (∀ created after, ((planWireDeletion circuit ui keys).drawing ui created after).wires =
        some (keptWires keys ui.drawn)) ∧
      (keptWires keys ui.drawn = ui.drawn → takesOf circuit ui keys = []) := by
  by_cases hkept : keptWires keys ui.drawn = ui.drawn
  · obtain ⟨hedits, hdrawing, hnets⟩ := planWireDeletion_none circuit hkept
    have htakes := takesOf_eq_nil hnets
    refine ⟨by rw [hedits, htakes]; rfl, fun _ _ => ?_, fun _ => htakes⟩
    obtain ⟨wires, hwires⟩ := Option.isSome_iff_exists.mp hui
    rw [hdrawing, hkept, keepDrawing, UiJson.drawn, hwires, Option.getD_some]
  · obtain ⟨hedits, hdrawing⟩ := planWireDeletion_some circuit hkept
    exact ⟨hedits, fun _ _ => by rw [hdrawing], fun h => absurd h hkept⟩

end

end

section

/-- A drawing that nobody owns is taken as it is. -/
local instance takenAsIs : FirstDrawing := plainDrawing

/-- Three resistors on one net, of which two are wired. -/
def wiredTrio : CircuitJson where
  components := [
    { id := "r1".toList, type := .resistor, designator := "R1".toList,
      pins := [⟨"1".toList, "a".toList⟩, ⟨"2".toList, "m".toList⟩] },
    { id := "r2".toList, type := .resistor, designator := "R2".toList,
      pins := [⟨"1".toList, "m".toList⟩, ⟨"2".toList, "b".toList⟩] },
    { id := "r3".toList, type := .resistor, designator := "R3".toList,
      pins := [⟨"1".toList, "m".toList⟩, ⟨"2".toList, "c".toList⟩] }]
  nets := [{ id := "a".toList, name := "A".toList }, { id := "m".toList, name := "M".toList },
    { id := "b".toList, name := "B".toList }, { id := "c".toList, name := "C".toList }]

def trioDrawing : UiJson :=
  { pairDrawing with positions := pairAt 60 0 ++ [("r3".toList, { x := 0, y := 100 })] }

def trioHistory : History := beginHistory ⟨wiredTrio, trioDrawing⟩

/-- Of the pair that the wire joined, `R2` comes off. -/
theorem takesOf_trio :
    takesOf wiredTrio trioDrawing ["w1".toList] = [[⟨"r2".toList, "1".toList⟩]] := by
  have hislands : Map.group
      (drawnIslands (deletionPins wiredTrio trioDrawing ["w1".toList]) trioDrawing.drawn)
      (List.range (deletionPins wiredTrio trioDrawing ["w1".toList]).length) =
      [(1, [0, 1]), (2, [2])] := by decide +kernel
  have hpair : Map.group (drawnIslands (deletionPins wiredTrio trioDrawing ["w1".toList])
      (keptWires ["w1".toList] trioDrawing.drawn)) [0, 1] = [(0, [0]), (1, [1])] := by
    decide +kernel
  have hbare : Map.group (drawnIslands (deletionPins wiredTrio trioDrawing ["w1".toList])
      (keptWires ["w1".toList] trioDrawing.drawn)) [2] = [(2, [2])] := by
    decide +kernel
  have hkeys : keysOf (deletionPins wiredTrio trioDrawing ["w1".toList]) [1] =
      [⟨"r2".toList, "1".toList⟩] := by decide +kernel
  have hpieces : piecesOff (deletionPins wiredTrio trioDrawing ["w1".toList]) trioDrawing.drawn
      (keptWires ["w1".toList] trioDrawing.drawn) = [[1]] := by
    rw [piecesOff, hislands]
    simp only [List.flatMap_cons, List.flatMap_nil, sortedPieces, hpair, hbare, List.map_cons,
      List.map_nil]
    simp [List.mergeSort, List.MergeSort.Internal.splitInTwo, beforePiece]
  rw [takesOf, splitsOf_eq, hpieces, List.map_cons, List.map_nil, hkeys]

/-- Terminals of one net come apart only where the wires that go were all that joined them. -/
def PartsDrawnOnly (circuit : CircuitJson) (ui : UiJson) (keys : List Text)
    (after : CircuitJson) : Prop :=
  ∀ i j a b, (sheetPins circuit ui.positions)[i]? = some a →
    (sheetPins circuit ui.positions)[j]? = some b → SameNet circuit a.key b.key →
      ¬ SameNet after a.key b.key →
        DrawingJoins (sheetPins circuit ui.positions) ui.drawn i j ∧
          ¬ DrawingJoins (sheetPins circuit ui.positions) (keptWires keys ui.drawn) i j

end

end CircuitForge
