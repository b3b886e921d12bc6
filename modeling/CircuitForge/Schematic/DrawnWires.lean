/-
What a committed wire merges.

Each end of a draft hits one net at most, and the landing keeps one terminal for each net
that has any on the sheet.  The commit connects these terminals, labels the wires of the nets
that were hit with the net they have become, and bringing the drawing in step changes nothing.
-/
import CircuitForge.Editor.Merges
import CircuitForge.Schematic.Steady

namespace CircuitForge

open Js

/-! ## Landing -/

/-- The end of a draft hits the net: of the terminal it is on, or of a wire under it. -/
def EndHits (wires : List Wire) (pins : Map PinRef SheetPin) (at' : XY) (pin : Option PinRef)
    (netId : Text) : Prop :=
  match pin with
  | some ref => ∃ p, pins.get? ref = some p ∧ p.netId = netId
  | none => ∃ w ∈ wires, wireTouches w.points at'.x at'.y = true ∧ w.netId = netId

/-- The nets that were hit, each with a terminal if it has one on the sheet. -/
structure Lands (pins : Map PinRef SheetPin) (l : Landing) (hits : Text → Prop) (count : Nat) :
    Prop where
  mem_netsHit : ∀ n, n ∈ l.netsHit ↔ hits n
  rep : ∀ e ∈ l.reps, hits e.1 ∧ ∃ p, pins.get? e.2 = some p ∧ p.netId = e.1
  bare : ∀ n, hits n → l.reps.get? n = none → ∀ e ∈ pins, e.2.netId ≠ n
  keyed : l.reps.Keyed
  length_le : l.netsHit.length ≤ count

theorem lands_start (pins : Map PinRef SheetPin) : Lands pins {} (fun _ => False) 0 where
  mem_netsHit := fun _ => ⟨fun h => absurd h List.not_mem_nil, False.elim⟩
  rep := fun _ he => absurd he List.not_mem_nil
  bare := fun _ hn => hn.elim
  keyed := Map.Keyed.nil
  length_le := Nat.le_refl 0

theorem Lands.congr {pins : Map PinRef SheetPin} {l : Landing} {hits hits' : Text → Prop}
    {count : Nat} (h : Lands pins l hits count) (hh : ∀ n, hits n ↔ hits' n) :
    Lands pins l hits' count := by
  have : hits = hits' := funext fun n => propext (hh n)
  rwa [← this]

/-- One more net. -/
theorem Lands.hit {pins : Map PinRef SheetPin} {l : Landing} {hits : Text → Prop} {count : Nat}
    (h : Lands pins l hits count) {netId : Text} {rep : Option PinRef}
    (hsome : ∀ ref, rep = some ref → ∃ p, pins.get? ref = some p ∧ p.netId = netId)
    (hnone : rep = none → ∀ e ∈ pins, e.2.netId ≠ netId) :
    Lands pins (l.hit netId rep) (fun n => hits n ∨ n = netId) (count + 1) := by
  have hlength : (l.hit netId rep).netsHit.length ≤ count + 1 := by
    unfold Landing.hit
    simp only
    split
    · exact h.length_le.trans (Nat.le_succ _)
    · rw [List.length_append, List.length_singleton]
      exact Nat.succ_le_succ h.length_le
  have hmem : ∀ n, n ∈ (l.hit netId rep).netsHit ↔ hits n ∨ n = netId := by
    intro n
    unfold Landing.hit
    simp only
    rw [← h.mem_netsHit n]
    split
    · next hin => exact ⟨.inl, fun hn => hn.elim id fun he => he ▸ hin⟩
    · rw [List.mem_append, List.mem_singleton]
  cases rep with
  | none =>
    refine ⟨hmem, fun e he => ?_, fun n hn hget => ?_, h.keyed, hlength⟩
    · exact ⟨.inl (h.rep e he).1, (h.rep e he).2⟩
    · rcases hn with hn | rfl
      · exact h.bare n hn hget
      · exact hnone rfl
  | some ref =>
    obtain ⟨p, hp, hpn⟩ := hsome ref rfl
    by_cases hin : (l.reps.get? netId).isSome = true
    · have hreps : (l.hit netId (some ref)).reps = l.reps := by
        unfold Landing.hit
        simp only
        rw [if_pos hin]
      refine ⟨hmem, fun e he => ?_, fun n hn hget => ?_, by rw [hreps]; exact h.keyed, hlength⟩
      · rw [hreps] at he
        exact ⟨.inl (h.rep e he).1, (h.rep e he).2⟩
      · rw [hreps] at hget
        rcases hn with hn | rfl
        · exact h.bare n hn hget
        · rw [hget] at hin
          cases hin
    · have hreps : (l.hit netId (some ref)).reps = l.reps.set netId ref := by
        unfold Landing.hit
        simp only
        rw [if_neg hin]
      refine ⟨hmem, fun e he => ?_, fun n hn hget => ?_, by rw [hreps]; exact h.keyed.set _ _,
        hlength⟩
      · rw [hreps] at he
        rcases Map.mem_set he with rfl | he
        · exact ⟨.inr rfl, p, hp, hpn⟩
        · exact ⟨.inl (h.rep e he).1, (h.rep e he).2⟩
      · rw [hreps] at hget
        by_cases hne : netId = n
        · rw [← hne, Map.get?_set_self] at hget
          cases hget
        · rw [Map.get?_set_ne hne] at hget
          exact h.bare n (hn.resolve_right fun he => hne he.symm) hget

/-- Every entry of the terminals on the sheet has its own key. -/
structure OwnKeys (pins : Map PinRef SheetPin) : Prop where
  keyed : pins.Keyed
  key : ∀ e ∈ pins, e.2.key = e.1

theorem OwnKeys.get {pins : Map PinRef SheetPin} (h : OwnKeys pins) {e : PinRef × SheetPin}
    (he : e ∈ pins) : pins.get? e.2.key = some e.2 := by
  rw [h.key e he]
  exact Map.get?_of_mem h.keyed he

theorem ownKeys_pinMap [Runtime] (circuit : CircuitJson) (positions : Map Text Position) :
    OwnKeys (pinMap circuit positions) where
  keyed := Map.Keyed.nil.fill ..
  key := fun e he => by
    rcases Map.mem_fill he with ⟨p, -, rfl⟩ | hnil
    · rfl
    · cases hnil

/-- An end lands: it hits one net at most, and a terminal it is on is under it. -/
theorem Lands.landEnd {wires : List Wire} {pins : Map PinRef SheetPin} (hpins : OwnKeys pins)
    {l l' : Landing} {hits : Text → Prop} {count : Nat} (h : Lands pins l hits count) {at' : XY}
    {pin : Option PinRef} (hok : CircuitForge.landEnd wires pins l at' pin = .ok l') :
    Lands pins l' (fun n => hits n ∨ EndHits wires pins at' pin n) (count + 1) ∧
      ∀ ref, pin = some ref → ∃ p, pins.get? ref = some p ∧ p.toXY = at' := by
  unfold CircuitForge.landEnd at hok
  cases pin with
  | some ref =>
    simp only at hok
    cases hp : pins.get? ref with
    | none => rw [hp] at hok; cases hok
    | some p =>
      rw [hp] at hok
      simp only at hok
      by_cases hoff : p.x ≠ at'.x ∨ p.y ≠ at'.y
      · rw [if_pos hoff] at hok
        cases hok
      · rw [if_neg hoff] at hok
        cases hok
        obtain ⟨hx, hy⟩ := not_or.mp hoff
        refine ⟨(h.hit (fun ref' he => ?_) fun he => by cases he).congr fun n => ?_, ?_⟩
        · cases he
          exact ⟨p, hp, rfl⟩
        · refine or_congr_right ⟨fun he => ⟨p, hp, he.symm⟩, ?_⟩
          rintro ⟨q, hq, hqn⟩
          rw [hp] at hq
          cases hq
          exact hqn.symm
        · rintro _ ⟨⟩
          exact ⟨p, hp, XY.ext (not_not.mp hx) (not_not.mp hy)⟩
  | none =>
    refine ⟨?_, fun ref he => by cases he⟩
    have hunder : ∀ n, EndHits wires pins at' none n ↔
        n ∈ ((wires.filter fun w => wireTouches w.points at'.x at'.y).map Wire.netId).dedup := by
      intro n
      rw [List.mem_dedup, List.mem_map]
      constructor
      · rintro ⟨w, hw, ht, rfl⟩
        exact ⟨w, List.mem_filter.mpr ⟨hw, ht⟩, rfl⟩
      · rintro ⟨w, hw, rfl⟩
        exact ⟨w, (List.mem_filter.mp hw).1, (List.mem_filter.mp hw).2, rfl⟩
    simp only at hok
    split at hok
    · next hnil =>
      cases hok
      refine ⟨fun n => ?_, fun e he => ⟨.inl (h.rep e he).1, (h.rep e he).2⟩, fun n hn => ?_,
        h.keyed, h.length_le.trans (Nat.le_succ _)⟩
      · rw [h.mem_netsHit, hunder, hnil]
        exact ⟨.inl, fun hn => hn.resolve_right List.not_mem_nil⟩
      · rw [hunder, hnil] at hn
        exact h.bare n (hn.resolve_right List.not_mem_nil)
    · next netId hone =>
      cases hok
      refine (h.hit (fun ref he => ?_) fun he e hmem => ?_).congr fun n => ?_
      · obtain ⟨p, hp, rfl⟩ := Option.map_eq_some_iff.mp he
        obtain ⟨e, hmem, rfl⟩ := List.mem_map.mp (List.mem_of_find?_eq_some hp)
        exact ⟨e.2, hpins.get hmem, by simpa using List.find?_some hp⟩
      · have := List.find?_eq_none.mp (Option.map_eq_none_iff.mp he) e.2 (List.mem_map_of_mem hmem)
        simpa using this
      · rw [hunder, hone, List.mem_singleton]
    · cases hok

section

variable [Runtime]

/-! ## The drawing of the new wire -/

theorem get_pinNets_of_mem {circuit : CircuitJson} (h : ((pinsOf circuit).map Prod.fst).Nodup)
    {ref : PinRef} {netId : Text} (hpin : (ref, netId) ∈ pinsOf circuit) :
    (pinNets circuit).get? ref = some netId :=
  Map.get?_fill_of_nodup h hpin []

/-- A net has a terminal on the sheet. -/
def Shown (pins : Map PinRef SheetPin) (netId : Text) : Prop :=
  ∃ ref p, pins.get? ref = some p ∧ p.netId = netId

/-- The circuit has become one in which the pins of the nets that were hit, as far as these are
on the sheet, are on one net, and all others where they were. -/
structure HitsBecome (circuit after : CircuitJson) (pins : Map PinRef SheetPin)
    (hits : List Text) (final : Text) : Prop where
  keys : ((pinsOf after).map Prod.fst).Nodup
  final_hit : final ∈ hits
  final_shown : ∀ n ∈ hits, Shown pins n → Shown pins final
  moved : ∀ ref n, (ref, n) ∈ pinsOf circuit → n ∈ hits → Shown pins n →
    (pinNets after).get? ref = some final
  kept : ∀ ref n, (ref, n) ∈ pinsOf circuit → ¬ (n ∈ hits ∧ Shown pins n) →
    (pinNets after).get? ref = some n
  declared : final ∈ after.nets.map Net.id
  others : ∀ n ∈ circuit.nets.map Net.id, n ∉ hits → n ∈ after.nets.map Net.id

theorem mem_pinsOf_of_sheet {circuit : CircuitJson} (h : Wired circuit)
    {positions : Map Text Position} {ref : PinRef} {p : SheetPin}
    (hp : (pinMap circuit positions).get? ref = some p) : (ref, p.netId) ∈ pinsOf circuit :=
  mem_of_get_pinNets (netId_pinMap h hp)

theorem HitsBecome.onSheet {circuit after : CircuitJson} (hw : Wired circuit)
    {positions : Map Text Position} {hits : List Text} {final : Text}
    (h : HitsBecome circuit after (pinMap circuit positions) hits final) {ref : PinRef}
    {p : SheetPin} (hp : (pinMap circuit positions).get? ref = some p) :
    (pinNets after).get? ref = some (if p.netId ∈ hits then final else p.netId) := by
  have hpin := mem_pinsOf_of_sheet hw hp
  by_cases hin : p.netId ∈ hits
  · rw [if_pos hin, h.moved ref _ hpin hin ⟨ref, p, hp, rfl⟩]
  · rw [if_neg hin, h.kept ref _ hpin fun hh => hin hh.1]

omit [Runtime] in
/-- The wires of the nets that were hit, on the net they have become. -/
def relabelHits (hits : List Text) (final : Text) (w : Wire) : Wire :=
  if w.netId ∈ hits then { w with netId := final } else w

omit [Runtime] in
theorem relabelHits_fields (hits : List Text) (final : Text) (w : Wire) :
    (relabelHits hits final w).netId = (if w.netId ∈ hits then final else w.netId) ∧
      (relabelHits hits final w).ends = w.ends ∧ (relabelHits hits final w).line = w.line ∧
        (relabelHits hits final w).points = w.points := by
  unfold relabelHits
  split <;> exact ⟨rfl, rfl, rfl, rfl⟩

/-- Every recorded end of a wire in step is a terminal of its net. -/
theorem WireInStep.ends {circuit : CircuitJson} {pins : Map PinRef SheetPin} {w : Wire}
    (h : WireInStep circuit pins w) {ref : PinRef} (href : ref ∈ w.ends) :
    ∃ p, pins.get? ref = some p ∧ p.netId = w.netId := by
  rcases List.mem_append.mp href with href | href
  · obtain ⟨p, hp, hn, -⟩ := h.fromEnd ref (Option.mem_toList.mp href)
    exact ⟨p, hp, hn⟩
  · obtain ⟨p, hp, hn, -⟩ := h.toEnd ref (Option.mem_toList.mp href)
    exact ⟨p, hp, hn⟩

/-- The relabelled drawing with the new wire is in step already. -/
theorem HitsBecome.syncWires {circuit after : CircuitJson} (hw : Wired circuit)
    {positions : Map Text Position} {hits : List Text} {final : Text}
    (h : HitsBecome circuit after (pinMap circuit positions) hits final) {wires : List Wire}
    (hwires : ∀ w ∈ wires, WireInStep circuit (pinMap circuit positions) w) {new : Wire}
    (hnew : new.netId = final)
    (hends : ∀ ref ∈ new.ends, ∃ p, (pinMap circuit positions).get? ref = some p ∧
      p.netId ∈ hits) :
    CircuitForge.syncWires after (wires.map (relabelHits hits final) ++ [new]) =
      wires.map (relabelHits hits final) ++ [new] := by
  refine syncWires_of_labels fun w hmem => ?_
  rcases List.mem_append.mp hmem with hmem | hmem
  · obtain ⟨v, hv, rfl⟩ := List.mem_map.mp hmem
    obtain ⟨hnet, hvends, -, -⟩ := relabelHits_fields hits final v
    have hstep := hwires v hv
    rw [hnet, hvends]
    refine ⟨?_, fun ref href => ?_⟩
    · split
      · exact h.declared
      · next hout => exact h.others _ hstep.net hout
    · obtain ⟨p, hp, hpn⟩ := hstep.ends href
      rw [h.onSheet hw hp, hpn]
  · rw [List.mem_singleton.mp hmem, hnew]
    refine ⟨h.declared, fun ref href => ?_⟩
    obtain ⟨p, hp, hpn⟩ := hends ref href
    rw [h.onSheet hw hp, if_pos hpn]

/-! ## The nets of the ends -/

/-- The nets a draft hits, at either end of its tidied line. -/
def DraftHits (circuit : CircuitJson) (ui : UiJson) (draft : WireDraft) (netId : Text) : Prop :=
  (∃ at', (tidyPoints draft.points).head? = some at' ∧
    EndHits ui.drawn (pinMap circuit ui.positions) at' draft.fromRef netId) ∨
  ∃ at', (tidyPoints draft.points).getLast? = some at' ∧
    EndHits ui.drawn (pinMap circuit ui.positions) at' draft.toRef netId

/-- With a terminal for one net at most, no edit is made. -/
theorem hitsBecome_same {circuit : CircuitJson} (h : WellWired circuit)
    {pins : Map PinRef SheetPin} {hits : List Text} {final : Text} (hfinal : final ∈ hits)
    (hdeclared : final ∈ circuit.nets.map Net.id)
    (hone : ∀ n ∈ hits, Shown pins n → n = final) :
    HitsBecome circuit circuit pins hits final where
  keys := h.keys
  final_hit := hfinal
  final_shown := fun n hn hshown => hone n hn hshown ▸ hshown
  moved := fun ref n hpin hn hshown => by
    rw [get_pinNets_of_mem h.keys hpin, hone n hn hshown]
  kept := fun ref n hpin _ => get_pinNets_of_mem h.keys hpin
  declared := hdeclared
  others := fun n hn _ => hn

/-- A merge leaves the keys of the pins. -/
theorem MergesNets.keys {circuit after : CircuitJson} {na nb kept : Net}
    (hm : MergesNets circuit after na nb kept) (h : WellWired circuit) :
    ((pinsOf after).map Prod.fst).Nodup := by
  have hsame : (pinsOf after).map Prod.fst = (pinsOf circuit).map Prod.fst := by
    rw [hm.pins, List.map_map]
    refine List.map_congr_left fun e _ => ?_
    simp only [Function.comp_apply]
    split <;> rfl
  rw [hsame]
  exact h.keys

/-- With a terminal for each of two nets, these are merged. -/
theorem hitsBecome_merged {circuit after : CircuitJson} (h : WellWired circuit)
    {pins : Map PinRef SheetPin} {hits : List Text} {na nb kept : Net}
    (hm : MergesNets circuit after na nb kept) (hhits : ∀ n, n ∈ hits ↔ n = na.id ∨ n = nb.id)
    (hshown : ∀ n ∈ hits, Shown pins n) : HitsBecome circuit after pins hits kept.id where
  keys := hm.keys h
  final_hit := (hhits _).mpr (hm.kept_eq.imp (congrArg Net.id) (congrArg Net.id))
  final_shown := fun _ _ _ =>
    hshown _ ((hhits _).mpr (hm.kept_eq.imp (congrArg Net.id) (congrArg Net.id)))
  moved := fun ref n hpin hn _ => by
    refine get_pinNets_of_mem (hm.keys h) (hm.mem_pinsOf.mpr (.inl ⟨rfl, ?_⟩))
    exact ((hhits n).mp hn).imp (fun he : n = na.id => he ▸ hpin) fun he : n = nb.id => he ▸ hpin
  kept := fun ref n hpin hout => by
    obtain ⟨hna, hnb⟩ := not_or.mp fun he =>
      hout ⟨(hhits n).mpr he, hshown n ((hhits n).mpr he)⟩
    exact get_pinNets_of_mem (hm.keys h) (hm.mem_pinsOf.mpr (.inr ⟨hna, hnb, hpin⟩))
  declared := List.mem_map_of_mem (netById_eq_some hm.declared).1
  others := fun n hn hout => by
    obtain ⟨net, hnet, rfl⟩ := List.mem_map.mp hn
    obtain ⟨hna, hnb⟩ := not_or.mp fun he => hout ((hhits _).mpr he)
    exact List.mem_map_of_mem (hm.others net hnet hna hnb)

theorem sameNet_iff {circuit : CircuitJson} (h : ((pinsOf circuit).map Prod.fst).Nodup)
    {p q : PinRef} {np nq : Text} (hp : (pinNets circuit).get? p = some np)
    (hq : (pinNets circuit).get? q = some nq) : SameNet circuit p q ↔ np = nq := by
  constructor
  · rintro ⟨netId, hpn, hqn⟩
    rw [get_pinNets_of_mem h hpn] at hp
    rw [get_pinNets_of_mem h hqn] at hq
    exact (Option.some.inj hp).symm.trans (Option.some.inj hq)
  · rintro rfl
    exact ⟨np, mem_of_get_pinNets hp, mem_of_get_pinNets hq⟩

/-- Pins are on one net afterwards exactly if they were, or if both their nets were hit and are
on the sheet. -/
theorem HitsBecome.sameNet {circuit after : CircuitJson} (hw : WellWired circuit)
    {pins : Map PinRef SheetPin} {hits : List Text} {final : Text}
    (h : HitsBecome circuit after pins hits final) {p q : PinRef} {a b : Text}
    (hp : (p, a) ∈ pinsOf circuit) (hq : (q, b) ∈ pinsOf circuit) :
    SameNet after p q ↔
      SameNet circuit p q ∨ ((a ∈ hits ∧ Shown pins a) ∧ (b ∈ hits ∧ Shown pins b)) := by
  rw [sameNet_iff hw.keys (get_pinNets_of_mem hw.keys hp) (get_pinNets_of_mem hw.keys hq)]
  by_cases ha : a ∈ hits ∧ Shown pins a <;> by_cases hb : b ∈ hits ∧ Shown pins b
  · rw [sameNet_iff h.keys (h.moved p a hp ha.1 ha.2) (h.moved q b hq hb.1 hb.2)]
    exact ⟨fun _ => .inr ⟨ha, hb⟩, fun _ => rfl⟩
  · rw [sameNet_iff h.keys (h.moved p a hp ha.1 ha.2) (h.kept q b hq hb)]
    constructor
    · intro he
      exact absurd ⟨he ▸ h.final_hit, he ▸ h.final_shown a ha.1 ha.2⟩ hb
    · rintro (he | ⟨-, hin⟩)
      · exact absurd (he ▸ ha) hb
      · exact absurd hin hb
  · rw [sameNet_iff h.keys (h.kept p a hp ha) (h.moved q b hq hb.1 hb.2)]
    constructor
    · intro he
      exact absurd ⟨he ▸ h.final_hit, he ▸ h.final_shown b hb.1 hb.2⟩ ha
    · rintro (he | ⟨hin, -⟩)
      · exact absurd (he ▸ hb) ha
      · exact absurd hin ha
  · rw [sameNet_iff h.keys (h.kept p a hp ha) (h.kept q b hq hb)]
    exact ⟨.inl, fun he => he.elim id fun hin => absurd hin.1 ha⟩

/-! ## The edits -/

/-- What a draft hits is declared. -/
theorem DraftHits.declared {circuit : CircuitJson} (h : Wired circuit) {ui : UiJson}
    (hwires : ∀ w ∈ ui.drawn, WireInStep circuit (pinMap circuit ui.positions) w)
    {draft : WireDraft} {netId : Text} (hit : DraftHits circuit ui draft netId) :
    netId ∈ circuit.nets.map Net.id := by
  have hend : ∀ at' pin, EndHits ui.drawn (pinMap circuit ui.positions) at' pin netId →
      netId ∈ circuit.nets.map Net.id := by
    intro at' pin hend
    cases pin with
    | some ref =>
      obtain ⟨p, hp, rfl⟩ := hend
      exact h.declared _ (mem_pinsOf_of_sheet h hp)
    | none =>
      obtain ⟨w, hw, -, rfl⟩ := hend
      exact (hwires w hw).net
  rcases hit with ⟨at', -, hit⟩ | ⟨at', -, hit⟩
  · exact hend _ _ hit
  · exact hend _ _ hit

/-- `edits` of a plan: the terminals of the nets hit are connected with the first. -/
def connectionsOf (l : Landing) : List (CircuitJson → EditResult CircuitJson) :=
  match l.reps.map Prod.snd with
  | [] => []
  | first :: rest => rest.map fun r c => connectPins c first r

/-- `final` of a plan: the net of the first terminal, else the first net hit. -/
def finalNet (l : Landing) (after : CircuitJson) : Text :=
  match (l.reps.map Prod.snd).head? with
  | some ref => ((pinNets after).get? ref).getD []
  | none => l.netsHit.headD []

/-- Ground and a supply stay apart. -/
def RailsApart (before after : CircuitJson) : Prop :=
  ∀ p q x y, (p, x.id) ∈ pinsOf before → (q, y.id) ∈ pinsOf before →
    netById before x.id = some x → netById before y.id = some y → x.isGround = true →
      y.isPower = true → SameNet after p q → SameNet before p q

theorem railsApart_merged {circuit after : CircuitJson} (h : WellWired circuit) {na nb kept : Net}
    (hna : netById circuit na.id = some na) (hnb : netById circuit nb.id = some nb)
    (hs : ¬ Shorts na nb) (hm : MergesNets circuit after na nb kept) :
    RailsApart circuit after := by
  intro p q x y hp hq hx hy hground hpower hsame
  rcases hm.sameNet.mp hsame with hsame | ⟨hpn, hqn⟩
  · exact hsame
  have hpx : x.id = na.id ∨ x.id = nb.id := hpn.imp (h.netId_eq hp) (h.netId_eq hp)
  have hqy : y.id = na.id ∨ y.id = nb.id := hqn.imp (h.netId_eq hq) (h.netId_eq hq)
  have hnet : ∀ {u v : Net}, netById circuit u.id = some u → netById circuit v.id = some v →
      u.id = v.id → u = v := by
    intro u v hu hv he
    rw [he, hv] at hu
    exact (Option.some.inj hu).symm
  rcases hpx with hpx | hpx <;> rcases hqy with hqy | hqy
  · exact ⟨na.id, hpx ▸ hp, hqy ▸ hq⟩
  · obtain rfl := hnet hx hna hpx
    obtain rfl := hnet hy hnb hqy
    exact absurd (.inl ⟨hground, hpower⟩) hs
  · obtain rfl := hnet hx hnb hpx
    obtain rfl := hnet hy hna hqy
    exact absurd (.inr ⟨hpower, hground⟩) hs
  · exact ⟨nb.id, hpx ▸ hp, hqy ▸ hq⟩

/-- The edits of a plan make one net of those hit. -/
theorem Lands.applied {circuit : CircuitJson} (h : WellWired circuit)
    {positions : Map Text Position} {l : Landing} {hits : Text → Prop}
    (hl : Lands (pinMap circuit positions) l hits 2) (hne : l.netsHit ≠ [])
    (hdeclared : ∀ n, hits n → n ∈ circuit.nets.map Net.id) {after : CircuitJson}
    (hafter : (connectionsOf l).foldlM (fun c edit => (edit c).circuit?) circuit = some after) :
    HitsBecome circuit after (pinMap circuit positions) l.netsHit (finalNet l after) ∧
      RailsApart circuit after := by
  have hkeys : l.reps.length ≤ 2 := by
    have hsub : l.reps.map Prod.fst ⊆ l.netsHit := fun n hn => by
      obtain ⟨e, he, rfl⟩ := List.mem_map.mp hn
      exact (hl.mem_netsHit _).mpr (hl.rep e he).1
    have := (List.Nodup.subperm hl.keyed hsub).length_le
    rw [List.length_map] at this
    exact this.trans hl.length_le
  have hsame : RailsApart circuit circuit := fun p q x y _ _ _ _ _ _ hs => hs
  have hterminal : ∀ ref p, (pinMap circuit positions).get? ref = some p → p.netId ∈ l.netsHit →
      l.reps.get? p.netId ≠ none := fun ref p hp hin hnone =>
    hl.bare _ ((hl.mem_netsHit _).mp hin) hnone _ (Map.mem_of_get? hp) rfl
  cases hreps : l.reps with
  | nil =>
    -- No net that was hit has a terminal on the sheet.
    have hedits : connectionsOf l = [] := by rw [connectionsOf, hreps]; rfl
    have hfinal : finalNet l after = l.netsHit.headD [] := by rw [finalNet, hreps]; rfl
    rw [hedits] at hafter
    obtain rfl : circuit = after := Option.some.inj hafter
    obtain ⟨n, rest, hcons⟩ := List.exists_cons_of_ne_nil hne
    have hin : l.netsHit.headD [] ∈ l.netsHit := by
      rw [hcons]
      exact List.mem_cons_self
    rw [hfinal]
    refine ⟨hitsBecome_same h hin (hdeclared _ ((hl.mem_netsHit _).mp hin)) ?_, hsame⟩
    rintro _ hin ⟨ref, p, hp, rfl⟩
    refine absurd ?_ (hterminal ref p hp hin)
    rw [hreps]
    rfl
  | cons e rest =>
    obtain ⟨hit, p, hp, hpn⟩ := hl.rep e (hreps ▸ List.mem_cons_self)
    have hin : e.1 ∈ l.netsHit := (hl.mem_netsHit _).mpr hit
    cases rest with
    | nil =>
      have hedits : connectionsOf l = [] := by rw [connectionsOf, hreps]; rfl
      rw [hedits] at hafter
      obtain rfl : circuit = after := Option.some.inj hafter
      have hfinal : finalNet l circuit = e.1 := by
        rw [finalNet, hreps, List.map_cons, List.head?_cons]
        simp only
        rw [netId_pinMap h.toWired hp, Option.getD_some, hpn]
      rw [hfinal]
      refine ⟨hitsBecome_same h hin (hdeclared _ hit) ?_, hsame⟩
      rintro _ hin ⟨ref, q, hq, rfl⟩
      by_contra hother
      refine hterminal ref q hq hin ?_
      rw [hreps, Map.get?_cons, if_neg (fun he => hother he.symm)]
      rfl
    | cons e' rest =>
      have hnil : rest = [] := by
        rw [hreps, List.length_cons, List.length_cons] at hkeys
        exact List.length_eq_zero_iff.mp (by omega)
      subst hnil
      obtain ⟨hit', p', hp', hpn'⟩ := hl.rep e' (hreps ▸ List.mem_cons_of_mem _ List.mem_cons_self)
      have hin' : e'.1 ∈ l.netsHit := (hl.mem_netsHit _).mpr hit'
      have hdiff : e.1 ≠ e'.1 := by
        have hnodup := hl.keyed
        rw [Map.Keyed, hreps] at hnodup
        exact fun he => (List.nodup_cons.mp hnodup).1 (List.mem_singleton.mpr he)
      have hedits : connectionsOf l = [fun c => connectPins c e.2 e'.2] := by
        rw [connectionsOf, hreps]
        rfl
      rw [hedits] at hafter
      have hconnect : (connectPins circuit e.2 e'.2).circuit? = some after := by
        rw [List.foldlM_cons] at hafter
        obtain ⟨mid, hmid, hrest⟩ := Option.bind_eq_some_iff.mp hafter
        rw [hmid]
        exact hrest
      have hpin := mem_pinsOf_of_sheet h.toWired hp
      have hpin' := mem_pinsOf_of_sheet h.toWired hp'
      rw [hpn] at hpin
      rw [hpn'] at hpin'
      obtain ⟨c, hc⟩ := h.findPin_eq hpin
      obtain ⟨c', hc'⟩ := h.findPin_eq hpin'
      obtain ⟨na, hna, hida⟩ := h.netById_eq hpin
      obtain ⟨nb, hnb, hidb⟩ := h.netById_eq hpin'
      rw [← hida] at hc hna
      rw [← hidb] at hc' hnb
      obtain ⟨hrefused, hmerges⟩ :=
        connectPins_cases hc hc' (by rw [hida, hidb]; exact hdiff) hna hnb
      have hs : ¬ Shorts na nb := fun hs => by
        rw [hrefused hs] at hconnect
        cases hconnect
      obtain ⟨after', kept, hafter', hm⟩ := hmerges hs
      rw [hconnect] at hafter'
      obtain rfl := Option.some.inj hafter'
      have hhits : ∀ n, n ∈ l.netsHit ↔ n = na.id ∨ n = nb.id := by
        have hsub : [e.1, e'.1] ⊆ l.netsHit := by
          intro n hn
          simp only [List.mem_cons, List.not_mem_nil, or_false] at hn
          rcases hn with rfl | rfl
          exacts [hin, hin']
        have hnodup : [e.1, e'.1].Nodup := by simp [hdiff]
        have hperm := (hnodup.subperm hsub).perm_of_length_le hl.length_le
        intro n
        rw [← hperm.mem_iff, hida, hidb]
        simp
      have hshown : ∀ n ∈ l.netsHit, Shown (pinMap circuit positions) n := by
        intro n hn
        rcases (hhits n).mp hn with rfl | rfl
        · exact ⟨e.2, p, hp, hpn.trans hida.symm⟩
        · exact ⟨e'.2, p', hp', hpn'.trans hidb.symm⟩
      have hbecome := hitsBecome_merged h hm hhits hshown
      have hfinal : finalNet l after = kept.id := by
        rw [finalNet, hreps, List.map_cons, List.head?_cons]
        simp only
        rw [hbecome.onSheet h.toWired hp, Option.getD_some, if_pos (hpn ▸ hin)]
      rw [hfinal]
      exact ⟨hbecome, railsApart_merged h hna hnb hs hm⟩

/-! ## The plan and its commit -/

section

variable [FirstDrawing]

/-- What a plan that is not refused has found out. -/
structure Planned (circuit : CircuitJson) (ui : UiJson) (draft : WireDraft) (l : Landing) : Prop
    where
  lands : Lands (pinMap circuit ui.positions) l (DraftHits circuit ui draft) 2
  hits : l.netsHit ≠ []
  fromSits : ∀ ref, draft.fromRef = some ref →
    ∃ p, (pinMap circuit ui.positions).get? ref = some p ∧
      (tidyPoints draft.points).head? = some p.toXY
  toSits : ∀ ref, draft.toRef = some ref →
    ∃ p, (pinMap circuit ui.positions).get? ref = some p ∧
      (tidyPoints draft.points).getLast? = some p.toXY
  edits : (planWire circuit ui draft).edits = connectionsOf l
  drawing : (planWire circuit ui draft).drawing = fun current _ after =>
    drawWire circuit l (tidyPoints draft.points) draft current after

/-- `planWire`, from what the ends of the wire land on. -/
def landedPlan (circuit : CircuitJson) (points : List XY) (draft : WireDraft) :
    Except String Landing → WirePlan
  | .error message => ⟨"Draw wire".toList, [refusing message], keepDrawing⟩
  | .ok l =>
    if l.netsHit.length = 0 then
      ⟨"Draw wire".toList,
        [refusing "A wire has to start or end on a terminal or on another wire."], keepDrawing⟩
    else
      { label := "Draw wire".toList
        edits := connectionsOf l
        drawing := fun current _ after => drawWire circuit l points draft current after }

/-- A plan refuses, or knows what the draft hits. -/
theorem planWire_cases (circuit : CircuitJson) {ui : UiJson} (hui : ui.wires.isSome = true)
    (draft : WireDraft) :
    (∃ message, (planWire circuit ui draft).edits = [refusing message]) ∨
      ∃ l, Planned circuit ui draft l := by
  have howned : freezeDrawing circuit ui = ui := if_pos hui
  have hpins := ownKeys_pinMap circuit ui.positions
  cases htidy : tidyPoints draft.points with
  | nil =>
    refine .inl ⟨"A wire needs two different points.", ?_⟩
    unfold planWire
    simp only [htidy]
  | cons a tail =>
    cases tail with
    | nil =>
      refine .inl ⟨"A wire needs two different points.", ?_⟩
      unfold planWire
      simp only [htidy]
    | cons b rest =>
      have hplan : planWire circuit ui draft =
          if ¬ AtRightAngles (a :: b :: rest) then
            ⟨"Draw wire".toList, [refusing "A wire runs at right angles."], keepDrawing⟩
          else landedPlan circuit (a :: b :: rest) draft (do
            let l ← landEnd ui.drawn (pinMap circuit ui.positions) {} a draft.fromRef
            landEnd ui.drawn (pinMap circuit ui.positions) l ((a :: b :: rest).getLastD a)
              draft.toRef) := by
        unfold planWire
        simp only [htidy, howned]
        rfl
      by_cases hangles : AtRightAngles (a :: b :: rest)
      case neg => exact .inl ⟨_, by rw [hplan, if_pos hangles]⟩
      rw [if_neg (not_not.mpr hangles)] at hplan
      cases hfrom : landEnd ui.drawn (pinMap circuit ui.positions) {} a draft.fromRef with
      | error message => exact .inl ⟨message, by rw [hplan, hfrom]; rfl⟩
      | ok l₁ =>
      cases hto : landEnd ui.drawn (pinMap circuit ui.positions) l₁
          ((a :: b :: rest).getLastD a) draft.toRef with
      | error message =>
        refine .inl ⟨message, ?_⟩
        rw [hplan, hfrom]
        exact congrArg (fun r => (landedPlan circuit (a :: b :: rest) draft r).edits) hto
      | ok l =>
      have hlast : (tidyPoints draft.points).getLast? = some ((a :: b :: rest).getLastD a) := by
        rw [htidy, List.getLastD_eq_getLast?]
        rfl
      obtain ⟨hlands₁, hsits₁⟩ := (lands_start _).landEnd hpins hfrom
      obtain ⟨hlands, hsits⟩ := hlands₁.landEnd hpins hto
      have hok : planWire circuit ui draft =
          landedPlan circuit (a :: b :: rest) draft (.ok l) := by
        rw [hplan, hfrom]
        exact congrArg _ hto
      unfold landedPlan at hok
      simp only at hok
      by_cases hzero : l.netsHit.length = 0
      · exact .inl ⟨_, by rw [hok, if_pos hzero]⟩
      rw [if_neg hzero] at hok
      refine .inr ⟨l, hlands.congr fun n => ?_, fun hnil => hzero (by rw [hnil]; rfl), ?_, ?_,
        by rw [hok], by rw [hok, htidy]⟩
      · unfold DraftHits
        rw [hlast, htidy]
        simp only [false_or, List.head?_cons, Option.some.injEq, exists_eq_left']
      · intro ref href
        obtain ⟨p, hp, hat⟩ := hsits₁ ref href
        exact ⟨p, hp, by rw [htidy, hat]; rfl⟩
      · intro ref href
        obtain ⟨p, hp, hat⟩ := hsits ref href
        exact ⟨p, hp, by rw [hlast, hat]⟩

theorem answersSame_connectPins (a b : PinRef) : AnswersSame fun c => connectPins c a b := by
  intro circuit after he
  simp only at he
  unfold connectPins at he
  repeat' split at he
  all_goals cases he
  rfl

theorem answersSame_connectionsOf (l : Landing) : ∀ edit ∈ connectionsOf l, AnswersSame edit := by
  intro edit hedit
  unfold connectionsOf at hedit
  split at hedit
  · cases hedit
  · obtain ⟨r, -, rfl⟩ := List.mem_map.mp hedit
    exact answersSame_connectPins _ r

/-- What a wire that is drawn merges. -/
structure MergesHits (circuit : CircuitJson) (ui : UiJson) (draft : WireDraft)
    (after : CircuitJson) : Prop where
  onSheet : ∀ p q a b, (pinMap circuit ui.positions).get? p = some a →
    (pinMap circuit ui.positions).get? q = some b →
      (SameNet after p q ↔ SameNet circuit p q ∨
        (DraftHits circuit ui draft a.netId ∧ DraftHits circuit ui draft b.netId))
  /-- Of pins that are not on the sheet, too, none comes apart and none is merged otherwise. -/
  keeps : ∀ p q, SameNet circuit p q → SameNet after p q
  merged : ∀ p q a b, (p, a) ∈ pinsOf circuit → (q, b) ∈ pinsOf circuit → SameNet after p q →
    SameNet circuit p q ∨ (DraftHits circuit ui draft a ∧ DraftHits circuit ui draft b)
  rails : RailsApart circuit after

/-- How a wire that is drawn is stored. -/
structure StoresWire (wires : List Wire) (draft : WireDraft) (after : CircuitJson)
    (wires' : List Wire) : Prop where
  stored : ∃ kept w, wires' = kept ++ [w] ∧ kept.map Wire.line = wires.map Wire.line ∧
    w.points = tidyPoints draft.points ∧ w.fromRef = draft.fromRef ∧ w.toRef = draft.toRef ∧
    (∀ ref ∈ w.ends, (ref, w.netId) ∈ pinsOf after) ∧
    (draft.fromRef = none → ∀ at', w.points.head? = some at' →
      ∀ v ∈ kept, wireTouches v.points at'.x at'.y = true → v.netId = w.netId) ∧
    (draft.toRef = none → ∀ at', w.points.getLast? = some at' →
      ∀ v ∈ kept, wireTouches v.points at'.x at'.y = true → v.netId = w.netId)

omit [FirstDrawing] in
theorem HitsBecome.merges {circuit after : CircuitJson} (hw : WellWired circuit) {ui : UiJson}
    {draft : WireDraft} {hits : List Text} {final : Text}
    (hhits : ∀ n, n ∈ hits ↔ DraftHits circuit ui draft n)
    (h : HitsBecome circuit after (pinMap circuit ui.positions) hits final)
    (hrails : RailsApart circuit after) : MergesHits circuit ui draft after where
  onSheet := fun p q a b hp hq => by
    rw [h.sameNet hw (mem_pinsOf_of_sheet hw.toWired hp) (mem_pinsOf_of_sheet hw.toWired hq),
      and_iff_left (show Shown _ a.netId from ⟨p, a, hp, rfl⟩),
      and_iff_left (show Shown _ b.netId from ⟨q, b, hq, rfl⟩), hhits, hhits]
  keeps := fun p q hs => by
    obtain ⟨n, hp, hq⟩ := hs
    exact (h.sameNet hw hp hq).mpr (.inl ⟨n, hp, hq⟩)
  merged := fun p q a b hp hq hs =>
    ((h.sameNet hw hp hq).mp hs).imp_right fun hh =>
      ⟨(hhits a).mp hh.1.1, (hhits b).mp hh.2.1⟩
  rails := hrails

omit [FirstDrawing] in
/-- The wires under a free end of the draft have become one net with it. -/
theorem relabelled_under (circuit : CircuitJson) {ui : UiJson} {wires : List Wire}
    (hwires : ui.wires = some wires) {hits : List Text} {final : Text} {at' : XY}
    (hhits : ∀ n, EndHits ui.drawn (pinMap circuit ui.positions) at' none n → n ∈ hits) :
    ∀ v ∈ wires.map (relabelHits hits final), wireTouches v.points at'.x at'.y = true →
      v.netId = final := by
  intro v hv ht
  obtain ⟨w, hw, rfl⟩ := List.mem_map.mp hv
  obtain ⟨hnet, -, -, hpoints⟩ := relabelHits_fields hits final w
  rw [hpoints] at ht
  have hdrawn : ui.drawn = wires := by rw [UiJson.drawn, hwires, Option.getD_some]
  rw [hnet, if_pos (hhits w.netId ⟨w, hdrawn ▸ hw, ht, rfl⟩)]

/-- A wire that is drawn merges exactly the nets its ends are on, and is stored as it was
drawn with the net they have become. -/
theorem drawnWire_merges {history : History} {draft : WireDraft} {wires : List Wire}
    (hwired : WellWired history.present.circuit)
    (howned : (history.present.ui : UiJson).wires = some wires)
    (hinStep : drawingProblems history.present.circuit history.present.ui = [])
    (hdone : ∀ index reason message,
      (Gesture.wire draft).commit history ≠ .refused index reason message) :
    ∃ after notes, (Gesture.wire draft).commit history = .changed after notes ∧
      MergesHits history.present.circuit history.present.ui draft after.present.circuit ∧
      ∃ wires', (after.present.ui : UiJson).wires = some wires' ∧
        StoresWire wires draft after.present.circuit wires' := by
  set circuit : CircuitJson := history.present.circuit with hcircuit
  set ui : UiJson := history.present.ui with hui
  have hisSome : ui.wires.isSome = true := by rw [howned]; rfl
  have hdrawn : ui.drawn = wires := by rw [UiJson.drawn, howned, Option.getD_some]
  have hwires : ∀ w ∈ ui.drawn, WireInStep circuit (pinMap circuit ui.positions) w := by
    rw [hdrawn]
    exact drawingProblems_eq_nil.mp hinStep wires howned
  have hcommit : (Gesture.wire draft).commit history =
      commit history (planWire circuit ui draft).label (planWire circuit ui draft).edits
        (some (planWire circuit ui draft).drawing) := rfl
  rw [hcommit] at hdone ⊢
  rcases planWire_cases circuit hisSome draft with ⟨message, hplan⟩ | ⟨l, hl⟩
  · -- A plan that refuses is refused.
    obtain ⟨applied, happlied⟩ := exists_applied hdone
    rw [hplan] at happlied
    cases happlied
  obtain ⟨applied, happlied⟩ := exists_applied hdone
  have hresult := commit_of_applied history (planWire circuit ui draft).label
    (planWire circuit ui draft).drawing happlied
  rw [hl.edits] at happlied
  have hfold : (connectionsOf l).foldlM (fun c edit => (edit c).circuit?) circuit =
      some applied.circuit := by
    have hfold := circuit_applyEdits (answersSame_connectionsOf l) 0 ⟨circuit, false, [], []⟩
    rw [happlied] at hfold
    exact hfold.symm
  obtain ⟨hbecome, hrails⟩ := hl.lands.applied hwired hl.hits
    (fun n hn => DraftHits.declared hwired.toWired hwires hn) hfold
  set final := finalNet l applied.circuit with hfinal
  set w : Wire := { id := some (nextWireId (wires.map (relabelHits l.netsHit final)))
                    netId := final, points := tidyPoints draft.points
                    fromRef := draft.fromRef, toRef := draft.toRef } with hw
  have hends : ∀ ref ∈ w.ends, ∃ p, (pinMap circuit ui.positions).get? ref = some p ∧
      p.netId ∈ l.netsHit := by
    intro ref href
    rcases List.mem_append.mp href with href | href
    · have href := Option.mem_toList.mp href
      obtain ⟨p, hp, hat⟩ := hl.fromSits ref href
      refine ⟨p, hp, (hl.lands.mem_netsHit _).mpr (.inl ⟨_, hat, ?_⟩)⟩
      rw [show draft.fromRef = some ref from href]
      exact ⟨p, hp, rfl⟩
    · have href := Option.mem_toList.mp href
      obtain ⟨p, hp, hat⟩ := hl.toSits ref href
      refine ⟨p, hp, (hl.lands.mem_netsHit _).mpr (.inr ⟨_, hat, ?_⟩)⟩
      rw [show draft.toRef = some ref from href]
      exact ⟨p, hp, rfl⟩
  have hsync : CircuitForge.syncWires applied.circuit
      (wires.map (relabelHits l.netsHit final) ++ [w]) =
      wires.map (relabelHits l.netsHit final) ++ [w] :=
    hbecome.syncWires hwired.toWired (hdrawn ▸ hwires) rfl hends
  have hnext : (nextDrawing history.present applied
      (some (planWire circuit ui draft).drawing) : UiJson).wires =
      some (wires.map (relabelHits l.netsHit final) ++ [w]) := by
    have hdraw : ((planWire circuit ui draft).drawing ui applied.created applied.circuit).wires =
        some (wires.map (relabelHits l.netsHit final) ++ [w]) := by
      have hfreeze : freezeDrawing circuit ui = ui := if_pos hisSome
      rw [hl.drawing]
      unfold drawWire
      simp only
      rw [hfreeze, hdrawn]
      rfl
    rw [wires_nextDrawing hisSome hdraw, hsync]
  have hchanged : commit history (planWire circuit ui draft).label
      (planWire circuit ui draft).edits (some (planWire circuit ui draft).drawing) =
      .changed (recorded history (planWire circuit ui draft).label ⟨applied.circuit,
        nextDrawing history.present applied (some (planWire circuit ui draft).drawing)⟩)
        applied.notes := by
    refine hresult.resolve_right ?_
    rintro ⟨-, hsame⟩
    -- The drawing has one wire more.
    have := sameDrawing_wires hsame
    rw [hnext, ← hui, howned, Option.some.injEq] at this
    have := congrArg List.length this
    rw [List.length_append, List.length_map, List.length_singleton] at this
    omega
  refine ⟨_, _, hchanged, hbecome.merges hwired hl.lands.mem_netsHit hrails, _, hnext,
    _, w, rfl, ?_, rfl, rfl, rfl, ?_, ?_, ?_⟩
  · rw [List.map_map]
    exact List.map_congr_left fun v _ => (relabelHits_fields l.netsHit final v).2.2.1
  · intro ref href
    obtain ⟨p, hp, hin⟩ := hends ref href
    refine mem_of_get_pinNets ?_
    show (pinNets applied.circuit).get? ref = _
    rw [hbecome.onSheet hwired.toWired hp, if_pos hin]
  · intro hnone at' hat
    refine relabelled_under circuit howned fun n hn =>
      (hl.lands.mem_netsHit n).mpr (.inl ⟨at', hat, ?_⟩)
    rw [hnone]
    exact hn
  · intro hnone at' hat
    refine relabelled_under circuit howned fun n hn =>
      (hl.lands.mem_netsHit n).mpr (.inr ⟨at', hat, ?_⟩)
    rw [hnone]
    exact hn

end

end

section

/-- A drawing that nobody owns is taken as it is. -/
local instance plainDrawing : FirstDrawing := ⟨fun _ ui => ui⟩

/-- A wire around the pair, between its free terminals. -/
def roundWire : WireDraft where
  points := [⟨-20, 0⟩, ⟨-20, -40⟩, ⟨80, -40⟩, ⟨80, 0⟩]
  fromRef := some ⟨"r1".toList, "1".toList⟩
  toRef := some ⟨"r2".toList, "2".toList⟩

def pairHistory : History := beginHistory ⟨wiredPair, pairDrawing⟩

theorem drawnWire_merges_roundWire :
    ∃ after notes, (Gesture.wire roundWire).commit pairHistory = .changed after notes ∧
      SameNet after.present.circuit ⟨"r1".toList, "1".toList⟩ ⟨"r2".toList, "2".toList⟩ := by
  have hdone : ((Gesture.wire roundWire).commit pairHistory).done = true := by decide +kernel
  have hwired : WellWired pairHistory.present.circuit :=
    (⟨⟨by decide, by decide⟩, by decide⟩ : WellWired wiredPair)
  obtain ⟨after, notes, hcommit, hmerges, -⟩ :=
    drawnWire_merges hwired rfl
      (by decide +kernel : drawingProblems wiredPair pairDrawing = [])
      (CommitResult.ne_refused hdone)
  refine ⟨after, notes, hcommit, ?_⟩
  obtain ⟨a, ha⟩ : ∃ a, (pinMap wiredPair pairDrawing.positions).get?
      ⟨"r1".toList, "1".toList⟩ = some a := Option.isSome_iff_exists.mp (by decide +kernel)
  obtain ⟨b, hb⟩ : ∃ b, (pinMap wiredPair pairDrawing.positions).get?
      ⟨"r2".toList, "2".toList⟩ = some b := Option.isSome_iff_exists.mp (by decide +kernel)
  refine (hmerges.onSheet _ _ a b ha hb).mpr (.inr ⟨.inl ⟨⟨-20, 0⟩, by decide +kernel, a, ha, rfl⟩,
    .inr ⟨⟨80, 0⟩, by decide +kernel, b, hb, rfl⟩⟩)

end

end CircuitForge
