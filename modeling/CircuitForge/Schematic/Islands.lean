/-
What a drawing joins.

Wires of one net touch where an end of either lies on the other, and a chain of touching
wires is a conductor.  A terminal is on a conductor of its net where a wire passes over it
or is recorded on it; two terminals of one net are also joined by sitting on one spot.
-/
import CircuitForge.Js.UnionFind
import CircuitForge.Schematic.Conductors
import CircuitForge.Schematic.Gestures

namespace CircuitForge

open Js Relation Classes

/-! ## Conductors -/

/-- Two wires of one net, an end of either on the other. -/
def WiresTouch (wires : List Wire) (i k : Nat) : Prop :=
  ∃ a b, wires[i]? = some a ∧ wires[k]? = some b ∧ a.netId = b.netId ∧ touching a b = true

/-- Two wires are on one conductor. -/
def SameConductor (wires : List Wire) : Nat → Nat → Prop := EqvGen (WiresTouch wires)

theorem touching_comm (a b : Wire) : touching a b = touching b a := Bool.or_comm _ _

theorem mem_joints_iff {wires : List Wire} {i k : Nat} :
    (i, k) ∈ joints wires ↔ i < k ∧ WiresTouch wires i k := by
  unfold joints WiresTouch
  simp only [List.mem_flatMap, List.mem_map, List.mem_filter, List.mem_range, Prod.mk.injEq]
  constructor
  · rintro ⟨i', hi', k', ⟨hk', hjoined⟩, rfl, rfl⟩
    split at hjoined
    · next a b ha hb =>
      simp only [Bool.and_eq_true, decide_eq_true_eq] at hjoined
      exact ⟨hjoined.1.1, a, b, ha, hb, hjoined.1.2, hjoined.2⟩
    · cases hjoined
  · rintro ⟨hlt, a, b, ha, hb, hnet, htouch⟩
    refine ⟨i, (List.getElem?_eq_some_iff.mp ha).1, k, ⟨(List.getElem?_eq_some_iff.mp hb).1, ?_⟩,
      rfl, rfl⟩
    rw [ha, hb]
    simp only [hlt, hnet, htouch, decide_true, Bool.and_self]

theorem eqvGen_joints {wires : List Wire} {i k : Nat} :
    EqvGen (fun i k => (i, k) ∈ joints wires) i k ↔ SameConductor wires i k := by
  constructor
  · exact eqvGen_le fun i k h => .rel _ _ (mem_joints_iff.mp h).2
  · refine eqvGen_le fun i k h => ?_
    obtain ⟨a, b, ha, hb, hnet, htouch⟩ := h
    rcases Nat.lt_trichotomy i k with hlt | rfl | hlt
    · exact .rel _ _ (mem_joints_iff.mpr ⟨hlt, a, b, ha, hb, hnet, htouch⟩)
    · exact .refl _
    · exact .symm _ _ (.rel _ _ (mem_joints_iff.mpr
        ⟨hlt, b, a, hb, ha, hnet.symm, touching_comm a b ▸ htouch⟩))

/-- The wires of a group are those of one conductor. -/
theorem mem_groupsOf {wires : List Wire} {group : List Nat} (h : group ∈ groupsOf wires) {i : Nat}
    (hi : i ∈ group) (k : Nat) : k ∈ group ↔ k < wires.length ∧ SameConductor wires i k := by
  obtain ⟨⟨key, members⟩, he, rfl⟩ := List.mem_map.mp h
  obtain ⟨-, rfl⟩ := Map.mem_group he
  obtain ⟨-, hkey⟩ := List.mem_filter.mp hi
  rw [decide_eq_true_eq] at hkey
  rw [List.mem_filter, List.mem_range, decide_eq_true_eq, ← hkey, ← eqvGen_joints, ← root_eq_iff,
    eq_comm]
  rfl

theorem lt_of_mem_groupsOf {wires : List Wire} {group : List Nat} (h : group ∈ groupsOf wires)
    {i : Nat} (hi : i ∈ group) : i < wires.length :=
  ((mem_groupsOf h hi i).mp hi).1

/-- The wires of one conductor carry one label. -/
theorem SameConductor.netId {wires : List Wire} {i k : Nat} (h : SameConductor wires i k) :
    wires[i]?.map Wire.netId = wires[k]?.map Wire.netId := by
  induction h with
  | rel i k h =>
    obtain ⟨a, b, ha, hb, hnet, -⟩ := h
    rw [ha, hb, Option.map_some, Option.map_some, hnet]
  | refl => rfl
  | symm _ _ _ ih => exact ih.symm
  | trans _ _ _ _ _ ih₁ ih₂ => exact ih₁.trans ih₂

/-! ## Terminals -/

/-- The index of the last terminal with a key. -/
def pinIndex (pins : List SheetPin) : Map PinRef Nat :=
  Map.fill (fun e : SheetPin × Nat => e.1.key) Prod.snd pins.zipIdx []

/-- The terminal is on the wire, and the wire on the net of the terminal. -/
def OnWire (pins : List SheetPin) (wires : List Wire) (i k : Nat) : Prop :=
  ∃ p w, pins[i]? = some p ∧ wires[k]? = some w ∧ p.netId = w.netId ∧
    (wireTouches w.points p.x p.y = true ∨ ∃ ref ∈ w.ends, (pinIndex pins).get? ref = some i)

/-- The terminals are on one conductor. -/
def ConductorJoins (pins : List SheetPin) (wires : List Wire) (i j : Nat) : Prop :=
  ∃ k l, OnWire pins wires i k ∧ OnWire pins wires j l ∧ SameConductor wires k l

/-- The terminals are of one net and on one spot. -/
def SpotJoins (pins : List SheetPin) (i j : Nat) : Prop :=
  ∃ p q, pins[i]? = some p ∧ pins[j]? = some q ∧ p.netId = q.netId ∧ p.toXY = q.toXY

/-- What the drawing joins. -/
def DrawingJoins (pins : List SheetPin) (wires : List Wire) : Nat → Nat → Prop :=
  EqvGen fun i j => ConductorJoins pins wires i j ∨ SpotJoins pins i j

/-- The terminals on the wires of a group. -/
def reachedPins (pins : List SheetPin) (wires : List Wire) (group : List Nat) : List Nat :=
  match group.filterMap (wires[·]?) with
  | [] => []
  | w :: ws =>
    let reached := (pins.zipIdx.filter fun e => e.1.netId = w.netId &&
      (w :: ws).any fun v => wireTouches v.points e.1.x e.1.y).map Prod.snd
    let ended := (w :: ws).flatMap fun v => v.ends.filterMap (pinIndex pins).get?
    (reached ++ ended).filter fun i => (pins[i]?.map (·.netId)) = some w.netId

theorem mem_reachedPins {pins : List SheetPin} {wires : List Wire} {group : List Nat}
    (h : group ∈ groupsOf wires) {i : Nat} :
    i ∈ reachedPins pins wires group ↔ ∃ k ∈ group, OnWire pins wires i k := by
  -- All wires of the group carry the label of the first.
  have hlabel : ∀ k ∈ group, ∀ l ∈ group, ∀ v w, wires[k]? = some v → wires[l]? = some w →
      v.netId = w.netId := by
    intro k hk l hl v w hv hw
    have := netId_groupsOf h hk hl
    rw [hv, hw] at this
    exact Option.some.inj this
  have hwires : ∀ v, v ∈ group.filterMap (wires[·]?) ↔ ∃ k ∈ group, wires[k]? = some v :=
    fun v => List.mem_filterMap
  unfold reachedPins OnWire
  split
  · next hnil =>
    refine ⟨fun hi => (by cases hi), ?_⟩
    rintro ⟨k, hk, p, w, -, hw, -⟩
    have := (hwires w).mpr ⟨k, hk, hw⟩
    rw [hnil] at this
    cases this
  · next w ws hcons =>
    rw [hcons] at hwires
    obtain ⟨k₀, hk₀, hw₀⟩ := (hwires w).mp List.mem_cons_self
    simp only [List.mem_filter, List.mem_append, List.mem_map, List.mem_flatMap,
      List.mem_filterMap, Bool.and_eq_true, decide_eq_true_eq, List.any_eq_true,
      Option.map_eq_some_iff, Prod.exists, List.mem_zipIdx_iff_getElem?]
    constructor
    · rintro ⟨⟨p, j, ⟨hp, hnet, v, hv, htouch⟩, rfl⟩ | ⟨v, hv, ref, href, hi⟩, p', hp', hnet'⟩
      · obtain ⟨k, hk, hvk⟩ := (hwires v).mp hv
        exact ⟨k, hk, p, v, hp, hvk, hnet.trans (hlabel k₀ hk₀ k hk w v hw₀ hvk), .inl htouch⟩
      · obtain ⟨k, hk, hvk⟩ := (hwires v).mp hv
        exact ⟨k, hk, p', v, hp', hvk, hnet'.trans (hlabel k₀ hk₀ k hk w v hw₀ hvk),
          .inr ⟨ref, href, hi⟩⟩
    · rintro ⟨k, hk, p, v, hp, hvk, hnet, hon⟩
      have hv := (hwires v).mpr ⟨k, hk, hvk⟩
      have hnet' : p.netId = w.netId := hnet.trans (hlabel k hk k₀ hk₀ v w hvk hw₀)
      refine ⟨?_, p, hp, hnet'⟩
      rcases hon with htouch | ⟨ref, href, hi⟩
      · exact .inl ⟨p, i, ⟨hp, hnet', v, hv, htouch⟩, rfl⟩
      · exact .inr ⟨v, hv, ref, href, hi⟩

/-- The terminals on each spot. -/
def spotPins (pins : List SheetPin) : List (List Nat) :=
  (Map.group (fun e : SheetPin × Nat => (e.1.netId, e.1.toXY)) pins.zipIdx).map
    fun e => e.2.map Prod.snd

theorem mem_spotPins {pins : List SheetPin} {i j : Nat} :
    (∃ xs ∈ spotPins pins, i ∈ xs ∧ j ∈ xs) ↔ SpotJoins pins i j := by
  unfold spotPins SpotJoins
  constructor
  · rintro ⟨xs, hxs, hi, hj⟩
    obtain ⟨⟨key, es⟩, he, rfl⟩ := List.mem_map.mp hxs
    obtain ⟨-, rfl⟩ := Map.mem_group he
    obtain ⟨⟨p, i⟩, hp, rfl⟩ := List.mem_map.mp hi
    obtain ⟨⟨q, j⟩, hq, rfl⟩ := List.mem_map.mp hj
    obtain ⟨hp, hpk⟩ := List.mem_filter.mp hp
    obtain ⟨hq, hqk⟩ := List.mem_filter.mp hq
    rw [decide_eq_true_eq] at hpk hqk
    have hkeys := hpk.trans hqk.symm
    exact ⟨p, q, List.mem_zipIdx_iff_getElem?.mp hp, List.mem_zipIdx_iff_getElem?.mp hq,
      congrArg Prod.fst hkeys, congrArg Prod.snd hkeys⟩
  · rintro ⟨p, q, hp, hq, hnet, hspot⟩
    obtain ⟨es, hes, hmem⟩ := Map.exists_group
      (k := fun e : SheetPin × Nat => (e.1.netId, e.1.toXY))
      (List.mem_zipIdx_iff_getElem?.mpr hp : (p, i) ∈ pins.zipIdx)
    refine ⟨es.map Prod.snd, List.mem_map.mpr ⟨_, hes, rfl⟩, List.mem_map.mpr ⟨_, hmem, rfl⟩, ?_⟩
    obtain ⟨-, rfl⟩ := Map.mem_group hes
    refine List.mem_map.mpr ⟨(q, j), List.mem_filter.mpr
      ⟨List.mem_zipIdx_iff_getElem?.mpr hq, decide_eq_true ?_⟩, rfl⟩
    exact Prod.ext hnet.symm hspot.symm

theorem drawnIslands_eq (pins : List SheetPin) (wires : List Wire) (i : Nat) :
    drawnIslands pins wires i =
      root (((groupsOf wires).map (reachedPins pins wires) ++ spotPins pins).flatMap star) i := by
  rw [List.flatMap_append, List.flatMap_map, spotPins, List.flatMap_map]
  unfold drawnIslands root
  simp only
  congr 3
  congr 1
  · refine List.flatMap_congr fun group _ => ?_
    unfold reachedPins
    generalize group.filterMap (wires[·]?) = members
    cases members with
    | nil => rfl
    | cons w ws =>
      simp only [pinIndex]
      generalize List.filter _ (_ ++ _) = xs
      cases xs <;> rfl
  · refine List.flatMap_congr fun e _ => ?_
    generalize e.2.map Prod.snd = xs
    cases xs <;> rfl

/-- Two terminals are on one island exactly if the drawing joins them. -/
theorem drawnIslands_eq_iff {pins : List SheetPin} {wires : List Wire} {i j : Nat} :
    drawnIslands pins wires i = drawnIslands pins wires j ↔ DrawingJoins pins wires i j := by
  rw [drawnIslands_eq, drawnIslands_eq, root_eq_iff, eqvGen_stars]
  have hlists : ∀ i j, (∃ xs ∈ (groupsOf wires).map (reachedPins pins wires) ++ spotPins pins,
      i ∈ xs ∧ j ∈ xs) ↔ ConductorJoins pins wires i j ∨ SpotJoins pins i j := by
    intro i j
    rw [← mem_spotPins]
    constructor
    · rintro ⟨xs, hxs, hi, hj⟩
      rcases List.mem_append.mp hxs with hxs | hxs
      · obtain ⟨group, hgroup, rfl⟩ := List.mem_map.mp hxs
        obtain ⟨k, hk, hik⟩ := (mem_reachedPins hgroup).mp hi
        obtain ⟨l, hl, hjl⟩ := (mem_reachedPins hgroup).mp hj
        exact .inl ⟨k, l, hik, hjl, ((mem_groupsOf hgroup hk l).mp hl).2⟩
      · exact .inr ⟨xs, hxs, hi, hj⟩
    · rintro (⟨k, l, hik, hjl, hkl⟩ | ⟨xs, hxs, hi, hj⟩)
      · obtain ⟨-, w, -, hw, -⟩ := id hik
        obtain ⟨-, v, -, hv, -⟩ := id hjl
        obtain ⟨group, hgroup, hk⟩ := exists_groupsOf (List.getElem?_eq_some_iff.mp hw).1
        have hl := (mem_groupsOf hgroup hk l).mpr ⟨(List.getElem?_eq_some_iff.mp hv).1, hkl⟩
        exact ⟨_, List.mem_append_left _ (List.mem_map_of_mem hgroup),
          (mem_reachedPins hgroup).mpr ⟨k, hk, hik⟩,
          (mem_reachedPins hgroup).mpr ⟨l, hl, hjl⟩⟩
      · exact ⟨xs, List.mem_append_right _ hxs, hi, hj⟩
  simp only [hlists]
  rfl

end CircuitForge
