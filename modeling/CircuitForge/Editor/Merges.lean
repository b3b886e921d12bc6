/-
Connecting two pins and taking one off again, as what they do to the classes of pins that
share a net.

A connection joins two classes, under the net whose declared role ranks higher.  A pin taken
off its net and put back with one of its former neighbours is where it was.
-/
import CircuitForge.Editor.Moves
import CircuitForge.Js.Exact

namespace CircuitForge

open Js

/-- One net is declared ground and the other a power rail. -/
def Shorts (na nb : Net) : Prop :=
  na.isGround = true ∧ nb.isPower = true ∨ na.isPower = true ∧ nb.isGround = true

section

variable [Runtime]

/-! ## Circuits whose ids tell pins apart -/

/-- Component ids and the pin ids of a component occur once, and pins sit on declared nets. -/
structure WellWired (circuit : CircuitJson) : Prop extends Wired circuit where
  pinIds : ∀ c ∈ circuit.components, (c.pins.map PinConnection.pinId).Nodup

/-- Two pins sit on one net. -/
def SameNet (circuit : CircuitJson) (p q : PinRef) : Prop :=
  ∃ netId, (p, netId) ∈ pinsOf circuit ∧ (q, netId) ∈ pinsOf circuit

/-- A pin is found on its net. -/
theorem WellWired.findPin_eq {circuit : CircuitJson} (h : WellWired circuit) {ref : PinRef}
    {netId : Text} (hpin : (ref, netId) ∈ pinsOf circuit) :
    ∃ c, findPin circuit ref = .ok (c, netId) := by
  obtain ⟨c, hc, p, hp, rfl, rfl⟩ := mem_pinsOf.mp hpin
  refine ⟨c, ?_⟩
  unfold findPin
  dsimp only
  rw [find?_of_key h.componentIds hc]
  dsimp only
  rw [find?_of_key (h.pinIds c hc) hp]

/-- A pin sits on one net. -/
theorem WellWired.netId_eq {circuit : CircuitJson} (h : WellWired circuit) {ref : PinRef}
    {netId netId' : Text} (hpin : (ref, netId) ∈ pinsOf circuit)
    (hpin' : (ref, netId') ∈ pinsOf circuit) : netId = netId' := by
  obtain ⟨c, hc⟩ := h.findPin_eq hpin
  obtain ⟨c', hc'⟩ := h.findPin_eq hpin'
  rw [hc] at hc'
  cases hc'
  rfl

/-- Every pin has its own key. -/
theorem WellWired.keys {circuit : CircuitJson} (h : WellWired circuit) :
    ((pinsOf circuit).map Prod.fst).Nodup := by
  rw [pinsOf, List.map_flatMap, List.nodup_flatMap]
  constructor
  · intro c hc
    rw [List.map_map]
    have hkeys : (c.pins.map PinConnection.pinId).map (PinRef.mk c.id) =
        c.pins.map (Prod.fst ∘ fun p => ((⟨c.id, p.pinId⟩ : PinRef), p.netId)) := by
      rw [List.map_map]
      rfl
    rw [← hkeys]
    exact (h.pinIds c hc).map fun a b he => congrArg PinRef.pinId he
  · refine (List.pairwise_map.mp h.componentIds).imp fun {c c'} hne key hkey hkey' => ?_
    obtain ⟨e, he, rfl⟩ := List.mem_map.mp hkey
    obtain ⟨p, -, rfl⟩ := List.mem_map.mp he
    obtain ⟨e', he', hke⟩ := List.mem_map.mp hkey'
    obtain ⟨p', -, rfl⟩ := List.mem_map.mp he'
    exact hne (congrArg PinRef.componentId hke).symm

/-- A pin's net is declared. -/
theorem Wired.netById_eq {circuit : CircuitJson} (h : Wired circuit) {ref : PinRef} {netId : Text}
    (hpin : (ref, netId) ∈ pinsOf circuit) :
    ∃ net, netById circuit netId = some net ∧ net.id = netId := by
  obtain ⟨net, hnet, hid⟩ := List.mem_map.mp (h.declared _ hpin)
  cases hf : netById circuit netId with
  | none => exact absurd (decide_eq_true hid) (List.find?_eq_none.mp hf net hnet)
  | some net' => exact ⟨net', rfl, (netById_eq_some hf).2⟩

/-- Pins moved to another net keep their ids and their order. -/
theorem pinsOf_moveAll {circuit : CircuitJson} {nets : List Net}
    {moves : PinRef → PinConnection → Bool} {target : Text} :
    pinsOf { circuit with components := moveAll circuit.components moves target, nets } =
      circuit.components.flatMap fun c => c.pins.map fun p =>
        (⟨c.id, p.pinId⟩, if moves ⟨c.id, p.pinId⟩ p then target else p.netId) := by
  rw [pinsOf, moveAll, List.flatMap_map]
  refine List.flatMap_congr fun c _ => ?_
  rw [Component.repoint, List.map_map]
  refine List.map_congr_left fun p _ => ?_
  simp only [Function.comp_apply]
  split <;> rfl

theorem pinIds_moveAll {circuit : CircuitJson} (h : WellWired circuit)
    {moves : PinRef → PinConnection → Bool} {target : Text} {c : Component}
    (hc : c ∈ moveAll circuit.components moves target) :
    (c.pins.map PinConnection.pinId).Nodup := by
  obtain ⟨c, hmem, rfl⟩ := List.mem_map.mp hc
  rw [Component.repoint, List.map_map]
  have hids : (PinConnection.pinId ∘ fun p : PinConnection =>
      if moves ⟨c.id, p.pinId⟩ p then { p with netId := target } else p) =
      PinConnection.pinId := by
    funext p
    simp only [Function.comp_apply]
    split <;> rfl
  rw [hids]
  exact h.pinIds c hmem

/-! ## Two nets merged -/

/-- The pins of two nets are on one of them, which has the roles of both; nothing else moved. -/
structure MergesNets (before after : CircuitJson) (na nb kept : Net) : Prop where
  kept_eq : kept = na ∨ kept = nb
  declared : netById after kept.id = some kept
  isGround : kept.isGround = (na.isGround || nb.isGround)
  isPower : kept.isPower = (na.isPower || nb.isPower)
  /-- The other nets stay as they are. -/
  others : ∀ net ∈ before.nets, net.id ≠ na.id → net.id ≠ nb.id → net ∈ after.nets
  /-- Every pin is there once, in its place, on its own net or on the kept one. -/
  pins : pinsOf after = (pinsOf before).map fun e =>
    if e.2 = na.id ∨ e.2 = nb.id then (e.1, kept.id) else e

theorem MergesNets.mem_pinsOf {before after : CircuitJson} {na nb kept : Net}
    (h : MergesNets before after na nb kept) {key : PinRef} {netId : Text} :
    (key, netId) ∈ pinsOf after ↔
      (netId = kept.id ∧ ((key, na.id) ∈ pinsOf before ∨ (key, nb.id) ∈ pinsOf before)) ∨
        (netId ≠ na.id ∧ netId ≠ nb.id ∧ (key, netId) ∈ pinsOf before) := by
  rw [h.pins, List.mem_map]
  constructor
  · rintro ⟨⟨key', was⟩, hpin, he⟩
    dsimp only at he
    by_cases hwas : was = na.id ∨ was = nb.id
    · rw [if_pos hwas] at he
      cases he
      refine .inl ⟨rfl, ?_⟩
      rcases hwas with rfl | rfl
      · exact .inl hpin
      · exact .inr hpin
    · rw [if_neg hwas] at he
      cases he
      exact .inr ⟨fun hn => hwas (.inl hn), fun hn => hwas (.inr hn), hpin⟩
  · rintro (⟨rfl, hpin | hpin⟩ | ⟨hna, hnb, hpin⟩)
    · exact ⟨_, hpin, if_pos (.inl rfl)⟩
    · exact ⟨_, hpin, if_pos (.inr rfl)⟩
    · exact ⟨_, hpin, if_neg (not_or.mpr ⟨hna, hnb⟩)⟩

/-- The classes of the two nets become one, and every other class stays. -/
theorem MergesNets.sameNet {before after : CircuitJson} {na nb kept : Net}
    (h : MergesNets before after na nb kept) {p q : PinRef} :
    SameNet after p q ↔ SameNet before p q ∨
      (((p, na.id) ∈ pinsOf before ∨ (p, nb.id) ∈ pinsOf before) ∧
        ((q, na.id) ∈ pinsOf before ∨ (q, nb.id) ∈ pinsOf before)) := by
  have hkept : kept.id = na.id ∨ kept.id = nb.id :=
    h.kept_eq.imp (congrArg Net.id) (congrArg Net.id)
  constructor
  · rintro ⟨netId, hp, hq⟩
    rcases h.mem_pinsOf.mp hp with ⟨rfl, hon⟩ | ⟨hna, hnb, hp⟩
    · rcases h.mem_pinsOf.mp hq with ⟨-, hqon⟩ | ⟨hna, hnb, -⟩
      · exact .inr ⟨hon, hqon⟩
      · exact absurd hkept (not_or.mpr ⟨hna, hnb⟩)
    · rcases h.mem_pinsOf.mp hq with ⟨rfl, -⟩ | ⟨-, -, hq⟩
      · exact absurd hkept (not_or.mpr ⟨hna, hnb⟩)
      · exact .inl ⟨netId, hp, hq⟩
  · rintro (⟨netId, hp, hq⟩ | ⟨hp, hq⟩)
    · by_cases hnet : netId = na.id ∨ netId = nb.id
      · refine ⟨kept.id, h.mem_pinsOf.mpr (.inl ⟨rfl, ?_⟩), h.mem_pinsOf.mpr (.inl ⟨rfl, ?_⟩)⟩
        · rcases hnet with rfl | rfl
          exacts [.inl hp, .inr hp]
        · rcases hnet with rfl | rfl
          exacts [.inl hq, .inr hq]
      · obtain ⟨hna, hnb⟩ := not_or.mp hnet
        exact ⟨netId, h.mem_pinsOf.mpr (.inr ⟨hna, hnb, hp⟩),
          h.mem_pinsOf.mpr (.inr ⟨hna, hnb, hq⟩)⟩
    · exact ⟨kept.id, h.mem_pinsOf.mpr (.inl ⟨rfl, hp⟩), h.mem_pinsOf.mpr (.inl ⟨rfl, hq⟩)⟩

omit [Runtime] in
/-- The net of higher rank has the roles of both, unless their roles short the supply. -/
theorem roles_of_rank {kept gone : Net} (h : rank gone ≤ rank kept) (hs : ¬ Shorts kept gone) :
    kept.isGround = (kept.isGround || gone.isGround) ∧
      kept.isPower = (kept.isPower || gone.isPower) := by
  unfold Shorts at hs
  unfold rank at h
  cases hkg : kept.isGround <;> cases hkp : kept.isPower <;> cases hgg : gone.isGround <;>
    cases hgp : gone.isPower <;> simp_all

/-- One net merged into the other. -/
theorem mergesNets_absorb {circuit : CircuitJson} {kept gone : Net}
    (hkept : netById circuit kept.id = some kept) (hne : gone.id ≠ kept.id)
    (hrank : rank gone ≤ rank kept) (hs : ¬ Shorts kept gone) :
    MergesNets circuit (absorb circuit gone.id kept.id) kept gone kept where
  kept_eq := .inl rfl
  declared := by
    unfold netById absorb
    rw [List.find?_filter]
    refine Eq.trans (congrArg (List.find? · circuit.nets) (funext fun n => ?_)) hkept
    by_cases hid : n.id = kept.id
    · simp only [hid, hne.symm, ne_eq, not_false_eq_true, decide_true, and_self]
    · simp only [hid, decide_false, Bool.false_eq_true, and_false]
  isGround := (roles_of_rank hrank hs).1
  isPower := (roles_of_rank hrank hs).2
  others := fun net hnet _ hgone => List.mem_filter.mpr ⟨hnet, decide_eq_true hgone⟩
  pins := by
    rw [absorb, pinsOf_moveAll, pinsOf, List.map_flatMap]
    refine List.flatMap_congr fun c _ => ?_
    rw [List.map_map]
    refine List.map_congr_left fun p _ => ?_
    simp only [Function.comp_apply, decide_eq_true_eq]
    by_cases hgone : p.netId = gone.id
    · rw [if_pos hgone, if_pos (.inr hgone)]
    · by_cases hk : p.netId = kept.id
      · rw [if_neg hgone, if_pos (.inl hk), hk]
      · rw [if_neg hgone, if_neg (not_or.mpr ⟨hk, hgone⟩)]

theorem MergesNets.symm {before after : CircuitJson} {na nb kept : Net}
    (h : MergesNets before after na nb kept) : MergesNets before after nb na kept where
  kept_eq := h.kept_eq.symm
  declared := h.declared
  isGround := by rw [h.isGround, Bool.or_comm]
  isPower := by rw [h.isPower, Bool.or_comm]
  others := fun net hnet hb ha => h.others net hnet ha hb
  pins := by
    rw [h.pins]
    refine List.map_congr_left fun e _ => ?_
    simp only [or_comm]

omit [Runtime] in
theorem shorts_iff {na nb : Net} :
    ((na.isGround && nb.isPower) || (na.isPower && nb.isGround)) = true ↔ Shorts na nb := by
  rw [Shorts, Bool.or_eq_true, Bool.and_eq_true, Bool.and_eq_true]

/-- A connection of pins on two nets is refused if it shorts a supply, and merges them if not. -/
theorem connectPins_cases {circuit : CircuitJson} {a b : PinRef} {ca cb : Component}
    {na nb : Net} (ha : findPin circuit a = .ok (ca, na.id))
    (hb : findPin circuit b = .ok (cb, nb.id)) (hne : na.id ≠ nb.id)
    (hna : netById circuit na.id = some na) (hnb : netById circuit nb.id = some nb) :
    (Shorts na nb → (connectPins circuit a b).circuit? = none) ∧
      (¬ Shorts na nb → ∃ after kept, (connectPins circuit a b).circuit? = some after ∧
        MergesNets circuit after na nb kept) := by
  have hab : a ≠ b := by
    rintro rfl
    rw [ha] at hb
    exact hne (congrArg Prod.snd (Except.ok.inj hb))
  unfold connectPins
  rw [ha, hb]
  dsimp only
  rw [if_neg hab, if_neg hne, hna, hnb]
  dsimp only
  by_cases hs : Shorts na nb
  · rw [if_pos (shorts_iff.mpr hs)]
    exact ⟨fun _ => rfl, fun hn => absurd hs hn⟩
  · rw [if_neg fun h => hs (shorts_iff.mp h)]
    refine ⟨fun h => absurd h hs, fun _ => ?_⟩
    by_cases hrank : rank nb ≥ rank na
    · rw [if_pos hrank]
      refine ⟨absorb circuit na.id nb.id, nb, ?_, ?_⟩
      · rw [repoint_eq]
        rfl
      · refine (mergesNets_absorb hnb hne hrank fun h => hs ?_).symm
        exact h.symm.imp And.symm And.symm
    · rw [if_neg hrank]
      refine ⟨absorb circuit nb.id na.id, na, ?_, ?_⟩
      · rw [repoint_eq]
        rfl
      · exact mergesNets_absorb hna hne.symm (Nat.le_of_not_le hrank) hs

/-! ## A pin taken off and put back -/

/-- The pin on a fresh net, and that net declared. -/
def detached (circuit : CircuitJson) (ref : PinRef) : CircuitJson :=
  rekey circuit [ref] (freshNet circuit).id (circuit.nets ++ [freshNet circuit])

theorem WellWired.detached {circuit : CircuitJson} (h : WellWired circuit) (ref : PinRef) :
    WellWired (detached circuit ref) where
  toWired := h.toWired.rekey_fresh [ref]
  pinIds := fun c hc => by
    have hmoved : c ∈ moveAll circuit.components (fun key _ => key ∈ [ref]) _ := hc
    exact pinIds_moveAll h hmoved

theorem mem_pinsOf_detached {circuit : CircuitJson} {ref key : PinRef} {netId : Text} :
    (key, netId) ∈ pinsOf (detached circuit ref) ↔
      (key = ref ∧ netId = (freshNet circuit).id ∧ ∃ was, (key, was) ∈ pinsOf circuit) ∨
        (key ≠ ref ∧ (key, netId) ∈ pinsOf circuit) := by
  rw [detached, mem_pinsOf_rekey]
  simp only [List.mem_singleton, ne_eq]

/-- A pin with a neighbour goes to a fresh net. -/
theorem disconnectPin_eq {circuit : CircuitJson} (h : WellWired circuit) {ref other : PinRef}
    {netId : Text} (hpin : (ref, netId) ∈ pinsOf circuit) (hother : (other, netId) ∈ pinsOf circuit)
    (hne : other ≠ ref) : (disconnectPin circuit ref).circuit? = some (detached circuit ref) := by
  obtain ⟨c, hfind⟩ := h.findPin_eq hpin
  obtain ⟨net, hnet, -⟩ := h.netById_eq hpin
  have hothers : ((pinsOn circuit netId).filter (· ≠ ref)).length ≠ 0 := by
    refine (List.length_pos_of_mem (mem_others.mpr ⟨hother, hne⟩)).ne'
  unfold disconnectPin
  rw [hfind]
  dsimp only
  rw [hnet]
  dsimp only
  rw [if_neg hothers, movePins_eq]
  rfl

/-- The fresh net is the one declared last, with no role. -/
theorem netById_fresh (circuit : CircuitJson) (components : List Component) :
    netById { circuit with components, nets := circuit.nets ++ [freshNet circuit] }
      (freshNet circuit).id = some (freshNet circuit) := by
  have hnone : circuit.nets.find? (·.id = (freshNet circuit).id) = none := by
    refine List.find?_eq_none.mpr fun net hnet => ?_
    simp only [decide_eq_true_eq]
    exact fun hid => freshNet_id_fresh circuit (hid ▸ List.mem_map_of_mem hnet)
  unfold netById
  rw [List.find?_append, hnone, Option.none_or]
  exact List.find?_cons_of_pos (decide_eq_true rfl)

theorem not_shorts_fresh (circuit : CircuitJson) (net : Net) :
    ¬ Shorts (freshNet circuit) net ∧ ¬ Shorts net (freshNet circuit) := by
  have hground : (freshNet circuit).isGround = false := rfl
  have hpower : (freshNet circuit).isPower = false := rfl
  simp only [Shorts, hground, hpower, Bool.false_eq_true, false_and, and_false, or_self,
    not_false_eq_true, and_self]

/-- The detached pin back on its net: the classes are what they were. -/
theorem sameNet_of_merges {circuit after : CircuitJson} (h : WellWired circuit) {ref : PinRef}
    {netId : Text} (hpin : (ref, netId) ∈ pinsOf circuit) {net kept : Net} (hid : net.id = netId)
    (hm : MergesNets (detached circuit ref) after (freshNet circuit) net kept) (p q : PinRef) :
    SameNet after p q ↔ SameNet circuit p q := by
  have hfresh : ∀ key, (key, (freshNet circuit).id) ∉ pinsOf circuit := fun key hkey =>
    freshNet_id_fresh circuit (h.declared _ hkey)
  -- The pins on either net are those that were on the one net.
  have hon : ∀ key, (key, (freshNet circuit).id) ∈ pinsOf (detached circuit ref) ∨
      (key, net.id) ∈ pinsOf (detached circuit ref) ↔ (key, netId) ∈ pinsOf circuit := by
    intro key
    rw [mem_pinsOf_detached, mem_pinsOf_detached, hid]
    constructor
    · rintro ((⟨rfl, -, -⟩ | ⟨-, hkey⟩) | (⟨rfl, -, -⟩ | ⟨-, hkey⟩))
      exacts [hpin, absurd hkey (hfresh key), hpin, hkey]
    · intro hkey
      by_cases hk : key = ref
      · exact .inl (.inl ⟨hk, rfl, netId, hkey⟩)
      · exact .inr (.inr ⟨hk, hkey⟩)
  rw [hm.sameNet, hon, hon]
  constructor
  · rintro (⟨n, hp, hq⟩ | ⟨hp, hq⟩)
    · rcases mem_pinsOf_detached.mp hp with ⟨rfl, rfl, was, hwas⟩ | ⟨-, hp⟩
      · rcases mem_pinsOf_detached.mp hq with ⟨rfl, -, -⟩ | ⟨-, hq⟩
        · exact ⟨was, hwas, hwas⟩
        · exact absurd hq (hfresh q)
      · rcases mem_pinsOf_detached.mp hq with ⟨-, rfl, -⟩ | ⟨-, hq⟩
        · exact absurd hp (hfresh p)
        · exact ⟨n, hp, hq⟩
    · exact ⟨netId, hp, hq⟩
  · rintro ⟨n, hp, hq⟩
    by_cases hn : n = netId
    · exact .inr ⟨hn ▸ hp, hn ▸ hq⟩
    · have hne : ∀ key, (key, n) ∈ pinsOf circuit → key ≠ ref := fun key hkey hk =>
        hn (h.netId_eq hkey (hk ▸ hpin))
      exact .inl ⟨n, mem_pinsOf_detached.mpr (.inr ⟨hne p hp, hp⟩),
        mem_pinsOf_detached.mpr (.inr ⟨hne q hq, hq⟩)⟩

/-- The detached pin and a former neighbour, on their nets. -/
theorem reconnect {circuit : CircuitJson} (h : WellWired circuit) {ref other : PinRef}
    {netId : Text} (hpin : (ref, netId) ∈ pinsOf circuit) (hother : (other, netId) ∈ pinsOf circuit)
    (hne : other ≠ ref) :
    (∃ after, (connectPins (detached circuit ref) ref other).circuit? = some after ∧
        ∀ p q, SameNet after p q ↔ SameNet circuit p q) ∧
      ∃ after, (connectPins (detached circuit ref) other ref).circuit? = some after ∧
        ∀ p q, SameNet after p q ↔ SameNet circuit p q := by
  have hd := h.detached ref
  have hpin' := mem_pinsOf_detached.mpr (.inl ⟨rfl, rfl, netId, hpin⟩)
  have hother' := mem_pinsOf_detached.mpr (.inr ⟨hne, hother⟩)
  obtain ⟨c, hc⟩ := hd.findPin_eq hpin'
  obtain ⟨c', hc'⟩ := hd.findPin_eq hother'
  obtain ⟨net, hnet, hid⟩ := hd.netById_eq hother'
  have hfresh : netById (detached circuit ref) (freshNet circuit).id = some (freshNet circuit) :=
    netById_fresh circuit _
  have hdiff : (freshNet circuit).id ≠ net.id := by
    intro he
    rw [hid] at he
    exact freshNet_id_fresh circuit (he ▸ h.declared _ hother)
  rw [← hid] at hc' hnet
  refine ⟨?_, ?_⟩
  · obtain ⟨after, kept, hafter, hm⟩ :=
      (connectPins_cases hc hc' hdiff hfresh hnet).2 (not_shorts_fresh circuit net).1
    exact ⟨after, hafter, sameNet_of_merges h hpin hid hm⟩
  · obtain ⟨after, kept, hafter, hm⟩ :=
      (connectPins_cases hc' hc hdiff.symm hnet hfresh).2 (not_shorts_fresh circuit net).2
    exact ⟨after, hafter, sameNet_of_merges h hpin hid hm.symm⟩

/-- Connecting pins of two nets merges exactly these, and is refused exactly if that shorts a
supply; a pin taken off its net and connected to a former neighbour is where it was. -/
theorem connectPins_exact {circuit : CircuitJson} (h : WellWired circuit) {a b : PinRef}
    {netA netB : Text} (ha : (a, netA) ∈ pinsOf circuit) (hb : (b, netB) ∈ pinsOf circuit) :
    (netA ≠ netB → ∃ na nb, netById circuit netA = some na ∧ netById circuit netB = some nb ∧
      ((connectPins circuit a b).circuit? = none ↔ Shorts na nb) ∧
      ∀ after, (connectPins circuit a b).circuit? = some after →
        (∃ kept, MergesNets circuit after na nb kept) ∧
        ∀ p q, SameNet after p q ↔ SameNet circuit p q ∨
          (((p, netA) ∈ pinsOf circuit ∨ (p, netB) ∈ pinsOf circuit) ∧
            ((q, netA) ∈ pinsOf circuit ∨ (q, netB) ∈ pinsOf circuit))) ∧
    (netA = netB → b ≠ a → ∃ loose, (disconnectPin circuit a).circuit? = some loose ∧
      (∃ after, (connectPins loose a b).circuit? = some after ∧
        ∀ p q, SameNet after p q ↔ SameNet circuit p q) ∧
      ∃ after, (connectPins loose b a).circuit? = some after ∧
        ∀ p q, SameNet after p q ↔ SameNet circuit p q) := by
  refine ⟨fun hne => ?_, fun he hne => ?_⟩
  · obtain ⟨ca, hca⟩ := h.findPin_eq ha
    obtain ⟨cb, hcb⟩ := h.findPin_eq hb
    obtain ⟨na, hna, rfl⟩ := h.netById_eq ha
    obtain ⟨nb, hnb, rfl⟩ := h.netById_eq hb
    obtain ⟨hrefused, hmerges⟩ := connectPins_cases hca hcb hne hna hnb
    refine ⟨na, nb, hna, hnb, ⟨fun hnone => ?_, hrefused⟩, fun after hafter => ?_⟩
    · by_contra hs
      obtain ⟨after, -, hafter, -⟩ := hmerges hs
      rw [hafter] at hnone
      cases hnone
    · have hs : ¬ Shorts na nb := fun hs => by
        rw [hrefused hs] at hafter
        cases hafter
      obtain ⟨after', kept, hafter', hm⟩ := hmerges hs
      rw [hafter] at hafter'
      obtain rfl := Option.some.inj hafter'
      exact ⟨⟨kept, hm⟩, fun p q => hm.sameNet⟩
  · subst he
    exact ⟨detached circuit a, disconnectPin_eq h ha hb hne, reconnect h ha hb hne⟩

end

/-- Two resistors, one end of each on a common net. -/
def dividerBoard : CircuitJson where
  components := [
    { id := "r1".toList, type := .resistor, designator := "R1".toList,
      pins := [⟨"1".toList, "in".toList⟩, ⟨"2".toList, "mid".toList⟩] },
    { id := "r2".toList, type := .resistor, designator := "R2".toList,
      pins := [⟨"1".toList, "mid".toList⟩, ⟨"2".toList, "gnd".toList⟩] }]
  nets := [{ id := "in".toList, name := "IN".toList, isPower := true },
    { id := "mid".toList, name := "MID".toList },
    { id := "gnd".toList, name := "GND".toList, isGround := true }]

theorem connectPins_exact_dividerBoard :
    (∀ after, (connectPins dividerBoard ⟨"r1".toList, "1".toList⟩
        ⟨"r2".toList, "1".toList⟩).circuit? = some after →
      SameNet after ⟨"r1".toList, "1".toList⟩ ⟨"r1".toList, "2".toList⟩) ∧
    ∃ loose, (disconnectPin dividerBoard ⟨"r1".toList, "2".toList⟩).circuit? = some loose ∧
      ∃ after, (connectPins loose ⟨"r1".toList, "2".toList⟩
          ⟨"r2".toList, "1".toList⟩).circuit? = some after ∧
        SameNet after ⟨"r1".toList, "2".toList⟩ ⟨"r2".toList, "1".toList⟩ := by
  have hwired : WellWired dividerBoard := ⟨⟨by decide, by decide⟩, by decide⟩
  have hin : ((⟨"r1".toList, "1".toList⟩ : PinRef), "in".toList) ∈ pinsOf dividerBoard := by
    decide
  have hmid : ((⟨"r1".toList, "2".toList⟩ : PinRef), "mid".toList) ∈ pinsOf dividerBoard := by
    decide
  have hmid' : ((⟨"r2".toList, "1".toList⟩ : PinRef), "mid".toList) ∈ pinsOf dividerBoard := by
    decide
  refine ⟨fun after hafter => ?_, ?_⟩
  · obtain ⟨na, nb, -, -, -, hmerges⟩ := (connectPins_exact hwired hin hmid').1 (by decide)
    exact ((hmerges after hafter).2 _ _).mpr (.inr ⟨.inl hin, .inr hmid⟩)
  · obtain ⟨loose, hloose, ⟨after, hafter, hsame⟩, -⟩ :=
      (connectPins_exact hwired hmid hmid').2 rfl (by decide)
    exact ⟨loose, hloose, after, hafter, (hsame _ _).mpr ⟨_, hmid, hmid'⟩⟩

end CircuitForge
