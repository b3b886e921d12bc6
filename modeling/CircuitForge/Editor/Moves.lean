/-
The edits that move pins between nets.

`connectPins` looks at every pin it moves.  The others move the pins of a key, and look
at the net of the first of them.
-/
import CircuitForge.Editor.WellFormed

namespace CircuitForge

open Js

variable [Runtime]

/-! ## Moving pins -/

/-- The pins that `moves` picks, on another net. -/
def moveAll (components : List Component) (moves : PinRef → PinConnection → Bool)
    (netId : Text) : List Component :=
  components.map fun c => c.repoint (fun p => moves ⟨c.id, p.pinId⟩ p) netId

theorem Component.repoint_of_none {c : Component} {moves : PinConnection → Bool} {netId : Text}
    (h : ∀ p ∈ c.pins, moves p = false) : c.repoint moves netId = c := by
  have : (c.pins.map fun p => if moves p then { p with netId } else p) = c.pins := by
    conv_rhs => rw [← List.map_id c.pins]
    refine List.map_congr_left fun p hp => ?_
    rw [h p hp]
    rfl
  rw [Component.repoint, this]

theorem repoint_eq (circuit : CircuitJson) (fromNetId toNetId : Text) :
    repoint circuit fromNetId toNetId =
      { circuit with
        components := moveAll circuit.components (fun _ p => p.netId = fromNetId) toNetId } := by
  unfold repoint moveAll
  congr 1
  refine List.map_congr_left fun c _ => ?_
  by_cases h : c.pins.any (·.netId = fromNetId) = true
  · rw [if_pos h]
  · rw [if_neg h, Component.repoint_of_none]
    simpa using h

theorem movePins_eq (circuit : CircuitJson) (ref : PinRef) (netId : Text) :
    movePins circuit ref netId =
      moveAll circuit.components (fun key _ => key ∈ [ref]) netId := by
  refine List.map_congr_left fun c _ => ?_
  by_cases h : c.id = ref.componentId
  · rw [if_pos h, h]
    congr 1
    funext p
    cases ref
    simp
  · rw [if_neg h, Component.repoint_of_none]
    intro p _
    cases ref
    simpa using fun he => absurd he h

theorem splitPins_eq (circuit : CircuitJson) (keys : List PinRef) (netId : Text) :
    splitPins circuit keys netId = moveAll circuit.components (fun key _ => key ∈ keys) netId := by
  refine List.map_congr_left fun c _ => ?_
  by_cases h : c.pins.any (fun p => ⟨c.id, p.pinId⟩ ∈ keys) = true
  · rw [if_pos h]
  · rw [if_neg h, Component.repoint_of_none]
    simpa using h

theorem mem_pinsOf_moveAll {circuit : CircuitJson} {nets : List Net} {key : PinRef}
    {moves : PinRef → PinConnection → Bool} {target netId : Text} :
    (key, netId) ∈ pinsOf { circuit with
        components := moveAll circuit.components moves target, nets } ↔
      ∃ c ∈ circuit.components, ∃ p ∈ c.pins, ⟨c.id, p.pinId⟩ = key ∧
        (if moves key p then target else p.netId) = netId := by
  have hpin (c : Component) (p : PinConnection) :
      (if moves ⟨c.id, p.pinId⟩ p then { p with netId := target } else p).pinId = p.pinId := by
    split <;> rfl
  have hnet (c : Component) (p : PinConnection) :
      (if moves ⟨c.id, p.pinId⟩ p then { p with netId := target } else p).netId =
        if moves ⟨c.id, p.pinId⟩ p then target else p.netId := by
    split <;> rfl
  rw [mem_pinsOf]
  constructor
  · rintro ⟨c', hc', p', hp', rfl, rfl⟩
    obtain ⟨c, hc, rfl⟩ := List.mem_map.mp hc'
    obtain ⟨p, hp, rfl⟩ := List.mem_map.mp hp'
    refine ⟨c, hc, p, hp, ?_, ?_⟩
    · rw [hpin]
      rfl
    · rw [hnet, hpin]
      rfl
  · rintro ⟨c, hc, p, hp, rfl, rfl⟩
    refine ⟨_, List.mem_map_of_mem hc, _, List.mem_map_of_mem hp, ?_, ?_⟩
    · rw [hpin]
      rfl
    · rw [hnet]

/-- Pins moved to a declared net, the others left on declared ones. -/
theorem Wired.moveAll {circuit : CircuitJson} (h : Wired circuit)
    {moves : PinRef → PinConnection → Bool} {target : Text} {nets : List Net}
    (htarget : target ∈ nets.map Net.id)
    (hstay : ∀ c ∈ circuit.components, ∀ p ∈ c.pins, moves ⟨c.id, p.pinId⟩ p = false →
      p.netId ∈ nets.map Net.id) :
    Wired { circuit with components := moveAll circuit.components moves target, nets } where
  componentIds := by
    rw [CircuitForge.moveAll, List.map_map]
    exact h.componentIds
  declared := by
    rintro ⟨key, netId⟩ he
    obtain ⟨c, hc, p, hp, rfl, rfl⟩ := mem_pinsOf_moveAll.mp he
    by_cases hm : moves ⟨c.id, p.pinId⟩ p = true
    · simpa only [if_pos hm] using htarget
    · simpa only [if_neg hm] using hstay c hc p hp (by simpa using hm)

theorem keepsDocument_moveAll {circuit : CircuitJson} (h : WellFormed circuit)
    {moves : PinRef → PinConnection → Bool} {target : Text} {nets : List Net}
    (hids : (nets.map Net.id).Nodup) (hnames : (nets.map fun n => Runtime.lower n.name).Nodup)
    (htarget : target ∈ nets.map Net.id)
    (hstay : ∀ c ∈ circuit.components, ∀ p ∈ c.pins, moves ⟨c.id, p.pinId⟩ p = false →
      p.netId ∈ nets.map Net.id) :
    KeepsDocument circuit
        { circuit with components := moveAll circuit.components moves target, nets } ↔
      ∀ net ∈ nets, ¬ Occupied
          { circuit with components := moveAll circuit.components moves target, nets } net.id →
        net.id ∈ circuit.nets.map Net.id ∧ ¬ Occupied circuit net.id := by
  have hwired := h.wired.moveAll htarget hstay
  refine ⟨fun hk => hk.noneEmptied, fun hempty =>
    ⟨⟨hwired.componentIds, ?_, hids, hnames, hwired.declared⟩, hempty, ?_⟩⟩
  · rw [moveAll, List.map_map]
    exact h.designators
  · intro c hc c' hc' hid
    obtain ⟨c₁, hc₁, rfl⟩ := List.mem_map.mp hc'
    have : c₁ = c := h.component_eq hc hc₁ hid
    subst this
    simp only [Component.repoint, List.map_map]
    refine List.map_congr_left fun p _ => ?_
    simp only [Function.comp_apply]
    split <;> rfl

/-! ## One net merged into another -/

/-- The pins of one net on another, and the net gone. -/
def absorb (circuit : CircuitJson) (absorbed kept : Text) : CircuitJson :=
  { circuit with
    components := moveAll circuit.components (fun _ p => p.netId = absorbed) kept
    nets := circuit.nets.filter (·.id ≠ absorbed) }

omit [Runtime] in
theorem mem_nets_absorb {nets : List Net} {absorbed netId : Text} :
    netId ∈ (nets.filter (·.id ≠ absorbed)).map Net.id ↔
      netId ∈ nets.map Net.id ∧ netId ≠ absorbed := by
  simp only [List.mem_map, List.mem_filter, decide_eq_true_eq]
  constructor
  · rintro ⟨n, ⟨hn, ha⟩, rfl⟩
    exact ⟨⟨n, hn, rfl⟩, ha⟩
  · rintro ⟨⟨n, hn, rfl⟩, ha⟩
    exact ⟨n, ⟨hn, ha⟩, rfl⟩

theorem Wired.absorb {circuit : CircuitJson} (h : Wired circuit) {keep : Net} {absorbed : Text}
    (hkeep : keep ∈ circuit.nets) (hne : absorbed ≠ keep.id) :
    Wired (absorb circuit absorbed keep.id) := by
  refine h.moveAll (mem_nets_absorb.mpr ⟨List.mem_map_of_mem hkeep, hne.symm⟩) ?_
  intro c hc p hp hm
  exact mem_nets_absorb.mpr
    ⟨h.declared _ (mem_pinsOf.mpr ⟨c, hc, p, hp, rfl, rfl⟩), by simpa using hm⟩

theorem keepsDocument_absorb {circuit : CircuitJson} (h : WellFormed circuit) {keep : Net}
    {absorbed : Text} (hkeep : keep ∈ circuit.nets) (hne : absorbed ≠ keep.id) :
    KeepsDocument circuit (absorb circuit absorbed keep.id) := by
  have hsub : (circuit.nets.filter (·.id ≠ absorbed)).Sublist circuit.nets := List.filter_sublist
  refine (keepsDocument_moveAll h ((hsub.map _).nodup h.netIds) ((hsub.map _).nodup h.netNames)
    (mem_nets_absorb.mpr ⟨List.mem_map_of_mem hkeep, hne.symm⟩) ?_).mpr ?_
  · intro c hc p hp hm
    exact mem_nets_absorb.mpr
      ⟨h.declared _ (mem_pinsOf.mpr ⟨c, hc, p, hp, rfl, rfl⟩), by simpa using hm⟩
  · intro net hn ho
    obtain ⟨hn, ha⟩ := List.mem_filter.mp hn
    refine ⟨List.mem_map_of_mem hn, ?_⟩
    rintro ⟨key, hkey⟩
    obtain ⟨c, hc, p, hp, hk, hpn⟩ := mem_pinsOf.mp hkey
    refine ho ⟨key, mem_pinsOf_moveAll.mpr ⟨c, hc, p, hp, hk, ?_⟩⟩
    rw [if_neg (by simpa [hpn] using ha), hpn]

/-- What a successful connection did. -/
theorem connectPins_result {circuit after : CircuitJson} {fromRef toRef : PinRef}
    (hs : (connectPins circuit fromRef toRef).circuit? = some after) :
    after = circuit ∨ ∃ keep ∈ circuit.nets, ∃ absorbed, absorbed ≠ keep.id ∧
      after = absorb circuit absorbed keep.id := by
  unfold connectPins at hs
  split at hs
  case h_1 => cases hs
  case h_2 => cases hs
  case h_3 ca netA cb netB hA hB =>
    by_cases h₁ : fromRef = toRef
    · rw [if_pos h₁] at hs
      cases hs
    rw [if_neg h₁] at hs
    by_cases h₂ : netA = netB
    · rw [if_pos h₂] at hs
      cases hs
      exact .inl rfl
    rw [if_neg h₂] at hs
    split at hs
    case h_1 => cases hs
    case h_2 => cases hs
    case h_3 na nb hna hnb =>
      by_cases h₃ : ((na.isGround && nb.isPower) || (na.isPower && nb.isGround)) = true
      · rw [if_pos h₃] at hs
        cases hs
      rw [if_neg h₃] at hs
      obtain ⟨hmemA, rfl⟩ := netById_eq_some hna
      obtain ⟨hmemB, rfl⟩ := netById_eq_some hnb
      by_cases h₄ : rank nb ≥ rank na
      · rw [if_pos h₄] at hs
        cases hs
        refine .inr ⟨nb, hmemB, na.id, h₂, ?_⟩
        rw [repoint_eq]
        rfl
      · rw [if_neg h₄] at hs
        cases hs
        refine .inr ⟨na, hmemA, nb.id, Ne.symm h₂, ?_⟩
        rw [repoint_eq]
        rfl

theorem keepsDocument_connectPins {circuit after : CircuitJson} {fromRef toRef : PinRef}
    (h : WellFormed circuit)
    (hs : (connectPins circuit fromRef toRef).circuit? = some after) :
    KeepsDocument circuit after := by
  obtain rfl | ⟨keep, hkeep, absorbed, hne, rfl⟩ := connectPins_result hs
  · exact .refl h
  · exact keepsDocument_absorb h hkeep hne

/-! ## Moving the pins of some keys -/

/-- A net that loses a pin to the move keeps another one, or is one of the nets looked at. -/
def LeavesAPin (circuit : CircuitJson) (keys : List PinRef) (lookedAt : List Text) : Prop :=
  ∀ key ∈ keys, ∀ netId, (key, netId) ∈ pinsOf circuit →
    netId ∈ lookedAt ∨ ∃ other ∉ keys, (other, netId) ∈ pinsOf circuit

/-- The circuit with the pins of the keys on another net. -/
def rekey (circuit : CircuitJson) (keys : List PinRef) (target : Text) (nets : List Net) :
    CircuitJson :=
  { circuit with components := moveAll circuit.components (fun key _ => key ∈ keys) target, nets }

theorem mem_pinsOf_rekey {circuit : CircuitJson} {keys : List PinRef} {target netId : Text}
    {nets : List Net} {key : PinRef} :
    (key, netId) ∈ pinsOf (rekey circuit keys target nets) ↔
      (key ∈ keys ∧ netId = target ∧ ∃ was, (key, was) ∈ pinsOf circuit) ∨
        (key ∉ keys ∧ (key, netId) ∈ pinsOf circuit) := by
  rw [rekey, mem_pinsOf_moveAll]
  by_cases hk : key ∈ keys
  · simp only [hk, decide_true, if_true, true_and, not_true, false_and, or_false, mem_pinsOf]
    constructor
    · rintro ⟨c, hc, p, hp, hkey, rfl⟩
      exact ⟨rfl, _, c, hc, p, hp, hkey, rfl⟩
    · rintro ⟨rfl, _, c, hc, p, hp, hkey, -⟩
      exact ⟨c, hc, p, hp, hkey, rfl⟩
  · simp only [hk, decide_false, Bool.false_eq_true, if_false, false_and, not_false_eq_true,
      true_and, false_or, mem_pinsOf]

theorem Wired.rekey {circuit : CircuitJson} (h : Wired circuit) {keys : List PinRef}
    {target : Text} {nets : List Net} (htarget : target ∈ nets.map Net.id)
    (hstay : ∀ key ∉ keys, ∀ netId, (key, netId) ∈ pinsOf circuit → netId ∈ nets.map Net.id) :
    Wired (rekey circuit keys target nets) :=
  h.moveAll htarget fun c hc p hp hm =>
    hstay _ (by simpa using hm) _ (mem_pinsOf.mpr ⟨c, hc, p, hp, rfl, rfl⟩)

/-- A move keeps the document if and only if it leaves a pin on every net it takes one from,
the nets it looks at apart. -/
theorem keepsDocument_rekey {circuit : CircuitJson} (h : WellFormed circuit) {keys : List PinRef}
    {target : Text} {nets : List Net} {lookedAt : List Text}
    (hids : (nets.map Net.id).Nodup) (hnames : (nets.map fun n => Runtime.lower n.name).Nodup)
    (htarget : target ∈ nets.map Net.id)
    (hlook : target ∈ lookedAt ∨ target ∉ circuit.nets.map Net.id)
    (hmoved : ∃ key ∈ keys, ∃ netId, (key, netId) ∈ pinsOf circuit)
    (hstay : ∀ key ∉ keys, ∀ netId, (key, netId) ∈ pinsOf circuit → netId ∈ nets.map Net.id)
    (hnew : ∀ net ∈ nets, net.id ∈ circuit.nets.map Net.id ∨ net.id = target)
    (hkept : ∀ netId ∈ circuit.nets.map Net.id, netId ∉ lookedAt → netId ∈ nets.map Net.id)
    (hseen : ∀ netId ∈ lookedAt, netId = target ∨ netId ∉ nets.map Net.id ∨
      ∃ key ∉ keys, (key, netId) ∈ pinsOf circuit) :
    KeepsDocument circuit (rekey circuit keys target nets) ↔ LeavesAPin circuit keys lookedAt := by
  rw [rekey, keepsDocument_moveAll h hids hnames htarget
    (fun c hc p hp hm => hstay _ (by simpa using hm) _ (mem_pinsOf.mpr ⟨c, hc, p, hp, rfl, rfl⟩))]
  change (∀ net ∈ nets, ¬ Occupied (rekey circuit keys target nets) net.id → _) ↔ _
  constructor
  · intro hempty key hk netId hpin
    by_cases hl : netId ∈ lookedAt
    · exact .inl hl
    have hdeclared := h.declared _ hpin
    obtain ⟨net, hnet, rfl⟩ := List.mem_map.mp (hkept _ hdeclared hl)
    by_contra hnone
    refine (hempty net hnet ?_).2 ⟨key, hpin⟩
    rintro ⟨other, ho⟩
    rcases mem_pinsOf_rekey.mp ho with ⟨-, ht, -⟩ | ⟨hother, ho⟩
    · rcases hlook with hlook | hlook
      · exact hl (ht ▸ hlook)
      · exact hlook (ht ▸ hdeclared)
    · exact hnone (.inr ⟨other, hother, ho⟩)
  · intro hleaves net hnet ho
    have hne : net.id ≠ target := by
      intro ht
      obtain ⟨key, hk, was, hpin⟩ := hmoved
      exact ho ⟨key, mem_pinsOf_rekey.mpr (.inl ⟨hk, ht, was, hpin⟩)⟩
    refine ⟨(hnew net hnet).resolve_right hne, ?_⟩
    -- any pin that was on the net is still there, or another one is
    have hnone : ∀ key ∉ keys, (key, net.id) ∉ pinsOf circuit := fun key hk hpin =>
      ho ⟨key, mem_pinsOf_rekey.mpr (.inr ⟨hk, hpin⟩)⟩
    rintro ⟨key, hpin⟩
    by_cases hk : key ∈ keys
    · rcases hleaves key hk _ hpin with hl | ⟨other, hother, ho⟩
      · rcases hseen _ hl with ht | hgone | ⟨other, hother, ho⟩
        · exact hne ht
        · exact hgone (List.mem_map_of_mem hnet)
        · exact hnone other hother ho
      · exact hnone other hother ho
    · exact hnone key hk hpin

/-! ## A pin onto a net -/

theorem mem_others {circuit : CircuitJson} {ref key : PinRef} {netId : Text} :
    key ∈ (pinsOn circuit netId).filter (· ≠ ref) ↔ (key, netId) ∈ pinsOf circuit ∧ key ≠ ref := by
  rw [List.mem_filter, mem_pinsOn, decide_eq_true_eq]

theorem mem_nets_fresh {circuit : CircuitJson} {netId : Text}
    (h : netId ∈ circuit.nets.map Net.id) :
    netId ∈ (circuit.nets ++ [freshNet circuit]).map Net.id := by
  rw [List.map_append]
  exact List.mem_append_left _ h

theorem Wired.rekey_fresh {circuit : CircuitJson} (h : Wired circuit) (keys : List PinRef) :
    Wired (CircuitForge.rekey circuit keys (freshNet circuit).id
      (circuit.nets ++ [freshNet circuit])) :=
  h.rekey (List.mem_map_of_mem (List.mem_append_right _ (List.mem_singleton_self _)))
    fun _ _ _ hpin => mem_nets_fresh (h.declared _ hpin)

/-- The nets with a fresh one. -/
theorem rekey_fresh_iff {circuit : CircuitJson} (h : WellFormed circuit) {keys : List PinRef}
    {lookedAt : List Text} (hmoved : ∃ key ∈ keys, ∃ netId, (key, netId) ∈ pinsOf circuit)
    (hseen : ∀ netId ∈ lookedAt, ∃ key ∉ keys, (key, netId) ∈ pinsOf circuit) :
    KeepsDocument circuit
        (rekey circuit keys (freshNet circuit).id (circuit.nets ++ [freshNet circuit])) ↔
      LeavesAPin circuit keys lookedAt := by
  refine keepsDocument_rekey h ?_ ?_ ?_ (.inr (freshNet_id_fresh circuit)) hmoved
    (fun key _ netId hpin => mem_nets_fresh (h.declared _ hpin)) ?_
    (fun netId hn _ => mem_nets_fresh hn)
    (fun netId hn => .inr (.inr (hseen netId hn)))
  · rw [List.map_append, List.map_singleton]
    exact List.nodup_append.mpr ⟨h.netIds, List.nodup_singleton _, fun x hx y hy =>
      fun e => freshNet_id_fresh circuit ((List.mem_singleton.mp hy).subst (e.subst hx))⟩
  · rw [List.map_append, List.map_singleton]
    exact List.nodup_append.mpr ⟨h.netNames, List.nodup_singleton _, fun x hx y hy =>
      fun e => freshNet_name_fresh circuit ((List.mem_singleton.mp hy).subst (e.subst hx))⟩
  · exact List.mem_map_of_mem (List.mem_append_right _ (List.mem_singleton_self _))
  · intro net hn
    rcases List.mem_append.mp hn with hn | hn
    · exact .inl (List.mem_map_of_mem hn)
    · exact .inr (congrArg Net.id (List.mem_singleton.mp hn))

theorem forall_findPin {circuit : CircuitJson} {ref : PinRef} {c : Component} {found : Text}
    (h : findPin circuit ref = .ok (c, found)) {P : Text → Prop} :
    (∀ c' found', findPin circuit ref = .ok (c', found') → P found') ↔ P found := by
  rw [h]
  refine ⟨fun hall => hall c found rfl, fun hp c' found' he => ?_⟩
  cases he
  exact hp

/-- The pin is alone on its net, or its key leaves no other net empty. -/
def DisconnectMeets (circuit : CircuitJson) (ref : PinRef) : Prop :=
  ∀ c found, findPin circuit ref = .ok (c, found) →
    (∀ key, (key, found) ∈ pinsOf circuit → key = ref) ∨ LeavesAPin circuit [ref] [found]

/-- What a successful disconnection did. -/
theorem disconnectPin_result {circuit after : CircuitJson} {ref : PinRef}
    (hs : (disconnectPin circuit ref).circuit? = some after) :
    ∃ c found, findPin circuit ref = .ok (c, found) ∧
      ((after = circuit ∧ ∀ key, (key, found) ∈ pinsOf circuit → key = ref) ∨
        (after = rekey circuit [ref] (freshNet circuit).id (circuit.nets ++ [freshNet circuit]) ∧
          ∃ key, key ≠ ref ∧ (key, found) ∈ pinsOf circuit)) := by
  unfold disconnectPin at hs
  split at hs
  case h_1 => cases hs
  case h_2 c found hfind =>
    refine ⟨c, found, hfind, ?_⟩
    split at hs
    case h_1 => cases hs
    case h_2 old hold =>
      simp only at hs
      by_cases hothers : ((pinsOn circuit found).filter (· ≠ ref)).length = 0
      · rw [if_pos hothers] at hs
        cases hs
        refine .inl ⟨rfl, fun key hkey => ?_⟩
        by_contra hne
        have := mem_others.mpr ⟨hkey, hne⟩
        rw [List.length_eq_zero_iff.mp hothers] at this
        cases this
      · rw [if_neg hothers] at hs
        cases hs
        obtain ⟨other, ho⟩ := List.exists_mem_of_length_pos (Nat.pos_of_ne_zero hothers)
        obtain ⟨hpin, hne⟩ := mem_others.mp ho
        rw [movePins_eq]
        exact .inr ⟨rfl, other, hne, hpin⟩

theorem keepsDocument_disconnectPin {circuit after : CircuitJson} {ref : PinRef}
    (h : WellFormed circuit) (hs : (disconnectPin circuit ref).circuit? = some after) :
    KeepsDocument circuit after ↔ DisconnectMeets circuit ref := by
  obtain ⟨c, found, hfind, hcases⟩ := disconnectPin_result hs
  rw [DisconnectMeets, forall_findPin hfind]
  rcases hcases with ⟨rfl, halone⟩ | ⟨rfl, other, hne, hpin⟩
  · exact ⟨fun _ => .inl halone, fun _ => .refl h⟩
  · refine (rekey_fresh_iff h ⟨ref, List.mem_singleton_self _, found, findPin_ok hfind⟩ ?_).trans
      ⟨.inr, fun hm => hm.resolve_left fun hall => hne (hall other hpin)⟩
    intro netId hn
    rw [List.mem_singleton.mp hn]
    exact ⟨other, by simpa using hne, hpin⟩

/-- The pin is there already, or its key leaves no other net empty. -/
def MoveMeets (circuit : CircuitJson) (ref : PinRef) (netId : Text) : Prop :=
  ∀ c found, findPin circuit ref = .ok (c, found) →
    found = netId ∨ LeavesAPin circuit [ref] [netId, found]

/-- The nets without the one a pin leaves, if nothing else is on that. -/
def netsLeft (circuit : CircuitJson) (ref : PinRef) (found : Text) : List Net :=
  circuit.nets.filter fun n =>
    !(((pinsOn circuit found).filter (· ≠ ref)).length = 0 && n.id = found)

theorem mem_netsLeft {circuit : CircuitJson} {ref : PinRef} {found netId : Text} :
    netId ∈ (netsLeft circuit ref found).map Net.id ↔
      netId ∈ circuit.nets.map Net.id ∧
        (netId = found → ∃ key, key ≠ ref ∧ (key, found) ∈ pinsOf circuit) := by
  have hothers : ((pinsOn circuit found).filter (· ≠ ref)).length ≠ 0 ↔
      ∃ key, key ≠ ref ∧ (key, found) ∈ pinsOf circuit := by
    constructor
    · intro hne
      obtain ⟨key, hk⟩ := List.exists_mem_of_length_pos (Nat.pos_of_ne_zero hne)
      obtain ⟨hpin, hne⟩ := mem_others.mp hk
      exact ⟨key, hne, hpin⟩
    · rintro ⟨key, hne, hpin⟩ hzero
      have := mem_others.mpr ⟨hpin, hne⟩
      rw [List.length_eq_zero_iff.mp hzero] at this
      cases this
  rw [← hothers]
  simp only [netsLeft, List.mem_map, List.mem_filter]
  generalize ((pinsOn circuit found).filter (· ≠ ref)).length = others
  constructor
  · rintro ⟨n, ⟨hn, hk⟩, rfl⟩
    exact ⟨⟨n, hn, rfl⟩, fun he hz => by simp [he, hz] at hk⟩
  · rintro ⟨⟨n, hn, rfl⟩, hk⟩
    refine ⟨n, ⟨hn, ?_⟩, rfl⟩
    by_cases he : n.id = found
    · simp [hk he]
    · simp [he]

/-- What a successful move did. -/
theorem movePinToNet_result {circuit after : CircuitJson} {ref : PinRef} {netId : Text}
    (hs : (movePinToNet circuit ref netId).circuit? = some after) :
    netId ∈ circuit.nets.map Net.id ∧ ∃ c found, findPin circuit ref = .ok (c, found) ∧
      ((found = netId ∧ after = circuit) ∨
        (found ≠ netId ∧ after = rekey circuit [ref] netId (netsLeft circuit ref found))) := by
  unfold movePinToNet at hs
  split at hs
  case h_1 => cases hs
  case h_2 c found hfind =>
    split at hs
    case h_1 => cases hs
    case h_2 target htarget =>
      obtain ⟨hnet, rfl⟩ := netById_eq_some htarget
      refine ⟨List.mem_map_of_mem hnet, c, found, hfind, ?_⟩
      by_cases hsame : found = target.id
      · rw [if_pos hsame] at hs
        cases hs
        exact .inl ⟨hsame, rfl⟩
      · rw [if_neg hsame] at hs
        simp only at hs
        cases hs
        rw [movePins_eq]
        exact .inr ⟨hsame, rfl⟩

theorem Wired.netsLeft {circuit : CircuitJson} (h : Wired circuit) {ref : PinRef}
    {netId found : Text} (hnet : netId ∈ circuit.nets.map Net.id) (hne : found ≠ netId) :
    Wired (CircuitForge.rekey circuit [ref] netId (CircuitForge.netsLeft circuit ref found)) := by
  refine h.rekey (mem_netsLeft.mpr ⟨hnet, fun he => absurd he.symm hne⟩) fun key hk id hpin => ?_
  exact mem_netsLeft.mpr ⟨h.declared _ hpin, fun he => ⟨key, by simpa using hk, he ▸ hpin⟩⟩

theorem keepsDocument_movePinToNet {circuit after : CircuitJson} {ref : PinRef} {netId : Text}
    (h : WellFormed circuit) (hs : (movePinToNet circuit ref netId).circuit? = some after) :
    KeepsDocument circuit after ↔ MoveMeets circuit ref netId := by
  obtain ⟨hnet, c, found, hfind, hcases⟩ := movePinToNet_result hs
  rw [MoveMeets, forall_findPin hfind]
  rcases hcases with ⟨rfl, rfl⟩ | ⟨hsame, rfl⟩
  · exact ⟨fun _ => .inl rfl, fun _ => .refl h⟩
  have hsub : (netsLeft circuit ref found).Sublist circuit.nets := List.filter_sublist
  refine (keepsDocument_rekey h ((hsub.map _).nodup h.netIds) ((hsub.map _).nodup h.netNames)
    (mem_netsLeft.mpr ⟨hnet, fun he => absurd he.symm hsame⟩) (.inl (List.mem_cons_self ..))
    ⟨ref, List.mem_singleton_self _, found, findPin_ok hfind⟩ ?_ ?_ ?_ ?_).trans
    ⟨.inr, fun hm => hm.resolve_left hsame⟩
  · intro key hk id hpin
    exact mem_netsLeft.mpr ⟨h.declared _ hpin, fun he => ⟨key, by simpa using hk, he ▸ hpin⟩⟩
  · exact fun net hn => .inl (mem_netsLeft.mp (List.mem_map_of_mem hn)).1
  · intro id hid hlook
    exact mem_netsLeft.mpr ⟨hid, fun he => absurd (by simp [he]) hlook⟩
  · intro id hid
    by_cases ht : id = netId
    · exact .inl ht
    -- the net the pin comes from goes exactly when no other key is on it
    have hfound : id = found := by simpa [ht] using hid
    by_cases hin : id ∈ (netsLeft circuit ref found).map Net.id
    · obtain ⟨key, hne, hpin⟩ := (mem_netsLeft.mp hin).2 hfound
      exact .inr (.inr ⟨key, by simpa using hne, hfound ▸ hpin⟩)
    · exact .inr (.inl hin)

theorem mem_of_splitRefusal {circuit : CircuitJson} {net : Net} {on take : List PinRef}
    (h : splitRefusal circuit net on take = none) {ref : PinRef} (hr : ref ∈ take) : ref ∈ on := by
  induction take with
  | nil => cases hr
  | cons head take ih =>
    unfold splitRefusal at h
    split at h
    case h_1 => cases h
    case h_2 =>
      split at h
      case isFalse => cases h
      case isTrue hon =>
        rcases List.mem_cons.mp hr with rfl | hr
        · exact hon
        · exact ih h hr

/-- What a successful split did. -/
theorem splitNet_result {circuit after : CircuitJson} {netId : Text} {take : List PinRef}
    (hs : (splitNet circuit netId take).circuit? = some after) :
    after = rekey circuit take.dedup (freshNet circuit).id (circuit.nets ++ [freshNet circuit]) ∧
      (∀ key ∈ take, key ∈ pinsOn circuit netId) ∧ take.dedup.length ≠ 0 ∧
      take.dedup.length ≠ (pinsOn circuit netId).length := by
  unfold splitNet at hs
  split at hs
  case h_1 => cases hs
  case h_2 net hnet =>
    simp only at hs
    split at hs
    case h_1 => cases hs
    case h_2 hrefusal =>
      by_cases hzero : take.dedup.length = 0
      · rw [if_pos hzero] at hs
        cases hs
      rw [if_neg hzero] at hs
      by_cases hall : take.dedup.length = (pinsOn circuit netId).length
      · rw [if_pos hall] at hs
        cases hs
      rw [if_neg hall] at hs
      cases hs
      rw [splitPins_eq]
      exact ⟨rfl, fun key hk => mem_of_splitRefusal hrefusal hk, hzero, hall⟩

theorem keepsDocument_splitNet {circuit after : CircuitJson} {netId : Text} {take : List PinRef}
    (h : WellFormed circuit) (hs : (splitNet circuit netId take).circuit? = some after) :
    KeepsDocument circuit after ↔ LeavesAPin circuit take [] := by
  obtain ⟨rfl, hon, hzero, -⟩ := splitNet_result hs
  obtain ⟨key, hkey⟩ := List.exists_mem_of_length_pos (Nat.pos_of_ne_zero hzero)
  refine (rekey_fresh_iff h ⟨key, hkey, netId, mem_pinsOn.mp (hon key (List.mem_dedup.mp hkey))⟩
    fun _ hn => absurd hn List.not_mem_nil).trans ?_
  simp only [LeavesAPin, List.mem_dedup]

end CircuitForge
