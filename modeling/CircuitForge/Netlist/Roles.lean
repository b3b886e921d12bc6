/-
The tally of the pins on a net.

`netRoles` counts; what the planner reads of it is which counts are positive, and
that is said here in terms of the pins of the circuit.
-/
import CircuitForge.Netlist.Digital

namespace CircuitForge

open Js

/-- The roles of a net, all zero for a net without counted pins. -/
def rolesAt (roles : Map Text NetRoles) (netId : Text) : NetRoles := (roles.get? netId).getD {}

theorem rolesAt_bump (roles : Map Text NetRoles) (netId g : Text) (f : NetRoles → NetRoles) :
    rolesAt (bump roles netId f) g = if netId = g then f (rolesAt roles g) else rolesAt roles g := by
  unfold rolesAt bump
  rw [Map.get?_set]
  by_cases h : netId = g
  · subst h
    rw [if_pos rfl, if_pos rfl, Option.getD_some]
  · rw [if_neg h, if_neg h]

/-- The count a pin raises. -/
inductive PinClass where
  | analog | source | sink
  deriving DecidableEq

def pinClass (t : ComponentType) (pinId : Text) : PinClass :=
  if !t.isDigital then .analog
  else if digitalPinRole t pinId = some .source then .source
  else .sink

def NetRoles.count (r : NetRoles) : PinClass → Nat
  | .analog => r.analog
  | .source => r.digitalSource
  | .sink => r.digitalSink

variable [Runtime]

omit [Runtime] in
theorem count_bumpPin (t : ComponentType) (roles : Map Text NetRoles) (pin : PinConnection)
    (g : Text) (k : PinClass) :
    0 < (rolesAt (bumpPin t roles pin) g).count k ↔
      0 < (rolesAt roles g).count k ∨ (pin.netId = g ∧ pinClass t pin.pinId = k) := by
  by_cases hg : pin.netId = g
  · unfold bumpPin pinClass
    split_ifs <;> rw [rolesAt_bump, if_pos hg] <;> cases k <;> simp [NetRoles.count, hg]
  · unfold bumpPin
    split_ifs <;> rw [rolesAt_bump, if_neg hg] <;> simp [hg]

omit [Runtime] in
theorem count_bumpPins (t : ComponentType) (pins : List PinConnection) (roles : Map Text NetRoles)
    (g : Text) (k : PinClass) :
    0 < (rolesAt (pins.foldl (bumpPin t) roles) g).count k ↔
      0 < (rolesAt roles g).count k ∨
        ∃ pin ∈ pins, pin.netId = g ∧ pinClass t pin.pinId = k := by
  induction pins generalizing roles with
  | nil => simp
  | cons pin pins ih => simp only [List.foldl_cons, ih, count_bumpPin, List.exists_mem_cons_iff, or_assoc]

/-- The types whose pins are counted. -/
def isCounted (t : ComponentType) : Bool := t != .ground && t != .generic

theorem count_bumpComponent (roles : Map Text NetRoles) (c : Component) (g : Text) (k : PinClass) :
    0 < (rolesAt (bumpComponent roles c) g).count k ↔
      0 < (rolesAt roles g).count k ∨
        (isCounted c.type = true ∧ ∃ pin ∈ c.pins, pin.netId = g ∧ pinClass c.type pin.pinId = k) := by
  unfold bumpComponent
  split_ifs with h
  · have : isCounted c.type = false := by
      rcases h with h | h <;> rw [h] <;> rfl
    simp [this]
  · have : isCounted c.type = true := by
      rw [not_or] at h
      simp [isCounted, h.1, h.2]
    rw [count_bumpPins]
    simp [this]

theorem count_netRoles (circuit : CircuitJson) (g : Text) (k : PinClass) :
    0 < (rolesAt (netRoles circuit) g).count k ↔
      ∃ c ∈ circuit.components, isCounted c.type = true ∧
        ∃ pin ∈ c.pins, pin.netId = g ∧ pinClass c.type pin.pinId = k := by
  have hfold : ∀ (cs : List Component) (roles : Map Text NetRoles),
      0 < (rolesAt (cs.foldl bumpComponent roles) g).count k ↔
        0 < (rolesAt roles g).count k ∨ ∃ c ∈ cs, isCounted c.type = true ∧
          ∃ pin ∈ c.pins, pin.netId = g ∧ pinClass c.type pin.pinId = k := by
    intro cs
    induction cs with
    | nil => simp
    | cons c cs ih =>
      intro roles
      simp only [List.foldl_cons, ih, count_bumpComponent, List.exists_mem_cons_iff, or_assoc]
  rw [netRoles, hfold]
  have hzero : ¬ 0 < (rolesAt ([] : Map Text NetRoles) g).count k := by
    cases k <;> simp [rolesAt, NetRoles.count]
  exact or_iff_right hzero

theorem keyed_netRoles (circuit : CircuitJson) : (netRoles circuit).Keyed := by
  have hpins : ∀ (t : ComponentType) (pins : List PinConnection) (roles : Map Text NetRoles),
      roles.Keyed → (pins.foldl (bumpPin t) roles).Keyed := by
    intro t pins
    induction pins with
    | nil => exact fun _ h => h
    | cons pin pins ih =>
      refine fun roles h => ih _ ?_
      unfold bumpPin
      split_ifs <;> exact h.set _ _
  have hcs : ∀ (cs : List Component) (roles : Map Text NetRoles),
      roles.Keyed → (cs.foldl bumpComponent roles).Keyed := by
    intro cs
    induction cs with
    | nil => exact fun _ h => h
    | cons c cs ih =>
      refine fun roles h => ih _ ?_
      unfold bumpComponent
      split_ifs
      · exact h
      · exact hpins _ _ _ h
  exact hcs _ _ Map.Keyed.nil

/-- An entry of the tally is the tally of its net. -/
theorem rolesAt_of_mem {circuit : CircuitJson} {e : Text × NetRoles} (h : e ∈ netRoles circuit) :
    rolesAt (netRoles circuit) e.1 = e.2 := by
  rw [rolesAt, Map.get?_of_mem (keyed_netRoles circuit) h, Option.getD_some]

omit [Runtime] in
/-- A net with a positive count has an entry. -/
theorem mem_of_count {roles : Map Text NetRoles} {g : Text} {k : PinClass}
    (h : 0 < (rolesAt roles g).count k) : (g, rolesAt roles g) ∈ roles := by
  cases hg : roles.get? g with
  | none =>
    rw [rolesAt, hg] at h
    cases k <;> simp [NetRoles.count] at h
  | some r =>
    rw [rolesAt, hg, Option.getD_some]
    exact Map.mem_of_get? hg

/-! ## Kinds of net -/

/-- A net with an analog pin. -/
def HasAnalogPin (circuit : CircuitJson) (g : Text) : Prop :=
  ∃ c ∈ circuit.components, isCounted c.type = true ∧ c.type.isDigital = false ∧
    ∃ pin ∈ c.pins, pin.netId = g

/-- A net with a digital pin. -/
def HasDigitalPin (circuit : CircuitJson) (g : Text) : Prop :=
  ∃ c ∈ circuit.components, c.type.isDigital = true ∧ ∃ pin ∈ c.pins, pin.netId = g

/-- A net a digital pin drives. -/
def HasDigitalSource (circuit : CircuitJson) (g : Text) : Prop :=
  ∃ c ∈ circuit.components, ∃ pin ∈ c.pins, pin.netId = g ∧
    digitalPinRole c.type pin.pinId = some .source

omit [Runtime] in
theorem isCounted_of_isDigital {t : ComponentType} (h : t.isDigital = true) :
    isCounted t = true := by
  rw [isCounted, Bool.and_eq_true, bne_iff_ne, bne_iff_ne]
  constructor <;> rintro rfl <;> exact absurd h (by decide)

omit [Runtime] in
theorem isDigital_of_role {t : ComponentType} {p : Text} {r : PinRole}
    (h : digitalPinRole t p = some r) : t.isDigital = true := by
  rw [ComponentType.isDigital, Bool.or_eq_true, Bool.or_eq_true, beq_iff_eq]
  by_contra hn
  rw [not_or, not_or] at hn
  rw [digitalPinRole, if_neg hn.1.1, if_neg hn.1.2, if_neg hn.2] at h
  exact absurd h (by simp)

theorem analog_pos_iff (circuit : CircuitJson) (g : Text) :
    0 < (rolesAt (netRoles circuit) g).analog ↔ HasAnalogPin circuit g := by
  have hclass : ∀ (t : ComponentType) (p : Text),
      pinClass t p = .analog ↔ t.isDigital = false := by
    intro t p
    unfold pinClass
    cases t.isDigital
    · simp
    · simp only [Bool.not_true, Bool.false_eq_true, if_false, Bool.true_eq_false, iff_false]
      split_ifs <;> simp
  have := count_netRoles circuit g .analog
  simp only [NetRoles.count, hclass] at this
  rw [this]
  constructor
  · rintro ⟨c, hc, hcount, pin, hpin, hg, hd⟩
    exact ⟨c, hc, hcount, hd, pin, hpin, hg⟩
  · rintro ⟨c, hc, hcount, hd, pin, hpin, hg⟩
    exact ⟨c, hc, hcount, pin, hpin, hg, hd⟩

theorem source_pos_iff (circuit : CircuitJson) (g : Text) :
    0 < (rolesAt (netRoles circuit) g).digitalSource ↔ HasDigitalSource circuit g := by
  have hclass : ∀ (t : ComponentType) (p : Text),
      pinClass t p = .source ↔ digitalPinRole t p = some .source := by
    intro t p
    unfold pinClass
    constructor
    · intro h
      split_ifs at h with _ h2
      exact h2
    · intro h
      rw [if_neg (by simp [isDigital_of_role h]), if_pos h]
  have := count_netRoles circuit g .source
  simp only [NetRoles.count, hclass] at this
  rw [this]
  constructor
  · rintro ⟨c, hc, _, pin, hpin, hg, hs⟩
    exact ⟨c, hc, pin, hpin, hg, hs⟩
  · rintro ⟨c, hc, pin, hpin, hg, hs⟩
    exact ⟨c, hc, isCounted_of_isDigital (isDigital_of_role hs), pin, hpin, hg, hs⟩

theorem digital_pos_iff (circuit : CircuitJson) (g : Text) :
    0 < (rolesAt (netRoles circuit) g).digitalSource + (rolesAt (netRoles circuit) g).digitalSink ↔
      HasDigitalPin circuit g := by
  have hclass : ∀ (t : ComponentType) (p : Text),
      pinClass t p ≠ .analog ↔ t.isDigital = true := by
    intro t p
    unfold pinClass
    cases t.isDigital
    · simp
    · simp only [Bool.not_true, Bool.false_eq_true, if_false, iff_true]
      split_ifs <;> simp
  have hs := count_netRoles circuit g .source
  have hk := count_netRoles circuit g .sink
  simp only [NetRoles.count] at hs hk
  rw [Nat.add_pos_iff_pos_or_pos, hs, hk]
  constructor
  · rintro (⟨c, hc, _, pin, hpin, hg, h⟩ | ⟨c, hc, _, pin, hpin, hg, h⟩)
    · exact ⟨c, hc, (hclass _ _).mp (by rw [h]; decide), pin, hpin, hg⟩
    · exact ⟨c, hc, (hclass _ _).mp (by rw [h]; decide), pin, hpin, hg⟩
  · rintro ⟨c, hc, hd, pin, hpin, hg⟩
    have hcount := isCounted_of_isDigital hd
    cases hp : pinClass c.type pin.pinId with
    | analog => exact absurd hp ((hclass _ _).mpr hd)
    | source => exact Or.inl ⟨c, hc, hcount, pin, hpin, hg, hp⟩
    | sink => exact Or.inr ⟨c, hc, hcount, pin, hpin, hg, hp⟩

end CircuitForge
