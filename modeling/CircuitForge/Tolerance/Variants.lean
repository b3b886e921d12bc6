/-
Tolerance variants of a circuit: `corner.ts` and `montecarlo.ts`.

A variant differs from the circuit in the values of the components that declare a tolerance: a
corner puts each of them at one end of its band, a Monte Carlo draw somewhere inside.
-/
import CircuitForge.Tolerance.Magnitude
import CircuitForge.Types.Circuit

namespace CircuitForge

open Js

section

variable [Runtime]

open Js.Runtime (lit add sub mul div lt le eq)

/-- The magnitude and the tolerance of a component that declares both. -/
def Component.toleranced (c : Component) : Option (ComponentMagnitude × Runtime.Num) :=
  match c.catalog.tolerance, truthy c.value with
  | some tol, some value =>
    if eq tol (lit 0 0) || Runtime.isNaN tol || le tol (lit 0 0) then none
    else (parseComponentMagnitude value).map fun m => (m, tol)
  | _, _ => none

/-! ## Corners -/

inductive CornerSide where
  | lo | hi
  deriving DecidableEq

/-- `CornerSpec`. -/
structure CornerSpec where
  components : Option (List Text) := none
  maxComponents : Option Nat := none

/-- `Toleranced`; the component is named by its place in the circuit. -/
structure Toleranced where
  place : Nat
  designator : Text
  magnitude : ComponentMagnitude
  tol : Runtime.Num

/-- `tolerancedComponents`. -/
def tolerancedComponents (circuit : CircuitJson) (only : Option (List Text)) : List Toleranced :=
  let wanted := only.map (·.map Runtime.upper)
  circuit.components.zipIdx.filterMap fun e =>
    if wanted.all fun w => e.1.designator ≠ [] && w.contains (Runtime.upper e.1.designator) then
      e.1.toleranced.map fun t =>
        { place := e.2, designator := e.1.designator, magnitude := t.1, tol := t.2 }
    else none

/-- `t.nominal * (hi ? 1 + t.tol : 1 - t.tol)`. -/
def Toleranced.extreme (t : Toleranced) : CornerSide → Runtime.Num
  | .lo => mul t.magnitude.value (sub (lit 1 0) t.tol)
  | .hi => mul t.magnitude.value (add (lit 1 0) t.tol)

/-- The value a corner gives a component. -/
def Toleranced.corner (t : Toleranced) (side : CornerSide) : Text :=
  t.magnitude.rebuild (t.extreme side)

/-- `1 << k`, in 32 bits. -/
def shiftOne (k : Nat) : Int := (BitVec.ofNat 32 (2 ^ (k % 32))).toInt

/-- The side of the `i`-th cornered component in the corner `mask`. -/
def sideOf (mask i : Nat) : CornerSide := if mask.testBit (i % 32) then .hi else .lo

/-- The components that are cornered. -/
def cornered (circuit : CircuitJson) (spec : CornerSpec) : List Toleranced :=
  (tolerancedComponents circuit spec.components).take (max 1 (spec.maxComponents.getD 8))

/-- `overrides` of a corner. -/
def overrides (ts : List Toleranced) (mask : Nat) : Map Nat Text :=
  Map.fill (fun e => e.1.place) (fun e => e.1.corner (sideOf mask e.2)) ts.zipIdx []

/-- The circuit with the overridden values. -/
def withValues (circuit : CircuitJson) (values : Map Nat Text) : CircuitJson :=
  { circuit with
    components := circuit.components.zipIdx.map fun e =>
      match values.get? e.2 with
      | some v => { e.1 with value := some v }
      | none => e.1 }

structure CornerVariant where
  corner : Map Text CornerSide
  circuit : CircuitJson

/-- `variants` of `cornerVariants`. -/
def cornerVariants (circuit : CircuitJson) (spec : CornerSpec) : List CornerVariant :=
  let ts := cornered circuit spec
  if ts = [] then []
  else (List.range (shiftOne ts.length).toNat).map fun mask =>
    { corner := Map.fill (fun e => e.1.designator) (fun e => sideOf mask e.2) ts.zipIdx []
      circuit := withValues circuit (overrides ts mask) }

/-! ## Monte Carlo -/

inductive TolDistribution where
  | gaussian | uniform
  deriving DecidableEq

/-- `perturbValue`.  `gaussian` is the Box–Muller sample of two draws. -/
def perturbValue (gaussian : Runtime.Num → Runtime.Num → Runtime.Num)
    (nominal tolerance : Runtime.Num) (dist : TolDistribution) (r r' : Runtime.Num) : Runtime.Num :=
  if !lt (lit 0 0) tolerance then nominal
  else
    match dist with
    | .uniform => mul nominal (add (lit 1 0) (mul tolerance (sub (mul (lit 2 0) r) (lit 1 0))))
    | .gaussian =>
      mul nominal (Runtime.max (sub (lit 1 0) tolerance) (Runtime.min (add (lit 1 0) tolerance)
        (add (lit 1 0) (mul (div tolerance (lit 3 0)) (gaussian r r')))))

/-- The draws one component takes. -/
def TolDistribution.draws : TolDistribution → Nat
  | .gaussian => 2
  | .uniform => 1

/-- The components of `perturbCircuit`, from the draw `n` on. -/
def perturbFrom (gaussian : Runtime.Num → Runtime.Num → Runtime.Num) (rand : Nat → Runtime.Num)
    (dist : TolDistribution) : Nat → List Component → List Component
  | _, [] => []
  | n, c :: cs =>
    match c.toleranced with
    | none => c :: perturbFrom gaussian rand dist n cs
    | some (m, tol) =>
      { c with value := some (m.rebuild
          (perturbValue gaussian m.value tol dist (rand n) (rand (n + 1)))) } ::
        perturbFrom gaussian rand dist (n + dist.draws) cs

/-- `perturbCircuit`. -/
def perturbCircuit (gaussian : Runtime.Num → Runtime.Num → Runtime.Num) (circuit : CircuitJson)
    (rand : Nat → Runtime.Num) (dist : TolDistribution) : CircuitJson :=
  { circuit with components := perturbFrom gaussian rand dist 0 circuit.components }

/-! ## What the variants write -/

/-- The value of the component at a place. -/
def CircuitJson.valueAt (circuit : CircuitJson) (place : Nat) : Option Text :=
  circuit.components[place]?.bind (·.value)

/-- A toleranced component stands at its place. -/
theorem toleranced_place {circuit : CircuitJson} {only : Option (List Text)} {t : Toleranced}
    (h : t ∈ tolerancedComponents circuit only) :
    ∃ c, circuit.components[t.place]? = some c ∧ c.toleranced = some (t.magnitude, t.tol) := by
  obtain ⟨⟨c, i⟩, he, ht⟩ := List.mem_filterMap.mp h
  dsimp only at ht
  split_ifs at ht
  obtain ⟨⟨m, tol⟩, hm, rfl⟩ := Option.map_eq_some_iff.mp ht
  exact ⟨c, List.mem_zipIdx_iff_getElem?.mp he, hm⟩

omit [Runtime] in
/-- What is read off the kept elements is a part of what is read off all of them. -/
theorem map_filterMap_sublist {α β γ : Type} {f : α → Option β} {g : β → γ} {h : α → γ}
    (hf : ∀ a b, f a = some b → g b = h a) (as : List α) :
    ((as.filterMap f).map g).Sublist (as.map h) := by
  induction as with
  | nil => exact List.Sublist.slnil
  | cons a as ih =>
    cases ha : f a with
    | none =>
      rw [List.filterMap_cons_none ha, List.map_cons]
      exact ih.cons _
    | some b =>
      rw [List.filterMap_cons_some ha, List.map_cons, List.map_cons, hf a b ha]
      exact ih.cons_cons _

theorem places_nodup (circuit : CircuitJson) (only : Option (List Text)) :
    ((tolerancedComponents circuit only).map Toleranced.place).Nodup := by
  refine List.Nodup.sublist (map_filterMap_sublist (h := Prod.snd) ?_ _) ?_
  · intro e t ht
    split_ifs at ht
    obtain ⟨_, -, rfl⟩ := Option.map_eq_some_iff.mp ht
    rfl
  · rw [List.zipIdx_map_snd]
    exact List.nodup_range'

/-- The designators of toleranced components are as distinct as those of the circuit. -/
theorem designators_nodup {circuit : CircuitJson}
    (h : (circuit.components.map Component.designator).Nodup) (only : Option (List Text)) :
    ((tolerancedComponents circuit only).map Toleranced.designator).Nodup := by
  refine List.Nodup.sublist (map_filterMap_sublist (h := fun e => e.1.designator) ?_ _) ?_
  · intro e t ht
    split_ifs at ht
    obtain ⟨_, -, rfl⟩ := Option.map_eq_some_iff.mp ht
    rfl
  · rw [← List.zipIdx_map_fst 0 circuit.components, List.map_map] at h
    exact h

/-- The overrides of a corner hold the value of its side for every component. -/
theorem overrides_get {ts : List Toleranced} (hplaces : (ts.map Toleranced.place).Nodup)
    {i : Nat} {t : Toleranced} (h : ts[i]? = some t) (mask : Nat) :
    (overrides ts mask).get? t.place = some (t.corner (sideOf mask i)) := by
  have hnodup : (ts.zipIdx.map fun e => e.1.place).Nodup := by
    rw [← List.zipIdx_map_fst 0 ts, List.map_map] at hplaces
    exact hplaces
  exact Map.get?_fill_of_nodup (x := (t, i)) hnodup (List.mem_zipIdx_iff_getElem?.mpr h) []

theorem cornered_places (circuit : CircuitJson) (spec : CornerSpec) :
    ((cornered circuit spec).map Toleranced.place).Nodup :=
  (places_nodup circuit spec.components).sublist ((List.take_sublist _ _).map _)

/-- In a corner every cornered component has the value of its side. -/
theorem corner_value {circuit : CircuitJson} {spec : CornerSpec} {mask i : Nat} {t : Toleranced}
    (h : (cornered circuit spec)[i]? = some t) :
    (withValues circuit (overrides (cornered circuit spec) mask)).valueAt t.place =
      some (t.corner (sideOf mask i)) := by
  have hmem : t ∈ tolerancedComponents circuit spec.components :=
    List.mem_of_mem_take (List.mem_of_getElem? h)
  obtain ⟨c, hc, -⟩ := toleranced_place hmem
  unfold CircuitJson.valueAt withValues
  rw [List.getElem?_map, List.getElem?_zipIdx, hc]
  simp only [Option.map_some, Nat.zero_add, overrides_get (cornered_places circuit spec) h,
    Option.bind_some]

theorem cornerVariants_value {circuit : CircuitJson} {spec : CornerSpec} {mask i : Nat}
    {v : CornerVariant} {t : Toleranced} (hv : (cornerVariants circuit spec)[mask]? = some v)
    (ht : (cornered circuit spec)[i]? = some t) :
    v.circuit.valueAt t.place = some (t.corner (sideOf mask i)) := by
  unfold cornerVariants at hv
  dsimp only at hv
  split_ifs at hv
  · cases hv
  · rw [List.getElem?_map] at hv
    obtain ⟨mask', hmask, rfl⟩ := Option.map_eq_some_iff.mp hv
    obtain ⟨hlt, hget⟩ := List.getElem?_eq_some_iff.mp hmask
    rw [List.getElem_range] at hget
    rw [← hget]
    exact corner_value ht

/-- The draws taken before a place. -/
def drawsBefore (dist : TolDistribution) (cs : List Component) (place : Nat) : Nat :=
  ((cs.take place).filter fun c => c.toleranced.isSome).length * dist.draws

/-- The value a draw gives a component. -/
def Toleranced.drawn (t : Toleranced) (gaussian : Runtime.Num → Runtime.Num → Runtime.Num)
    (circuit : CircuitJson) (rand : Nat → Runtime.Num) (dist : TolDistribution) : Runtime.Num :=
  let n := drawsBefore dist circuit.components t.place
  perturbValue gaussian t.magnitude.value t.tol dist (rand n) (rand (n + 1))

/-- A component is perturbed with the draws behind those of the components before it. -/
theorem perturbFrom_getElem (gaussian : Runtime.Num → Runtime.Num → Runtime.Num)
    (rand : Nat → Runtime.Num) (dist : TolDistribution) {cs : List Component} {place : Nat}
    {c : Component} {m : ComponentMagnitude} {tol : Runtime.Num} (hc : cs[place]? = some c)
    (ht : c.toleranced = some (m, tol)) (n : Nat) :
    (perturbFrom gaussian rand dist n cs)[place]?.bind (·.value) = some (m.rebuild
      (perturbValue gaussian m.value tol dist (rand (n + drawsBefore dist cs place))
        (rand (n + drawsBefore dist cs place + 1)))) := by
  induction cs generalizing place n with
  | nil => cases hc
  | cons d cs ih =>
    cases place with
    | zero =>
      obtain rfl : d = c := Option.some.inj hc
      simp [perturbFrom, ht, drawsBefore]
    | succ place =>
      rw [List.getElem?_cons_succ] at hc
      cases hd : d.toleranced with
      | none =>
        have hbefore : drawsBefore dist (d :: cs) (place + 1) = drawsBefore dist cs place := by
          simp [drawsBefore, hd]
        rw [hbefore, perturbFrom, hd]
        exact ih hc n
      | some p =>
        have hbefore : n + drawsBefore dist (d :: cs) (place + 1) =
            n + dist.draws + drawsBefore dist cs place := by
          simp [drawsBefore, hd, Nat.add_mul]
          omega
        rw [hbefore, perturbFrom, hd]
        exact ih hc (n + dist.draws)

/-- A perturbed circuit has the drawn value of every toleranced component. -/
theorem perturbCircuit_value (gaussian : Runtime.Num → Runtime.Num → Runtime.Num)
    {circuit : CircuitJson} (rand : Nat → Runtime.Num) (dist : TolDistribution)
    {only : Option (List Text)} {t : Toleranced} (h : t ∈ tolerancedComponents circuit only) :
    (perturbCircuit gaussian circuit rand dist).valueAt t.place =
      some (t.magnitude.rebuild (t.drawn gaussian circuit rand dist)) := by
  obtain ⟨c, hc, ht⟩ := toleranced_place h
  have hvalue := perturbFrom_getElem gaussian rand dist hc ht 0
  rw [Nat.zero_add] at hvalue
  exact hvalue

end

end CircuitForge
