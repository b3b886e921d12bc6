/-
Supply corners: `supply-corner.ts`.

A power rail is trusted when a walk from its net meets one DC source.  The sources of the trusted
rails are put at both ends of the supply tolerance, in every combination, up to a cap.
-/
import CircuitForge.Tolerance.Corners
import CircuitForge.Js.Worklist

namespace CircuitForge

open Js

/-! ## The DC magnitude of a source -/

/-- `DC\s+` and the number behind, at the head. -/
def dcAt (s : Text) : Option Text :=
  match s with
  | d :: c :: r =>
    if sameLetter 'D' d && sameLetter 'C' c && (r.takeWhile isSpace != []) then
      (spanNumber (r.dropWhile isSpace)).map Prod.fst
    else none
  | _ => none

/-- The number of `/(?:^|\s)DC\s+(…)/i`, from a position that follows the start or a blank or not. -/
def findDc : Bool → Text → Option Text
  | _, [] => none
  | edge, c :: s => (if edge then dcAt (c :: s) else none).or (findDc (isSpace c) s)

section

variable [Runtime]

open Js.Runtime (lit add sub mul lt)

/-- `dcMagnitude`. -/
def dcMagnitude (value : Option Text) : Option Runtime.Num :=
  let v := trim (value.getD [])
  ((findDc true v).or ((spanNumber v).map Prod.fst)).map fun n => Runtime.abs (Runtime.ofText n)

/-! ## The walk from a rail -/

/-- `RailWalk`.  A component comes with its place in the circuit. -/
structure RailWalk where
  visited : List Text
  queue : List Text
  drivers : List (Component × Nat) := []
  seen : List Text := []

/-- A net not visited yet is marked and queued. -/
def RailWalk.meet (w : RailWalk) (netId : Text) : RailWalk :=
  if netId ∈ w.visited then w
  else { w with visited := w.visited ++ [netId], queue := w.queue ++ [netId] }

/-- A source with a DC magnitude is a driver. -/
def RailWalk.collect (w : RailWalk) (e : Component × Nat) : RailWalk :=
  match dcMagnitude e.1.value with
  | some mag =>
    if lt (lit 0 0) mag && e.1.designator != [] && !w.seen.contains e.1.designator then
      { w with seen := w.seen ++ [e.1.designator], drivers := w.drivers ++ [e] }
    else w
  | none => w

/-- One component of `walkNetForDrivers`. -/
def RailWalk.pass (net : Text) (w : RailWalk) (e : Component × Nat) : RailWalk :=
  if !e.1.pins.any fun p => p.netId = net then w
  else if e.1.type = .voltageSource then w.collect e
  else e.1.pins.foldl (fun w p => w.meet p.netId) w

def walkNetForDrivers (circuit : CircuitJson) (net : Text) (w : RailWalk) : RailWalk :=
  circuit.components.zipIdx.foldl (RailWalk.pass net) w

/-- The loop of `driversOf`, with fuel for every net. -/
def railWalk (circuit : CircuitJson) : Nat → RailWalk → RailWalk
  | 0, w => w
  | n + 1, w =>
    match w.queue with
    | [] => w
    | net :: queue => railWalk circuit n (walkNetForDrivers circuit net { w with queue := queue })

/-- The nets of all pins. -/
def componentNets (circuit : CircuitJson) : List Text :=
  circuit.components.flatMap fun c => c.pins.map PinConnection.netId

/-- `visited` and `queue` at the start. -/
def railStart (circuit : CircuitJson) (netId : Text) : RailWalk where
  visited := netId :: (circuit.nets.filter Net.isGround).map Net.id
  queue := [netId]

def driversOf (circuit : CircuitJson) (netId : Text) : List (Component × Nat) :=
  (railWalk circuit (1 + (componentNets circuit).length) (railStart circuit netId)).drivers

/-! ## Rails -/

inductive RailStatus where
  | trusted | deferred
  deriving DecidableEq

structure RailValidation where
  netId : Text
  status : RailStatus
  driverDesignator : Option Text := none
  reason : Option Text := none

/-- The verdict on one net of `validatePowerRails`. -/
def validateRail (circuit : CircuitJson) (n : Net) : RailValidation :=
  if n.isGround then
    { netId := n.id, status := .deferred
      reason := some "marked isPower but ALSO isGround — contradictory".toList }
  else
    match driversOf circuit n.id with
    | [] =>
      { netId := n.id, status := .deferred
        reason := some ("no DC power source drives this net — marked isPower but structurally " ++
          "not power-driven (a reference/bias net, or floating)").toList }
    | [d] => { netId := n.id, status := .trusted, driverDesignator := some d.1.designator }
    | drivers =>
      { netId := n.id, status := .deferred
        reason := some ("ambiguous — ".toList ++ Nat.toDigits 10 drivers.length ++
          " candidate driving sources (".toList ++
          join ", ".toList (drivers.map fun d => d.1.designator) ++
          "); cannot pick THE supply without guessing".toList) }

def validatePowerRails (circuit : CircuitJson) : List RailValidation :=
  (circuit.nets.filter Net.isPower).map (validateRail circuit)

/-! ## Drivers -/

/-- `SupplyDriver`; the component is named by its place. -/
structure SupplyDriver where
  place : Nat
  designator : Text
  magnitude : ComponentMagnitude

structure SupplyCornerSpec where
  tolerance : Runtime.Num
  rangeLabel : Option Text := none
  maxDrivers : Option Nat := none

/-- The cap: `Math.max(1, spec.maxDrivers ?? 6)`, of which `slice` takes the whole part. -/
def SupplyCornerSpec.cap (spec : SupplyCornerSpec) : Nat := max 1 (spec.maxDrivers.getD 6)

/-- `byDesignator`: the last component of each designator. -/
def byDesignator (circuit : CircuitJson) : Map Text (Component × Nat) :=
  Map.fill (fun e => e.1.designator) id
    (circuit.components.zipIdx.filter fun e => e.1.designator ≠ []) []

/-- The component of a designator, with its magnitude. -/
def supplyDriver (circuit : CircuitJson) (designator : Text) : Option SupplyDriver :=
  ((byDesignator circuit).get? designator).bind fun e =>
    (truthy e.1.value).bind fun value =>
      (parseComponentMagnitude value).map fun m =>
        { place := e.2, designator := e.1.designator, magnitude := m }

/-- One rail of the loop over `rails`: `seen` and `all`. -/
def takeDriver (circuit : CircuitJson) (st : List Text × List SupplyDriver) (r : RailValidation) :
    List Text × List SupplyDriver :=
  match r.status, truthy r.driverDesignator with
  | .trusted, some g =>
    if g ∈ st.1 then st
    else
      match supplyDriver circuit g with
      | some d => (st.1 ++ [g], st.2 ++ [d])
      | none => st
  | _, _ => st

/-- `all` of `supplyDrivers`. -/
def allDrivers (circuit : CircuitJson) : List SupplyDriver :=
  ((validatePowerRails circuit).foldl (takeDriver circuit) ([], [])).2

/-- `drivers` and `omitted` of `supplyDrivers`. -/
def supplyDrivers (circuit : CircuitJson) (cap : Nat) : List SupplyDriver :=
  (allDrivers circuit).take cap

def omittedDrivers (circuit : CircuitJson) (cap : Nat) : List Text :=
  (((allDrivers circuit).drop cap).map SupplyDriver.designator).filter (· ≠ [])

/-! ## The run -/

/-- A driver and the tolerance it is put at the ends of. -/
def SupplyDriver.toleranced (tol : Runtime.Num) (d : SupplyDriver) : Toleranced where
  place := d.place
  designator := d.designator
  magnitude := d.magnitude
  tol := tol

/-- What a run perturbs. -/
def supplyTargets (circuit : CircuitJson) (spec : SupplyCornerSpec) : List Toleranced :=
  (supplyDrivers circuit spec.cap).map (SupplyDriver.toleranced spec.tolerance)

/-- `supplyVariants`, less the nominal run in front. -/
def supplyVariants (circuit : CircuitJson) (spec : SupplyCornerSpec) : List CornerVariant :=
  let ts := supplyTargets circuit spec
  (List.range (shiftOne ts.length).toNat).map fun mask =>
    { corner := Map.fill (fun e => e.1.designator) (fun e => sideOf mask e.2) ts.zipIdx []
      circuit := withValues circuit (overrides ts mask) }

inductive SupplyOutcome where
  | pass | fail | noLimit | errored
  deriving DecidableEq

structure SupplyCornerPoint where
  corner : Map Text CornerSide
  outcome : SupplyOutcome

/-- `cornerOutcome`. -/
def supplyOutcome {M C : Type} (evaluate : M → List C → List Bool) (criteria : List C) :
    Option M → SupplyOutcome
  | none => .errored
  | some m =>
    if criteria.isEmpty then .noLimit
    else if allPass (evaluate m criteria) then .pass else .fail

/-- `SupplyCornerResult`, less the drift, which no verdict reads. -/
structure SupplyCornerResult where
  applicable : Bool
  rails : List RailValidation
  omitted : List Text
  tolerance : Runtime.Num
  rangeLabel : Option Text
  points : List SupplyCornerPoint
  evaluated : Nat
  passed : Nat
  failed : Nat
  errored : Nat
  hasLimits : Bool
  passAllCorners : Bool

/-- `tallyOutcomes`, of one outcome. -/
def outcomeCount (points : List SupplyCornerPoint) (outcome : SupplyOutcome) : Nat :=
  points.countP fun p => p.outcome = outcome

/-- The points of the corners.  The nominal run has the number 0. -/
def supplyPoints {M C : Type} (circuit : CircuitJson) (evaluate : M → List C → List Bool)
    (criteria : List C) (spec : SupplyCornerSpec) (runVariant : CircuitJson → Nat → Option M) :
    List SupplyCornerPoint :=
  ((supplyVariants circuit spec).zipIdx 1).map fun e =>
    { corner := e.1.corner
      outcome := supplyOutcome evaluate criteria (runVariant e.1.circuit e.2) }

/-- `runSupplyCorner`. -/
def runSupplyCorner {M C : Type} (circuit : CircuitJson) (evaluate : M → List C → List Bool)
    (criteria : List C) (spec : SupplyCornerSpec) (runVariant : CircuitJson → Nat → Option M) :
    SupplyCornerResult :=
  let omitted := omittedDrivers circuit spec.cap
  let applicable := !(supplyDrivers circuit spec.cap).isEmpty
  let points :=
    if applicable then supplyPoints circuit evaluate criteria spec runVariant else []
  let passed := outcomeCount points .pass
  let failed := outcomeCount points .fail
  let errored := outcomeCount points .errored
  { applicable := applicable
    rails := validatePowerRails circuit
    omitted := omitted
    tolerance := spec.tolerance
    rangeLabel := spec.rangeLabel
    points := points
    evaluated := passed + failed
    passed := passed
    failed := failed
    errored := errored
    hasLimits := !criteria.isEmpty
    passAllCorners := applicable && !criteria.isEmpty && decide (0 < passed + failed) &&
      failed == 0 && errored == 0 && omitted == [] }

/-! ## The walk ends -/

section

variable {circuit : CircuitJson} {u : List Text}

/-- New nets are marked and queued, each once. -/
def RailWalk.Grows (u : List Text) (w w' : RailWalk) : Prop :=
  ∃ fresh : List Text, fresh.Nodup ∧ (∀ x ∈ fresh, x ∉ w.visited ∧ x ∈ u) ∧
    w'.visited = w.visited ++ fresh ∧ w'.queue = w.queue ++ fresh

theorem RailWalk.Grows.refl (w : RailWalk) : RailWalk.Grows u w w :=
  ⟨[], List.nodup_nil, by simp, (List.append_nil _).symm, (List.append_nil _).symm⟩

theorem RailWalk.Grows.trans {w₁ w₂ w₃ : RailWalk} (h : RailWalk.Grows u w₁ w₂)
    (h' : RailWalk.Grows u w₂ w₃) : RailWalk.Grows u w₁ w₃ := by
  obtain ⟨f, hn, hf, hv, hq⟩ := h
  obtain ⟨f', hn', hf', hv', hq'⟩ := h'
  refine ⟨f ++ f', ?_, ?_, by rw [hv', hv, List.append_assoc], by rw [hq', hq, List.append_assoc]⟩
  · refine List.nodup_append.mpr ⟨hn, hn', fun a ha b hb hab => ?_⟩
    refine (hf' b hb).1 ?_
    rw [hv, ← hab]
    exact List.mem_append_right _ ha
  · intro x hx
    rcases List.mem_append.mp hx with hx | hx
    · exact hf x hx
    · refine ⟨fun hmem => (hf' x hx).1 ?_, (hf' x hx).2⟩
      rw [hv]
      exact List.mem_append_left _ hmem

theorem RailWalk.grows_meet {netId : Text} (h : netId ∈ u) (w : RailWalk) :
    RailWalk.Grows u w (w.meet netId) := by
  unfold RailWalk.meet
  split_ifs with hv
  · exact .refl w
  · refine ⟨[netId], List.nodup_singleton _, fun x hx => ?_, rfl, rfl⟩
    rw [List.mem_singleton.mp hx]
    exact ⟨hv, h⟩

theorem RailWalk.grows_collect (e : Component × Nat) (w : RailWalk) :
    RailWalk.Grows u w (w.collect e) := by
  unfold RailWalk.collect
  split
  · split_ifs
    · exact ⟨[], List.nodup_nil, by simp, (List.append_nil _).symm, (List.append_nil _).symm⟩
    · exact .refl w
  · exact .refl w

theorem walkNetForDrivers_grows (net : Text) (w : RailWalk) :
    RailWalk.Grows (componentNets circuit) w (walkNetForDrivers circuit net w) := by
  unfold walkNetForDrivers
  refine List.foldlRecOn _ _ (.refl w) fun w' hw' e he => hw'.trans ?_
  unfold RailWalk.pass
  split_ifs with htouch hsource
  · exact .refl w'
  · exact w'.grows_collect e
  · refine List.foldlRecOn _ _ (.refl w') fun w'' hw'' p hp => hw''.trans (w''.grows_meet ?_)
    exact List.mem_flatMap.mpr ⟨e.1, List.fst_mem_of_mem_zipIdx he, List.mem_map_of_mem hp⟩

theorem railWalk_queue (n : Nat) {w : RailWalk}
    (h : w.queue.length + (Worklist.unseen (componentNets circuit) w.visited).length ≤ n) :
    (railWalk circuit n w).queue = [] := by
  induction n generalizing w with
  | zero =>
    rw [railWalk]
    exact List.length_eq_zero_iff.mp (by omega)
  | succ n ih =>
    rw [railWalk]
    split
    · assumption
    · rename_i net queue hqueue
      obtain ⟨fresh, hn, hf, hv, hq⟩ :
          RailWalk.Grows (componentNets circuit) { w with queue := queue }
            (walkNetForDrivers circuit net { w with queue := queue }) :=
        walkNetForDrivers_grows net _
      refine ih ?_
      have hunseen := Worklist.length_unseen hn hf
      rw [hv, hq, List.length_append]
      rw [hqueue, List.length_cons] at h
      dsimp only at hunseen ⊢
      omega

/-- The fuel of `driversOf` lasts until the queue is empty. -/
theorem driversOf_drained (circuit : CircuitJson) (netId : Text) :
    (railWalk circuit (1 + (componentNets circuit).length) (railStart circuit netId)).queue = [] := by
  refine railWalk_queue _ ?_
  have hle : (Worklist.unseen (componentNets circuit) (railStart circuit netId).visited).length ≤
      (componentNets circuit).length :=
    (List.length_filter_le _ _).trans (componentNets circuit).dedup_sublist.length_le
  have hqueue : (railStart circuit netId).queue.length = 1 := rfl
  omega

/-! ## What a driver is -/

/-- A source of the circuit with a designator and a positive DC magnitude. -/
def IsDriver (circuit : CircuitJson) (e : Component × Nat) : Prop :=
  circuit.components[e.2]? = some e.1 ∧ e.1.type = .voltageSource ∧ e.1.designator ≠ [] ∧
    ∃ mag, dcMagnitude e.1.value = some mag ∧ lt (lit 0 0) mag = true

theorem RailWalk.collect_drivers {w : RailWalk} (hw : ∀ e ∈ w.drivers, IsDriver circuit e)
    {e : Component × Nat} (he : circuit.components[e.2]? = some e.1)
    (hsource : e.1.type = .voltageSource) : ∀ e' ∈ (w.collect e).drivers, IsDriver circuit e' := by
  unfold RailWalk.collect
  split
  · rename_i mag hmag
    split_ifs with hnew
    · rw [Bool.and_eq_true, Bool.and_eq_true, bne_iff_ne] at hnew
      refine List.forall_mem_append.mpr ⟨hw, fun e' he' => ?_⟩
      obtain rfl := List.mem_singleton.mp he'
      exact ⟨he, hsource, hnew.1.2, mag, hmag, hnew.1.1⟩
    · exact hw
  · exact hw

theorem RailWalk.meet_drivers (w : RailWalk) (netId : Text) : (w.meet netId).drivers = w.drivers := by
  unfold RailWalk.meet
  split_ifs <;> rfl

theorem walkNetForDrivers_drivers (net : Text) {w : RailWalk}
    (hw : ∀ e ∈ w.drivers, IsDriver circuit e) :
    ∀ e ∈ (walkNetForDrivers circuit net w).drivers, IsDriver circuit e := by
  unfold walkNetForDrivers
  refine List.foldlRecOn (motive := fun w : RailWalk => ∀ e ∈ w.drivers, IsDriver circuit e) _ _ hw
    fun w' hw' e he => ?_
  unfold RailWalk.pass
  split_ifs with htouch hsource
  · exact hw'
  · exact w'.collect_drivers hw' (List.mem_zipIdx_iff_getElem?.mp he) hsource
  · refine List.foldlRecOn (motive := fun w : RailWalk => ∀ e ∈ w.drivers, IsDriver circuit e) _ _ hw'
      fun w'' hw'' p _ => ?_
    rw [RailWalk.meet_drivers]
    exact hw''

theorem railWalk_drivers (n : Nat) {w : RailWalk} (hw : ∀ e ∈ w.drivers, IsDriver circuit e) :
    ∀ e ∈ (railWalk circuit n w).drivers, IsDriver circuit e := by
  induction n generalizing w with
  | zero => exact hw
  | succ n ih =>
    rw [railWalk]
    split
    · exact hw
    · exact ih (walkNetForDrivers_drivers _ hw)

theorem isDriver_of_mem {netId : Text} {e : Component × Nat} (h : e ∈ driversOf circuit netId) :
    IsDriver circuit e :=
  railWalk_drivers _ (by simp [railStart]) e h

end

end

end CircuitForge
