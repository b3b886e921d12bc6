/-
Which trusted supplies a run corners.

A rail is trusted for the DC number of its source, and the source is perturbed at the number that
`parseComponentMagnitude` reads.  A source that only the first reader accepts is neither cornered
nor omitted, and one whose AC number comes first is cornered at that one.
-/
import CircuitForge.Tolerance.Supply

namespace CircuitForge

open Js

section

variable [Runtime] {circuit : CircuitJson} {spec : SupplyCornerSpec}

/-! ## What a supply corner promises -/

/-- The driver of a rail that is trusted. -/
def trustedDriver (circuit : CircuitJson) (n : Net) : Option (Component × Nat) :=
  if n.isGround then none
  else
    match driversOf circuit n.id with
    | [d] => some d
    | _ => none

/-- `d` drives a trusted rail. -/
def DrivesTrusted (circuit : CircuitJson) (d : Component × Nat) : Prop :=
  ∃ n ∈ circuit.nets, n.isPower = true ∧ trustedDriver circuit n = some d

/-- The number behind an `AC` keyword is the one that is varied. -/
def ComponentMagnitude.acLed (m : ComponentMagnitude) : Bool :=
  (trimStart m.before).head?.any (sameLetter 'A')

/-- The supply of a driver is put at both extremes, through every combination. -/
def Perturbed (circuit : CircuitJson) (spec : SupplyCornerSpec) (d : Component × Nat) : Prop :=
  EveryCorner circuit (supplyTargets circuit spec) (supplyVariants circuit spec) ∧
  ∃ t ∈ supplyTargets circuit spec, t.place = d.2 ∧ t.designator = d.1.designator ∧
    t.magnitude.acLed = false

/-- Every trusted supply is cornered or disclosed. -/
def SupplyKept (circuit : CircuitJson) (spec : SupplyCornerSpec) : Prop :=
  supplyDrivers circuit spec.cap ≠ [] →
    (∀ d, DrivesTrusted circuit d →
      Perturbed circuit spec d ∨ d.1.designator ∈ omittedDrivers circuit spec.cap) ∧
    ∀ (M C : Type) (evaluate : M → List C → List Bool) (criteria : List C)
      (runVariant : CircuitJson → Nat → Option M),
      (runSupplyCorner circuit evaluate criteria spec runVariant).passAllCorners = true →
        ∀ d, DrivesTrusted circuit d → Perturbed circuit spec d ∧
          ∀ sides : List CornerSide, sides.length = (supplyTargets circuit spec).length →
            ∃ (i : Nat) (v : CornerVariant), (supplyVariants circuit spec)[i]? = some v ∧
              v.corner = cornerRecord (supplyTargets circuit spec) sides ∧
              v.PassedAt (fun m => evaluate m criteria) runVariant (i + 1)

/-! ## When it keeps it -/

/-- The first occurrences of the elements of a list. -/
def firsts (names : List Text) : List Text :=
  names.foldl (fun acc g => if g ∈ acc then acc else acc ++ [g]) []

/-- The designators of the trusted drivers, in the order of their rails. -/
def trustedNames (circuit : CircuitJson) : List Text :=
  firsts ((circuit.nets.filter Net.isPower).filterMap fun n =>
    (trustedDriver circuit n).map fun d => d.1.designator)

/-- No trusted driver has a magnitude, or all have one, at most thirty of them are cornered, and
each of these is the component its designator names and is not led by its AC number. -/
def SupplyReadable (circuit : CircuitJson) (spec : SupplyCornerSpec) : Prop :=
  (∀ g ∈ trustedNames circuit, (supplyDriver circuit g).isNone) ∨
  (∀ g ∈ trustedNames circuit, (supplyDriver circuit g).isSome) ∧
  min spec.cap (trustedNames circuit).length ≤ 30 ∧
  ∀ d, DrivesTrusted circuit d → d.1.designator ∈ (trustedNames circuit).take spec.cap →
    (byDesignator circuit).get? d.1.designator = some d ∧
    ∀ s ∈ supplyDriver circuit d.1.designator, s.magnitude.acLed = false

/-! ## Names -/

omit [Runtime] in
theorem firsts_spec (names acc : List Text) (hacc : acc.Nodup) :
    (names.foldl (fun acc g => if g ∈ acc then acc else acc ++ [g]) acc).Nodup ∧
      ∀ g, g ∈ names.foldl (fun acc g => if g ∈ acc then acc else acc ++ [g]) acc ↔
        g ∈ acc ∨ g ∈ names := by
  induction names generalizing acc with
  | nil => exact ⟨hacc, by simp⟩
  | cons a names ih =>
    rw [List.foldl_cons]
    by_cases ha : a ∈ acc
    · rw [if_pos ha]
      refine ⟨(ih acc hacc).1, fun g => ?_⟩
      rw [(ih acc hacc).2 g, List.mem_cons]
      constructor
      · exact fun h => h.imp_right Or.inr
      · rintro (h | rfl | h)
        · exact Or.inl h
        · exact Or.inl ha
        · exact Or.inr h
    · rw [if_neg ha]
      have hnodup : (acc ++ [a]).Nodup := by
        rw [List.nodup_append]
        refine ⟨hacc, List.nodup_singleton a, fun x hx y hy hxy => ha ?_⟩
        rw [List.mem_singleton.mp hy] at hxy
        exact hxy ▸ hx
      refine ⟨(ih _ hnodup).1, fun g => ?_⟩
      rw [(ih _ hnodup).2 g, List.mem_append, List.mem_singleton, List.mem_cons, or_assoc]

omit [Runtime] in
theorem firsts_nodup (names : List Text) : (firsts names).Nodup :=
  (firsts_spec names [] List.nodup_nil).1

omit [Runtime] in
theorem mem_firsts {names : List Text} {g : Text} : g ∈ firsts names ↔ g ∈ names := by
  rw [firsts, (firsts_spec names [] List.nodup_nil).2]
  simp

theorem mem_trustedNames {g : Text} :
    g ∈ trustedNames circuit ↔ ∃ d, DrivesTrusted circuit d ∧ d.1.designator = g := by
  rw [trustedNames, mem_firsts, List.mem_filterMap]
  constructor
  · rintro ⟨n, hn, hg⟩
    obtain ⟨d, hd, rfl⟩ := Option.map_eq_some_iff.mp hg
    obtain ⟨hmem, hpower⟩ := List.mem_filter.mp hn
    exact ⟨d, ⟨n, hmem, hpower, hd⟩, rfl⟩
  · rintro ⟨d, ⟨n, hmem, hpower, hd⟩, rfl⟩
    exact ⟨n, List.mem_filter.mpr ⟨hmem, hpower⟩, by rw [hd, Option.map_some]⟩

theorem isDriver_of_trustedDriver {n : Net} {d : Component × Nat}
    (h : trustedDriver circuit n = some d) : IsDriver circuit d := by
  unfold trustedDriver at h
  split_ifs at h
  split at h
  · rename_i d' hdrivers
    obtain rfl := Option.some.inj h
    exact isDriver_of_mem (by rw [hdrivers]; exact List.mem_singleton_self _)
  · cases h

theorem isDriver_of_drivesTrusted {d : Component × Nat} (h : DrivesTrusted circuit d) :
    IsDriver circuit d := by
  obtain ⟨n, -, -, hn⟩ := h
  exact isDriver_of_trustedDriver hn

/-! ## The drivers a run finds -/

/-- The component of a designator stands at its place and has that designator. -/
theorem byDesignator_get {g : Text} {e : Component × Nat}
    (h : (byDesignator circuit).get? g = some e) :
    circuit.components[e.2]? = some e.1 ∧ e.1.designator = g := by
  rcases Map.mem_fill (Map.mem_of_get? h) with ⟨x, hx, he⟩ | he
  · obtain ⟨rfl, rfl⟩ := Prod.mk.inj he
    exact ⟨List.mem_zipIdx_iff_getElem?.mp (List.mem_filter.mp hx).1, rfl⟩
  · cases he

theorem supplyDriver_spec {g : Text} {s : SupplyDriver} (h : supplyDriver circuit g = some s) :
    s.designator = g ∧ ∃ c, (byDesignator circuit).get? g = some (c, s.place) := by
  obtain ⟨e, he, hrest⟩ := Option.bind_eq_some_iff.mp h
  obtain ⟨value, -, hs⟩ := Option.bind_eq_some_iff.mp hrest
  obtain ⟨m, -, rfl⟩ := Option.map_eq_some_iff.mp hs
  exact ⟨(byDesignator_get he).2, e.1, he⟩

/-- What a trusted rail adds. -/
def takeName (circuit : CircuitJson) (st : List Text × List SupplyDriver) (g : Text) :
    List Text × List SupplyDriver :=
  if g ∈ st.1 then st
  else
    match supplyDriver circuit g with
    | some d => (st.1 ++ [g], st.2 ++ [d])
    | none => st

theorem takeDriver_validateRail (st : List Text × List SupplyDriver) (n : Net) :
    takeDriver circuit st (validateRail circuit n) =
      ((trustedDriver circuit n).map fun d => d.1.designator).elim st (takeName circuit st) := by
  unfold validateRail trustedDriver
  split_ifs
  · rfl
  · cases hdrivers : driversOf circuit n.id with
    | nil => rfl
    | cons d ds =>
      cases ds with
      | nil =>
        have hne : d.1.designator ≠ [] :=
          (isDriver_of_mem (by rw [hdrivers]; exact List.mem_singleton_self d)).2.2.1
        have htruthy : truthy (some d.1.designator) = some d.1.designator :=
          truthy_eq_some.mpr ⟨rfl, hne⟩
        unfold takeDriver
        simp only [htruthy]
        rfl
      | cons d' ds => rfl

theorem foldl_takeName (names acc : List Text) :
    names.foldl (takeName circuit) (acc.filter fun g => (supplyDriver circuit g).isSome,
      acc.filterMap (supplyDriver circuit)) =
      ((names.foldl (fun acc g => if g ∈ acc then acc else acc ++ [g]) acc).filter
          fun g => (supplyDriver circuit g).isSome,
        (names.foldl (fun acc g => if g ∈ acc then acc else acc ++ [g]) acc).filterMap
          (supplyDriver circuit)) := by
  induction names generalizing acc with
  | nil => rfl
  | cons g names ih =>
    rw [List.foldl_cons, List.foldl_cons, ← ih]
    congr 1
    unfold takeName
    cases hg : supplyDriver circuit g with
    | none =>
      by_cases hmem : g ∈ acc
      · simp [hmem]
      · simp [hmem, hg, List.filter_append, List.filterMap_append]
    | some s =>
      by_cases hmem : g ∈ acc
      · simp [hmem, hg]
      · simp [hmem, hg, List.filter_append, List.filterMap_append]

/-- The drivers are those of the trusted names that have a magnitude. -/
theorem allDrivers_eq (circuit : CircuitJson) :
    allDrivers circuit = (trustedNames circuit).filterMap (supplyDriver circuit) := by
  have hfold : ∀ (ns : List Net) (st : List Text × List SupplyDriver),
      ns.foldl (fun st n => takeDriver circuit st (validateRail circuit n)) st =
        (ns.filterMap fun n => (trustedDriver circuit n).map fun d => d.1.designator).foldl
          (takeName circuit) st := by
    intro ns
    induction ns with
    | nil => exact fun _ => rfl
    | cons n ns ih =>
      intro st
      rw [List.foldl_cons, ih, takeDriver_validateRail]
      cases hn : (trustedDriver circuit n).map fun d => d.1.designator with
      | none => simp only [List.filterMap_cons, hn, Option.elim_none]
      | some g => simp only [List.filterMap_cons, hn, Option.elim_some, List.foldl_cons]
  rw [allDrivers, validatePowerRails, List.foldl_map, hfold]
  exact congrArg Prod.snd (foldl_takeName _ [])

theorem mem_allDrivers {s : SupplyDriver} :
    s ∈ allDrivers circuit ↔ s.designator ∈ trustedNames circuit ∧
      supplyDriver circuit s.designator = some s := by
  rw [allDrivers_eq, List.mem_filterMap]
  constructor
  · rintro ⟨g, hg, hs⟩
    obtain ⟨rfl, -⟩ := supplyDriver_spec hs
    exact ⟨hg, hs⟩
  · exact fun h => ⟨_, h.1, h.2⟩

theorem allDrivers_designators (circuit : CircuitJson) :
    ((allDrivers circuit).map SupplyDriver.designator).Sublist (trustedNames circuit) := by
  rw [allDrivers_eq]
  have := map_filterMap_sublist (f := supplyDriver circuit) (g := SupplyDriver.designator)
    (h := id) (fun g s hs => (supplyDriver_spec hs).1) (trustedNames circuit)
  rwa [List.map_id] at this

theorem allDrivers_nodup (circuit : CircuitJson) :
    ((allDrivers circuit).map SupplyDriver.designator).Nodup :=
  (firsts_nodup _).sublist (allDrivers_designators circuit)

theorem mem_take_or_drop {g : Text} (cap : Nat)
    (h : g ∈ (allDrivers circuit).map SupplyDriver.designator) :
    g ∈ (supplyDrivers circuit cap).map SupplyDriver.designator ∨
      g ∈ ((allDrivers circuit).drop cap).map SupplyDriver.designator := by
  rwa [← List.take_append_drop cap (allDrivers circuit), List.map_append, List.mem_append] at h

/-- A driver under the cap is not omitted. -/
theorem notMem_omitted {g : Text} {cap : Nat}
    (h : g ∈ (supplyDrivers circuit cap).map SupplyDriver.designator) :
    g ∉ omittedDrivers circuit cap := by
  intro homitted
  have hnodup := allDrivers_nodup circuit
  rw [← List.take_append_drop cap (allDrivers circuit), List.map_append] at hnodup
  exact (List.nodup_append.mp hnodup).2.2 g h g (List.mem_filter.mp homitted).1 rfl

/-! ## The corners of a run -/

theorem supplyTargets_corners : Corners circuit (supplyTargets circuit spec) where
  designators := by
    rw [supplyTargets, List.map_map]
    exact (allDrivers_nodup circuit).sublist ((List.take_sublist _ _).map _)
  places := by
    rw [supplyTargets, List.map_map]
    refine (List.Nodup.of_map _ ((allDrivers_nodup circuit).sublist
      ((List.take_sublist spec.cap _).map _))).map_on fun s hs s' hs' hplace => ?_
    have hget : ∀ s ∈ (allDrivers circuit).take spec.cap, ∃ c,
        (byDesignator circuit).get? s.designator = some (c, s.place) :=
      fun s hs => (supplyDriver_spec (mem_allDrivers.mp (List.mem_of_mem_take hs)).2).2
    obtain ⟨c, hc⟩ := hget s hs
    obtain ⟨c', hc'⟩ := hget s' hs'
    obtain ⟨hat, hname⟩ := byDesignator_get hc
    obtain ⟨hat', hname'⟩ := byDesignator_get hc'
    have hsame : c = c' := by
      have hplace' : s.place = s'.place := hplace
      dsimp only at hat hat'
      rw [hplace', hat'] at hat
      exact (Option.some.inj hat).symm
    have hdesignator : s.designator = s'.designator := by
      rw [← hname, ← hname', hsame]
    have h := (mem_allDrivers.mp (List.mem_of_mem_take hs)).2
    have h' := (mem_allDrivers.mp (List.mem_of_mem_take hs')).2
    rw [hdesignator, h'] at h
    exact (Option.some.inj h).symm
  found := fun t ht => by
    obtain ⟨s, hs, rfl⟩ := List.mem_map.mp ht
    obtain ⟨-, c, hc⟩ := supplyDriver_spec (mem_allDrivers.mp (List.mem_of_mem_take hs)).2
    exact ⟨c, (byDesignator_get hc).1⟩

theorem supplyVariants_eq : supplyVariants circuit spec =
    (List.range (shiftOne (supplyTargets circuit spec).length).toNat).map
      (variantAt circuit (supplyTargets circuit spec)) := rfl

/-- The variants are the corners up to thirty drivers. -/
theorem supply_everyCorner_iff :
    EveryCorner circuit (supplyTargets circuit spec) (supplyVariants circuit spec) ↔
      (supplyTargets circuit spec).length ≤ 30 := by
  rw [supplyVariants_eq]
  constructor
  · intro h
    have hcount := h.count
    rwa [List.length_map, List.length_range, shiftOne_eq_iff] at hcount
  · intro h
    rw [(shiftOne_eq_iff _).mpr h]
    exact supplyTargets_corners.everyCorner (by omega)

/-- All corners pass when each of them passes and nothing is omitted. -/
theorem of_supply_passAllCorners {M C : Type} {evaluate : M → List C → List Bool}
    {criteria : List C} {runVariant : CircuitJson → Nat → Option M}
    (h : (runSupplyCorner circuit evaluate criteria spec runVariant).passAllCorners = true) :
    omittedDrivers circuit spec.cap = [] ∧
      ∀ (i : Nat) (v : CornerVariant), (supplyVariants circuit spec)[i]? = some v →
        v.PassedAt (fun m => evaluate m criteria) runVariant (i + 1) := by
  unfold runSupplyCorner at h
  simp only [Bool.and_eq_true, decide_eq_true_eq, beq_iff_eq] at h
  obtain ⟨⟨⟨⟨⟨happlicable, hlimits⟩, -⟩, hfail⟩, herror⟩, homitted⟩ := h
  refine ⟨homitted, fun i v hv => ?_⟩
  rw [if_pos happlicable] at hfail herror
  have hmem : SupplyCornerPoint.mk v.corner
      (supplyOutcome evaluate criteria (runVariant v.circuit (i + 1))) ∈
      supplyPoints circuit evaluate criteria spec runVariant := by
    refine List.mem_map.mpr ⟨(v, i + 1), ?_, rfl⟩
    rw [List.mem_zipIdx_iff_le_and_getElem?_sub]
    exact ⟨by omega, by simpa using hv⟩
  have hnofail := List.countP_eq_zero.mp hfail _ hmem
  have hnoerror := List.countP_eq_zero.mp herror _ hmem
  rw [decide_eq_true_eq] at hnofail hnoerror
  cases hrun : runVariant v.circuit (i + 1) with
  | none =>
    rw [hrun] at hnoerror
    exact absurd rfl hnoerror
  | some m =>
    rw [hrun, supplyOutcome, if_neg (by simpa using hlimits)] at hnofail
    refine ⟨m, hrun, allPass_iff.mp ?_⟩
    by_contra hpass
    exact hnofail (if_neg hpass)

/-! ## Kept and readable -/

theorem supplyDrivers_ne_nil_iff :
    supplyDrivers circuit spec.cap ≠ [] ↔
      ∃ g ∈ trustedNames circuit, (supplyDriver circuit g).isSome := by
  have hcap : spec.cap ≠ 0 := (lt_of_lt_of_le Nat.zero_lt_one (le_max_left _ _)).ne'
  rw [supplyDrivers, Ne, List.take_eq_nil_iff, not_or, allDrivers_eq,
    List.filterMap_eq_nil_iff]
  simp only [hcap, not_false_eq_true, true_and, not_forall, Option.isSome_iff_ne_none, ne_eq,
    exists_prop]

/-- Where every trusted driver has a magnitude, those under the cap are the first names. -/
theorem allDrivers_names (h : ∀ g ∈ trustedNames circuit, (supplyDriver circuit g).isSome) :
    (allDrivers circuit).map SupplyDriver.designator = trustedNames circuit := by
  refine (allDrivers_designators circuit).eq_of_length ?_
  rw [List.length_map, allDrivers_eq]
  have hlength : ∀ names : List Text, (∀ g ∈ names, (supplyDriver circuit g).isSome) →
      (names.filterMap (supplyDriver circuit)).length = names.length := by
    intro names
    induction names with
    | nil => exact fun _ => rfl
    | cons g names ih =>
      intro hall
      obtain ⟨hg, hrest⟩ := List.forall_mem_cons.mp hall
      obtain ⟨s, hs⟩ := Option.isSome_iff_exists.mp hg
      rw [List.filterMap_cons_some hs, List.length_cons, List.length_cons, ih hrest]
  exact hlength _ h

theorem supplyTargets_names (h : ∀ g ∈ trustedNames circuit, (supplyDriver circuit g).isSome) :
    (supplyTargets circuit spec).map Toleranced.designator =
      (trustedNames circuit).take spec.cap := by
  rw [supplyTargets, List.map_map, supplyDrivers, ← allDrivers_names h, List.map_take]
  rfl

/-- A trusted supply is cornered where its designator names it and its AC number does not come
first. -/
theorem perturbed_iff {d : Component × Nat} (hd : IsDriver circuit d) :
    Perturbed circuit spec d ↔ (supplyTargets circuit spec).length ≤ 30 ∧
      d.1.designator ∈ (supplyTargets circuit spec).map Toleranced.designator ∧
      (byDesignator circuit).get? d.1.designator = some d ∧
      ∀ s ∈ supplyDriver circuit d.1.designator, s.magnitude.acLed = false := by
  rw [Perturbed, supply_everyCorner_iff]
  refine and_congr_right fun _ => ?_
  constructor
  · rintro ⟨t, ht, hplace, hname, hled⟩
    obtain ⟨s, hs, rfl⟩ := List.mem_map.mp ht
    have hs' := (mem_allDrivers.mp (List.mem_of_mem_take hs)).2
    have hname' : s.designator = d.1.designator := hname
    have hplace' : s.place = d.2 := hplace
    rw [hname'] at hs'
    obtain ⟨-, c, hc⟩ := supplyDriver_spec hs'
    have hat := (byDesignator_get hc).1
    dsimp only at hat
    rw [hplace', hd.1] at hat
    rw [hplace', ← Option.some.inj hat] at hc
    refine ⟨hname ▸ List.mem_map_of_mem ht, hc, fun s' hs'' => ?_⟩
    rw [Option.mem_def, hs'] at hs''
    rw [← Option.some.inj hs'']
    exact hled
  · rintro ⟨hmem, hget, hled⟩
    obtain ⟨t, ht, hname⟩ := List.mem_map.mp hmem
    obtain ⟨s, hs, rfl⟩ := List.mem_map.mp ht
    have hs' := (mem_allDrivers.mp (List.mem_of_mem_take hs)).2
    have hname' : s.designator = d.1.designator := hname
    rw [hname'] at hs'
    obtain ⟨-, c, hc⟩ := supplyDriver_spec hs'
    rw [hget] at hc
    exact ⟨_, ht, (congrArg Prod.snd (Option.some.inj hc)).symm, hname, hled s hs'⟩

/-- A run that keeps every trusted supply can read them. -/
theorem SupplyKept.readable (hkept : SupplyKept circuit spec) : SupplyReadable circuit spec := by
  by_cases happlicable : supplyDrivers circuit spec.cap = []
  · refine Or.inl fun g hg => ?_
    rw [← Option.not_isSome_iff_eq_none.trans Option.isNone_iff_eq_none.symm]
    exact fun hsome => supplyDrivers_ne_nil_iff.mpr ⟨g, hg, hsome⟩ happlicable
  · obtain ⟨hcases, -⟩ := hkept happlicable
    have hall : ∀ g ∈ trustedNames circuit, (supplyDriver circuit g).isSome := by
      intro g hg
      obtain ⟨d, hd, rfl⟩ := mem_trustedNames.mp hg
      have hdriver := isDriver_of_drivesTrusted hd
      have hmem : d.1.designator ∈ (allDrivers circuit).map SupplyDriver.designator := by
        rcases hcases d hd with hperturbed | homitted
        · have htarget := ((perturbed_iff hdriver).mp hperturbed).2.1
          rw [supplyTargets, List.map_map] at htarget
          exact ((List.take_sublist _ _).map _).subset htarget
        · exact ((List.drop_sublist _ _).map _).subset (List.mem_filter.mp homitted).1
      obtain ⟨s, hs, hname⟩ := List.mem_map.mp hmem
      rw [← hname, (mem_allDrivers.mp hs).2]
      rfl
    have hcornered : ∀ d, DrivesTrusted circuit d →
        d.1.designator ∈ (trustedNames circuit).take spec.cap → Perturbed circuit spec d := by
      intro d hd htake
      refine (hcases d hd).resolve_right (notMem_omitted ?_)
      rw [supplyDrivers, List.map_take, allDrivers_names hall]
      exact htake
    refine Or.inr ⟨hall, ?_, fun d hd htake => ?_⟩
    · obtain ⟨s, hs⟩ := List.exists_mem_of_ne_nil _ happlicable
      have htake : s.designator ∈ (trustedNames circuit).take spec.cap := by
        rw [← allDrivers_names hall, ← List.map_take]
        exact List.mem_map_of_mem hs
      obtain ⟨d, hd, hname⟩ := mem_trustedNames.mp (List.mem_of_mem_take htake)
      rw [← hname] at htake
      have hcount := supply_everyCorner_iff.mp (hcornered d hd htake).1
      have htargets : (supplyTargets circuit spec).map Toleranced.designator =
          (trustedNames circuit).take spec.cap := supplyTargets_names hall
      have hlength := congrArg List.length htargets
      rw [List.length_map, List.length_take] at hlength
      omega
    · have hdriver : IsDriver circuit d := by
        obtain ⟨n, -, -, hn⟩ := hd
        exact isDriver_of_trustedDriver hn
      exact ((perturbed_iff hdriver).mp (hcornered d hd htake)).2.2

/-- Supplies that can be read are kept. -/
theorem SupplyReadable.kept (h : SupplyReadable circuit spec) : SupplyKept circuit spec := by
  intro happlicable
  rcases h with hnone | ⟨hall, hcount, hnamed⟩
  · obtain ⟨g, hg, hsome⟩ := supplyDrivers_ne_nil_iff.mp happlicable
    have := hnone g hg
    rw [Option.isNone_iff_eq_none] at this
    rw [this] at hsome
    cases hsome
  · have htargets : (supplyTargets circuit spec).map Toleranced.designator =
        (trustedNames circuit).take spec.cap := supplyTargets_names hall
    have hk : (supplyTargets circuit spec).length ≤ 30 := by
      have hlength := congrArg List.length htargets
      rw [List.length_map, List.length_take] at hlength
      omega
    have hcases : ∀ d, DrivesTrusted circuit d →
        Perturbed circuit spec d ∨ d.1.designator ∈ omittedDrivers circuit spec.cap := by
      intro d hd
      have hdriver := isDriver_of_drivesTrusted hd
      have hmem : d.1.designator ∈ trustedNames circuit := mem_trustedNames.mpr ⟨d, hd, rfl⟩
      rw [← allDrivers_names hall] at hmem
      rcases mem_take_or_drop spec.cap hmem with htake | hdrop
      · left
        rw [supplyDrivers, List.map_take, allDrivers_names hall] at htake
        obtain ⟨hget, hled⟩ := hnamed d hd htake
        exact (perturbed_iff hdriver).mpr ⟨hk, htargets ▸ htake, hget, hled⟩
      · exact Or.inr (List.mem_filter.mpr ⟨hdrop, decide_eq_true hdriver.2.2.1⟩)
    refine ⟨hcases, fun M C evaluate criteria runVariant hpass d hd => ?_⟩
    obtain ⟨homitted, hpassed⟩ := of_supply_passAllCorners hpass
    have hperturbed : Perturbed circuit spec d := by
      refine (hcases d hd).resolve_right fun hmem => ?_
      rw [homitted] at hmem
      cases hmem
    refine ⟨hperturbed, fun sides hsides => ?_⟩
    obtain ⟨i, v, hv, hcorner⟩ := hperturbed.1.exists_variant hsides
    exact ⟨i, v, hv, hcorner, hpassed i v hv⟩

end

/-- Two rails: one fed by a DC source that also carries a sine, one by a plain one. -/
def twoRails : CircuitJson where
  components := [
    { id := ['1'], type := .voltageSource, designator := "V1".toList
      value := some "5 SIN(0 1 1k)".toList, pins := [⟨['+'], ['a']⟩, ⟨['-'], ['0']⟩] },
    { id := ['2'], type := .voltageSource, designator := "V2".toList
      value := some "DC 3".toList, pins := [⟨['+'], ['b']⟩, ⟨['-'], ['0']⟩] }]
  nets := [{ id := ['a'], name := ['a'], isPower := true },
    { id := ['b'], name := ['b'], isPower := true },
    { id := ['0'], name := ['0'], isGround := true }]

end CircuitForge
