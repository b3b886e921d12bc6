/-
Worst case means every corner: `runWorstCase` of `corner.ts`.

The corners are enumerated by a mask of 32 bits, and the components a cap drops are reported by
their designators.  Up to thirty components every corner is there, and a component without a
designator that is dropped alone is not reported.
-/
import CircuitForge.Tolerance.Variants
import CircuitForge.Js.Masks

namespace CircuitForge

open Js

/-! ## Masks -/

theorem shiftOne_toNat (k : Nat) :
    (shiftOne k).toNat = if k % 32 = 31 then 0 else 2 ^ (k % 32) := by
  have hall : ∀ j < 32, ((BitVec.ofNat 32 (2 ^ j)).toInt).toNat = if j = 31 then 0 else 2 ^ j := by
    decide
  exact hall _ (Nat.mod_lt k (by decide))

/-- The loop bound is the number of corners up to thirty components. -/
theorem shiftOne_eq_iff (k : Nat) : (shiftOne k).toNat = 2 ^ k ↔ k ≤ 30 := by
  rw [shiftOne_toNat]
  constructor
  · intro h
    by_contra hk
    have hlt : k % 32 < 32 := Nat.mod_lt k (by decide)
    split_ifs at h
    · exact absurd h.symm (by positivity)
    · have := Nat.pow_right_injective (le_refl 2) h
      omega
  · intro h
    rw [Nat.mod_eq_of_lt (by omega), if_neg (by omega)]

/-- The sides of the corner `mask`. -/
def sidesOf (k mask : Nat) : List CornerSide :=
  (maskBits k mask).map fun bit => if bit then .hi else .lo

theorem sidesOf_eq (k mask : Nat) : sidesOf k mask = (List.range k).map (sideOf mask) := by
  rw [sidesOf, maskBits, List.map_map]
  rfl

/-- The sides a choice of bits stands for. -/
theorem exists_bits (sides : List CornerSide) :
    ∃ bits : List Bool, bits.length = sides.length ∧
      bits.map (fun bit => if bit then CornerSide.hi else .lo) = sides := by
  refine ⟨sides.map fun side => side = .hi, List.length_map _, ?_⟩
  rw [List.map_map]
  refine (List.map_congr_left fun side _ => ?_).trans (List.map_id sides)
  cases side <;> rfl

theorem side_injective :
    Function.Injective fun bit : Bool => if bit then CornerSide.hi else .lo := by
  decide

/-- `results.length > 0 && results.every((r) => r.pass)`, of the `pass` of the results. -/
def allPass (results : List Bool) : Bool := decide (results ≠ []) && results.all id

theorem allPass_iff {results : List Bool} :
    allPass results = true ↔ results ≠ [] ∧ ∀ pass ∈ results, pass = true := by
  simp [allPass]

section

variable [Runtime]

/-! ## What is left out -/

/-- The cap: `Math.max(1, spec.maxComponents ?? 8)`, of which `slice` takes the whole part. -/
def CornerSpec.cap (spec : CornerSpec) : Nat := max 1 (spec.maxComponents.getD 8)

/-- The components behind the cap. -/
def droppedComponents (circuit : CircuitJson) (spec : CornerSpec) : List Toleranced :=
  (tolerancedComponents circuit spec.components).drop spec.cap

/-- Designators, less the empty ones. -/
def designatorsOf (ts : List Toleranced) : List Text :=
  (ts.map Toleranced.designator).filter (· ≠ [])

/-! ## The run -/

inductive CornerOutcome where
  | pass | fail | errored
  deriving DecidableEq

structure CornerPoint where
  corner : Map Text CornerSide
  outcome : CornerOutcome

structure WorstCaseResult where
  componentsCornered : List Text
  omitted : List Text
  points : List CornerPoint
  evaluated : Nat
  passed : Nat
  failed : Nat
  errored : Nat
  passAllCorners : Bool
  worstCorners : List (Map Text CornerSide)

/-- The outcome of a corner whose run ended with these measurements, if with any. -/
def cornerOutcome {M : Type} (evaluate : M → List Bool) : Option M → CornerOutcome
  | none => .errored
  | some m => if allPass (evaluate m) then .pass else .fail

/-- The points with an outcome. -/
def countOutcome (points : List CornerPoint) (outcome : CornerOutcome) : Nat :=
  points.countP fun p => p.outcome = outcome

/-- `runWorstCase`.  `evaluate` is the `pass` of every result of `evaluateAssertions`, and
`runVariant` answers nothing for a run that gave `null` or threw. -/
def runWorstCase {M : Type} (circuit : CircuitJson) (evaluate : M → List Bool) (spec : CornerSpec)
    (runVariant : CircuitJson → Nat → Option M) : WorstCaseResult :=
  let points := (cornerVariants circuit spec).zipIdx.map fun e =>
    { corner := e.1.corner, outcome := cornerOutcome evaluate (runVariant e.1.circuit e.2) :
      CornerPoint }
  let omitted := designatorsOf (droppedComponents circuit spec)
  let evaluated := points.countP fun p => p.outcome ≠ .errored
  let errored := points.length - evaluated
  { componentsCornered := designatorsOf (cornered circuit spec)
    omitted := omitted
    points := points
    evaluated := evaluated
    passed := countOutcome points .pass
    failed := countOutcome points .fail
    errored := errored
    passAllCorners := decide (0 < evaluated) && countOutcome points .fail == 0 && errored == 0 &&
      omitted == []
    worstCorners := (points.filter fun p => p.outcome = .fail).map CornerPoint.corner }

/-! ## What the worst case promises -/

/-- The record of a choice of sides. -/
def cornerRecord (ts : List Toleranced) (sides : List CornerSide) : Map Text CornerSide :=
  (ts.map Toleranced.designator).zip sides

/-- A variant differs from the circuit in the values of the cornered components, and each of them
has the value of the side its record says. -/
structure CornerVariant.OnlyCorners (v : CornerVariant) (circuit : CircuitJson)
    (ts : List Toleranced) : Prop where
  rest : { v.circuit with components := circuit.components } = circuit
  others : ∀ place, place ∉ ts.map Toleranced.place →
    v.circuit.components[place]? = circuit.components[place]?
  values : ∀ t ∈ ts, ∃ c side, circuit.components[t.place]? = some c ∧
    v.corner.get? t.designator = some side ∧
    v.circuit.components[t.place]? = some { c with value := some (t.corner side) }

/-- The variants are the corners of these components: one for each choice of sides. -/
structure EveryCorner (circuit : CircuitJson) (ts : List Toleranced)
    (variants : List CornerVariant) : Prop where
  count : variants.length = 2 ^ ts.length
  once : ∀ sides : List CornerSide, sides.length = ts.length →
    (variants.map CornerVariant.corner).count (cornerRecord ts sides) = 1
  only : ∀ v ∈ variants, v.OnlyCorners circuit ts

/-- A variant was run, with this number, and every criterion passed there. -/
def CornerVariant.PassedAt {M : Type} (v : CornerVariant) (evaluate : M → List Bool)
    (runVariant : CircuitJson → Nat → Option M) (i : Nat) : Prop :=
  ∃ m, runVariant v.circuit i = some m ∧ evaluate m ≠ [] ∧ ∀ pass ∈ evaluate m, pass = true

/-- Worst case means every corner. -/
def WorstCaseKept (circuit : CircuitJson) (spec : CornerSpec) : Prop :=
  (1 ≤ (cornered circuit spec).length →
    EveryCorner circuit (cornered circuit spec) (cornerVariants circuit spec)) ∧
  ∀ (M : Type) (evaluate : M → List Bool) (runVariant : CircuitJson → Nat → Option M),
    (runWorstCase circuit evaluate spec runVariant).passAllCorners = true →
      (∀ sides : List CornerSide, sides.length = (cornered circuit spec).length →
        ∃ (i : Nat) (v : CornerVariant), (cornerVariants circuit spec)[i]? = some v ∧
          v.corner = cornerRecord (cornered circuit spec) sides ∧
          v.PassedAt evaluate runVariant i) ∧
      ∀ t ∈ tolerancedComponents circuit spec.components, t ∈ cornered circuit spec

/-! ## Every corner -/

/-- The record a corner fills in is that of its sides. -/
theorem fill_eq_cornerRecord {ts : List Toleranced} (h : (ts.map Toleranced.designator).Nodup)
    (mask : Nat) :
    Map.fill (fun e => e.1.designator) (fun e => sideOf mask e.2) ts.zipIdx [] =
      cornerRecord ts (sidesOf ts.length mask) := by
  have hnodup : (ts.zipIdx.map fun e => e.1.designator).Nodup := by
    rw [← List.zipIdx_map_fst 0 ts, List.map_map] at h
    exact h
  rw [Map.fill_of_nodup hnodup (by simp), List.nil_append, cornerRecord, sidesOf_eq,
    List.zipIdx_eq_zip_range', ← List.range_eq_range', List.zip_map]
  rfl

/-- A record tells the sides. -/
theorem cornerRecord_inj {ts : List Toleranced} {sides sides' : List CornerSide}
    (h : sides.length = ts.length) (h' : sides'.length = ts.length)
    (heq : cornerRecord ts sides = cornerRecord ts sides') : sides = sides' := by
  have hsnd := congrArg (List.map Prod.snd) heq
  rwa [cornerRecord, cornerRecord, List.map_snd_zip (by rw [List.length_map, h]),
    List.map_snd_zip (by rw [List.length_map, h'])] at hsnd

section

variable {circuit : CircuitJson} {ts : List Toleranced}

/-- The variant of a mask. -/
def variantAt (circuit : CircuitJson) (ts : List Toleranced) (mask : Nat) : CornerVariant where
  corner := Map.fill (fun e => e.1.designator) (fun e => sideOf mask e.2) ts.zipIdx []
  circuit := withValues circuit (overrides ts mask)

/-- A place that is not cornered has no override. -/
theorem overrides_get_none {place : Nat} (h : place ∉ ts.map Toleranced.place) (mask : Nat) :
    (overrides ts mask).get? place = none := by
  rw [overrides, Map.get?_fill, Map.get?_nil, Option.or_none, Option.map_eq_none_iff,
    List.find?_eq_none]
  intro e he
  rw [decide_eq_true_eq]
  rintro rfl
  exact h (List.mem_map_of_mem (List.fst_mem_of_mem_zipIdx (List.mem_reverse.mp he)))

/-- The components to corner: each at a place of its own in the circuit, under a designator of
its own. -/
structure Corners (circuit : CircuitJson) (ts : List Toleranced) : Prop where
  designators : (ts.map Toleranced.designator).Nodup
  places : (ts.map Toleranced.place).Nodup
  found : ∀ t ∈ ts, ∃ c, circuit.components[t.place]? = some c

/-- Every variant differs from the circuit at its corner only. -/
theorem Corners.onlyCorners (h : Corners circuit ts) (mask : Nat) :
    (variantAt circuit ts mask).OnlyCorners circuit ts where
  rest := rfl
  others := fun place hplace => by
    show (withValues circuit _).components[place]? = _
    rw [withValues, List.getElem?_map, List.getElem?_zipIdx]
    cases circuit.components[place]? with
    | none => rfl
    | some c => simp only [Option.map_some, Nat.zero_add, overrides_get_none hplace]
  values := fun t ht => by
    obtain ⟨i, hi⟩ := List.mem_iff_getElem?.mp ht
    obtain ⟨c, hc⟩ := h.found t ht
    refine ⟨c, sideOf mask i, hc, ?_, ?_⟩
    · have hnodup : (ts.zipIdx.map fun e => e.1.designator).Nodup := by
        have hts := h.designators
        rw [← List.zipIdx_map_fst 0 ts, List.map_map] at hts
        exact hts
      exact Map.get?_fill_of_nodup (x := (t, i)) hnodup (List.mem_zipIdx_iff_getElem?.mpr hi) []
    · show (withValues circuit _).components[t.place]? = _
      rw [withValues, List.getElem?_map, List.getElem?_zipIdx, hc]
      simp only [Option.map_some, Nat.zero_add, overrides_get h.places hi]

/-- The variants of all masks are the corners. -/
theorem Corners.everyCorner (h : Corners circuit ts) (hk : ts.length ≤ 32) :
    EveryCorner circuit ts ((List.range (2 ^ ts.length)).map (variantAt circuit ts)) := by
  refine ⟨by rw [List.length_map, List.length_range], fun sides hsides => ?_, fun v hv => ?_⟩
  · obtain ⟨bits, hbits, rfl⟩ := exists_bits sides
    rw [List.length_map] at hsides
    have hrecords : ((List.range (2 ^ ts.length)).map (variantAt circuit ts)).map
        CornerVariant.corner = (List.range (2 ^ ts.length)).map fun mask =>
          cornerRecord ts ((maskBits ts.length mask).map fun bit =>
            if bit then CornerSide.hi else .lo) := by
      rw [List.map_map]
      exact List.map_congr_left fun mask _ => fill_eq_cornerRecord h.designators mask
    rw [hrecords]
    refine count_map_maskBits
      (f := fun bits => cornerRecord ts (bits.map fun bit => if bit then CornerSide.hi else .lo))
      hk (fun b c hb hc heq => ?_) hsides
    exact List.map_injective_iff.mpr side_injective
      (cornerRecord_inj (by rw [List.length_map, hb]) (by rw [List.length_map, hc]) heq)
  · obtain ⟨mask, -, rfl⟩ := List.mem_map.mp hv
    exact h.onlyCorners mask

/-- Every choice of sides is the record of a variant. -/
theorem EveryCorner.exists_variant {variants : List CornerVariant}
    (h : EveryCorner circuit ts variants) {sides : List CornerSide}
    (hsides : sides.length = ts.length) :
    ∃ (i : Nat) (v : CornerVariant), variants[i]? = some v ∧ v.corner = cornerRecord ts sides := by
  have hmem := List.count_pos_iff.mp (by rw [h.once sides hsides]; exact Nat.one_pos)
  obtain ⟨v, hv, hcorner⟩ := List.mem_map.mp hmem
  obtain ⟨i, hi⟩ := List.mem_iff_getElem?.mp hv
  exact ⟨i, v, hi, hcorner⟩

end

section

variable {circuit : CircuitJson} {spec : CornerSpec}

theorem cornerVariants_eq (h : cornered circuit spec ≠ []) :
    cornerVariants circuit spec = (List.range (shiftOne (cornered circuit spec).length).toNat).map
      (variantAt circuit (cornered circuit spec)) :=
  if_neg h

theorem cornered_corners (h : (circuit.components.map Component.designator).Nodup) :
    Corners circuit (cornered circuit spec) where
  designators := (designators_nodup h spec.components).sublist ((List.take_sublist _ _).map _)
  places := cornered_places circuit spec
  found := fun t ht => by
    obtain ⟨c, hc, -⟩ := toleranced_place (List.mem_of_mem_take ht)
    exact ⟨c, hc⟩

/-- Up to thirty components the variants are the corners. -/
theorem everyCorner_of_le (h : (circuit.components.map Component.designator).Nodup)
    (hne : cornered circuit spec ≠ []) (hk : (cornered circuit spec).length ≤ 30) :
    EveryCorner circuit (cornered circuit spec) (cornerVariants circuit spec) := by
  rw [cornerVariants_eq hne, (shiftOne_eq_iff _).mpr hk]
  exact (cornered_corners h).everyCorner (by omega)

/-! ## The verdict -/

omit [Runtime] in
theorem cornerOutcome_eq_pass {M : Type} {evaluate : M → List Bool} {answer : Option M} :
    cornerOutcome evaluate answer = .pass ↔
      ∃ m, answer = some m ∧ evaluate m ≠ [] ∧ ∀ pass ∈ evaluate m, pass = true := by
  unfold cornerOutcome
  constructor
  · intro h
    split at h
    · cases h
    · rename_i m
      split_ifs at h with hpass
      exact ⟨m, rfl, allPass_iff.mp hpass⟩
  · rintro ⟨m, rfl, hpass⟩
    exact if_pos (allPass_iff.mpr hpass)

section

variable {M : Type} (evaluate : M → List Bool) (runVariant : CircuitJson → Nat → Option M)

/-- All corners pass when there is one, each of them passes, and nothing omitted is named. -/
theorem passAllCorners_iff :
    (runWorstCase circuit evaluate spec runVariant).passAllCorners = true ↔
      cornerVariants circuit spec ≠ [] ∧
      (∀ i v, (cornerVariants circuit spec)[i]? = some v →
        cornerOutcome evaluate (runVariant v.circuit i) = .pass) ∧
      designatorsOf (droppedComponents circuit spec) = [] := by
  set points := (cornerVariants circuit spec).zipIdx.map fun e =>
    ({ corner := e.1.corner, outcome := cornerOutcome evaluate (runVariant e.1.circuit e.2) } :
      CornerPoint) with hpoints
  have houtcomes : (∀ p ∈ points, p.outcome = .pass) ↔
      ∀ i v, (cornerVariants circuit spec)[i]? = some v →
        cornerOutcome evaluate (runVariant v.circuit i) = .pass := by
    rw [hpoints, List.forall_mem_map]
    constructor
    · exact fun h i v hv => h (v, i) (List.mem_zipIdx_iff_getElem?.mpr hv)
    · exact fun h e he => h e.2 e.1 (List.mem_zipIdx_iff_getElem?.mp he)
  have hnil : points = [] ↔ cornerVariants circuit spec = [] := by
    rw [hpoints, List.map_eq_nil_iff, List.zipIdx_eq_nil_iff]
  have hcount : (0 < points.countP (fun p => p.outcome ≠ .errored) ∧
      countOutcome points .fail = 0 ∧
      points.length - points.countP (fun p => p.outcome ≠ .errored) = 0) ↔
      points ≠ [] ∧ ∀ p ∈ points, p.outcome = .pass := by
    rw [countOutcome, List.countP_eq_zero, List.countP_pos_iff, Nat.sub_eq_zero_iff_le]
    constructor
    · rintro ⟨⟨p, hp, -⟩, hfail, hran⟩
      have hran' := List.countP_eq_length.mp (le_antisymm List.countP_le_length hran)
      refine ⟨List.ne_nil_of_mem hp, fun q hq => ?_⟩
      have hf := hfail q hq
      have hr := hran' q hq
      cases ho : q.outcome with
      | pass => rfl
      | fail => simp [ho] at hf
      | errored => simp [ho] at hr
    · rintro ⟨hne, hall⟩
      obtain ⟨p, hp⟩ := List.exists_mem_of_ne_nil _ hne
      refine ⟨⟨p, hp, by simp [hall p hp]⟩, fun q hq => by simp [hall q hq], ?_⟩
      exact (List.countP_eq_length.mpr fun q hq => by simp [hall q hq]).ge
  rw [← houtcomes, Ne, ← hnil, ← and_assoc, ← Ne, ← hcount]
  simp only [runWorstCase, ← hpoints, Bool.and_eq_true, decide_eq_true_eq, beq_iff_eq, and_assoc]

end

/-- Where nothing is dropped every toleranced component is cornered. -/
theorem dropped_eq_nil_iff :
    droppedComponents circuit spec = [] ↔
      ∀ t ∈ tolerancedComponents circuit spec.components, t ∈ cornered circuit spec := by
  have hsplit : cornered circuit spec ++ droppedComponents circuit spec =
      tolerancedComponents circuit spec.components := List.take_append_drop _ _
  constructor
  · intro h t ht
    rwa [← hsplit, h, List.append_nil] at ht
  · intro h
    refine List.eq_nil_iff_forall_not_mem.mpr fun t ht => ?_
    have hplaces := places_nodup circuit spec.components
    rw [← hsplit, List.map_append] at hplaces
    have hmem : t ∈ cornered circuit spec :=
      h t (by rw [← hsplit]; exact List.mem_append_right _ ht)
    exact (List.nodup_append.mp hplaces).2.2 _ (List.mem_map_of_mem hmem) _
      (List.mem_map_of_mem ht) rfl

theorem cornered_ne_nil_of_dropped (h : droppedComponents circuit spec ≠ []) :
    cornered circuit spec ≠ [] := by
  intro hnil
  have hcap : 0 < spec.cap := lt_of_lt_of_le Nat.zero_lt_one (le_max_left _ _)
  rw [cornered, List.take_eq_nil_iff] at hnil
  rcases hnil with hzero | hnil
  · exact absurd hzero hcap.ne'
  · rw [droppedComponents, hnil, List.drop_nil] at h
    exact h rfl

/-- Worst case means every corner up to thirty cornered components, unless all that is dropped
goes without a designator. -/
theorem worst_case_kept_iff (h : (circuit.components.map Component.designator).Nodup) :
    WorstCaseKept circuit spec ↔ (cornered circuit spec).length ≤ 30 ∧
      (droppedComponents circuit spec = [] ∨
        ∃ t ∈ droppedComponents circuit spec, t.designator ≠ []) := by
  constructor
  · rintro ⟨hcorners, hverdict⟩
    have hk : (cornered circuit spec).length ≤ 30 := by
      by_contra hk
      have hne : cornered circuit spec ≠ [] := by
        rw [← List.length_pos_iff]
        omega
      have hcount := (hcorners (by omega)).count
      rw [cornerVariants_eq hne, List.length_map, List.length_range, shiftOne_eq_iff] at hcount
      exact hk hcount
    refine ⟨hk, or_iff_not_imp_right.mpr fun hnamed => ?_⟩
    by_contra hdropped
    have hne := cornered_ne_nil_of_dropped hdropped
    have homitted : designatorsOf (droppedComponents circuit spec) = [] := by
      rw [designatorsOf, List.filter_eq_nil_iff, List.forall_mem_map]
      intro t ht
      rw [decide_eq_true_eq]
      exact fun hd => hnamed ⟨t, ht, hd⟩
    have hvariants : cornerVariants circuit spec ≠ [] := by
      have hpos := List.length_pos_iff.mpr hne
      have hcount := (hcorners (by omega)).count
      rw [← List.length_pos_iff, hcount]
      positivity
    have hpass : (runWorstCase circuit (fun _ : Unit => [true]) spec
        fun _ _ => some ()).passAllCorners = true :=
      (passAllCorners_iff _ _).mpr ⟨hvariants, fun _ _ _ => rfl, homitted⟩
    exact hdropped (dropped_eq_nil_iff.mpr (hverdict Unit _ _ hpass).2)
  · rintro ⟨hk, hdropped⟩
    refine ⟨fun hpos => everyCorner_of_le h (List.length_pos_iff.mp hpos) hk,
      fun M evaluate runVariant hpass => ?_⟩
    obtain ⟨hvariants, hall, homitted⟩ := (passAllCorners_iff evaluate runVariant).mp hpass
    have hne : cornered circuit spec ≠ [] := by
      rintro hnil
      exact hvariants (if_pos hnil)
    refine ⟨fun sides hsides => ?_, dropped_eq_nil_iff.mp ?_⟩
    · obtain ⟨i, v, hi, hcorner⟩ := (everyCorner_of_le h hne hk).exists_variant hsides
      exact ⟨i, v, hi, hcorner, cornerOutcome_eq_pass.mp (hall i v hi)⟩
    · rcases hdropped with hdropped | ⟨t, ht, hd⟩
      · exact hdropped
      · rw [designatorsOf, List.filter_eq_nil_iff, List.forall_mem_map] at homitted
        exact absurd (decide_eq_true hd) (homitted t ht)

end

end

/-- A bank of resistors of ten per cent. -/
def resistorBank (k : Nat) : CircuitJson where
  components := (List.range k).map fun i =>
    { id := Nat.toDigits 10 i, type := .resistor, designator := 'R' :: Nat.toDigits 10 (i + 1)
      value := some "1k".toList, catalog := { tolerance := some (1 / 10 : Rat) }
      pins := [⟨['1'], ['a']⟩, ⟨['2'], ['0']⟩] }
  nets := [{ id := ['a'], name := ['a'] }, { id := ['0'], name := ['0'], isGround := true }]

/-- The eight resistors a cap leaves of nine are cornered, and the ninth is reported. -/
theorem worst_case_kept_nine : WorstCaseKept (resistorBank 9) {} :=
  (worst_case_kept_iff (by decide)).mpr
    ⟨by decide +kernel, Or.inr (by decide +kernel)⟩

/-- Thirty-two cornered resistors are run at one corner of `2 ^ 32`, and they pass there. -/
theorem worst_case_wraps :
    ((resistorBank 32).components.map Component.designator).Nodup ∧
    (runWorstCase (resistorBank 32) (fun _ : Unit => [true]) { maxComponents := some 32 }
      fun _ _ => some ()).passAllCorners = true ∧
    ¬ WorstCaseKept (resistorBank 32) { maxComponents := some 32 } := by
  have hlength : (cornered (resistorBank 32) { maxComponents := some 32 }).length = 32 := by
    decide +kernel
  have hne : cornered (resistorBank 32) { maxComponents := some 32 } ≠ [] := by
    rw [← List.length_pos_iff, hlength]
    decide
  have hone : (cornerVariants (resistorBank 32) { maxComponents := some 32 }).length = 1 := by
    rw [cornerVariants_eq hne, List.length_map, List.length_range, hlength]
    decide
  refine ⟨by decide +kernel, ?_, fun h => ?_⟩
  · refine (passAllCorners_iff _ _).mpr ⟨?_, fun _ _ _ => rfl, by decide +kernel⟩
    rw [← List.length_pos_iff, hone]
    decide
  · have hcount := (h.1 (by rw [hlength]; decide)).count
    rw [hone, hlength] at hcount
    exact absurd hcount (by decide)

end CircuitForge
