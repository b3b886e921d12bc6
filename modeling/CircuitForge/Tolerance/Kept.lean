/-
What a tolerance variant is read back as.

A corner or a draw is computed exactly and written at four digits.  The corners leave nominal and
the draws stay in the band as far as that rounding lets them, provided that the text written
means the number: its unit does not read as a suffix, and the text behind does not run into it.
-/
import CircuitForge.Tolerance.Variants

namespace CircuitForge

open Js Js.Exact

/-- The magnitude read of a value. -/
def numberBack (text : Text) : Option Rat :=
  (parseComponentMagnitude text).map ComponentMagnitude.value

/-- A number written into the value of a component means that number. -/
def Toleranced.Clean (t : Toleranced) (v : Rat) : Prop :=
  ¬ Collides v (some t.magnitude.unit) ∧ StandsApart t.magnitude v

instance (t : Toleranced) (v : Rat) : Decidable (t.Clean v) :=
  inferInstanceAs (Decidable (_ ∧ _))

/-- The nominal value and the tolerance, as numbers. -/
def Toleranced.nominal (t : Toleranced) : Rat := t.magnitude.value

def Toleranced.fraction (t : Toleranced) : Rat := t.tol

/-- The corners are read back on both sides of nominal, each within half of the half band of its
extreme. -/
def Toleranced.CornersLeave (t : Toleranced) : Prop :=
  ∃ l h : Rat, numberBack (t.corner .lo) = some l ∧ numberBack (t.corner .hi) = some h ∧
    (l - t.nominal) * (h - t.nominal) < 0 ∧
    |l - t.nominal * (1 - t.fraction)| < |t.nominal| * t.fraction / 2 ∧
    |h - t.nominal * (1 + t.fraction)| < |t.nominal| * t.fraction / 2

/-- A perturbed circuit has a value that is read back in the band. -/
def Toleranced.DrawKept (t : Toleranced) (circuit : CircuitJson) : Prop :=
  ∃ text x, circuit.valueAt t.place = some text ∧ numberBack text = some x ∧
    |x - t.nominal| ≤ |t.nominal| * t.fraction

/-! ## Signs -/

theorem signOf_mul {m f : Rat} (hf : 0 < f) : signOf (m * f) = signOf m := by
  unfold signOf
  by_cases hm : m < 0
  · rw [if_pos hm, if_pos (mul_neg_of_neg_of_pos hm hf)]
  · rw [if_neg hm, if_neg (not_lt.mpr (mul_nonneg (not_lt.mp hm) hf.le))]

/-- Two numbers of one sign are as far apart as their magnitudes. -/
theorem abs_signOf_mul_sub (m a : Rat) : |signOf m * a - m| = abs (a - |m|) := by
  have hdiff : signOf m * a - m = signOf m * (a - |m|) := by
    rw [mul_sub, signOf_mul_abs]
  rw [hdiff, abs_mul, abs_signOf, one_mul]

theorem abs_mul_pos {m f : Rat} (hf : 0 < f) : |m * f| = |m| * f := by
  rw [abs_mul, abs_of_pos hf]

/-! ## Draws -/

theorem runtimeMin_eq (a b : Rat) : (Runtime.min a b : Rat) = min a b := by
  show (if decide (b < a) = true then b else a) = min a b
  rw [min_def]
  simp only [decide_eq_true_eq]
  split_ifs with h h' h'
  · exact absurd h (not_lt.mpr h')
  · rfl
  · rfl
  · exact absurd (not_le.mp h') h

theorem runtimeMax_eq (a b : Rat) : (Runtime.max a b : Rat) = max a b := by
  show (if decide (a < b) = true then b else a) = max a b
  rw [max_def]
  simp only [decide_eq_true_eq]
  split_ifs with h h' h'
  · rfl
  · exact absurd h.le h'
  · exact le_antisymm h' (not_lt.mp h)
  · rfl

/-- A draw multiplies nominal by a factor in the band. -/
theorem perturbValue_factor (gaussian : Rat → Rat → Rat) (m : Rat) (dist : TolDistribution)
    (r' : Rat) {tol r : Rat} (htol : 0 < tol) (hr : 0 ≤ r ∧ r < 1) :
    ∃ f, perturbValue gaussian m tol dist r r' = m * f ∧ 1 - tol ≤ f ∧ f ≤ 1 + tol := by
  have hgo : (!Runtime.lt (Runtime.lit 0 0) tol) = false := by
    show (!decide (0 * pow10 0 < tol)) = false
    rw [zero_mul, Bool.not_eq_false', decide_eq_true_eq]
    exact htol
  unfold perturbValue
  rw [hgo]
  cases dist with
  | uniform =>
    refine ⟨1 + tol * (2 * r - 1), ?_, ?_, ?_⟩
    · show m * (1 * pow10 0 + tol * (2 * pow10 0 * r - 1 * pow10 0)) = _
      rw [show pow10 0 = 1 from rfl, mul_one, mul_one]
    · have := mul_nonneg htol.le hr.1
      linarith
    · have := mul_le_mul_of_nonneg_left hr.2.le htol.le
      linarith
  | gaussian =>
    refine ⟨max (1 - tol) (min (1 + tol) (1 + tol / 3 * gaussian r r')), ?_, le_max_left _ _, ?_⟩
    · rw [← runtimeMin_eq, ← runtimeMax_eq]
      show m * Runtime.max (1 * pow10 0 - tol) (Runtime.min (1 * pow10 0 + tol)
        (1 * pow10 0 + tol / (3 * pow10 0) * gaussian r r')) = _
      rw [show pow10 0 = 1 from rfl, mul_one, mul_one]
    · exact max_le (by linarith) (min_le_left _ _)

/-- A toleranced component has a positive tolerance and a nominal value. -/
theorem toleranced_pos {circuit : CircuitJson} {only : Option (List Text)} {t : Toleranced}
    (h : t ∈ tolerancedComponents circuit only) :
    0 < t.fraction ∧ t.nominal ≠ 0 ∧ ∃ raw, parseComponentMagnitude raw = some t.magnitude := by
  obtain ⟨c, -, ht⟩ := toleranced_place h
  unfold Component.toleranced at ht
  split at ht
  · rename_i tol value htol hvalue
    split_ifs at ht with hskip
    obtain ⟨m, hm, hpair⟩ := Option.map_eq_some_iff.mp ht
    obtain ⟨rfl, rfl⟩ := Prod.mk.inj hpair
    refine ⟨?_, (parseComponentMagnitude_parts hm).1, value, hm⟩
    rw [Bool.or_eq_true, not_or, le_iff, Rat.not_le] at hskip
    have hzero : Runtime.lit 0 0 = (0 : Rat) := zero_mul (pow10 0)
    rw [hzero] at hskip
    exact hskip.2
  · cases ht

/-! ## Reading -/

section

variable {gaussian : Rat → Rat → Rat} {circuit : CircuitJson} {only : Option (List Text)}
  {t : Toleranced}

/-- A clean number is read back at its four digits. -/
theorem numberBack_rebuild (ht : t ∈ tolerancedComponents circuit only) {f : Rat} (hf : 0 < f)
    (hclean : t.Clean (t.nominal * f)) :
    numberBack (t.magnitude.rebuild (t.nominal * f : Rat)) =
      some (signOf t.nominal * spiceRound (|t.nominal| * f)) := by
  obtain ⟨-, hnominal, raw, hraw⟩ := toleranced_pos ht
  obtain ⟨m', hm', hvalue⟩ := parseComponentMagnitude_rebuild hraw
    (mul_ne_zero hnominal hf.ne') hclean.1 hclean.2
  rw [signOf_mul hf, abs_mul_pos hf] at hvalue
  rw [numberBack, hm', Option.map_some, hvalue]

theorem extreme_lo (t : Toleranced) : t.extreme .lo = (t.nominal * (1 - t.fraction) : Rat) := by
  show t.nominal * (1 * pow10 0 - t.fraction) = _
  rw [show pow10 0 = 1 from rfl, mul_one]

theorem extreme_hi (t : Toleranced) : t.extreme .hi = (t.nominal * (1 + t.fraction) : Rat) := by
  show t.nominal * (1 * pow10 0 + t.fraction) = _
  rw [show pow10 0 = 1 from rfl, mul_one]

/-- The rounded number differs from the exact one by the rounding error. -/
theorem abs_rounded_sub {m f : Rat} (hm : m ≠ 0) (hf : 0 < f) :
    |signOf m * spiceRound (|m| * f) - m * f| = roundingError (|m| * f) := by
  have hpos : 0 < |m| * f := mul_pos (abs_pos.mpr hm) hf
  rw [← abs_spiceRound_sub hpos, ← signOf_mul hf, abs_signOf_mul_sub, abs_mul_pos hf]

/-- The corners leave nominal if neither extreme is moved by half of the half band. -/
theorem cornersLeave_iff (ht : t ∈ tolerancedComponents circuit only) (hone : t.fraction < 1)
    (hlo : t.Clean (t.nominal * (1 - t.fraction))) (hhi : t.Clean (t.nominal * (1 + t.fraction))) :
    t.CornersLeave ↔
      roundingError (|t.nominal| * (1 - t.fraction)) < |t.nominal| * t.fraction / 2 ∧
      roundingError (|t.nominal| * (1 + t.fraction)) < |t.nominal| * t.fraction / 2 := by
  obtain ⟨hpos, hnominal, -⟩ := toleranced_pos ht
  have hlow : 0 < 1 - t.fraction := by linarith
  have hhigh : 0 < 1 + t.fraction := by linarith
  have hl := numberBack_rebuild ht hlow hlo
  have hh := numberBack_rebuild ht hhigh hhi
  rw [← extreme_lo] at hl
  rw [← extreme_hi] at hh
  rw [← abs_rounded_sub hnominal hlow, ← abs_rounded_sub hnominal hhigh]
  constructor
  · rintro ⟨l, h, hl', hh', -, hnearL, hnearH⟩
    obtain rfl := Option.some.inj (hl.symm.trans hl')
    obtain rfl := Option.some.inj (hh.symm.trans hh')
    exact ⟨hnearL, hnearH⟩
  · rintro ⟨hnearL, hnearH⟩
    refine ⟨_, _, hl, hh, ?_, hnearL, hnearH⟩
    obtain ⟨hL₁, hL₂⟩ := abs_lt.mp hnearL
    obtain ⟨hH₁, hH₂⟩ := abs_lt.mp hnearH
    rcases lt_or_gt_of_ne hnominal with hneg | hpositive
    · rw [abs_of_neg hneg] at hL₁ hL₂ hH₁ hH₂ ⊢
      have := mul_neg_of_neg_of_pos hneg hpos
      exact mul_neg_of_pos_of_neg (by linarith) (by linarith)
    · rw [abs_of_pos hpositive] at hL₁ hL₂ hH₁ hH₂ ⊢
      have := mul_pos hpositive hpos
      exact mul_neg_of_neg_of_pos (by linarith) (by linarith)

/-- The end of the band on the side a magnitude is rounded to is not nearer than what it is
rounded by. -/
def RoundsInside (m tol a : Rat) : Prop :=
  if RoundsDown a then m * (1 - tol) ≤ a - roundingError a else a + roundingError a ≤ m * (1 + tol)

instance (m tol a : Rat) : Decidable (RoundsInside m tol a) :=
  inferInstanceAs (Decidable (ite _ _ _))

/-- A magnitude in the band is written in the band if it is rounded inside. -/
theorem abs_spiceRound_sub_le_iff {m tol a : Rat} (ha : 0 < a) (hlow : m * (1 - tol) ≤ a)
    (hhigh : a ≤ m * (1 + tol)) : |spiceRound a - m| ≤ m * tol ↔ RoundsInside m tol a := by
  have hround := spiceRound_sub ha
  have hnonneg := roundingError_nonneg a
  unfold RoundsInside
  split_ifs at hround ⊢ with hdown
  · rw [abs_le]
    constructor
    · intro h
      linarith [h.1]
    · intro h
      constructor <;> linarith
  · rw [abs_le]
    constructor
    · intro h
      linarith [h.2]
    · intro h
      constructor <;> linarith

/-- A draw is kept if it is rounded inside. -/
theorem drawKept_iff (ht : t ∈ tolerancedComponents circuit only) (hone : t.fraction < 1)
    {rand : Nat → Rat} (hrand : ∀ n, 0 ≤ rand n ∧ rand n < 1) {dist : TolDistribution}
    (hclean : t.Clean (t.drawn gaussian circuit rand dist)) :
    t.DrawKept (perturbCircuit gaussian circuit rand dist) ↔
      RoundsInside |t.nominal| t.fraction |(t.drawn gaussian circuit rand dist : Rat)| := by
  obtain ⟨hpos, hnominal, -⟩ := toleranced_pos ht
  have hvalue := perturbCircuit_value gaussian rand dist ht
  obtain ⟨f, hf, hlow, hhigh⟩ := perturbValue_factor gaussian t.nominal dist
    (rand (drawsBefore dist circuit.components t.place + 1)) hpos
    (hrand (drawsBefore dist circuit.components t.place))
  have hdrawn : t.drawn gaussian circuit rand dist = t.nominal * f := hf
  have hfpos : 0 < f := by linarith
  have habs := abs_pos.mpr hnominal
  rw [hdrawn] at hclean hvalue ⊢
  rw [abs_mul_pos hfpos, ← abs_spiceRound_sub_le_iff (mul_pos habs hfpos)
    (mul_le_mul_of_nonneg_left hlow habs.le) (mul_le_mul_of_nonneg_left hhigh habs.le),
    ← abs_signOf_mul_sub]
  have hread := numberBack_rebuild ht hfpos hclean
  constructor
  · rintro ⟨text, x, htext, hx, hnear⟩
    obtain rfl := Option.some.inj (hvalue.symm.trans htext)
    obtain rfl := Option.some.inj (hread.symm.trans hx)
    exact hnear
  · exact fun hnear => ⟨_, _, hvalue, hread, hnear⟩

end

/-- A resistor of `1K` with the tolerance `tol`. -/
def oneResistor (tol : Rat) : CircuitJson :=
  { components := [{ id := "r".toList, type := .resistor, designator := "R1".toList,
                     value := some "1K".toList, pins := [], catalog := { tolerance := some tol } }]
    nets := [] }

/-- Its entry of `tolerancedComponents`. -/
def oneToleranced (tol : Rat) : Toleranced :=
  { place := 0, designator := "R1".toList
    magnitude := { value := (1000 : Rat), unit := [], before := [], after := [] }, tol := tol }

theorem parse_oneKilo :
    parseComponentMagnitude "1K".toList =
      some { value := (1000 : Rat), unit := [], before := [], after := [] } := by
  have hparts : (parseComponentMagnitude "1K".toList).map (fun m =>
      ((m.value : Rat), m.unit, m.before, m.after)) = some ((1000 : Rat), [], [], []) := by
    decide +kernel
  obtain ⟨⟨value, unit, before, after⟩, hm, hp⟩ := Option.map_eq_some_iff.mp hparts
  obtain ⟨rfl, hrest⟩ := Prod.mk.inj hp
  obtain ⟨rfl, hrest⟩ := Prod.mk.inj hrest
  obtain ⟨rfl, rfl⟩ := Prod.mk.inj hrest
  exact hm

theorem oneToleranced_mem {tol : Rat} (h : 0 < tol) :
    oneToleranced tol ∈ tolerancedComponents (oneResistor tol) none := by
  have hskip : (Runtime.eq tol (Runtime.lit 0 0) || Runtime.isNaN tol ||
      Runtime.le tol (Runtime.lit 0 0)) = false := by
    have hzero : Runtime.lit 0 0 = (0 : Rat) := zero_mul (pow10 0)
    have hnan : Runtime.isNaN tol = false := by
      show (!decide (tol = tol)) = false
      simp
    have heq : Runtime.eq tol (Runtime.lit 0 0) = false := by
      rw [hzero]
      exact decide_eq_false h.ne'
    have hle : Runtime.le tol (Runtime.lit 0 0) = false := by
      rw [hzero, Bool.eq_false_iff, Ne, le_iff]
      exact not_le.mpr h
    rw [hnan, heq, hle]
    rfl
  refine List.mem_filterMap.mpr ⟨((oneResistor tol).components.head (List.cons_ne_nil _ _), 0),
    List.mem_cons_self, ?_⟩
  simp only [oneResistor, List.head_cons, Component.toleranced, Option.map_none, Option.all_none,
    show truthy (some "1K".toList) = some "1K".toList from rfl, hskip, parse_oneKilo,
    Bool.false_eq_true, if_false, if_true, Option.map_some, oneToleranced]

end CircuitForge
