/-
SPICE values over the rationals.

`formatSpiceValue` writes a magnitude at four significant digits in its band; `parseSpiceValue`
scans the number and reads the letters behind it as a suffix and a unit.  The two meet unless the
letters of the unit read as a suffix, or as one together with the letter of the band.
-/
import CircuitForge.Js.Decimal
import CircuitForge.Js.Tokens
import CircuitForge.Utils.UnitParser

namespace CircuitForge

open Js Js.Exact

/-! ## Bands -/

/-- The suffix and the power of ten of the band of a magnitude. -/
def bandOf (a : Rat) : Text × Int :=
  if pow10 12 ≤ a then (['T'], 12)
  else if pow10 9 ≤ a then (['G'], 9)
  else if pow10 6 ≤ a then ("MEG".toList, 6)
  else if pow10 3 ≤ a then (['K'], 3)
  else if pow10 0 ≤ a then ([], 0)
  else if pow10 (-3) ≤ a then (['m'], -3)
  else if pow10 (-6) ≤ a then (['u'], -6)
  else if pow10 (-9) ≤ a then (['n'], -9)
  else if pow10 (-12) ≤ a then (['p'], -12)
  else (['f'], -15)

/-- The magnitude in its band. -/
def scaled (a : Rat) : Rat := a / pow10 (bandOf a).2

/-- What is read back of a magnitude in its band: four significant digits, all of an integer. -/
def readBack (s : Rat) : Rat := if s.den = 1 then roundTo 17 s else roundTo 4 s

/-- A positive value as it is read back. -/
def spiceRound (a : Rat) : Rat := readBack (scaled a) * pow10 (bandOf a).2

theorem lit_one (e : Int) : (Runtime.lit 1 e : Rat) = pow10 e := one_mul (pow10 e)

theorem le_iff (a b : Rat) : Runtime.le a b = true ↔ a ≤ b := by
  show (decide (a < b) || decide (a = b)) = true ↔ a ≤ b
  rw [Bool.or_eq_true, decide_eq_true_eq, decide_eq_true_eq, le_iff_lt_or_eq]

/-- The formatter's band and the scaled magnitude. -/
theorem formatBand_spec (a : Rat) :
    (formatBand a).1 = (bandOf a).1 ∧ (formatBand a).2.elim a (Runtime.div a) = scaled a := by
  have hone : a / pow10 0 = a := by
    rw [show pow10 0 = 1 from rfl, div_one]
  unfold formatBand scaled bandOf
  simp only [le_iff, lit_one]
  split_ifs
  all_goals first
    | exact ⟨rfl, rfl⟩
    | exact ⟨rfl, hone.symm⟩

theorem scaled_pos {a : Rat} (h : 0 < a) : 0 < scaled a := div_pos h (pow10_pos _)

theorem scaled_mul (a : Rat) : scaled a * pow10 (bandOf a).2 = a :=
  div_mul_cancel₀ a (pow10_pos _).ne'

/-- In range, the magnitudes of a band are those from its divisor up to a thousand times it. -/
theorem bandOf_bounds {a : Rat} (hlow : pow10 (-15) ≤ a) (hhigh : a < pow10 15) :
    pow10 (bandOf a).2 ≤ a ∧ a < pow10 (3 + (bandOf a).2) := by
  unfold bandOf
  split_ifs with h₁ h₂ h₃ h₄ h₅ h₆ h₇ h₈ h₉
  · exact ⟨h₁, hhigh⟩
  · exact ⟨h₂, not_le.mp h₁⟩
  · exact ⟨h₃, not_le.mp h₂⟩
  · exact ⟨h₄, not_le.mp h₃⟩
  · exact ⟨h₅, not_le.mp h₄⟩
  · exact ⟨h₆, not_le.mp h₅⟩
  · exact ⟨h₇, not_le.mp h₆⟩
  · exact ⟨h₈, not_le.mp h₇⟩
  · exact ⟨h₉, not_le.mp h₈⟩
  · exact ⟨hlow, not_le.mp h₉⟩

theorem scaled_bounds_of_range {a : Rat} (hlow : pow10 (-15) ≤ a) (hhigh : a < pow10 15) :
    1 ≤ scaled a ∧ scaled a < 1000 := by
  obtain ⟨hge, hlt⟩ := bandOf_bounds hlow hhigh
  have hpos := pow10_pos (bandOf a).2
  unfold scaled
  constructor
  · rw [le_div_iff₀ hpos, one_mul]
    exact hge
  · rw [div_lt_iff₀ hpos]
    calc a < pow10 (3 + (bandOf a).2) := hlt
      _ = 1000 * pow10 (bandOf a).2 := by rw [pow10_add]; rfl

/-! ## What the formatter writes -/

/-- The number the formatter prints for a scaled magnitude. -/
def written (s : Rat) : Rat := if s.den = 1 then s else roundTo 4 s

theorem written_pos {s : Rat} (h : 0 < s) : 0 < written s := by
  unfold written
  split_ifs
  · exact h
  · exact roundTo_pos (by decide) h

/-- The printed number is read back. -/
theorem read_written {s : Rat} (h : 0 < s) : readUnsigned (printPos (written s)) = readBack s := by
  rw [readUnsigned_printPos (written_pos h)]
  unfold written readBack
  split_ifs
  · rfl
  · exact roundTo_roundTo (by decide) (by decide) h

/-- Reading back moves a number by five parts in ten thousand at most. -/
theorem abs_readBack_sub_le {s : Rat} (h : 0 < s) : |readBack s - s| ≤ 5 / 10000 * s := by
  unfold readBack
  split_ifs with hint
  · have hprecise := abs_roundTo_sub_le_mul 17 h
    have : (1 : Rat) / 2 * pow10 (1 - (17 : Nat)) ≤ 5 / 10000 := by decide +kernel
    exact hprecise.trans (mul_le_mul_of_nonneg_right this h.le)
  · have hprecise := abs_roundTo_sub_le_mul 4 h
    have : (1 : Rat) / 2 * pow10 (1 - (4 : Nat)) ≤ 5 / 10000 := by decide +kernel
    exact hprecise.trans (mul_le_mul_of_nonneg_right this h.le)

/-- An integer of at most seventeen digits is read back as it is. -/
theorem readBack_of_integer {s : Rat} (h : 0 < s) (hint : s.den = 1) (hle : s ≤ 10 ^ 17) :
    readBack s = s := by
  obtain ⟨n, hn⟩ : ∃ n : Nat, s = n := by
    have hnum : 0 < s.num := Rat.num_pos.mpr h
    refine ⟨s.num.toNat, ?_⟩
    calc s = (s.num : Rat) := (Rat.den_eq_one_iff s).mp hint |>.symm
      _ = (s.num.toNat : Rat) := by exact_mod_cast (Int.toNat_of_nonneg hnum.le).symm
  have hpos : 0 < n := by exact_mod_cast hn ▸ h
  have hbound : n ≤ 10 ^ 17 := by exact_mod_cast hn ▸ hle
  have hself := roundTo_eq_self (p := 17) (e := 0) (by decide) hpos hbound
  rw [show pow10 0 = 1 from rfl, mul_one] at hself
  rw [readBack, if_pos hint, hn, hself]

theorem abs_spiceRound_sub_le {a : Rat} (h : 0 < a) : |spiceRound a - a| ≤ 5 / 10000 * a := by
  have hband := pow10_pos (bandOf a).2
  have hdiff : spiceRound a - a = (readBack (scaled a) - scaled a) * pow10 (bandOf a).2 := by
    rw [sub_mul, scaled_mul]
    rfl
  rw [hdiff, abs_mul, abs_of_pos hband]
  calc |readBack (scaled a) - scaled a| * pow10 (bandOf a).2
      ≤ 5 / 10000 * scaled a * pow10 (bandOf a).2 :=
        mul_le_mul_of_nonneg_right (abs_readBack_sub_le (scaled_pos h)) hband.le
    _ = 5 / 10000 * a := by rw [mul_assoc, scaled_mul]

theorem spiceRound_of_integer {a : Rat} (h : 0 < a) (hint : (scaled a).den = 1)
    (hle : scaled a ≤ 10 ^ 17) : spiceRound a = a := by
  rw [spiceRound, readBack_of_integer (scaled_pos h) hint hle, scaled_mul]

/-- The digits the formatter writes of a magnitude in its band. -/
def digitsOf (s : Rat) : Nat := if s.den = 1 then 17 else 4

/-- What the formatter cuts off is not nothing and less than half of the last digit. -/
def RoundsDown (a : Rat) : Prop :=
  0 < cutOff (digitsOf (scaled a)) (scaled a) ∧ cutOff (digitsOf (scaled a)) (scaled a) < 1 / 2

instance (a : Rat) : Decidable (RoundsDown a) := inferInstanceAs (Decidable (_ ∧ _))

theorem readBack_eq (s : Rat) : readBack s = roundTo (digitsOf s) s := by
  unfold readBack digitsOf
  split_ifs <;> rfl

theorem spiceRound_lt_iff {a : Rat} (h : 0 < a) : spiceRound a < a ↔ RoundsDown a := by
  calc spiceRound a < a
      ↔ readBack (scaled a) * pow10 (bandOf a).2 < scaled a * pow10 (bandOf a).2 := by
        rw [scaled_mul, spiceRound]
    _ ↔ readBack (scaled a) < scaled a := mul_lt_mul_iff_left₀ (pow10_pos _)
    _ ↔ RoundsDown a := by rw [readBack_eq, roundTo_lt_iff (scaled_pos h), RoundsDown]

/-- One unit in the last place of what the formatter writes of a magnitude. -/
def lastPlace (a : Rat) : Rat :=
  pow10 (pointOf (scaled a) - digitsOf (scaled a)) * pow10 (bandOf a).2

/-- How far the formatter moves a magnitude. -/
def roundingError (a : Rat) : Rat :=
  min (cutOff (digitsOf (scaled a)) (scaled a)) (1 - cutOff (digitsOf (scaled a)) (scaled a)) *
    lastPlace a

theorem spiceRound_sub {a : Rat} (h : 0 < a) :
    spiceRound a - a = if RoundsDown a then -roundingError a else roundingError a := by
  have hband := scaled_mul a
  have hnonneg := cutOff_nonneg (digitsOf (scaled a)) (scaled a)
  have hdiff : spiceRound a - a = (readBack (scaled a) - scaled a) * pow10 (bandOf a).2 := by
    rw [sub_mul, hband, spiceRound]
  have hdown : RoundsDown a ↔ 0 < cutOff (digitsOf (scaled a)) (scaled a) ∧
      cutOff (digitsOf (scaled a)) (scaled a) < 1 / 2 := Iff.rfl
  rw [hdiff, readBack_eq, roundTo_sub (scaled_pos h), mul_assoc]
  unfold roundingError lastPlace
  generalize cutOff (digitsOf (scaled a)) (scaled a) = cut at hnonneg hdown ⊢
  by_cases hhalf : cut < 1 / 2
  · rw [if_pos hhalf, min_eq_left (by linarith)]
    by_cases hzero : cut = 0
    · rw [if_neg fun h => (hdown.mp h).1.ne' hzero, hzero, neg_zero]
    · rw [if_pos (hdown.mpr ⟨lt_of_le_of_ne hnonneg (Ne.symm hzero), hhalf⟩), neg_mul]
  · rw [if_neg hhalf, if_neg fun h => hhalf (hdown.mp h).2, min_eq_right (by linarith)]

theorem roundingError_nonneg (a : Rat) : 0 ≤ roundingError a := by
  have hnonneg := cutOff_nonneg (digitsOf (scaled a)) (scaled a)
  have hlt := cutOff_lt_one (digitsOf (scaled a)) (scaled a)
  exact mul_nonneg (le_min hnonneg (by linarith)) (mul_pos (pow10_pos _) (pow10_pos _)).le

theorem abs_spiceRound_sub {a : Rat} (h : 0 < a) : |spiceRound a - a| = roundingError a := by
  rw [spiceRound_sub h]
  split_ifs
  · rw [abs_neg, abs_of_nonneg (roundingError_nonneg a)]
  · exact abs_of_nonneg (roundingError_nonneg a)

theorem spiceRound_pos {a : Rat} (h : 0 < a) : 0 < spiceRound a := by
  have hclose := (abs_le.mp (abs_spiceRound_sub_le h)).1
  linarith

theorem abs_eq (v : Rat) : (Runtime.abs v : Rat) = |v| := by
  show (if decide (v < 0 * pow10 0) = true then 0 * pow10 0 - v else v) = |v|
  simp only [zero_mul, zero_sub, decide_eq_true_eq]
  split_ifs with h
  · exact (abs_of_neg h).symm
  · exact (abs_of_nonneg (not_lt.mp h)).symm

/-- A value is written as its sign, its number, the letter of its band and its unit. -/
theorem formatSpiceValue_eq {v : Rat} (hv : v ≠ 0) (unit : Option Text) :
    formatSpiceValue v unit = (if v < 0 then ['-'] else []) ++ printPos (written (scaled |v|)) ++
      ((bandOf |v|).1 ++ safeUnit unit) := by
  obtain ⟨hsuffix, hscaled⟩ := formatBand_spec |v|
  have hpos := scaled_pos (abs_pos.mpr hv)
  have hzero : ¬ Runtime.eq v (Runtime.lit 0 0) = true := by
    show ¬ decide (v = 0 * pow10 0) = true
    rw [zero_mul, decide_eq_true_eq]
    exact hv
  have hneg : Runtime.lt v (Runtime.lit 0 0) = true ↔ v < 0 := by
    show decide (v < 0 * pow10 0) = true ↔ v < 0
    rw [zero_mul, decide_eq_true_eq]
  have hformatted : (if Runtime.isInteger (scaled |v|) then Runtime.toText (scaled |v|)
      else Runtime.toText (Runtime.ofText (Runtime.toPrecision 4 (scaled |v|)))) =
      printPos (written (scaled |v|)) := by
    rw [← print_of_pos (written_pos hpos)]
    show (if ((scaled |v|).den == 1) = true then print (scaled |v|)
      else print (read (printPrecision 4 (scaled |v|)))) = _
    simp only [beq_iff_eq, read_printPrecision (by decide : 0 < 4) hpos]
    unfold written
    split_ifs <;> rfl
  unfold formatSpiceValue
  rw [if_neg hzero, abs_eq]
  dsimp only
  rw [hscaled, hsuffix, hformatted]
  simp only [hneg, List.append_assoc]

/-! ## What the parser reads -/

theorem solid_of_letters {s : Text} (h : ∀ c ∈ s, c.isAlpha = true) : Solid s := by
  refine solid_of_isWord fun c hc => ?_
  have := isAlpha_iff.mp (h c hc)
  rw [isWord_iff]
  omega

theorem solid_of_isNumeral {s : Text} (h : IsNumeral s) : Solid s := by
  obtain ⟨ip, fr, ex, rfl, hip, hfr, hex⟩ := h
  have haccepts := numeral_mem hip hfr hex (Or.inl rfl)
  exact fun c hc => Runtime.isSpace_of_numeralChar
    (Runtime.numeralChar_of_chars (Re.chars_of_accepts haccepts hc))

/-- A number in front of letters. -/
theorem parseSpiceValue_eq {sg s letters : Text} (hsg : sg = [] ∨ sg = ['-']) (hs : IsNumeral s)
    (h : ∀ c ∈ letters, c.isAlpha = true) :
    parseSpiceValue (sg ++ s ++ letters) =
      if letters = [] then some { value := read (sg ++ s) }
      else some { value := (read (sg ++ s) * (readSuffix (asciiUpper letters)).1 : Rat)
                  unit := (readSuffix (asciiUpper letters)).2 } := by
  have hsolid : Solid (sg ++ s ++ letters) := by
    rw [solid_append, solid_append]
    refine ⟨⟨?_, solid_of_isNumeral hs⟩, solid_of_letters h⟩
    rcases hsg with rfl | rfl
    · exact solid_nil
    · decide
  have htrim : trimStart letters = letters := by
    cases letters with
    | nil => rfl
    | cons c r => exact trimStart_of_head (solid_of_letters h c List.mem_cons_self)
  unfold parseSpiceValue
  rw [trim_of_solid hsolid, spanNumber_numeral hsg hs (endsNumber_letters h)]
  dsimp only
  rw [htrim, if_pos (List.all_eq_true.mpr h)]
  rfl

/-- The letters of the bands. -/
theorem bandOf_letters (a : Rat) : ∀ c ∈ (bandOf a).1, c.isAlpha = true := by
  unfold bandOf
  split_ifs <;> decide

/-- The sign of a value as a factor. -/
def signOf (v : Rat) : Rat := if v < 0 then -1 else 1

theorem signOf_mul_abs (v : Rat) : signOf v * |v| = v := by
  unfold signOf
  split_ifs with h
  · rw [abs_of_neg h, neg_one_mul, neg_neg]
  · rw [abs_of_nonneg (not_lt.mp h), one_mul]

theorem abs_signOf (v : Rat) : |signOf v| = 1 := by
  unfold signOf
  split_ifs
  · rw [abs_neg, abs_one]
  · exact abs_one

/-- What is read of a written value. -/
theorem parse_format {v : Rat} (hv : v ≠ 0) {unit : Option Text}
    (hunit : ∀ c ∈ safeUnit unit, c.isAlpha = true) :
    parseSpiceValue (formatSpiceValue v unit) =
      if (bandOf |v|).1 ++ safeUnit unit = [] then
        some { value := (signOf v * readBack (scaled |v|) : Rat) }
      else some
        { value := (signOf v * readBack (scaled |v|) *
            (readSuffix (asciiUpper ((bandOf |v|).1 ++ safeUnit unit))).1 : Rat)
          unit := (readSuffix (asciiUpper ((bandOf |v|).1 ++ safeUnit unit))).2 } := by
  have hpos := scaled_pos (abs_pos.mpr hv)
  have hnumeral := isNumeral_printPos (written (scaled |v|))
  have hletters : ∀ c ∈ (bandOf |v|).1 ++ safeUnit unit, c.isAlpha = true :=
    List.forall_mem_append.mpr ⟨bandOf_letters _, hunit⟩
  have hminus : read (['-'] ++ printPos (written (scaled |v|))) =
      -readUnsigned (printPos (written (scaled |v|))) := rfl
  rw [formatSpiceValue_eq hv]
  unfold signOf
  split_ifs with hneg hnil
  · rw [parseSpiceValue_eq (Or.inr rfl) hnumeral hletters, if_pos hnil,
      hminus, read_written hpos, neg_one_mul]
  · rw [parseSpiceValue_eq (Or.inr rfl) hnumeral hletters, if_neg hnil,
      hminus, read_written hpos, neg_one_mul]
  · rw [parseSpiceValue_eq (Or.inl rfl) hnumeral hletters, if_pos ‹_›, List.nil_append,
      read_numeral hnumeral, read_written hpos, one_mul]
  · rw [parseSpiceValue_eq (Or.inl rfl) hnumeral hletters, if_neg ‹_›, List.nil_append,
      read_numeral hnumeral, read_written hpos, one_mul]

/-! ## Suffixes -/

/-- The letters of `SPICE_SUFFIXES`. -/
def suffixLetters : Text := ['T', 'G', 'K', 'M', 'U', 'N', 'P', 'F']

theorem spiceSuffix_eq_none {c : Char} : spiceSuffix c = none ↔ c ∉ suffixLetters := by
  unfold spiceSuffix suffixLetters
  split
  case h_9 h₁ h₂ h₃ h₄ h₅ h₆ h₇ h₈ =>
    refine iff_of_true rfl ?_
    simp only [List.mem_cons, not_or]
    exact ⟨h₁, h₂, h₃, h₄, h₅, h₆, h₇, h₈, List.not_mem_nil⟩
  all_goals exact iff_of_false (Option.some_ne_none _) (by decide)

theorem startsWith_eq_false_of_head {s p : Text} {c d : Char} (h : c ≠ d) :
    startsWith (c :: s) (d :: p) = false := by
  simp [startsWith, List.isPrefixOf, Ne.symm h]

/-- A letter that is not the one of `MEG` and `MIL`. -/
theorem readSuffix_of_letter {c : Char} {rest : Text} (h : c ≠ 'M') :
    readSuffix (c :: rest) =
      (spiceSuffix c).elim ((Runtime.lit 1 0 : Rat), unitOf (c :: rest)) fun m => (m, unitOf rest) := by
  unfold readSuffix
  rw [show "MEG".toList = 'M' :: "EG".toList from rfl,
    show "MIL".toList = 'M' :: "IL".toList from rfl, startsWith_eq_false_of_head h,
    startsWith_eq_false_of_head h]
  cases hc : spiceSuffix c with
  | some m => simp only [hc, Bool.false_eq_true, if_false, Option.elim_some]
  | none => simp only [hc, Bool.false_eq_true, if_false, Option.elim_none]

/-- The bands with a letter of their own. -/
def letterBands : List (Char × Char × Int) :=
  [('T', 'T', 12), ('G', 'G', 9), ('K', 'K', 3), ('u', 'U', -6), ('n', 'N', -9), ('p', 'P', -12),
    ('f', 'F', -15)]

theorem bandOf_cases (a : Rat) :
    (∃ b ∈ letterBands, bandOf a = ([b.1], b.2.2)) ∨ bandOf a = ("MEG".toList, 6) ∨
      (1 ≤ a ∧ a < 1000 ∧ bandOf a = ([], 0)) ∨
      (1 / 1000 ≤ a ∧ a < 1 ∧ bandOf a = (['m'], -3)) := by
  unfold bandOf letterBands
  split_ifs with h₁ h₂ h₃ h₄ h₅ h₆
  · exact Or.inl ⟨('T', 'T', 12), by simp, rfl⟩
  · exact Or.inl ⟨('G', 'G', 9), by simp, rfl⟩
  · exact Or.inr (Or.inl rfl)
  · exact Or.inl ⟨('K', 'K', 3), by simp, rfl⟩
  · exact Or.inr (Or.inr (Or.inl ⟨h₅, not_le.mp h₄, rfl⟩))
  · exact Or.inr (Or.inr (Or.inr ⟨h₆, not_le.mp h₅, rfl⟩))
  · exact Or.inl ⟨('u', 'U', -6), by simp, rfl⟩
  · exact Or.inl ⟨('n', 'N', -9), by simp, rfl⟩
  · exact Or.inl ⟨('p', 'P', -12), by simp, rfl⟩
  · exact Or.inl ⟨('f', 'F', -15), by simp, rfl⟩

/-- Behind the letter of a band the unit is read. -/
theorem readSuffix_letterBand {b : Char × Char × Int} (h : b ∈ letterBands) (u : Text) :
    readSuffix (asciiUpper [b.1] ++ u) = ((pow10 b.2.2 : Rat), unitOf u) := by
  have hband : ∀ b ∈ letterBands, b.1.toUpper = b.2.1 ∧ b.2.1 ≠ 'M' ∧
      spiceSuffix b.2.1 = some (Runtime.lit 1 b.2.2 : Rat) := by
    unfold letterBands
    simp only [List.forall_mem_cons]
    exact ⟨⟨by decide, by decide, rfl⟩, ⟨by decide, by decide, rfl⟩, ⟨by decide, by decide, rfl⟩,
      ⟨by decide, by decide, rfl⟩, ⟨by decide, by decide, rfl⟩, ⟨by decide, by decide, rfl⟩,
      ⟨by decide, by decide, rfl⟩, List.forall_mem_nil _⟩
  obtain ⟨hupper, hm, hs⟩ := hband b h
  have hcons : asciiUpper [b.1] ++ u = b.2.1 :: u := by rw [← hupper]; rfl
  rw [hcons, readSuffix_of_letter hm, hs, ← lit_one b.2.2]
  rfl

theorem readSuffix_meg (u : Text) :
    readSuffix ("MEG".toList ++ u) = ((pow10 6 : Rat), unitOf u) := by
  have hmeg : startsWith ("MEG".toList ++ u) "MEG".toList = true := by
    simp [startsWith]
  unfold readSuffix
  rw [if_pos hmeg, lit_one]
  rfl

/-- Behind `m` a unit is read that does not make it `MEG` or `MIL`. -/
theorem readSuffix_milli {u : Text} (heg : startsWith u "EG".toList = false)
    (hil : startsWith u "IL".toList = false) :
    readSuffix ('M' :: u) = ((pow10 (-3) : Rat), unitOf u) := by
  have hmeg : startsWith ('M' :: u) "MEG".toList = false := heg
  have hmil : startsWith ('M' :: u) "MIL".toList = false := hil
  unfold readSuffix
  rw [hmeg, hmil, ← lit_one (-3)]
  rfl

/-- The suffix of a band is read as its power of ten. -/
theorem readSuffix_band (a : Rat) :
    readSuffix (asciiUpper (bandOf a).1) = ((pow10 (bandOf a).2 : Rat), none) := by
  rcases bandOf_cases a with ⟨b, hb, hband⟩ | hband | ⟨-, -, hband⟩ | ⟨-, -, hband⟩
  · rw [hband, ← List.append_nil (asciiUpper [b.1])]
    exact readSuffix_letterBand hb []
  · rw [hband]
    exact readSuffix_meg []
  · rw [hband, ← lit_one 0]
    rfl
  · rw [hband]
    exact readSuffix_milli (u := []) rfl rfl

/-- A positive value without a unit is read back at the digits written. -/
theorem parse_format_plain {v : Rat} (hv : 0 < v) :
    parseSpiceValue (formatSpiceValue v) = some { value := (spiceRound v : Rat) } := by
  have hsign : signOf v = 1 := if_neg (not_lt.mpr hv.le)
  have hletters : ∀ c ∈ safeUnit none, c.isAlpha = true := fun c hc => absurd hc List.not_mem_nil
  rw [parse_format hv.ne' hletters, hsign, one_mul, abs_of_pos hv,
    show safeUnit none = [] from rfl, List.append_nil, readSuffix_band]
  split_ifs with hnil
  · have hone : (pow10 (bandOf v).2 : Rat) = 1 := by
      have hsuffix := readSuffix_band v
      rw [hnil] at hsuffix
      exact (congrArg Prod.fst hsuffix).symm.trans (lit_one 0)
    rw [spiceRound, hone, mul_one]
  · rfl

end CircuitForge
