/-
A written value is read back.

`formatSpiceValue` puts the letters of the unit right behind the letter of the band, and
`parseSpiceValue` takes a suffix off the letters before it reads a unit.  The unit is read back
unless its first letters make a suffix themselves, or one together with `m`; the unit `s` is
never read back, since the letters are read in upper case.
-/
import CircuitForge.Utils.SpiceValues

namespace CircuitForge

open Js Js.Exact

/-! ## Units -/

/-- The units the parser returns. -/
def Returned (unit : Option Text) : Prop :=
  ∃ input p, parseSpiceValue input = some p ∧ p.unit = unit

/-- The letters of a unit as they are read back. -/
def readLetters (unit : Option Text) : Text := asciiUpper (safeUnit unit)

/-- The multiplier is read off the head, the unit is what is left. -/
theorem readSuffix_unit (s : Text) : ∃ k, (readSuffix s).2 = unitOf (s.drop k) := by
  unfold readSuffix
  split_ifs
  · exact ⟨3, rfl⟩
  · exact ⟨3, rfl⟩
  · cases s with
    | nil => exact ⟨0, rfl⟩
    | cons c rest =>
      cases hc : spiceSuffix c with
      | some m => exact ⟨1, by simp only [hc, List.drop_one, List.tail_cons]⟩
      | none => exact ⟨0, by simp only [hc, List.drop_zero]⟩

/-- A returned unit is one of three names with small letters, or capitals that name no other. -/
theorem unitOf_cases {w : Text} (hw : ∀ c ∈ w, c.isUpper = true) :
    unitOf w = none ∨ unitOf w ∈ ["Ω", "Hz", "s"].map (fun u => some u.toList) ∨
      ∃ u, unitOf w = some u ∧ u ≠ [] ∧ (∀ c ∈ u, c.isUpper = true) ∧ unitAbbrevs.get? u = none := by
  unfold unitOf
  split_ifs with hnil
  · exact Or.inl rfl
  cases hget : unitAbbrevs.get? w with
  | none => exact Or.inr (Or.inr ⟨w, by rw [Option.getD_none], hnil, hw, hget⟩)
  | some x =>
    have hnames : ∀ e ∈ unitAbbrevs, some e.2 ∈ ["Ω", "Hz", "s"].map (fun u => some u.toList) ∨
        e.2 ≠ [] ∧ (∀ c ∈ e.2, c.isUpper = true) ∧ unitAbbrevs.get? e.2 = none := by
      decide
    rw [Option.getD_some]
    rcases hnames _ (Map.mem_of_get? hget) with h | h
    · exact Or.inr (Or.inl h)
    · exact Or.inr (Or.inr ⟨x, rfl, h⟩)

theorem returned_cases {unit : Option Text} (h : Returned unit) :
    unit = none ∨ unit ∈ ["Ω", "Hz", "s"].map (fun u => some u.toList) ∨
      ∃ u, unit = some u ∧ u ≠ [] ∧ (∀ c ∈ u, c.isUpper = true) ∧ unitAbbrevs.get? u = none := by
  obtain ⟨input, p, hparse, rfl⟩ := h
  unfold parseSpiceValue at hparse
  cases hspan : spanNumber (trim input) with
  | none => rw [hspan] at hparse; cases hparse
  | some nr =>
    obtain ⟨n, rest⟩ := nr
    rw [hspan] at hparse
    dsimp only at hparse
    split_ifs at hparse with hletters hnil
    · cases hparse
      exact Or.inl rfl
    · cases hparse
      obtain ⟨k, hk⟩ := readSuffix_unit (asciiUpper (trimStart rest))
      dsimp only
      rw [hk]
      refine unitOf_cases fun c hc => ?_
      obtain ⟨d, hd, rfl⟩ := List.mem_map.mp (List.mem_of_mem_drop hc)
      exact isUpper_toUpper (List.all_eq_true.mp hletters d hd)

theorem isAlpha_of_isUpper {c : Char} (h : c.isUpper = true) : c.isAlpha = true := by
  rw [isUpper_iff] at h
  exact isAlpha_iff.mpr (Or.inl h)

theorem safeUnit_of_isUpper {u : Text} (h : ∀ c ∈ u, c.isUpper = true) :
    safeUnit (some u) = u := by
  have hsafe : ∀ c ∈ u, (if c = 'Ω' then "Ohm".toList else [c]) = [c] := by
    intro c hc
    refine if_neg ?_
    rintro rfl
    exact absurd (h 'Ω' hc) (by decide)
  show u.flatMap _ = u
  rw [List.flatMap_congr hsafe]
  exact List.flatMap_singleton' u

/-- A returned unit is written in letters. -/
theorem safeUnit_letters {unit : Option Text} (h : Returned unit) :
    ∀ c ∈ safeUnit unit, c.isAlpha = true := by
  rcases returned_cases h with rfl | hname | ⟨u, rfl, -, hupper, -⟩
  · exact fun c hc => absurd hc List.not_mem_nil
  · have hnames : ∀ u ∈ ["Ω", "Hz", "s"].map (fun u => some u.toList),
        ∀ c ∈ safeUnit u, c.isAlpha = true := by decide
    exact hnames unit hname
  · rw [safeUnit_of_isUpper hupper]
    exact fun c hc => isAlpha_of_isUpper (hupper c hc)

/-- The letters of a returned unit name it, unless it is `s`. -/
theorem unitOf_readLetters {unit : Option Text} (h : Returned unit) :
    unitOf (readLetters unit) = unit ↔ unit ≠ some ['s'] := by
  rcases returned_cases h with rfl | hname | ⟨u, rfl, hne, hupper, hget⟩
  · decide
  · have hnames : ∀ u ∈ ["Ω", "Hz", "s"].map (fun u => some u.toList),
        (unitOf (readLetters u) = u ↔ u ≠ some ['s']) := by decide
    exact hnames unit hname
  · have hletters : readLetters (some u) = u := by
      rw [readLetters, safeUnit_of_isUpper hupper]
      exact (List.map_congr_left fun c hc => toUpper_of_isUpper (hupper c hc)).trans
        (List.map_id' u)
    rw [hletters, unitOf, if_neg hne, hget, Option.getD_none]
    refine iff_of_true rfl ?_
    rintro ⟨rfl⟩
    exact absurd (hupper 's' List.mem_cons_self) (by decide)

/-! ## Collisions -/

/-- The first letters of the unit are read as a suffix, or as one together with `m`. -/
def Collides (v : Rat) (unit : Option Text) : Prop :=
  (1 ≤ |v| ∧ |v| < 1000 ∧ ∃ c ∈ suffixLetters, (readLetters unit).head? = some c) ∨
  (1 / 1000 ≤ |v| ∧ |v| < 1 ∧
    (startsWith (readLetters unit) "EG".toList ∨ startsWith (readLetters unit) "IL".toList))

instance (v : Rat) (unit : Option Text) : Decidable (Collides v unit) :=
  inferInstanceAs (Decidable (_ ∨ _))

/-- The bands are apart: a magnitude without a suffix is from 1 up to 1000. -/
theorem bandOf_of_plain {a : Rat} (hlow : 1 ≤ a) (hhigh : a < 1000) : bandOf a = ([], 0) := by
  unfold bandOf
  have h₁ : ¬ pow10 12 ≤ a := not_le.mpr (hhigh.trans (by decide +kernel))
  have h₂ : ¬ pow10 9 ≤ a := not_le.mpr (hhigh.trans (by decide +kernel))
  have h₃ : ¬ pow10 6 ≤ a := not_le.mpr (hhigh.trans (by decide +kernel))
  have h₄ : ¬ pow10 3 ≤ a := not_le.mpr hhigh
  have h₅ : pow10 0 ≤ a := hlow
  rw [if_neg h₁, if_neg h₂, if_neg h₃, if_neg h₄, if_pos h₅]

theorem bandOf_of_milli {a : Rat} (hlow : 1 / 1000 ≤ a) (hhigh : a < 1) :
    bandOf a = (['m'], -3) := by
  unfold bandOf
  have h₁ : ¬ pow10 12 ≤ a := not_le.mpr (hhigh.trans (by decide +kernel))
  have h₂ : ¬ pow10 9 ≤ a := not_le.mpr (hhigh.trans (by decide +kernel))
  have h₃ : ¬ pow10 6 ≤ a := not_le.mpr (hhigh.trans (by decide +kernel))
  have h₄ : ¬ pow10 3 ≤ a := not_le.mpr (hhigh.trans (by decide +kernel))
  have h₅ : ¬ pow10 0 ≤ a := not_le.mpr hhigh
  have h₆ : pow10 (-3) ≤ a := hlow
  rw [if_neg h₁, if_neg h₂, if_neg h₃, if_neg h₄, if_neg h₅, if_pos h₆]

/-- Letters that begin with no suffix are a unit. -/
theorem readSuffix_plain {u : Text} (h : ∀ c ∈ u.head?, c ∉ suffixLetters) :
    readSuffix u = ((pow10 0 : Rat), unitOf u) := by
  rw [← lit_one 0]
  cases u with
  | nil => rfl
  | cons c rest =>
    have hc : c ∉ suffixLetters := h c rfl
    have hm : c ≠ 'M' := by
      rintro rfl
      exact hc (by decide)
    rw [readSuffix_of_letter hm, spiceSuffix_eq_none.mpr hc]
    rfl

/-- A multiplier that is far from `m`. -/
def Far (m m' : Rat) : Prop := m' ≤ 1 / 2 * m ∨ 2 * m ≤ m'

instance (m m' : Rat) : Decidable (Far m m') := inferInstanceAs (Decidable (_ ∨ _))

theorem readSuffix_m (rest : Text) :
    (readSuffix ('M' :: rest)).1 ∈ [pow10 6, 254 * pow10 (-7), pow10 (-3)] := by
  have hm : spiceSuffix 'M' = some (Runtime.lit 1 (-3) : Rat) := rfl
  unfold readSuffix
  split_ifs
  · rw [lit_one]
    exact List.mem_cons_self
  · exact List.mem_cons_of_mem _ List.mem_cons_self
  · simp only [hm, lit_one]
    exact List.mem_cons_of_mem _ (List.mem_cons_of_mem _ List.mem_cons_self)

theorem readSuffix_far {c : Char} (h : c ∈ suffixLetters) (rest : Text) :
    Far 1 (readSuffix (c :: rest)).1 := by
  by_cases hm : c = 'M'
  · subst hm
    have hfar : ∀ m ∈ [pow10 6, 254 * pow10 (-7), pow10 (-3)], Far 1 m := by decide +kernel
    exact hfar _ (readSuffix_m rest)
  · have hfar : ∀ c ∈ suffixLetters, Far 1 ((spiceSuffix c).getD (Runtime.lit 1 6)) := by
      decide +kernel
    rw [readSuffix_of_letter hm]
    have hc := hfar c h
    cases hs : spiceSuffix c with
    | none => exact absurd h (spiceSuffix_eq_none.mp hs)
    | some m =>
      rw [hs] at hc
      exact hc

theorem readSuffix_milli_far {u : Text}
    (h : startsWith u "EG".toList = true ∨ startsWith u "IL".toList = true) :
    Far (pow10 (-3)) (readSuffix ('M' :: u)).1 := by
  have hfar : ∀ m ∈ [pow10 6, 254 * pow10 (-7)], Far (pow10 (-3)) m := by decide +kernel
  refine hfar _ ?_
  unfold readSuffix
  rcases h with h | h
  · have hmeg : startsWith ('M' :: u) "MEG".toList = true := h
    rw [if_pos hmeg, lit_one]
    exact List.mem_cons_self
  · split_ifs with hmeg hmil
    · rw [lit_one]
      exact List.mem_cons_self
    · exact List.mem_cons_of_mem _ List.mem_cons_self
    · exact absurd h hmil

/-- The suffix read of colliding letters is not the one that was written. -/
theorem readSuffix_of_collides {v : Rat} {unit : Option Text} (h : Collides v unit) :
    Far (pow10 (bandOf |v|).2)
      (readSuffix (asciiUpper ((bandOf |v|).1 ++ safeUnit unit))).1 := by
  rcases h with ⟨hge, hlt, c, hmem, hc⟩ | ⟨hge, hlt, hstart⟩
  · rw [bandOf_of_plain hge hlt]
    have hhead : readLetters unit = c :: (readLetters unit).tail :=
      (List.cons_head?_tail hc).symm
    show Far 1 (readSuffix (readLetters unit)).1
    rw [hhead]
    exact readSuffix_far hmem _
  · rw [bandOf_of_milli hge hlt]
    exact readSuffix_milli_far hstart

/-- The suffix written is the suffix read, and the unit is what is left. -/
theorem readSuffix_written {v : Rat} {unit : Option Text} (h : ¬ Collides v unit) :
    readSuffix (asciiUpper ((bandOf |v|).1 ++ safeUnit unit)) =
      ((pow10 (bandOf |v|).2 : Rat), unitOf (readLetters unit)) := by
  have hsplit : asciiUpper ((bandOf |v|).1 ++ safeUnit unit) =
      asciiUpper (bandOf |v|).1 ++ readLetters unit := List.map_append
  rw [hsplit]
  rcases bandOf_cases |v| with ⟨b, hb, hband⟩ | hband | ⟨hge, hlt, hband⟩ | ⟨hge, hlt, hband⟩
  · rw [hband]
    exact readSuffix_letterBand hb _
  · rw [hband]
    exact readSuffix_meg _
  · rw [hband]
    exact readSuffix_plain fun c hc hmem => h (Or.inl ⟨hge, hlt, c, hmem, hc⟩)
  · rw [hband]
    have hnot : ¬ (startsWith (readLetters unit) "EG".toList = true ∨
        startsWith (readLetters unit) "IL".toList = true) :=
      fun hstart => h (Or.inr ⟨hge, hlt, hstart⟩)
    rw [not_or, Bool.not_eq_true, Bool.not_eq_true] at hnot
    exact readSuffix_milli hnot.1 hnot.2

/-! ## Round trips -/

/-- A value is read back with its unit, to five parts in ten thousand, and as it is when it is
an integer in its band. -/
def RoundTrips (v : Rat) (unit : Option Text) : Prop :=
  ∃ x : Rat, parseSpiceValue (formatSpiceValue v unit) = some { value := x, unit := unit } ∧
    |x - v| ≤ 5 / 10000 * |v| ∧ ((scaled |v|).den = 1 → x = v)

/-- The number and the unit a written value is read back with. -/
theorem parse_written {v : Rat} {unit : Option Text} (hv : v ≠ 0)
    (hunit : ∀ c ∈ safeUnit unit, c.isAlpha = true) :
    parseSpiceValue (formatSpiceValue v unit) = some
      { value := (signOf v * readBack (scaled |v|) *
          (readSuffix (asciiUpper ((bandOf |v|).1 ++ safeUnit unit))).1 : Rat)
        unit := (readSuffix (asciiUpper ((bandOf |v|).1 ++ safeUnit unit))).2 } := by
  rw [parse_format hv hunit]
  split_ifs with hnil
  · have hone : (readSuffix (asciiUpper [])).1 = (1 : Rat) := lit_one 0
    rw [hnil, hone, mul_one]
    rfl
  · rfl

/-- Under the right suffix the rounded value is read back. -/
theorem parse_written_of_not_collides {v : Rat} {unit : Option Text} (hv : v ≠ 0)
    (hunit : ∀ c ∈ safeUnit unit, c.isAlpha = true) (h : ¬ Collides v unit) :
    parseSpiceValue (formatSpiceValue v unit) = some
      { value := (signOf v * spiceRound |v| : Rat), unit := unitOf (readLetters unit) } := by
  have hparse := parse_written hv hunit
  rw [readSuffix_written h, mul_assoc] at hparse
  exact hparse

/-- What is read back under the right suffix is as near as the digits. -/
theorem near_of_suffix {v : Rat} (hlow : pow10 (-15) ≤ |v|) (hhigh : |v| < pow10 15) :
    |signOf v * spiceRound |v| - v| ≤ 5 / 10000 * |v| ∧
      ((scaled |v|).den = 1 → signOf v * spiceRound |v| = v) := by
  have hpos : 0 < |v| := (pow10_pos (-15)).trans_le hlow
  constructor
  · have hdiff : signOf v * spiceRound |v| - v = signOf v * (spiceRound |v| - |v|) := by
      rw [mul_sub, signOf_mul_abs]
    rw [hdiff, abs_mul, abs_signOf, one_mul]
    exact abs_spiceRound_sub_le hpos
  · intro hint
    have hlt := (scaled_bounds_of_range hlow hhigh).2
    rw [spiceRound_of_integer hpos hint (hlt.le.trans (by norm_num)), signOf_mul_abs]

/-- Under a suffix that is far from the one written the value is not near. -/
theorem not_near_of_far {v m : Rat} (hlow : pow10 (-15) ≤ |v|)
    (hfar : Far (pow10 (bandOf |v|).2) m) :
    ¬ |signOf v * readBack (scaled |v|) * m - v| ≤ 5 / 10000 * |v| := by
  have hpos : 0 < |v| := (pow10_pos (-15)).trans_le hlow
  have hdiff : signOf v * readBack (scaled |v|) * m - v =
      signOf v * (readBack (scaled |v|) * m - |v|) := by
    rw [mul_sub, ← mul_assoc, signOf_mul_abs]
  rw [hdiff, abs_mul, abs_signOf, one_mul]
  intro hnear
  obtain ⟨hnear₁, hnear₂⟩ := abs_le.mp hnear
  obtain ⟨hround₁, hround₂⟩ := abs_le.mp (abs_spiceRound_sub_le hpos)
  have hround : readBack (scaled |v|) * pow10 (bandOf |v|).2 = spiceRound |v| := rfl
  have hread : 0 ≤ readBack (scaled |v|) := by
    have hclose := (abs_le.mp (abs_readBack_sub_le (scaled_pos hpos))).1
    linarith [scaled_pos hpos]
  rcases hfar with hsmall | hlarge
  · have := mul_le_mul_of_nonneg_left hsmall hread
    linarith
  · have := mul_le_mul_of_nonneg_left hlarge hread
    linarith

/-- A value in range is read back unless its unit is `s` or collides. -/
theorem value_round_trips_iff {v : Rat} {unit : Option Text} (hunit : Returned unit)
    (hlow : pow10 (-15) ≤ |v|) (hhigh : |v| < pow10 15) :
    RoundTrips v unit ↔ unit ≠ some ['s'] ∧ ¬ Collides v unit := by
  have hv : v ≠ 0 := abs_pos.mp ((pow10_pos (-15)).trans_le hlow)
  have hparse := parse_written hv (safeUnit_letters hunit)
  constructor
  · rintro ⟨x, hx, hnear, -⟩
    obtain ⟨hvalue, hname⟩ := ParsedValue.mk.inj (Option.some.inj (hparse.symm.trans hx))
    have hcollides : ¬ Collides v unit := by
      intro hcollides
      rw [← hvalue] at hnear
      exact not_near_of_far hlow (readSuffix_of_collides hcollides) hnear
    rw [readSuffix_written hcollides] at hname
    exact ⟨(unitOf_readLetters hunit).mp hname, hcollides⟩
  · rintro ⟨hs, hcollides⟩
    have hparse := parse_written_of_not_collides hv (safeUnit_letters hunit) hcollides
    rw [(unitOf_readLetters hunit).mpr hs] at hparse
    exact ⟨signOf v * spiceRound |v|, hparse, near_of_suffix hlow hhigh⟩

/-- `4.7` ohms are read back. -/
theorem value_round_trips_ohms : RoundTrips (47 / 10) (some "Ω".toList) :=
  (value_round_trips_iff ⟨"4.7Ohm".toList, _, rfl, by decide +kernel⟩ (by decide +kernel)
    (by decide +kernel)).mpr ⟨by decide, by decide +kernel⟩

/-- `4.7` farads are written `4.7F`, which is read as femto. -/
theorem value_lost_farads :
    Returned (some ['F']) ∧ pow10 (-15) ≤ |(47 / 10 : Rat)| ∧ |(47 / 10 : Rat)| < pow10 15 ∧
      ¬ RoundTrips (47 / 10) (some ['F']) := by
  have hread : (parseSpiceValue (formatSpiceValue (47 / 10 : Rat) (some ['F']))).map
      ParsedValue.unit = some none := by decide +kernel
  refine ⟨⟨"47pF".toList, _, rfl, by decide +kernel⟩, by decide +kernel, by decide +kernel, ?_⟩
  rintro ⟨x, hx, -⟩
  rw [hx, Option.map_some] at hread
  exact absurd (Option.some.inj hread) (Option.some_ne_none _)

end CircuitForge
