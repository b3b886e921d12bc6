/-
The magnitude of a component value: `parseComponentMagnitude` of `utils/unit-parser.ts`.

The number that is varied is split off the value, and a new one is written between the keyword
in front of it and the text behind.
-/
import CircuitForge.Utils.RoundTrip

namespace CircuitForge

open Js

/-! ## The pattern -/

/-- What `.` does not match. -/
def isLineTerminator (c : Char) : Bool := isLineBreak c || c.toNat == 0x2028 || c.toNat == 0x2029

/-- The groups of `/^(\s*(?:DC|AC)\s+)(…[A-Za-z]*)(.*)$/i`: the keyword with its blanks, the number
with its letters, and the rest of the line. -/
def keywordGroups (raw : Text) : Option (Text × Text × Text) :=
  match raw.dropWhile isSpace with
  | k :: c :: r =>
    if (sameLetter 'D' k || sameLetter 'A' k) && sameLetter 'C' c && (r.takeWhile isSpace != []) then
      match spanNumber (r.dropWhile isSpace) with
      | some (n, s) =>
        if (s.dropWhile Char.isAlpha).any isLineTerminator then none
        else some (raw.takeWhile isSpace ++ k :: c :: r.takeWhile isSpace,
          n ++ s.takeWhile Char.isAlpha, s.dropWhile Char.isAlpha)
      | none => none
    else none
  | _ => none

section

variable [Runtime]

/-- `ComponentMagnitude`, with the two texts `rebuild` puts around the new number. -/
structure ComponentMagnitude where
  value : Runtime.Num
  unit : Text
  before : Text
  after : Text

def ComponentMagnitude.rebuild (m : ComponentMagnitude) (v : Runtime.Num) : Text :=
  m.before ++ formatSpiceValue v (some m.unit) ++ m.after

/-- `parseComponentMagnitude`. -/
def parseComponentMagnitude (raw : Text) : Option ComponentMagnitude :=
  let groups := keywordGroups raw
  match parseSpiceValue (groups.elim raw fun g => g.2.1) with
  | none => none
  | some p =>
    if !Runtime.isFinite p.value || Runtime.eq p.value (Runtime.lit 0 0) then none
    else some
      { value := p.value
        unit := p.unit.getD []
        before := groups.elim [] fun g => g.1
        after := groups.elim [] fun g => g.2.2 }

end

/-! ## A rebuilt value -/

open Js.Exact

/-- The sign and the number the formatter writes. -/
def numberText (v : Rat) : Text := (if v < 0 then ['-'] else []) ++ printPos (written (scaled |v|))

/-- The letters it writes behind the number. -/
def lettersText (v : Rat) (unit : Text) : Text := (bandOf |v|).1 ++ safeUnit (some unit)

theorem formatSpiceValue_text {v : Rat} (hv : v ≠ 0) (unit : Text) :
    formatSpiceValue v (some unit) = numberText v ++ lettersText v unit := formatSpiceValue_eq hv _

/-- The text behind a magnitude does not run on into the number written. -/
def StandsApart (m : ComponentMagnitude) (v : Rat) : Prop :=
  spanNumber (numberText v ++ (lettersText v m.unit ++ m.after)) =
    some (numberText v, lettersText v m.unit ++ m.after)

instance (m : ComponentMagnitude) (v : Rat) : Decidable (StandsApart m v) :=
  inferInstanceAs (Decidable (_ = _))

/-- The scanner stops in front of letters and in front of a blank. -/
theorem standsApart_of_endsNumber {m : ComponentMagnitude} {v : Rat}
    (h : EndsNumber (lettersText v m.unit ++ m.after)) : StandsApart m v := by
  have hsign : (if v < 0 then ['-'] else []) = [] ∨ (if v < 0 then ['-'] else []) = ['-'] := by
    split_ifs
    · exact Or.inr rfl
    · exact Or.inl rfl
  exact spanNumber_numeral hsign (isNumeral_printPos _) h

/-- A number begins with a sign or a digit. -/
theorem numberText_head (v : Rat) :
    ∃ c r, numberText v = c :: r ∧ 45 ≤ c.toNat ∧ c.toNat < 58 := by
  unfold numberText
  split_ifs
  · exact ⟨'-', _, rfl, by decide, by decide⟩
  · obtain ⟨ip, fr, ex, hs, hip, -, -⟩ := isNumeral_printPos (written (scaled |v|))
    obtain ⟨c, r, rfl⟩ := List.exists_cons_of_ne_nil hip.1
    have hc := isDigit_iff.mp (hip.2 c List.mem_cons_self)
    exact ⟨c, r ++ (fr ++ ex), by rw [hs]; rfl, by omega, by omega⟩

theorem isSpace_of_number {c : Char} (hlow : 45 ≤ c.toNat) (hhigh : c.toNat < 58) :
    isSpace c = false := by
  simp only [isSpace, Bool.or_eq_false_iff, Bool.and_eq_false_iff, decide_eq_false_iff_not,
    beq_eq_false_iff_ne, ne_eq]
  omega

/-- The parts of a text that ends a run of characters with `p`. -/
theorem takeWhile_dropWhile_append {p : Char → Bool} {s t : Text} (hs : ∀ c ∈ s, p c = true)
    (ht : t.head?.all (fun c => !p c) = true) :
    (s ++ t).takeWhile p = s ∧ (s ++ t).dropWhile p = t := by
  rw [List.takeWhile_append_of_pos hs, List.dropWhile_append_of_pos hs]
  cases t with
  | nil => exact ⟨List.append_nil s, rfl⟩
  | cons c r =>
    have hc : p c = false := by simpa using ht
    rw [List.takeWhile_cons_of_neg (by simp [hc]), List.dropWhile_cons_of_neg (by simp [hc])]
    exact ⟨List.append_nil s, rfl⟩

theorem head_dropWhile (p : Char → Bool) (s : Text) :
    (s.dropWhile p).head?.all (fun c => !p c) = true := by
  cases h : s.dropWhile p with
  | nil => rfl
  | cons c r =>
    have := List.head_dropWhile_not p (l := s) (by rw [h]; exact List.cons_ne_nil _ _)
    simp only [h, List.head_cons] at this
    simp [this]

/-- What the groups of a value are made of. -/
structure IsKeyword (before after : Text) : Prop where
  parts : ∃ p k c g, before = p ++ k :: c :: g ∧ (∀ x ∈ p, isSpace x = true) ∧
    (sameLetter 'D' k || sameLetter 'A' k) = true ∧ sameLetter 'C' c = true ∧
    g ≠ [] ∧ ∀ x ∈ g, isSpace x = true
  letter : after.head?.all (fun c => !c.isAlpha) = true
  line : after.any isLineTerminator = false

theorem isKeyword_of_keywordGroups {raw before token after : Text}
    (h : keywordGroups raw = some (before, token, after)) : IsKeyword before after := by
  unfold keywordGroups at h
  split at h
  · rename_i k c r heq
    split_ifs at h with hkey
    rw [Bool.and_eq_true, Bool.and_eq_true, bne_iff_ne] at hkey
    split at h
    · rename_i n s hspan
      split_ifs at h with hline
      obtain ⟨rfl, hrest⟩ := Prod.mk.inj (Option.some.inj h)
      obtain ⟨rfl, rfl⟩ := Prod.mk.inj hrest
      exact ⟨⟨_, k, c, _, rfl, fun x hx => List.mem_takeWhile_imp hx, hkey.1.1, hkey.1.2, hkey.2,
        fun x hx => List.mem_takeWhile_imp hx⟩, head_dropWhile _ _, Bool.eq_false_iff.mpr hline⟩
    · cases h
  · cases h

theorem isSpace_of_sameLetter {a c : Char} (ha : isWord a.toLower = true)
    (h : sameLetter a c = true) : isSpace c = false := by
  rw [sameLetter, beq_iff_eq] at h
  refine isSpace_eq_false_of_isWord ?_
  rw [← h, isWord_iff, toNat_toLower] at ha
  rw [isWord_iff]
  split_ifs at ha <;> omega

/-- A number between the groups is found again. -/
theorem keywordGroups_rebuild {before after n letters : Text} (h : IsKeyword before after)
    (hhead : n.head?.all (fun c => !isSpace c) = true) (hn : n ≠ [])
    (hletters : ∀ c ∈ letters, c.isAlpha = true)
    (hscan : spanNumber (n ++ (letters ++ after)) = some (n, letters ++ after)) :
    keywordGroups (before ++ (n ++ letters) ++ after) = some (before, n ++ letters, after) := by
  obtain ⟨⟨p, k, c, g, rfl, hp, hk, hc, hg, hspace⟩, hletter, hline⟩ := h
  have hbody : p ++ k :: c :: g ++ (n ++ letters) ++ after =
      p ++ k :: c :: (g ++ (n ++ (letters ++ after))) := by
    simp only [List.append_assoc, List.cons_append]
  have hkspace : isSpace k = false := by
    rw [Bool.or_eq_true] at hk
    rcases hk with hk | hk
    · exact isSpace_of_sameLetter (by decide) hk
    · exact isSpace_of_sameLetter (by decide) hk
  obtain ⟨htakeP, hdropP⟩ := takeWhile_dropWhile_append hp
    (t := k :: c :: (g ++ (n ++ (letters ++ after)))) (by simp [hkspace])
  have hnhead : (n ++ (letters ++ after)).head?.all (fun c => !isSpace c) = true := by
    rw [List.head?_append_of_ne_nil _ hn]
    exact hhead
  obtain ⟨htakeG, hdropG⟩ := takeWhile_dropWhile_append hspace hnhead
  obtain ⟨htakeL, hdropL⟩ := takeWhile_dropWhile_append hletters hletter
  have hgap : (g != []) = true := bne_iff_ne.mpr hg
  unfold keywordGroups
  rw [hbody, htakeP, hdropP]
  dsimp only
  rw [htakeG, hdropG, hk, hc, hgap, hscan]
  dsimp only
  rw [htakeL, hdropL, hline]
  rfl

/-- A bare number has no keyword. -/
theorem keywordGroups_number (v : Rat) (t : Text) : keywordGroups (numberText v ++ t) = none := by
  obtain ⟨c, r, hhead, hlow, hhigh⟩ := numberText_head v
  have hspace := isSpace_of_number hlow hhigh
  have hlower : c.toLower.toNat = c.toNat := by
    rw [toNat_toLower, if_neg (by omega)]
  have hletter : ∀ a ∈ ['D', 'A'], sameLetter a c = false := by
    intro a ha
    have hlarge : ∀ a ∈ ['D', 'A'], 58 ≤ a.toLower.toNat := by decide
    have := hlarge a ha
    rw [sameLetter, beq_eq_false_iff_ne, Ne, eq_iff_toNat, hlower]
    omega
  rw [hhead, List.cons_append]
  unfold keywordGroups
  rw [List.dropWhile_cons_of_neg (by simp [hspace])]
  cases r ++ t with
  | nil => rfl
  | cons d r => simp [hletter 'D' (by decide), hletter 'A' (by decide)]

/-! ## Reading a rebuilt value -/

theorem safeUnit_getD (unit : Option Text) : safeUnit (some (unit.getD [])) = safeUnit unit := by
  cases unit <;> rfl

/-- What an accepted magnitude is made of. -/
theorem parseComponentMagnitude_parts {raw : Text} {m : ComponentMagnitude}
    (h : parseComponentMagnitude raw = some m) :
    m.value ≠ (0 : Rat) ∧ (∀ c ∈ safeUnit (some m.unit), c.isAlpha = true) ∧
      (m.before = [] ∧ m.after = [] ∨ IsKeyword m.before m.after) := by
  unfold parseComponentMagnitude at h
  dsimp only at h
  split at h
  · cases h
  · rename_i p hparse
    split_ifs at h with hzero
    cases h
    refine ⟨?_, ?_, ?_⟩
    · rintro (hvalue : p.value = (0 : Rat))
      refine hzero ?_
      rw [hvalue]
      decide +kernel
    · dsimp only
      rw [safeUnit_getD]
      exact safeUnit_letters ⟨_, p, hparse, rfl⟩
    · cases hgroups : keywordGroups raw with
      | none => exact Or.inl ⟨rfl, rfl⟩
      | some g => exact Or.inr (isKeyword_of_keywordGroups hgroups)

/-- The rounded number is read back of a rebuilt value. -/
theorem parseComponentMagnitude_rebuild {raw : Text} {m : ComponentMagnitude}
    (h : parseComponentMagnitude raw = some m) {v : Rat} (hv : v ≠ 0)
    (hcollides : ¬ Collides v (some m.unit)) (hapart : StandsApart m v) :
    ∃ m', parseComponentMagnitude (m.rebuild v) = some m' ∧
      m'.value = (signOf v * spiceRound |v| : Rat) := by
  obtain ⟨-, hletters, hplace⟩ := parseComponentMagnitude_parts h
  have hparse := parse_written_of_not_collides hv hletters hcollides
  have htoken : (keywordGroups (m.rebuild v)).elim (m.rebuild v) (fun g => g.2.1) =
      formatSpiceValue v (some m.unit) := by
    rw [ComponentMagnitude.rebuild, formatSpiceValue_text hv]
    rcases hplace with ⟨hbefore, hafter⟩ | hkey
    · rw [hbefore, hafter, List.nil_append, List.append_nil, keywordGroups_number]
      rfl
    · have hnumber : ∀ c ∈ lettersText v m.unit, c.isAlpha = true :=
        List.forall_mem_append.mpr ⟨bandOf_letters _, hletters⟩
      obtain ⟨c, r, hhead, hlow, hhigh⟩ := numberText_head v
      have hspace : (numberText v).head?.all (fun c => !isSpace c) = true := by
        simp [hhead, isSpace_of_number hlow hhigh]
      have hne : numberText v ≠ [] := by
        rw [hhead]
        exact List.cons_ne_nil c r
      rw [keywordGroups_rebuild hkey hspace hne hnumber hapart]
      rfl
  have hnonzero : (signOf v * spiceRound |v| : Rat) ≠ 0 := by
    have hsign : signOf v ≠ 0 := abs_pos.mp (by rw [abs_signOf]; exact one_pos)
    exact mul_ne_zero hsign (spiceRound_pos (abs_pos.mpr hv)).ne'
  have hguard : (!Runtime.isFinite (signOf v * spiceRound |v| : Rat) ||
      Runtime.eq (signOf v * spiceRound |v| : Rat) (Runtime.lit 0 0)) = false := by
    show decide (_ = 0 * pow10 0) = false
    rw [zero_mul, decide_eq_false_iff_not]
    exact hnonzero
  unfold parseComponentMagnitude
  dsimp only
  rw [htoken, hparse]
  dsimp only
  rw [hguard]
  exact ⟨_, rfl, rfl⟩

end CircuitForge
