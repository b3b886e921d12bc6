/-
The items of a legend.

A stroke width, a character size and a layer stand at the head of the run behind their parenthesis,
and up to the first closing one.  What the clamp writes is read back as an item of the same kind,
or, where a length prints with an exponent, as none.
-/
import CircuitForge.Pcb.Silkscreen

namespace CircuitForge
namespace Legend

open Js

/-! ## Characters -/

/-- A character that opens nothing, closes nothing and quotes nothing. -/
def Inert (c : Char) : Prop := c ≠ '(' ∧ c ≠ ')' ∧ c ≠ '"' ∧ c ≠ '\\'

instance (c : Char) : Decidable (Inert c) := inferInstanceAs (Decidable (_ ∧ _))

theorem inert_of_isSpace {c : Char} (h : isSpace c = true) : Inert c := by
  refine ⟨?_, ?_, ?_, ?_⟩ <;> rintro rfl <;> exact absurd h (by decide)

theorem inert_of_isNumberChar {c : Char} (h : isNumberChar c = true) : Inert c := by
  refine ⟨?_, ?_, ?_, ?_⟩ <;> rintro rfl <;> exact absurd h (by decide)

/-! ## Words -/

theorem mem_nextWord {s : Text} {c : Char} (h : c ∈ s) :
    c ∈ (nextWord s).1 ∨ isSpace c = true ∨ c ∈ (nextWord s).2 := by
  rw [← List.takeWhile_append_dropWhile (p := (!isSpace ·)) (l := s), List.mem_append] at h
  rcases h with h | h
  · exact Or.inl h
  · rw [← List.takeWhile_append_dropWhile (p := isSpace) (l := s.dropWhile (!isSpace ·)),
      List.mem_append] at h
    rcases h with h | h
    · exact Or.inr (Or.inl (List.mem_takeWhile_imp h))
    · exact Or.inr (Or.inr h)

/-- Solid text has no blank to pass. -/
theorem trimStart_solid {s : Text} (hs : Solid s) : trimStart s = s := by
  cases s with
  | nil => rfl
  | cons c s => exact List.dropWhile_cons_of_neg (by simp [hs c List.mem_cons_self])

/-- A word with one blank behind it. -/
theorem nextWord_blank {key : Text} (hkey : Solid key) (s : Text) :
    nextWord (key ++ ' ' :: s) = (key, trimStart s) := by
  have hpass : ∀ c ∈ key, (!isSpace c) = true := fun c hc => by rw [hkey c hc]; rfl
  unfold nextWord
  rw [List.takeWhile_append_of_pos hpass, List.dropWhile_append_of_pos hpass]
  show (key ++ [], trimStart s) = (key, trimStart s)
  rw [List.append_nil]

/-! ## Items -/

theorem takeWhile_append_of_mem {s : Text} (h : ')' ∈ s) (u : Text) :
    (s ++ u).takeWhile (· != ')') = s.takeWhile (· != ')') := by
  induction s with
  | nil => cases h
  | cons c s ih =>
    rw [List.cons_append, List.takeWhile_cons, List.takeWhile_cons]
    by_cases hc : c = ')'
    · rw [if_neg (by simp [hc]), if_neg (by simp [hc])]
    · rw [ih ((List.mem_cons.mp h).resolve_left (Ne.symm hc))]

/-- An item is decided by the text up to the first closing parenthesis. -/
theorem itemAt_append {β : Type} (parse : Text → Option β) {s : Text} (h : ')' ∈ s) (u : Text) :
    itemAt parse (s ++ u) = itemAt parse s := by
  rw [itemAt, itemAt, if_pos h, if_pos (List.mem_append_left u h), takeWhile_append_of_mem h]

theorem takeWhile_body {body : Text} (h : ')' ∉ body) (rest : Text) :
    (body ++ ')' :: rest).takeWhile (· != ')') = body := by
  rw [List.takeWhile_append_of_pos fun c hc => by simpa using fun he : c = ')' => h (he ▸ hc)]
  show body ++ [] = body
  rw [List.append_nil]

theorem itemAt_body {β : Type} (parse : Text → Option β) {body : Text} (h : ')' ∉ body)
    (rest : Text) : itemAt parse (body ++ ')' :: rest) =
      (parse body).map fun v => (v, body.length + 1) := by
  rw [itemAt, if_pos (List.mem_append_right _ List.mem_cons_self), takeWhile_body h]

/-- The text of an item stands in front of the first closing parenthesis. -/
theorem itemAt_eq_some {β : Type} {parse : Text → Option β} {w : Text} {v : β} {n : Nat}
    (h : itemAt parse w = some (v, n)) :
    ∃ body rest, w = body ++ ')' :: rest ∧ ')' ∉ body ∧ parse body = some v ∧
      n = body.length + 1 := by
  by_cases hclose : ')' ∈ w
  · obtain ⟨body, rest, rfl, hbody⟩ := List.eq_append_cons_of_mem hclose
    rw [itemAt_body parse hbody, Option.map_eq_some_iff] at h
    obtain ⟨v', hv, heq⟩ := h
    cases heq
    exact ⟨body, rest, rfl, hbody, hv, rfl⟩
  · rw [itemAt, if_neg hclose] at h
    cases h

/-- A pattern without an opening parenthesis is decided within its run. -/
theorem local_itemAt {β : Type} {parse : Text → Option β}
    (hparse : ∀ body v, parse body = some v → '(' ∉ body) : Anchors.Local '(' (itemAt parse) where
  cut w r _ := by
    by_cases hclose : ')' ∈ w
    · exact itemAt_append parse hclose _
    · have hnone : itemAt parse w = none := by rw [itemAt, if_neg hclose]
      rw [hnone, Option.eq_none_iff_forall_ne_some]
      rintro ⟨v, n⟩ hsome
      obtain ⟨body, rest, heq, -, hv, -⟩ := itemAt_eq_some hsome
      -- the text of the item would go past the next opening parenthesis
      rcases List.append_eq_append_iff.mp heq with ⟨t, rfl, ht⟩ | ⟨t, rfl, ht⟩
      · cases t with
        | nil => exact absurd (List.cons.inj ht).1 (by decide)
        | cons c t =>
          refine hparse _ v hv (List.mem_append_right _ ?_)
          rw [(List.cons.inj ht).1]
          exact List.mem_cons_self
      · cases t with
        | nil => exact absurd (List.cons.inj ht).1 (by decide)
        | cons c t =>
          refine hclose (List.mem_append_right _ ?_)
          rw [(List.cons.inj ht).1]
          exact List.mem_cons_self
  le w v n h := by
    obtain ⟨body, rest, rfl, -, -, rfl⟩ := itemAt_eq_some h
    rw [List.length_append, List.length_cons]
    omega

/-! ## Strokes, sizes and layers -/

theorem parseStroke_eq_some {body : Text} {key n : Text} (h : parseStroke body = some (key, n)) :
    nextWord body = (key, n) ∧ (key = "width".toList ∨ key = "thickness".toList) ∧
      n.all isNumberChar = true := by
  unfold parseStroke at h
  dsimp only at h
  split_ifs at h with hcond
  cases h
  exact ⟨rfl, hcond.1, hcond.2.2⟩

theorem parseSize_eq_some {body : Text} {w h : Text} (hparse : parseSize body = some (w, h)) :
    ∃ axes, nextWord body = ("size".toList, axes) ∧ nextWord axes = (w, h) ∧
      w.all isNumberChar = true ∧ h.all isNumberChar = true := by
  unfold parseSize at hparse
  dsimp only at hparse
  split_ifs at hparse with hcond
  cases hparse
  exact ⟨(nextWord body).2, Prod.ext hcond.1 rfl, rfl, hcond.2.2.2.1, hcond.2.2.2.2⟩

theorem parseSilk_eq_some {body : Text} (h : parseSilk body = some ()) :
    (nextWord body).1 = "layer".toList ∧ (nextWord body).2 ∈ silkLayers := by
  unfold parseSilk at h
  split_ifs at h with hcond
  exact hcond

theorem inert_of_all {s : Text} (h : s.all isNumberChar = true) : ∀ c ∈ s, Inert c :=
  fun c hc => inert_of_isNumberChar (List.all_eq_true.mp h c hc)

/-- The text of a stroke is inert. -/
theorem inert_stroke {body : Text} {stroke : Text × Text} (h : parseStroke body = some stroke) :
    ∀ c ∈ body, Inert c := by
  obtain ⟨hwords, hkey, hn⟩ := parseStroke_eq_some h
  have hkeys : ∀ key ∈ ["width".toList, "thickness".toList], ∀ c ∈ key, Inert c := by decide
  intro c hc
  rcases mem_nextWord hc with hc | hc | hc
  · rw [hwords] at hc
    exact hkeys _ (List.mem_pair.mpr hkey) c hc
  · exact inert_of_isSpace hc
  · rw [hwords] at hc
    exact inert_of_all hn c hc

/-- The text of a size is inert. -/
theorem inert_size {body : Text} {size : Text × Text} (h : parseSize body = some size) :
    ∀ c ∈ body, Inert c := by
  obtain ⟨axes, hwords, haxes, hw, hh⟩ := parseSize_eq_some h
  have hkey : ∀ c ∈ "size".toList, Inert c := by decide
  intro c hc
  rcases mem_nextWord hc with hc | hc | hc
  · rw [hwords] at hc
    exact hkey c hc
  · exact inert_of_isSpace hc
  · rw [hwords] at hc
    rcases mem_nextWord hc with hc | hc | hc
    · rw [haxes] at hc
      exact inert_of_all hw c hc
    · exact inert_of_isSpace hc
    · rw [haxes] at hc
      exact inert_of_all hh c hc

theorem local_strokeAt : Anchors.Local '(' strokeAt :=
  local_itemAt fun _ _ h hmem => (inert_stroke h _ hmem).1 rfl

theorem local_sizeAt : Anchors.Local '(' sizeAt :=
  local_itemAt fun _ _ h hmem => (inert_size h _ hmem).1 rfl

theorem local_silkAt : Anchors.Local '(' silkAt := by
  refine local_itemAt fun body _ h hmem => ?_
  obtain ⟨hkey, hlayer⟩ := parseSilk_eq_some h
  have hlayers : ∀ layer ∈ silkLayers, '(' ∉ layer := by decide
  rcases mem_nextWord hmem with hmem | hmem | hmem
  · rw [hkey] at hmem
    exact absurd hmem (by decide)
  · exact absurd hmem (by decide)
  · exact hlayers _ hlayer hmem

/-! ## Printed lengths -/

theorem isNumeral_printMm (n : Nat) : Exact.IsNumeral (printMm n) := by
  unfold printMm
  split_ifs
  · exact ⟨['0'], [], [], rfl, ⟨List.cons_ne_nil _ _, by decide⟩, Or.inl rfl, Or.inl rfl⟩
  · exact Exact.isNumeral_layout (Exact.allDigits_digits n).stripZeros _

/-- What is printed of a length, or of a scale that is not a number. -/
structure Printed (s : Text) : Prop where
  ne_nil : s ≠ []
  chars : ∀ c ∈ s, Runtime.numeralChar c = true

theorem Printed.solid {s : Text} (h : Printed s) : Solid s :=
  fun c hc => Runtime.isSpace_of_numeralChar (h.chars c hc)

theorem Printed.inert {s : Text} (h : Printed s) : ∀ c ∈ s, Inert c := by
  intro c hc
  have hchar := h.chars c hc
  refine ⟨?_, ?_, ?_, ?_⟩ <;> rintro rfl <;> exact absurd hchar (by decide)

theorem printed_printMm (n : Nat) : Printed (printMm n) := by
  obtain ⟨ip, fr, ex, heq, hip, hfr, hex⟩ := isNumeral_printMm n
  have haccepts := Exact.numeral_mem hip hfr hex (Or.inl rfl)
  rw [List.nil_append, ← heq] at haccepts
  refine ⟨?_, fun c hc => Runtime.numeralChar_of_chars (Re.chars_of_accepts haccepts hc)⟩
  rw [heq]
  exact fun hnil => hip.1 (List.append_eq_nil_iff.mp hnil).1

theorem printed_scaledAxis (floor : Nat) (smaller v : Rat) :
    Printed (scaledAxis floor smaller v) := by
  unfold scaledAxis
  split_ifs
  · exact ⟨by decide, by decide⟩
  · exact ⟨by decide, by decide⟩
  · exact printed_printMm _

theorem readUnsigned_printMm (n : Nat) : Exact.readUnsigned (printMm n) = mm n := by
  unfold printMm mm
  split_ifs with hn
  · rw [hn, Nat.cast_zero, zero_div]
    decide +kernel
  · have hne : Exact.digits n ≠ [] := Nat.toDigits_ne_nil
    obtain ⟨hle, hvalue⟩ := Exact.stripZeros_value hne
    rw [Exact.digitsValue_digits] at hvalue
    rw [Exact.readUnsigned_layout (Exact.allDigits_digits n).stripZeros]
    conv_rhs => rw [hvalue]
    have hexp : ((Exact.digits n).length - 4 : Int) -
          (Exact.stripZeros (Exact.digits n)).length =
        (((Exact.digits n).length - (Exact.stripZeros (Exact.digits n)).length : Nat) : Int) +
          (-4) := by omega
    have hfour : Exact.pow10 (-4) = 1 / 10000 := by decide +kernel
    rw [hexp, Exact.pow10_add, Exact.pow10_natCast, hfour]
    push_cast
    ring

theorem decimal_mem {ip fr : Text} (hip : Exact.AllDigits ip) (hfr : Exact.IsFraction fr) :
    ip ++ fr ∈ decimalRe.lang := by
  rw [decimalRe, Re.lang, Language.mem_add]
  refine Or.inl (Language.mem_mul.mpr ⟨ip, hip.mem_lang, fr, ?_, rfl⟩)
  rcases hfr with rfl | ⟨f, rfl, hf⟩
  · refine Language.mem_mul.mpr ⟨[], ?_, [], (Re.nullable_iff _).mp rfl, rfl⟩
    exact (Re.nullable_iff _).mp rfl
  · refine Language.mem_mul.mpr ⟨['.'], ?_, f, Exact.mem_star_digit hf.2, rfl⟩
    exact (Re.accepts_iff _ _).mp (by decide)

/-- A length that prints without an exponent is read back. -/
theorem readMm_printMm {n : Nat} (h : (printMm n).all isNumberChar = true) :
    readMm (printMm n) = some (mm n) := by
  obtain ⟨ip, fr, ex, heq, hip, hfr, hex⟩ := isNumeral_printMm n
  have hplain : ex = [] := by
    rcases hex with rfl | ⟨sg, d, rfl, -, -⟩
    · rfl
    · have he := List.all_eq_true.mp h 'e' (by rw [heq]; simp)
      exact absurd he (by decide)
  have haccepts : decimalRe.accepts (printMm n) = true := by
    rw [heq, hplain, List.append_nil, Re.accepts_iff]
    exact decimal_mem hip hfr
  rw [readMm, if_pos haccepts, readUnsigned_printMm]

theorem readMm_nonneg {s : Text} {v : Rat} (h : readMm s = some v) : 0 ≤ v := by
  unfold readMm at h
  split_ifs at h
  cases h
  have hpow := fun e => (Exact.pow10_pos e).le
  have hdigits : ∀ t : Text, (0 : Rat) ≤ Exact.digitsValue t := fun t => Nat.cast_nonneg _
  unfold Exact.readUnsigned
  dsimp only
  repeat' split
  all_goals
    first
      | exact mul_nonneg (mul_nonneg (hdigits _) (hpow _)) (hpow _)
      | exact mul_nonneg (hdigits _) (hpow _)

/-! ## What the clamp writes -/

/-- The text of a stroke with its key and number. -/
def strokeText (key n : Text) : Text := key ++ ' ' :: n

/-- The text of a size with its axes. -/
def sizeText (w h : Text) : Text := "size".toList ++ ' ' :: (w ++ ' ' :: h)

theorem solid_key {key : Text} (h : key = "width".toList ∨ key = "thickness".toList) :
    Solid key := by
  rcases h with rfl | rfl <;> decide

theorem nextWord_strokeText {key n : Text} (hkey : key = "width".toList ∨ key = "thickness".toList)
    (hn : Printed n) : nextWord (strokeText key n) = (key, n) := by
  rw [strokeText, nextWord_blank (solid_key hkey), trimStart_solid hn.solid]

theorem nextWord_sizeText {w : Text} (hw : Printed w) (h : Text) :
    nextWord (sizeText w h) = ("size".toList, w ++ ' ' :: h) := by
  rw [sizeText, nextWord_blank (by decide)]
  obtain ⟨c, r, rfl⟩ := List.exists_cons_of_ne_nil hw.ne_nil
  exact congrArg (Prod.mk _)
    (List.dropWhile_cons_of_neg (by simp [hw.solid c List.mem_cons_self]))

theorem parseStroke_strokeText {key n : Text}
    (hkey : key = "width".toList ∨ key = "thickness".toList) (hn : Printed n) :
    parseStroke (strokeText key n) = if n.all isNumberChar then some (key, n) else none := by
  unfold parseStroke
  rw [nextWord_strokeText hkey hn]
  dsimp only
  by_cases hall : n.all isNumberChar = true
  · rw [if_pos hall, if_pos ⟨hkey, hn.ne_nil, hall⟩]
  · rw [if_neg hall, if_neg fun hcond => hall hcond.2.2]

theorem parseSize_sizeText {w h : Text} (hw : Printed w) (hh : Printed h) :
    parseSize (sizeText w h) =
      if w.all isNumberChar ∧ h.all isNumberChar then some (w, h) else none := by
  unfold parseSize
  rw [nextWord_sizeText hw]
  dsimp only
  rw [nextWord_blank hw.solid, trimStart_solid hh.solid]
  by_cases hall : w.all isNumberChar = true ∧ h.all isNumberChar = true
  · rw [if_pos hall, if_pos ⟨rfl, hw.ne_nil, hh.ne_nil, hall⟩]
  · rw [if_neg hall, if_neg fun hcond => hall hcond.2.2.2]

theorem parseSize_of_stroke {body : Text} {stroke : Text × Text}
    (h : parseStroke body = some stroke) : parseSize body = none := by
  obtain ⟨hwords, hkey, -⟩ := parseStroke_eq_some h
  have hne : stroke.1 ≠ "size".toList := by
    rcases hkey with hkey | hkey <;> rw [hkey] <;> decide
  unfold parseSize
  rw [hwords]
  exact if_neg fun hcond => hne hcond.1

theorem parseStroke_of_size {body : Text} {size : Text × Text}
    (h : parseSize body = some size) : parseStroke body = none := by
  obtain ⟨axes, hwords, -⟩ := parseSize_eq_some h
  unfold parseStroke
  rw [hwords]
  exact if_neg fun hcond => absurd hcond.1 (by decide)

theorem parseSize_strokeText {key n : Text}
    (hkey : key = "width".toList ∨ key = "thickness".toList) (hn : Printed n) :
    parseSize (strokeText key n) = none := by
  have hne : key ≠ "size".toList := by
    rcases hkey with rfl | rfl <;> decide
  unfold parseSize
  rw [nextWord_strokeText hkey hn]
  exact if_neg fun hcond => hne hcond.1

theorem parseStroke_sizeText {w : Text} (hw : Printed w) (h : Text) :
    parseStroke (sizeText w h) = none := by
  unfold parseStroke
  rw [nextWord_sizeText hw]
  exact if_neg fun hcond => absurd hcond.1 (by decide)

theorem inert_strokeText {key n : Text} (hkey : key = "width".toList ∨ key = "thickness".toList)
    (hn : Printed n) : ∀ c ∈ strokeText key n, Inert c := by
  have hkeys : ∀ key ∈ ["width".toList, "thickness".toList], ∀ c ∈ key, Inert c := by decide
  intro c hc
  rcases List.mem_append.mp hc with hc | hc
  · exact hkeys _ (List.mem_pair.mpr hkey) c hc
  · rcases List.mem_cons.mp hc with rfl | hc
    · decide
    · exact hn.inert c hc

theorem inert_sizeText {w h : Text} (hw : Printed w) (hh : Printed h) :
    ∀ c ∈ sizeText w h, Inert c := by
  have hkey : ∀ c ∈ "size".toList, Inert c := by decide
  intro c hc
  rcases List.mem_append.mp hc with hc | hc
  · exact hkey c hc
  rcases List.mem_cons.mp hc with rfl | hc
  · decide
  rcases List.mem_append.mp hc with hc | hc
  · exact hw.inert c hc
  rcases List.mem_cons.mp hc with rfl | hc
  · decide
  · exact hh.inert c hc

end Legend
end CircuitForge
