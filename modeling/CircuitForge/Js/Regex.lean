/-
Regular expressions over characters, matched by derivatives.

`Re` is the fragment of JavaScript patterns without captures, look-around or
back-references: character classes, sequence, alternation and repetition.  An
anchored test `/^r$/.test(s)` is membership of `s` in the language of `r`, which
`accepts` decides.  `lang` is the meaning, a Mathlib `Language`, and
`accepts_iff` says the two agree.
-/
import Mathlib.Computability.Language
import CircuitForge.Js.Text

namespace Js

inductive Re where
  | empty
  | eps
  | cls (p : Char → Bool)
  | seq (a b : Re)
  | alt (a b : Re)
  | star (a : Re)

namespace Re

/-- The words a pattern matches from end to end. -/
def lang : Re → Language Char
  | empty => 0
  | eps => 1
  | cls p => {w | ∃ c, p c = true ∧ w = [c]}
  | seq a b => a.lang * b.lang
  | alt a b => a.lang + b.lang
  | star a => KStar.kstar a.lang

/-! ## Derived patterns -/

def char (c : Char) : Re := cls (· == c)

/-- A literal character under the `i` flag. -/
def charI (c : Char) : Re := cls (sameLetter c)

def lit (s : Text) : Re := s.foldr (fun c r => seq (char c) r) eps

def litI (s : Text) : Re := s.foldr (fun c r => seq (charI c) r) eps

def opt (a : Re) : Re := alt eps a

def plus (a : Re) : Re := seq a (star a)

def digit : Re := cls Char.isDigit

def space : Re := cls isSpace

def letter : Re := cls Char.isAlpha

/-! ## Matching -/

def nullable : Re → Bool
  | empty => false
  | eps => true
  | cls _ => false
  | seq a b => a.nullable && b.nullable
  | alt a b => a.nullable || b.nullable
  | star _ => true

/-- `seq` with the empty and the unit pattern removed. -/
def mkSeq : Re → Re → Re
  | empty, _ => empty
  | eps, b => b
  | a, b => seq a b

/-- `alt` with the empty pattern removed. -/
def mkAlt : Re → Re → Re
  | empty, b => b
  | a, empty => a
  | a, b => alt a b

def deriv (c : Char) : Re → Re
  | empty => empty
  | eps => empty
  | cls p => if p c then eps else empty
  | seq a b =>
    if a.nullable then mkAlt (mkSeq (deriv c a) b) (deriv c b) else mkSeq (deriv c a) b
  | alt a b => mkAlt (deriv c a) (deriv c b)
  | star a => mkSeq (deriv c a) (star a)

/-- `/^r$/.test(s)`. -/
def accepts : Re → Text → Bool
  | r, [] => r.nullable
  | r, c :: s => accepts (deriv c r) s

theorem mem_lang_cls {p : Char → Bool} {s : Text} :
    s ∈ (cls p).lang ↔ ∃ c, p c = true ∧ s = [c] := Iff.rfl

theorem lang_mkSeq (a b : Re) : (mkSeq a b).lang = a.lang * b.lang := by
  cases a <;> simp [mkSeq, lang]

theorem lang_mkAlt (a b : Re) : (mkAlt a b).lang = a.lang + b.lang := by
  cases a with
  | empty => simp only [mkAlt, lang, zero_add]
  | cls p => cases b <;> first | rfl | exact (add_zero _).symm
  | _ => cases b <;> simp only [mkAlt, lang, add_zero]

theorem nullable_iff (r : Re) : r.nullable = true ↔ [] ∈ r.lang := by
  induction r with
  | empty => simp [nullable, lang]
  | eps => simp [nullable, lang]
  | cls p => simp [nullable, mem_lang_cls]
  | seq a b iha ihb =>
    rw [nullable, Bool.and_eq_true, iha, ihb, lang, Language.mem_mul]
    constructor
    · exact fun h => ⟨[], h.1, [], h.2, rfl⟩
    · rintro ⟨x, hx, y, hy, he⟩
      rw [List.append_eq_nil_iff] at he
      exact ⟨he.1 ▸ hx, he.2 ▸ hy⟩
  | alt a b iha ihb => rw [nullable, Bool.or_eq_true, iha, ihb, lang, Language.mem_add]
  | star a _ => simp [nullable, lang, Language.nil_mem_kstar]

/-- The first letter of a word of `star a` belongs to a non-empty word of `a`. -/
theorem cons_mem_star {a : Re} {c : Char} {s : Text} :
    c :: s ∈ (star a).lang ↔ ∃ x y, c :: x ∈ a.lang ∧ y ∈ (star a).lang ∧ x ++ y = s := by
  rw [lang, Language.mem_kstar_iff_exists_nonempty]
  constructor
  · rintro ⟨L, hL, hmem⟩
    cases L with
    | nil => simp at hL
    | cons w L =>
      obtain ⟨hw, hne⟩ := hmem w List.mem_cons_self
      cases w with
      | nil => exact absurd rfl hne
      | cons d w =>
        rw [List.flatten_cons, List.cons_append, List.cons.injEq] at hL
        refine ⟨w, L.flatten, hL.1 ▸ hw, ?_, hL.2.symm⟩
        exact Language.join_mem_kstar fun y hy => (hmem y (List.mem_cons_of_mem _ hy)).1
  · rintro ⟨x, y, hx, hy, rfl⟩
    obtain ⟨L, rfl, hL⟩ := Language.mem_kstar_iff_exists_nonempty.mp hy
    refine ⟨(c :: x) :: L, rfl, fun z hz => ?_⟩
    rcases List.mem_cons.mp hz with rfl | hz
    · exact ⟨hx, List.cons_ne_nil c x⟩
    · exact hL z hz

theorem mem_deriv (c : Char) (r : Re) (s : Text) : s ∈ (deriv c r).lang ↔ c :: s ∈ r.lang := by
  induction r generalizing s with
  | empty => simp [deriv, lang]
  | eps => simp [deriv, lang]
  | cls p =>
    by_cases h : p c = true
    · rw [deriv, if_pos h, lang, Language.mem_one, mem_lang_cls]
      constructor
      · rintro rfl
        exact ⟨c, h, rfl⟩
      · rintro ⟨d, _, he⟩
        exact (List.cons.inj he).2
    · rw [deriv, if_neg h, lang, mem_lang_cls]
      constructor
      · exact fun hs => absurd hs (Language.notMem_zero s)
      · rintro ⟨d, hd, he⟩
        exact absurd ((List.cons.inj he).1 ▸ hd) h
  | seq a b iha ihb =>
    have hleft : s ∈ (mkSeq (deriv c a) b).lang ↔
        ∃ x y, c :: x ∈ a.lang ∧ y ∈ b.lang ∧ x ++ y = s := by
      rw [lang_mkSeq, Language.mem_mul]
      constructor
      · rintro ⟨x, hx, y, hy, he⟩
        exact ⟨x, y, (iha x).mp hx, hy, he⟩
      · rintro ⟨x, y, hx, hy, he⟩
        exact ⟨x, (iha x).mpr hx, y, hy, he⟩
    have hsplit : c :: s ∈ (seq a b).lang ↔
        (∃ x y, c :: x ∈ a.lang ∧ y ∈ b.lang ∧ x ++ y = s) ∨
          ([] ∈ a.lang ∧ c :: s ∈ b.lang) := by
      rw [lang, Language.mem_mul]
      constructor
      · rintro ⟨x, hx, y, hy, he⟩
        cases x with
        | nil => exact Or.inr ⟨hx, by rw [List.nil_append] at he; exact he ▸ hy⟩
        | cons d x =>
          rw [List.cons_append, List.cons.injEq] at he
          exact Or.inl ⟨x, y, he.1 ▸ hx, hy, he.2⟩
      · rintro (⟨x, y, hx, hy, rfl⟩ | ⟨ha, hb⟩)
        · exact ⟨c :: x, hx, y, hy, rfl⟩
        · exact ⟨[], ha, c :: s, hb, rfl⟩
    rw [hsplit, deriv]
    by_cases hn : a.nullable = true
    · rw [if_pos hn, lang_mkAlt, Language.mem_add, hleft, ihb]
      simp [(nullable_iff a).mp hn]
    · rw [if_neg hn, hleft, or_iff_left]
      exact fun h => hn ((nullable_iff a).mpr h.1)
  | alt a b iha ihb => rw [deriv, lang_mkAlt, lang, Language.mem_add, Language.mem_add, iha, ihb]
  | star a iha =>
    rw [deriv, lang_mkSeq, cons_mem_star, Language.mem_mul]
    constructor
    · rintro ⟨x, hx, y, hy, he⟩
      exact ⟨x, y, (iha x).mp hx, hy, he⟩
    · rintro ⟨x, y, hx, hy, he⟩
      exact ⟨x, (iha x).mpr hx, y, hy, he⟩

theorem accepts_iff (r : Re) (s : Text) : r.accepts s = true ↔ s ∈ r.lang := by
  induction s generalizing r with
  | nil => exact nullable_iff r
  | cons c s ih => rw [accepts, ih, mem_deriv]

/-! ## The characters of a pattern -/

/-- The characters that occur in words of the pattern. -/
def chars : Re → Char → Bool
  | empty, _ => false
  | eps, _ => false
  | cls p, c => p c
  | seq a b, c => a.chars c || b.chars c
  | alt a b, c => a.chars c || b.chars c
  | star a, c => a.chars c

theorem chars_of_mem_lang {r : Re} {s : Text} (h : s ∈ r.lang) {c : Char} (hc : c ∈ s) :
    r.chars c = true := by
  induction r generalizing s with
  | empty => exact absurd h (Language.notMem_zero s)
  | eps =>
    rw [lang, Language.mem_one] at h
    simp [h] at hc
  | cls p =>
    obtain ⟨d, hd, rfl⟩ := h
    rw [List.mem_singleton] at hc
    exact hc ▸ hd
  | seq a b iha ihb =>
    obtain ⟨x, hx, y, hy, rfl⟩ := Language.mem_mul.mp h
    rw [chars, Bool.or_eq_true]
    rcases List.mem_append.mp hc with hc | hc
    · exact Or.inl (iha hx hc)
    · exact Or.inr (ihb hy hc)
  | alt a b iha ihb =>
    rw [chars, Bool.or_eq_true]
    rcases (Language.mem_add _ _ _).mp h with h | h
    · exact Or.inl (iha h hc)
    · exact Or.inr (ihb h hc)
  | star a iha =>
    obtain ⟨L, rfl, hL⟩ := Language.mem_kstar.mp h
    obtain ⟨w, hw, hcw⟩ := List.mem_flatten.mp hc
    exact iha (hL w hw) hcw

/-- Every character of an accepted string is one the pattern names. -/
theorem chars_of_accepts {r : Re} {s : Text} (h : r.accepts s = true) {c : Char} (hc : c ∈ s) :
    r.chars c = true :=
  chars_of_mem_lang ((accepts_iff r s).mp h) hc

theorem ne_nil_of_accepts {r : Re} (hn : r.nullable = false) {s : Text} (h : r.accepts s = true) :
    s ≠ [] := by
  rintro rfl
  rw [accepts, hn] at h
  exact Bool.false_ne_true h

/-- A string accepted by a pattern without blanks has none. -/
theorem solid_of_accepts {r : Re} (hr : ∀ c, r.chars c = true → isSpace c = false) {s : Text}
    (h : r.accepts s = true) : Solid s :=
  fun _ hc => hr _ (chars_of_accepts h hc)

end Re

end Js
