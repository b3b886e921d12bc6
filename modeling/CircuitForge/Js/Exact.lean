/-
A runtime that can be run.

Numbers are rationals, so arithmetic is exact; a number prints as
`Number.prototype.toString` prints it, from its first seventeen significant
digits.  Case conversion is the ASCII one.  On ASCII text and short decimals
this is the engine's behaviour, and closed results are evaluated here.
-/
import CircuitForge.Js.Runtime

namespace Js
namespace Exact

/-! ## Printing -/

def pow10 : Int → Rat
  | .ofNat k => ((10 ^ k : Nat) : Rat)
  | .negSucc k => 1 / ((10 ^ (k + 1) : Nat) : Rat)

def digits (n : Nat) : Text := Nat.toDigits 10 n

/-- The decimal point of `a > 0`: the `e` with `10 ^ (e - 1) ≤ a < 10 ^ e`. -/
def pointOf (a : Rat) : Int :=
  let guess : Int := (digits a.num.natAbs).length - (digits a.den).length
  if pow10 guess ≤ a then guess + 1 else guess

/-- The first `p` significant digits of `a > 0`, rounded half up. -/
def significant (p : Nat) (a : Rat) : Nat := (a * pow10 (p - pointOf a) + 1 / 2).floor.toNat

def zeros (k : Nat) : Text := List.replicate k '0'

/-- Digits without their trailing zeros, `0` when there is nothing else. -/
def stripZeros (ds : Text) : Text :=
  match ds.rdropWhile (· == '0') with
  | [] => ['0']
  | d :: ds => d :: ds

/-- Exponent notation with the exponent `e`. -/
def exponent (e : Int) : Text := 'e' :: (if 0 ≤ e then '+' else '-') :: digits e.natAbs

/-- The digits `ds` with the decimal point behind the first `n` of them. -/
def layout (ds : Text) (n : Int) : Text :=
  if (ds.length : Int) ≤ n ∧ n ≤ 21 then ds ++ zeros (n.toNat - ds.length)
  else if 0 < n ∧ n ≤ 21 then ds.take n.toNat ++ '.' :: ds.drop n.toNat
  else if -6 < n ∧ n ≤ 0 then '0' :: '.' :: (zeros (-n).toNat ++ ds)
  else
    match ds with
    | d :: e :: ds => d :: '.' :: e :: ds ++ exponent (n - 1)
    | ds => ds ++ exponent (n - 1)

def printPos (a : Rat) : Text :=
  let m := significant 17 a
  layout (stripZeros (digits m)) (pointOf a + ((digits m).length - 17))

def print (x : Rat) : Text :=
  if x = 0 then ['0'] else if x < 0 then '-' :: printPos (-x) else printPos x

/-- `toFixed`. -/
def printFixed (k : Nat) (x : Rat) : Text :=
  let m := (x.abs * pow10 k + 1 / 2).floor.toNat
  let ds := zeros (k + 1 - (digits m).length) ++ digits m
  let sign := if x < 0 then ['-'] else []
  let whole := sign ++ ds.take (ds.length - k)
  if k = 0 then whole else whole ++ '.' :: ds.drop (ds.length - k)

/-- Exponent notation of the digits `ds`, the point behind the first. -/
def scientific (ds : Text) (e : Int) : Text :=
  match ds with
  | d :: e' :: ds => d :: '.' :: e' :: ds ++ exponent e
  | ds => ds ++ exponent e

/-- `toPrecision` of `a > 0`: the digits of the rounded number, which may carry, and their layout;
exponent notation from `10 ^ k` on and below `10 ^ -6`. -/
def printDigits (k : Nat) (a : Rat) : Text :=
  let m := significant k a
  let (m, n) := if m = 10 ^ k then (10 ^ (k - 1), pointOf a + 1) else (m, pointOf a)
  if k < n then scientific (digits m) (n - 1) else layout (digits m) n

/-- `toPrecision`. -/
def printPrecision (k : Nat) (x : Rat) : Text :=
  if x = 0 then layout (zeros k) 1
  else if x < 0 then '-' :: printDigits k (-x) else printDigits k x

/-! ## Reading -/

def digitsValue (s : Text) : Nat := s.foldl (fun v c => 10 * v + (c.toNat - 48)) 0

def readUnsigned (s : Text) : Rat :=
  let whole := s.takeWhile Char.isDigit
  let rest := s.dropWhile Char.isDigit
  let frac := match rest with
    | '.' :: r => r.takeWhile Char.isDigit
    | _ => []
  let rest := match rest with
    | '.' :: r => r.dropWhile Char.isDigit
    | r => r
  let mant : Rat := (digitsValue (whole ++ frac) : Rat) * pow10 (-(frac.length : Int))
  match rest with
  | e :: '-' :: r => if sameLetter 'e' e then mant * pow10 (-(digitsValue r : Int)) else mant
  | e :: '+' :: r => if sameLetter 'e' e then mant * pow10 (digitsValue r) else mant
  | e :: r => if sameLetter 'e' e then mant * pow10 (digitsValue (r.takeWhile Char.isDigit)) else mant
  | [] => mant

def read : Text → Rat
  | '-' :: s => -readUnsigned s
  | '+' :: s => readUnsigned s
  | s => readUnsigned s

/-! ## The shape of a printed number -/

def AllDigits (s : Text) : Prop := s ≠ [] ∧ ∀ c ∈ s, c.isDigit = true

theorem allDigits_digits (n : Nat) : AllDigits (digits n) :=
  ⟨Nat.toDigits_ne_nil, fun _ hc => Nat.isDigit_of_mem_toDigits (by decide) (by decide) hc⟩

theorem isDigit_zeros {k : Nat} {c : Char} (h : c ∈ zeros k) : c.isDigit = true := by
  rw [List.eq_of_mem_replicate h]
  decide

theorem AllDigits.stripZeros {ds : Text} (h : AllDigits ds) : AllDigits (stripZeros ds) := by
  unfold Exact.stripZeros
  split
  · exact ⟨List.cons_ne_nil _ _, fun c hc => by rw [List.mem_singleton.mp hc]; decide⟩
  · rename_i d r he
    exact ⟨List.cons_ne_nil _ _, fun c hc =>
      h.2 c ((List.rdropWhile_prefix _ _).sublist.mem (he ▸ hc))⟩

theorem mem_star_digit {s : Text} (h : ∀ c ∈ s, c.isDigit = true) : s ∈ (Re.star .digit).lang := by
  induction s with
  | nil => exact (Re.nullable_iff _).mp rfl
  | cons c s ih =>
    rw [List.forall_mem_cons] at h
    exact Re.cons_mem_star.mpr ⟨[], s, ⟨c, h.1, rfl⟩, ih h.2, rfl⟩

theorem AllDigits.mem_lang {s : Text} (h : AllDigits s) : s ∈ (Re.plus .digit).lang := by
  obtain ⟨c, t, rfl⟩ := List.exists_cons_of_ne_nil h.1
  rw [← List.singleton_append, Re.plus, Re.lang, Language.mem_mul]
  exact ⟨[c], ⟨c, h.2 c List.mem_cons_self, rfl⟩, t,
    mem_star_digit fun d hd => h.2 d (List.mem_cons_of_mem _ hd), rfl⟩

/-- A fraction part: nothing, or a point and digits. -/
def IsFraction (s : Text) : Prop := s = [] ∨ ∃ f, s = '.' :: f ∧ AllDigits f

/-- An exponent part: nothing, or `e`, a sign and digits. -/
def IsExponent (s : Text) : Prop :=
  s = [] ∨ ∃ sg d, s = 'e' :: sg :: d ∧ (sg = '+' ∨ sg = '-') ∧ AllDigits d

theorem isExponent_exponent (e : Int) : IsExponent (exponent e) := by
  refine Or.inr ⟨_, _, rfl, ?_, allDigits_digits _⟩
  split_ifs
  · exact Or.inl rfl
  · exact Or.inr rfl

theorem numeral_mem {ip fr ex : Text} (hip : AllDigits ip) (hfr : IsFraction fr)
    (hex : IsExponent ex) {sg : Text} (hsg : sg = [] ∨ sg = ['-']) :
    numeralRe.accepts (sg ++ (ip ++ (fr ++ ex))) = true := by
  rw [Re.accepts_iff, numeralRe]
  refine Language.mem_mul.mpr ⟨sg, ?_, _, Language.mem_mul.mpr ⟨ip, hip.mem_lang, _,
    Language.mem_mul.mpr ⟨fr, ?_, ex, ?_, rfl⟩, rfl⟩, rfl⟩
  · rw [Re.opt, Re.lang, Language.mem_add]
    rcases hsg with rfl | rfl
    · exact Or.inl (Language.mem_one _ |>.mpr rfl)
    · exact Or.inr ⟨'-', rfl, rfl⟩
  · rw [Re.opt, Re.lang, Language.mem_add]
    rcases hfr with rfl | ⟨f, rfl, hf⟩
    · exact Or.inl (Language.mem_one _ |>.mpr rfl)
    · exact Or.inr (Language.mem_mul.mpr ⟨['.'], ⟨'.', rfl, rfl⟩, f, hf.mem_lang, rfl⟩)
  · rw [Re.opt, Re.lang, Language.mem_add]
    rcases hex with rfl | ⟨s, d, rfl, hs, hd⟩
    · exact Or.inl (Language.mem_one _ |>.mpr rfl)
    · refine Or.inr (Language.mem_mul.mpr ⟨['e'], ⟨'e', rfl, rfl⟩, s :: d, ?_, rfl⟩)
      refine Language.mem_mul.mpr ⟨[s], ?_, d, hd.mem_lang, rfl⟩
      rcases hs with rfl | rfl
      · exact Or.inl ⟨'+', rfl, rfl⟩
      · exact Or.inr ⟨'-', rfl, rfl⟩

theorem layout_parts {ds : Text} (h : AllDigits ds) (n : Int) :
    ∃ ip fr ex, layout ds n = ip ++ (fr ++ ex) ∧ AllDigits ip ∧ IsFraction fr ∧ IsExponent ex := by
  have hsub : ∀ (s : Text), s.Sublist ds → s ≠ [] → AllDigits s :=
    fun s hs hne => ⟨hne, fun c hc => h.2 c (hs.mem hc)⟩
  unfold layout
  split_ifs with h1 h2 h3
  · refine ⟨ds ++ zeros (n.toNat - ds.length), [], [], by simp, ⟨by simp [h.1], ?_⟩,
      Or.inl rfl, Or.inl rfl⟩
    intro c hc
    rcases List.mem_append.mp hc with hc | hc
    · exact h.2 c hc
    · exact isDigit_zeros hc
  · have hlt : n.toNat < ds.length := by omega
    refine ⟨ds.take n.toNat, '.' :: ds.drop n.toNat, [], by simp, ?_, Or.inr ⟨_, rfl, ?_⟩,
      Or.inl rfl⟩
    · refine hsub _ (List.take_sublist _ _) ?_
      rw [Ne, List.take_eq_nil_iff, not_or]
      exact ⟨by omega, h.1⟩
    · refine hsub _ (List.drop_sublist _ _) ?_
      rw [Ne, List.drop_eq_nil_iff]
      omega
  · refine ⟨['0'], '.' :: (zeros (-n).toNat ++ ds), [], by simp, ?_, Or.inr ⟨_, rfl, ?_⟩,
      Or.inl rfl⟩
    · exact ⟨List.cons_ne_nil _ _, fun c hc => by rw [List.mem_singleton.mp hc]; decide⟩
    · refine ⟨by simp [h.1], fun c hc => ?_⟩
      rcases List.mem_append.mp hc with hc | hc
      · exact isDigit_zeros hc
      · exact h.2 c hc
  · split
    · rename_i d e r
      refine ⟨[d], '.' :: e :: r, exponent (n - 1), rfl, hsub _ (by simp) (List.cons_ne_nil _ _),
        Or.inr ⟨_, rfl, hsub _ (by simp) (List.cons_ne_nil _ _)⟩, isExponent_exponent _⟩
    · exact ⟨ds, [], exponent (n - 1), rfl, h, Or.inl rfl, isExponent_exponent _⟩

theorem accepts_print (x : Rat) : numeralRe.accepts (print x) = true := by
  have hpos : ∀ a sg, sg = [] ∨ sg = ['-'] → numeralRe.accepts (sg ++ printPos a) = true := by
    intro a sg hsg
    obtain ⟨ip, fr, ex, he, hip, hfr, hex⟩ :=
      layout_parts (allDigits_digits (significant 17 a)).stripZeros
        (pointOf a + ((digits (significant 17 a)).length - 17))
    rw [printPos, he]
    exact numeral_mem hip hfr hex hsg
  unfold print
  split_ifs
  · decide
  · exact hpos (-x) ['-'] (Or.inr rfl)
  · exact hpos x [] (Or.inl rfl)

/-! ## The instance -/

/-- The logarithm at powers of ten, on a straight line between them. -/
def log10 (a : Rat) : Rat :=
  let e := pointOf a - 1
  e + (a / pow10 e - 1) / 9

theorem toLower_of_caseSeparator {c : Char} (h : isCaseSeparator c = true) : c.toLower = c := by
  simp only [isCaseSeparator, Bool.and_eq_true, Bool.not_eq_true', Bool.eq_false_iff] at h
  have ha := h.1.2
  rw [Ne, isAlpha_iff] at ha
  rw [eq_iff_toNat, toNat_toLower, if_neg fun h => ha (Or.inl h)]

end Exact

open Exact in
/-- Exact decimal arithmetic and ASCII case conversion.  The logarithm is exact at
powers of ten only. -/
instance exact : Runtime where
  lower := asciiLower
  upper := asciiUpper
  Num := Rat
  lit m e := m * pow10 e
  add := (· + ·)
  sub := (· - ·)
  mul := (· * ·)
  div := (· / ·)
  lt a b := decide (a < b)
  eq a b := decide (a = b)
  isFinite _ := true
  isInteger a := a.den == 1
  floor a := (a.floor : Int)
  log10 := log10
  exp10 a := pow10 a.floor
  ofText := read
  toText := print
  toFixed := printFixed
  toPrecision := printPrecision
  lower_ascii _ _ := rfl
  upper_ascii _ _ := rfl
  lower_separator a c b h := by
    rw [asciiLower, List.map_append, List.map_cons, toLower_of_caseSeparator h]
    rfl
  lower_to_ascii s h := by
    apply List.map_congr_left
    intro c hc
    split_ifs with hK
    · have := h _ (List.mem_map_of_mem hc)
      rw [isAscii, decide_eq_true_eq, toNat_toLower, hK] at this
      simp at this
    · rfl
  toText_spec x := Or.inl ⟨rfl, accepts_print x⟩

end Js
