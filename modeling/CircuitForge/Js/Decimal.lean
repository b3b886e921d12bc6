/-
Decimal numerals over the rationals.

What the printers of `Exact` write, its reader reads back: the digits of a number at a power of
ten.  `roundTo p a` is `a` at `p` significant digits, and every printer comes to such a number.
-/
import Mathlib.Algebra.Order.Field.Power
import Mathlib.Data.Rat.Floor
import Mathlib.Tactic.FieldSimp
import Mathlib.Tactic.Linarith
import Mathlib.Tactic.NormNum
import Mathlib.Tactic.Ring
import CircuitForge.Js.Exact
import CircuitForge.Js.Scan

namespace Js
namespace Exact

/-! ## Powers of ten -/

theorem pow10_eq (e : Int) : pow10 e = (10 : Rat) ^ e := by
  cases e with
  | ofNat k => simp [pow10]
  | negSucc k => simp [pow10, zpow_negSucc]

theorem pow10_pos (e : Int) : 0 < pow10 e := by
  rw [pow10_eq]
  positivity

theorem pow10_add (a b : Int) : pow10 (a + b) = pow10 a * pow10 b := by
  simp only [pow10_eq]
  exact zpow_add₀ (by norm_num) a b

theorem pow10_natCast (k : Nat) : pow10 (k : Int) = 10 ^ k := by
  rw [pow10_eq, zpow_natCast]

theorem pow10_neg_mul (a : Int) : pow10 a * pow10 (-a) = 1 := by
  rw [← pow10_add, Int.add_right_neg]
  rfl

theorem pow10_lt {a b : Int} : pow10 a < pow10 b ↔ a < b := by
  simp only [pow10_eq]
  exact zpow_lt_zpow_iff_right₀ (by norm_num)

/-! ## Values of digits -/

theorem digitsValue_eq (s : Text) : digitsValue s = Nat.ofDigitChars 10 s 0 := by
  rw [Nat.ofDigitChars_eq_foldl]
  rfl

theorem digitsValue_append (s t : Text) :
    digitsValue (s ++ t) = 10 ^ t.length * digitsValue s + digitsValue t := by
  simp only [digitsValue_eq]
  rw [Nat.ofDigitChars_append, Nat.ofDigitChars_eq_ofDigitChars_zero]

theorem digitsValue_digits (n : Nat) : digitsValue (digits n) = n := by
  rw [digitsValue_eq]
  exact Nat.ofDigitChars_ten_toDigits

theorem digitsValue_zeros (k : Nat) : digitsValue (zeros k) = 0 := by
  rw [digitsValue_eq, zeros, Nat.ofDigitChars_replicate_zero, Nat.mul_zero]

theorem length_zeros (k : Nat) : (zeros k).length = k := List.length_replicate

/-- The digits of a number that has `k` of them. -/
theorem length_digits {k n : Nat} (hk : 0 < k) (hlow : 10 ^ (k - 1) ≤ n) (hhigh : n < 10 ^ k) :
    (digits n).length = k := by
  have hle : (digits n).length ≤ k := (Nat.length_toDigits_le_iff (by decide) hk).mpr hhigh
  rcases Nat.lt_or_ge 1 k with h1 | h1
  · have hnot : ¬ (digits n).length ≤ k - 1 := by
      rw [digits, Nat.length_toDigits_le_iff (by decide) (by omega)]
      omega
    omega
  · have hpos : 0 < (digits n).length := List.length_pos_of_ne_nil Nat.toDigits_ne_nil
    omega

theorem lt_pow_length (n : Nat) : n < 10 ^ (digits n).length := by
  have hpos : 0 < (digits n).length := List.length_pos_of_ne_nil Nat.toDigits_ne_nil
  exact (Nat.length_toDigits_le_iff (by decide) hpos).mp le_rfl

theorem pow_length_le {n : Nat} (hn : 0 < n) : 10 ^ ((digits n).length - 1) ≤ n := by
  rcases Nat.lt_or_ge 1 (digits n).length with h1 | h1
  · by_contra hlt
    have := (Nat.length_toDigits_le_iff (b := 10) (by decide) (by omega)).mpr (Nat.not_le.mp hlt)
    rw [← digits] at this
    omega
  · rw [show (digits n).length - 1 = 0 by omega, pow_zero]
    exact hn

/-- Trailing zeros shift the value. -/
theorem stripZeros_value {ds : Text} (h : ds ≠ []) :
    (stripZeros ds).length ≤ ds.length ∧
      digitsValue ds = 10 ^ (ds.length - (stripZeros ds).length) * digitsValue (stripZeros ds) := by
  have hsplit : ds.rdropWhile (· == '0') ++ ds.rtakeWhile (· == '0') = ds :=
    List.rdropWhile_append_rtakeWhile
  have hzeros : ds.rtakeWhile (· == '0') = zeros (ds.rtakeWhile (· == '0')).length := by
    refine List.eq_replicate_of_mem fun c hc => ?_
    simpa using List.mem_rtakeWhile_imp hc
  have hlength := congrArg List.length hsplit
  rw [List.length_append] at hlength
  unfold stripZeros
  cases hstrip : ds.rdropWhile (· == '0') with
  | nil =>
    rw [hstrip, List.nil_append] at hsplit
    dsimp only
    refine ⟨List.length_pos_of_ne_nil h, ?_⟩
    rw [← hsplit, hzeros, digitsValue_zeros]
    rfl
  | cons d r =>
    dsimp only
    rw [hstrip] at hlength hsplit
    refine ⟨by omega, ?_⟩
    rw [← hlength, Nat.add_sub_cancel_left]
    conv_lhs => rw [← hsplit, digitsValue_append, hzeros, digitsValue_zeros, length_zeros]
    rfl

/-! ## The decimal point -/

/-- The decimal point stands between the powers of ten around the number. -/
theorem pointOf_spec {a : Rat} (h : 0 < a) : pow10 (pointOf a - 1) ≤ a ∧ a < pow10 (pointOf a) := by
  set n := a.num.natAbs with hn
  have hnum : (a.num : Rat) = n := by
    rw [hn, Nat.cast_natAbs, abs_of_pos (Rat.num_pos.mpr h)]
  have hnpos : 0 < n := by
    rw [hn]
    exact Int.natAbs_pos.mpr (Rat.num_pos.mpr h).ne'
  have hden : (0 : Rat) < a.den := by exact_mod_cast a.den_pos
  have ha : a * a.den = n := by
    rw [← hnum]
    exact Rat.mul_den_eq_num a
  set guess : Int := (digits n).length - (digits a.den).length with hguess
  have hlen : ∀ m : Nat, 0 < (digits m).length := fun m =>
    List.length_pos_of_ne_nil Nat.toDigits_ne_nil
  -- the numerator and the denominator stand between powers of ten
  have hn1 : (n : Rat) < pow10 (digits n).length := by
    rw [pow10_natCast]
    exact_mod_cast lt_pow_length n
  have hn2 : pow10 ((digits n).length - 1 : Int) ≤ n := by
    rw [show ((digits n).length - 1 : Int) = (((digits n).length - 1 : Nat) : Int) by
      have := hlen n
      omega, pow10_natCast]
    exact_mod_cast pow_length_le hnpos
  have hd1 : (a.den : Rat) < pow10 (digits a.den).length := by
    rw [pow10_natCast]
    exact_mod_cast lt_pow_length a.den
  have hd2 : pow10 ((digits a.den).length - 1 : Int) ≤ a.den := by
    rw [show ((digits a.den).length - 1 : Int) = (((digits a.den).length - 1 : Nat) : Int) by
      have := hlen a.den
      omega, pow10_natCast]
    exact_mod_cast pow_length_le a.den_pos
  have hupper : a < pow10 (guess + 1) := by
    by_contra hle
    rw [not_lt] at hle
    have h1 : pow10 (guess + 1) * pow10 ((digits a.den).length - 1 : Int) ≤ a * a.den :=
      mul_le_mul hle hd2 (pow10_pos _).le h.le
    rw [ha, ← pow10_add, show guess + 1 + ((digits a.den).length - 1 : Int) = (digits n).length by
      omega] at h1
    exact absurd hn1 (not_lt.mpr h1)
  have hlower : pow10 (guess - 1) < a := by
    by_contra hle
    rw [not_lt] at hle
    have h1 : a * a.den < pow10 (guess - 1) * pow10 (digits a.den).length :=
      mul_lt_mul' hle hd1 hden.le (pow10_pos _)
    rw [ha, ← pow10_add, show guess - 1 + ((digits a.den).length : Int) = (digits n).length - 1 by
      omega] at h1
    exact absurd hn2 (not_le.mpr h1)
  have hpoint : pointOf a = if pow10 guess ≤ a then guess + 1 else guess := rfl
  rw [hpoint]
  split_ifs with hcase
  · exact ⟨by rwa [Int.add_sub_cancel], hupper⟩
  · exact ⟨hlower.le, not_le.mp hcase⟩

/-- The decimal point is where the powers of ten say. -/
theorem pointOf_eq {a : Rat} {n : Int} (hlow : pow10 (n - 1) ≤ a) (hhigh : a < pow10 n) :
    pointOf a = n := by
  have hpos : 0 < a := lt_of_lt_of_le (pow10_pos _) hlow
  obtain ⟨h1, h2⟩ := pointOf_spec hpos
  have hle : n - 1 < pointOf a := pow10_lt.mp (lt_of_le_of_lt hlow h2)
  have hge : pointOf a - 1 < n := pow10_lt.mp (lt_of_le_of_lt h1 hhigh)
  omega

/-! ## Rounding -/

/-- `a > 0` at `p` significant digits, half up. -/
def roundTo (p : Nat) (a : Rat) : Rat := significant p a * pow10 (pointOf a - p)

theorem floor_add_half (x : Rat) :
    x - 1 / 2 < ((x + 1 / 2).floor : Rat) ∧ ((x + 1 / 2).floor : Rat) ≤ x + 1 / 2 := by
  have h1 := Rat.floor_le (x + 1 / 2)
  have h2 := Rat.lt_floor_add_one (x + 1 / 2)
  push_cast at h2
  exact ⟨by linarith, h1⟩

section

variable {p : Nat} {a : Rat}

theorem scaled_bounds (p : Nat) (ha : 0 < a) :
    pow10 (p - 1) ≤ a * pow10 (p - pointOf a) ∧ a * pow10 (p - pointOf a) < pow10 p := by
  obtain ⟨h1, h2⟩ := pointOf_spec ha
  have hpos := pow10_pos (p - pointOf a)
  constructor
  · rw [show ((p : Int) - 1) = (pointOf a - 1) + (p - pointOf a) by omega, pow10_add]
    exact mul_le_mul_of_nonneg_right h1 hpos.le
  · calc a * pow10 (p - pointOf a) < pow10 (pointOf a) * pow10 (p - pointOf a) :=
          mul_lt_mul_of_pos_right h2 hpos
      _ = pow10 p := by rw [← pow10_add, show pointOf a + (p - pointOf a) = (p : Int) by omega]

theorem significant_cast (ha : 0 < a) :
    (significant p a : Rat) = ((a * pow10 (p - pointOf a) + 1 / 2).floor : Rat) := by
  have hnonneg : 0 ≤ (a * pow10 (p - pointOf a) + 1 / 2).floor := by
    rw [Rat.le_floor_iff]
    have := mul_pos ha (pow10_pos (p - pointOf a))
    push_cast
    linarith
  rw [significant]
  exact_mod_cast congrArg (Int.cast (R := Rat)) (Int.toNat_of_nonneg hnonneg)

theorem significant_bounds (hp : 0 < p) (ha : 0 < a) :
    10 ^ (p - 1) ≤ significant p a ∧ significant p a ≤ 10 ^ p := by
  obtain ⟨h1, h2⟩ := scaled_bounds p ha
  have hcast := significant_cast (p := p) ha
  have hpow : pow10 ((p : Int) - 1) = ((10 ^ (p - 1) : Nat) : Rat) := by
    rw [show (p : Int) - 1 = ((p - 1 : Nat) : Int) by omega, pow10_natCast]
    push_cast
    rfl
  have hpow' : pow10 (p : Int) = ((10 ^ p : Nat) : Rat) := by
    rw [pow10_natCast]
    push_cast
    rfl
  constructor
  · have hfloor : ((10 ^ (p - 1) : Nat) : Int) ≤ (a * pow10 (p - pointOf a) + 1 / 2).floor := by
      rw [Rat.le_floor_iff]
      rw [hpow] at h1
      push_cast at h1 ⊢
      linarith
    have : ((10 ^ (p - 1) : Nat) : Rat) ≤ (significant p a : Rat) := by
      rw [hcast]
      exact_mod_cast hfloor
    exact_mod_cast this
  · have hfloor : (a * pow10 (p - pointOf a) + 1 / 2).floor < ((10 ^ p : Nat) : Int) + 1 := by
      rw [Rat.floor_lt_iff]
      rw [hpow'] at h2
      push_cast at h2 ⊢
      linarith
    have : (significant p a : Rat) < ((10 ^ p : Nat) : Rat) + 1 := by
      rw [hcast]
      exact_mod_cast hfloor
    have : significant p a < 10 ^ p + 1 := by exact_mod_cast this
    omega

/-- Rounding moves a number by half a unit of its last place at most. -/
theorem abs_roundTo_sub_le (p : Nat) (ha : 0 < a) :
    |roundTo p a - a| ≤ 1 / 2 * pow10 (pointOf a - p) := by
  obtain ⟨h1, h2⟩ := floor_add_half (a * pow10 (p - pointOf a))
  rw [← significant_cast ha] at h1 h2
  have hpos := pow10_pos (pointOf a - p)
  have hback : a = a * pow10 (p - pointOf a) * pow10 (pointOf a - p) := by
    rw [mul_assoc, show pointOf a - p = -(p - pointOf a) by omega, pow10_neg_mul, mul_one]
  have hdiff : roundTo p a - a =
      (significant p a - a * pow10 (p - pointOf a)) * pow10 (pointOf a - p) := by
    rw [sub_mul, ← hback]
    rfl
  rw [hdiff, abs_mul, abs_of_pos hpos]
  refine mul_le_mul_of_nonneg_right ?_ hpos.le
  rw [abs_le]
  constructor <;> linarith

/-- Four digits are exact to five parts in ten thousand; `p` digits to half of `10 ^ (1 - p)`. -/
theorem abs_roundTo_sub_le_mul (p : Nat) (ha : 0 < a) :
    |roundTo p a - a| ≤ 1 / 2 * pow10 (1 - p) * a := by
  refine (abs_roundTo_sub_le p ha).trans ?_
  have hlow := (pointOf_spec ha).1
  have hpos := pow10_pos (1 - p)
  rw [show pointOf a - (p : Int) = (1 - p) + (pointOf a - 1) by omega, pow10_add, mul_assoc]
  have := mul_le_mul_of_nonneg_left hlow hpos.le
  linarith

/-- A number with at most `p` significant digits is not rounded. -/
theorem roundTo_eq_self (hp : 0 < p) {m : Nat} {e : Int} (hm : 0 < m) (hle : m ≤ 10 ^ p) :
    roundTo p (m * pow10 e) = m * pow10 e := by
  set a : Rat := m * pow10 e with ha
  have hpos : 0 < a := mul_pos (by exact_mod_cast hm) (pow10_pos e)
  -- the digits behind the point of the rounded number are those of `a`
  have hint : ∃ k : Nat, a * pow10 (p - pointOf a) = k := by
    rcases Nat.lt_or_ge m (10 ^ p) with hlt | hge
    · have hbound : a < pow10 (p + e) := by
        rw [ha, pow10_add, pow10_natCast]
        exact mul_lt_mul_of_pos_right (by exact_mod_cast hlt) (pow10_pos e)
      have hpoint : pointOf a - 1 < p + e :=
        pow10_lt.mp (lt_of_le_of_lt (pointOf_spec hpos).1 hbound)
      obtain ⟨j, hj⟩ : ∃ j : Nat, e + (p - pointOf a) = j := ⟨(e + (p - pointOf a)).toNat, by omega⟩
      refine ⟨m * 10 ^ j, ?_⟩
      rw [ha, mul_assoc, ← pow10_add, hj, pow10_natCast]
      push_cast
      rfl
    · have hmp : m = 10 ^ p := Nat.le_antisymm hle hge
      have hpow : a = pow10 (p + e) := by
        rw [ha, hmp, pow10_add, pow10_natCast]
        push_cast
        rfl
      have hpoint : pointOf a = p + e + 1 := by
        refine pointOf_eq ?_ ?_
        · rw [hpow, Int.add_sub_cancel]
        · rw [hpow, pow10_lt]
          omega
      refine ⟨10 ^ (p - 1), ?_⟩
      rw [hpoint, hpow, ← pow10_add, show (p : Int) + e + (p - (p + e + 1)) = ((p - 1 : Nat) : Int) by
        omega, pow10_natCast]
      push_cast
      rfl
  obtain ⟨k, hk⟩ := hint
  have hsig : (significant p a : Rat) = k := by
    rw [significant_cast hpos, hk]
    have hfloor : ((k : Rat) + 1 / 2).floor = (k : Int) := by
      refine le_antisymm ?_ ?_
      · refine Int.le_of_lt_add_one ?_
        rw [Rat.floor_lt_iff]
        push_cast
        linarith
      · rw [Rat.le_floor_iff]
        push_cast
        linarith
    rw [hfloor]
    exact Int.cast_natCast k
  rw [roundTo, hsig, ← hk, mul_assoc, show pointOf a - p = -(p - pointOf a) by omega, pow10_neg_mul,
    mul_one]

theorem roundTo_pos (hp : 0 < p) (ha : 0 < a) : 0 < roundTo p a := by
  have hlow := (significant_bounds hp ha).1
  have : 0 < significant p a := lt_of_lt_of_le (Nat.pow_pos (by decide)) hlow
  exact mul_pos (by exact_mod_cast this) (pow10_pos _)

/-- The digits of `a` behind the first `p`, as a fraction of the last of these. -/
def cutOff (p : Nat) (a : Rat) : Rat :=
  a * pow10 (p - pointOf a) - (a * pow10 (p - pointOf a)).floor

theorem cutOff_nonneg (p : Nat) (a : Rat) : 0 ≤ cutOff p a :=
  sub_nonneg.mpr (Rat.floor_le _)

theorem cutOff_lt_one (p : Nat) (a : Rat) : cutOff p a < 1 := by
  have hnext := Rat.lt_floor_add_one (a * pow10 (p - pointOf a))
  push_cast at hnext
  rw [cutOff]
  linarith

/-- Rounding takes off what is cut off, or fills it up from a half on. -/
theorem roundTo_sub (ha : 0 < a) :
    roundTo p a - a =
      (if cutOff p a < 1 / 2 then -cutOff p a else 1 - cutOff p a) * pow10 (pointOf a - p) := by
  have hback : a * pow10 (p - pointOf a) * pow10 (pointOf a - p) = a := by
    rw [mul_assoc, show pointOf a - p = -(p - pointOf a) by omega, pow10_neg_mul, mul_one]
  have hdiff : roundTo p a - a =
      (((a * pow10 (p - pointOf a) + 1 / 2).floor : Rat) - a * pow10 (p - pointOf a)) *
        pow10 (pointOf a - p) := by
    rw [sub_mul, hback, roundTo, significant_cast ha]
  rw [hdiff]
  congr 1
  have hnonneg := cutOff_nonneg p a
  have hlt := cutOff_lt_one p a
  have hcut : cutOff p a = a * pow10 (p - pointOf a) - (a * pow10 (p - pointOf a)).floor := rfl
  generalize a * pow10 (p - pointOf a) = x at hcut ⊢
  split_ifs with hhalf
  · have hfloor : (x + 1 / 2).floor = x.floor := by
      refine le_antisymm (Int.lt_add_one_iff.mp ?_) (Rat.floor_monotone (by linarith))
      rw [Rat.floor_lt_iff]
      push_cast
      linarith
    rw [hfloor, hcut, neg_sub]
  · have hfloor : (x + 1 / 2).floor = x.floor + 1 := by
      refine le_antisymm (Int.lt_add_one_iff.mp ?_) ?_
      · rw [Rat.floor_lt_iff]
        push_cast
        linarith
      · rw [Rat.le_floor_iff]
        push_cast
        linarith
    rw [hfloor, hcut]
    push_cast
    ring

/-- A number is rounded down when what is cut off is less than half. -/
theorem roundTo_lt_iff (ha : 0 < a) : roundTo p a < a ↔ 0 < cutOff p a ∧ cutOff p a < 1 / 2 := by
  have hpos := pow10_pos (pointOf a - p)
  have hlt := cutOff_lt_one p a
  rw [← sub_neg, roundTo_sub ha]
  split_ifs with hhalf
  · rw [neg_mul, neg_lt_zero, mul_pos_iff_of_pos_right hpos]
    exact (and_iff_left hhalf).symm
  · refine iff_of_false (not_lt.mpr (mul_nonneg ?_ hpos.le)) fun h => hhalf h.2
    linarith

/-- A rounded number has no more digits to round. -/
theorem roundTo_roundTo {q : Nat} (hp : 0 < p) (hpq : p ≤ q) (ha : 0 < a) :
    roundTo q (roundTo p a) = roundTo p a := by
  obtain ⟨hlow, hhigh⟩ := significant_bounds hp ha
  exact roundTo_eq_self (by omega) (lt_of_lt_of_le (Nat.pow_pos (by decide)) hlow)
    (hhigh.trans (Nat.pow_le_pow_right (by decide) hpq))

end

/-! ## Reading -/

theorem takeWhile_digits {ds rest : Text} (h : ∀ c ∈ ds, c.isDigit = true)
    (hrest : rest.head?.all (fun c => !c.isDigit) = true) :
    (ds ++ rest).takeWhile Char.isDigit = ds ∧ (ds ++ rest).dropWhile Char.isDigit = rest := by
  rw [List.takeWhile_append_of_pos h, List.dropWhile_append_of_pos h]
  cases rest with
  | nil => exact ⟨List.append_nil ds, rfl⟩
  | cons c rest =>
    have hc : c.isDigit = false := by simpa using hrest
    rw [List.takeWhile_cons, List.dropWhile_cons, hc]
    exact ⟨List.append_nil ds, rfl⟩

/-- The value of an exponent part. -/
def exponentValue (ex : Text) : Rat :=
  match ex with
  | _ :: '-' :: ds => pow10 (-(digitsValue ds : Int))
  | _ :: '+' :: ds => pow10 (digitsValue ds)
  | _ => 1

theorem exponentValue_nil : exponentValue [] = 1 := rfl

theorem exponentValue_exponent (e : Int) : exponentValue (exponent e) = pow10 e := by
  unfold exponent
  split_ifs with h
  · rw [exponentValue, digitsValue_digits]
    congr 1
    omega
  · rw [exponentValue, digitsValue_digits]
    congr 1
    omega

/-- A numeral is read from its digits, its point and its exponent. -/
theorem readUnsigned_numeral {ip fr ex : Text} (hip : AllDigits ip)
    (hfr : ∀ c ∈ fr, c.isDigit = true) (hex : IsExponent ex) :
    readUnsigned (ip ++ ((if fr = [] then [] else '.' :: fr) ++ ex)) =
      digitsValue (ip ++ fr) * pow10 (-(fr.length : Int)) * exponentValue ex := by
  have hexHead : ex.head?.all (fun c => !c.isDigit) = true := by
    rcases hex with rfl | ⟨sg, d, rfl, _, _⟩
    · rfl
    · rfl
  have hsame : sameLetter 'e' 'e' = true := by decide
  unfold readUnsigned
  by_cases hnil : fr = []
  · subst hnil
    obtain ⟨htake, hdrop⟩ := takeWhile_digits hip.2 hexHead
    rw [if_pos rfl, List.nil_append, htake, hdrop]
    rcases hex with rfl | ⟨sg, d, rfl, rfl | rfl, _⟩
    · exact (mul_one _).symm
    · exact if_pos hsame
    · exact if_pos hsame
  · have hpoint : ('.' :: fr ++ ex).head?.all (fun c => !c.isDigit) = true := rfl
    obtain ⟨htake, hdrop⟩ := takeWhile_digits hip.2 hpoint
    obtain ⟨htake', hdrop'⟩ := takeWhile_digits hfr hexHead
    rw [if_neg hnil, htake, hdrop]
    simp only [List.cons_append, htake', hdrop']
    rcases hex with rfl | ⟨sg, d, rfl, rfl | rfl, _⟩
    · exact (mul_one _).symm
    · exact if_pos hsame
    · exact if_pos hsame

theorem readUnsigned_scientific {ds : Text} (h : AllDigits ds) (e : Int) :
    readUnsigned (scientific ds e) = digitsValue ds * pow10 (e + 1 - ds.length) := by
  obtain ⟨d, r, rfl⟩ := List.exists_cons_of_ne_nil h.1
  have hd : AllDigits [d] := ⟨List.cons_ne_nil _ _, fun c hc => by
    rw [List.mem_singleton.mp hc]
    exact h.2 d List.mem_cons_self⟩
  have hr : ∀ c ∈ r, c.isDigit = true := fun c hc => h.2 c (List.mem_cons_of_mem _ hc)
  have hread := readUnsigned_numeral hd hr (isExponent_exponent e)
  have hshape : scientific (d :: r) e = [d] ++ ((if r = [] then [] else '.' :: r) ++ exponent e) := by
    cases r with
    | nil => rfl
    | cons c r => rfl
  rw [hshape, hread, exponentValue_exponent, mul_assoc, ← pow10_add, List.length_cons]
  push_cast
  congr 2
  omega

theorem readUnsigned_layout {ds : Text} (h : AllDigits ds) (n : Int) :
    readUnsigned (layout ds n) = digitsValue ds * pow10 (n - ds.length) := by
  have hnone : IsExponent [] := Or.inl rfl
  have hsub : ∀ s : Text, s.Sublist ds → ∀ c ∈ s, c.isDigit = true :=
    fun s hs c hc => h.2 c (hs.mem hc)
  unfold layout
  split_ifs with h1 h2 h3
  · have hall : AllDigits (ds ++ zeros (n.toNat - ds.length)) :=
      ⟨by simp [h.1], List.forall_mem_append.mpr ⟨h.2, fun c hc => isDigit_zeros hc⟩⟩
    have hread := readUnsigned_numeral hall (List.forall_mem_nil _) hnone
    simp only [if_true, List.append_nil, List.length_nil] at hread
    rw [hread, digitsValue_append, digitsValue_zeros, length_zeros, exponentValue_nil,
      show n - ds.length = ((n.toNat - ds.length : Nat) : Int) by omega, pow10_natCast]
    push_cast
    rw [show pow10 (-0) = 1 from rfl]
    ring
  · have hlt : n.toNat < ds.length := by omega
    have hip : AllDigits (ds.take n.toNat) := by
      refine ⟨?_, hsub _ (List.take_sublist _ _)⟩
      rw [Ne, List.take_eq_nil_iff, not_or]
      exact ⟨by omega, h.1⟩
    have hne : ds.drop n.toNat ≠ [] := by
      rw [Ne, List.drop_eq_nil_iff]
      omega
    have hread := readUnsigned_numeral hip (hsub _ (List.drop_sublist n.toNat ds)) hnone
    rw [if_neg hne, List.append_nil, List.take_append_drop, exponentValue_nil, mul_one,
      List.length_drop] at hread
    rw [hread]
    congr 2
    omega
  · have hip : AllDigits ['0'] := ⟨List.cons_ne_nil _ _, by decide⟩
    have hfr : ∀ c ∈ zeros (-n).toNat ++ ds, c.isDigit = true :=
      List.forall_mem_append.mpr ⟨fun c hc => isDigit_zeros hc, h.2⟩
    have hread := readUnsigned_numeral hip hfr hnone
    rw [if_neg (by simp [h.1]), List.append_nil, exponentValue_nil, mul_one, digitsValue_append,
      digitsValue_append, digitsValue_zeros, List.length_append, length_zeros] at hread
    refine hread.trans ?_
    rw [show digitsValue ['0'] = 0 from rfl, Nat.mul_zero, Nat.zero_add, Nat.mul_zero, Nat.zero_add]
    congr 2
    push_cast
    omega
  · rw [show n - (ds.length : Int) = n - 1 + 1 - ds.length by omega, ← readUnsigned_scientific h]
    rfl

/-! ## What the printers write -/

/-- An unsigned numeral: digits, a fraction and an exponent. -/
def IsNumeral (s : Text) : Prop :=
  ∃ ip fr ex, s = ip ++ (fr ++ ex) ∧ AllDigits ip ∧ IsFraction fr ∧ IsExponent ex

theorem isNumeral_layout {ds : Text} (h : AllDigits ds) (n : Int) : IsNumeral (layout ds n) :=
  layout_parts h n

theorem isNumeral_printPos (a : Rat) : IsNumeral (printPos a) :=
  isNumeral_layout (allDigits_digits _).stripZeros _

/-- A numeral begins with a digit, so the reader sees no sign. -/
theorem read_numeral {s : Text} (h : IsNumeral s) : read s = readUnsigned s := by
  obtain ⟨ip, fr, ex, rfl, hip, _, _⟩ := h
  obtain ⟨c, r, rfl⟩ := List.exists_cons_of_ne_nil hip.1
  have hc := isDigit_iff.mp (hip.2 c List.mem_cons_self)
  rw [List.cons_append]
  unfold read
  split
  · rename_i heq
    rw [(List.cons.inj heq).1] at hc
    exact absurd hc (by decide)
  · rename_i heq
    rw [(List.cons.inj heq).1] at hc
    exact absurd hc (by decide)
  · rfl

section

variable {a : Rat}

/-- A positive number prints at seventeen significant digits. -/
theorem readUnsigned_printPos (ha : 0 < a) : readUnsigned (printPos a) = roundTo 17 a := by
  obtain ⟨hlow, hhigh⟩ := significant_bounds (p := 17) (by decide) ha
  set m := significant 17 a with hm
  have hdigits : AllDigits (stripZeros (digits m)) := (allDigits_digits m).stripZeros
  have hne : digits m ≠ [] := Nat.toDigits_ne_nil
  obtain ⟨hle, hvalue⟩ := stripZeros_value hne
  rw [digitsValue_digits] at hvalue
  have hprint : printPos a = layout (stripZeros (digits m))
      (pointOf a + ((digits m).length - 17)) := rfl
  rw [hprint, readUnsigned_layout hdigits, roundTo, ← hm]
  conv_rhs => rw [hvalue]
  push_cast
  rw [← pow10_natCast, mul_comm (pow10 _) (digitsValue _ : Rat), mul_assoc, ← pow10_add]
  congr 2
  omega

theorem print_of_pos (ha : 0 < a) : print a = printPos a := by
  rw [print, if_neg ha.ne', if_neg (not_lt.mpr ha.le)]

/-- `toPrecision` of a positive number writes the rounded number. -/
theorem read_printPrecision {p : Nat} (hp : 0 < p) (ha : 0 < a) :
    read (printPrecision p a) = roundTo p a := by
  obtain ⟨hlow, hhigh⟩ := significant_bounds hp ha
  have hprint : printPrecision p a = printDigits p a := by
    rw [printPrecision, if_neg ha.ne', if_neg (not_lt.mpr ha.le)]
  -- both layouts write the digits of `m` at the point `n`
  have hlayouts : ∀ (m : Nat) (n : Int), (digits m).length = p →
      read (if p < n then scientific (digits m) (n - 1) else layout (digits m) n) =
        m * pow10 (n - p) := by
    intro m n hlen
    have hds := allDigits_digits m
    split_ifs
    · have hnumeral : IsNumeral (scientific (digits m) (n - 1)) := by
        unfold scientific
        split
        · rename_i d e r heq
          rw [heq] at hds
          refine ⟨[d], '.' :: e :: r, _, rfl, ⟨List.cons_ne_nil _ _, ?_⟩, Or.inr ⟨_, rfl,
            List.cons_ne_nil _ _, fun c hc => hds.2 c (List.mem_cons_of_mem _ hc)⟩,
            isExponent_exponent _⟩
          exact fun c hc => hds.2 c (by rw [List.mem_singleton.mp hc]; exact List.mem_cons_self)
        · exact ⟨_, [], _, rfl, hds, Or.inl rfl, isExponent_exponent _⟩
      rw [read_numeral hnumeral, readUnsigned_scientific hds, digitsValue_digits, hlen]
      congr 2
      omega
    · rw [read_numeral (isNumeral_layout hds n), readUnsigned_layout hds, digitsValue_digits, hlen]
  rw [hprint, printDigits, roundTo]
  by_cases hcarry : significant p a = 10 ^ p
  · rw [if_pos hcarry]
    refine (hlayouts _ _ (length_digits hp le_rfl ?_)).trans ?_
    · exact Nat.pow_lt_pow_right (by decide) (by omega)
    · rw [hcarry]
      push_cast
      rw [← pow10_natCast, ← pow10_natCast, ← pow10_add, ← pow10_add]
      congr 1
      omega
  · rw [if_neg hcarry]
    exact hlayouts _ _ (length_digits hp hlow (by omega))

end

/-! ## Scanning a numeral -/

theorem spanDigits_append {ds rest : Text} (h : ∀ c ∈ ds, c.isDigit = true)
    (hrest : rest.head?.all (fun c => !c.isDigit) = true) :
    spanDigits (ds ++ rest) = (ds, rest) := by
  obtain ⟨htake, hdrop⟩ := takeWhile_digits h hrest
  rw [spanDigits, List.span_eq_takeWhile_dropWhile, htake, hdrop]

theorem isDigit_false_of_isAlpha {c : Char} (h : c.isAlpha = true) : c.isDigit = false := by
  rw [isAlpha_iff] at h
  rw [Bool.eq_false_iff, Ne, isDigit_iff]
  omega

/-- No digit at the head of letters. -/
theorem head_letters {rest : Text} (h : ∀ c ∈ rest, c.isAlpha = true) :
    rest.head?.all (fun c => !c.isDigit) = true := by
  cases rest with
  | nil => rfl
  | cons c r =>
    have := isDigit_false_of_isAlpha (h c List.mem_cons_self)
    simp [this]

/-- Text in front of which the scanner stops behind every numeral. -/
structure EndsNumber (rest : Text) : Prop where
  digit : rest.head?.all (fun c => !c.isDigit) = true
  point : rest.head? ≠ some '.'
  exponent : spanExponent rest = ([], rest)

theorem spanExponent_letters {rest : Text} (h : ∀ c ∈ rest, c.isAlpha = true) :
    spanExponent rest = ([], rest) := by
  cases rest with
  | nil => rfl
  | cons e r =>
    rw [List.forall_mem_cons] at h
    have hr : spanDigits r = ([], r) := spanDigits_append (List.forall_mem_nil _) (head_letters h.2)
    have hsign : ∀ c ∈ r, c ≠ '+' ∧ c ≠ '-' := by
      intro c hc
      have := h.2 c hc
      constructor
      · rintro rfl
        exact absurd this (by decide)
      · rintro rfl
        exact absurd this (by decide)
    unfold spanExponent
    dsimp only
    split_ifs
    · split
      · rfl
      · rename_i ds r' hds heq
        exfalso
        have hspan : spanDigits r = (ds, r') := by
          split at heq
          · exact absurd rfl (hsign '+' List.mem_cons_self).1
          · exact absurd rfl (hsign '-' List.mem_cons_self).2
          · exact heq
        rw [hr] at hspan
        exact hds (Prod.mk.inj hspan).1.symm
    · rfl

/-- The digits, the point and the digits behind it. -/
theorem spanMantissa_numeral {ip fr rest : Text} (hip : AllDigits ip) (hfr : IsFraction fr)
    (hrest : rest.head?.all (fun c => !c.isDigit) = true)
    (hdot : rest.head? ≠ some '.') :
    spanMantissa (ip ++ (fr ++ rest)) = some (ip ++ fr, rest) := by
  unfold spanMantissa
  rcases hfr with rfl | ⟨f, rfl, hf⟩
  · rw [List.nil_append, List.append_nil, spanDigits_append hip.2 hrest]
    dsimp only
    split
    · rename_i heq
      split at heq
      · exact absurd rfl hdot
      · rw [if_neg hip.1]
    · rename_i ds r hds heq
      split at heq
      · exact absurd rfl hdot
      · exact absurd (Prod.mk.inj heq).1.symm hds
  · have hpoint : ('.' :: f ++ rest).head?.all (fun c => !c.isDigit) = true := rfl
    rw [spanDigits_append hip.2 hpoint]
    simp only [List.cons_append, spanDigits_append hf.2 hrest]
    split
    · rename_i heq
      exact absurd (Prod.mk.inj heq).1 hf.1
    · rename_i ds r hds heq
      obtain ⟨rfl, rfl⟩ := Prod.mk.inj heq
      rfl

theorem endsNumber_letters {rest : Text} (h : ∀ c ∈ rest, c.isAlpha = true) : EndsNumber rest where
  digit := head_letters h
  point hc := absurd (h '.' (List.mem_of_mem_head? hc)) (by decide)
  exponent := spanExponent_letters h

/-- A numeral is scanned as a whole. -/
theorem spanNumber_numeral {sg s rest : Text} (hsg : sg = [] ∨ sg = ['-']) (hs : IsNumeral s)
    (h : EndsNumber rest) : spanNumber (sg ++ s ++ rest) = some (sg ++ s, rest) := by
  obtain ⟨ip, fr, ex, rfl, hip, hfr, hex⟩ := hs
  have hexRest : spanExponent (ex ++ rest) = (ex, rest) := by
    rcases hex with rfl | ⟨sgn, d, rfl, hsgn, hd⟩
    · exact h.exponent
    · obtain ⟨c, r, rfl⟩ := List.exists_cons_of_ne_nil hd.1
      have hspan := spanDigits_append hd.2 h.digit
      have he : ('e' == 'e' || 'e' == 'E') = true := by decide
      rw [List.cons_append] at hspan
      rcases hsgn with rfl | rfl
      · change spanExponent ('e' :: '+' :: (c :: r ++ rest)) = _
        simp only [spanExponent, he, if_true, hspan, List.cons_append, List.nil_append]
      · change spanExponent ('e' :: '-' :: (c :: r ++ rest)) = _
        simp only [spanExponent, he, if_true, hspan, List.cons_append, List.nil_append]
  have hhead : (ex ++ rest).head?.all (fun c => !c.isDigit) = true ∧
      (ex ++ rest).head? ≠ some '.' := by
    rcases hex with rfl | ⟨sgn, d, rfl, _, _⟩
    · exact ⟨h.digit, h.point⟩
    · exact ⟨rfl, by simp⟩
  have hmantissa := spanMantissa_numeral hip hfr hhead.1 hhead.2
  have hbody : ip ++ (fr ++ ex) ++ rest = ip ++ (fr ++ (ex ++ rest)) := by
    simp only [List.append_assoc]
  obtain ⟨c, r, rfl⟩ := List.exists_cons_of_ne_nil hip.1
  have hc := isDigit_iff.mp (hip.2 c List.mem_cons_self)
  have hsign : c ≠ '+' ∧ c ≠ '-' := by
    constructor
    · rintro rfl
      exact absurd hc (by decide)
    · rintro rfl
      exact absurd hc (by decide)
  rcases hsg with rfl | rfl
  · rw [List.nil_append, hbody]
    simp only [List.cons_append] at hmantissa ⊢
    unfold spanNumber
    split
    rename_i sign t heq
    have hunsigned : sign = [] ∧ t = c :: (r ++ (fr ++ (ex ++ rest))) := by
      split at heq
      · rename_i hplus
        exact absurd (List.cons.inj hplus).1 hsign.1
      · rename_i hminus
        exact absurd (List.cons.inj hminus).1 hsign.2
      · exact ⟨(Prod.mk.inj heq).1.symm, (Prod.mk.inj heq).2.symm⟩
    rw [hunsigned.1, hunsigned.2, hmantissa]
    dsimp only
    rw [hexRest]
    simp only [List.nil_append, List.cons_append, List.append_assoc]
  · rw [List.append_assoc, hbody]
    simp only [List.cons_append, List.nil_append] at hmantissa ⊢
    simp only [spanNumber, hmantissa, hexRest, List.cons_append, List.nil_append,
      List.append_assoc]

end Exact
end Js
