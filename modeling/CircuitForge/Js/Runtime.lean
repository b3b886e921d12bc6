/-
The parts of the JavaScript runtime that follow tables or IEEE arithmetic.

Case conversion beyond ASCII follows the Unicode tables of the engine, and a
`number` is a double.  Both are parameters: a `Runtime` supplies them together
with the documented facts the development relies on, and every result holds for
every runtime.
-/
import CircuitForge.Js.Regex

namespace Js

/-- ASCII characters that are neither letters nor case-ignorable in the sense of
the Unicode default case conversion. -/
def isCaseSeparator (c : Char) : Bool :=
  isAscii c && !c.isAlpha && !"'.:^`".toList.contains c

/-- `Number.prototype.toString` of a finite number: `-?\d+(\.\d+)?(e[+-]\d+)?`. -/
def numeralRe : Re :=
  .seq (.opt (.char '-')) <| .seq (.plus .digit) <|
    .seq (.opt (.seq (.char '.') (.plus .digit))) <|
      .opt (.seq (.char 'e') (.seq (.alt (.char '+') (.char '-')) (.plus .digit)))

class Runtime where
  /-- `String.prototype.toLowerCase`. -/
  lower : Text → Text
  /-- `String.prototype.toUpperCase`. -/
  upper : Text → Text
  /-- The type `number`. -/
  Num : Type
  /-- The numeric literal `m` times ten to the `e`. -/
  lit : Int → Int → Num
  add : Num → Num → Num
  sub : Num → Num → Num
  mul : Num → Num → Num
  div : Num → Num → Num
  /-- `a < b`. -/
  lt : Num → Num → Bool
  /-- `a === b`. -/
  eq : Num → Num → Bool
  /-- `Number.isFinite`. -/
  isFinite : Num → Bool
  /-- `Number.isInteger`. -/
  isInteger : Num → Bool
  /-- `Math.floor`. -/
  floor : Num → Num
  /-- `Math.log10`. -/
  log10 : Num → Num
  /-- `10 ** n`. -/
  exp10 : Num → Num
  /-- `Number(s)` and `parseFloat(s)`, called on decimal literals only. -/
  ofText : Text → Num
  /-- `String(n)`. -/
  toText : Num → Text
  /-- `n.toFixed(k)`. -/
  toFixed : Nat → Num → Text
  /-- `n.toPrecision(k)`. -/
  toPrecision : Nat → Num → Text
  lower_ascii : ∀ s, (∀ c ∈ s, isAscii c = true) → lower s = asciiLower s
  upper_ascii : ∀ s, (∀ c ∈ s, isAscii c = true) → upper s = asciiUpper s
  /-- Case conversion looks at neighbouring letters only, and only past
  case-ignorable characters. -/
  lower_separator : ∀ a c b, isCaseSeparator c = true →
    lower (a ++ c :: b) = lower a ++ c :: lower b
  /-- Only `A`–`Z` and the Kelvin sign have an ASCII lower case. -/
  lower_to_ascii : ∀ s, (∀ c ∈ lower s, isAscii c = true) →
    lower s = s.map fun c => if c.toNat = 0x212a then 'k' else c.toLower
  toText_spec : ∀ n, (isFinite n = true ∧ numeralRe.accepts (toText n) = true) ∨
    (isFinite n = false ∧
      toText n ∈ ["NaN".toList, "Infinity".toList, "-Infinity".toList])

namespace Runtime

variable [Runtime]

/-- `a <= b`. -/
def le (a b : Num) : Bool := lt a b || eq a b

def isNaN (a : Num) : Bool := !eq a a

/-- `Math.abs`. -/
def abs (a : Num) : Num := if lt a (lit 0 0) then sub (lit 0 0) a else a

/-- `Math.max(a, b)` of two numbers. -/
def max (a b : Num) : Num := if lt a b then b else a

/-- `Math.min(a, b)` of two numbers. -/
def min (a b : Num) : Num := if lt b a then b else a

/-- Characters of `String(n)`. -/
def numeralChar (c : Char) : Bool := c.isDigit || "-+.eINafinty".toList.contains c

theorem toText_ne_nil (n : Num) : toText n ≠ [] := by
  rcases toText_spec n with h | h
  · exact Re.ne_nil_of_accepts (by decide) h.2
  · rintro he
    rw [he] at h
    exact absurd h.2 (by decide)

omit [Runtime] in
theorem numeralChar_of_chars {c : Char} (h : numeralRe.chars c = true) :
    numeralChar c = true := by
  simp only [numeralRe, Re.opt, Re.plus, Re.char, Re.digit, Re.chars, Bool.or_eq_true,
    Bool.false_or, beq_iff_eq] at h
  rw [numeralChar, Bool.or_eq_true]
  rcases h with rfl | (h | h) | (rfl | h | h) | rfl | (rfl | rfl) | h | h
  all_goals first
    | exact Or.inl h
    | exact Or.inr (by decide)

theorem numeralChar_toText {n : Num} {c : Char} (hc : c ∈ toText n) : numeralChar c = true := by
  rcases toText_spec n with h | h
  · exact numeralChar_of_chars (Re.chars_of_accepts h.2 hc)
  · have hall : ∀ t ∈ ["NaN".toList, "Infinity".toList, "-Infinity".toList],
        ∀ c ∈ t, numeralChar c = true := by decide
    exact hall _ h.2 c hc

omit [Runtime] in
theorem isSpace_of_numeralChar {c : Char} (h : numeralChar c = true) : isSpace c = false := by
  rw [numeralChar, Bool.or_eq_true, isDigit_iff] at h
  rcases h with h | h
  · apply isSpace_eq_false_of_isWord
    rw [isWord_iff]
    omega
  · have hall : ∀ c ∈ "-+.eINafinty".toList, isSpace c = false := by decide
    exact hall c (List.contains_iff_mem.mp h)

theorem solid_toText (n : Num) : Solid (toText n) :=
  fun _ hc => isSpace_of_numeralChar (numeralChar_toText hc)

theorem lower_of_isWord {s : Text} (h : ∀ c ∈ s, isWord c = true) : lower s = asciiLower s :=
  lower_ascii s fun c hc => isAscii_of_isWord (h c hc)

end Runtime

end Js
