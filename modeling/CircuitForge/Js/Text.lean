/-
Strings of the JavaScript runtime as lists of characters.

A `Text` holds one `Char` for each UTF-16 code unit.  A unit of the surrogate
range, which `Char` excludes, stands as the character `0x10000` above it, so
that every string of the runtime is a `Text` and distinct strings stay distinct.
None of the classes below contains a character outside the basic plane, so the
shift is never observed.
-/
import Mathlib.Data.List.DropRight
import Mathlib.Tactic.Common

namespace Js

abbrev Text := List Char

instance : LawfulBEq Text := inferInstanceAs (LawfulBEq (List Char))

/-- A property of all characters of a text is decided along the text. -/
instance decidableAllChars (s : Text) (p : Char → Prop) [DecidablePred p] :
    Decidable (∀ c ∈ s, p c) := List.decidableBAll p s

instance decidableAnyChar (s : Text) (p : Char → Prop) [DecidablePred p] :
    Decidable (∃ c ∈ s, p c) := List.decidableBEx p s

/-! ## Character classes -/

/-- `\s`, which is also what `trim` removes. -/
def isSpace (c : Char) : Bool :=
  (9 ≤ c.toNat && c.toNat ≤ 13) || c.toNat == 32 || c.toNat == 0xa0 || c.toNat == 0x1680 ||
    (0x2000 ≤ c.toNat && c.toNat ≤ 0x200a) || c.toNat == 0x2028 || c.toNat == 0x2029 ||
    c.toNat == 0x202f || c.toNat == 0x205f || c.toNat == 0x3000 || c.toNat == 0xfeff

/-- `\w`, which also decides the word boundary `\b`. -/
def isWord (c : Char) : Bool := c.isAlphanum || c == '_'

def isLineBreak (c : Char) : Bool := c == '\n' || c == '\r'

def isAscii (c : Char) : Bool := c.toNat < 128

/-- A letter of an `/i` pattern: the code unit itself or its other ASCII case. -/
def sameLetter (a c : Char) : Bool := c.toLower == a.toLower

theorem isAlpha_iff {c : Char} :
    c.isAlpha = true ↔ (65 ≤ c.toNat ∧ c.toNat ≤ 90) ∨ (97 ≤ c.toNat ∧ c.toNat ≤ 122) := by
  change (decide (c.val ≥ 'A'.val ∧ c.val ≤ 'Z'.val) ||
    (decide (c.val ≥ 'a'.val) && decide (c.val ≤ 'z'.val))) = true ↔ _
  rw [Bool.or_eq_true, Bool.and_eq_true, decide_eq_true_iff]
  simp [UInt32.le_iff_toNat_le]

theorem isDigit_iff {c : Char} : c.isDigit = true ↔ 48 ≤ c.toNat ∧ c.toNat ≤ 57 := by
  simp [Char.isDigit, UInt32.le_iff_toNat_le]

theorem isAlphanum_iff {c : Char} :
    c.isAlphanum = true ↔ (65 ≤ c.toNat ∧ c.toNat ≤ 90) ∨ (97 ≤ c.toNat ∧ c.toNat ≤ 122) ∨
      (48 ≤ c.toNat ∧ c.toNat ≤ 57) := by
  rw [Char.isAlphanum, Bool.or_eq_true, isAlpha_iff, isDigit_iff, or_assoc]

theorem eq_iff_toNat {c d : Char} : c = d ↔ c.toNat = d.toNat := Char.toNat_inj.symm

theorem isWord_iff {c : Char} :
    isWord c = true ↔ (65 ≤ c.toNat ∧ c.toNat ≤ 90) ∨ (97 ≤ c.toNat ∧ c.toNat ≤ 122) ∨
      (48 ≤ c.toNat ∧ c.toNat ≤ 57) ∨ c.toNat = 95 := by
  rw [isWord, Bool.or_eq_true, isAlphanum_iff, beq_iff_eq, eq_iff_toNat]
  constructor
  · rintro ((h | h | h) | h)
    · exact Or.inl h
    · exact Or.inr (Or.inl h)
    · exact Or.inr (Or.inr (Or.inl h))
    · exact Or.inr (Or.inr (Or.inr h))
  · rintro (h | h | h | h)
    · exact Or.inl (Or.inl h)
    · exact Or.inl (Or.inr (Or.inl h))
    · exact Or.inl (Or.inr (Or.inr h))
    · exact Or.inr h

theorem isSpace_of_isLineBreak {c : Char} (h : isLineBreak c = true) : isSpace c = true := by
  simp only [isLineBreak, Bool.or_eq_true, beq_iff_eq] at h
  rcases h with rfl | rfl <;> decide

theorem isSpace_eq_false_of_isWord {c : Char} (h : isWord c = true) : isSpace c = false := by
  rw [isWord_iff] at h
  simp only [isSpace, Bool.or_eq_false_iff, Bool.and_eq_false_iff, decide_eq_false_iff_not,
    beq_eq_false_iff_ne, ne_eq]
  omega

theorem isAscii_of_isWord {c : Char} (h : isWord c = true) : isAscii c = true := by
  rw [isWord_iff] at h
  simp only [isAscii, decide_eq_true_eq]
  omega

theorem toNat_toLower (c : Char) :
    c.toLower.toNat = if 65 ≤ c.toNat ∧ c.toNat ≤ 90 then c.toNat + 32 else c.toNat := by
  unfold Char.toLower
  by_cases h : c.val ≥ 'A'.val ∧ c.val ≤ 'Z'.val
  · have h' : 65 ≤ c.toNat ∧ c.toNat ≤ 90 := by
      simpa [UInt32.le_iff_toNat_le] using h
    rw [dif_pos h, if_pos h']
    show (c.val + ('a'.val - 'A'.val)).toNat = c.toNat + 32
    rw [UInt32.toNat_add]
    have : c.val.toNat = c.toNat := rfl
    have h32 : ('a'.val - 'A'.val).toNat = 32 := by decide
    omega
  · have h' : ¬ (65 ≤ c.toNat ∧ c.toNat ≤ 90) := by
      simpa [UInt32.le_iff_toNat_le] using h
    rw [dif_neg h, if_neg h']

theorem toLower_toLower (c : Char) : c.toLower.toLower = c.toLower := by
  rw [eq_iff_toNat, toNat_toLower c.toLower, toNat_toLower c]
  split_ifs <;> omega

theorem isWord_toLower {c : Char} (h : isWord c = true) : isWord c.toLower = true := by
  rw [isWord_iff] at h ⊢
  rw [toNat_toLower]
  split_ifs <;> omega

theorem isUpper_iff {c : Char} : c.isUpper = true ↔ 65 ≤ c.toNat ∧ c.toNat ≤ 90 := by
  change decide (c.val ≥ 'A'.val ∧ c.val ≤ 'Z'.val) = true ↔ _
  rw [decide_eq_true_iff]
  simp [UInt32.le_iff_toNat_le]

theorem toNat_toUpper (c : Char) :
    c.toUpper.toNat = if 97 ≤ c.toNat ∧ c.toNat ≤ 122 then c.toNat - 32 else c.toNat := by
  unfold Char.toUpper
  by_cases h : c.val ≥ 'a'.val ∧ c.val ≤ 'z'.val
  · have h' : 97 ≤ c.toNat ∧ c.toNat ≤ 122 := by
      simpa [UInt32.le_iff_toNat_le] using h
    rw [dif_pos h, if_pos h']
    show (c.val + ('A'.val - 'a'.val)).toNat = c.toNat - 32
    rw [UInt32.toNat_add]
    have : c.val.toNat = c.toNat := rfl
    have h32 : ('A'.val - 'a'.val).toNat = 2 ^ 32 - 32 := by decide
    omega
  · have h' : ¬ (97 ≤ c.toNat ∧ c.toNat ≤ 122) := by
      simpa [UInt32.le_iff_toNat_le] using h
    rw [dif_neg h, if_neg h']

theorem isUpper_toUpper {c : Char} (h : c.isAlpha = true) : c.toUpper.isUpper = true := by
  rw [isAlpha_iff] at h
  rw [isUpper_iff, toNat_toUpper]
  split_ifs <;> omega

theorem toUpper_of_isUpper {c : Char} (h : c.isUpper = true) : c.toUpper = c := by
  rw [isUpper_iff] at h
  rw [eq_iff_toNat, toNat_toUpper, if_neg (by omega)]

/-! ## Whole strings -/

def trimStart (s : Text) : Text := s.dropWhile isSpace

def trimEnd (s : Text) : Text := s.rdropWhile isSpace

/-- `String.prototype.trim`. -/
def trim (s : Text) : Text := trimEnd (trimStart s)

/-- `s.startsWith(p)`. -/
def startsWith (s p : Text) : Bool := p.isPrefixOf s

/-- `s.includes(p)`. -/
def includes (s p : Text) : Bool := s.tails.any p.isPrefixOf

/-- `xs.join(sep)`. -/
def join (sep : Text) (xs : List Text) : Text := sep.intercalate xs

/-- `s.split('\n')`. -/
def splitLines (s : Text) : List Text := s.splitOn '\n'

/-- `s.split(/\s+/)`: the pieces between the maximal runs of blanks, an empty
one in front of a leading run and behind a trailing one. -/
def splitBlanks : Text → List Text
  | [] => [[]]
  | c :: s =>
    if isSpace c then
      if s.head?.any isSpace then splitBlanks s else [] :: splitBlanks s
    else (splitBlanks s).modifyHead (c :: ·)

/-- `s.split(/\s+/)[0]`. -/
def firstToken (s : Text) : Text := s.takeWhile (fun c => !isSpace c)

/-- `s.toLowerCase()` of ASCII text. -/
def asciiLower (s : Text) : Text := s.map Char.toLower

theorem asciiLower_digits (n : Nat) : asciiLower (Nat.toDigits 10 n) = Nat.toDigits 10 n := by
  rw [asciiLower]
  refine (List.map_congr_left fun c hc => ?_).trans (List.map_id _)
  have hd := isDigit_iff.mp (Nat.isDigit_of_mem_toDigits (by decide) (by decide) hc)
  rw [id, eq_iff_toNat, toNat_toLower, if_neg (by omega)]

/-- `s.toUpperCase()` of ASCII text. -/
def asciiUpper (s : Text) : Text := s.map Char.toUpper

/-- `/^p/i` for a literal `p`. -/
def startsWithI (s p : Text) : Bool := startsWith (asciiLower s) (asciiLower p)

/-- `/\bp\b/i.test(s)` for a literal word `p`; the first argument says whether
the character before `s` is a word character. -/
def hasWordI (p : Text) : Bool → Text → Bool
  | _, [] => false
  | prev, c :: s =>
    (!prev && startsWithI (c :: s) p && !((c :: s).drop p.length).head?.any isWord) ||
      hasWordI p (isWord c) s

/-- The value a JavaScript condition accepts of an optional string: `undefined`
and `''` are both false. -/
def truthy : Option Text → Option Text
  | some (c :: s) => some (c :: s)
  | _ => none

theorem truthy_eq_some {v : Option Text} {s : Text} : truthy v = some s ↔ v = some s ∧ s ≠ [] := by
  match v with
  | none => simp [truthy]
  | some [] => simp [truthy, eq_comm]
  | some (c :: r) =>
    simp only [truthy, Option.some.injEq]
    constructor
    · rintro rfl
      exact ⟨rfl, List.cons_ne_nil c r⟩
    · exact fun h => h.1

theorem truthy_eq_none {v : Option Text} : truthy v = none ↔ v = none ∨ v = some [] := by
  match v with
  | none => simp [truthy]
  | some [] => simp [truthy]
  | some (c :: r) => simp [truthy]

@[simp] theorem startsWith_nil (p : Char) (ps : Text) : startsWith [] (p :: ps) = false := rfl

@[simp] theorem startsWith_char (c p : Char) (s : Text) : startsWith (c :: s) [p] = (p == c) := by
  simp [startsWith, List.isPrefixOf]

/-! ## Blanks, tokens and line breaks -/

/-- A string without blanks. -/
def Solid (s : Text) : Prop := ∀ c ∈ s, isSpace c = false

/-- A token: blank-free and not empty. -/
def IsToken (s : Text) : Prop := s ≠ [] ∧ Solid s

def NoLineBreak (s : Text) : Prop := ∀ c ∈ s, isLineBreak c = false

instance (s : Text) : Decidable (Solid s) := inferInstanceAs (Decidable (∀ c ∈ s, isSpace c = false))
instance (s : Text) : Decidable (IsToken s) := inferInstanceAs (Decidable (s ≠ [] ∧ Solid s))
instance (s : Text) : Decidable (NoLineBreak s) :=
  inferInstanceAs (Decidable (∀ c ∈ s, isLineBreak c = false))

theorem solid_of_isWord {s : Text} (h : ∀ c ∈ s, isWord c = true) : Solid s :=
  fun c hc => isSpace_eq_false_of_isWord (h c hc)

@[simp] theorem solid_nil : Solid [] := fun _ h => absurd h (List.not_mem_nil)

@[simp] theorem solid_cons {c : Char} {s : Text} :
    Solid (c :: s) ↔ isSpace c = false ∧ Solid s := List.forall_mem_cons

@[simp] theorem solid_append {a b : Text} : Solid (a ++ b) ↔ Solid a ∧ Solid b :=
  List.forall_mem_append

@[simp] theorem noLineBreak_nil : NoLineBreak [] := fun _ h => absurd h (List.not_mem_nil)

@[simp] theorem noLineBreak_cons {c : Char} {s : Text} :
    NoLineBreak (c :: s) ↔ isLineBreak c = false ∧ NoLineBreak s := List.forall_mem_cons

@[simp] theorem noLineBreak_append {a b : Text} :
    NoLineBreak (a ++ b) ↔ NoLineBreak a ∧ NoLineBreak b := List.forall_mem_append

/-- Characters of an intercalation come from its parts or from the separator. -/
theorem mem_join {sep : Text} {xs : List Text} {c : Char} (h : c ∈ join sep xs) :
    c ∈ sep ∨ ∃ x ∈ xs, c ∈ x := by
  induction xs with
  | nil => simp [join] at h
  | cons x rest ih =>
    cases rest with
    | nil => exact Or.inr ⟨x, List.mem_singleton.mpr rfl, by simpa [join] using h⟩
    | cons y rest =>
      rw [join, List.intercalate_cons_cons, List.append_assoc] at h
      simp only [List.mem_append] at h
      rcases h with h | h | h
      · exact Or.inr ⟨x, List.mem_cons_self, h⟩
      · exact Or.inl h
      · rcases ih h with h | ⟨z, hz, hc⟩
        · exact Or.inl h
        · exact Or.inr ⟨z, List.mem_cons_of_mem _ hz, hc⟩

@[simp] theorem join_nil (sep : Text) : join sep [] = [] := by simp [join]

@[simp] theorem join_singleton (sep x : Text) : join sep [x] = x := by simp [join]

theorem join_cons_cons (sep x y : Text) (xs : List Text) :
    join sep (x :: y :: xs) = x ++ (sep ++ join sep (y :: xs)) := by
  rw [join, List.intercalate_cons_cons, List.append_assoc, join]

/-! ## Lines -/

theorem newline_notMem_of_mem_splitLines {s l : Text} (h : l ∈ splitLines s) : '\n' ∉ l := by
  induction s generalizing l with
  | nil =>
    have : l = [] := by simpa [splitLines] using h
    simp [this]
  | cons c s ih =>
    rw [splitLines, List.splitOn_cons_eq_if_modifyHead] at h
    by_cases hc : c = '\n'
    · rw [if_pos (by simp [hc]), List.mem_cons] at h
      rcases h with rfl | h
      · exact List.not_mem_nil
      · exact ih h
    · rw [if_neg (by simp [hc])] at h
      cases hs : s.splitOn '\n' with
      | nil => exact absurd hs (List.splitOn_ne_nil _ _)
      | cons t ts =>
        rw [hs, List.modifyHead_cons, List.mem_cons] at h
        rw [splitLines, hs] at ih
        rcases h with rfl | h
        · rw [List.mem_cons, not_or]
          exact ⟨fun e => hc e.symm, ih List.mem_cons_self⟩
        · exact ih (List.mem_cons_of_mem _ h)

/-- Lines joined and split again. -/
theorem splitLines_join {ls : List Text} (h : ∀ l ∈ ls, '\n' ∉ l) (hne : ls ≠ []) :
    splitLines (join "\n".toList ls) = ls :=
  List.splitOn_intercalate '\n' h hne

theorem splitLines_ne_nil (s : Text) : splitLines s ≠ [] := List.splitOn_ne_nil _ _

theorem mem_of_mem_trim {s : Text} {c : Char} (h : c ∈ trim s) : c ∈ s :=
  (List.dropWhile_sublist isSpace).mem ((List.rdropWhile_prefix isSpace _).sublist.mem h)

end Js
