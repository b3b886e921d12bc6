/-
Legal node names.

A name is legal when it is a word with the node prefix that is neither reserved nor an operator
token, whatever the case of its letters.  The reserved words are looked at before the prefix `n` is
put on, and the prefix makes one of them out of `one`.
-/
import CircuitForge.Netlist.Names

namespace CircuitForge

open Js

/-- What a node of the deck may be called. -/
structure LegalName (s : Text) : Prop where
  ne_nil : s ≠ []
  word : ∀ c ∈ s, isWord c = true
  nodePrefix : HasNodePrefix s
  unreserved : asciiLower s ∉ reservedWords
  noOperator : asciiLower s ∉ ngspiceOperators

instance (s : Text) : Decidable (HasNodePrefix s) := decidable_of_iff _ hasNodePrefix_iff.symm

/-! ## Rules that do not apply -/

theorem wordChars_of_isWord {s : Text} (h : ∀ c ∈ s, isWord c = true) : wordChars s = s :=
  (List.map_congr_left fun c hc => if_pos (h c hc)).trans (List.map_id s)

theorem HasNodePrefix.escapeDigit {s : Text} (h : HasNodePrefix s) : escapeDigit s = s := by
  obtain ⟨r, rfl | rfl⟩ := h <;> rfl

theorem HasNodePrefix.addNodePrefix {s : Text} (h : HasNodePrefix s) : addNodePrefix s = s := by
  have hstarts := hasNodePrefix_iff.mp h
  rw [CircuitForge.addNodePrefix, ← Bool.not_or, hstarts]
  rfl

/-- A legal name is kept. -/
theorem LegalName.sanitizeNodeName {s : Text} (h : LegalName s) : sanitizeNodeName s = s := by
  rw [CircuitForge.sanitizeNodeName, wordChars_of_isWord h.word, h.nodePrefix.escapeDigit,
    escapeReserved, if_neg h.unreserved, escapeEmpty, if_neg h.ne_nil, h.nodePrefix.addNodePrefix,
    escapeOperator, if_neg h.noOperator]

/-! ## Prefixed words -/

/-- No reserved word and no operator token starts with `x_`. -/
theorem notMem_of_x (s : Text) :
    asciiLower ("x_".toList ++ s) ∉ reservedWords ∧
      asciiLower ("x_".toList ++ s) ∉ ngspiceOperators := by
  have hall : ∀ w ∈ reservedWords ++ ngspiceOperators, ¬ ['x', '_'] <+: w := by decide
  have hx : ['x', '_'] <+: asciiLower ("x_".toList ++ s) := ⟨asciiLower s, rfl⟩
  rw [← not_or, ← List.mem_append]
  exact fun hmem => hall _ hmem hx

/-- The one reserved word that starts with `n`. -/
theorem mem_reservedWords_of_n (s : Text) :
    asciiLower ('n' :: s) ∈ reservedWords ↔ asciiLower s = "one".toList := by
  have hall : ∀ w ∈ reservedWords, w.head? = some 'n' → w = "none".toList := by decide
  constructor
  · intro hmem
    have hnone : asciiLower ('n' :: s) = "none".toList := hall _ hmem rfl
    exact (List.cons.inj hnone).2
  · intro hone
    have hnone : asciiLower ('n' :: s) = 'n' :: "one".toList := congrArg ('n' :: ·) hone
    rw [hnone]
    decide

/-- A name that no rule has prefixed yet, once the prefix `n` is put on. -/
theorem reserved_addNodePrefix {s : Text} (h : asciiLower s ∉ reservedWords) :
    asciiLower (addNodePrefix s) ∈ reservedWords ↔ asciiLower s = "one".toList := by
  by_cases hmarked : HasNodePrefix s
  · rw [hmarked.addNodePrefix]
    refine iff_of_false h fun hone => ?_
    obtain ⟨r, rfl | rfl⟩ := hmarked
    · exact absurd (List.cons.inj hone).1 (by decide)
    · exact absurd (List.cons.inj hone).1 (by decide)
  · have hstarts : (startsWith s "n".toList || startsWith s "x_".toList) = false :=
      Bool.eq_false_iff.mpr fun ht => hmarked (hasNodePrefix_iff.mpr ht)
    rw [Bool.or_eq_false_iff] at hstarts
    rw [addNodePrefix, hstarts.1, hstarts.2]
    exact mem_reservedWords_of_n s

/-! ## Names that become `one` -/

theorem toLower_wordChar {c d : Char} (hd : isWord d = true) (hne : d ≠ '_') :
    (if isWord c then c else '_').toLower = d ↔ c.toLower = d := by
  by_cases hc : isWord c = true
  · rw [if_pos hc]
  · rw [if_neg hc]
    refine iff_of_false (fun he => hne (he.symm.trans (by decide))) fun he => hc ?_
    rw [← he, isWord_iff, toNat_toLower] at hd
    rw [isWord_iff]
    split at hd <;> omega

/-- A word without underscores is spelt as before the special characters went. -/
theorem asciiLower_wordChars_eq_iff {w : Text} (hw : ∀ d ∈ w, isWord d = true ∧ d ≠ '_')
    (name : Text) : asciiLower (wordChars name) = w ↔ asciiLower name = w := by
  induction name generalizing w with
  | nil => rfl
  | cons c name ih =>
    cases w with
    | nil => exact iff_of_false (List.cons_ne_nil _ _) (List.cons_ne_nil _ _)
    | cons d w =>
      rw [List.forall_mem_cons] at hw
      show (if isWord c then c else '_').toLower :: asciiLower (wordChars name) = d :: w ↔
        c.toLower :: asciiLower name = d :: w
      rw [List.cons.injEq, List.cons.injEq, toLower_wordChar hw.1.1 hw.1.2, ih hw.2]

theorem escapeDigit_eq_one (name : Text) :
    asciiLower (escapeDigit (wordChars name)) = "one".toList ↔ asciiLower name = "one".toList := by
  rw [← asciiLower_wordChars_eq_iff (w := "one".toList) (by decide) name]
  unfold escapeDigit
  split_ifs with hdigit
  · refine iff_of_false (fun he => absurd (List.cons.inj he).1 (by decide)) fun he => ?_
    -- a digit is no letter
    cases hname : wordChars name with
    | nil => rw [hname] at hdigit; cases hdigit
    | cons c s =>
      rw [hname] at hdigit he
      have hc : c.toLower = 'o' := (List.cons.inj he).1
      have hcode := congrArg Char.toNat hc
      rw [toNat_toLower] at hcode
      have hdig := isDigit_iff.mp hdigit
      have ho : 'o'.toNat = 111 := rfl
      split at hcode <;> omega
  · rfl

/-! ## Every name -/

theorem unreserved_sanitizeNodeName (name : Text) :
    asciiLower (sanitizeNodeName name) ∉ reservedWords ↔ asciiLower name ≠ "one".toList := by
  rw [← not_iff_not, not_not, ne_eq, not_not, ← escapeDigit_eq_one name, sanitizeNodeName]
  set s := escapeDigit (wordChars name) with hs
  by_cases hreserved : asciiLower s ∈ reservedWords
  · have hx : HasNodePrefix ("x_".toList ++ s) := ⟨s, Or.inr rfl⟩
    rw [escapeReserved, if_pos hreserved, escapeEmpty, if_neg hx.ne_nil, hx.addNodePrefix,
      escapeOperator, if_neg (notMem_of_x s).2]
    refine iff_of_false (notMem_of_x s).1 fun hone => ?_
    rw [hone] at hreserved
    exact absurd hreserved (by decide)
  · rw [escapeReserved, if_neg hreserved]
    by_cases hnil : s = []
    · rw [hnil]
      decide
    · rw [escapeEmpty, if_neg hnil, escapeOperator]
      split_ifs with hoperator
      · refine iff_of_false (notMem_of_x _).1 fun hone => ?_
        -- the name would be reserved, and no operator token is
        have hmem := (reserved_addNodePrefix hreserved).mpr hone
        have hall : ∀ w ∈ reservedWords, w ∉ ngspiceOperators := by decide
        exact hall _ hmem hoperator
      · exact reserved_addNodePrefix hreserved

theorem noOperator_sanitizeNodeName (name : Text) :
    asciiLower (sanitizeNodeName name) ∉ ngspiceOperators := by
  unfold sanitizeNodeName escapeOperator
  split_ifs with hoperator
  · exact (notMem_of_x _).2
  · exact hoperator

theorem legalName_sanitizeNodeName {name : Text} (h : asciiLower name ≠ "one".toList) :
    LegalName (sanitizeNodeName name) where
  ne_nil := (hasNodePrefix_sanitizeNodeName name).ne_nil
  word := isWord_sanitizeNodeName name
  nodePrefix := hasNodePrefix_sanitizeNodeName name
  unreserved := (unreserved_sanitizeNodeName name).mpr h
  noOperator := noOperator_sanitizeNodeName name

/-- A node name is legal and stable, except for that of a net called `one`. -/
theorem sanitizeNodeName_legal_iff (name : Text) :
    LegalName (sanitizeNodeName name) ∧
        sanitizeNodeName (sanitizeNodeName name) = sanitizeNodeName name ↔
      asciiLower name ≠ "one".toList := by
  constructor
  · exact fun h => (unreserved_sanitizeNodeName name).mp h.1.unreserved
  · intro hone
    have hlegal := legalName_sanitizeNodeName hone
    exact ⟨hlegal, hlegal.sanitizeNodeName⟩

/-- The net `one` gets a reserved word for its node, which is sanitized again to another name. -/
theorem sanitizeNodeName_one :
    sanitizeNodeName "one".toList = "none".toList ∧ "none".toList ∈ reservedWords ∧
      sanitizeNodeName "none".toList = "x_none".toList := by
  decide

end CircuitForge
