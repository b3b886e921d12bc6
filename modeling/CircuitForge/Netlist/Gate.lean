/-
The sandbox gate against logical lines.

`sanitizeNetlist` reads physical lines; the simulator, and the repository's own
importer, read the deck with its continuations folded.  The command word of a
card never moves: it stands on the line that opens the card, so a blocked
command is caught either way.  A path does move.  It may begin on a continuation
line, which the gate takes for a card of its own, and it may be quoted and hold
blanks, where the gate reads a prefix.  `gate_reads_logical_lines_iff` says that
these are the only two ways past the gate.
-/
import CircuitForge.Js.Exact
import CircuitForge.Netlist.Sanitizer
import CircuitForge.Parser.Logical

namespace CircuitForge

open Js

section

variable [Runtime]

/-! ## What a card names -/

def Accepted (netlist : Text) : Prop := sanitizeNetlist netlist = .ok netlist

def Admissible (path : Text) : Prop := validateIncludePath path = .ok ()

instance (netlist : Text) : Decidable (Accepted netlist) :=
  inferInstanceAs (Decidable (sanitizeNetlist netlist = .ok netlist))

omit [Runtime] in
instance (path : Text) : Decidable (Admissible path) :=
  inferInstanceAs (Decidable (validateIncludePath path = .ok ()))

/-- The logical lines of a deck. -/
def logicalLines (netlist : Text) : List LogicalLine := foldContinuations (splitLines netlist)

/-- The physical line that opens a logical line. -/
def openingLine (netlist : Text) (l : LogicalLine) : Text :=
  (splitLines netlist)[l.lineNo - 1]?.getD []

/-- What follows the command word of a line. -/
def argument (line : Text) : Text := trimStart (afterToken (trim line))

/-- The first word of an argument; blanks inside a leading quoted part do not end
it. -/
def argumentWord : Text → Text
  | [] => []
  | q :: s =>
    if isQuote q then q :: (s.takeWhile (· != q) ++ firstToken (s.dropWhile (· != q)))
    else firstToken (q :: s)

/-- The command word of a line, with its dot. -/
def commandWord (line : Text) : Text := Runtime.lower (firstToken (trim line))

/-- The whole path a `.include` card or a file command names. -/
def cardPath (line : Text) : Option Text :=
  if commandWord line = ".include".toList ∨ commandOf line ∈ filePathCommands then
    if argument line = [] then none else some (stripQuotes (argumentWord (argument line)))
  else none

/-- The gate holds for the cards the simulator reads. -/
def ReadsLogicalLines (netlist : Text) : Prop :=
  Accepted (foldText netlist) ∧
    ∀ l ∈ logicalLines netlist, IsCard l.text →
      commandOf l.text ∉ dangerousCommands ∧ ∀ p ∈ cardPath l.text, Admissible p

/-- A path the gate cannot cut short: not empty, without blanks or quotes. -/
def Plain (path : Text) : Prop := path ≠ [] ∧ ∀ c ∈ path, isSpace c = false ∧ isQuote c = false

/-- Every path of the deck lies where the gate looks: it is plain, and it begins
on the line that opens its card unless it is admissible anyway.  A line whose
command word is `include` without the dot is no path card, but the gate still
looks for `.include` inside it. -/
def PathsInSight (netlist : Text) : Prop :=
  ∀ l ∈ logicalLines netlist, IsCard l.text →
    (∀ p ∈ cardPath l.text, Plain p ∧ (argument (openingLine netlist l) ≠ [] ∨ Admissible p)) ∧
    (commandWord l.text = "include".toList → ∀ p ∈ includeTarget l.text,
      (includeTarget (openingLine netlist l)).isSome ∨ Admissible p)

omit [Runtime] in
instance (path : Text) : Decidable (Plain path) :=
  inferInstanceAs (Decidable (path ≠ [] ∧ ∀ c ∈ path, isSpace c = false ∧ isQuote c = false))

instance (netlist : Text) : Decidable (ReadsLogicalLines netlist) :=
  inferInstanceAs (Decidable (_ ∧ ∀ l ∈ logicalLines netlist, _))

instance (netlist : Text) : Decidable (PathsInSight netlist) :=
  inferInstanceAs (Decidable (∀ l ∈ logicalLines netlist, _))

/-! ## The gate, declaratively -/

theorem commandOf_eq (line : Text) : commandOf line = dropDot (commandWord line) := by
  rw [commandOf, headD_splitBlanks, commandWord]

theorem commandWord_eq (line : Text) :
    commandWord line = Runtime.lower (firstToken (trimStart line)) := by
  rw [commandWord, trim, firstToken_trimEnd]

omit [Runtime] in
theorem firstToken_argument (line : Text) :
    firstToken (argument line) = firstToken (trimStart (afterToken (trimStart line))) :=
  secondToken_trimEnd (trimStart line)

omit [Runtime] in
theorem bind_eq_ok_iff {ε : Type} {a b : Except ε Unit} :
    (a >>= fun _ => b) = .ok () ↔ a = .ok () ∧ b = .ok () := by
  cases a <;> simp [bind, Except.bind]

theorem checkInclude_ok_iff {line : Text} : checkInclude line = .ok () ↔
    (commandOf line = "include".toList → ∀ p ∈ includeTarget line, Admissible p) := by
  unfold checkInclude
  by_cases hc : commandOf line = "include".toList
  · rw [if_pos hc]
    cases includeTarget line with
    | none => simp [hc]
    | some p => simp [hc, Admissible]
  · rw [if_neg hc]
    exact iff_of_true rfl fun h => absurd h hc

theorem checkFilePath_ok_iff {line : Text} : checkFilePath line = .ok () ↔
    (commandOf line ∈ filePathCommands → firstToken (argument line) ≠ [] →
      Admissible (stripQuotes (firstToken (argument line)))) := by
  unfold checkFilePath
  by_cases hc : commandOf line ∈ filePathCommands
  · rw [if_pos hc, splitBlanks_one, ← argument]
    cases h : firstToken (argument line) with
    | nil => simp [truthy]
    | cons c t => simp [truthy, hc, Admissible]
  · rw [if_neg hc]
    exact iff_of_true rfl fun h => absurd h hc

theorem checkLine_ok_iff {line : Text} : checkLine line = .ok () ↔
    (IsCard line → commandOf line ∉ dangerousCommands ∧ checkInclude line = .ok () ∧
      checkFilePath line = .ok ()) := by
  unfold checkLine
  by_cases hcard : IsCard line
  · rw [if_neg (by simpa [IsCard] using hcard)]
    by_cases hd : commandOf line ∈ dangerousCommands
    · simp [hd, hcard]
    · rw [if_neg hd, bind_eq_ok_iff]
      exact ⟨fun h _ => ⟨hd, h⟩, fun h => (h hcard).2⟩
  · rw [if_pos (by
      by_contra h
      exact hcard (by simpa [IsCard, not_or] using h))]
    exact iff_of_true rfl fun h => absurd h hcard

theorem checkLines_ok_iff (ls : List Text) :
    checkLines ls = .ok () ↔ ∀ l ∈ ls, checkLine l = .ok () := by
  induction ls with
  | nil => simp [checkLines]
  | cons l ls ih => rw [checkLines, bind_eq_ok_iff, ih, List.forall_mem_cons]

theorem accepted_iff {netlist : Text} :
    Accepted netlist ↔ ∀ l ∈ splitLines netlist, checkLine l = .ok () := by
  rw [← checkLines_ok_iff, Accepted, sanitizeNetlist]
  cases checkLines (splitLines netlist) <;> simp [bind, Except.bind, pure, Except.pure]

/-! ## The path of a card and the word the gate reads -/

omit [Runtime] in
theorem isSpace_of_isQuote {c : Char} (h : isQuote c = true) : isSpace c = false := by
  simp only [isQuote, Bool.or_eq_true, beq_iff_eq] at h
  rcases h with rfl | rfl <;> decide

omit [Runtime] in
theorem solid_dropQuote {s : Text} : Solid (dropQuote s) ↔ Solid s := by
  cases s with
  | nil => rfl
  | cons c s =>
    rw [dropQuote]
    split_ifs with h
    · rw [solid_cons, and_iff_right (isSpace_of_isQuote h)]
    · rfl

omit [Runtime] in
theorem solid_reverse {s : Text} : Solid s.reverse ↔ Solid s := by
  simp [Solid]

omit [Runtime] in
theorem solid_stripQuotes {s : Text} : Solid (stripQuotes s) ↔ Solid s := by
  rw [stripQuotes, solid_reverse, solid_dropQuote, solid_reverse, solid_dropQuote]

omit [Runtime] in
theorem Plain.solid {p : Text} (h : Plain p) : Solid p := fun c hc => (h.2 c hc).1

omit [Runtime] in
theorem admissible_plain {p : Text} (h : Admissible p) : Plain p := by
  unfold Admissible validateIncludePath at h
  split_ifs at h with _ _ _ h4
  rw [Bool.or_eq_true, not_or, List.isEmpty_iff, Bool.not_eq_true', Bool.not_eq_false,
    List.all_eq_true] at h4
  refine ⟨h4.1, fun c hc => ?_⟩
  have hp := h4.2 c hc
  simp only [isPathChar, Bool.or_eq_true, beq_iff_eq] at hp
  rcases hp with ((hp | rfl) | rfl) | rfl
  · refine ⟨isSpace_eq_false_of_isWord hp, ?_⟩
    by_contra hq
    simp only [isQuote, Bool.not_eq_false, Bool.or_eq_true, beq_iff_eq] at hq
    rcases hq with rfl | rfl <;> exact absurd hp (by decide)
  all_goals decide

omit [Runtime] in
/-- A path without blanks is one token of the line. -/
theorem argumentWord_eq_firstToken {a : Text} (h : Solid (argumentWord a)) :
    argumentWord a = firstToken a := by
  cases a with
  | nil => rfl
  | cons q s =>
    rw [argumentWord] at h ⊢
    split_ifs with hq
    · rw [if_pos hq, solid_cons, solid_append] at h
      have hs : q :: s = (q :: s.takeWhile (· != q)) ++ s.dropWhile (· != q) := by
        rw [List.cons_append, List.takeWhile_append_dropWhile]
      have hsolid : Solid (q :: s.takeWhile (· != q)) := solid_cons.mpr ⟨h.1, h.2.1⟩
      conv_rhs => rw [hs, firstToken_solid_append hsolid, List.cons_append]
    · rfl

omit [Runtime] in
theorem includeWord_firstToken (a : Text) : includeWord (firstToken a) = includeWord a := by
  have htw : ∀ s : Text, (firstToken s).takeWhile (fun c => !isQuote c && !isSpace c) =
      s.takeWhile fun c => !isQuote c && !isSpace c := by
    intro s
    induction s with
    | nil => rfl
    | cons c s ih =>
      by_cases hc : isSpace c = true
      · simp [firstToken, hc]
      · by_cases hq : isQuote c = true
        · simp [firstToken, hc, hq]
        · have hf : firstToken (c :: s) = c :: firstToken s := by simp [firstToken, hc]
          simp [hf, hc, hq, ih]
  cases a with
  | nil => rfl
  | cons c s =>
    by_cases hq : isQuote c = true
    · have hf : firstToken (c :: s) = c :: firstToken s := by
        simp [firstToken, isSpace_of_isQuote hq]
      rw [hf, includeWord, includeWord, dropQuote, dropQuote, if_pos hq, if_pos hq, htw]
    · have hd : dropQuote (firstToken (c :: s)) = firstToken (c :: s) := by
        cases hf : firstToken (c :: s) with
        | nil => rfl
        | cons d r =>
          have hdc : d = c := by
            have := firstToken_append_afterToken (c :: s)
            rw [hf, List.cons_append, List.cons.injEq] at this
            exact this.1
          rw [dropQuote, if_neg (by rwa [hdc])]
      rw [includeWord, hd, htw, includeWord, dropQuote, if_neg hq]

omit [Runtime] in
/-- The include pattern reads a plain path whole. -/
theorem includeWord_eq_stripQuotes {w : Text} (h : Plain (stripQuotes w)) :
    includeWord w = stripQuotes w := by
  have hall : ∀ c ∈ stripQuotes w, (!isQuote c && !isSpace c) = true := by
    intro c hc
    simp [(h.2 c hc).1, (h.2 c hc).2]
  have hsplit : dropQuote w = stripQuotes w ∨
      ∃ q, isQuote q = true ∧ dropQuote w = stripQuotes w ++ [q] := by
    rw [stripQuotes]
    cases hr : (dropQuote w).reverse with
    | nil => exact Or.inl (by rw [List.reverse_eq_nil_iff.mp hr]; rfl)
    | cons q r =>
      have hw : dropQuote w = r.reverse ++ [q] := by
        rw [← List.reverse_reverse (dropQuote w), hr, List.reverse_cons]
      rw [dropQuote]
      split_ifs with hq
      · exact Or.inr ⟨q, hq, hw⟩
      · exact Or.inl (by rw [hw, List.reverse_cons])
  rw [includeWord]
  rcases hsplit with hd | ⟨q, hq, hd⟩
  · rw [hd, List.takeWhile_eq_self_iff.mpr hall]
  · rw [hd, List.takeWhile_append_of_pos hall, List.takeWhile_cons_of_neg (by simp [hq]),
      List.append_nil]

/-! ## The include pattern on a card -/

omit [Runtime] in
theorem includeTargetAt_of_head_ne {c : Char} {s : Text} (h : c ≠ '.') :
    includeTargetAt (c :: s) = none := by
  have hl : c.toLower ≠ '.' := by
    rw [Ne, eq_iff_toNat, toNat_toLower]
    rw [Ne, eq_iff_toNat] at h
    have : '.'.toNat = 46 := by decide
    rw [this] at h ⊢
    split_ifs <;> omega
  have : startsWithI (c :: s) ".include".toList = false := by
    simp [startsWithI, startsWith, asciiLower, List.isPrefixOf, hl.symm]
  rw [includeTargetAt, if_neg (by rw [this]; exact Bool.false_ne_true)]

omit [Runtime] in
theorem includeTarget_append_of_no_dot {a : Text} (h : '.' ∉ a) (s : Text) :
    includeTarget (a ++ s) = includeTarget s := by
  induction a with
  | nil => rfl
  | cons c a ih =>
    rw [List.mem_cons, not_or] at h
    rw [List.cons_append, includeTarget, includeTargetAt_of_head_ne (fun e => h.1 e.symm), ih h.2]
    rfl

omit [Runtime] in
theorem includeTarget_of_no_dot {a : Text} (h : '.' ∉ a) : includeTarget a = none := by
  have := includeTarget_append_of_no_dot h []
  rwa [List.append_nil] at this

omit [Runtime] in
/-- The include pattern at the head of a line. -/
theorem includeTargetAt_eq {k : Text} (hk : asciiLower k = ".include".toList) (r : Text) :
    includeTargetAt (k ++ r) =
      if r.head?.any isSpace = true ∧ includeWord (trimStart r) ≠ [] then
        some (includeWord (trimStart r)) else none := by
  have hlen : k.length = 8 := by
    have := congrArg List.length hk
    simpa [asciiLower] using this
  have hs : startsWithI (k ++ r) ".include".toList = true := by
    have : asciiLower ".include".toList = ".include".toList := by decide
    rw [startsWithI, startsWith, this, asciiLower, List.map_append, ← asciiLower, hk,
      List.isPrefixOf_iff_prefix]
    exact List.prefix_append _ _
  have hdrop : (k ++ r).drop 8 = r := by rw [← hlen, List.drop_left]
  rw [includeTargetAt, if_pos hs]
  simp only [hdrop]
  by_cases hr : r.head?.any isSpace = true
  · by_cases hw : includeWord (trimStart r) = []
    · rw [if_pos hr, if_pos hw, if_neg fun h => h.2 hw]
    · rw [if_pos hr, if_neg hw, if_pos ⟨hr, hw⟩]
  · rw [if_neg hr, if_neg fun h => hr h.1]

/-- The token of a `.include` card is the word itself, in either case. -/
theorem asciiLower_of_include {k : Text} (h : Runtime.lower k = ".include".toList) :
    asciiLower k = ".include".toList := by
  have hmap := Runtime.lower_to_ascii k (by rw [h]; decide)
  rw [h] at hmap
  rw [hmap, asciiLower]
  apply List.map_congr_left
  intro c hc
  split_ifs with hK
  · -- no `k` in the word
    have : 'k' ∈ ".include".toList := by
      rw [hmap]
      exact List.mem_map.mpr ⟨c, hc, if_pos hK⟩
    exact absurd this (by decide)
  · rfl

omit [Runtime] in
theorem toLower_eq_dot {c : Char} : c.toLower = '.' ↔ c = '.' := by
  have : '.'.toNat = 46 := by decide
  rw [eq_iff_toNat, toNat_toLower, eq_iff_toNat, this]
  split_ifs <;> omega

omit [Runtime] in
/-- A dot opens the word `.include` and occurs nowhere else in it. -/
theorem include_cons {k : Text} (hk : asciiLower k = ".include".toList) :
    ∃ k', k = '.' :: k' ∧ '.' ∉ k' := by
  cases k with
  | nil => simp [asciiLower] at hk
  | cons c k =>
    have hk' : c.toLower = '.' ∧ asciiLower k = "include".toList := by
      rw [asciiLower, List.map_cons] at hk
      exact List.cons.inj hk
    refine ⟨k, by rw [toLower_eq_dot.mp hk'.1], fun h => ?_⟩
    have : '.' ∈ asciiLower k := List.mem_map.mpr ⟨'.', h, by decide⟩
    rw [hk'.2] at this
    exact absurd this (by decide)

omit [Runtime] in
theorem solid_include {k : Text} (hk : asciiLower k = ".include".toList) : Solid k := by
  intro c hc
  have hl : c.toLower ∈ ".include".toList := hk ▸ List.mem_map_of_mem hc
  by_contra hs
  have hsp : isSpace c.toLower = true := by
    have hcl : c.toLower = c := by
      rw [eq_iff_toNat, toNat_toLower, if_neg]
      rintro ⟨h1, h2⟩
      exact hs (isSpace_eq_false_of_isWord (isWord_iff.mpr (Or.inl ⟨h1, h2⟩)))
    rw [hcl]
    simpa using hs
  have hall : ∀ d ∈ ".include".toList, isSpace d = false := by decide
  rw [hall _ hl] at hsp
  exact Bool.false_ne_true hsp

omit [Runtime] in
theorem no_dot_of_blank {b : Text} (h : ∀ c ∈ b, isSpace c = true) : '.' ∉ b :=
  fun hd => absurd (h _ hd) (by decide)

omit [Runtime] in
theorem blank_of_trimStart {s : Text} (h : trimStart s = []) : ∀ c ∈ s, isSpace c = true :=
  List.dropWhile_eq_nil_iff.mp h

omit [Runtime] in
theorem firstToken_trimStart_eq_nil {s : Text} : firstToken (trimStart s) = [] ↔ trimStart s = [] := by
  constructor
  · intro h
    cases hs : trimStart s with
    | nil => rfl
    | cons c t =>
      rw [hs] at h
      simp [firstToken, head_trimStart hs] at h
  · intro h
    rw [h]
    rfl

omit [Runtime] in
theorem any_head_of_blankLed {r : Text} (h : BlankLed r) (hr : r ≠ []) :
    r.head?.any isSpace = true := by
  cases r with
  | nil => exact absurd rfl hr
  | cons c r => simpa using blankLed_cons.mp h

omit [Runtime] in
theorem includeTarget_trimStart (line : Text) : includeTarget line = includeTarget (trimStart line) := by
  conv_lhs => rw [← List.takeWhile_append_dropWhile (p := isSpace) (l := line)]
  exact includeTarget_append_of_no_dot (no_dot_of_blank fun c hc => List.mem_takeWhile_imp hc) _

/-- What the pattern finds on a `.include` card: the word at its argument, when
that word is not empty. -/
theorem includeTarget_card {line : Text} (h : commandWord line = ".include".toList)
    (hw : includeWord (firstToken (argument line)) ≠ []) :
    includeTarget line = some (includeWord (firstToken (argument line))) := by
  rw [commandWord_eq] at h
  have hk := asciiLower_of_include h
  obtain ⟨k', hk', _⟩ := include_cons hk
  have hword : includeWord (trimStart (afterToken (trimStart line))) ≠ [] := by
    rwa [firstToken_argument, includeWord_firstToken] at hw
  have hne : afterToken (trimStart line) ≠ [] := fun e => hword (by rw [e]; rfl)
  have hat := includeTargetAt_eq hk (afterToken (trimStart line))
  rw [if_pos ⟨any_head_of_blankLed (blankLed_afterToken _) hne, hword⟩,
    firstToken_append_afterToken] at hat
  rw [includeTarget_trimStart, firstToken_argument, includeWord_firstToken]
  rw [← firstToken_append_afterToken (trimStart line), hk', List.cons_append] at hat ⊢
  rw [includeTarget, hat]
  rfl

/-- A `.include` card without an argument shows the pattern nothing. -/
theorem includeTarget_bare {line : Text} (h : commandWord line = ".include".toList)
    (ha : argument line = []) : includeTarget line = none := by
  rw [commandWord_eq] at h
  have hk := asciiLower_of_include h
  obtain ⟨k', hk', hdot⟩ := include_cons hk
  have hr : trimStart (afterToken (trimStart line)) = [] := by
    rw [← firstToken_trimStart_eq_nil, ← firstToken_argument, ha]
    rfl
  have hat := includeTargetAt_eq hk (afterToken (trimStart line))
  rw [if_neg (fun h => h.2 (by rw [hr]; rfl)), firstToken_append_afterToken] at hat
  rw [includeTarget_trimStart]
  rw [← firstToken_append_afterToken (trimStart line), hk', List.cons_append] at hat ⊢
  rw [includeTarget, hat, Option.none_or]
  apply includeTarget_of_no_dot
  rw [List.mem_append, not_or]
  exact ⟨hdot, no_dot_of_blank (blank_of_trimStart hr)⟩

omit [Runtime] in
theorem startsWithI_include {s : Text} (h : startsWithI s ".include".toList = true) :
    ∃ k r, s = k ++ r ∧ asciiLower k = ".include".toList := by
  rw [startsWithI, startsWith, List.isPrefixOf_iff_prefix] at h
  obtain ⟨t, ht⟩ := h
  rw [asciiLower, asciiLower] at ht
  obtain ⟨k, r, hs, hk, _⟩ := List.map_eq_append_iff.mp ht.symm
  exact ⟨k, r, hs, hk.trans (by decide)⟩

omit [Runtime] in
theorem includeWord_append {a t : Text} (ht : BlankLed t) :
    includeWord (a ++ t) = includeWord a := by
  rw [← includeWord_firstToken (a ++ t), firstToken_append ht, includeWord_firstToken]

omit [Runtime] in
/-- A match on the opening line is the match on the whole card. -/
theorem includeTarget_append {s t : Text} {p : Text} (ht : BlankLed t)
    (h : includeTarget s = some p) : includeTarget (s ++ t) = some p := by
  induction s with
  | nil => simp [includeTarget] at h
  | cons c s ih =>
    rw [List.cons_append, includeTarget]
    rw [includeTarget] at h
    -- the pattern starts here on the whole card only if it does on the line
    by_cases hst : startsWithI (c :: s ++ t) ".include".toList = true
    · obtain ⟨k, r, he, hk⟩ := startsWithI_include hst
      obtain ⟨k', hk', hdot⟩ := include_cons hk
      have hsplit : ∃ r', c :: s = k ++ r' ∧ r = r' ++ t := by
        rcases List.append_eq_append_iff.mp he with ⟨a, hka, hta⟩ | ⟨a, hsa, hra⟩
        · cases a with
          | nil => exact ⟨[], by simpa using hka.symm, by simpa using hta.symm⟩
          | cons d a =>
            have hd : isSpace d = true := by
              rw [hta, List.cons_append] at ht
              exact blankLed_cons.mp ht
            have := solid_include hk d (by rw [hka]; simp)
            rw [hd] at this
            exact absurd this (by simp)
        · exact ⟨a, hsa, hra⟩
      obtain ⟨r', hs, rfl⟩ := hsplit
      have hs' : s = k' ++ r' := by
        rw [hk', List.cons_append, List.cons.injEq] at hs
        exact hs.2
      rw [← List.cons_append, he, includeTargetAt_eq hk]
      rw [hs, includeTargetAt_eq hk] at h
      by_cases hr : trimStart r' = []
      · -- nothing but blanks behind the word: no match at all
        have hnone : includeTarget s = none := by
          apply includeTarget_of_no_dot
          rw [hs', List.mem_append, not_or]
          exact ⟨hdot, no_dot_of_blank (blank_of_trimStart hr)⟩
        rw [if_neg (fun h => h.2 (by rw [hr]; rfl)), hnone] at h
        exact absurd h (by simp)
      · have hne : r' ≠ [] := fun e => hr (by rw [e]; rfl)
        have hhead : (r' ++ t).head? = r'.head? := List.head?_append_of_ne_nil _ hne
        rw [hhead, trimStart_append hr, includeWord_append ht]
        by_cases hc : r'.head?.any isSpace = true ∧ includeWord (trimStart r') ≠ []
        · rw [if_pos hc] at h ⊢
          rw [Option.some_or] at h ⊢
          exact h
        · rw [if_neg hc, Option.none_or] at h ⊢
          exact ih h
    · have hst' : ¬ startsWithI (c :: s) ".include".toList = true := by
        intro hcs
        apply hst
        rw [startsWithI, startsWith, List.isPrefixOf_iff_prefix] at hcs ⊢
        refine hcs.trans ?_
        simp only [asciiLower, List.map_append]
        exact List.prefix_append _ _
      rw [includeTargetAt, if_neg hst', Option.none_or] at h
      rw [← List.cons_append, includeTargetAt, if_neg hst, Option.none_or]
      exact ih h

/-! ## Cards and the lines that open them -/

omit [Runtime] in
theorem Opens.openingLine_eq {netlist raw tail : Text} {l : LogicalLine}
    (h : Opens (splitLines netlist) raw l tail) : openingLine netlist l = raw := by
  rw [openingLine, h.physical, Option.getD_some]

omit [Runtime] in
/-- The tokens of a card up to the end of its opening line. -/
theorem Opens.trimStart_eq {raws : List Text} {raw tail : Text} {l : LogicalLine}
    (h : Opens raws raw l tail) (hcard : IsCard l.text) :
    trimStart l.text = trimStart raw ++ tail := by
  obtain ⟨c, s, hs, _⟩ := CircuitForge.isCard_iff.mp (h.isCard_iff.mp hcard)
  rw [h.text_eq, trimStart_append (by rw [hs]; exact List.cons_ne_nil c s)]

theorem Opens.commandWord_eq {raws : List Text} {raw tail : Text} {l : LogicalLine}
    (h : Opens raws raw l tail) (hcard : IsCard l.text) : commandWord l.text = commandWord raw := by
  rw [CircuitForge.commandWord_eq, h.trimStart_eq hcard, firstToken_append h.blankLed,
    ← CircuitForge.commandWord_eq]

theorem Opens.commandOf_eq {raws : List Text} {raw tail : Text} {l : LogicalLine}
    (h : Opens raws raw l tail) (hcard : IsCard l.text) : commandOf l.text = commandOf raw := by
  rw [CircuitForge.commandOf_eq, h.commandWord_eq hcard, ← CircuitForge.commandOf_eq]

omit [Runtime] in
theorem firstToken_argument_eq_nil {line : Text} :
    firstToken (argument line) = [] ↔ argument line = [] := firstToken_trimStart_eq_nil

omit [Runtime] in
/-- An argument that begins on the opening line keeps its first token. -/
theorem Opens.firstToken_argument {raws : List Text} {raw tail : Text} {l : LogicalLine}
    (h : Opens raws raw l tail) (hcard : IsCard l.text) (ha : argument raw ≠ []) :
    firstToken (argument l.text) = firstToken (argument raw) := by
  have hne : trimStart (afterToken (trimStart raw)) ≠ [] := by
    rw [Ne, ← firstToken_trimStart_eq_nil, ← CircuitForge.firstToken_argument,
      firstToken_argument_eq_nil]
    exact ha
  rw [CircuitForge.firstToken_argument, h.trimStart_eq hcard, afterToken_append h.blankLed,
    trimStart_append hne, firstToken_append h.blankLed, ← CircuitForge.firstToken_argument]

/-! ## The gate and the cards -/

theorem cardPath_eq {line : Text}
    (h : commandWord line = ".include".toList ∨ commandOf line ∈ filePathCommands) :
    cardPath line =
      if argument line = [] then none else some (stripQuotes (argumentWord (argument line))) :=
  if_pos h

omit [Runtime] in
theorem argumentWord_of_plain {a : Text} (h : Plain (stripQuotes (argumentWord a))) :
    argumentWord a = firstToken a :=
  argumentWord_eq_firstToken (solid_stripQuotes.mp h.solid)

/-- File commands: the gate reads the first token of the argument. -/
theorem Opens.filePath_iff {raws : List Text} {raw tail : Text} {l : LogicalLine}
    (h : Opens raws raw l tail) (hcard : IsCard l.text)
    (hcmd : commandOf l.text ∈ filePathCommands) (hraw : checkFilePath raw = .ok ()) :
    (checkFilePath l.text = .ok () ∧ ∀ p ∈ cardPath l.text, Admissible p) ↔
      ∀ p ∈ cardPath l.text, Plain p ∧ (argument raw ≠ [] ∨ Admissible p) := by
  rw [cardPath_eq (Or.inr hcmd), checkFilePath_ok_iff]
  rw [checkFilePath_ok_iff, ← h.commandOf_eq hcard] at hraw
  by_cases ha : argument l.text = []
  · rw [if_pos ha, ha]
    simp [firstToken]
  · rw [if_neg ha]
    have ht : firstToken (argument l.text) ≠ [] := firstToken_argument_eq_nil.not.mpr ha
    simp only [Option.mem_def, Option.some.injEq, forall_eq']
    constructor
    · exact fun hp => ⟨admissible_plain hp.2, Or.inr hp.2⟩
    · rintro ⟨hplain, hin⟩
      have hw := argumentWord_of_plain hplain
      have hadm : Admissible (stripQuotes (firstToken (argument l.text))) := by
        rcases hin with hin | hin
        · rw [h.firstToken_argument hcard hin]
          exact hraw hcmd (firstToken_argument_eq_nil.not.mpr hin)
        · rwa [← hw]
      exact ⟨fun _ _ => hadm, hw ▸ hadm⟩

/-- `.include` cards: the gate reads the match of the pattern. -/
theorem Opens.include_iff {raws : List Text} {raw tail : Text} {l : LogicalLine}
    (h : Opens raws raw l tail) (hcard : IsCard l.text)
    (hcmd : commandWord l.text = ".include".toList) (hraw : checkInclude raw = .ok ()) :
    (checkInclude l.text = .ok () ∧ ∀ p ∈ cardPath l.text, Admissible p) ↔
      ∀ p ∈ cardPath l.text, Plain p ∧ (argument raw ≠ [] ∨ Admissible p) := by
  have hraw' : commandWord raw = ".include".toList := by rw [← h.commandWord_eq hcard, hcmd]
  have hof : commandOf raw = "include".toList := by rw [CircuitForge.commandOf_eq, hraw']; rfl
  rw [cardPath_eq (Or.inl hcmd), checkInclude_ok_iff]
  rw [checkInclude_ok_iff] at hraw
  by_cases ha : argument l.text = []
  · rw [if_pos ha, includeTarget_bare hcmd ha]
    simp
  · rw [if_neg ha]
    simp only [Option.mem_def, Option.some.injEq, forall_eq']
    constructor
    · exact fun hp => ⟨admissible_plain hp.2, Or.inr hp.2⟩
    · rintro ⟨hplain, hin⟩
      have hw := argumentWord_of_plain hplain
      have hword := includeWord_eq_stripQuotes hplain
      rw [hw] at hword hplain
      have hadm : Admissible (stripQuotes (firstToken (argument l.text))) := by
        rcases hin with hin | hin
        · have hne : includeWord (firstToken (argument raw)) ≠ [] := by
            rw [← h.firstToken_argument hcard hin, hword]
            exact hplain.1
          have := hraw hof _ (includeTarget_card hraw' hne)
          rwa [← h.firstToken_argument hcard hin, hword] at this
        · rwa [← hw]
      refine ⟨fun _ p hp => ?_, hw ▸ hadm⟩
      rw [includeTarget_card hcmd (by rw [hword]; exact hplain.1), hword, Option.some.injEq] at hp
      exact hp ▸ hadm

/-- A bare `include` is no path card; the gate still runs the pattern on it. -/
theorem Opens.bareInclude_iff {raws : List Text} {raw tail : Text} {l : LogicalLine}
    (h : Opens raws raw l tail) (hcard : IsCard l.text)
    (hcmd : commandWord l.text = "include".toList) (hraw : checkInclude raw = .ok ()) :
    checkInclude l.text = .ok () ↔
      ∀ p ∈ includeTarget l.text, (includeTarget raw).isSome ∨ Admissible p := by
  have hof : commandOf l.text = "include".toList := by rw [CircuitForge.commandOf_eq, hcmd]; rfl
  rw [checkInclude_ok_iff]
  rw [checkInclude_ok_iff, ← h.commandOf_eq hcard] at hraw
  constructor
  · exact fun hp p hm => Or.inr (hp hof p hm)
  · intro hin _ p hp
    rcases hin p hp with hsome | hadm
    · obtain ⟨p', hp'⟩ := Option.isSome_iff_exists.mp hsome
      have := includeTarget_append h.blankLed hp'
      rw [← h.text_eq, Option.mem_def.mp hp, Option.some.injEq] at this
      exact this ▸ hraw hof p' hp'
    · exact hadm

theorem commandWord_of_include {line : Text} (h : commandOf line = "include".toList) :
    commandWord line = ".include".toList ∨ commandWord line = "include".toList := by
  rw [commandOf_eq] at h
  cases hw : commandWord line with
  | nil =>
    rw [hw] at h
    exact absurd h (by decide)
  | cons c s =>
    rw [hw] at h
    by_cases hc : c = '.'
    · subst hc
      exact Or.inl (congrArg ('.' :: ·) h)
    · have : dropDot (c :: s) = c :: s := by
        unfold dropDot
        split
        · rename_i he
          exact absurd (List.cons.inj he).1 hc
        · rfl
      exact Or.inr (this ▸ h)

/-- One card of an accepted deck. -/
theorem Opens.card_iff {raws : List Text} {raw tail : Text} {l : LogicalLine}
    (h : Opens raws raw l tail) (hcard : IsCard l.text) (hraw : checkLine raw = .ok ()) :
    (checkLine l.text = .ok () ∧ commandOf l.text ∉ dangerousCommands ∧
        ∀ p ∈ cardPath l.text, Admissible p) ↔
      (∀ p ∈ cardPath l.text, Plain p ∧ (argument raw ≠ [] ∨ Admissible p)) ∧
        (commandWord l.text = "include".toList →
          ∀ p ∈ includeTarget l.text, (includeTarget raw).isSome ∨ Admissible p) := by
  obtain ⟨hdanger, hinc, hfile⟩ := checkLine_ok_iff.mp hraw (h.isCard_iff.mp hcard)
  rw [← h.commandOf_eq hcard] at hdanger
  have hline : checkLine l.text = .ok () ↔
      checkInclude l.text = .ok () ∧ checkFilePath l.text = .ok () := by
    rw [checkLine_ok_iff]
    exact ⟨fun hl => (hl hcard).2, fun hl _ => ⟨hdanger, hl⟩⟩
  rw [hline]
  by_cases hf : commandOf l.text ∈ filePathCommands
  · have hni : commandOf l.text ≠ "include".toList := by
      intro e
      rw [e] at hf
      exact absurd hf (by decide)
    have hnw : commandWord l.text ≠ "include".toList := by
      intro e
      exact hni (by rw [CircuitForge.commandOf_eq, e]; rfl)
    have hok : checkInclude l.text = .ok () := checkInclude_ok_iff.mpr fun e => absurd e hni
    rw [← h.filePath_iff hcard hf hfile]
    exact ⟨fun hp => ⟨⟨hp.1.2, hp.2.2⟩, fun e => absurd e hnw⟩,
      fun hp => ⟨⟨hok, hp.1.1⟩, hdanger, hp.1.2⟩⟩
  · have hok : checkFilePath l.text = .ok () := checkFilePath_ok_iff.mpr fun e => absurd e hf
    by_cases hi : commandOf l.text = "include".toList
    · rcases commandWord_of_include hi with hw | hw
      · rw [← h.include_iff hcard hw hinc]
        refine ⟨fun hp => ⟨⟨hp.1.1, hp.2.2⟩, fun e => ?_⟩,
          fun hp => ⟨⟨hp.1.1, hok⟩, hdanger, hp.1.2⟩⟩
        rw [hw] at e
        exact absurd e (by decide)
      · have hnone : cardPath l.text = none := by
          rw [cardPath, if_neg]
          rintro (e | e)
          · rw [hw] at e
            exact absurd e (by decide)
          · exact hf e
        rw [h.bareInclude_iff hcard hw hinc, hnone]
        simp [hok, hdanger, hw]
    · have hnone : cardPath l.text = none := by
        rw [cardPath, if_neg]
        rintro (e | e)
        · exact hi (by rw [CircuitForge.commandOf_eq, e]; rfl)
        · exact hf e
      have hnw : commandWord l.text ≠ "include".toList := by
        intro e
        exact hi (by rw [CircuitForge.commandOf_eq, e]; rfl)
      have hinc' : checkInclude l.text = .ok () := checkInclude_ok_iff.mpr fun e => absurd e hi
      rw [hnone]
      exact iff_of_true ⟨⟨hinc', hok⟩, hdanger, by simp⟩ ⟨by simp, fun e => absurd e hnw⟩

/-- The gate reads logical lines exactly when every path lies in its sight. -/
theorem gate_reads_logical_lines_iff (netlist : Text) (h : Accepted netlist) :
    ReadsLogicalLines netlist ↔ PathsInSight netlist := by
  have hacc := accepted_iff.mp h
  have hfold : Accepted (foldText netlist) ↔
      ∀ l ∈ logicalLines netlist, checkLine l.text = .ok () := by
    rw [accepted_iff, splitLines_foldText, List.forall_mem_map]
    rfl
  rw [ReadsLogicalLines, hfold, PathsInSight, ← forall₂_and]
  refine forall₂_congr fun l hl => ?_
  obtain ⟨raw, tail, ho⟩ := foldContinuations_opens hl
  rw [ho.openingLine_eq]
  by_cases hcard : IsCard l.text
  · rw [← ho.card_iff hcard (hacc raw (List.mem_of_getElem? ho.physical))]
    exact ⟨fun hp _ => ⟨hp.1, hp.2 hcard⟩, fun hp => ⟨(hp hcard).1, fun _ => (hp hcard).2⟩⟩
  · exact iff_of_true ⟨checkLine_ok_iff.mpr fun e => absurd e hcard, fun e => absurd e hcard⟩
      fun e => absurd e hcard

end

/-- Both cards lie in sight: the second is continued behind its path. -/
def continuedBehindPath : Text := ".INCLUDE 'models/x.lib'\nwrdata out.csv\n+ v(a)".toList

theorem gate_reads_continuedBehindPath :
    Accepted continuedBehindPath ∧
      (ReadsLogicalLines continuedBehindPath ↔ PathsInSight continuedBehindPath) :=
  ⟨by decide +kernel, gate_reads_logical_lines_iff continuedBehindPath (by decide +kernel)⟩

/-- The path stands on the continuation line. -/
def continuedInclude : Text := ".include\n+ /etc/passwd".toList

/-- The path is quoted and holds a blank. -/
def quotedInclude : Text := ".include \"ok /../../etc/passwd\"".toList

theorem gate_misses_paths_out_of_sight :
    (Accepted continuedInclude ∧ ¬ ReadsLogicalLines continuedInclude) ∧
      (Accepted quotedInclude ∧ ¬ ReadsLogicalLines quotedInclude) := by
  decide +kernel

end CircuitForge
