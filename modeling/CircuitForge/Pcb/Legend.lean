/-
Which legends the clamp leaves legible.

The loop finds a block, its layer and its items by patterns that do not know string literals.  It
does what it is for when it selects the low items of the silkscreen blocks and no others.
-/
import CircuitForge.Pcb.SilkBlocks

namespace CircuitForge
namespace Legend

open Js Anchors

variable {limits : SilkLimits}

/-! ## Runs the patterns and the walk do not tell apart -/

/-- The words of the items. -/
def itemWords : List Text := ["width".toList, "thickness".toList, "size".toList]

theorem isDrawable_of_word {body : Text} (h : (nextWord body).1 ∈ itemWords) (rest : Text) :
    isDrawable (body ++ rest) = false := by
  have hwords : ∀ word ∈ itemWords, ∀ t, isDrawable (word ++ t) = false := by
    intro word hword t
    simp only [itemWords, List.mem_cons, List.not_mem_nil, or_false] at hword
    rcases hword with rfl | rfl | rfl <;> rfl
  rw [← List.takeWhile_append_dropWhile (p := (!isSpace ·)) (l := body), List.append_assoc]
  exact hwords _ h _

theorem isSilk_of_word {body : Text} (h : (nextWord body).1 ∈ itemWords) (hbody : ')' ∉ body)
    (rest : Text) : isSilk (body ++ ')' :: rest) = false := by
  have hlayer : "layer".toList ∉ itemWords := by decide
  have hparse : parseSilk body = none := by
    unfold parseSilk
    refine if_neg ?_
    rintro ⟨hkey, -⟩
    exact hlayer (hkey ▸ h)
  rw [isSilk, silkAt, itemAt_of_parse_none hbody hparse]
  rfl

/-- A walk passes inert characters as they are. -/
theorem walk_inert {s : Text} (hs : ∀ c ∈ s, Inert c) {lexing : Lexing} (hlex : lexing ≠ .escaped)
    (floor depth : Nat) : walk floor lexing depth s = some (lexing, depth) := by
  induction s with
  | nil => rfl
  | cons c s ih =>
    rw [List.forall_mem_cons] at hs
    obtain ⟨⟨hopen, hclose, hquote, hslash⟩, hs⟩ := hs
    have hnext : lexing.next c = lexing := by
      cases lexing with
      | code => exact if_neg hquote
      | literal => exact (if_neg hslash).trans (if_neg hquote)
      | escaped => exact absurd rfl hlex
    have hdepth : depthAfter lexing depth c = depth :=
      (if_neg fun h => hopen h.2).trans (if_neg fun h => hclose h.2)
    rw [walk, if_neg fun h => hclose h.2.1, hnext, hdepth]
    exact ih hs

/-- The text of an item does not move a walk. -/
theorem walk_item {body : Text} (hbody : ∀ c ∈ body, Inert c) (floor : Nat) (lexing : Lexing)
    (depth : Nat) (rest : Text) :
    walk floor lexing depth ('(' :: (body ++ rest)) =
      walk floor (lexing.next '(') (depthAfter lexing depth '(') rest := by
  have hlex : lexing.next '(' ≠ .escaped := by cases lexing <;> decide
  rw [walk, if_neg fun h => absurd h.2.1 (by decide), walk_append, walk_inert hbody hlex]
  rfl

/-- Two runs that differ in an item at most. -/
structure Alike (w w' : Text) : Prop where
  drawable : isDrawable w' = isDrawable w
  silk : isSilk w' = isSilk w
  walk : ∀ floor lexing depth,
    walk floor lexing depth ('(' :: w') = walk floor lexing depth ('(' :: w)

theorem Alike.refl (w : Text) : Alike w w := ⟨rfl, rfl, fun _ _ _ => rfl⟩

theorem alike_item {a b : Text} (ha : ∀ c ∈ a, Inert c) (hb : ∀ c ∈ b, Inert c)
    (hwa : (nextWord a).1 ∈ itemWords) (hwb : (nextWord b).1 ∈ itemWords) (rest : Text) :
    Alike (a ++ ')' :: rest) (b ++ ')' :: rest) where
  drawable := by rw [isDrawable_of_word hwa, isDrawable_of_word hwb]
  silk := by
    rw [isSilk_of_word hwa (notMem_of_inert ha), isSilk_of_word hwb (notMem_of_inert hb)]
  walk floor lexing depth := by rw [walk_item ha, walk_item hb]

theorem word_stroke {body : Text} {stroke : Text × Text} (h : parseStroke body = some stroke) :
    (nextWord body).1 ∈ itemWords := by
  obtain ⟨hwords, hkey, -⟩ := parseStroke_eq_some h
  rw [hwords]
  rcases hkey with hkey | hkey <;> rw [hkey] <;> decide

theorem word_size_mem : "size".toList ∈ itemWords := by decide

theorem word_size {body : Text} {size : Text × Text} (h : parseSize body = some size) :
    (nextWord body).1 ∈ itemWords := by
  obtain ⟨axes, hwords, -⟩ := parseSize_eq_some h
  rw [hwords]
  exact word_size_mem

theorem word_strokeAfter {body : Text} {stroke : Text × Text} (h : parseStroke body = some stroke) :
    (nextWord (strokeAfter limits body stroke)).1 ∈ itemWords := by
  obtain ⟨hwords, hkey, -⟩ := parseStroke_eq_some h
  have hword := word_stroke h
  unfold strokeAfter
  split
  · exact hword
  · split_ifs
    · exact hword
    · rw [nextWord_strokeText hkey (printed_printMm _)]
      rw [hwords] at hword
      exact hword

theorem word_sizeAfter {body : Text} {size : Text × Text} (h : parseSize body = some size) :
    (nextWord (sizeAfter limits body size)).1 ∈ itemWords := by
  have hword := word_size h
  unfold sizeAfter
  split
  · dsimp only
    split_ifs
    · exact hword
    · rw [nextWord_sizeText (printed_scaledAxis _ _ _)]
      exact word_size_mem
  · exact hword

theorem alike_clampRun (w : Text) : Alike w (clampRun limits w) := by
  cases runCases w with
  | stroke hbody hparse =>
    rw [clampRun_stroke hbody hparse]
    exact alike_item (inert_stroke hparse) (strokeAfter_spec hparse).1 (word_stroke hparse)
      (word_strokeAfter hparse) _
  | size hbody hparse =>
    rw [clampRun_size hbody hparse]
    exact alike_item (inert_size hparse) (sizeAfter_spec hparse).1 (word_size hparse)
      (word_sizeAfter hparse) _
  | plain hstroke hsize =>
    rw [clampRun_plain hstroke hsize]
    exact .refl w

theorem alike_clampMarked {marks : List Bool} {ws : List Text} (h : marks.length = ws.length) :
    List.Forall₂ Alike ws (clampMarked limits marks ws) := by
  induction marks generalizing ws with
  | nil =>
    rw [List.eq_nil_of_length_eq_zero h.symm]
    exact .nil
  | cons b marks ih =>
    cases ws with
    | nil => cases h
    | cons w ws =>
      refine .cons ?_ (ih (Nat.succ.inj h))
      cases b with
      | false => exact .refl w
      | true => exact alike_clampRun w

section

variable {ws ws' : List Text} (h : List.Forall₂ Alike ws ws')
include h

theorem walk_alike (floor : Nat) (lexing : Lexing) (depth : Nat) :
    walk floor lexing depth (glue '(' ws') = walk floor lexing depth (glue '(' ws) := by
  induction h generalizing lexing depth with
  | nil => rfl
  | cons hw _ ih =>
    rw [glue_cons, glue_cons, ← List.cons_append, ← List.cons_append, walk_append, walk_append,
      hw.walk]
    exact congrArg (Option.bind _) (funext fun p => ih p.1 p.2)

theorem blockRuns_alike (lexing : Lexing) (depth : Nat) :
    blockRuns lexing depth ws' = blockRuns lexing depth ws := by
  induction h generalizing lexing depth with
  | nil => rfl
  | cons hw _ ih =>
    rw [blockRuns, blockRuns, hw.walk]
    split
    · rfl
    · rw [ih]

theorem any_isSilk_alike : ws'.any isSilk = ws.any isSilk := by
  induction h with
  | nil => rfl
  | cons hw _ ih => rw [List.any_cons, List.any_cons, hw.silk, ih]

theorem getD_alike (i : Nat) : Alike (ws.getD i []) (ws'.getD i []) := by
  induction h generalizing i with
  | nil => exact .refl []
  | cons hw _ ih =>
    cases i with
    | zero => exact hw
    | succ i => exact ih i

theorem acted_alike : acted ws' = acted ws := by
  cases h with
  | nil => rfl
  | cons hw hws =>
    have hall := List.Forall₂.cons hw hws
    rw [acted, acted, hw.drawable, blockRuns_alike hall]
    simp only [any_isSilk_alike (List.forall₂_take _ hall)]

theorem coveredFrom_alike (skip : Nat) : coveredFrom skip ws' = coveredFrom skip ws := by
  induction h generalizing skip with
  | nil => cases skip <;> rfl
  | cons hw hws ih =>
    cases skip with
    | succ skip => exact congrArg (List.cons true) (ih skip)
    | zero =>
      rw [coveredFrom, coveredFrom, acted_alike (.cons hw hws)]
      split
      · rw [ih]
      · rw [ih]

end

/-! ## The runs of a text -/

/-- The runs of the text. -/
def runsOf (s : Text) : List Text := (runs '(' s).2

/-- What stands behind the parenthesis `i`, up to the next one. -/
def run (s : Text) (i : Nat) : Text := (runsOf s).getD i []

/-- The text in front of the parenthesis `i`. -/
def upTo (s : Text) (i : Nat) : Text := (runs '(' s).1 ++ glue '(' ((runsOf s).take i)

/-- Every parenthesis outside literals has its partner, and every literal ends. -/
def Balanced (s : Text) : Prop := walk 0 .code 0 s = some (.code, 0)

instance (s : Text) : Decidable (Balanced s) :=
  inferInstanceAs (Decidable (walk 0 .code 0 s = some (.code, 0)))

/-- The parenthesis `i` is not in a literal. -/
def outside (s : Text) (i : Nat) : Bool := (walk 0 .code 0 (upTo s i)).any fun p => p.1 = .code

/-- Where the block of the parenthesis `j` stands behind `k` of its runs; none behind its end. -/
def within (s : Text) (j k : Nat) : Option (Lexing × Nat) :=
  walk 1 .code 0 (glue '(' (((runsOf s).drop j).take k))

/-- A drawable block with a silkscreen layer of its own. -/
def IsSilkBlock (s : Text) (j : Nat) : Prop :=
  outside s j = true ∧ isDrawable (run s j) = true ∧
    ∃ k < (runsOf s).length, within s j k = some (.code, 1) ∧ isSilk (run s (j + k)) = true

instance (s : Text) (j : Nat) : Decidable (IsSilkBlock s j) :=
  inferInstanceAs (Decidable (_ ∧ _ ∧ _))

/-- The parenthesis `i` is not in a literal, and in a silkscreen block. -/
def InSilk (s : Text) (i : Nat) : Prop :=
  outside s i = true ∧ ∃ j < i + 1, IsSilkBlock s j ∧ (within s j (i - j)).isSome = true

instance (s : Text) (i : Nat) : Decidable (InSilk s i) := inferInstanceAs (Decidable (_ ∧ _))

/-- The parenthesis `i` is in a block that the loop clamps. -/
def selected (s : Text) (i : Nat) : Bool := (coveredFrom 0 (runsOf s)).getD i false

/-! ## Items and their numbers -/

/-- What stands between the parenthesis and the first closing one. -/
def bodyOf (w : Text) : Option Text := if ')' ∈ w then some (w.takeWhile (· != ')')) else none

/-- The number of a `(width …)` or a `(thickness …)`. -/
def strokeNumber (w : Text) : Option Text :=
  (bodyOf w).bind fun body =>
    if (nextWord body).1 = "width".toList ∨ (nextWord body).1 = "thickness".toList then
      some (nextWord body).2
    else none

/-- The numbers of a `(size …)`. -/
def sizeNumbers (w : Text) : Option (Text × Text) :=
  (bodyOf w).bind fun body =>
    if (nextWord body).1 = "size".toList then some (nextWord (nextWord body).2) else none

/-- A plain decimal, and positive. -/
def plain (n : Text) : Bool := (readMm n).any (0 < ·)

/-- The numbers of the item are plain. -/
def plainItem (w : Text) : Bool :=
  (strokeNumber w).all plain && (sizeNumbers w).all fun s => plain s.1 && plain s.2

def PlainNumbers (s : Text) : Prop :=
  ∀ i < (runsOf s).length, InSilk s i → plainItem (run s i) = true

instance (s : Text) : Decidable (PlainNumbers s) :=
  inferInstanceAs (Decidable (∀ i < _, _ → _))

/-- A number, in plain or in scientific notation, of `floor` or more. -/
def atLeast (floor : Nat) (n : Text) : Bool :=
  (Re.seq decimalRe exponentRe).accepts n && decide (mm floor ≤ Exact.readUnsigned n)

/-- The numbers of the item are not below their floors. -/
def atFloor (limits : SilkLimits) (w : Text) : Bool :=
  (strokeNumber w).all (atLeast limits.minWidthMm) &&
    (sizeNumbers w).all fun s =>
      atLeast (minTextHeight limits) s.1 && atLeast (minTextHeight limits) s.2

/-- An item with other numbers: a stroke at its floor, or a size whose axes are scaled alike, up to
the rounding of the last decimal. -/
inductive Redrawn (limits : SilkLimits) : Text → Text → Prop
  | stroke {body key n rest : Text} :
      ')' ∉ body → parseStroke body = some (key, n) →
      Redrawn limits (body ++ ')' :: rest)
        (strokeText key (printMm limits.minWidthMm) ++ ')' :: rest)
  | size {body rest : Text} {size : Text × Text} {w h scale : Rat} {x y : Nat} :
      ')' ∉ body → parseSize body = some size → readMm size.1 = some w → readMm size.2 = some h →
      mm (minTextHeight limits) ≤ min (mm x) (mm y) →
      |mm x - w * scale| ≤ 1 / 20000 → |mm y - h * scale| ≤ 1 / 20000 →
      Redrawn limits (body ++ ')' :: rest) (sizeText (printMm x) (printMm y) ++ ')' :: rest)

/-- What the clamp is for. -/
structure Legible (limits : SilkLimits) (s out : Text) : Prop where
  floors : ∀ i, InSilk out i → atFloor limits (run out i) = true
  head : (runs '(' out).1 = (runs '(' s).1
  length : (runsOf out).length = (runsOf s).length
  rest : ∀ i, run out i = run s i ∨ InSilk s i ∧ Redrawn limits (run s i) (run out i)
  balanced : Balanced out
  again : (clampSilkscreen out limits).kicadPcb = out ∧
    (clampSilkscreen out limits).widthsClamped = 0 ∧
    (clampSilkscreen out limits).heightsClamped = 0

/-! ## What stays -/

theorem text_runs (s : Text) : (runs '(' s).1 ++ glue '(' (runsOf s) = s := glue_runs '(' s

/-- The runs of the text the clamp returns. -/
theorem runs_clampSilkscreen (limits : SilkLimits) (s : Text) :
    runs '(' (clampSilkscreen s limits).kicadPcb =
      ((runs '(' s).1, clampMarked limits (coveredFrom 0 (runsOf s)) (runsOf s)) := by
  obtain ⟨hhead, hws⟩ := runs_free '(' s
  have htext : (cutFrom 0 ((runs '(' s).1 ++ glue '(' (runs '(' s).2)).flatMap
      (Piece.text limits) = _ := text_cutFrom hhead hws
  rw [glue_runs] at htext
  show runs '(' ((cutFrom 0 s).flatMap (Piece.text limits)) = _
  rw [htext]
  exact runs_glue hhead (free_clampMarked hws)

/-- Two texts whose runs are alike. -/
structure AlikeTexts (s s' : Text) : Prop where
  head : (runs '(' s').1 = (runs '(' s).1
  runs : List.Forall₂ Alike (runsOf s) (runsOf s')

theorem alike_clampSilkscreen (limits : SilkLimits) (s : Text) :
    AlikeTexts s (clampSilkscreen s limits).kicadPcb where
  head := by rw [runs_clampSilkscreen]
  runs := by
    rw [runsOf, runsOf, runs_clampSilkscreen]
    exact alike_clampMarked (length_coveredFrom 0 _)

section

variable {s s' : Text} (h : AlikeTexts s s')
include h

theorem AlikeTexts.run (i : Nat) : Alike (run s i) (run s' i) := getD_alike h.runs i

theorem AlikeTexts.walk (k : Nat) :
    walk 0 .code 0 ((Anchors.runs '(' s').1 ++ glue '(' ((runsOf s').take k)) =
      walk 0 .code 0 ((Anchors.runs '(' s).1 ++ glue '(' ((runsOf s).take k)) := by
  rw [h.head, walk_append, walk_append]
  exact congrArg (Option.bind _)
    (funext fun p => walk_alike (List.forall₂_take k h.runs) 0 p.1 p.2)

theorem AlikeTexts.outside (i : Nat) : outside s' i = outside s i := by
  rw [Legend.outside, Legend.outside, upTo, upTo, h.walk]

theorem AlikeTexts.within (j k : Nat) : within s' j k = within s j k :=
  walk_alike (List.forall₂_take k (List.forall₂_drop j h.runs)) 1 .code 0

theorem AlikeTexts.isSilkBlock (j : Nat) : IsSilkBlock s' j ↔ IsSilkBlock s j := by
  unfold IsSilkBlock
  simp only [h.outside, h.within, (h.run _).drawable, (h.run _).silk, h.runs.length_eq]

theorem AlikeTexts.inSilk (i : Nat) : InSilk s' i ↔ InSilk s i := by
  unfold InSilk
  simp only [h.outside, h.within, h.isSilkBlock]

theorem AlikeTexts.balanced : Balanced s' ↔ Balanced s := by
  have hwalk := h.walk (runsOf s).length
  rw [List.take_length, text_runs, ← h.runs.length_eq.symm, List.take_length, text_runs] at hwalk
  rw [Balanced, Balanced, hwalk]

theorem AlikeTexts.selected (i : Nat) : selected s' i = selected s i := by
  rw [Legend.selected, Legend.selected, coveredFrom_alike h.runs]

end

/-! ## Numbers -/

theorem readMm_eq_some {n : Text} {v : Rat} :
    readMm n = some v ↔ decimalRe.accepts n = true ∧ Exact.readUnsigned n = v := by
  unfold readMm
  split_ifs with h
  · rw [Option.some_inj]
    exact (and_iff_right h).symm
  · exact iff_of_false (by simp) fun hv => h hv.1

theorem isNumberChar_of_decimal {n : Text} (h : decimalRe.accepts n = true) :
    n.all isNumberChar = true := by
  refine List.all_eq_true.mpr fun c hc => ?_
  have hchar := Re.chars_of_accepts h hc
  simp only [decimalRe, Re.plus, Re.opt, Re.char, Re.digit, Re.chars, Bool.or_eq_true,
    Bool.false_or, beq_iff_eq] at hchar
  rw [isNumberChar, Bool.or_eq_true, beq_iff_eq]
  tauto

theorem plain_spec {n : Text} (h : plain n = true) :
    n ≠ [] ∧ n.all isNumberChar = true ∧ ∃ v, readMm n = some v ∧ 0 < v := by
  obtain ⟨v, hread, hv⟩ := (Option.any_eq_true _ _).mp h
  have hdecimal := (readMm_eq_some.mp hread).1
  exact ⟨Re.ne_nil_of_accepts (by decide) hdecimal, isNumberChar_of_decimal hdecimal, v, hread,
    of_decide_eq_true hv⟩

/-- A number of the pattern is at its floor when it is not below. -/
theorem atLeast_of_readMm {floor : Nat} {n : Text} {v : Rat} (hread : readMm n = some v) :
    atLeast floor n = decide (mm floor ≤ v) := by
  obtain ⟨hdecimal, rfl⟩ := readMm_eq_some.mp hread
  have haccepts : (Re.seq decimalRe exponentRe).accepts n = true := by
    rw [Re.accepts_iff]
    refine Language.mem_mul.mpr ⟨n, (Re.accepts_iff _ _).mp hdecimal, [], ?_, List.append_nil n⟩
    exact (Re.nullable_iff _).mp rfl
  rw [atLeast, haccepts, Bool.true_and]

theorem exponent_mem {ex : Text} (h : Exact.IsExponent ex) : ex ∈ exponentRe.lang := by
  rcases h with rfl | ⟨sg, d, rfl, hsg, hd⟩
  · exact (Re.nullable_iff _).mp rfl
  · rw [exponentRe, Re.opt, Re.lang, Language.mem_add]
    refine Or.inr (Language.mem_mul.mpr ⟨['e'], Or.inl ⟨'e', rfl, rfl⟩, sg :: d, ?_, rfl⟩)
    refine Language.mem_mul.mpr ⟨[sg], ?_, d, hd.mem_lang, rfl⟩
    rw [Re.opt, Re.lang, Language.mem_add]
    rcases hsg with rfl | rfl
    · exact Or.inr (Or.inl ⟨'+', rfl, rfl⟩)
    · exact Or.inr (Or.inr ⟨'-', rfl, rfl⟩)

/-- A printed length is a number, in either notation. -/
theorem atLeast_printMm {floor n : Nat} (h : mm floor ≤ mm n) :
    atLeast floor (printMm n) = true := by
  obtain ⟨ip, fr, ex, heq, hip, hfr, hex⟩ := isNumeral_printMm n
  rw [atLeast, readUnsigned_printMm, decide_eq_true h, Bool.and_true, heq, Re.accepts_iff,
    ← List.append_assoc]
  exact Language.mem_mul.mpr ⟨ip ++ fr, decimal_mem hip hfr, ex, exponent_mem hex, rfl⟩

/-! ## Items -/

section

variable {body rest : Text}

theorem bodyOf_body (h : ')' ∉ body) : bodyOf (body ++ ')' :: rest) = some body := by
  rw [bodyOf, if_pos (List.mem_append_right _ List.mem_cons_self), takeWhile_body h]

theorem bodyOf_eq_some {w : Text} (h : bodyOf w = some body) :
    ∃ rest, w = body ++ ')' :: rest ∧ ')' ∉ body := by
  unfold bodyOf at h
  split_ifs at h with hclose
  obtain ⟨b, rest, rfl, hb⟩ := List.eq_append_cons_of_mem hclose
  have heq : bodyOf (b ++ ')' :: rest) = some b := bodyOf_body hb
  rw [bodyOf, if_pos hclose, h] at heq
  cases heq
  exact ⟨rest, rfl, hb⟩

variable {stroke size : Text × Text}

theorem numbers_stroke (hbody : ')' ∉ body) (h : parseStroke body = some stroke) :
    strokeNumber (body ++ ')' :: rest) = some stroke.2 ∧
      sizeNumbers (body ++ ')' :: rest) = none := by
  obtain ⟨hwords, hkey, -⟩ := parseStroke_eq_some h
  have hne : stroke.1 ≠ "size".toList := by
    rcases hkey with hkey | hkey <;> rw [hkey] <;> decide
  rw [strokeNumber, sizeNumbers, bodyOf_body hbody, Option.bind_some, Option.bind_some, hwords]
  exact ⟨if_pos hkey, if_neg hne⟩

theorem size_ne_key :
    ¬ ("size".toList = "width".toList ∨ "size".toList = "thickness".toList) := by decide

theorem numbers_size (hbody : ')' ∉ body) (h : parseSize body = some size) :
    strokeNumber (body ++ ')' :: rest) = none ∧ sizeNumbers (body ++ ')' :: rest) = some size := by
  obtain ⟨axes, hwords, haxes, -⟩ := parseSize_eq_some h
  rw [strokeNumber, sizeNumbers, bodyOf_body hbody, Option.bind_some, Option.bind_some, hwords,
    haxes]
  exact ⟨if_neg size_ne_key, if_pos rfl⟩

theorem atFloor_stroke (hbody : ')' ∉ body) (h : parseStroke body = some stroke) :
    atFloor limits (body ++ ')' :: rest) = atLeast limits.minWidthMm stroke.2 := by
  rw [atFloor, (numbers_stroke hbody h).1, (numbers_stroke hbody h).2]
  exact Bool.and_true _

theorem atFloor_size (hbody : ')' ∉ body) (h : parseSize body = some size) :
    atFloor limits (body ++ ')' :: rest) =
      (atLeast (minTextHeight limits) size.1 && atLeast (minTextHeight limits) size.2) := by
  rw [atFloor, (numbers_size hbody h).1, (numbers_size hbody h).2]
  rfl

end

/-- An item at its floor is not low. -/
theorem lowRun_of_atFloor {w : Text} (h : atFloor limits w = true) : lowRun limits w = false := by
  cases runCases w with
  | @stroke body rest stroke hbody hparse =>
    rw [atFloor_stroke hbody hparse] at h
    rw [lowRun_stroke hbody hparse]
    cases hread : readMm stroke.2 with
    | none => rfl
    | some v =>
      rw [atLeast_of_readMm hread, decide_eq_true_iff] at h
      exact decide_eq_false (not_lt.mpr h)
  | @size body rest size hbody hparse =>
    rw [atFloor_size hbody hparse, Bool.and_eq_true] at h
    rw [lowRun_size hbody hparse, smallerAxis]
    cases hw : readMm size.1 with
    | none => rfl
    | some w =>
      cases hh : readMm size.2 with
      | none => rfl
      | some h' =>
        rw [atLeast_of_readMm hw, atLeast_of_readMm hh, decide_eq_true_iff, decide_eq_true_iff,
          ← le_min_iff] at h
        exact decide_eq_false (not_lt.mpr h)
  | plain hstroke hsize => exact lowRun_plain hstroke hsize

/-- What a run with plain numbers may be. -/
inductive PlainCases : Text → Prop
  | stroke {body rest : Text} {stroke : Text × Text} {v : Rat} :
      ')' ∉ body → parseStroke body = some stroke → readMm stroke.2 = some v →
      PlainCases (body ++ ')' :: rest)
  | size {body rest : Text} {size : Text × Text} {w h : Rat} :
      ')' ∉ body → parseSize body = some size → readMm size.1 = some w → readMm size.2 = some h →
      0 < w → 0 < h → PlainCases (body ++ ')' :: rest)
  | other {w : Text} : strokeNumber w = none → sizeNumbers w = none → PlainCases w

theorem plainCases {w : Text} (h : plainItem w = true) : PlainCases w := by
  rw [plainItem, Bool.and_eq_true] at h
  cases hbody : bodyOf w with
  | none => exact .other (by rw [strokeNumber, hbody]; rfl) (by rw [sizeNumbers, hbody]; rfl)
  | some body =>
    rw [strokeNumber, sizeNumbers, hbody, Option.bind_some, Option.bind_some] at h
    by_cases hkey : (nextWord body).1 = "width".toList ∨ (nextWord body).1 = "thickness".toList
    · rw [if_pos hkey, Option.all_some] at h
      obtain ⟨hne, hall, v, hread, -⟩ := plain_spec h.1
      obtain ⟨rest, rfl, hclose⟩ := bodyOf_eq_some hbody
      have hparse : parseStroke body = some (nextWord body) := by
        unfold parseStroke
        exact if_pos ⟨hkey, hne, hall⟩
      exact .stroke hclose hparse hread
    · by_cases hsize : (nextWord body).1 = "size".toList
      · rw [if_pos hsize, Option.all_some, Bool.and_eq_true] at h
        obtain ⟨hnew, hallw, w, hw, hposw⟩ := plain_spec h.2.1
        obtain ⟨hneh, hallh, v, hh, hposh⟩ := plain_spec h.2.2
        obtain ⟨rest, rfl, hclose⟩ := bodyOf_eq_some hbody
        have hparse : parseSize body = some (nextWord (nextWord body).2) := by
          unfold parseSize
          exact if_pos ⟨hsize, hnew, hneh, hallw, hallh⟩
        exact .size hclose hparse hw hh hposw hposh
      · refine .other ?_ ?_
        · rw [strokeNumber, hbody]
          exact if_neg hkey
        · rw [sizeNumbers, hbody]
          exact if_neg hsize

/-- A plain item that is not low is at its floor. -/
theorem atFloor_of_plain {w : Text} (hplain : plainItem w = true)
    (hlow : lowRun limits w = false) : atFloor limits w = true := by
  cases plainCases hplain with
  | stroke hbody hparse hread =>
    rw [lowRun_stroke hbody hparse, hread, Option.any_some, decide_eq_false_iff_not, not_lt] at hlow
    rw [atFloor_stroke hbody hparse, atLeast_of_readMm hread]
    exact decide_eq_true hlow
  | size hbody hparse hw hh =>
    rw [lowRun_size hbody hparse, smallerAxis, hw, hh, Option.bind_some, Option.map_some,
      Option.any_some, decide_eq_false_iff_not, not_lt, le_min_iff] at hlow
    rw [atFloor_size hbody hparse, atLeast_of_readMm hw, atLeast_of_readMm hh,
      decide_eq_true hlow.1, decide_eq_true hlow.2]
    rfl
  | other hstroke hsize =>
    rw [atFloor, hstroke, hsize]
    rfl

theorem atFloor_strokeText {key : Text} (hkey : key = "width".toList ∨ key = "thickness".toList)
    (rest : Text) :
    atFloor limits (strokeText key (printMm limits.minWidthMm) ++ ')' :: rest) = true := by
  have hprinted := printed_printMm limits.minWidthMm
  have hbody := notMem_of_inert (inert_strokeText hkey hprinted)
  have hne : key ≠ "size".toList := by
    rcases hkey with rfl | rfl <;> decide
  rw [atFloor, strokeNumber, sizeNumbers, bodyOf_body hbody, Option.bind_some, Option.bind_some,
    nextWord_strokeText hkey hprinted]
  dsimp only
  rw [if_pos hkey, if_neg hne, Option.all_some, atLeast_printMm le_rfl]
  rfl

theorem atFloor_sizeText {x y : Nat} (hx : mm (minTextHeight limits) ≤ mm x)
    (hy : mm (minTextHeight limits) ≤ mm y) (rest : Text) :
    atFloor limits (sizeText (printMm x) (printMm y) ++ ')' :: rest) = true := by
  have hpx := printed_printMm x
  have hpy := printed_printMm y
  have hbody := notMem_of_inert (inert_sizeText hpx hpy)
  rw [atFloor, strokeNumber, sizeNumbers, bodyOf_body hbody, Option.bind_some, Option.bind_some,
    nextWord_sizeText hpx]
  dsimp only
  rw [nextWord_blank hpx.solid, trimStart_solid hpy.solid,
    if_neg size_ne_key, if_pos rfl, Option.all_some]
  dsimp only
  rw [atLeast_printMm hx, atLeast_printMm hy]
  rfl

/-- What the clamp makes of a plain item that is low. -/
theorem redrawn_clampRun {w : Text} (hplain : plainItem w = true)
    (hlow : lowRun limits w = true) :
    Redrawn limits w (clampRun limits w) ∧ atFloor limits (clampRun limits w) = true := by
  cases plainCases hplain with
  | @stroke body rest stroke v hbody hparse hread =>
    rw [lowRun_stroke hbody hparse, hread, Option.any_some, decide_eq_true_iff] at hlow
    rw [clampRun_stroke hbody hparse, strokeAfter, hread]
    dsimp only
    rw [if_neg (not_le.mpr hlow)]
    exact ⟨.stroke hbody hparse, atFloor_strokeText (parseStroke_eq_some hparse).2.1 rest⟩
  | @size body rest size w h hbody hparse hw hh hposw hposh =>
    rw [lowRun_size hbody hparse, smallerAxis, hw, hh, Option.bind_some, Option.map_some,
      Option.any_some, decide_eq_true_iff] at hlow
    have hpos : 0 < min w h := lt_min hposw hposh
    have hscale : 0 ≤ mm (minTextHeight limits) / min w h :=
      div_nonneg (hpos.trans hlow).le hpos.le
    obtain ⟨hwtext, hwle⟩ := le_scaledAxis hpos (min_le_left w h) hlow
    obtain ⟨hhtext, hhle⟩ := le_scaledAxis hpos (min_le_right w h) hlow
    rw [clampRun_size hbody hparse, sizeAfter, hw, hh]
    dsimp only
    rw [if_neg (not_le.mpr hlow), hwtext, hhtext]
    exact ⟨.size hbody hparse hw hh (le_min hwle hhle)
      (abs_round4_sub_le (mul_nonneg hposw.le hscale))
      (abs_round4_sub_le (mul_nonneg hposh.le hscale)), atFloor_sizeText hwle hhle rest⟩
  | other hstroke hsize =>
    have hfloor : atFloor limits w = true := by
      rw [atFloor, hstroke, hsize]
      rfl
    rw [lowRun_of_atFloor hfloor] at hlow
    cases hlow

/-! ## The clamp -/

/-- A run of the text the clamp returns. -/
theorem run_clampSilkscreen (limits : SilkLimits) (s : Text) (i : Nat) :
    run (clampSilkscreen s limits).kicadPcb i =
      if selected s i then clampRun limits (run s i) else run s i := by
  have hlen := length_coveredFrom 0 (runsOf s)
  rw [run, runsOf, runs_clampSilkscreen, clampMarked, run, selected, List.getD_eq_getElem?_getD,
    List.getD_eq_getElem?_getD, List.getD_eq_getElem?_getD, List.getElem?_zipWith]
  by_cases hi : i < (runsOf s).length
  · rw [List.getElem?_eq_getElem hi, List.getElem?_eq_getElem (hlen.symm ▸ hi)]
    rfl
  · rw [List.getElem?_eq_none (not_lt.mp hi), List.getElem?_eq_none (hlen.symm ▸ not_lt.mp hi)]
    rfl

/-- A second application finds nothing to do. -/
theorem clampSilkscreen_again (limits : SilkLimits) (s : Text) :
    let out := (clampSilkscreen s limits).kicadPcb
    (clampSilkscreen out limits).kicadPcb = out ∧
      (clampSilkscreen out limits).widthsClamped = 0 ∧
      (clampSilkscreen out limits).heightsClamped = 0 := by
  intro out
  have halike := alike_clampSilkscreen limits s
  have hquiet : Quiet limits (coveredFrom 0 (runsOf out)) (runsOf out) := by
    rw [coveredFrom_alike halike.runs]
    have hruns := congrArg Prod.snd (runs_clampSilkscreen limits s)
    show Quiet limits _ (runs '(' out).2
    rw [hruns]
    exact quiet_clampMarked (length_coveredFrom 0 _)
  obtain ⟨hhead, hws⟩ := runs_free '(' out
  have hcounts := counts_cutFrom hhead hws hquiet
  rw [glue_runs] at hcounts
  refine ⟨?_, ?_, ?_⟩
  · have htext : (cutFrom 0 ((runs '(' out).1 ++ glue '(' (runs '(' out).2)).flatMap
        (Piece.text limits) = _ := text_cutFrom hhead hws
    rw [glue_runs] at htext
    show (cutFrom 0 out).flatMap (Piece.text limits) = out
    rw [htext]
    show (runs '(' out).1 ++
      glue '(' (clampMarked limits (coveredFrom 0 (runsOf out)) (runsOf out)) = out
    rw [clampMarked_of_quiet hquiet, text_runs]
  · exact List.sum_eq_zero (List.forall_mem_map.mpr fun r hr => (hcounts r hr).1)
  · exact List.sum_eq_zero (List.forall_mem_map.mpr fun r hr => (hcounts r hr).2)

section

variable {s : Text} (hplain : PlainNumbers s)
include hplain

theorem plainItem_run {i : Nat} (h : InSilk s i) : plainItem (run s i) = true := by
  by_cases hlt : i < (runsOf s).length
  · exact hplain i hlt h
  · rw [run, List.getD_eq_getElem?_getD, List.getElem?_eq_none (not_lt.mp hlt)]
    rfl

/-- The clamp is right where it selects the low items of the silkscreen blocks and no others. -/
theorem legible_of_selected (hbalanced : Balanced s)
    (h : ∀ i, lowRun limits (run s i) = true → (selected s i = true ↔ InSilk s i)) :
    Legible limits s (clampSilkscreen s limits).kicadPcb := by
  have halike := alike_clampSilkscreen limits s
  refine ⟨fun i hsilk => ?_, halike.head, halike.runs.length_eq.symm, fun i => ?_,
    halike.balanced.mpr hbalanced, clampSilkscreen_again limits s⟩
  · rw [halike.inSilk] at hsilk
    have hitem := plainItem_run hplain hsilk
    rw [run_clampSilkscreen]
    cases hlow : lowRun limits (run s i) with
    | true =>
      rw [if_pos ((h i hlow).mpr hsilk)]
      exact (redrawn_clampRun hitem hlow).2
    | false =>
      rw [clampRun_of_not_low hlow, ite_self]
      exact atFloor_of_plain hitem hlow
  · rw [run_clampSilkscreen]
    cases hlow : lowRun limits (run s i) with
    | false =>
      rw [clampRun_of_not_low hlow, ite_self]
      exact Or.inl rfl
    | true =>
      by_cases hselected : selected s i = true
      · have hsilk := (h i hlow).mp hselected
        rw [if_pos hselected]
        exact Or.inr ⟨hsilk, (redrawn_clampRun (plainItem_run hplain hsilk) hlow).1⟩
      · rw [if_neg hselected]
        exact Or.inl rfl

end

def fabLimits : SilkLimits := ⟨1500, 8000⟩

def partLabel : Text :=
  "(pcb (gr_text \"(R1\" (layer \"F.SilkS\") (font (size 0.2 0.4) (thickness 0.03))))".toList

/-- A label that reads like a stroke. -/
def strokeLabel : Text := "(gr_text \"(width 0.1)\" (layer \"F.SilkS\"))".toList

end Legend
end CircuitForge
