/-
The calls in a text, piece by piece.

A call of a letter ends at the first `)` behind its parenthesis.  A text is
therefore scanned in pieces, each up to a `)`, and a piece holds at most one
call: that of the first letter in it that calls.
-/
import CircuitForge.Js.Scan
import CircuitForge.Js.Tokens

namespace Js

/-! ## Blanks -/

theorem trimEnd_append_of_blank (s : Text) {b : Text} (hb : ∀ c ∈ b, isSpace c = true) :
    trimEnd (s ++ b) = trimEnd s := by
  have hrev : ∀ c ∈ b.reverse, isSpace c = true := fun c hc => hb c (List.mem_reverse.mp hc)
  rw [trimEnd, trimEnd, List.rdropWhile, List.rdropWhile, List.reverse_append,
    List.dropWhile_append_of_pos hrev]

/-- A text is its trimmed self between blanks. -/
theorem exists_blanks (s : Text) : ∃ a b : Text, (∀ c ∈ a, isSpace c = true) ∧
    (∀ c ∈ b, isSpace c = true) ∧ s = a ++ (trim s ++ b) := by
  obtain ⟨b, hb, he⟩ := trimEnd_append_blank (trimStart s)
  refine ⟨s.takeWhile isSpace, b, fun _ hc => List.mem_takeWhile_imp hc, hb, ?_⟩
  rw [trim, he]
  exact List.takeWhile_append_dropWhile.symm

/-- Blanks around a token. -/
theorem trim_blanks {a s b : Text} (ha : ∀ c ∈ a, isSpace c = true)
    (hb : ∀ c ∈ b, isSpace c = true) (hs : Solid s) : trim (a ++ (s ++ b)) = s := by
  rw [trim, trimStart_append_of_nil (trimStart_of_blank ha)]
  cases s with
  | nil =>
    rw [List.nil_append, trimStart_of_blank hb]
    rfl
  | cons c s =>
    have htrim := trim_of_solid hs
    rw [trim, trimStart_of_head (hs c List.mem_cons_self)] at htrim
    rw [List.cons_append, trimStart_of_head (hs c List.mem_cons_self), ← List.cons_append,
      trimEnd_append_of_blank _ hb, htrim]

/-! ## Calls and replacements -/

/-- The texts between the parentheses of the calls that `replaceCallsFrom` replaces. -/
def callsFrom (l : Char) : Bool → Nat → Text → List Text
  | _, _, [] => []
  | _, skip + 1, c :: s => callsFrom l (isWord c) skip s
  | prev, 0, c :: s =>
    match if prev then none else callAt l (c :: s) with
    | some (inner, n) => inner :: callsFrom l (isWord c) (n - 1) s
    | none => callsFrom l (isWord c) 0 s

/-- A replacement looks at the calls alone. -/
theorem replaceCallsFrom_congr {l : Char} {f g : Text → Text → Text} (s : Text) :
    ∀ (prev : Bool) (skip : Nat),
      (∀ inner ∈ callsFrom l prev skip s, ∀ whole, f whole inner = g whole inner) →
      replaceCallsFrom l (fun _ => true) f prev skip s =
        replaceCallsFrom l (fun _ => true) g prev skip s := by
  induction s with
  | nil => exact fun _ _ _ => rfl
  | cons c s ih =>
    intro prev skip h
    cases skip with
    | succ skip => exact ih _ _ h
    | zero =>
      rw [replaceCallsFrom, replaceCallsFrom]
      rw [callsFrom] at h
      cases hcall : (if prev then none else callAt l (c :: s)) with
      | none =>
        rw [hcall] at h
        exact congrArg _ (ih _ _ h)
      | some e =>
        obtain ⟨inner, n⟩ := e
        rw [hcall] at h
        obtain ⟨hinner, hrest⟩ := List.forall_mem_cons.mp h
        exact congrArg₂ _ (hinner _) (ih _ _ hrest)

/-! ## Pieces -/

/-- `/^\s*\(/`: what stands behind the parenthesis. -/
def opened (s : Text) : Option Text :=
  match trimStart s with
  | '(' :: inner => some inner
  | _ => none

/-- What stands behind the parenthesis of the first call in a text without `)`. -/
def callIn (l : Char) : Bool → Text → Option Text
  | _, [] => none
  | prev, c :: s => (if !prev && sameLetter l c then opened s else none).or (callIn l (isWord c) s)

theorem opened_eq_some {s inner : Text} : opened s = some inner ↔ trimStart s = '(' :: inner := by
  unfold opened
  split
  case h_1 t ht => rw [ht, Option.some.injEq, List.cons.injEq, eq_self_iff_true, true_and]
  case h_2 hne => exact iff_of_false (fun h => nomatch h) (hne inner)

/-- A text is blanks, the parenthesis and what stands behind it. -/
theorem exists_opened {s inner : Text} (h : opened s = some inner) :
    ∃ blanks : Text, (∀ c ∈ blanks, isSpace c = true) ∧ s = blanks ++ '(' :: inner :=
  ⟨s.takeWhile isSpace, fun _ hc => List.mem_takeWhile_imp hc, by
    rw [← opened_eq_some.mp h]
    exact List.takeWhile_append_dropWhile.symm⟩

theorem opened_paren (inner : Text) : opened ('(' :: inner) = some inner :=
  opened_eq_some.mpr (trimStart_of_head (by decide))

theorem opened_blanks {blanks : Text} (h : ∀ c ∈ blanks, isSpace c = true) (inner : Text) :
    opened (blanks ++ '(' :: inner) = some inner := by
  rw [opened_eq_some, trimStart_append_of_nil (trimStart_of_blank h)]
  exact trimStart_of_head (by decide)

/-- The head of a text calls. -/
theorem callIn_call {l c : Char} {s inner : Text} (hc : sameLetter l c = true)
    (hs : opened s = some inner) : callIn l false (c :: s) = some inner := by
  rw [callIn, Bool.not_false, Bool.true_and, if_pos hc, hs, Option.some_or]

/-- The head of a text does not call. -/
theorem callIn_cons {l c : Char} {prev : Bool} {s : Text}
    (h : prev = false → sameLetter l c = true → opened s = none) :
    callIn l prev (c :: s) = callIn l (isWord c) s := by
  rw [callIn]
  by_cases hc : (!prev && sameLetter l c) = true
  · rw [if_pos hc]
    rw [Bool.and_eq_true, Bool.not_eq_true'] at hc
    rw [h hc.1 hc.2, Option.none_or]
  · rw [if_neg hc, Option.none_or]

/-- A run without the letter is passed over. -/
theorem callIn_append {l : Char} {a : Text} (h : ∀ c ∈ a, sameLetter l c = false) (prev : Bool)
    (b : Text) : callIn l prev (a ++ b) = callIn l ((a.getLast?.map isWord).getD prev) b := by
  induction a generalizing prev with
  | nil => rfl
  | cons c a ih =>
    obtain ⟨hc, ha⟩ := List.forall_mem_cons.mp h
    rw [List.cons_append, callIn_cons fun _ hl => absurd hl (by rw [hc]; exact Bool.false_ne_true),
      ih ha]
    cases a with
    | nil => rfl
    | cons d a =>
      rw [List.getLast?_cons_cons, List.getLast?_eq_some_getLast (List.cons_ne_nil d a)]
      rfl

theorem callIn_of_notMem {l : Char} {a : Text} (h : ∀ c ∈ a, sameLetter l c = false)
    (prev : Bool) : callIn l prev a = none := by
  rw [← List.append_nil a, callIn_append h]
  rfl

theorem trimStart_piece (y r : Text) : trimStart (y ++ ')' :: r) = trimStart y ++ ')' :: r := by
  by_cases h : trimStart y = []
  · rw [trimStart_append_of_nil h, trimStart_of_head (by decide), h, List.nil_append]
  · exact trimStart_append h

/-- The head of a text in front of a `)`. -/
theorem callAt_piece (l c : Char) {y : Text} (hy : ')' ∉ y) (r : Text) :
    callAt l (c :: (y ++ ')' :: r)) =
      (if sameLetter l c then opened y else none).map (·, y.length + 2) := by
  rw [callAt]
  by_cases hc : sameLetter l c = true
  case neg => rw [if_neg hc, if_neg hc, Option.map_none]
  rw [if_pos hc, if_pos hc]
  rw [trimStart_piece]
  cases ho : opened y with
  | some inner =>
    have ht : trimStart y = '(' :: inner := opened_eq_some.mp ho
    rw [ht, List.cons_append]
    have hinner : ∀ x ∈ inner, (x != ')') = true := by
      intro x hx
      have hmem : x ∈ trimStart y := ht ▸ List.mem_cons_of_mem _ hx
      exact bne_iff_ne.mpr fun e => hy (e ▸ (List.dropWhile_sublist isSpace).mem hmem)
    have htake : (inner ++ ')' :: r).takeWhile (· != ')') = inner := by
      rw [List.takeWhile_append_of_pos hinner]
      simp
    have hdrop : (inner ++ ')' :: r).dropWhile (· != ')') = ')' :: r := by
      rw [List.dropWhile_append_of_pos hinner]
      simp
    have hlen : (c :: (y ++ ')' :: r)).length - r.length = y.length + 2 := by
      rw [List.length_cons, List.length_append, List.length_cons]
      omega
    simp only [htake, hdrop, hlen, Option.map_some]
  | none =>
    rw [Option.map_none]
    split
    case h_2 => rfl
    case h_1 t ht =>
      cases hs : trimStart y with
      | nil =>
        rw [hs] at ht
        cases ht
      | cons d inner =>
        rw [hs, List.cons_append] at ht
        rw [(List.cons.inj ht).1] at hs
        rw [opened_eq_some.mpr hs] at ho
        cases ho

theorem callAt_of_notMem (l : Char) {s : Text} (h : ')' ∉ s) : callAt l s = none := by
  unfold callAt
  split
  case h_2 => rfl
  case h_1 c r =>
    split_ifs
    case neg => rfl
    split
    case h_2 => rfl
    case h_1 t ht =>
      have hdrop : t.dropWhile (· != ')') = [] := by
        refine List.dropWhile_eq_nil_iff.mpr fun x hx => bne_iff_ne.mpr fun e => h ?_
        have hmem : x ∈ trimStart r := ht ▸ List.mem_cons_of_mem _ hx
        exact List.mem_cons_of_mem _ (e ▸ (List.dropWhile_sublist isSpace).mem hmem)
      simp only [hdrop]

theorem callsFrom_of_notMem (l : Char) {s : Text} (h : ')' ∉ s) (prev : Bool) :
    callsFrom l prev 0 s = [] := by
  induction s generalizing prev with
  | nil => rfl
  | cons c s ih =>
    rw [callsFrom, callAt_of_notMem l h, ite_self]
    exact ih (fun hs => h (List.mem_cons_of_mem _ hs)) _

/-- The rest of a match is passed over. -/
theorem callsFrom_skip (l d : Char) (prev : Bool) (y r : Text) :
    callsFrom l prev (y.length + 1) (y ++ d :: r) = callsFrom l (isWord d) 0 r := by
  induction y generalizing prev with
  | nil => rfl
  | cons c y ih => exact ih (isWord c)

/-- The calls of a text are those of its pieces. -/
theorem callsFrom_piece {l : Char} (hl : sameLetter l ')' = false) {y : Text} (hy : ')' ∉ y)
    (prev : Bool) (r : Text) :
    callsFrom l prev 0 (y ++ ')' :: r) = (callIn l prev y).toList ++ callsFrom l false 0 r := by
  induction y generalizing prev with
  | nil =>
    rw [List.nil_append, callsFrom]
    have hcall : callAt l (')' :: r) = none := by
      rw [callAt, if_neg (by rw [hl]; exact Bool.false_ne_true)]
    rw [hcall, ite_self]
    rfl
  | cons c y ih =>
    have hy' : ')' ∉ y := fun h => hy (List.mem_cons_of_mem _ h)
    rw [List.cons_append, callsFrom, callAt_piece l c hy']
    cases prev with
    | true =>
      rw [if_pos rfl, callIn_cons fun h => absurd h (by decide)]
      exact ih hy' _
    | false =>
      rw [if_neg Bool.false_ne_true, callIn, Bool.not_false, Bool.true_and]
      cases (if sameLetter l c = true then opened y else none) with
      | none => exact ih hy' _
      | some inner => exact congrArg _ (callsFrom_skip l ')' _ y r)

end Js
