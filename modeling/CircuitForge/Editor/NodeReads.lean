/-
The node references of a copied expression.

A reference `v(…)` ends at the first `)` behind it, for the copy's pattern and for the
generator's alike.  An expression is therefore read in pieces, each in front of a `)`.
The generator reads the first call of a piece, whatever stands between its parentheses;
the copy looks for a call that holds one reference and nothing else.
-/
import CircuitForge.Editor.Parts
import CircuitForge.Js.Calls

namespace CircuitForge

open Js

/-- `/^\s*([^),\s]+)\s*$/`: the reference that stands alone between two parentheses. -/
def soleRef (inner : Text) : Option Text :=
  if trim inner ≠ [] ∧ Solid (trim inner) ∧ ',' ∉ trim inner then some (trim inner) else none

/-- A piece in front of a `)` with its sole reference re-pointed, and the references that stay
with the original's nodes. -/
def repointPiece (shared : List Text) (netFor : Map Text Text) : Bool → Text → Text × List Text
  | _, [] => ([], [])
  | prev, c :: y =>
    match if !prev && sameLetter 'v' c then (opened y).bind soleRef else none with
    | none =>
      let (out, reads) := repointPiece shared netFor (isWord c) y
      (c :: out, reads)
    | some ref =>
      if ref ∈ shared then (c :: y, [])
      else
        match truthy (netFor.get? ref) with
        | some to' => (replaceFirst ref to' (c :: y), [])
        | none => (c :: y, [ref])

/-! ## The copy's pattern -/

theorem soleRef_eq_some {inner ref : Text} :
    soleRef inner = some ref ↔ trim inner = ref ∧ ref ≠ [] ∧ Solid ref ∧ ',' ∉ ref := by
  rw [soleRef]
  constructor
  · intro h
    split_ifs at h with hc
    obtain rfl := Option.some.inj h
    exact ⟨rfl, hc⟩
  · rintro ⟨rfl, hc⟩
    rw [if_pos hc]

/-- The end of a reference in the pattern. -/
def inRef (c : Char) : Bool := c ≠ ')' && c ≠ ',' && !isSpace c

/-- What stands alone is what the pattern reads. -/
theorem soleRef_iff {inner ref : Text} (h : ')' ∉ inner) :
    soleRef inner = some ref ↔ (trimStart inner).takeWhile inRef = ref ∧ ref ≠ [] ∧
      trimStart ((trimStart inner).dropWhile inRef) = [] := by
  rw [soleRef_eq_some]
  constructor
  · rintro ⟨rfl, hne, hsolid, hcomma⟩
    obtain ⟨b, hb, he⟩ := trimEnd_append_blank (trimStart inner)
    change trim inner ++ b = trimStart inner at he
    have hin : ∀ c ∈ trim inner, inRef c = true := by
      intro c hc
      have h₁ : c ≠ ')' := fun e => h (e ▸ mem_of_mem_trim hc)
      have h₂ : c ≠ ',' := fun e => hcomma (e ▸ hc)
      simp [inRef, h₁, h₂, hsolid c hc]
    have hout : b.takeWhile inRef = [] ∧ b.dropWhile inRef = b := by
      cases b with
      | nil => exact ⟨rfl, rfl⟩
      | cons d b =>
        have hd : inRef d = false := by simp [inRef, hb d List.mem_cons_self]
        exact ⟨by simp [hd], by simp [hd]⟩
    rw [← he, List.takeWhile_append_of_pos hin, List.dropWhile_append_of_pos hin, hout.1, hout.2,
      List.append_nil]
    exact ⟨rfl, hne, trimStart_of_blank hb⟩
  · rintro ⟨rfl, hne, hblank⟩
    have hsplit := (@List.takeWhile_append_dropWhile _ inRef (trimStart inner)).symm
    have hin : ∀ c ∈ (trimStart inner).takeWhile inRef, inRef c = true :=
      fun _ hc => List.mem_takeWhile_imp hc
    simp only [inRef, Bool.and_eq_true, decide_eq_true_eq, Bool.not_eq_true'] at hin
    have hsolid : Solid ((trimStart inner).takeWhile inRef) := fun c hc => (hin c hc).2
    refine ⟨?_, hne, hsolid, fun hc => (hin _ hc).1.2 rfl⟩
    rw [trim]
    conv_lhs => rw [hsplit]
    rw [trimEnd_append_of_blank _ (List.dropWhile_eq_nil_iff.mp hblank)]
    refine List.rdropWhile_eq_self_iff.mpr fun hne' => ?_
    rw [hsolid _ (List.getLast_mem hne')]
    exact Bool.false_ne_true

/-- The pattern is there. -/
theorem nodeRefAt_read {s inner ref rest : Text} {d : Char}
    (h : s.dropWhile isSpace = '(' :: inner)
    (href : (trimStart inner).takeWhile inRef = d :: ref)
    (hrest : trimStart ((trimStart inner).dropWhile inRef) = ')' :: rest) :
    nodeRefAt s = some (d :: ref, s.take (s.length - rest.length), rest) := by
  have href' : (inner.dropWhile isSpace).takeWhile
      (fun c => c ≠ ')' && c ≠ ',' && !isSpace c) = d :: ref := href
  have hrest' : ((inner.dropWhile isSpace).dropWhile
      (fun c => c ≠ ')' && c ≠ ',' && !isSpace c)).dropWhile isSpace = ')' :: rest := hrest
  unfold nodeRefAt
  rw [h]
  simp only [href', hrest']

/-- The pattern is not there. -/
theorem nodeRefAt_unread {s inner : Text} (h : s.dropWhile isSpace = '(' :: inner)
    (hno : ∀ d ref rest, (trimStart inner).takeWhile inRef = d :: ref →
      trimStart ((trimStart inner).dropWhile inRef) ≠ ')' :: rest) : nodeRefAt s = none := by
  unfold nodeRefAt
  rw [h]
  simp only
  split
  case h_2 => rfl
  case h_1 d ref rest hr hblank => exact absurd hblank (hno d ref rest hr)

/-- No `(` is opened. -/
theorem nodeRefAt_unopened {s : Text} (h : ∀ inner, s.dropWhile isSpace ≠ '(' :: inner) :
    nodeRefAt s = none := by
  unfold nodeRefAt
  split
  case h_2 => rfl
  case h_1 inner hs => exact absurd hs (h inner)

/-- The pattern in front of a `)`. -/
theorem nodeRefAt_piece {y : Text} (hy : ')' ∉ y) (r : Text) :
    nodeRefAt (y ++ ')' :: r) =
      ((opened y).bind soleRef).map fun ref => (ref, y ++ [')'], r) := by
  have htake : (y ++ ')' :: r).take ((y ++ ')' :: r).length - r.length) = y ++ [')'] := by
    rw [show y ++ ')' :: r = (y ++ [')']) ++ r by rw [List.append_assoc]; rfl, List.length_append,
      Nat.add_sub_cancel, List.take_left]
  have hopen : (y ++ ')' :: r).dropWhile isSpace = trimStart y ++ ')' :: r := trimStart_piece y r
  cases ho : opened y with
  | none =>
    refine nodeRefAt_unopened fun t ht => ?_
    rw [hopen] at ht
    cases hs : trimStart y with
    | nil =>
      rw [hs] at ht
      cases ht
    | cons d inner =>
      rw [hs, List.cons_append] at ht
      rw [(List.cons.inj ht).1] at hs
      rw [opened_eq_some.mpr hs] at ho
      cases ho
  | some inner =>
    have ht : trimStart y = '(' :: inner := opened_eq_some.mp ho
    have hinner : ')' ∉ inner := by
      intro h
      have hmem : ')' ∈ trimStart y := ht ▸ List.mem_cons_of_mem _ h
      exact hy ((List.dropWhile_sublist isSpace).mem hmem)
    have hend : inRef ')' = false := rfl
    have hstart : trimStart (inner ++ ')' :: r) = trimStart inner ++ ')' :: r :=
      trimStart_piece inner r
    have hpre : (trimStart (inner ++ ')' :: r)).takeWhile inRef =
        (trimStart inner).takeWhile inRef := by
      rw [hstart, List.takeWhile_append]
      split
      case isTrue h =>
        rw [(List.takeWhile_prefix inRef).eq_of_length h]
        simp [hend]
      case isFalse => rfl
    have hpost : trimStart ((trimStart (inner ++ ')' :: r)).dropWhile inRef) =
        trimStart ((trimStart inner).dropWhile inRef) ++ ')' :: r := by
      rw [hstart, List.dropWhile_append]
      split
      case isTrue h =>
        rw [List.isEmpty_iff.mp h]
        simp [hend, trimStart, isSpace]
      case isFalse => exact trimStart_piece _ r
    rw [ht, List.cons_append] at hopen
    rw [Option.bind_some]
    cases href : soleRef inner with
    | some ref =>
      obtain ⟨hr, hne, hblank⟩ := (soleRef_iff hinner).mp href
      rw [hr] at hpre
      rw [hblank, List.nil_append] at hpost
      cases ref with
      | nil => exact absurd rfl hne
      | cons d ref => rw [nodeRefAt_read hopen hpre hpost, htake, Option.map_some]
    | none =>
      rw [Option.map_none]
      refine nodeRefAt_unread hopen fun d ref rest hr hblank => ?_
      rw [hpre] at hr
      rw [hpost] at hblank
      refine absurd ((soleRef_iff hinner).mpr ⟨hr, List.cons_ne_nil d ref, ?_⟩)
        (by rw [href]; exact (Option.some_ne_none _).symm)
      cases hs : trimStart ((trimStart inner).dropWhile inRef) with
      | nil => rfl
      | cons e s =>
        rw [hs, List.cons_append] at hblank
        have hmem : ')' ∈ trimStart ((trimStart inner).dropWhile inRef) := by
          rw [hs, (List.cons.inj hblank).1]
          exact List.mem_cons_self
        exact absurd ((List.dropWhile_sublist isSpace).mem
          ((List.dropWhile_sublist inRef).mem ((List.dropWhile_sublist isSpace).mem hmem))) hinner

theorem nodeRefAt_of_notMem {s : Text} (h : ')' ∉ s) : nodeRefAt s = none := by
  unfold nodeRefAt
  split
  case h_2 => rfl
  case h_1 inner hs =>
    simp only
    split
    case h_2 => rfl
    case h_1 rest _ hrest =>
      have hclose : ')' ∈ trimStart ((trimStart inner).dropWhile inRef) := by
        rw [show trimStart ((trimStart inner).dropWhile inRef) = ')' :: rest from hrest]
        exact List.mem_cons_self
      have hinner : ')' ∈ inner := (List.dropWhile_sublist isSpace).mem
        ((List.dropWhile_sublist inRef).mem ((List.dropWhile_sublist isSpace).mem hclose))
      refine absurd ((List.dropWhile_sublist isSpace).mem ?_) h
      rw [hs]
      exact List.mem_cons_of_mem _ hinner

/-! ## The first occurrence -/

theorem startsWith_iff {s p : Text} : startsWith s p = true ↔ p <+: s := List.isPrefixOf_iff_prefix

theorem replaceFirst_head {ref s : Text} (to' : Text) (h : ref <+: s) :
    replaceFirst ref to' s = to' ++ s.drop ref.length := by
  cases s with
  | nil =>
    rw [List.prefix_nil.mp h]
    exact (List.append_nil _).symm
  | cons c s => rw [replaceFirst, if_pos (startsWith_iff.mpr h)]

theorem replaceFirst_cons {ref : Text} (to' : Text) {c : Char} {s : Text} (h : ¬ ref <+: c :: s) :
    replaceFirst ref to' (c :: s) = c :: replaceFirst ref to' s := by
  rw [replaceFirst, if_neg fun hs => h (startsWith_iff.mp hs)]

/-- A text that holds the reference is replaced in, whatever follows it. -/
theorem replaceFirst_append {ref a : Text} (to' : Text) (h : ref <:+: a) (b : Text) :
    replaceFirst ref to' (a ++ b) = replaceFirst ref to' a ++ b := by
  induction a with
  | nil =>
    obtain rfl := List.infix_nil.mp h
    rw [replaceFirst_head to' (List.nil_prefix), replaceFirst_head to' List.nil_prefix]
    simp
  | cons c a ih =>
    by_cases hp : ref <+: c :: a
    · rw [replaceFirst_head to' hp, replaceFirst_head to' (hp.trans (List.prefix_append _ _)),
        List.drop_append_of_le_length hp.length_le, List.append_assoc]
    · have hp' : ¬ ref <+: c :: (a ++ b) := fun hb =>
        hp (List.prefix_of_prefix_length_le hb (List.prefix_append (c :: a) b) h.length_le)
      rw [replaceFirst_cons to' hp, List.cons_append, replaceFirst_cons to' hp',
        ih ((List.infix_cons_iff.mp h).resolve_left hp), List.cons_append]

/-- No token begins with a blank. -/
theorem not_prefix_of_blank {ref s : Text} {c : Char} (hne : ref ≠ []) (hsolid : Solid ref)
    (hc : isSpace c = true) : ¬ ref <+: c :: s := by
  cases ref with
  | nil => exact absurd rfl hne
  | cons d ref =>
    intro h
    have hd := hsolid d List.mem_cons_self
    rw [(List.cons_prefix_cons.mp h).1, hc] at hd
    cases hd

theorem replaceFirst_blanks {ref : Text} (to' : Text) (hne : ref ≠ []) (hsolid : Solid ref)
    {blanks : Text} (hb : ∀ c ∈ blanks, isSpace c = true) (s : Text) :
    replaceFirst ref to' (blanks ++ s) = blanks ++ replaceFirst ref to' s := by
  induction blanks with
  | nil => rfl
  | cons c blanks ih =>
    obtain ⟨hc, hb⟩ := List.forall_mem_cons.mp hb
    rw [List.cons_append, replaceFirst_cons to' (not_prefix_of_blank hne hsolid hc), ih hb,
      List.cons_append]

/-- What stands alone stands in the text between the parentheses. -/
theorem soleRef_infix {y ref : Text} (h : (opened y).bind soleRef = some ref) (c : Char) :
    ref <:+: c :: y := by
  obtain ⟨inner, ho, hr⟩ := Option.bind_eq_some_iff.mp h
  obtain ⟨sp, -, rfl⟩ := exists_opened ho
  obtain ⟨a, b, -, -, he⟩ := exists_blanks inner
  rw [(soleRef_eq_some.mp hr).1] at he
  refine ⟨c :: (sp ++ '(' :: a), b, ?_⟩
  rw [he]
  simp

/-! ## Pieces of an expression -/

theorem rewriteNodes_of_notMem (shared : List Text) (netFor : Map Text Text) {s : Text}
    (h : ')' ∉ s) (fuel : Nat) (prev : Bool) :
    rewriteNodes shared netFor fuel prev s = (s, []) := by
  induction fuel generalizing prev s with
  | zero => rfl
  | succ fuel ih =>
    cases s with
    | nil => rfl
    | cons c s =>
      have hs : ')' ∉ s := fun hm => h (List.mem_cons_of_mem _ hm)
      rw [rewriteNodes, nodeRefAt_of_notMem hs, ite_self]
      simp only [ih hs]

/-- An expression is rewritten piece by piece. -/
theorem rewriteNodes_piece (shared : List Text) (netFor : Map Text Text) {y : Text}
    (hy : ')' ∉ y) (r : Text) {fuel : Nat} (hfuel : y.length + r.length + 1 < fuel) (prev : Bool) :
    ∃ fuel', r.length < fuel' ∧
      rewriteNodes shared netFor fuel prev (y ++ ')' :: r) =
        ((repointPiece shared netFor prev y).1 ++
            ')' :: (rewriteNodes shared netFor fuel' false r).1,
          (repointPiece shared netFor prev y).2 ++
            (rewriteNodes shared netFor fuel' false r).2) := by
  induction y generalizing prev fuel with
  | nil =>
    obtain ⟨fuel, rfl⟩ := Nat.exists_eq_succ_of_ne_zero (Nat.ne_of_gt (Nat.zero_lt_of_lt hfuel))
    refine ⟨fuel, by rw [List.length_nil] at hfuel; omega, ?_⟩
    rw [List.nil_append, rewriteNodes, if_neg (by simp [show sameLetter 'v' ')' = false by decide])]
    rfl
  | cons c y ih =>
    obtain ⟨fuel, rfl⟩ := Nat.exists_eq_succ_of_ne_zero (Nat.ne_of_gt (Nat.zero_lt_of_lt hfuel))
    rw [List.length_cons] at hfuel
    have hy' : ')' ∉ y := fun hm => hy (List.mem_cons_of_mem _ hm)
    have hhead : (if (!prev && sameLetter 'v' c) = true then nodeRefAt (y ++ ')' :: r) else none) =
        (if (!prev && sameLetter 'v' c) = true then (opened y).bind soleRef else none).map
          fun ref => (ref, y ++ [')'], r) := by
      rw [nodeRefAt_piece hy']
      split <;> rfl
    rw [List.cons_append, rewriteNodes, hhead, repointPiece]
    cases hsole : (if (!prev && sameLetter 'v' c) = true then (opened y).bind soleRef
        else none) with
    | none =>
      obtain ⟨fuel', hlt, he⟩ := ih hy' (show y.length + r.length + 1 < fuel by omega) (isWord c)
      refine ⟨fuel', hlt, ?_⟩
      simp only [Option.map_none, he, List.cons_append]
    | some ref =>
      refine ⟨fuel, by omega, ?_⟩
      have hinfix : ref <:+: c :: y := by
        split_ifs at hsole
        exact soleRef_infix hsole c
      simp only [Option.map_some]
      by_cases hs : ref ∈ shared
      · simp only [if_pos hs, List.cons_append, List.append_assoc, List.nil_append]
      · simp only [if_neg hs]
        cases truthy (netFor.get? ref) with
        | none => simp only [List.cons_append, List.append_assoc, List.nil_append]
        | some to' =>
          have hreplaced := replaceFirst_append to' hinfix [')']
          rw [List.cons_append] at hreplaced
          simp only [hreplaced, List.append_assoc, List.cons_append, List.nil_append]

end CircuitForge
