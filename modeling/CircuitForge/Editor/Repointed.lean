/-
What the generator reads in a re-pointed piece.

The copy writes a fresh net over the first occurrence of the reference in the call, which is the
reference itself unless it looks like the head of a call.  In the odd case the call is gone, or
it is left with nothing between its parentheses.
-/
import CircuitForge.Editor.Fresh
import CircuitForge.Editor.NodeReads

namespace CircuitForge

open Js

/-! ## Fresh references -/

theorem freshId_no_v (i : Nat) : ∀ c ∈ freshId i, sameLetter 'v' c = false := by
  refine List.forall_mem_cons.mpr ⟨by decide, fun c hc => ?_⟩
  have hd := isDigit_iff.mp (Nat.isDigit_of_mem_toDigits (by decide) (by decide) hc)
  refine beq_eq_false_iff_ne.mpr fun e => ?_
  rw [eq_iff_toNat, toNat_toLower, toNat_toLower, show ('v' : Char).toNat = 118 from rfl] at e
  split_ifs at e <;> omega

theorem freshId_word (i : Nat) : ∀ c ∈ freshId i, isWord c = true :=
  isWord_numbered (by decide) i

theorem freshId_solid (i : Nat) : Solid (freshId i) := solid_of_isWord (freshId_word i)

theorem freshId_notMem {c : Char} (hc : isWord c = false) (i : Nat) : c ∉ freshId i := by
  intro h
  rw [freshId_word i c h] at hc
  cases hc

theorem sameLetter_blank {c : Char} (h : isSpace c = true) : sameLetter 'v' c = false := by
  refine beq_eq_false_iff_ne.mpr fun e => ?_
  have hw : isWord c = true := by
    rw [eq_iff_toNat, toNat_toLower, toNat_toLower, show ('v' : Char).toNat = 118 from rfl] at e
    rw [isWord_iff]
    split_ifs at e <;> omega
  rw [isSpace_eq_false_of_isWord hw] at h
  cases h

theorem isWord_blank {c : Char} (h : isSpace c = true) : isWord c = false := by
  by_contra hw
  rw [Bool.not_eq_false] at hw
  rw [isSpace_eq_false_of_isWord hw] at h
  cases h

/-- Behind a fresh reference stands no word boundary. -/
theorem callIn_freshId (i : Nat) (prev : Bool) (b : Text) :
    callIn 'v' prev (freshId i ++ b) = callIn 'v' true b := by
  rw [callIn_append (freshId_no_v i)]
  have hne : freshId i ≠ [] := List.cons_ne_nil _ _
  rw [List.getLast?_eq_some_getLast hne, Option.map_some, Option.getD_some,
    freshId_word i _ (List.getLast_mem hne)]

theorem opened_blank_run {b : Text} (hb : ∀ c ∈ b, isSpace c = true) : opened b = none := by
  rw [opened, trimStart_of_blank hb]

theorem opened_of_head {c : Char} {s : Text} (hc : isSpace c = false) (hne : c ≠ '(') :
    opened (c :: s) = none := by
  cases h : opened (c :: s) with
  | none => rfl
  | some inner =>
    rw [opened_eq_some, trimStart_of_head hc] at h
    exact absurd (List.cons.inj h).1 hne

theorem opened_append_blanks {blanks : Text} (hb : ∀ c ∈ blanks, isSpace c = true) (s : Text) :
    opened (blanks ++ s) = opened s := by
  rw [opened, opened, trimStart_append_of_nil (trimStart_of_blank hb)]

theorem opened_skip {c : Char} (hc : isSpace c = true) (s : Text) : opened (c :: s) = opened s := by
  rw [opened, opened, trimStart, trimStart, List.dropWhile_cons_of_pos hc]

/-- A letter in front of blanks calls nothing. -/
theorem callIn_lone {c : Char} {b : Text} (hb : ∀ x ∈ b, isSpace x = true) (prev : Bool) :
    callIn 'v' prev (c :: b) = none := by
  rw [callIn_cons fun _ _ => opened_blank_run hb]
  exact callIn_of_notMem (fun x hx => sameLetter_blank (hb x hx)) _

/-! ## References that look like the head of a call -/

/-- A text in front of itself with one character before it is a run of this character. -/
theorem eq_of_prefix_cons {x : Char} {s : Text} :
    ∀ {t : Text}, s <+: x :: (s ++ t) → ∀ c ∈ s, c = x := by
  induction s with
  | nil => exact fun _ _ hc => absurd hc List.not_mem_nil
  | cons a s ih =>
    intro t h
    obtain ⟨rfl, hs⟩ := List.cons_prefix_cons.mp h
    exact List.forall_mem_cons.mpr ⟨rfl, ih hs⟩

/-- A text in front of itself with two characters before it leaves these two, either way round. -/
theorem drop_of_prefix_cons_cons {a b : Char} {t : Text} :
    ∀ (s : Text), s <+: a :: b :: (s ++ t) →
      (a :: b :: (s ++ t)).drop s.length = a :: b :: t ∨
        (a :: b :: (s ++ t)).drop s.length = b :: a :: t
  | [], _ => .inl rfl
  | [x], h => by
    obtain ⟨rfl, -⟩ := List.cons_prefix_cons.mp h
    exact .inr rfl
  | x :: y :: s, h => by
    obtain ⟨rfl, hx⟩ := List.cons_prefix_cons.mp h
    obtain ⟨rfl, hy⟩ := List.cons_prefix_cons.mp hx
    exact drop_of_prefix_cons_cons s hy

/-- A token that begins like blanks and a text begins like the text, or is empty. -/
theorem prefix_blanks {ref blanks s : Text} (hsolid : Solid ref)
    (hb : ∀ c ∈ blanks, isSpace c = true) (h : ref <+: blanks ++ s) : ref = [] ∨ blanks = [] := by
  cases ref with
  | nil => exact .inl rfl
  | cons d ref =>
    cases blanks with
    | nil => exact .inr rfl
    | cons c blanks =>
      exact absurd h (not_prefix_of_blank (List.cons_ne_nil d ref) hsolid (hb c List.mem_cons_self))

/-- The reference is spelled like the head of its own call: at most blanks are left. -/
theorem callIn_replaced_letter {c : Char} (hc : sameLetter 'v' c = true) {sp ws ref ws' : Text}
    (hsp : ∀ x ∈ sp, isSpace x = true) (hws : ∀ x ∈ ws, isSpace x = true)
    (hws' : ∀ x ∈ ws', isSpace x = true) (hne : ref ≠ []) (hsolid : Solid ref)
    (hp : ref <+: c :: (sp ++ '(' :: (ws ++ (ref ++ ws')))) (i : Nat) {z : Text}
    (hz : callIn 'v' false
      (replaceFirst ref (freshId i) (c :: (sp ++ '(' :: (ws ++ (ref ++ ws'))))) = some z) :
    ∀ x ∈ z, isSpace x = true := by
  rw [replaceFirst_head _ hp, callIn_freshId] at hz
  obtain ⟨d, ref, rfl⟩ := List.exists_cons_of_ne_nil hne
  obtain ⟨rfl, hp₁⟩ := List.cons_prefix_cons.mp hp
  obtain ⟨-, hsolid₁⟩ := solid_cons.mp hsolid
  rw [List.length_cons, List.drop_succ_cons] at hz
  -- the letter that is left calls nothing
  have hleft {a : Text} (ha : ∀ x ∈ a, sameLetter 'v' x = false) (prev : Bool) :
      callIn 'v' prev (a ++ d :: ws') = none := by
    rw [callIn_append ha, callIn_lone hws']
  have hparen : ∀ x ∈ sp ++ '(' :: ws, sameLetter 'v' x = false := by
    intro x hx
    rcases List.mem_append.mp hx with hx | hx
    · exact sameLetter_blank (hsp x hx)
    · rcases List.mem_cons.mp hx with rfl | hx
      · decide
      · exact sameLetter_blank (hws x hx)
  have hcut : sp ++ '(' :: (ws ++ d :: ws') = (sp ++ '(' :: ws) ++ d :: ws' := by simp
  cases ref with
  | nil =>
    rw [List.length_nil, List.drop_zero, List.singleton_append, hcut, hleft hparen] at hz
    cases hz
  | cons e ref =>
    obtain rfl := (prefix_blanks hsolid₁ hsp hp₁).resolve_left (List.cons_ne_nil e ref)
    obtain ⟨rfl, hp₂⟩ := List.cons_prefix_cons.mp hp₁
    obtain ⟨-, hsolid₂⟩ := solid_cons.mp hsolid₁
    rw [List.nil_append, List.length_cons, List.drop_succ_cons] at hz
    cases ws with
    | nil =>
      rw [List.nil_append, List.cons_append, List.cons_append] at hz
      rcases drop_of_prefix_cons_cons ref hp₂ with hd | hd
      · rw [hd, callIn_cons fun h => absurd h (by decide),
          callIn_of_notMem (List.forall_mem_cons.mpr ⟨by decide, fun x hx =>
            sameLetter_blank (hws' x hx)⟩)] at hz
        cases hz
      · rw [hd, show '(' :: d :: ws' = ['('] ++ d :: ws' from rfl, hleft (by decide)] at hz
        cases hz
    | cons w ws =>
      obtain rfl := (prefix_blanks hsolid₂ hws hp₂).resolve_right (List.cons_ne_nil w ws)
      rw [List.length_nil, List.drop_zero, callIn_append fun x hx => sameLetter_blank (hws x hx),
        List.getLast?_eq_some_getLast (List.cons_ne_nil w ws), Option.map_some, Option.getD_some,
        isWord_blank (hws _ (List.getLast_mem (List.cons_ne_nil w ws)))] at hz
      have hcall : callIn 'v' false (d :: '(' :: ws') = some ws' :=
        callIn_call hc (opened_paren ws')
      obtain rfl := Option.some.inj (hcall.symm.trans hz)
      exact hws'

/-- The reference is spelled like the parenthesis in front of it: the call is gone. -/
theorem callIn_replaced_paren {c : Char} {sp ws ref ws' : Text}
    (hsp : ∀ x ∈ sp, isSpace x = true) (hws : ∀ x ∈ ws, isSpace x = true)
    (hws' : ∀ x ∈ ws', isSpace x = true) (hne : ref ≠ []) (hsolid : Solid ref)
    (hp : ref <+: '(' :: (ws ++ (ref ++ ws'))) (i : Nat) (prev : Bool) :
    callIn 'v' prev
      (c :: (sp ++ replaceFirst ref (freshId i) ('(' :: (ws ++ (ref ++ ws'))))) = none := by
  have hrun : ∀ x ∈ ref, x = '(' := by
    obtain ⟨d, ref, rfl⟩ := List.exists_cons_of_ne_nil hne
    obtain ⟨rfl, hp₁⟩ := List.cons_prefix_cons.mp hp
    rcases prefix_blanks (solid_cons.mp hsolid).2 hws hp₁ with rfl | rfl
    · exact fun x hx => List.mem_singleton.mp hx
    · exact eq_of_prefix_cons hp
  have hplain : ∀ x ∈ '(' :: (ws ++ (ref ++ ws')), sameLetter 'v' x = false := by
    intro x hx
    rcases List.mem_cons.mp hx with rfl | hx
    · decide
    rcases List.mem_append.mp hx with hx | hx
    · exact sameLetter_blank (hws x hx)
    rcases List.mem_append.mp hx with hx | hx
    · rw [hrun x hx]
      decide
    · exact sameLetter_blank (hws' x hx)
  rw [replaceFirst_head _ hp]
  have hshut : opened (sp ++ (freshId i ++ ('(' :: (ws ++ (ref ++ ws'))).drop ref.length)) =
      none := by
    rw [opened_append_blanks hsp]
    exact opened_of_head (freshId_solid i _ List.mem_cons_self) (by decide)
  rw [callIn_cons fun _ _ => hshut, callIn_append fun x hx => sameLetter_blank (hsp x hx),
    callIn_freshId]
  exact callIn_of_notMem (fun x hx => hplain x (List.mem_of_mem_drop hx)) _

/-- Anywhere else the reference itself is replaced. -/
theorem replaceFirst_inside {c : Char} {sp ws ref : Text} (hsp : ∀ x ∈ sp, isSpace x = true)
    (hws : ∀ x ∈ ws, isSpace x = true) (hne : ref ≠ []) (hsolid : Solid ref) (ws' to' : Text)
    (hp : ¬ ref <+: c :: (sp ++ '(' :: (ws ++ (ref ++ ws')))) :
    replaceFirst ref to' (c :: (sp ++ '(' :: (ws ++ (ref ++ ws')))) =
      c :: (sp ++ replaceFirst ref to' ('(' :: (ws ++ (ref ++ ws')))) ∧
    (¬ ref <+: '(' :: (ws ++ (ref ++ ws')) →
      replaceFirst ref to' ('(' :: (ws ++ (ref ++ ws'))) = '(' :: (ws ++ (to' ++ ws'))) := by
  constructor
  · rw [replaceFirst_cons to' hp, replaceFirst_blanks to' hne hsolid hsp]
  · intro hq
    rw [replaceFirst_cons to' hq, replaceFirst_blanks to' hne hsolid hws,
      replaceFirst_head to' (List.prefix_append ref ws'), List.drop_left]

/-! ## The arguments of a call -/

/-- The arguments of a call, as `rewriteExprNodeRefs` takes them apart. -/
def argsIn (inner : Text) : List Text := (inner.splitOn ',').map trim

theorem argsIn_of_notMem {inner : Text} (h : ',' ∉ inner) : argsIn inner = [trim inner] := by
  rw [argsIn, List.splitOn_eq_singleton h, List.map_singleton]

theorem argsIn_of_soleRef {inner ref : Text} (h : soleRef inner = some ref) :
    argsIn inner = [ref] := by
  obtain ⟨htrim, -, hsolid, hcomma⟩ := soleRef_eq_some.mp h
  obtain ⟨a, b, ha, hb, he⟩ := exists_blanks inner
  rw [argsIn_of_notMem, htrim]
  intro hmem
  rw [he, htrim] at hmem
  rcases List.mem_append.mp hmem with hmem | hmem
  · exact absurd (ha _ hmem) (by decide)
  rcases List.mem_append.mp hmem with hmem | hmem
  · exact hcomma hmem
  · exact absurd (hb _ hmem) (by decide)

/-- What the generator reads where a reference was re-pointed: the fresh net, or nothing. -/
theorem argsIn_replaced {c : Char} (hc : sameLetter 'v' c = true) {y ref : Text}
    (hsole : (opened y).bind soleRef = some ref) (i : Nat) {z : Text}
    (hz : callIn 'v' false (replaceFirst ref (freshId i) (c :: y)) = some z) :
    argsIn z = [freshId i] ∨ argsIn z = [[]] := by
  obtain ⟨inner, ho, hr⟩ := Option.bind_eq_some_iff.mp hsole
  obtain ⟨htrim, hne, hsolid, -⟩ := soleRef_eq_some.mp hr
  obtain ⟨sp, hsp, rfl⟩ := exists_opened ho
  obtain ⟨ws, ws', hws, hws', he⟩ := exists_blanks inner
  rw [htrim] at he
  subst he
  by_cases hp : ref <+: c :: (sp ++ '(' :: (ws ++ (ref ++ ws')))
  · have hblank := callIn_replaced_letter hc hsp hws hws' hne hsolid hp i hz
    refine .inr ?_
    rw [argsIn_of_notMem fun h => absurd (hblank _ h) (by decide), trim, trimStart_of_blank hblank]
    rfl
  obtain ⟨hhead, hinside⟩ := replaceFirst_inside hsp hws hne hsolid ws' (freshId i) hp
  rw [hhead] at hz
  by_cases hq : ref <+: '(' :: (ws ++ (ref ++ ws'))
  · rw [callIn_replaced_paren hsp hws hws' hne hsolid hq] at hz
    cases hz
  · rw [hinside hq, callIn_call hc (opened_blanks hsp _)] at hz
    obtain rfl := Option.some.inj hz
    refine .inl ?_
    rw [argsIn_of_notMem, trim_blanks hws hws' (freshId_solid i)]
    intro hmem
    rcases List.mem_append.mp hmem with hmem | hmem
    · exact absurd (hws _ hmem) (by decide)
    rcases List.mem_append.mp hmem with hmem | hmem
    · exact freshId_notMem (by decide) i hmem
    · exact absurd (hws' _ hmem) (by decide)

/-! ## Pieces -/

/-- What the generator reads in a call and the copy's pattern passes over: a reference spelled
like a net the sheet marks, or the arguments of a call that holds anything but one reference. -/
def passedOver (shared : List Text) (netFor : Map Text Text) (inner : Text) : List Text :=
  match soleRef inner with
  | some ref => if ref ∈ shared then [ref] else []
  | none => argsIn (repointPiece shared netFor false inner).1

section

variable {shared : List Text} {netFor : Map Text Text}

theorem repointPiece_cons {prev : Bool} {c : Char} {y : Text}
    (h : (if !prev && sameLetter 'v' c then (opened y).bind soleRef else none) = none) :
    repointPiece shared netFor prev (c :: y) =
      (c :: (repointPiece shared netFor (isWord c) y).1,
        (repointPiece shared netFor (isWord c) y).2) := by
  rw [repointPiece, h]

theorem repointPiece_plain {c : Char} (h : sameLetter 'v' c = false) (prev : Bool) (y : Text) :
    repointPiece shared netFor prev (c :: y) =
      (c :: (repointPiece shared netFor (isWord c) y).1,
        (repointPiece shared netFor (isWord c) y).2) :=
  repointPiece_cons (by rw [h, Bool.and_false, if_neg Bool.false_ne_true])

/-- The parenthesis at the head of a piece stays where it is. -/
theorem opened_repointPiece {y inner : Text} (h : opened y = some inner) (prev : Bool) :
    opened (repointPiece shared netFor prev y).1 =
      some (repointPiece shared netFor false inner).1 := by
  obtain ⟨sp, hsp, rfl⟩ := exists_opened h
  clear h
  induction sp generalizing prev with
  | nil =>
    rw [List.nil_append, repointPiece_plain (by decide)]
    exact opened_paren _
  | cons c sp ih =>
    obtain ⟨hc, hsp⟩ := List.forall_mem_cons.mp hsp
    rw [List.cons_append, repointPiece_plain (sameLetter_blank hc),
      ← ih (isWord c) hsp]
    exact opened_skip hc _

/-- No parenthesis comes to the head of a piece. -/
theorem opened_repointPiece_none
    (hfor : ∀ ref to', truthy (netFor.get? ref) = some to' → ∃ i, to' = freshId i) {y : Text}
    (h : opened y = none) (prev : Bool) :
    opened (repointPiece shared netFor prev y).1 = none := by
  induction y generalizing prev with
  | nil => rfl
  | cons d y ih =>
    by_cases hd : isSpace d = true
    · rw [opened_skip hd] at h
      rw [repointPiece_plain (sameLetter_blank hd), opened_skip hd]
      exact ih h _
    rw [Bool.not_eq_true] at hd
    have hne : d ≠ '(' := by
      rintro rfl
      rw [opened_paren] at h
      cases h
    rw [repointPiece]
    split
    case h_1 => exact opened_of_head hd hne
    case h_2 ref _ =>
      by_cases hs : ref ∈ shared
      · rw [if_pos hs]
        exact h
      rw [if_neg hs]
      split
      case h_2 => exact h
      case h_1 to' hto =>
        obtain ⟨i, rfl⟩ := hfor ref to' hto
        by_cases hp : ref <+: d :: y
        · rw [replaceFirst_head _ hp]
          exact opened_of_head (freshId_solid i _ List.mem_cons_self) (by decide)
        · rw [replaceFirst_cons _ hp]
          exact opened_of_head hd hne

theorem mem_replaceFirst {ref to' s : Text} {x : Char} (h : x ∈ replaceFirst ref to' s) :
    x ∈ to' ∨ x ∈ s := by
  induction s with
  | nil =>
    rw [replaceFirst] at h
    split_ifs at h with hr
    · exact .inl h
    · exact absurd h List.not_mem_nil
  | cons c s ih =>
    by_cases hp : ref <+: c :: s
    · rw [replaceFirst_head _ hp] at h
      exact (List.mem_append.mp h).imp id List.mem_of_mem_drop
    · rw [replaceFirst_cons _ hp] at h
      rcases List.mem_cons.mp h with rfl | h
      · exact .inr List.mem_cons_self
      · exact (ih h).imp id (List.mem_cons_of_mem _)

theorem notMem_repointPiece
    (hfor : ∀ ref to', truthy (netFor.get? ref) = some to' → ∃ i, to' = freshId i) {y : Text}
    (h : ')' ∉ y) (prev : Bool) : ')' ∉ (repointPiece shared netFor prev y).1 := by
  induction y generalizing prev with
  | nil => exact h
  | cons c y ih =>
    have hy : ')' ∉ y := fun hm => h (List.mem_cons_of_mem _ hm)
    rw [repointPiece]
    split
    case h_1 =>
      intro hm
      rcases List.mem_cons.mp hm with rfl | hm
      · exact h List.mem_cons_self
      · exact ih hy _ hm
    case h_2 ref _ =>
      by_cases hs : ref ∈ shared
      · rw [if_pos hs]
        exact h
      rw [if_neg hs]
      split
      case h_2 => exact h
      case h_1 to' hto =>
        obtain ⟨i, rfl⟩ := hfor ref to' hto
        exact fun hm => (mem_replaceFirst hm).elim (freshId_notMem (by decide) i) h

/-- An argument that the copy has cut from the original's nodes. -/
def IsCut (netFor : Map Text Text) (arg : Text) : Prop :=
  arg = [] ∨ ∃ ref, truthy (netFor.get? ref) = some arg

variable (shared) in
/-- What the generator reads in a re-pointed piece. -/
theorem argsIn_repointPiece
    (hfor : ∀ ref to', truthy (netFor.get? ref) = some to' → ∃ i, to' = freshId i)
    (y : Text) (prev : Bool) :
    (∀ arg ∈ (callIn 'v' prev (repointPiece shared netFor prev y).1).toList.flatMap argsIn,
        arg ∈ (callIn 'v' prev y).toList.flatMap (passedOver shared netFor) ∨
          arg ∈ (repointPiece shared netFor prev y).2 ∨ IsCut netFor arg) ∧
      ∀ arg ∈ (callIn 'v' prev y).toList.flatMap (passedOver shared netFor),
        arg ∈ (callIn 'v' prev (repointPiece shared netFor prev y).1).toList.flatMap argsIn := by
  induction y generalizing prev with
  | nil => exact ⟨fun _ h => absurd h List.not_mem_nil, fun _ h => absurd h List.not_mem_nil⟩
  | cons c y ih =>
    cases hsole : (if !prev && sameLetter 'v' c then (opened y).bind soleRef else none) with
    | some ref =>
      obtain ⟨hhead, hbind⟩ : (!prev && sameLetter 'v' c) = true ∧
          (opened y).bind soleRef = some ref := by
        split_ifs at hsole with hh
        exact ⟨hh, hsole⟩
      rw [Bool.and_eq_true, Bool.not_eq_true'] at hhead
      obtain ⟨rfl, hc⟩ := hhead
      obtain ⟨inner, ho, hr⟩ := Option.bind_eq_some_iff.mp hbind
      rw [repointPiece, hsole, callIn_call hc ho]
      simp only [Option.toList_some, List.flatMap_singleton, passedOver, hr]
      by_cases hs : ref ∈ shared
      · rw [if_pos hs, if_pos hs, callIn_call hc ho, Option.toList_some, List.flatMap_singleton,
          argsIn_of_soleRef hr]
        exact ⟨fun _ h => .inl h, fun _ h => h⟩
      rw [if_neg hs, if_neg hs]
      refine ⟨?_, fun _ h => absurd h List.not_mem_nil⟩
      cases hto : truthy (netFor.get? ref) with
      | none =>
        simp only
        rw [callIn_call hc ho, Option.toList_some, List.flatMap_singleton, argsIn_of_soleRef hr]
        exact fun _ h => .inr (.inl h)
      | some to' =>
        obtain ⟨i, rfl⟩ := hfor ref to' hto
        intro arg harg
        obtain ⟨z, hz, harg⟩ := List.mem_flatMap.mp harg
        refine .inr (.inr ?_)
        rcases argsIn_replaced hc hbind i (Option.mem_toList.mp hz) with he | he
        · rw [he, List.mem_singleton] at harg
          exact .inr ⟨ref, harg ▸ hto⟩
        · rw [he, List.mem_singleton] at harg
          exact .inl harg
    | none =>
      rw [repointPiece_cons hsole]
      by_cases hcall : prev = false ∧ sameLetter 'v' c = true ∧ opened y ≠ none
      · obtain ⟨rfl, hc, hopen⟩ := hcall
        obtain ⟨inner, ho⟩ := Option.ne_none_iff_exists'.mp hopen
        rw [hc, ho] at hsole
        rw [callIn_call hc ho, callIn_call hc (opened_repointPiece ho _)]
        simp only [Option.toList_some, List.flatMap_singleton, passedOver,
          show soleRef inner = none from hsole]
        exact ⟨fun _ h => .inl h, fun _ h => h⟩
      · have hshut (hp : prev = false) (hc : sameLetter 'v' c = true) : opened y = none := by
          by_contra hopen
          exact hcall ⟨hp, hc, hopen⟩
        rw [callIn_cons hshut,
          callIn_cons fun hp hc => opened_repointPiece_none hfor (hshut hp hc) _]
        exact ih _

/-! ## Expressions -/

/-- The arguments of the `v(…)` calls of an expression. -/
def exprArgs (expr : Text) : List Text := (callsFrom 'v' false 0 expr).flatMap argsIn

/-- What the generator reads in an expression and the copy's pattern passes over. -/
def exprPassedOver (shared : List Text) (netFor : Map Text Text) (expr : Text) : List Text :=
  (callsFrom 'v' false 0 expr).flatMap (passedOver shared netFor)

theorem callsFrom_v {y : Text} (hy : ')' ∉ y) (r : Text) :
    callsFrom 'v' false 0 (y ++ ')' :: r) =
      (callIn 'v' false y).toList ++ callsFrom 'v' false 0 r :=
  callsFrom_piece (by decide) hy false r

variable (shared) in
/-- What the generator reads in a rewritten expression. -/
theorem exprArgs_rewriteNodes
    (hfor : ∀ ref to', truthy (netFor.get? ref) = some to' → ∃ i, to' = freshId i) (s : Text) :
    ∀ {fuel : Nat}, s.length < fuel →
      (∀ arg ∈ exprArgs (rewriteNodes shared netFor fuel false s).1,
        arg ∈ exprPassedOver shared netFor s ∨
          arg ∈ (rewriteNodes shared netFor fuel false s).2 ∨ IsCut netFor arg) ∧
      ∀ arg ∈ exprPassedOver shared netFor s,
        arg ∈ exprArgs (rewriteNodes shared netFor fuel false s).1 := by
  induction hn : s.length using Nat.strong_induction_on generalizing s with
  | _ n ih =>
    intro fuel hfuel
    by_cases h : ')' ∈ s
    case neg =>
      rw [rewriteNodes_of_notMem shared netFor h, exprArgs, exprPassedOver,
        callsFrom_of_notMem 'v' h]
      exact ⟨fun _ h => absurd h List.not_mem_nil, fun _ h => absurd h List.not_mem_nil⟩
    case pos =>
      obtain ⟨y, r, rfl, hy⟩ := List.eq_append_cons_of_mem h
      rw [List.length_append, List.length_cons] at hn
      obtain ⟨fuel', hlt, he⟩ := rewriteNodes_piece shared netFor hy r
        (show y.length + r.length + 1 < fuel by omega) false
      obtain ⟨hpiece, hpiece'⟩ := argsIn_repointPiece shared hfor y false
      obtain ⟨hrest, hrest'⟩ := ih r.length (by omega) r rfl hlt
      rw [he, exprArgs, exprPassedOver, callsFrom_v hy,
        callsFrom_v (notMem_repointPiece hfor hy false), List.flatMap_append, List.flatMap_append]
      simp only [List.mem_append]
      constructor
      · rintro arg (harg | harg)
        · rcases hpiece arg harg with hp | hr | hc
          · exact .inl (.inl hp)
          · exact .inr (.inl (.inl hr))
          · exact .inr (.inr hc)
        · rcases hrest arg harg with hp | hr | hc
          · exact .inl (.inr hp)
          · exact .inr (.inl (.inr hr))
          · exact .inr (.inr hc)
      · rintro arg (harg | harg)
        · exact .inl (hpiece' arg harg)
        · exact .inr (hrest' arg harg)

theorem rewriteNodes_congr {netFor' : Map Text Text}
    (h : ∀ ref, netFor.get? ref = netFor'.get? ref) (s : Text) (fuel : Nat) (prev : Bool) :
    rewriteNodes shared netFor fuel prev s = rewriteNodes shared netFor' fuel prev s := by
  induction fuel generalizing prev s with
  | zero => rfl
  | succ fuel ih =>
    cases s with
    | nil => rfl
    | cons c s => simp only [rewriteNodes, ih, h]

/-- The references the copy's pattern finds do not depend on what becomes of them. -/
theorem rewriteNodes_reads (s : Text) (fuel : Nat) (prev : Bool) :
    (rewriteNodes shared netFor fuel prev s).2 =
      (rewriteNodes [] [] fuel prev s).2.filter
        fun ref => ref ∉ shared ∧ truthy (netFor.get? ref) = none := by
  induction fuel generalizing prev s with
  | zero => rfl
  | succ fuel ih =>
    cases s with
    | nil => rfl
    | cons c s =>
      rw [rewriteNodes, rewriteNodes]
      cases (if (!prev && sameLetter 'v' c) = true then nodeRefAt s else none) with
      | none => exact ih s (isWord c)
      | some e =>
        obtain ⟨ref, matched, rest⟩ := e
        have hnone : truthy (Map.get? ([] : Map Text Text) ref) = none := rfl
        simp only [List.not_mem_nil, if_false, hnone]
        by_cases hs : ref ∈ shared
        · rw [if_pos hs, List.filter_cons_of_neg (by simp [hs])]
          exact ih rest false
        rw [if_neg hs]
        cases hto : truthy (netFor.get? ref) with
        | none =>
          rw [List.filter_cons_of_pos (by simp [hs, hto])]
          exact congrArg _ (ih rest false)
        | some to' =>
          rw [List.filter_cons_of_neg (by simp [hto])]
          exact ih rest false

/-- A text without a node reference is left as it is. -/
theorem rewriteNodes_of_readsNode (s : Text) (fuel : Nat) (prev : Bool)
    (h : readsNode prev s = false) : rewriteNodes shared netFor fuel prev s = (s, []) := by
  induction fuel generalizing prev s with
  | zero => rfl
  | succ fuel ih =>
    cases s with
    | nil => rfl
    | cons c s =>
      rw [readsNode, Bool.or_eq_false_iff] at h
      have hhead : (if (!prev && sameLetter 'v' c) = true then nodeRefAt s else none) = none := by
        split_ifs with hc
        · rw [hc, Bool.true_and] at h
          unfold nodeRefAt
          split
          case h_2 => rfl
          case h_1 inner hs =>
            rw [hs] at h
            exact absurd h.1 (by simp)
        · rfl
      rw [rewriteNodes, hhead]
      simp only [ih s (isWord c) h.2]

end

end CircuitForge
