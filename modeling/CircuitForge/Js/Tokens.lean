/-
Tokens: the pieces of a line between blanks.

A line is its leading blanks, its first token and what follows it.  The lemmas
say how a line extended on the right by a blank keeps the tokens it had, which
is what a folded continuation does to the line it continues.
-/
import CircuitForge.Js.Text

namespace Js

/-- A continuation of a line that starts no new token: empty, or led by a blank. -/
def BlankLed (s : Text) : Prop := ∀ c ∈ s.head?, isSpace c = true

theorem blankLed_nil : BlankLed [] := by simp [BlankLed]

theorem blankLed_cons {c : Char} {s : Text} : BlankLed (c :: s) ↔ isSpace c = true := by
  simp [BlankLed]

theorem BlankLed.append {a b : Text} (ha : BlankLed a) (hb : BlankLed b) : BlankLed (a ++ b) := by
  cases a with
  | nil => exact hb
  | cons c a => exact blankLed_cons.mpr (blankLed_cons.mp ha)

/-- What follows the first token. -/
def afterToken (s : Text) : Text := s.dropWhile (fun c => !isSpace c)

theorem firstToken_append_afterToken (s : Text) : firstToken s ++ afterToken s = s :=
  List.takeWhile_append_dropWhile

theorem solid_firstToken (s : Text) : Solid (firstToken s) := by
  intro c hc
  simpa using List.mem_takeWhile_imp hc

theorem blankLed_afterToken (s : Text) : BlankLed (afterToken s) := by
  intro c hc
  have := List.head?_dropWhile_not (fun c => !isSpace c) s
  rw [show s.dropWhile (fun c => !isSpace c) = afterToken s from rfl, Option.mem_def.mp hc] at this
  simpa using this

theorem firstToken_eq_nil {s : Text} (h : BlankLed s) : firstToken s = [] := by
  cases s with
  | nil => rfl
  | cons c s => simp [firstToken, blankLed_cons.mp h]

theorem firstToken_solid_append {s : Text} (hs : Solid s) (t : Text) :
    firstToken (s ++ t) = s ++ firstToken t :=
  List.takeWhile_append_of_pos fun c hc => by simp [hs c hc]

theorem firstToken_of_solid {s t : Text} (hs : Solid s) (ht : BlankLed t) :
    firstToken (s ++ t) = s := by
  rw [firstToken_solid_append hs, firstToken_eq_nil ht, List.append_nil]

theorem afterToken_of_solid {s t : Text} (hs : Solid s) (ht : BlankLed t) :
    afterToken (s ++ t) = t := by
  have h := firstToken_append_afterToken (s ++ t)
  rw [firstToken_of_solid hs ht] at h
  exact List.append_cancel_left h

theorem firstToken_append {s t : Text} (ht : BlankLed t) : firstToken (s ++ t) = firstToken s := by
  conv_lhs => rw [← firstToken_append_afterToken s, List.append_assoc]
  exact firstToken_of_solid (solid_firstToken s) ((blankLed_afterToken s).append ht)

theorem afterToken_append {s t : Text} (ht : BlankLed t) :
    afterToken (s ++ t) = afterToken s ++ t := by
  conv_lhs => rw [← firstToken_append_afterToken s, List.append_assoc]
  exact afterToken_of_solid (solid_firstToken s) ((blankLed_afterToken s).append ht)

theorem trimStart_append {s t : Text} (hs : trimStart s ≠ []) :
    trimStart (s ++ t) = trimStart s ++ t := by
  rw [trimStart, List.dropWhile_append, if_neg (by rwa [List.isEmpty_iff]), trimStart]

theorem trimStart_append_of_nil {s t : Text} (hs : trimStart s = []) :
    trimStart (s ++ t) = trimStart t := by
  rw [trimStart, List.dropWhile_append, if_pos (by rwa [List.isEmpty_iff]), trimStart]

theorem trimStart_of_head {c : Char} {s : Text} (h : isSpace c = false) :
    trimStart (c :: s) = c :: s := by simp [trimStart, h]

theorem head_trimStart {s : Text} {c : Char} {t : Text} (h : trimStart s = c :: t) :
    isSpace c = false := by
  have := List.head?_dropWhile_not isSpace s
  rw [show s.dropWhile isSpace = trimStart s from rfl, h] at this
  simpa using this

/-- `trimEnd` drops a run of blanks. -/
theorem trimEnd_append_blank (s : Text) :
    ∃ b : Text, (∀ c ∈ b, isSpace c = true) ∧ trimEnd s ++ b = s := by
  refine ⟨s.rtakeWhile isSpace, fun c hc => List.mem_rtakeWhile_imp hc, ?_⟩
  exact List.rdropWhile_append_rtakeWhile

theorem trimStart_trim (s : Text) : trimStart (trim s) = trim s := by
  cases h : trim s with
  | nil => rfl
  | cons c t =>
    obtain ⟨r, hr⟩ : trim s <+: trimStart s := List.rdropWhile_prefix _ _
    rw [h] at hr
    exact trimStart_of_head (head_trimStart hr.symm)

theorem trim_trim (s : Text) : trim (trim s) = trim s := by
  rw [trim, trimStart_trim]
  exact List.rdropWhile_idempotent _ _

theorem trim_of_solid {s : Text} (h : Solid s) : trim s = s := by
  have hstart : trimStart s = s := by
    cases s with
    | nil => rfl
    | cons c s => exact trimStart_of_head (h c List.mem_cons_self)
  rw [trim, hstart]
  refine (List.rdropWhile_eq_self_iff).mpr fun hne => ?_
  rw [h _ (List.getLast_mem hne)]
  exact Bool.false_ne_true

theorem blankLed_of_blank {b : Text} (h : ∀ c ∈ b, isSpace c = true) : BlankLed b :=
  fun c hc => h c (List.mem_of_mem_head? hc)

theorem trimStart_of_blank {b : Text} (h : ∀ c ∈ b, isSpace c = true) : trimStart b = [] :=
  List.dropWhile_eq_nil_iff.mpr h

theorem firstToken_trimEnd (s : Text) : firstToken (trimEnd s) = firstToken s := by
  obtain ⟨b, hb, he⟩ := trimEnd_append_blank s
  conv_rhs => rw [← he, firstToken_append (blankLed_of_blank hb)]

theorem secondToken_trimEnd (s : Text) :
    firstToken (trimStart (afterToken (trimEnd s))) = firstToken (trimStart (afterToken s)) := by
  obtain ⟨b, hb, he⟩ := trimEnd_append_blank s
  conv_rhs => rw [← he, afterToken_append (blankLed_of_blank hb)]
  by_cases h : trimStart (afterToken (trimEnd s)) = []
  · rw [trimStart_append_of_nil h, h, trimStart_of_blank hb]
  · rw [trimStart_append h, firstToken_append (blankLed_of_blank hb)]

theorem splitBlanks_ne_nil (s : Text) : splitBlanks s ≠ [] := by
  induction s with
  | nil => exact List.cons_ne_nil _ _
  | cons c s ih =>
    rw [splitBlanks]
    split_ifs
    · exact ih
    · exact List.cons_ne_nil _ _
    · simpa using ih

/-- A character that is no blank joins the first piece. -/
theorem splitBlanks_cons {c : Char} (hc : isSpace c = false) (s : Text) :
    ∃ t ts, splitBlanks s = t :: ts ∧ splitBlanks (c :: s) = (c :: t) :: ts := by
  rw [splitBlanks, if_neg (by simp [hc])]
  cases h : splitBlanks s with
  | nil => exact absurd h (splitBlanks_ne_nil s)
  | cons t ts => exact ⟨t, ts, rfl, rfl⟩

theorem blankLed_of_any {s : Text} (h : s.head?.any isSpace = true) : BlankLed s := by
  cases s with
  | nil => exact blankLed_nil
  | cons c s => exact blankLed_cons.mpr (by simpa using h)

theorem headD_splitBlanks (s : Text) : (splitBlanks s).headD [] = firstToken s := by
  induction s with
  | nil => rfl
  | cons c s ih =>
    by_cases hc : isSpace c = true
    · rw [firstToken_eq_nil (blankLed_cons.mpr hc), splitBlanks, if_pos hc]
      split_ifs with hs
      · rw [ih, firstToken_eq_nil (blankLed_of_any hs)]
      · rfl
    · have ht : firstToken (c :: s) = c :: firstToken s := by simp [firstToken, hc]
      obtain ⟨t, ts, h, h'⟩ := splitBlanks_cons (by simpa using hc) s
      rw [ht, h', ← ih, h]
      rfl

theorem splitBlanks_one (s : Text) :
    truthy (splitBlanks s)[1]? = truthy (some (firstToken (trimStart (afterToken s)))) := by
  induction s with
  | nil => rfl
  | cons c s ih =>
    by_cases hc : isSpace c = true
    · have ha : afterToken (c :: s) = c :: s := by simp [afterToken, hc]
      have ht : trimStart (c :: s) = trimStart s := by simp [trimStart, hc]
      rw [ha, ht, splitBlanks, if_pos hc]
      cases s with
      | nil => rfl
      | cons d s =>
        by_cases hd : isSpace d = true
        · have hda : afterToken (d :: s) = d :: s := by simp [afterToken, hd]
          rw [if_pos (by simpa using hd), ih, hda]
        · rw [if_neg (by simpa using hd), trimStart_of_head (by simpa using hd),
            ← headD_splitBlanks]
          cases h : splitBlanks (d :: s) with
          | nil => exact absurd h (splitBlanks_ne_nil _)
          | cons t ts => rfl
    · have ha : afterToken (c :: s) = afterToken s := by simp [afterToken, hc]
      obtain ⟨t, ts, h, h'⟩ := splitBlanks_cons (by simpa using hc) s
      rw [ha, ← ih, h, h']
      rfl

end Js
