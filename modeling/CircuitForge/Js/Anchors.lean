/-
Global replacement of a pattern with an anchor.

A pattern that begins with one element, and has it nowhere else, is looked for behind each place
where that element stands.  Cut in front of these places, a list is a head and a list of runs, and
a scan for the pattern goes run by run.
-/
import Mathlib.Data.List.Basic

namespace Anchors

variable {α β : Type} [DecidableEq α]

/-- The runs, each behind its anchor. -/
def glue (x : α) (ws : List (List α)) : List α := ws.flatMap (x :: ·)

/-- What a global search passes over: an element, or a match with what it captures. -/
inductive Token (α β : Type) where
  | other (a : α)
  | found (whole : List α) (capture : β)

/-- The tokens of a list.  `f` is the pattern behind its anchor `x`: the capture and the length of
the match there.  The first argument counts the elements of the last match still to be passed. -/
def scanFrom (x : α) (f : List α → Option (β × Nat)) : Nat → List α → List (Token α β)
  | _, [] => []
  | skip + 1, _ :: s => scanFrom x f skip s
  | 0, a :: s =>
    if a = x then
      match f s with
      | some (v, n) => .found (x :: s.take n) v :: scanFrom x f n s
      | none => .other a :: scanFrom x f 0 s
    else .other a :: scanFrom x f 0 s

def Token.replace (g : List α → β → List α) : Token α β → List α
  | other a => [a]
  | found whole capture => g whole capture

/-- `s.replace(re, g)` for a global pattern. -/
def replaceAll (x : α) (f : List α → Option (β × Nat)) (g : List α → β → List α) (s : List α) :
    List α := (scanFrom x f 0 s).flatMap (Token.replace g)

def Token.capture? : Token α β → Option β
  | other _ => none
  | found _ capture => some capture

/-- The captures of all matches. -/
def captures (x : α) (f : List α → Option (β × Nat)) (s : List α) : List β :=
  (scanFrom x f 0 s).filterMap Token.capture?

/-- A pattern that is decided within its run. -/
structure Local (x : α) (f : List α → Option (β × Nat)) : Prop where
  cut : ∀ w r, x ∉ w → f (w ++ x :: r) = f w
  le : ∀ w v n, f w = some (v, n) → n ≤ w.length

/-- The tokens of a run behind its anchor. -/
def scanRun (x : α) (f : List α → Option (β × Nat)) (w : List α) : List (Token α β) :=
  match f w with
  | some (v, n) => .found (x :: w.take n) v :: (w.drop n).map .other
  | none => (x :: w).map .other

/-- The replacement in a run behind its anchor. -/
def replaceRun (x : α) (f : List α → Option (β × Nat)) (g : List α → β → List α) (w : List α) :
    List α :=
  match f w with
  | some (v, n) => g (x :: w.take n) v ++ w.drop n
  | none => x :: w

section

variable {x : α} {f : List α → Option (β × Nat)} {g : List α → β → List α}

omit [DecidableEq α] in
theorem glue_cons (w : List α) (ws : List (List α)) : glue x (w :: ws) = x :: (w ++ glue x ws) :=
  rfl

omit [DecidableEq α] in
theorem glue_append (ws us : List (List α)) : glue x (ws ++ us) = glue x ws ++ glue x us :=
  List.flatMap_append

theorem scanFrom_skip (p s : List α) : scanFrom x f p.length (p ++ s) = scanFrom x f 0 s := by
  induction p with
  | nil => rfl
  | cons a p ih => exact ih

/-- Elements in front of the first anchor are passed over. -/
theorem scanFrom_plain {p : List α} (hp : x ∉ p) (s : List α) :
    scanFrom x f 0 (p ++ s) = p.map .other ++ scanFrom x f 0 s := by
  induction p with
  | nil => rfl
  | cons a p ih =>
    rw [List.mem_cons, not_or] at hp
    rw [List.cons_append, scanFrom, if_neg (Ne.symm hp.1), ih hp.2]
    rfl

omit [DecidableEq α] in
theorem Local.glued (h : Local x f) {w : List α} (hw : x ∉ w) (ws : List (List α)) :
    f (w ++ glue x ws) = f w := by
  cases ws with
  | nil => rw [glue, List.flatMap_nil, List.append_nil]
  | cons u us => exact h.cut w _ hw

/-- A scan goes run by run. -/
theorem scanFrom_glue (h : Local x f) {ws : List (List α)} (hws : ∀ w ∈ ws, x ∉ w) :
    scanFrom x f 0 (glue x ws) = ws.flatMap (scanRun x f) := by
  induction ws with
  | nil => rfl
  | cons w ws ih =>
    rw [List.forall_mem_cons] at hws
    rw [List.flatMap_cons, ← ih hws.2, glue_cons, scanFrom, if_pos rfl, h.glued hws.1, scanRun]
    cases hf : f w with
    | none =>
      dsimp only
      rw [scanFrom_plain hws.1]
      rfl
    | some found =>
      obtain ⟨v, n⟩ := found
      have hn := h.le w v n hf
      dsimp only
      have hlen : (w.take n).length = n := by
        rw [List.length_take, Nat.min_eq_left hn]
      have hskip := scanFrom_skip (x := x) (f := f) (w.take n) (w.drop n ++ glue x ws)
      rw [hlen, ← List.append_assoc, List.take_append_drop] at hskip
      rw [hskip, scanFrom_plain fun hx => hws.1 ((List.drop_sublist n w).mem hx),
        List.take_append_of_le_length hn]
      rfl

omit [DecidableEq α] in
theorem flatMap_other (p : List α) :
    (p.map (Token.other (β := β))).flatMap (Token.replace g) = p := by
  rw [List.flatMap_map]
  exact List.flatMap_singleton' p

omit [DecidableEq α] in
theorem filterMap_other (p : List α) :
    (p.map (Token.other (β := β))).filterMap Token.capture? = [] := by
  rw [List.filterMap_map]
  exact List.filterMap_eq_nil_iff.mpr fun _ _ => rfl

/-- A global replacement goes run by run. -/
theorem replaceAll_glue (h : Local x f) {ws : List (List α)} (hws : ∀ w ∈ ws, x ∉ w) :
    replaceAll x f g (glue x ws) = ws.flatMap (replaceRun x f g) := by
  rw [replaceAll, scanFrom_glue h hws, List.flatMap_assoc]
  refine List.flatMap_congr fun w _ => ?_
  unfold scanRun replaceRun
  cases f w with
  | none => exact flatMap_other _
  | some found =>
    rw [List.flatMap_cons, flatMap_other]
    rfl

/-- The captures come run by run. -/
theorem captures_glue (h : Local x f) {ws : List (List α)} (hws : ∀ w ∈ ws, x ∉ w) :
    captures x f (glue x ws) = ws.filterMap fun w => (f w).map Prod.fst := by
  rw [captures, scanFrom_glue h hws, List.filterMap_flatMap, List.filterMap_eq_flatMap_toList]
  refine List.flatMap_congr fun w _ => ?_
  unfold scanRun
  cases f w with
  | none => exact filterMap_other _
  | some found =>
    show found.1 :: ((w.drop found.2).map Token.other).filterMap Token.capture? = [found.1]
    rw [filterMap_other]

end

/-! ## Cutting -/

/-- The head of a list and its runs. -/
def runs (x : α) : List α → List α × List (List α)
  | [] => ([], [])
  | a :: s =>
    let (p, ws) := runs x s
    if a = x then ([], p :: ws) else (a :: p, ws)

theorem glue_runs (x : α) (s : List α) : (runs x s).1 ++ glue x (runs x s).2 = s := by
  induction s with
  | nil => rfl
  | cons a s ih =>
    unfold runs
    dsimp only
    split_ifs with ha
    · rw [List.nil_append, glue_cons, ih, ha]
    · rw [List.cons_append, ih]

theorem runs_free (x : α) (s : List α) :
    x ∉ (runs x s).1 ∧ ∀ w ∈ (runs x s).2, x ∉ w := by
  induction s with
  | nil => exact ⟨List.not_mem_nil, List.forall_mem_nil _⟩
  | cons a s ih =>
    unfold runs
    dsimp only
    split_ifs with ha
    · exact ⟨List.not_mem_nil, List.forall_mem_cons.mpr ih⟩
    · exact ⟨by rw [List.mem_cons, not_or]; exact ⟨Ne.symm ha, ih.1⟩, ih.2⟩

theorem runs_plain {x : α} {p : List α} (hp : x ∉ p) (s : List α) :
    runs x (p ++ s) = (p ++ (runs x s).1, (runs x s).2) := by
  induction p with
  | nil => rfl
  | cons a p ih =>
    rw [List.mem_cons, not_or] at hp
    rw [List.cons_append, runs, ih hp.2]
    exact if_neg (Ne.symm hp.1)

/-- A list that is put together of a head and runs has these. -/
theorem runs_glue {x : α} {p : List α} {ws : List (List α)} (hp : x ∉ p)
    (hws : ∀ w ∈ ws, x ∉ w) : runs x (p ++ glue x ws) = (p, ws) := by
  induction ws generalizing p with
  | nil =>
    rw [runs_plain hp, glue, List.flatMap_nil, runs, List.append_nil]
  | cons w ws ih =>
    rw [List.forall_mem_cons] at hws
    rw [runs_plain hp, glue_cons, runs, ih hws.1 hws.2]
    dsimp only
    rw [if_pos rfl, List.append_nil]

end Anchors
