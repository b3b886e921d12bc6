/-
Strings of one line.

Lines joined by newlines split back into the same lines exactly when none of them
has a newline of its own.  `OneLine` is that property of one string, and the
string operations keep it.
-/
import CircuitForge.Js.Scan
import CircuitForge.Js.Text

namespace Js

/-- A string without a newline. -/
def OneLine (s : Text) : Prop := '\n' ∉ s

instance (s : Text) : Decidable (OneLine s) := inferInstanceAs (Decidable (¬ '\n' ∈ s))

/-! ## Splitting what was joined -/

theorem splitLines_join_iff {ls : List Text} (hne : ls ≠ []) :
    splitLines (join "\n".toList ls) = ls ↔ ∀ l ∈ ls, OneLine l := by
  constructor
  · intro h l hl
    rw [← h] at hl
    exact newline_notMem_of_mem_splitLines hl
  · exact fun h => splitLines_join h hne

theorem join_append (sep : Text) {xs ys : List Text} (hx : xs ≠ []) (hy : ys ≠ []) :
    join sep (xs ++ ys) = join sep xs ++ (sep ++ join sep ys) := by
  obtain ⟨y, ys, rfl⟩ := List.exists_cons_of_ne_nil hy
  induction xs with
  | nil => exact absurd rfl hx
  | cons x xs ih =>
    cases xs with
    | nil => rw [List.singleton_append, join_cons_cons, join_singleton]
    | cons x' xs =>
      rw [List.cons_append, List.cons_append, join_cons_cons, ← List.cons_append,
        ih (List.cons_ne_nil _ _), join_cons_cons]
      simp only [List.append_assoc]

theorem join_splitLines (s : Text) : join "\n".toList (splitLines s) = s :=
  List.intercalate_splitOn '\n'

/-- A joined string may have newlines of its own. -/
theorem join_flatMap_splitLines (ls : List Text) :
    join "\n".toList (ls.flatMap splitLines) = join "\n".toList ls := by
  induction ls with
  | nil => rfl
  | cons l ls ih =>
    cases ls with
    | nil => rw [List.flatMap_singleton, join_splitLines, join_singleton]
    | cons l' ls =>
      rw [List.flatMap_cons, join_append _ (splitLines_ne_nil l), join_splitLines, ih,
        join_cons_cons]
      exact fun h => splitLines_ne_nil l' (List.append_eq_nil_iff.mp h).1

theorem splitLines_of_oneLine {s : Text} (h : OneLine s) : splitLines s = [s] := by
  have := splitLines_join (List.forall_mem_singleton.mpr h) (List.cons_ne_nil s [])
  rwa [join_singleton] at this

theorem flatMap_splitLines_idem (ls : List Text) :
    (ls.flatMap splitLines).flatMap splitLines = ls.flatMap splitLines := by
  rw [List.flatMap_assoc]
  congr 1
  funext l
  have : ∀ xs : List Text, (∀ x ∈ xs, OneLine x) → xs.flatMap splitLines = xs := by
    intro xs hxs
    induction xs with
    | nil => rfl
    | cons x xs ih =>
      rw [List.forall_mem_cons] at hxs
      rw [List.flatMap_cons, splitLines_of_oneLine hxs.1, ih hxs.2, List.singleton_append]
  exact this _ fun x hx => newline_notMem_of_mem_splitLines hx

/-! ## Closure -/

@[simp] theorem oneLine_nil : OneLine [] := List.not_mem_nil

@[simp] theorem oneLine_cons {c : Char} {s : Text} : OneLine (c :: s) ↔ c ≠ '\n' ∧ OneLine s := by
  rw [OneLine, List.mem_cons, not_or, ne_comm]
  rfl

@[simp] theorem oneLine_append {a b : Text} : OneLine (a ++ b) ↔ OneLine a ∧ OneLine b := by
  rw [OneLine, List.mem_append, not_or]
  rfl

theorem OneLine.append {a b : Text} (ha : OneLine a) (hb : OneLine b) : OneLine (a ++ b) :=
  oneLine_append.mpr ⟨ha, hb⟩

theorem OneLine.cons {c : Char} {s : Text} (hc : c ≠ '\n') (hs : OneLine s) : OneLine (c :: s) :=
  oneLine_cons.mpr ⟨hc, hs⟩

theorem OneLine.ite {p : Prop} [Decidable p] {a b : Text} (ha : OneLine a) (hb : OneLine b) :
    OneLine (if p then a else b) := by
  split_ifs
  · exact ha
  · exact hb

theorem Solid.oneLine {s : Text} (h : Solid s) : OneLine s :=
  fun hm => absurd (h _ hm) (by decide)

theorem NoLineBreak.oneLine {s : Text} (h : NoLineBreak s) : OneLine s :=
  fun hm => absurd (h _ hm) (by decide)

theorem oneLine_of_accepts {r : Re} (hr : r.chars '\n' = false) {s : Text}
    (h : r.accepts s = true) : OneLine s := by
  intro hm
  have := Re.chars_of_accepts h hm
  rw [hr] at this
  cases this

theorem oneLine_of_isWord {s : Text} (h : ∀ c ∈ s, isWord c = true) : OneLine s :=
  (solid_of_isWord h).oneLine

theorem OneLine.of_subset {s t : Text} (h : OneLine s) (hs : t ⊆ s) : OneLine t :=
  fun hm => h (hs hm)

theorem OneLine.trim {s : Text} (h : OneLine s) : OneLine (trim s) :=
  h.of_subset fun _ => mem_of_mem_trim

theorem subset_join {sep : Text} {xs : List Text} {x : Text} (hx : x ∈ xs) : x ⊆ join sep xs := by
  induction xs with
  | nil => exact absurd hx List.not_mem_nil
  | cons y xs ih =>
    cases xs with
    | nil => rw [List.mem_singleton.mp hx, join_singleton]; exact List.Subset.refl y
    | cons z xs =>
      rw [join_cons_cons]
      rcases List.mem_cons.mp hx with rfl | hx
      · exact List.subset_append_left _ _
      · exact List.subset_append_of_subset_right _ (List.subset_append_of_subset_right _ (ih hx))

theorem oneLine_join {sep : Text} (hsep : OneLine sep) {xs : List Text} :
    OneLine (join sep xs) ↔ ∀ x ∈ xs, OneLine x := by
  constructor
  · exact fun h x hx => h.of_subset (subset_join hx)
  · intro h hm
    rcases mem_join hm with hm | ⟨x, hx, hm⟩
    · exact hsep hm
    · exact h x hx hm

theorem splitOn_subset {d : Char} {s t : Text} (h : t ∈ s.splitOn d) : t ⊆ s := by
  have hjoin : join [d] (s.splitOn d) = s := List.intercalate_splitOn d
  exact fun c hc => hjoin ▸ subset_join h hc

/-! ## Calls -/

theorem callAt_subset {l : Char} {s inner : Text} {n : Nat} (h : callAt l s = some (inner, n)) :
    inner ⊆ s := by
  unfold callAt at h
  split at h
  case h_2 => cases h
  case h_1 c r =>
    split_ifs at h
    split at h
    case h_2 => cases h
    case h_1 t ht =>
      split at h
      case h_2 => cases h
      case h_1 =>
        simp only [Option.some.injEq, Prod.mk.injEq] at h
        intro x hx
        rw [← h.1] at hx
        refine List.mem_cons_of_mem _ ((List.dropWhile_sublist isSpace).mem ?_)
        change x ∈ trimStart r
        rw [ht]
        exact List.mem_cons_of_mem _ ((List.takeWhile_sublist _).mem hx)

theorem callAt_pos {l : Char} {s inner : Text} {n : Nat} (h : callAt l s = some (inner, n)) :
    0 < n := by
  unfold callAt at h
  split at h
  case h_2 => cases h
  case h_1 c r =>
    split_ifs at h
    split at h
    case h_2 => cases h
    case h_1 t ht =>
      split at h
      case h_2 => cases h
      case h_1 d rest hrest =>
        simp only [Option.some.injEq, Prod.mk.injEq] at h
        have hr : (trimStart r).length ≤ r.length := (List.dropWhile_sublist isSpace).length_le
        have ht' : (t.dropWhile (· != ')')).length ≤ t.length :=
          (List.dropWhile_sublist _).length_le
        rw [ht, List.length_cons] at hr
        rw [hrest, List.length_cons] at ht'
        rw [← h.2, List.length_cons]
        omega

theorem oneLine_replaceCallsFrom {l : Char} {ok : Text → Bool} {f : Text → Text → Text}
    (hf : ∀ whole inner, OneLine whole → OneLine inner → OneLine (f whole inner)) {prev : Bool}
    {skip : Nat} {s : Text} (h : OneLine s) : OneLine (replaceCallsFrom l ok f prev skip s) := by
  fun_induction replaceCallsFrom l ok f prev skip s with
  | case1 => exact oneLine_nil
  | case2 prev skip c s ih => exact ih (oneLine_cons.mp h).2
  | case3 prev c s inner n hcall hok ih =>
    split_ifs at hcall
    rw [oneLine_append]
    exact ⟨hf _ _ (h.of_subset (List.take_subset _ _)) (h.of_subset (callAt_subset hcall)),
      ih (oneLine_cons.mp h).2⟩
  | case4 prev c s inner n hcall hok ih =>
    rw [oneLine_cons] at h ⊢
    exact ⟨h.1, ih h.2⟩
  | case5 prev c s hcall ih =>
    rw [oneLine_cons] at h ⊢
    exact ⟨h.1, ih h.2⟩

theorem oneLine_replaceCalls {l : Char} {ok : Text → Bool} {f : Text → Text → Text}
    (hf : ∀ whole inner, OneLine whole → OneLine inner → OneLine (f whole inner)) {s : Text}
    (h : OneLine s) : OneLine (replaceCalls l ok f s) := oneLine_replaceCallsFrom hf h

theorem oneLine_mapCommas {f : Text → Text} (hf : ∀ t, OneLine t → OneLine (f t)) {s : Text}
    (h : OneLine s) : OneLine (mapCommas f s) := by
  rw [mapCommas, oneLine_join (by decide), List.forall_mem_map]
  exact fun t ht => hf t (h.of_subset (splitOn_subset ht))

/-! ## Lines that end with `\n` or with `\r\n` -/

/-- A line without the `\r` of its end. -/
def dropReturn (l : Text) : Text := if l.getLast? = some '\r' then l.dropLast else l

/-- `s.split(/\r?\n/)`: what stands behind the last `\n` has no end. -/
def splitLineEnds (s : Text) : List Text :=
  (splitLines s).dropLast.map dropReturn ++ (splitLines s).getLast?.toList

/-- Where `^` of an `m` pattern matches. -/
def atLineStart (before : Option Char) : Bool :=
  before.all fun c => isLineBreak c || c.toNat == 0x2028 || c.toNat == 0x2029

/-- The text behind each place where `^` of an `m` pattern matches. -/
def lineStarts : Option Char → Text → List Text
  | before, [] => if atLineStart before then [[]] else []
  | before, c :: s => (if atLineStart before then [c :: s] else []) ++ lineStarts (some c) s

end Js
