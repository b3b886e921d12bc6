/-
Labels the legend clamp does not mistake for syntax.

Where no literal holds a parenthesis behind which a pattern of the loop matches, the blocks the loop
clamps are nested, and going on behind each of them it misses none.
-/
import CircuitForge.Pcb.Legend

namespace CircuitForge
namespace Legend

open Js Anchors

variable {limits : SilkLimits}

/-! ## Depth -/

/-- Inside a block a walk does not see how deep the block stands. -/
theorem walk_shift {lexing lexing' : Lexing} {depth depth' : Nat} {t : Text}
    (h : walk 1 lexing depth t = some (lexing', depth')) (hpos : 1 ≤ depth) {floor d : Nat}
    (hfloor : floor ≤ d) :
    1 ≤ depth' ∧ walk floor lexing (d + depth) t = some (lexing', d + depth') := by
  induction t generalizing lexing depth with
  | nil =>
    cases h
    exact ⟨hpos, rfl⟩
  | cons c t ih =>
    rw [walk] at h
    split_ifs at h with hclose
    have hopen : ¬ (lexing = .code ∧ c = ')' ∧ d + depth = floor) := by
      rintro ⟨-, -, heq⟩
      omega
    have hafter : 1 ≤ depthAfter lexing depth c ∧
        depthAfter lexing (d + depth) c = d + depthAfter lexing depth c := by
      unfold depthAfter
      split_ifs with hpush hpop
      · omega
      · have hne : depth ≠ 1 := fun heq => hclose ⟨hpop.1, hpop.2, heq⟩
        omega
      · omega
    rw [walk, if_neg hopen, hafter.2]
    exact ih h hafter.1

/-- A block that has begun stands deeper than what is around it. -/
theorem walk_block {us : List Text} {lexing : Lexing} {depth : Nat}
    (h : walk 1 .code 0 (glue '(' us) = some (lexing, depth)) {floor d : Nat} (hfloor : floor ≤ d) :
    walk floor .code d (glue '(' us) = some (lexing, d + depth) ∧ (us ≠ [] → 1 ≤ depth) := by
  cases us with
  | nil =>
    cases h
    exact ⟨rfl, fun hne => absurd rfl hne⟩
  | cons u us =>
    rw [glue_cons] at h ⊢
    obtain ⟨hpos, hwalk⟩ := walk_shift (t := u ++ glue '(' us) h le_rfl hfloor
    exact ⟨hwalk, fun _ => hpos⟩

/-- The walk through a block goes to its last run. -/
theorem walk_isSome_iff {lexing : Lexing} {depth n : Nat} {ws : List Text}
    (h : blockRuns lexing depth ws = some n) (k : Nat) :
    (walk 1 lexing depth (glue '(' (ws.take k))).isSome = true ↔ k < n := by
  induction ws generalizing lexing depth n k with
  | nil => cases h
  | cons w ws ih =>
    rw [blockRuns] at h
    cases k with
    | zero =>
      refine iff_of_true rfl ?_
      split at h
      · cases h
        exact Nat.one_pos
      · obtain ⟨m, -, rfl⟩ := Option.map_eq_some_iff.mp h
        exact Nat.succ_pos m
    | succ k =>
      rw [List.take_succ_cons, glue_cons, ← List.cons_append, walk_append]
      split at h
      · rename_i hwalk
        cases h
        rw [hwalk]
        exact iff_of_false Bool.false_ne_true (by omega)
      · rename_i lexing' depth' hwalk
        obtain ⟨m, hm, rfl⟩ := Option.map_eq_some_iff.mp h
        rw [hwalk, Option.bind_some, ih hm k]
        omega

theorem walk_of_blockRuns_none {lexing : Lexing} {depth : Nat} {ws : List Text}
    (h : blockRuns lexing depth ws = none) :
    (walk 1 lexing depth (glue '(' ws)).isSome = true := by
  induction ws generalizing lexing depth with
  | nil => rfl
  | cons w ws ih =>
    rw [blockRuns] at h
    split at h
    · cases h
    · rename_i lexing' depth' hwalk
      rw [glue_cons, ← List.cons_append, walk_append, hwalk]
      exact ih (Option.map_eq_none_iff.mp h)

/-! ## Covers -/

theorem acted_pos {ws : List Text} {n : Nat} (h : acted ws = some n) : 0 < n := by
  cases ws with
  | nil => cases h
  | cons w ws =>
    rw [acted] at h
    split_ifs at h
    obtain ⟨hruns, -⟩ := Option.filter_eq_some_iff.mp h
    exact (walk_isSome_iff hruns 0).mp rfl

/-- The run `i` is in a block the loop could clamp. -/
def InBlock (ws : List Text) (i : Nat) : Prop :=
  ∃ j ≤ i, ∃ n, acted (ws.drop j) = some n ∧ i < j + n

theorem inBlock_cons_zero {w : Text} {ws : List Text} :
    InBlock (w :: ws) 0 ↔ ∃ n, acted (w :: ws) = some n := by
  constructor
  · rintro ⟨j, hj, n, hacted, -⟩
    rw [Nat.le_zero.mp hj] at hacted
    exact ⟨n, hacted⟩
  · rintro ⟨n, hacted⟩
    exact ⟨0, le_rfl, n, hacted, by have := acted_pos hacted; omega⟩

theorem inBlock_cons_succ {w : Text} {ws : List Text} {i : Nat} :
    InBlock (w :: ws) (i + 1) ↔ (∃ n, acted (w :: ws) = some n ∧ i + 1 < n) ∨ InBlock ws i := by
  constructor
  · rintro ⟨j, hj, n, hacted, hi⟩
    cases j with
    | zero => exact Or.inl ⟨n, hacted, by omega⟩
    | succ j => exact Or.inr ⟨j, by omega, n, hacted, by omega⟩
  · rintro (⟨n, hacted, hi⟩ | ⟨j, hj, n, hacted, hi⟩)
    · exact ⟨0, Nat.zero_le _, n, hacted, by omega⟩
    · exact ⟨j + 1, by omega, n, hacted, by omega⟩

/-- No block the loop could clamp goes past the end of another it begins in. -/
def Nested (ws : List Text) : Prop :=
  ∀ j k n m, acted (ws.drop j) = some n → k < n → acted (ws.drop (j + k)) = some m → k + m ≤ n

theorem Nested.tail {w : Text} {ws : List Text} (h : Nested (w :: ws)) : Nested ws :=
  fun j k n m hn hk hm => h (j + 1) k n m hn hk (by rwa [Nat.add_right_comm])

/-- Of nested blocks the loop covers all. -/
theorem coveredFrom_iff {ws : List Text} (hnested : Nested ws) {skip : Nat}
    (hskip : ∀ j < skip, ∀ n, acted (ws.drop j) = some n → j + n ≤ skip) (i : Nat) :
    (coveredFrom skip ws).getD i false = true ↔
      i < ws.length ∧ (i < skip ∨ InBlock ws i) := by
  induction ws generalizing skip i with
  | nil =>
    have hnil : coveredFrom skip [] = [] := by cases skip <;> rfl
    rw [hnil]
    exact iff_of_false Bool.false_ne_true fun h => Nat.not_lt_zero i h.1
  | cons w ws ih =>
    cases skip with
    | succ skip =>
      have hrest : ∀ j < skip, ∀ n, acted (ws.drop j) = some n → j + n ≤ skip := by
        intro j hj n hacted
        have := hskip (j + 1) (by omega) n hacted
        omega
      cases i with
      | zero => exact iff_of_true rfl ⟨Nat.succ_pos _, Or.inl (Nat.succ_pos _)⟩
      | succ i =>
        have hih := ih hnested.tail hrest i
        rw [inBlock_cons_succ, List.length_cons, Nat.succ_lt_succ_iff, Nat.succ_lt_succ_iff]
        refine hih.trans (and_congr_right fun _ => ?_)
        -- the block at the head ends with what is skipped
        have hhead : (∃ n, acted (w :: ws) = some n ∧ i + 1 < n) → i < skip := by
          rintro ⟨n, hacted, hi⟩
          have := hskip 0 (by omega) n hacted
          omega
        rw [← or_assoc, or_iff_left_of_imp hhead]
    | zero =>
      rw [coveredFrom]
      cases hacted : acted (w :: ws) with
      | none =>
        cases i with
        | zero =>
          rw [inBlock_cons_zero, hacted]
          refine iff_of_false Bool.false_ne_true ?_
          rintro ⟨-, h | ⟨n, h⟩⟩
          · exact Nat.not_lt_zero 0 h
          · cases h
        | succ i =>
          have hrest : ∀ j < 0, ∀ n, acted (ws.drop j) = some n → j + n ≤ 0 :=
            fun j hj => absurd hj (Nat.not_lt_zero j)
          have hih := ih hnested.tail hrest i
          rw [inBlock_cons_succ, List.length_cons, Nat.succ_lt_succ_iff, hacted]
          refine hih.trans (and_congr_right fun _ => ?_)
          simp
      | some n =>
        have hrest : ∀ j < n - 1, ∀ m, acted (ws.drop j) = some m → j + m ≤ n - 1 := by
          intro j hj m hm
          have := hnested 0 (j + 1) n m hacted (by omega) (by rwa [Nat.zero_add])
          omega
        cases i with
        | zero =>
          rw [inBlock_cons_zero]
          exact iff_of_true rfl ⟨Nat.succ_pos _, Or.inr ⟨n, hacted⟩⟩
        | succ i =>
          have hih := ih hnested.tail hrest i
          rw [inBlock_cons_succ, List.length_cons, Nat.succ_lt_succ_iff, hacted]
          refine hih.trans (and_congr_right fun _ => ?_)
          rw [or_iff_right (Nat.not_lt_zero _)]
          refine or_congr_left ?_
          simp
          omega

/-! ## Texts -/

section

variable {s : Text} {j k : Nat}

/-- A walk from a parenthesis outside literals shows which ones behind it are in literals. -/
theorem outside_add (hout : outside s j = true) {lexing : Lexing} {depth : Nat}
    (h : within s j k = some (lexing, depth)) :
    outside s (j + k) = true ↔ lexing = .code := by
  obtain ⟨⟨_, d⟩, hwalk, hcode⟩ := (Option.any_eq_true _ _).mp hout
  cases of_decide_eq_true hcode
  have hupTo : upTo s (j + k) = upTo s j ++ glue '(' (((runsOf s).drop j).take k) := by
    rw [upTo, upTo, List.take_add, glue_append, List.append_assoc]
  rw [outside, hupTo, walk_append, hwalk, Option.bind_some, (walk_block h (Nat.zero_le d)).1]
  exact decide_eq_true_iff

theorem blockRuns_of_balanced (hbalanced : Balanced s) (hout : outside s j = true)
    (hj : j < (runsOf s).length) : ∃ n, blockRuns .code 0 ((runsOf s).drop j) = some n := by
  refine Option.ne_none_iff_exists'.mp fun hnone => ?_
  obtain ⟨⟨lexing, depth⟩, hblock⟩ := Option.isSome_iff_exists.mp (walk_of_blockRuns_none hnone)
  obtain ⟨⟨_, d⟩, hwalk, hcode⟩ := (Option.any_eq_true _ _).mp hout
  cases of_decide_eq_true hcode
  obtain ⟨hrest, hpos⟩ := walk_block hblock (Nat.zero_le d)
  have hsplit : s = upTo s j ++ glue '(' ((runsOf s).drop j) := by
    rw [upTo, List.append_assoc, ← glue_append, List.take_append_drop, text_runs]
  -- the text would end inside the block
  rw [Balanced, hsplit, walk_append, hwalk, Option.bind_some, hrest] at hbalanced
  have hdepth := hpos (List.drop_eq_nil_iff.not.mpr (not_le.mpr hj))
  obtain ⟨-, hzero⟩ := Prod.mk.inj (Option.some.inj hbalanced)
  omega

theorem any_isSilk_iff {n : Nat} : (((runsOf s).drop j).take n).any isSilk = true ↔
    ∃ k < n, isSilk (run s (j + k)) = true := by
  rw [List.any_eq_true]
  constructor
  · rintro ⟨w, hw, hsilk⟩
    obtain ⟨k, hk⟩ := List.mem_iff_getElem?.mp hw
    rw [List.getElem?_take] at hk
    split_ifs at hk with hlt
    rw [List.getElem?_drop] at hk
    exact ⟨k, hlt, by rw [run, List.getD_eq_getElem?_getD, hk]; exact hsilk⟩
  · rintro ⟨k, hlt, hsilk⟩
    rw [run, List.getD_eq_getElem?_getD] at hsilk
    cases hk : (runsOf s)[j + k]? with
    | none =>
      rw [hk] at hsilk
      exact absurd hsilk (by decide)
    | some w =>
      rw [hk] at hsilk
      refine ⟨w, List.mem_iff_getElem?.mpr ⟨k, ?_⟩, hsilk⟩
      rw [List.getElem?_take_of_lt hlt, List.getElem?_drop, hk]

/-- Where the loop could clamp a block. -/
theorem acted_drop_iff {n : Nat} :
    acted ((runsOf s).drop j) = some n ↔
      isDrawable (run s j) = true ∧ blockRuns .code 0 ((runsOf s).drop j) = some n ∧
        ∃ k < n, isSilk (run s (j + k)) = true := by
  have hrun : run s j = ((runsOf s).drop j).getD 0 [] := by
    rw [run, List.getD_eq_getElem?_getD, List.getD_eq_getElem?_getD, List.getElem?_drop,
      Nat.add_zero]
  rw [← any_isSilk_iff, hrun]
  cases hws : (runsOf s).drop j with
  | nil => exact iff_of_false (by rintro ⟨⟩) fun h => absurd h.1 (by decide)
  | cons w ws =>
    show acted (w :: ws) = some n ↔ isDrawable w = true ∧ _
    rw [acted]
    by_cases hdraw : isDrawable w = true
    · rw [if_pos hdraw, Option.filter_eq_some_iff]
      exact (and_iff_right hdraw).symm
    · rw [if_neg hdraw]
      exact iff_of_false (by rintro ⟨⟩) fun h => hdraw h.1

end

/-- No literal holds a parenthesis behind which the loop finds a keyword, a silkscreen layer or a
low item, and a drawable block with a silkscreen layer in it has one of its own. -/
structure Tame (limits : SilkLimits) (s : Text) : Prop where
  literals : ∀ i, outside s i = false →
    isDrawable (run s i) = false ∧ isSilk (run s i) = false ∧ lowRun limits (run s i) = false
  layers : ∀ j k, outside s j = true → isDrawable (run s j) = true →
    (within s j k).isSome = true → isSilk (run s (j + k)) = true → IsSilkBlock s j

theorem Tame.outside {s : Text} (h : Tame limits s) {i : Nat} (hrun : isDrawable (run s i) = true ∨
    isSilk (run s i) = true ∨ lowRun limits (run s i) = true) : outside s i = true := by
  by_contra hout
  obtain ⟨hdraw, hsilk, hlow⟩ := h.literals i (Bool.not_eq_true _ ▸ hout)
  rw [hdraw, hsilk, hlow] at hrun
  simp at hrun

theorem Tame.nested {s : Text} (h : Tame limits s) : Nested (runsOf s) := by
  intro j k n m hn hk hm
  obtain ⟨hdraw, hruns, -⟩ := acted_drop_iff.mp hn
  obtain ⟨hdraw', hruns', -⟩ := acted_drop_iff.mp hm
  cases k with
  | zero =>
    rw [Nat.add_zero, hn] at hm
    cases hm
    exact (Nat.zero_add n).le
  | succ k =>
    by_contra hpast
    obtain ⟨⟨lexing, depth⟩, hwithin⟩ :=
      Option.isSome_iff_exists.mp ((walk_isSome_iff hruns (k + 1)).mpr hk)
    obtain ⟨⟨lexing', depth'⟩, hinner⟩ :=
      Option.isSome_iff_exists.mp ((walk_isSome_iff hruns' (n - (k + 1))).mpr (by omega))
    cases (outside_add (h.outside (Or.inl hdraw)) hwithin).mp (h.outside (Or.inl hdraw'))
    have hne : ((runsOf s).drop j).take (k + 1) ≠ [] := by
      rw [Ne, List.take_eq_nil_iff]
      rintro (hzero | hnil)
      · cases hzero
      · rw [hnil] at hn
        cases hn
    have hpos := (walk_block hwithin (le_refl 0)).2 hne
    -- the outer block would go on behind its end
    refine absurd ((walk_isSome_iff hruns n).mp ?_) (lt_irrefl n)
    have htake : ((runsOf s).drop j).take n = ((runsOf s).drop j).take (k + 1) ++
        ((runsOf s).drop (j + (k + 1))).take (n - (k + 1)) := by
      rw [← List.drop_drop, ← List.take_add, Nat.add_sub_cancel' hk.le]
    rw [htake, glue_append, walk_append, hwithin, Option.bind_some, (walk_block hinner hpos).1]
    rfl

theorem Tame.selected_iff {s : Text} (h : Tame limits s) (hbalanced : Balanced s) {i : Nat}
    (hlow : lowRun limits (run s i) = true) : selected s i = true ↔ InSilk s i := by
  have hlt : i < (runsOf s).length := by
    by_contra hge
    rw [run, List.getD_eq_getElem?_getD, List.getElem?_eq_none (not_lt.mp hge)] at hlow
    cases hlow
  have hout := h.outside (Or.inr (Or.inr hlow))
  rw [selected, coveredFrom_iff h.nested fun j hj => absurd hj (Nat.not_lt_zero j),
    and_iff_right hlt, or_iff_right (Nat.not_lt_zero i)]
  constructor
  · rintro ⟨j, hj, n, hacted, hi⟩
    obtain ⟨hdraw, hruns, k, hk, hsilk⟩ := acted_drop_iff.mp hacted
    have hin := walk_isSome_iff hruns
    have hblock := h.layers j k (h.outside (Or.inl hdraw)) hdraw ((hin k).mpr hk) hsilk
    exact ⟨hout, j, Nat.lt_succ_of_le hj, hblock, (hin (i - j)).mpr (by omega)⟩
  · rintro ⟨-, j, hj, ⟨hjout, hdraw, k, -, hown, hsilk⟩, hin⟩
    obtain ⟨n, hruns⟩ := blockRuns_of_balanced hbalanced hjout (by omega)
    have hiff := walk_isSome_iff hruns
    have hk := (hiff k).mp (Option.isSome_iff_exists.mpr ⟨_, hown⟩)
    have hi := (hiff (i - j)).mp hin
    exact ⟨j, Nat.le_of_lt_succ hj, n, acted_drop_iff.mpr ⟨hdraw, hruns, k, hk, hsilk⟩, by omega⟩

/-- The clamp leaves the legend of a tame board legible. -/
theorem legible_of_tame {s : Text} (hbalanced : Balanced s) (hplain : PlainNumbers s)
    (htame : Tame limits s) : Legible limits s (clampSilkscreen s limits).kicadPcb :=
  legible_of_selected hplain hbalanced fun _ hlow => htame.selected_iff hbalanced hlow

end Legend
end CircuitForge
