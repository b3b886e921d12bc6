/-
The loop of the legend clamp over runs.

The walk to the end of a block goes run by run, and the loop covers whole runs: a block ends inside
its last one, behind whatever item stands at the head of it.
-/
import CircuitForge.Pcb.SilkRuns

namespace CircuitForge
namespace Legend

open Js Anchors

variable {limits : SilkLimits}

/-! ## The walk -/

/-- Where a walk stands behind a text; none when a parenthesis has closed the depth `floor`. -/
def walk (floor : Nat) : Lexing → Nat → Text → Option (Lexing × Nat)
  | lexing, depth, [] => some (lexing, depth)
  | lexing, depth, c :: s =>
    if lexing = .code ∧ c = ')' ∧ depth = floor then none
    else walk floor (lexing.next c) (depthAfter lexing depth c) s

theorem walk_append (floor : Nat) (lexing : Lexing) (depth : Nat) (a b : Text) :
    walk floor lexing depth (a ++ b) =
      (walk floor lexing depth a).bind fun p => walk floor p.1 p.2 b := by
  induction a generalizing lexing depth with
  | nil => rfl
  | cons c a ih =>
    rw [List.cons_append, walk, walk]
    split_ifs with hclose
    · rfl
    · exact ih _ _

/-- A block goes on behind a text that does not close it. -/
theorem blockFrom_of_walk {lexing lexing' : Lexing} {depth depth' : Nat} {a : Text}
    (h : walk 1 lexing depth a = some (lexing', depth')) (b : Text) :
    blockFrom lexing depth (a ++ b) =
      (blockFrom lexing' depth' b).map fun p => (a ++ p.1, p.2) := by
  induction a generalizing lexing depth with
  | nil =>
    cases h
    rw [List.nil_append]
    cases blockFrom lexing' depth' b <;> rfl
  | cons c a ih =>
    rw [walk] at h
    split_ifs at h with hclose
    rw [List.cons_append, blockFrom, if_neg hclose, ih h, Option.map_map]
    rfl

/-- A block ends in a text that closes it. -/
theorem blockFrom_of_walk_none {lexing : Lexing} {depth : Nat} {a : Text}
    (h : walk 1 lexing depth a = none) :
    ∃ u tail, a = u ++ ')' :: tail ∧
      ∀ b, blockFrom lexing depth (a ++ b) = some (u ++ [')'], tail ++ b) := by
  induction a generalizing lexing depth with
  | nil => cases h
  | cons c a ih =>
    rw [walk] at h
    split_ifs at h with hclose
    · refine ⟨[], a, by rw [hclose.2.1]; rfl, fun b => ?_⟩
      rw [List.cons_append, blockFrom, if_pos hclose, hclose.2.1]
      rfl
    · obtain ⟨u, tail, rfl, hblock⟩ := ih h
      refine ⟨c :: u, tail, rfl, fun b => ?_⟩
      rw [List.cons_append, blockFrom, if_neg hclose, hblock]
      rfl

/-- The number of runs up to the end of a block. -/
def blockRuns : Lexing → Nat → List Text → Option Nat
  | _, _, [] => none
  | lexing, depth, w :: ws =>
    match walk 1 lexing depth ('(' :: w) with
    | none => some 1
    | some (lexing', depth') => (blockRuns lexing' depth' ws).map (· + 1)

theorem blockFrom_glue_none {lexing : Lexing} {depth : Nat} {ws : List Text}
    (h : blockRuns lexing depth ws = none) : blockFrom lexing depth (glue '(' ws) = none := by
  induction ws generalizing lexing depth with
  | nil => rfl
  | cons w ws ih =>
    rw [blockRuns] at h
    split at h
    · cases h
    · rename_i lexing' depth' hwalk
      rw [Option.map_eq_none_iff] at h
      have hblock := blockFrom_of_walk hwalk (glue '(' ws)
      rw [glue_cons, ← List.cons_append, hblock, ih h]
      rfl

/-- A block ends behind a parenthesis of its last run. -/
theorem blockFrom_glue {lexing : Lexing} {depth n : Nat} {ws : List Text}
    (h : blockRuns lexing depth ws = some n) :
    ∃ us a tail rest, ws = us ++ (a ++ ')' :: tail) :: rest ∧ n = us.length + 1 ∧
      blockFrom lexing depth (glue '(' ws) =
        some (glue '(' (us ++ [a ++ [')']]), tail ++ glue '(' rest) := by
  induction ws generalizing lexing depth n with
  | nil => cases h
  | cons w ws ih =>
    rw [blockRuns] at h
    split at h
    · rename_i hwalk
      cases h
      obtain ⟨u, tail, heq, hblock⟩ := blockFrom_of_walk_none hwalk
      cases u with
      | nil => exact absurd (List.cons.inj heq).1 (by decide)
      | cons c a =>
        obtain ⟨rfl, rfl⟩ := List.cons.inj heq
        refine ⟨[], a, tail, ws, rfl, rfl, ?_⟩
        rw [glue_cons, ← List.cons_append, hblock]
        show some ('(' :: (a ++ [')']), _) = some ('(' :: (a ++ [')'] ++ []), _)
        rw [List.append_nil]
    · rename_i lexing' depth' hwalk
      obtain ⟨m, hm, rfl⟩ := Option.map_eq_some_iff.mp h
      obtain ⟨us, a, tail, rest, rfl, rfl, hblock⟩ := ih hm
      refine ⟨w :: us, a, tail, rest, rfl, rfl, ?_⟩
      rw [glue_cons, ← List.cons_append, blockFrom_of_walk hwalk, hblock]
      rfl

/-! ## The loop -/

/-- `SILK` matches at the head of the run. -/
def isSilk (w : Text) : Bool := (silkAt w).isSome

/-- The number of runs of the block the loop clamps at the first run, if it does. -/
def acted : List Text → Option Nat
  | [] => none
  | w :: ws =>
    if isDrawable w then
      (blockRuns .code 0 (w :: ws)).filter fun n => ((w :: ws).take n).any isSilk
    else none

/-- The runs that lie in a block the loop clamps. -/
def coveredFrom : Nat → List Text → List Bool
  | _, [] => []
  | skip + 1, _ :: ws => true :: coveredFrom skip ws
  | 0, w :: ws =>
    match acted (w :: ws) with
    | none => false :: coveredFrom 0 ws
    | some n => true :: coveredFrom (n - 1) ws

theorem length_coveredFrom (skip : Nat) (ws : List Text) :
    (coveredFrom skip ws).length = ws.length := by
  induction ws generalizing skip with
  | nil => cases skip <;> rfl
  | cons w ws ih =>
    cases skip with
    | zero =>
      rw [coveredFrom]
      split <;> rw [List.length_cons, List.length_cons, ih]
    | succ skip => rw [coveredFrom, List.length_cons, List.length_cons, ih]

theorem coveredFrom_skip (us ws : List Text) :
    coveredFrom us.length (us ++ ws) = List.replicate us.length true ++ coveredFrom 0 ws := by
  induction us with
  | nil => rfl
  | cons u us ih =>
    rw [List.length_cons, List.cons_append, coveredFrom, ih]
    rfl

/-- The loop covers the runs of the block it clamps and goes on behind them. -/
theorem coveredFrom_acted {us rest : List Text} {x : Text}
    (h : acted (us ++ x :: rest) = some (us.length + 1)) :
    coveredFrom 0 (us ++ x :: rest) =
      List.replicate (us.length + 1) true ++ coveredFrom 0 rest := by
  have hskip := coveredFrom_skip (us ++ [x]) rest
  rw [List.append_assoc, List.length_append, List.length_singleton] at hskip
  cases us with
  | nil =>
    rw [List.nil_append] at h ⊢
    rw [coveredFrom, h]
    rfl
  | cons u us =>
    rw [List.cons_append] at h ⊢
    rw [coveredFrom, h]
    exact hskip

theorem coveredFrom_skipped {w : Text} {ws : List Text} (h : acted (w :: ws) = none) :
    coveredFrom 0 (w :: ws) = false :: coveredFrom 0 ws := by
  rw [coveredFrom, h]

/-! ## Cutting a text -/

theorem cutFrom_skip (p s : Text) : cutFrom p.length (p ++ s) = cutFrom 0 s := by
  induction p with
  | nil => rfl
  | cons c p ih => exact ih

theorem cutFrom_plain {p : Text} (hp : '(' ∉ p) (s : Text) :
    cutFrom 0 (p ++ s) = p.map .other ++ cutFrom 0 s := by
  induction p with
  | nil => rfl
  | cons c p ih =>
    rw [List.mem_cons, not_or] at hp
    rw [List.cons_append, cutFrom, if_neg fun h => hp.1 h.1.symm, ih hp.2]
    rfl

theorem startsWith_cut {key : Text} (hkey : '(' ∉ key) (w r : Text) :
    startsWith (w ++ '(' :: r) key = startsWith w key := by
  induction key generalizing w with
  | nil => cases w <;> rfl
  | cons k key ih =>
    rw [List.mem_cons, not_or] at hkey
    cases w with
    | nil =>
      show (k == '(' && key.isPrefixOf r) = false
      rw [beq_false_of_ne (Ne.symm hkey.1), Bool.false_and]
    | cons c w =>
      show (k == c && startsWith (w ++ '(' :: r) key) = (k == c && startsWith w key)
      rw [ih hkey.2]

/-- A keyword is decided within its run. -/
theorem isDrawable_glue (w : Text) (ws : List Text) :
    isDrawable (w ++ glue '(' ws) = isDrawable w := by
  cases ws with
  | nil => rw [glue, List.flatMap_nil, List.append_nil]
  | cons u us =>
    have hkeys : ∀ key ∈ drawableKeys, '(' ∉ key := by decide
    unfold isDrawable
    rw [Bool.eq_iff_iff, List.any_eq_true, List.any_eq_true]
    refine exists_congr fun key => and_congr_right fun hkey => ?_
    rw [glue_cons, startsWith_cut (hkeys key hkey)]
    by_cases hstarts : startsWith w key = true
    · have hlen : key.length ≤ w.length := (List.isPrefixOf_iff_prefix.mp hstarts).length_le
      rw [List.drop_append_of_le_length hlen]
      -- behind the keyword stands the same character, or a parenthesis for nothing
      cases w.drop key.length with
      | nil => rfl
      | cons c r => rfl
    · rw [Bool.not_eq_true] at hstarts
      rw [hstarts, Bool.false_and, Bool.false_and]

theorem isSilk_close (a tail : Text) : isSilk (a ++ ')' :: tail) = isSilk (a ++ [')']) := by
  have hclose : ')' ∈ a ++ [')'] := List.mem_append_right _ (List.mem_singleton_self _)
  have hat := itemAt_append parseSilk hclose tail
  rw [List.append_assoc] at hat
  unfold isSilk silkAt
  rw [← hat]
  rfl

theorem glue_close (us rest : List Text) (a tail : Text) :
    glue '(' (us ++ (a ++ ')' :: tail) :: rest) =
      glue '(' (us ++ [a ++ [')']]) ++ (tail ++ glue '(' rest) := by
  simp [glue]

theorem glue_head (us : List Text) (x : Text) : ∃ b, glue '(' (us ++ [x]) = '(' :: b := by
  cases us with
  | nil => exact ⟨_, rfl⟩
  | cons u us => exact ⟨_, rfl⟩

/-- `SILK` matches a block when it matches at the head of one of its runs. -/
theorem captures_silk {us : List Text} {a : Text} (tail : Text)
    (hfree : ∀ u ∈ us ++ [a ++ [')']], '(' ∉ u) :
    captures '(' silkAt (glue '(' (us ++ [a ++ [')']])) ≠ [] ↔
      (us ++ [a ++ ')' :: tail]).any isSilk = true := by
  have hany : (us ++ [a ++ ')' :: tail]).any isSilk = (us ++ [a ++ [')']]).any isSilk := by
    rw [List.any_append, List.any_append, List.any_cons, List.any_cons, isSilk_close]
  rw [captures_glue local_silkAt hfree, hany, Ne, List.filterMap_eq_nil_iff, List.any_eq_true]
  push Not
  refine exists_congr fun u => and_congr_right fun _ => ?_
  rw [Ne, Option.map_eq_none_iff, ← Ne, Option.ne_none_iff_isSome, isSilk]

/-- Where the loop clamps a block, and where it goes on by one character. -/
theorem cutFrom_glue {w : Text} {ws : List Text} (hfree : ∀ u ∈ w :: ws, '(' ∉ u) {p : Text}
    (hp : '(' ∉ p) :
    (acted (w :: ws) = none ∧
      cutFrom 0 (p ++ glue '(' (w :: ws)) =
        p.map .other ++ .other '(' :: cutFrom 0 (w ++ glue '(' ws)) ∨
    ∃ us a tail rest, w :: ws = us ++ (a ++ ')' :: tail) :: rest ∧
      acted (w :: ws) = some (us.length + 1) ∧
      cutFrom 0 (p ++ glue '(' (w :: ws)) =
        p.map .other ++ .block (glue '(' (us ++ [a ++ [')']])) ::
          cutFrom 0 (tail ++ glue '(' rest) := by
  rw [cutFrom_plain hp, glue_cons, cutFrom, isDrawable_glue, acted]
  by_cases hdraw : isDrawable w = true
  · rw [if_pos hdraw, if_pos ⟨rfl, hdraw⟩, blockAt, ← glue_cons]
    cases hruns : blockRuns .code 0 (w :: ws) with
    | none =>
      rw [blockFrom_glue_none hruns]
      exact Or.inl ⟨rfl, rfl⟩
    | some n =>
      obtain ⟨us, a, tail, rest, heq, rfl, hblock⟩ := blockFrom_glue hruns
      have htake : (w :: ws).take (us.length + 1) = us ++ [a ++ ')' :: tail] := by
        rw [heq, List.append_cons us]
        exact List.take_left' (by rw [List.length_append, List.length_singleton])
      have hrun : '(' ∉ a ++ ')' :: tail :=
        hfree _ (by rw [heq]; exact List.mem_append_right _ List.mem_cons_self)
      have hblockfree : ∀ u ∈ us ++ [a ++ [')']], '(' ∉ u := by
        intro u hu
        rcases List.mem_append.mp hu with hu | hu
        · exact hfree u (by rw [heq]; exact List.mem_append_left _ hu)
        · rw [List.mem_singleton.mp hu]
          exact fun hmem => hrun (by simpa using Or.inl hmem)
      rw [hblock]
      dsimp only
      by_cases hsilk : captures '(' silkAt (glue '(' (us ++ [a ++ [')']])) = []
      · have hnone : ¬ ((w :: ws).take (us.length + 1)).any isSilk = true := by
          rw [htake]
          exact fun htrue => (captures_silk tail hblockfree).mpr htrue hsilk
        rw [if_pos hsilk]
        exact Or.inl ⟨Option.filter_eq_none_iff.mpr fun n hn => by cases hn; exact hnone, rfl⟩
      · have hsome := (captures_silk tail hblockfree).mp hsilk
        rw [← htake] at hsome
        rw [if_neg hsilk]
        refine Or.inr ⟨us, a, tail, rest, heq, ?_, ?_⟩
        · exact Option.filter_eq_some_iff.mpr ⟨rfl, hsome⟩
        · obtain ⟨b, hb⟩ := glue_head us (a ++ [')'])
          have hwhole := glue_close us rest a tail
          rw [← heq, hb, glue_cons] at hwhole
          rw [hb, (List.cons.inj hwhole).2]
          exact congrArg (_ ++ .block ('(' :: b) :: ·) (cutFrom_skip b _)
  · rw [if_neg hdraw, if_neg fun h => hdraw h.2]
    exact Or.inl ⟨rfl, rfl⟩

/-- A cut goes from block to block, and from run to run where the loop clamps none. -/
theorem cutFrom_induction {motive : Text → List Text → List Piece → Prop}
    (done : ∀ p, motive p [] (p.map .other))
    (other : ∀ p w ws, acted (w :: ws) = none → motive w ws (cutFrom 0 (w ++ glue '(' ws)) →
      motive p (w :: ws) (p.map .other ++ .other '(' :: cutFrom 0 (w ++ glue '(' ws)))
    (block : ∀ p us a tail rest, acted (us ++ (a ++ ')' :: tail) :: rest) = some (us.length + 1) →
      (∀ u ∈ us ++ [a ++ [')']], '(' ∉ u) → motive tail rest (cutFrom 0 (tail ++ glue '(' rest)) →
      motive p (us ++ (a ++ ')' :: tail) :: rest)
        (p.map .other ++ .block (glue '(' (us ++ [a ++ [')']])) ::
          cutFrom 0 (tail ++ glue '(' rest)))
    {p : Text} (hp : '(' ∉ p) {ws : List Text} (hws : ∀ w ∈ ws, '(' ∉ w) :
    motive p ws (cutFrom 0 (p ++ glue '(' ws)) := by
  induction hlen : ws.length using Nat.strong_induction_on generalizing p ws with
  | _ n ih =>
    cases ws with
    | nil =>
      have hcut := cutFrom_plain hp []
      rw [cutFrom] at hcut
      rw [glue, List.flatMap_nil, hcut, List.append_nil]
      exact done p
    | cons w ws =>
      rcases cutFrom_glue hws hp with ⟨hacted, hcut⟩ | ⟨us, a, tail, rest, heq, hacted, hcut⟩
      · rw [List.forall_mem_cons] at hws
        rw [hcut]
        exact other p w ws hacted (ih ws.length (by simp [← hlen]) hws.1 hws.2 rfl)
      · rw [hcut]
        rw [heq] at hws hacted hlen ⊢
        have hrun := hws _ (List.mem_append_right _ List.mem_cons_self)
        rw [List.mem_append, List.mem_cons, not_or, not_or] at hrun
        refine block p us a tail rest hacted ?_ (ih rest.length ?_ hrun.2.2 ?_ rfl)
        · intro u hu
          rcases List.mem_append.mp hu with hu | hu
          · exact hws u (List.mem_append_left _ hu)
          · rw [List.mem_singleton.mp hu, List.mem_append, not_or]
            exact ⟨hrun.1, by decide⟩
        · rw [← hlen, List.length_append, List.length_cons]
          omega
        · exact fun u hu => hws u (List.mem_append_right _ (List.mem_cons_of_mem _ hu))

/-! ## The text of the clamp -/

theorem strokeAt_close (a tail : Text) : strokeAt (a ++ ')' :: tail) = strokeAt (a ++ [')']) := by
  rw [List.append_cons a ')' tail]
  exact itemAt_append parseStroke (List.mem_append_right _ (List.mem_singleton_self _)) tail

theorem sizeAt_close (a tail : Text) : sizeAt (a ++ ')' :: tail) = sizeAt (a ++ [')']) := by
  rw [List.append_cons a ')' tail]
  exact itemAt_append parseSize (List.mem_append_right _ (List.mem_singleton_self _)) tail

theorem lowRun_close (a tail : Text) :
    lowRun limits (a ++ ')' :: tail) = lowRun limits (a ++ [')']) := by
  rw [lowRun, lowRun, strokeAt_close, sizeAt_close]

/-- The clamp of a run ends with its item. -/
theorem clampRun_append {t : Text} (h : ')' ∈ t) (u : Text) :
    clampRun limits (t ++ u) = clampRun limits t ++ u := by
  cases runCases t with
  | stroke hbody hparse =>
    rw [List.append_assoc, List.cons_append, clampRun_stroke hbody hparse,
      clampRun_stroke hbody hparse, List.append_assoc, List.cons_append]
  | size hbody hparse =>
    rw [List.append_assoc, List.cons_append, clampRun_size hbody hparse,
      clampRun_size hbody hparse, List.append_assoc, List.cons_append]
  | plain hstroke hsize =>
    rw [clampRun_plain hstroke hsize, clampRun_plain]
    · rw [strokeAt, itemAt_append parseStroke h]
      exact hstroke
    · rw [sizeAt, itemAt_append parseSize h]
      exact hsize

/-- The runs, with the clamp on those that are marked. -/
def clampMarked (limits : SilkLimits) (marks : List Bool) (ws : List Text) : List Text :=
  List.zipWith (fun b w => if b then clampRun limits w else w) marks ws

theorem clampMarked_cons (b : Bool) (marks : List Bool) (w : Text) (ws : List Text) :
    clampMarked limits (b :: marks) (w :: ws) =
      (if b then clampRun limits w else w) :: clampMarked limits marks ws := rfl

theorem clampMarked_true (us ws : List Text) (marks : List Bool) :
    clampMarked limits (List.replicate us.length true ++ marks) (us ++ ws) =
      us.map (clampRun limits) ++ clampMarked limits marks ws := by
  induction us with
  | nil => rfl
  | cons u us ih =>
    rw [List.length_cons, List.replicate_succ, List.cons_append, List.cons_append,
      clampMarked_cons, ih]
    rfl

theorem free_clampMarked {marks : List Bool} {ws : List Text} (h : ∀ w ∈ ws, '(' ∉ w) :
    ∀ w ∈ clampMarked limits marks ws, '(' ∉ w := by
  induction ws generalizing marks with
  | nil => cases marks <;> exact List.forall_mem_nil _
  | cons w ws ih =>
    rw [List.forall_mem_cons] at h
    cases marks with
    | nil => exact List.forall_mem_nil _
    | cons b marks =>
      refine List.forall_mem_cons.mpr ⟨?_, ih h.2⟩
      cases b with
      | false => exact h.1
      | true => exact free_clampRun h.1

theorem text_other (p : Text) : (p.map Piece.other).flatMap (Piece.text limits) = p := by
  rw [List.flatMap_map]
  exact List.flatMap_singleton' p

/-- The clamp rewrites the runs in the blocks it selects. -/
theorem text_cutFrom {p : Text} (hp : '(' ∉ p) {ws : List Text} (hws : ∀ w ∈ ws, '(' ∉ w) :
    (cutFrom 0 (p ++ glue '(' ws)).flatMap (Piece.text limits) =
      p ++ glue '(' (clampMarked limits (coveredFrom 0 ws) ws) := by
  refine cutFrom_induction
    (motive := fun p ws pieces => pieces.flatMap (Piece.text limits) =
      p ++ glue '(' (clampMarked limits (coveredFrom 0 ws) ws)) ?_ ?_ ?_ hp hws
  · intro p
    rw [text_other]
    exact (List.append_nil p).symm
  · intro p w ws hacted ih
    rw [List.flatMap_append, List.flatMap_cons, text_other, ih, coveredFrom_skipped hacted,
      clampMarked_cons, glue_cons]
    rfl
  · intro p us a tail rest hacted hfree ih
    have hmarks : clampMarked limits (List.replicate (us ++ [a ++ ')' :: tail]).length true ++ _) _ =
        _ := clampMarked_true (us ++ [a ++ ')' :: tail]) rest (coveredFrom 0 rest)
    rw [List.append_assoc, List.length_append, List.length_singleton] at hmarks
    have hclamp : clampRun limits (a ++ [')'] ++ tail) = clampRun limits (a ++ [')']) ++ tail :=
      clampRun_append (List.mem_append_right a (List.mem_singleton_self ')')) tail
    rw [← List.append_cons] at hclamp
    rw [List.flatMap_append, List.flatMap_cons, text_other, ih, coveredFrom_acted hacted]
    show p ++ ((clampBlock limits _).kicadPcb ++ _) = p ++ glue '(' (clampMarked limits _
      (us ++ ([a ++ ')' :: tail] ++ rest)))
    rw [clampBlock_glue hfree, hmarks]
    simp [glue, hclamp]

/-- No marked run is low. -/
def Quiet (limits : SilkLimits) (marks : List Bool) (ws : List Text) : Prop :=
  List.Forall₂ (fun b w => b = true → lowRun limits w = false) marks ws

theorem Quiet.of_append {us ws : List Text} {marks : List Bool}
    (h : Quiet limits (List.replicate us.length true ++ marks) (us ++ ws)) :
    (∀ u ∈ us, lowRun limits u = false) ∧ Quiet limits marks ws := by
  induction us with
  | nil => exact ⟨List.forall_mem_nil _, h⟩
  | cons u us ih =>
    cases h with
    | cons hu hrest =>
      exact ⟨List.forall_mem_cons.mpr ⟨hu rfl, (ih hrest).1⟩, (ih hrest).2⟩

theorem quiet_clampMarked {marks : List Bool} {ws : List Text} (h : marks.length = ws.length) :
    Quiet limits marks (clampMarked limits marks ws) := by
  induction marks generalizing ws with
  | nil => exact .nil
  | cons b marks ih =>
    cases ws with
    | nil => cases h
    | cons w ws =>
      refine .cons (fun hb => ?_) (ih (Nat.succ.inj h))
      rw [hb]
      exact lowRun_clampRun w

/-- The clamp leaves runs of which no marked one is low. -/
theorem clampMarked_of_quiet {marks : List Bool} {ws : List Text} (h : Quiet limits marks ws) :
    clampMarked limits marks ws = ws := by
  induction h with
  | nil => rfl
  | @cons b w marks ws hw _ ih =>
    rw [clampMarked_cons, ih]
    cases b with
    | false => rfl
    | true => exact congrArg (· :: ws) (clampRun_of_not_low (hw rfl))

theorem clamped_other (p : Text) :
    (p.map Piece.other).filterMap (Piece.clamped? limits) = [] := by
  rw [List.filterMap_map]
  exact List.filterMap_eq_nil_iff.mpr fun _ _ => rfl

/-- Nothing is counted when no run in a selected block is low. -/
theorem counts_cutFrom {p : Text} (hp : '(' ∉ p) {ws : List Text} (hws : ∀ w ∈ ws, '(' ∉ w)
    (hquiet : Quiet limits (coveredFrom 0 ws) ws) :
    ∀ r ∈ (cutFrom 0 (p ++ glue '(' ws)).filterMap (Piece.clamped? limits),
      r.widthsClamped = 0 ∧ r.heightsClamped = 0 := by
  refine cutFrom_induction
    (motive := fun _ ws pieces => Quiet limits (coveredFrom 0 ws) ws →
      ∀ r ∈ pieces.filterMap (Piece.clamped? limits),
        r.widthsClamped = 0 ∧ r.heightsClamped = 0) ?_ ?_ ?_ hp hws hquiet
  · intro p _
    rw [clamped_other]
    exact List.forall_mem_nil _
  · intro p w ws hacted ih hquiet
    rw [coveredFrom_skipped hacted] at hquiet
    cases hquiet with
    | cons _ hrest =>
      rw [List.filterMap_append, clamped_other]
      exact ih hrest
  · intro p us a tail rest hacted hfree ih hquiet
    rw [coveredFrom_acted hacted, List.append_cons us] at hquiet
    have hlen : us.length + 1 = (us ++ [a ++ ')' :: tail]).length := by
      rw [List.length_append, List.length_singleton]
    rw [hlen] at hquiet
    obtain ⟨hlow, hrest⟩ := hquiet.of_append
    rw [List.filterMap_append, clamped_other]
    show ∀ r ∈ clampBlock limits _ :: _, _
    refine List.forall_mem_cons.mpr ⟨clampBlock_counts hfree fun u hu => ?_, ih hrest⟩
    rcases List.mem_append.mp hu with hu | hu
    · exact hlow u (List.mem_append_left _ hu)
    · rw [List.mem_singleton.mp hu, ← lowRun_close a tail]
      exact hlow _ (List.mem_append_right _ (List.mem_singleton_self _))

end Legend
end CircuitForge
