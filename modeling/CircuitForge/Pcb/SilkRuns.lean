/-
The legend clamp run by run.

Cut in front of each opening parenthesis, a block is a list of runs, and both passes change nothing
but the items at the heads of the runs.  A run is low while its item is below the floor; a run that
the clamp has changed is not.
-/
import CircuitForge.Pcb.SilkItems

namespace CircuitForge
namespace Legend

open Js

variable {limits : SilkLimits}

/-! ## One run -/

/-- The text of a stroke after its pass. -/
def strokeAfter (limits : SilkLimits) (body : Text) (stroke : Text × Text) : Text :=
  match readMm stroke.2 with
  | none => body
  | some v =>
    if mm limits.minWidthMm ≤ v then body else strokeText stroke.1 (printMm limits.minWidthMm)

/-- The text of a size after its pass. -/
def sizeAfter (limits : SilkLimits) (body : Text) (size : Text × Text) : Text :=
  match readMm size.1, readMm size.2 with
  | some w, some h =>
    let floor := minTextHeight limits
    if mm floor ≤ min w h then body
    else sizeText (scaledAxis floor (min w h) w) (scaledAxis floor (min w h) h)
  | _, _ => body

/-- A run after the first pass. -/
def strokeRun (limits : SilkLimits) (w : Text) : Text :=
  match strokeAt w with
  | some (stroke, n) => strokeAfter limits (w.take (n - 1)) stroke ++ w.drop (n - 1)
  | none => w

/-- A run after the second pass. -/
def sizeRun (limits : SilkLimits) (w : Text) : Text :=
  match sizeAt w with
  | some (size, n) => sizeAfter limits (w.take (n - 1)) size ++ w.drop (n - 1)
  | none => w

/-- A run after both passes. -/
def clampRun (limits : SilkLimits) (w : Text) : Text := sizeRun limits (strokeRun limits w)

/-- The item of the run is below its floor. -/
def lowRun (limits : SilkLimits) (w : Text) : Bool :=
  match strokeAt w with
  | some (stroke, _) => (readMm stroke.2).any (· < mm limits.minWidthMm)
  | none => (sizeAt w).any fun s => (smallerAxis s.1).any (· < mm (minTextHeight limits))

/-- What a run may be. -/
inductive RunCases : Text → Prop
  | stroke {body rest : Text} {stroke : Text × Text} :
      ')' ∉ body → parseStroke body = some stroke → RunCases (body ++ ')' :: rest)
  | size {body rest : Text} {size : Text × Text} :
      ')' ∉ body → parseSize body = some size → RunCases (body ++ ')' :: rest)
  | plain {w : Text} : strokeAt w = none → sizeAt w = none → RunCases w

theorem runCases (w : Text) : RunCases w := by
  cases hstroke : strokeAt w with
  | some found =>
    obtain ⟨body, rest, rfl, hbody, hparse, -⟩ := itemAt_eq_some hstroke
    exact .stroke hbody hparse
  | none =>
    cases hsize : sizeAt w with
    | none => exact .plain hstroke hsize
    | some found =>
      obtain ⟨body, rest, rfl, hbody, hparse, -⟩ := itemAt_eq_some hsize
      exact .size hbody hparse

section

variable {body rest : Text} {stroke size : Text × Text}

theorem take_body : (body ++ ')' :: rest).take (body.length + 1 - 1) = body :=
  List.take_left' (Nat.add_sub_cancel _ _).symm

theorem drop_body : (body ++ ')' :: rest).drop (body.length + 1 - 1) = ')' :: rest :=
  List.drop_left' (Nat.add_sub_cancel _ _).symm

theorem strokeRun_body (hbody : ')' ∉ body) (h : parseStroke body = some stroke) :
    strokeRun limits (body ++ ')' :: rest) = strokeAfter limits body stroke ++ ')' :: rest := by
  have hat : strokeAt (body ++ ')' :: rest) = some (stroke, body.length + 1) := by
    rw [strokeAt, itemAt_body _ hbody, h]
    rfl
  rw [strokeRun, hat]
  dsimp only
  rw [take_body, drop_body]

theorem sizeRun_body (hbody : ')' ∉ body) (h : parseSize body = some size) :
    sizeRun limits (body ++ ')' :: rest) = sizeAfter limits body size ++ ')' :: rest := by
  have hat : sizeAt (body ++ ')' :: rest) = some (size, body.length + 1) := by
    rw [sizeAt, itemAt_body _ hbody, h]
    rfl
  rw [sizeRun, hat]
  dsimp only
  rw [take_body, drop_body]

theorem strokeRun_of_none {w : Text} (h : strokeAt w = none) : strokeRun limits w = w := by
  rw [strokeRun, h]

theorem sizeRun_of_none {w : Text} (h : sizeAt w = none) : sizeRun limits w = w := by
  rw [sizeRun, h]

theorem itemAt_of_parse_none {β : Type} {parse : Text → Option β} (hbody : ')' ∉ body)
    (h : parse body = none) : itemAt parse (body ++ ')' :: rest) = none := by
  rw [itemAt_body _ hbody, h]
  rfl

/-- A stroke is changed in the first pass only, to another stroke or to no item. -/
theorem strokeAfter_spec (h : parseStroke body = some stroke) :
    (∀ c ∈ strokeAfter limits body stroke, Inert c) ∧
      parseSize (strokeAfter limits body stroke) = none := by
  obtain ⟨-, hkey, -⟩ := parseStroke_eq_some h
  unfold strokeAfter
  split
  · exact ⟨inert_stroke h, parseSize_of_stroke h⟩
  · split_ifs
    · exact ⟨inert_stroke h, parseSize_of_stroke h⟩
    · exact ⟨inert_strokeText hkey (printed_printMm _),
        parseSize_strokeText hkey (printed_printMm _)⟩

theorem sizeAfter_spec (h : parseSize body = some size) :
    (∀ c ∈ sizeAfter limits body size, Inert c) ∧
      parseStroke (sizeAfter limits body size) = none := by
  unfold sizeAfter
  split
  · dsimp only
    split_ifs
    · exact ⟨inert_size h, parseStroke_of_size h⟩
    · exact ⟨inert_sizeText (printed_scaledAxis _ _ _) (printed_scaledAxis _ _ _),
        parseStroke_sizeText (printed_scaledAxis _ _ _) _⟩
  · exact ⟨inert_size h, parseStroke_of_size h⟩

theorem notMem_of_inert {s : Text} (h : ∀ c ∈ s, Inert c) : ')' ∉ s :=
  fun hmem => (h _ hmem).2.1 rfl

theorem clampRun_stroke (hbody : ')' ∉ body) (h : parseStroke body = some stroke) :
    clampRun limits (body ++ ')' :: rest) = strokeAfter limits body stroke ++ ')' :: rest := by
  have hspec : (∀ c ∈ strokeAfter limits body stroke, Inert c) ∧ _ := strokeAfter_spec h
  obtain ⟨hinert, hnone⟩ := hspec
  rw [clampRun, strokeRun_body hbody h,
    sizeRun_of_none (itemAt_of_parse_none (notMem_of_inert hinert) hnone)]

theorem clampRun_size (hbody : ')' ∉ body) (h : parseSize body = some size) :
    clampRun limits (body ++ ')' :: rest) = sizeAfter limits body size ++ ')' :: rest := by
  rw [clampRun, strokeRun_of_none (itemAt_of_parse_none hbody (parseStroke_of_size h)),
    sizeRun_body hbody h]

theorem clampRun_plain {w : Text} (hstroke : strokeAt w = none) (hsize : sizeAt w = none) :
    clampRun limits w = w := by
  rw [clampRun, strokeRun_of_none hstroke, sizeRun_of_none hsize]

theorem lowRun_stroke (hbody : ')' ∉ body) (h : parseStroke body = some stroke) :
    lowRun limits (body ++ ')' :: rest) = (readMm stroke.2).any (· < mm limits.minWidthMm) := by
  have hat : strokeAt (body ++ ')' :: rest) = some (stroke, body.length + 1) := by
    rw [strokeAt, itemAt_body _ hbody, h]
    rfl
  rw [lowRun, hat]

theorem lowRun_size (hbody : ')' ∉ body) (h : parseSize body = some size) :
    lowRun limits (body ++ ')' :: rest) =
      (smallerAxis size).any (· < mm (minTextHeight limits)) := by
  have hat : sizeAt (body ++ ')' :: rest) = some (size, body.length + 1) := by
    rw [sizeAt, itemAt_body _ hbody, h]
    rfl
  have hnone : strokeAt (body ++ ')' :: rest) = none :=
    itemAt_of_parse_none hbody (parseStroke_of_size h)
  rw [lowRun, hnone, hat]
  rfl

theorem lowRun_plain {w : Text} (hstroke : strokeAt w = none) (hsize : sizeAt w = none) :
    lowRun limits w = false := by
  rw [lowRun, hstroke, hsize]
  rfl

end

/-! ## Rounding -/

theorem mm_le_mm {m n : Nat} : mm m ≤ mm n ↔ m ≤ n := by
  unfold mm
  rw [div_le_div_iff_of_pos_right (by norm_num)]
  exact Nat.cast_le

/-- Rounding does not fall below a length of four decimals. -/
theorem mm_le_round4 {n : Nat} {x : Rat} (h : mm n ≤ x) : mm n ≤ mm (round4 x) := by
  rw [mm_le_mm]
  have hx : (n : Rat) ≤ x * 10000 + 1 / 2 := by
    unfold mm at h
    linarith
  have hfloor : (n : Int) ≤ (x * 10000 + 1 / 2).floor := Rat.le_floor_iff.mpr (by exact_mod_cast hx)
  unfold round4
  omega

/-- Rounding moves a length by half of its last decimal at most. -/
theorem abs_round4_sub_le {x : Rat} (h : 0 ≤ x) : |mm (round4 x) - x| ≤ 1 / 20000 := by
  have hfloor : 0 ≤ (x * 10000 + 1 / 2).floor := Rat.le_floor_iff.mpr (by push_cast; linarith)
  have hcast : ((round4 x : Nat) : Rat) = ((x * 10000 + 1 / 2).floor : Int) := by
    unfold round4
    exact_mod_cast Int.toNat_of_nonneg hfloor
  have hle := Rat.floor_le (x * 10000 + 1 / 2)
  have hlt := Rat.lt_floor_add_one (x * 10000 + 1 / 2)
  push_cast at hlt
  unfold mm
  rw [hcast, abs_le]
  constructor <;> linarith

/-! ## Low runs -/

/-- A run that is not low stays. -/
theorem clampRun_of_not_low {w : Text} (h : lowRun limits w = false) : clampRun limits w = w := by
  cases runCases w with
  | @stroke body rest stroke hbody hparse =>
    rw [lowRun_stroke hbody hparse] at h
    rw [clampRun_stroke hbody hparse, strokeAfter]
    cases hread : readMm stroke.2 with
    | none => rfl
    | some v =>
      rw [hread, Option.any_some, decide_eq_false_iff_not, not_lt] at h
      dsimp only
      rw [if_pos h]
  | @size body rest size hbody hparse =>
    rw [lowRun_size hbody hparse, smallerAxis] at h
    rw [clampRun_size hbody hparse, sizeAfter]
    cases hw : readMm size.1 with
    | none => rfl
    | some w =>
      cases hh : readMm size.2 with
      | none => rfl
      | some h' =>
        rw [hw, hh, Option.bind_some, Option.map_some, Option.any_some, decide_eq_false_iff_not,
          not_lt] at h
        dsimp only
        rw [if_pos h]
  | plain hstroke hsize => exact clampRun_plain hstroke hsize

/-- An axis of a size is at its floor after the pass. -/
theorem le_scaledAxis {floor : Nat} {smaller v : Rat} (hpos : 0 < smaller) (hle : smaller ≤ v)
    (hlow : smaller < mm floor) :
    scaledAxis floor smaller v = printMm (round4 (v * (mm floor / smaller))) ∧
      mm floor ≤ mm (round4 (v * (mm floor / smaller))) := by
  refine ⟨if_neg hpos.ne', mm_le_round4 ?_⟩
  calc mm floor = smaller * (mm floor / smaller) := (mul_div_cancel₀ _ hpos.ne').symm
    _ ≤ v * (mm floor / smaller) :=
      mul_le_mul_of_nonneg_right hle (div_nonneg (hpos.trans hlow).le hpos.le)

/-- The stroke the clamp writes is not low. -/
theorem lowRun_strokeText {key : Text} (hkey : key = "width".toList ∨ key = "thickness".toList)
    (rest : Text) :
    lowRun limits (strokeText key (printMm limits.minWidthMm) ++ ')' :: rest) = false := by
  have hprinted := printed_printMm limits.minWidthMm
  have hbody := notMem_of_inert (inert_strokeText hkey hprinted)
  have hparse := parseStroke_strokeText hkey hprinted
  by_cases hall : (printMm limits.minWidthMm).all isNumberChar = true
  · rw [if_pos hall] at hparse
    rw [lowRun_stroke hbody hparse, readMm_printMm hall, Option.any_some]
    exact decide_eq_false (lt_irrefl _)
  · rw [if_neg hall] at hparse
    exact lowRun_plain (itemAt_of_parse_none hbody hparse)
      (itemAt_of_parse_none hbody (parseSize_strokeText hkey hprinted))

/-- The size the clamp writes is not low. -/
theorem lowRun_sizeText {w h : Rat} (hw : 0 ≤ w) (hh : 0 ≤ h)
    (hlow : min w h < mm (minTextHeight limits)) (rest : Text) :
    lowRun limits (sizeText (scaledAxis (minTextHeight limits) (min w h) w)
      (scaledAxis (minTextHeight limits) (min w h) h) ++ ')' :: rest) = false := by
  have hpw := printed_scaledAxis (minTextHeight limits) (min w h) w
  have hph := printed_scaledAxis (minTextHeight limits) (min w h) h
  have hbody := notMem_of_inert (inert_sizeText hpw hph)
  have hstroke := parseStroke_sizeText hpw (scaledAxis (minTextHeight limits) (min w h) h)
  have hparse := parseSize_sizeText hpw hph
  by_cases hall : (scaledAxis (minTextHeight limits) (min w h) w).all isNumberChar = true ∧
      (scaledAxis (minTextHeight limits) (min w h) h).all isNumberChar = true
  · rw [if_pos hall] at hparse
    -- a size without extent is scaled to no number
    have hpos : 0 < min w h := by
      refine lt_of_le_of_ne (le_min hw hh) fun hzero => ?_
      have hw' := hall.1
      rw [scaledAxis, if_pos hzero.symm] at hw'
      split_ifs at hw' <;> exact absurd hw' (by decide)
    obtain ⟨hwtext, hwle⟩ := le_scaledAxis hpos (min_le_left w h) hlow
    obtain ⟨hhtext, hhle⟩ := le_scaledAxis hpos (min_le_right w h) hlow
    rw [lowRun_size hbody hparse, smallerAxis]
    rw [hwtext, hhtext] at hall ⊢
    rw [readMm_printMm hall.1, readMm_printMm hall.2, Option.bind_some, Option.map_some,
      Option.any_some]
    exact decide_eq_false (not_lt.mpr (le_min hwle hhle))
  · rw [if_neg hall] at hparse
    exact lowRun_plain (itemAt_of_parse_none hbody hstroke) (itemAt_of_parse_none hbody hparse)

/-- No run is low after the clamp. -/
theorem lowRun_clampRun (w : Text) : lowRun limits (clampRun limits w) = false := by
  cases hlow : lowRun limits w with
  | false => rw [clampRun_of_not_low hlow, hlow]
  | true =>
    cases runCases w with
    | @stroke body rest stroke hbody hparse =>
      rw [lowRun_stroke hbody hparse] at hlow
      obtain ⟨v, hread, hv⟩ := (Option.any_eq_true _ _).mp hlow
      have hv : ¬ mm limits.minWidthMm ≤ v := not_le.mpr (of_decide_eq_true hv)
      rw [clampRun_stroke hbody hparse, strokeAfter, hread]
      dsimp only
      rw [if_neg hv]
      exact lowRun_strokeText (parseStroke_eq_some hparse).2.1 rest
    | @size body rest size hbody hparse =>
      rw [lowRun_size hbody hparse, smallerAxis] at hlow
      obtain ⟨v, hread, hv⟩ := (Option.any_eq_true _ _).mp hlow
      obtain ⟨w, hw, hread⟩ := Option.bind_eq_some_iff.mp hread
      obtain ⟨h, hh, rfl⟩ := Option.map_eq_some_iff.mp hread
      have hv : min w h < mm (minTextHeight limits) := of_decide_eq_true hv
      rw [clampRun_size hbody hparse, sizeAfter, hw, hh]
      dsimp only
      rw [if_neg (not_le.mpr hv)]
      exact lowRun_sizeText (readMm_nonneg hw) (readMm_nonneg hh) hv rest
    | plain hstroke hsize =>
      rw [lowRun_plain hstroke hsize] at hlow
      cases hlow

/-- The clamp changes every low run. -/
theorem clampRun_ne {w : Text} (h : lowRun limits w = true) : clampRun limits w ≠ w := by
  intro heq
  have hlow : lowRun limits (clampRun limits w) = false := lowRun_clampRun w
  rw [heq, h] at hlow
  cases hlow

/-! ## Blocks of runs -/

theorem clampStroke_eq (body : Text) (stroke : Text × Text) :
    clampStroke limits ('(' :: (body ++ [')'])) stroke =
      '(' :: (strokeAfter limits body stroke ++ [')']) := by
  unfold clampStroke strokeAfter
  cases readMm stroke.2 with
  | none => rfl
  | some v =>
    dsimp only
    split_ifs
    · rfl
    · rw [strokeText, List.append_assoc]
      rfl

theorem clampSize_eq (body : Text) (size : Text × Text) :
    clampSize limits ('(' :: (body ++ [')'])) size =
      '(' :: (sizeAfter limits body size ++ [')']) := by
  unfold clampSize sizeAfter
  cases readMm size.1 with
  | none => rfl
  | some w =>
    cases readMm size.2 with
    | none => rfl
    | some h =>
      dsimp only
      split_ifs
      · rfl
      · rw [sizeText, List.append_assoc, List.append_assoc, List.cons_append, List.append_assoc]
        rfl

theorem take_item (body rest : Text) :
    (body ++ ')' :: rest).take (body.length + 1) = body ++ [')'] := by
  rw [List.append_cons body ')' rest]
  exact List.take_left' (by rw [List.length_append, List.length_singleton])

theorem drop_item (body rest : Text) : (body ++ ')' :: rest).drop (body.length + 1) = rest := by
  rw [List.append_cons body ')' rest]
  exact List.drop_left' (by rw [List.length_append, List.length_singleton])

/-- The first pass on a run. -/
theorem replaceRun_stroke (w : Text) :
    Anchors.replaceRun '(' strokeAt (clampStroke limits) w = '(' :: strokeRun limits w := by
  cases hat : strokeAt w with
  | none =>
    rw [strokeRun_of_none hat, Anchors.replaceRun, hat]
  | some found =>
    obtain ⟨stroke, n⟩ := found
    obtain ⟨body, rest, rfl, hbody, hparse, rfl⟩ := itemAt_eq_some hat
    rw [strokeRun_body hbody hparse, Anchors.replaceRun, hat]
    dsimp only
    rw [take_item, drop_item, clampStroke_eq, List.cons_append, List.append_assoc]
    rfl

/-- The second pass on a run. -/
theorem replaceRun_size (w : Text) :
    Anchors.replaceRun '(' sizeAt (clampSize limits) w = '(' :: sizeRun limits w := by
  cases hat : sizeAt w with
  | none =>
    rw [sizeRun_of_none hat, Anchors.replaceRun, hat]
  | some found =>
    obtain ⟨size, n⟩ := found
    obtain ⟨body, rest, rfl, hbody, hparse, rfl⟩ := itemAt_eq_some hat
    rw [sizeRun_body hbody hparse, Anchors.replaceRun, hat]
    dsimp only
    rw [take_item, drop_item, clampSize_eq, List.cons_append, List.append_assoc]
    rfl

theorem free_strokeRun {w : Text} (h : '(' ∉ w) : '(' ∉ strokeRun limits w := by
  cases hat : strokeAt w with
  | none => rwa [strokeRun_of_none hat]
  | some found =>
    obtain ⟨body, rest, rfl, hbody, hparse, -⟩ := itemAt_eq_some hat
    rw [strokeRun_body hbody hparse, List.mem_append, not_or]
    refine ⟨fun hmem => ((strokeAfter_spec hparse).1 _ hmem).1 rfl, fun hmem => h ?_⟩
    exact List.mem_append_right _ hmem

theorem free_sizeRun {w : Text} (h : '(' ∉ w) : '(' ∉ sizeRun limits w := by
  cases hat : sizeAt w with
  | none => rwa [sizeRun_of_none hat]
  | some found =>
    obtain ⟨body, rest, rfl, hbody, hparse, -⟩ := itemAt_eq_some hat
    rw [sizeRun_body hbody hparse, List.mem_append, not_or]
    refine ⟨fun hmem => ((sizeAfter_spec hparse).1 _ hmem).1 rfl, fun hmem => h ?_⟩
    exact List.mem_append_right _ hmem

theorem free_clampRun {w : Text} (h : '(' ∉ w) : '(' ∉ clampRun limits w :=
  free_sizeRun (free_strokeRun h)

theorem glue_map (f : Text → Text) (ws : List Text) :
    ws.flatMap (fun w => '(' :: f w) = Anchors.glue '(' (ws.map f) := by
  rw [Anchors.glue, List.flatMap_map]

/-- A block is clamped run by run. -/
theorem clampBlock_glue {ws : List Text} (h : ∀ w ∈ ws, '(' ∉ w) :
    (clampBlock limits (Anchors.glue '(' ws)).kicadPcb =
      Anchors.glue '(' (ws.map (clampRun limits)) := by
  have hstrokes : ∀ w ∈ ws.map (strokeRun limits), '(' ∉ w :=
    List.forall_mem_map.mpr fun w hw => free_strokeRun (h w hw)
  unfold clampBlock
  dsimp only
  rw [Anchors.replaceAll_glue local_strokeAt h,
    List.flatMap_congr fun w _ => replaceRun_stroke w, glue_map,
    Anchors.replaceAll_glue local_sizeAt hstrokes,
    List.flatMap_congr fun w _ => replaceRun_size w, glue_map, List.map_map]
  rfl

/-- Nothing is counted in a block without low runs. -/
theorem clampBlock_counts {ws : List Text} (h : ∀ w ∈ ws, '(' ∉ w)
    (hlow : ∀ w ∈ ws, lowRun limits w = false) :
    (clampBlock limits (Anchors.glue '(' ws)).widthsClamped = 0 ∧
      (clampBlock limits (Anchors.glue '(' ws)).heightsClamped = 0 := by
  have hstrokes : ∀ w ∈ ws.map (strokeRun limits), '(' ∉ w :=
    List.forall_mem_map.mpr fun w hw => free_strokeRun (h w hw)
  unfold clampBlock
  dsimp only
  constructor
  · rw [Anchors.captures_glue local_strokeAt h, List.countP_eq_zero]
    intro v hv hlt
    obtain ⟨stroke, hstroke, hread⟩ := List.mem_filterMap.mp hv
    obtain ⟨w, hw, hmap⟩ := List.mem_filterMap.mp hstroke
    obtain ⟨⟨_, n⟩, hat, rfl⟩ := Option.map_eq_some_iff.mp hmap
    have hnot := hlow w hw
    rw [lowRun, hat] at hnot
    dsimp only at hnot
    rw [hread, Option.any_some, hlt] at hnot
    cases hnot
  · rw [Anchors.replaceAll_glue local_strokeAt h,
      List.flatMap_congr fun w _ => replaceRun_stroke w, glue_map,
      Anchors.captures_glue local_sizeAt hstrokes, List.countP_eq_zero]
    intro v hv hlt
    obtain ⟨size, hsize, hread⟩ := List.mem_filterMap.mp hv
    obtain ⟨w', hw', hmap⟩ := List.mem_filterMap.mp hsize
    obtain ⟨w, hw, rfl⟩ := List.mem_map.mp hw'
    obtain ⟨⟨_, n⟩, hat, rfl⟩ := Option.map_eq_some_iff.mp hmap
    have hnot := hlow w hw
    -- a run with a size has no stroke, so it is as it was
    cases runCases w with
    | stroke hbody hparse =>
      rw [strokeRun_body hbody hparse, sizeAt, itemAt_of_parse_none
        (notMem_of_inert (strokeAfter_spec hparse).1) (strokeAfter_spec hparse).2] at hat
      cases hat
    | @size body rest _ hbody hparse =>
      have hnone : strokeAt (body ++ ')' :: rest) = none :=
        itemAt_of_parse_none hbody (parseStroke_of_size hparse)
      rw [strokeRun_of_none hnone] at hat
      rw [lowRun, hnone, hat] at hnot
      dsimp only [Option.any_some] at hnot
      rw [hread, Option.any_some, hlt] at hnot
      cases hnot
    | plain hnone hsize =>
      rw [strokeRun_of_none hnone, hsize] at hat
      cases hat

end Legend
end CircuitForge
