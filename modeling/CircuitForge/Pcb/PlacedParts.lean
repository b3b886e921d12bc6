/-
What `placeParts` delivers.

The legalizer keeps the parts apart and inside the board it works on.  The board that is delivered
fits around the content, the middle of the content is moved to the origin unless something is
pinned, and the positions are rounded to hundredths of a millimetre.
-/
import CircuitForge.Pcb.Placer

namespace CircuitForge.Placer

open Js Placement Rounding
open Outline (Axis)

section

variable {K : Type} [Field K] [LinearOrder K] [FloorRing K]

theorem snap_eq (v g : K) : snap v g = toStep g v := by
  rw [snap, toStep, halved, one_div]

variable [IsStrictOrderedRing K]

/-! ## Rounding -/

theorem abs_sub_snap_le_half {g : K} (hg : 0 < g) (v : K) : |v - snap v g| ≤ g / 2 :=
  snap_eq v g ▸ abs_sub_toStep_le_half hg v

theorem abs_sub_snap_le {g : K} (hg : 0 < g) (v : K) : |v - snap v g| ≤ |v| :=
  snap_eq v g ▸ abs_sub_toStep_le hg v

/-- A size that is snapped with one cell more does not shrink. -/
theorem add_half_le_snap {g : K} (hg : 0 < g) (v : K) : v + g / 2 ≤ snap (v + g) g := by
  have h := (abs_le.mp (abs_sub_snap_le_half hg (v + g))).2
  linarith

theorem abs_round2_sub_le (v : K) : |round2 v - v| ≤ 1 / 200 := by
  have h := abs_sub_toStep_le_half (g := (1 / 100 : K)) (by norm_num) v
  rw [round2_eq, abs_sub_comm]
  linarith

/-- Two numbers that are rounded come closer by a hundredth at most. -/
theorem abs_sub_le_round2 (a b : K) : |a - b| - 1 / 100 ≤ |round2 a - round2 b| := by
  have ha := abs_round2_sub_le a
  have hb := abs_round2_sub_le b
  have htri : |a - b| ≤ |round2 a - round2 b| + (|round2 a - a| + |round2 b - b|) := by
    calc |a - b| = |(round2 a - round2 b) - ((round2 a - a) - (round2 b - b))| := by ring_nf
      _ ≤ |round2 a - round2 b| + |(round2 a - a) - (round2 b - b)| := abs_sub _ _
      _ ≤ _ := add_le_add_right (abs_sub _ _) _
  linarith

/-! ## The board -/

/-- A board that is given more room does not shrink. -/
theorem le_roomFor {sqrt : K → K} (hsqrt : IsSqrt sqrt) {limit g : K} (hlimit : 0 < limit)
    (hg : 0 < g) (area margin : K) {b : K × K} (h₁ : 0 ≤ b.1) (h₂ : 0 ≤ b.2) :
    b.1 ≤ (roomFor sqrt limit area g margin b).1 ∧ b.2 ≤ (roomFor sqrt limit area g margin b).2 := by
  unfold roomFor
  dsimp only
  split
  case isFalse => exact ⟨le_rfl, le_rfl⟩
  case isTrue h =>
    obtain ⟨hpos, hfull⟩ := h
    generalize (b.1 - 2 * margin) * (b.2 - 2 * margin) = usable at hpos hfull ⊢
    have hratio : 1 ≤ area / (limit * usable) := by
      rw [lt_div_iff₀ hpos] at hfull
      rw [one_le_div (mul_pos hlimit hpos)]
      exact hfull.le
    have hk : 1 ≤ sqrt (area / (limit * usable)) := by
      have hsq := hsqrt.mul_self _ (zero_le_one.trans hratio)
      have hnn := hsqrt.nonneg _ (zero_le_one.trans hratio)
      nlinarith only [hratio, hsq, hnn]
    constructor
    · have hle := add_half_le_snap hg (b.1 * sqrt (area / (limit * usable)))
      have hmul := le_mul_of_one_le_right h₁ hk
      linarith
    · have hle := add_half_le_snap hg (b.2 * sqrt (area / (limit * usable)))
      have hmul := le_mul_of_one_le_right h₂ hk
      linarith

end

/-! ## Settled parts -/

section

variable {K : Type} [Field K] [LinearOrder K] [FloorRing K] [IsStrictOrderedRing K] {n : Nat}

/-- What legalization leaves on a board that has room. -/
structure OnBoard (parts : Fin n → PlaceablePart K) (frame : Frame K) (st : State n K) : Prop where
  pins : AtPins parts st
  cell : ∀ i, (parts i).fixed = none → OnGrid frame.grid (st.at i) ∧
    InBounds frame (extents (fun i => (parts i).box) st i) (st.at i)
  apart : ∀ i, (parts i).fixed = none → ∀ j, j ≠ i →
    Apart (frame.spacing - slack) (st.at i) (extents (fun i => (parts i).box) st i) (st.at j)
      (extents (fun i => (parts i).box) st j)

variable {parts : Fin n → PlaceablePart K} {frame : Frame K}

omit [FloorRing K] [IsStrictOrderedRing K] [LinearOrder K] [Field K] in
theorem box_fixed {p : PlaceablePart K} : p.box.fixed = false ↔ p.fixed = none := by
  rw [PlaceablePart.box, Option.isSome_eq_false_iff, Option.isNone_iff_eq_none]

/-- The loop of the legalizer from its start, where just the pinned parts are placed. -/
theorem legalize_run (boxes : Fin n → Placement.PlaceablePart K) (hgrid : 0 < frame.grid)
    (localeCompare : Text → Text → Int) (st : State n K) :
    let r := legalize boxes frame localeCompare st
    let order := legalOrder boxes localeCompare
    let placed := order.filter fun i => (boxes i).fixed
    r.2.r = st.r ∧ (∀ j, (boxes j).fixed = true → r.2.at j = st.at j) ∧
      (r.1 = true → Settled boxes frame (placed ++ unpinned boxes order) r.2) ∧
      (r.1 = false → ∃ pre i post, order = pre ++ i :: post ∧ (boxes i).fixed = false ∧
        freeCell boxes frame r.2 (placed ++ unpinned boxes pre) i = none) := by
  intro r order placed
  have hfixed : ∀ i ∈ placed, (boxes i).fixed = true := fun i hi => (List.mem_filter.mp hi).2
  have hstart : Settled boxes frame placed st :=
    ⟨fun i hi hf => absurd (hfixed i hi) (Bool.eq_false_iff.mp hf),
      fun i hi hf => absurd (hfixed i hi) (Bool.eq_false_iff.mp hf)⟩
  refine legalizeFrom_spec hgrid hstart
    ((perm_legalOrder boxes localeCompare).nodup_iff.mpr (List.nodup_finRange n)) fun i hi hp => ?_
  have hf := (List.mem_filter.mp hi).2
  rw [hfixed i hp] at hf
  cases hf

/-- Legalizing keeps the pins, and where there is room the parts are settled. -/
theorem legalize_onBoard (hgrid : 0 < frame.grid) (localeCompare : Text → Text → Int)
    {st : State n K} (h : AtPins parts st) :
    let r := legalize (fun i => (parts i).box) frame localeCompare st
    AtPins parts r.2 ∧ (r.1 = true → OnBoard parts frame r.2) := by
  intro r
  let boxes := fun i => (parts i).box
  obtain ⟨hr, hpins, htrue, -⟩ := legalize_run boxes hgrid localeCompare st
  have hkept : AtPins parts r.2 := by
    refine ⟨fun i f hf => ?_, fun i t ht => ?_⟩
    · have hbox : (boxes i).fixed = true := by
        show (parts i).fixed.isSome = true
        rw [hf]
        rfl
      exact (hpins i hbox).trans (h.place i f hf)
    · exact (congrFun hr i).trans (h.turn i t ht)
  refine ⟨hkept, fun hok => ?_⟩
  have hmem : ∀ i, i ∈ legalOrder boxes localeCompare := fun i =>
    (perm_legalOrder boxes localeCompare).mem_iff.mpr (List.mem_finRange i)
  have hplaced : ∀ i, i ∈ (legalOrder boxes localeCompare).filter (fun i => (boxes i).fixed) ++
      unpinned boxes (legalOrder boxes localeCompare) := by
    intro i
    cases hf : (boxes i).fixed with
    | true => exact List.mem_append_left _ (List.mem_filter.mpr ⟨hmem i, hf⟩)
    | false => exact List.mem_append_right _ (List.mem_filter.mpr ⟨hmem i, by rw [hf]; rfl⟩)
  have hsettled := htrue hok
  exact ⟨hkept, fun i hi => hsettled.cell i (hplaced i) (box_fixed.mpr hi),
    fun i hi j hj => hsettled.apart i (hplaced i) (box_fixed.mpr hi) j (hplaced j) hj⟩

/-- Where it is settled, it is on the board that is kept. -/
theorem settle_onBoard {input : PlacementInput K} (hgrid : 0 < input.grid)
    (localeCompare : Text → Text → Int) (board : K × K) {st : State n K} (h : AtPins parts st) :
    let r := settle localeCompare input parts board st
    (r.1 = true → OnBoard parts (input.frame r.2.2) r.2.1) ∧
      (r.2.2 = board ∨ r.2.2 = input.grown board) := by
  have hlegal : ∀ (board : K × K) {st : State n K}, AtPins parts st →
      let r := legalize (fun i => (parts i).box) (input.frame board) localeCompare st
      AtPins parts r.2 ∧ (r.1 = true → OnBoard parts (input.frame board) r.2) :=
    fun _ _ h => legalize_onBoard hgrid localeCompare h
  have hfirst := hlegal board h
  unfold settle
  dsimp only
  split
  case isTrue hok => exact ⟨fun _ => hfirst.2 hok, Or.inl rfl⟩
  case isFalse =>
    exact ⟨(hlegal (input.grown board) hfirst.1).2, Or.inr rfl⟩

/-! ## The content -/

/-- A pair on an axis. -/
def along (axis : Axis) (p : K × K) : K :=
  match axis with
  | .x => p.1
  | .y => p.2

omit [LinearOrder K] [FloorRing K] [IsStrictOrderedRing K] in
theorem spanOn_eq (parts : Fin n → PlaceablePart K) (st : State n K) (axis : Axis) (i : Fin n) :
    spanOn parts st axis i =
      ⟨along axis (st.at i) - along axis (extents (fun i => (parts i).box) st i),
        along axis (st.at i) + along axis (extents (fun i => (parts i).box) st i)⟩ := by
  cases axis <;> rfl

omit [FloorRing K] [IsStrictOrderedRing K] in
/-- The content has every part, and ends where parts end. -/
theorem contentOn_spec (parts : Fin n → PlaceablePart K) (st : State n K) (axis : Axis)
    (i : Fin n) :
    (spanOn parts st axis i).Within (contentOn parts st axis) ∧
      (∃ j, (contentOn parts st axis).lo = (spanOn parts st axis j).lo) ∧
      ∃ j, (contentOn parts st axis).hi = (spanOn parts st axis j).hi := by
  have hmem := List.mem_map_of_mem (f := spanOn parts st axis) (List.mem_finRange i)
  obtain ⟨b, hb⟩ := Option.ne_none_iff_exists'.mp fun he =>
    List.ne_nil_of_mem hmem (Span.bounds_eq_none.mp he)
  have hcontent : contentOn parts st axis = b := by rw [contentOn, hb, Option.getD_some]
  obtain ⟨⟨s, hs, hlo⟩, t, ht, hhi⟩ := Span.ends_of_bounds hb
  obtain ⟨j, -, rfl⟩ := List.mem_map.mp hs
  obtain ⟨k, -, rfl⟩ := List.mem_map.mp ht
  rw [hcontent]
  exact ⟨Span.within_bounds hb hmem, ⟨j, hlo.symm⟩, k, hhi.symm⟩

/-- How far a part may reach into the margin: a pin is checked to a millionth, and the middle of
the content is moved to a multiple of the grid. -/
def tolerance (frozen : Bool) (grid : K) : K := if frozen then pinTolerance else grid / (4 : ℕ)

omit [LinearOrder K] [FloorRing K] [IsStrictOrderedRing K] in
theorem tolerance_eq (frozen : Bool) (grid : K) :
    tolerance frozen grid = if frozen then 1 / 1000000 else grid / 4 := by
  rw [tolerance, pinTolerance, Nat.cast_ofNat]

/-- A size that fits the content has room for what lies in it. -/
theorem inside_fitted {frozen : Bool} {g c e : K} (hg : 0 < g) (margin : K) {content : Span K}
    (h : Span.Within ⟨c - e, c + e⟩ content) :
    |c - middle frozen g content| + e ≤
      fitted frozen g margin content / 2 - margin + tolerance frozen g := by
  obtain ⟨hlo, hhi⟩ := h
  dsimp only at hlo hhi
  rw [middle_eq, tolerance_eq, fitted_eq]
  cases frozen
  · rw [if_neg Bool.false_ne_true, if_neg Bool.false_ne_true, if_neg Bool.false_ne_true]
    have hfit := (add_half_le_snap hg (content.hi - content.lo + 2 * margin)).trans
      (le_max_right minBoardMm _)
    obtain ⟨hmid₁, hmid₂⟩ := abs_le.mp (abs_sub_snap_le_half hg ((content.lo + content.hi) / 2))
    have habs : |c - snap ((content.lo + content.hi) / 2) g| ≤
        (content.hi - content.lo) / 2 - e + g / 2 := by
      rw [abs_le]
      constructor <;> linarith
    linarith
  · rw [if_pos rfl, if_pos rfl, if_pos rfl, sub_zero]
    have hfit := (add_half_le_snap hg (2 * max |content.lo| |content.hi| + 2 * margin)).trans
      (le_max_right minBoardMm _)
    have hl := (neg_le_abs content.lo).trans (le_max_left |content.lo| |content.hi|)
    have hh := (le_abs_self content.hi).trans (le_max_right |content.lo| |content.hi|)
    have habs : |c| ≤ max |content.lo| |content.hi| - e := by
      rw [abs_le]
      constructor <;> linarith
    linarith

/-- Moving the middle of the content to the origin leaves it between bounds around the origin. -/
theorem inside_moved {g c e bound : K} (hg : 0 < g) {content : Span K}
    (h : Span.Within ⟨c - e, c + e⟩ content) (hbound : content.Within ⟨-bound, bound⟩) :
    |c - middle false g content| + e ≤ bound := by
  obtain ⟨hlo, hhi⟩ := h
  obtain ⟨hblo, hbhi⟩ := hbound
  dsimp only at hlo hhi hblo hbhi
  rw [middle_eq, if_neg Bool.false_ne_true]
  obtain ⟨hmid₁, hmid₂⟩ := abs_le.mp (abs_sub_snap_le hg ((content.lo + content.hi) / 2))
  have habs : |c - snap ((content.lo + content.hi) / 2) g| ≤ bound - e := by
    rw [abs_le]
    rcases abs_cases ((content.lo + content.hi) / 2) with ⟨heq, -⟩ | ⟨heq, -⟩ <;>
      rw [heq] at hmid₁ hmid₂ <;> constructor <;> linarith
  linarith

end

/-! ## What is delivered -/

section

variable {K : Type} [Field K] [LinearOrder K] [FloorRing K]

def Position.at (pos : Position K) : K × K := (pos.x, pos.y)

/-- The half extents of a part as it is delivered. -/
def Position.extents (pos : Position K) (p : PlaceablePart K) : K × K :=
  halfExtents p.box pos.rotation

/-- A part is delivered as a pin without a rotation is checked. -/
def AsChecked (p : PlaceablePart K) (pos : Position K) : Prop :=
  pos.rotation = p.pinnedTurn.getD .deg0

/-- Whether anything is pinned. -/
def PlacementInput.frozen (input : PlacementInput K) : Bool :=
  input.parts.any fun p => p.fixed.isSome

/-- A placement that keeps its promises. -/
structure Legal (input : PlacementInput K) (out : PlacementOutput K) : Prop where
  every : ∀ p ∈ input.parts, ∃ pos, out.positions.get? p.id = some pos
  only : ∀ id pos, out.positions.get? id = some pos → ∃ p ∈ input.parts, p.id = id
  /-- A pin is honoured, to the hundredth of a millimetre that positions are given in. -/
  pinned : ∀ p ∈ input.parts, ∀ pos, out.positions.get? p.id = some pos →
    ∀ f, p.fixed = some f → pos.at = (round2 f.x, round2 f.y) ∧
      ∀ r, f.rotation = some r → pos.rotation = r
  /-- Two courtyards are apart by the spacing, unless both are pinned and turned. -/
  apart : ∀ p ∈ input.parts, ∀ q ∈ input.parts, p.id ≠ q.id → ∀ pos pos',
    out.positions.get? p.id = some pos → out.positions.get? q.id = some pos' →
    (p.fixed = none ∨ q.fixed = none ∨ AsChecked p pos ∧ AsChecked q pos') →
    Apart (input.spacing - slack - 1 / 100) pos.at (pos.extents p) pos'.at (pos'.extents q)
  /-- A courtyard is inside the margin of the board that is delivered. -/
  inside : ∀ p ∈ input.parts, ∀ pos, out.positions.get? p.id = some pos →
    (p.fixed = none ∨ AsChecked p pos) → ∀ axis,
    |along axis pos.at| + along axis (pos.extents p) ≤ along axis (out.boardW, out.boardH) / 2 -
      input.margin + tolerance input.frozen input.grid + 1 / 200
  /-- On a grid of hundredths the parts that are not pinned are on the grid, and lose nothing of
  the spacing. -/
  exact : OnStep (1 / 100) input.grid → ∀ p ∈ input.parts, p.fixed = none → ∀ pos,
    out.positions.get? p.id = some pos → OnGrid input.grid pos.at ∧
      ∀ q ∈ input.parts, q.fixed = none → p.id ≠ q.id → ∀ pos',
        out.positions.get? q.id = some pos' →
        Apart (input.spacing - slack) pos.at (pos.extents p) pos'.at (pos'.extents q)
  size : ∀ axis, minBoardMm ≤ along axis (out.boardW, out.boardH)

end

section

variable {K : Type} [Field K] [LinearOrder K] [FloorRing K] [IsStrictOrderedRing K] {n : Nat}
  {parts : Fin n → PlaceablePart K} {input : PlacementInput K} {sqrt : K → K}

/-- Inside the bounds, a part keeps clear of the margin. -/
theorem inside_of_inBounds {frame : Frame K} (hgrid : 0 < frame.grid) {e p : K × K}
    (h : InBounds frame e p) (axis : Axis) :
    |along axis p| + along axis e ≤
      along axis (frame.boardW, frame.boardH) / 2 - frame.margin := by
  have hcells : ∀ size e : K, cellsTo frame size e * frame.grid ≤ size / 2 - frame.margin - e := by
    intro size e
    rw [← halved_eq, ← le_div_iff₀ hgrid]
    exact Int.floor_le _
  have hx := h.1.trans (hcells frame.boardW e.1)
  have hy := h.2.trans (hcells frame.boardH e.2)
  cases axis <;> dsimp only [along] <;> linarith

/-- The first board has the size that was asked for. -/
theorem le_board (hsqrt : IsSqrt sqrt) (hgrid : 0 < input.grid) (axis : Axis) :
    max minBoardMm (along axis (input.boardW, input.boardH)) ≤ along axis (input.board sqrt) := by
  have hmin : (0 : K) ≤ minBoardMm := by norm_num [minBoardMm]
  have hlimit : (0 : K) < utilLimit := by norm_num [utilLimit, hundredths]
  have h := le_roomFor hsqrt hlimit hgrid input.area input.margin
    (b := (max minBoardMm input.boardW, max minBoardMm input.boardH))
    (hmin.trans (le_max_left _ _)) (hmin.trans (le_max_left _ _))
  cases axis
  · exact h.1
  · exact h.2

/-- Growing makes no board smaller, as long as the grid is fine. -/
theorem le_grown (hgrid : 0 < input.grid) (hfine : input.grid ≤ 16) {board : K × K} {axis : Axis}
    (h : minBoardMm ≤ along axis board) : along axis board ≤ along axis (input.grown board) := by
  rw [minBoardMm_eq] at h
  have hgrowth : (hundredths 140 : K) = 7 / 5 := by
    rw [hundredths_eq]
    norm_num
  have hsnap : ∀ v : K, v - input.grid / 2 ≤ snap v input.grid := fun v => by
    linarith [(abs_le.mp (abs_sub_snap_le_half hgrid v)).2]
  cases axis <;> dsimp only [along, PlacementInput.grown] at h ⊢ <;> rw [hgrowth]
  · linarith [hsnap (board.1 * (7 / 5))]
  · linarith [hsnap (board.2 * (7 / 5))]

omit [IsStrictOrderedRing K] in
theorem minBoardMm_le_fitted (frozen : Bool) (g margin : K) (content : Span K) :
    minBoardMm ≤ fitted frozen g margin content := le_max_left _ _

/-- The delivered board is the smaller one of the board the parts are settled on and one that has
room for the content. -/
theorem shrunk_spec (hsqrt : IsSqrt sqrt) (hgrid : 0 < input.grid)
    (parts : Fin n → PlaceablePart K) (frozen : Bool) (st : State n K) (board : K × K)
    (axis : Axis) :
    along axis (shrunk sqrt input parts frozen st board) = along axis board ∨
      fitted frozen input.grid input.margin (contentOn parts st axis) ≤
        along axis (shrunk sqrt input parts frozen st board) := by
  have hmin : (0 : K) ≤ minBoardMm := by norm_num [minBoardMm]
  have hlimit : (0 : K) < routeUtil := by norm_num [routeUtil, hundredths]
  have h := le_roomFor hsqrt hlimit hgrid input.area input.margin
    (b := (fitted frozen input.grid input.margin (contentOn parts st .x),
      fitted frozen input.grid input.margin (contentOn parts st .y)))
    (hmin.trans (minBoardMm_le_fitted ..)) (hmin.trans (minBoardMm_le_fitted ..))
  unfold shrunk
  cases axis <;> dsimp only [along]
  · rcases min_choice board.1 _ with he | he <;> rw [he]
    exacts [Or.inl rfl, Or.inr h.1]
  · rcases min_choice board.2 _ with he | he <;> rw [he]
    exacts [Or.inl rfl, Or.inr h.2]

/-- Before rounding, a part is inside the board that is delivered. -/
theorem inside_shrunk (hsqrt : IsSqrt sqrt) (hgrid : 0 < input.grid) {st : State n K}
    {board : K × K} (h : OnBoard parts (input.frame board) st) {frozen : Bool}
    (hfrozen : frozen = false → ∀ i, (parts i).fixed = none) (axis : Axis) (i : Fin n)
    (hi : (parts i).fixed = none ∨
      |along axis (st.at i)| + along axis (extents (fun i => (parts i).box) st i) ≤
        along axis board / 2 - input.margin + 1 / 1000000) :
    |along axis (st.at i) - middle frozen input.grid (contentOn parts st axis)| +
        along axis (extents (fun i => (parts i).box) st i) ≤
      along axis (shrunk sqrt input parts frozen st board) / 2 - input.margin +
        tolerance frozen input.grid := by
  have hspan := fun j => (spanOn_eq parts st axis j) ▸ (contentOn_spec parts st axis j).1
  have hcell : ∀ j, (parts j).fixed = none →
      |along axis (st.at j)| + along axis (extents (fun i => (parts i).box) st j) ≤
        along axis board / 2 - input.margin := fun j hj =>
    inside_of_inBounds hgrid (h.cell j hj).2 axis
  rcases shrunk_spec hsqrt hgrid parts frozen st board axis with heq | hfit
  · rw [heq]
    cases frozen with
    | true =>
      rw [middle, if_pos rfl, sub_zero, tolerance_eq, if_pos rfl]
      rcases hi with hi | hi
      · have hin := hcell i hi
        have hpos : (0 : K) ≤ 1 / 1000000 := by norm_num
        linarith
      · exact hi
    | false =>
      have hbound : (contentOn parts st axis).Within
          ⟨-(along axis board / 2 - input.margin), along axis board / 2 - input.margin⟩ := by
        obtain ⟨-, ⟨j, hj⟩, k, hk⟩ := contentOn_spec parts st axis i
        rw [Span.Within, hj, hk, spanOn_eq, spanOn_eq]
        have hlo := hcell j (hfrozen rfl j)
        have hhi := hcell k (hfrozen rfl k)
        constructor
        · linarith [neg_abs_le (along axis (st.at j))]
        · linarith [le_abs_self (along axis (st.at k))]
      have hmoved := inside_moved hgrid (hspan i) hbound
      rw [tolerance_eq, if_neg Bool.false_ne_true]
      linarith
  · refine (inside_fitted hgrid input.margin (hspan i)).trans ?_
    linarith

end

/-! ## Pins that are validated -/

section

variable {K : Type} [Field K] [LinearOrder K] [FloorRing K]

omit [Field K] [LinearOrder K] [FloorRing K] in
theorem mem_pinnedOf {l : List (PlaceablePart K)} {p : PlaceablePart K} {f : Pin K} (hp : p ∈ l)
    (hf : p.fixed = some f) : (p, f) ∈ pinnedOf l :=
  List.mem_filterMap.mpr ⟨p, hp, by rw [hf]; rfl⟩

/-- Of two elements of a list one stands before the other. -/
theorem mem_pairsOf {α : Type} {l : List α} {a b : α} (ha : a ∈ l) (hb : b ∈ l) (hne : a ≠ b) :
    (a, b) ∈ pairsOf l ∨ (b, a) ∈ pairsOf l := by
  induction l with
  | nil => cases ha
  | cons c l ih =>
    unfold pairsOf
    rw [List.mem_append, List.mem_append]
    rcases List.mem_cons.mp ha with rfl | hal
    · have hbl := (List.mem_cons.mp hb).resolve_left (Ne.symm hne)
      exact Or.inl (Or.inl (List.mem_map_of_mem hbl))
    · rcases List.mem_cons.mp hb with rfl | hbl
      · exact Or.inr (Or.inl (List.mem_map_of_mem hal))
      · exact (ih hal hbl).imp Or.inr Or.inr

variable {boardW boardH grid margin spacing : K} {parts : List (PlaceablePart K)}

/-- A pin that is accepted keeps its courtyard clear of the margin. -/
theorem inside_of_valid
    (h : validateFixedPlacements parts boardW boardH grid margin spacing = [])
    {p : PlaceablePart K} {f : Pin K} (hp : (p, f) ∈ pinnedOf parts) [IsStrictOrderedRing K]
    (axis : Axis) :
    |along axis (f.x, f.y)| + along axis (pinExtents (p, f)) ≤
      along axis (boardW, boardH) / 2 - margin + 1 / 1000000 := by
  have hnone := List.flatMap_eq_nil_iff.mp (List.append_eq_nil_iff.mp h).1 _ hp
  unfold pinProblems at hnone
  obtain ⟨hxs, hy⟩ := List.append_eq_nil_iff.mp hnone
  have hx := (List.append_eq_nil_iff.mp hxs).2
  have hx' : ¬ _ := fun hlt => List.cons_ne_nil _ _ ((if_pos hlt).symm.trans hx)
  have hy' : ¬ _ := fun hlt => List.cons_ne_nil _ _ ((if_pos hlt).symm.trans hy)
  rw [not_lt] at hx' hy'
  have hslack : (pinTolerance : K) = 1 / 1000000 := rfl
  cases axis
  · show |f.x| + (pinExtents (p, f)).1 ≤ boardW / 2 - margin + 1 / 1000000
    linarith [halved_eq boardW]
  · show |f.y| + (pinExtents (p, f)).2 ≤ boardH / 2 - margin + 1 / 1000000
    linarith [halved_eq boardH]

/-- Two pins that are accepted keep their courtyards apart. -/
theorem apart_of_valid
    (h : validateFixedPlacements parts boardW boardH grid margin spacing = [])
    {a b : PlaceablePart K × Pin K} (ha : a ∈ pinnedOf parts) (hb : b ∈ pinnedOf parts)
    (hne : a ≠ b) :
    Apart (spacing - slack) (a.2.x, a.2.y) (pinExtents a) (b.2.x, b.2.y) (pinExtents b) := by
  have hpair : ∀ ab ∈ pairsOf (pinnedOf parts),
      Apart (spacing - slack) (ab.1.2.x, ab.1.2.y) (pinExtents ab.1) (ab.2.2.x, ab.2.2.y)
        (pinExtents ab.2) := by
    intro ab hab
    have hnone := List.flatMap_eq_nil_iff.mp (List.append_eq_nil_iff.mp h).2 _ hab
    unfold pinOverlap at hnone
    rw [← overlaps_eq_false, Bool.eq_false_iff]
    exact fun hover => List.cons_ne_nil _ _ ((if_pos hover).symm.trans hnone)
  rcases mem_pairsOf ha hb hne with hab | hba
  · exact hpair _ hab
  · exact (hpair _ hba).symm

end

/-! ## Places and parts -/

section

variable {K : Type} [Field K] [LinearOrder K] [FloorRing K] [IsStrictOrderedRing K]

omit [FloorRing K] in
/-- Places that move by little stay apart by almost as much. -/
theorem apart_of_moved {gap loss : K} {p e q f p' q' : K × K} (h : Apart gap p e q f)
    (hx : |q.1 - p.1| - loss ≤ |q'.1 - p'.1|) (hy : |q.2 - p.2| - loss ≤ |q'.2 - p'.2|) :
    Apart (gap - loss) p' e q' f := by
  rcases h with h | h
  · exact Or.inl (by linarith)
  · exact Or.inr (by linarith)

omit [Field K] [LinearOrder K] [FloorRing K] [IsStrictOrderedRing K] in
theorem mem_sorted {localeCompare : Text → Text → Int} {input : PlacementInput K}
    {p : PlaceablePart K} : p ∈ input.sorted localeCompare ↔ p ∈ input.parts :=
  (List.perm_insertionSort _ _).mem_iff

/-- A placement that succeeds delivers the parts that are settled on a board. -/
theorem placeParts_eq (localeCompare : Text → Text → Int) (sqrt : K → K)
    {input : PlacementInput K} (hgrid : 0 < input.grid)
    (hok : (placeParts localeCompare sqrt input).ok = true) :
    let parts := (input.sorted localeCompare).get
    ∃ st board, OnBoard parts (input.frame board) st ∧
      (board = input.board sqrt ∨ board = input.grown (input.board sqrt)) ∧
      (placeParts localeCompare sqrt input).positions = Map.fill (fun i => (parts i).id)
        (deliver input.grid parts input.frozen st) (List.finRange _) [] ∧
      ((placeParts localeCompare sqrt input).boardW, (placeParts localeCompare sqrt input).boardH) =
        shrunk sqrt input parts input.frozen st board := by
  intro parts
  have hpins : AtPins parts (arrange localeCompare sqrt input parts (input.board sqrt)) :=
    atPins_forceLoop (atPins_seed _ _ _) _ _ _ _ _
  obtain ⟨hboard, hsize⟩ := settle_onBoard hgrid localeCompare (input.board sqrt) hpins
  unfold placeParts at hok ⊢
  dsimp only at hok ⊢
  split at hok
  case isTrue h =>
    rw [if_pos h]
    exact ⟨_, _, hboard h, hsize, rfl, rfl⟩
  case isFalse => exact absurd hok Bool.false_ne_true

variable {localeCompare : Text → Text → Int} {input : PlacementInput K}

omit [Field K] [LinearOrder K] [FloorRing K] [IsStrictOrderedRing K] in
theorem nodup_ids (hids : (input.parts.map PlaceablePart.id).Nodup) :
    ((List.finRange _).map fun i => ((input.sorted localeCompare).get i).id).Nodup := by
  have hperm : (input.sorted localeCompare).Perm input.parts := List.perm_insertionSort _ _
  have hlist : ((List.finRange _).map fun i => ((input.sorted localeCompare).get i).id) =
      (input.sorted localeCompare).map PlaceablePart.id := by
    conv_rhs => rw [← List.map_get_finRange (input.sorted localeCompare), List.map_map]
    rfl
  rw [hlist]
  exact ((hperm.map PlaceablePart.id).nodup_iff).mpr hids

omit [IsStrictOrderedRing K] in
theorem onStep_middle (frozen : Bool) (g : K) (content : Span K) :
    OnStep g (middle frozen g content) := by
  unfold middle
  split
  case isTrue => exact onStep_zero g
  case isFalse =>
    rw [snap_eq]
    exact onStep_toStep _ _

theorem round2_of_onStep {v : K} (h : OnStep (1 / 100) v) : round2 v = v :=
  (round2_eq v).trans (toStep_of_onStep (by norm_num) h)

/-! ## One part -/

section

variable {n : Nat} {parts : Fin n → PlaceablePart K} {st : State n K} {frame : Frame K}

omit [IsStrictOrderedRing K] in
/-- With the origin frozen, a pinned part is delivered at its pin. -/
theorem deliver_pinned (h : AtPins parts st) (g : K) {i : Fin n} {f : Pin K}
    (hf : (parts i).fixed = some f) :
    (deliver g parts true st i).at = (round2 f.x, round2 f.y) ∧
      ∀ r, f.rotation = some r → (deliver g parts true st i).rotation = r := by
  have hplace : (st.x i, st.y i) = (f.x, f.y) := h.place i f hf
  obtain ⟨hx, hy⟩ := Prod.mk.inj hplace
  refine ⟨?_, fun r hr => h.turn i r (by rw [PlaceablePart.pinnedTurn, hf]; exact hr)⟩
  show (round2 (st.x i - 0), round2 (st.y i - 0)) = (round2 f.x, round2 f.y)
  rw [sub_zero, sub_zero, hx, hy]

omit [IsStrictOrderedRing K] in
theorem along_deliver (g : K) (frozen : Bool) (i : Fin n) (axis : Axis) :
    along axis (deliver g parts frozen st i).at =
      round2 (along axis (st.at i) - middle frozen g (contentOn parts st axis)) := by
  cases axis <;> rfl

/-- Rounding costs two parts a hundredth of what keeps them apart. -/
theorem deliver_apart {gap : K} {i j : Fin n}
    (h : Apart gap (st.at i) (extents (fun i => (parts i).box) st i) (st.at j)
      (extents (fun i => (parts i).box) st j)) (g : K) (frozen : Bool) :
    Apart (gap - 1 / 100) (deliver g parts frozen st i).at
      ((deliver g parts frozen st i).extents (parts i)) (deliver g parts frozen st j).at
      ((deliver g parts frozen st j).extents (parts j)) := by
  have hround : ∀ axis, |along axis (st.at j) - along axis (st.at i)| - 1 / 100 ≤
      |along axis (deliver g parts frozen st j).at -
        along axis (deliver g parts frozen st i).at| := by
    intro axis
    rw [along_deliver, along_deliver]
    refine le_trans (le_of_eq ?_) (abs_sub_le_round2 _ _)
    rw [sub_sub_sub_cancel_right]
  exact apart_of_moved h (hround .x) (hround .y)

/-- Rounding carries a part by half a hundredth. -/
theorem deliver_inside {g reach : K} {frozen : Bool} {axis : Axis} {i : Fin n}
    (h : |along axis (st.at i) - middle frozen g (contentOn parts st axis)| +
      along axis (extents (fun i => (parts i).box) st i) ≤ reach) :
    |along axis (deliver g parts frozen st i).at| +
      along axis ((deliver g parts frozen st i).extents (parts i)) ≤ reach + 1 / 200 := by
  rw [along_deliver]
  generalize along axis (st.at i) - middle frozen g (contentOn parts st axis) = v at h ⊢
  have hle : |round2 v| ≤ |v| + |round2 v - v| := by
    have htri := abs_add_le v (round2 v - v)
    rwa [add_sub_cancel] at htri
  have hext : along axis ((deliver g parts frozen st i).extents (parts i)) =
      along axis (extents (fun i => (parts i).box) st i) := rfl
  rw [hext]
  linarith [abs_round2_sub_le v]

/-- On a grid of hundredths nothing on the grid is rounded. -/
theorem deliver_exact {g : K} (hstep : OnStep (1 / 100) g) {i : Fin n} (h : OnGrid g (st.at i))
    (frozen : Bool) (axis : Axis) :
    along axis (deliver g parts frozen st i).at =
        along axis (st.at i) - middle frozen g (contentOn parts st axis) ∧
      OnStep g (along axis (deliver g parts frozen st i).at) := by
  obtain ⟨a, b, hab⟩ := h
  have hon : OnStep g (along axis (st.at i) - middle frozen g (contentOn parts st axis)) := by
    rw [hab]
    refine OnStep.sub ?_ (onStep_middle _ _ _)
    cases axis
    exacts [⟨a, rfl⟩, ⟨b, rfl⟩]
  rw [along_deliver, round2_of_onStep (hon.trans hstep)]
  exact ⟨rfl, hon⟩

end

/-! ## Legal placements -/

/-- A placement that delivers the parts of a request as they are settled on a board. -/
structure Delivers (sqrt : K → K) (input : PlacementInput K) {n : Nat}
    (parts : Fin n → PlaceablePart K) (board : K × K) (st : State n K)
    (out : PlacementOutput K) : Prop where
  settled : OnBoard parts (input.frame board) st
  mem_iff : ∀ p, p ∈ input.parts ↔ ∃ i, parts i = p
  nodup : ((List.finRange n).map fun i => (parts i).id).Nodup
  positions : out.positions = Map.fill (fun i => (parts i).id)
    (deliver input.grid parts input.frozen st) (List.finRange n) []
  size : (out.boardW, out.boardH) = shrunk sqrt input parts input.frozen st board

namespace Delivers

variable {sqrt : K → K} {n : Nat} {parts : Fin n → PlaceablePart K} {board : K × K}
  {st : State n K} {out : PlacementOutput K}

omit [IsStrictOrderedRing K] in
theorem mem (h : Delivers sqrt input parts board st out) (i : Fin n) : parts i ∈ input.parts :=
  (h.mem_iff _).mpr ⟨i, rfl⟩

omit [IsStrictOrderedRing K] in
theorem get (h : Delivers sqrt input parts board st out) (i : Fin n) :
    out.positions.get? (parts i).id = some (deliver input.grid parts input.frozen st i) := by
  rw [h.positions]
  exact Map.get?_fill_of_nodup (k := fun i => (parts i).id) h.nodup (List.mem_finRange i) []

omit [IsStrictOrderedRing K] in
/-- What is looked up is what is delivered. -/
theorem find (h : Delivers sqrt input parts board st out) {p : PlaceablePart K}
    (hp : p ∈ input.parts) {pos : Position K} (hlook : out.positions.get? p.id = some pos) :
    ∃ i, parts i = p ∧ pos = deliver input.grid parts input.frozen st i := by
  obtain ⟨i, rfl⟩ := (h.mem_iff p).mp hp
  rw [h.get] at hlook
  exact ⟨i, rfl, (Option.some.inj hlook).symm⟩

omit [IsStrictOrderedRing K] in
theorem frozen (h : Delivers sqrt input parts board st out) {i : Fin n}
    (hi : (parts i).fixed ≠ none) : input.frozen = true :=
  List.any_eq_true.mpr ⟨parts i, h.mem i, Option.isSome_iff_ne_none.mpr hi⟩

omit [IsStrictOrderedRing K] in
/-- A pin without a rotation is where it was checked as long as it is not turned. -/
theorem checked (h : Delivers sqrt input parts board st out) {i : Fin n} {f : Pin K}
    (hf : (parts i).fixed = some f)
    (hturn : AsChecked (parts i) (deliver input.grid parts input.frozen st i)) :
    st.at i = (f.x, f.y) ∧ extents (fun i => (parts i).box) st i = pinExtents (parts i, f) := by
  have hpin : (parts i).pinnedTurn = f.rotation := by rw [PlaceablePart.pinnedTurn, hf]; rfl
  have hturned : st.r i = f.rotation.getD .deg0 := hpin ▸ hturn
  exact ⟨h.settled.pins.place i f hf, by rw [extents, hturned]; rfl⟩

omit [IsStrictOrderedRing K] in
/-- Two parts are apart before their places are rounded. -/
theorem apart (h : Delivers sqrt input parts board st out)
    (hvalid : validateFixedPlacements input.parts input.boardW input.boardH input.grid
      input.margin input.spacing = []) {i j : Fin n} (hne : (parts i).id ≠ (parts j).id)
    (hcase : (parts i).fixed = none ∨ (parts j).fixed = none ∨
      AsChecked (parts i) (deliver input.grid parts input.frozen st i) ∧
        AsChecked (parts j) (deliver input.grid parts input.frozen st j)) :
    Apart (input.spacing - slack) (st.at i) (extents (fun i => (parts i).box) st i) (st.at j)
      (extents (fun i => (parts i).box) st j) := by
  have hji : j ≠ i := fun e => hne (e ▸ rfl)
  cases hpi : (parts i).fixed with
  | none => exact h.settled.apart i hpi j hji
  | some f =>
    cases hpj : (parts j).fixed with
    | none => exact (h.settled.apart j hpj i hji.symm).symm
    | some f' =>
      rw [hpi, hpj] at hcase
      obtain ⟨hi, hj⟩ := (hcase.resolve_left (Option.some_ne_none f)).resolve_left
        (Option.some_ne_none f')
      obtain ⟨hati, hexti⟩ := h.checked hpi hi
      obtain ⟨hatj, hextj⟩ := h.checked hpj hj
      rw [hati, hatj, hexti, hextj]
      exact apart_of_valid hvalid (mem_pinnedOf (h.mem i) hpi) (mem_pinnedOf (h.mem j) hpj)
        fun he => hne (congrArg (fun e => e.1.id) he)

/-- A part is inside the margin, on a board that is not smaller than the one asked for. -/
theorem inside (h : Delivers sqrt input parts board st out) (hsqrt : IsSqrt sqrt)
    (hgrid : 0 < input.grid)
    (hvalid : validateFixedPlacements input.parts input.boardW input.boardH input.grid
      input.margin input.spacing = []) {axis : Axis}
    (hroom : along axis (input.boardW, input.boardH) ≤ along axis board) {i : Fin n}
    (hcase : (parts i).fixed = none ∨
      AsChecked (parts i) (deliver input.grid parts input.frozen st i)) :
    |along axis (st.at i) - middle input.frozen input.grid (contentOn parts st axis)| +
        along axis (extents (fun i => (parts i).box) st i) ≤
      along axis (out.boardW, out.boardH) / 2 - input.margin +
        tolerance input.frozen input.grid := by
  rw [h.size]
  refine inside_shrunk hsqrt hgrid h.settled (fun hoff j => ?_) axis i ?_
  · by_contra hj
    rw [h.frozen hj] at hoff
    cases hoff
  · cases hpi : (parts i).fixed with
    | none => exact Or.inl rfl
    | some f =>
      rw [hpi] at hcase
      obtain ⟨hat, hext⟩ := h.checked hpi (hcase.resolve_left (Option.some_ne_none f))
      rw [hat, hext]
      have hin := inside_of_valid hvalid (mem_pinnedOf (h.mem i) hpi) axis
      exact Or.inr (by linarith)

/-- Parts on a grid of hundredths are delivered on it, and as far apart as they are settled. -/
theorem exact (h : Delivers sqrt input parts board st out) (hstep : OnStep (1 / 100) input.grid)
    {i : Fin n} (hi : (parts i).fixed = none) :
    OnGrid input.grid (deliver input.grid parts input.frozen st i).at ∧
      ∀ j, (parts j).fixed = none → j ≠ i →
        Apart (input.spacing - slack) (deliver input.grid parts input.frozen st i).at
          ((deliver input.grid parts input.frozen st i).extents (parts i))
          (deliver input.grid parts input.frozen st j).at
          ((deliver input.grid parts input.frozen st j).extents (parts j)) := by
  have hcell := (h.settled.cell i hi).1
  refine ⟨?_, fun j hj hji => ?_⟩
  · obtain ⟨a, ha⟩ := (deliver_exact hstep hcell input.frozen .x).2
    obtain ⟨b, hb⟩ := (deliver_exact hstep hcell input.frozen .y).2
    exact ⟨a, b, Prod.ext ha hb⟩
  · have hcell' := (h.settled.cell j hj).1
    have hsame : ∀ axis, |along axis (st.at j) - along axis (st.at i)| - 0 ≤
        |along axis (deliver input.grid parts input.frozen st j).at -
          along axis (deliver input.grid parts input.frozen st i).at| := fun axis => by
      rw [(deliver_exact hstep hcell _ axis).1, (deliver_exact hstep hcell' _ axis).1,
        sub_sub_sub_cancel_right, sub_zero]
    have hapart := apart_of_moved (h.settled.apart i hi j hji) (hsame .x) (hsame .y)
    rwa [sub_zero] at hapart

end Delivers

/-- A placement that succeeds delivers its parts, on a board that is not smaller than the one asked
for. -/
theorem delivers_placeParts (localeCompare : Text → Text → Int) {sqrt : K → K}
    (hsqrt : IsSqrt sqrt) (hids : (input.parts.map PlaceablePart.id).Nodup)
    (hgrid : 0 < input.grid) (hfine : input.grid ≤ 16)
    (hok : (placeParts localeCompare sqrt input).ok = true) :
    ∃ st board, Delivers sqrt input (input.sorted localeCompare).get board st
        (placeParts localeCompare sqrt input) ∧
      ∀ axis, max minBoardMm (along axis (input.boardW, input.boardH)) ≤ along axis board := by
  obtain ⟨st, board, hst, hboard, hpos, hsize⟩ := placeParts_eq localeCompare sqrt hgrid hok
  refine ⟨st, board, ⟨hst, fun p => ?_, nodup_ids hids, hpos, hsize⟩, fun axis => ?_⟩
  · exact mem_sorted.symm.trans List.mem_iff_get
  · have hfirst := le_board hsqrt hgrid axis
    rcases hboard with rfl | rfl
    · exact hfirst
    · exact hfirst.trans (le_grown hgrid hfine ((le_max_left _ _).trans hfirst))

end

/-! ## A pinned part and a free one -/

section

variable (K : Type) [Field K]

/-- A part that is pinned at the middle of the board. -/
def pinnedPart : PlaceablePart K where
  id := "U1".toList
  w := (4 : ℕ)
  h := (4 : ℕ)
  pads := [⟨1, 0, "OUT".toList⟩]
  fixed := some ⟨0, 0, none⟩

def freePart : PlaceablePart K where
  id := "R1".toList
  w := (2 : ℕ)
  h := (2 : ℕ)
  pads := [⟨0, 0, "OUT".toList⟩]

def pinAndFree : PlacementInput K where
  parts := [pinnedPart K, freePart K]
  netWeights := []
  boardW := (30 : ℕ)
  boardH := (30 : ℕ)
  gridMm := halved 1
  marginMm := (4 : ℕ)

end

/-- Ids of letters and digits in their order. -/
def byCodeUnits (a b : Text) : Int :=
  if codeUnits a < codeUnits b then -1 else if codeUnits b < codeUnits a then 1 else 0

section

variable {K : Type} [Field K] [LinearOrder K]

omit [LinearOrder K] in
/-- A square part has the same extents however it is turned. -/
theorem halfExtents_square {p : Placement.PlaceablePart K} (h : p.h = p.w) (r : Turn) :
    halfExtents p r = (halved p.w, halved p.w) := by
  unfold halfExtents
  rw [h, ite_self]

omit [LinearOrder K] in
theorem halfExtents_freePart (r : Turn) : halfExtents (freePart K).box r = (halved 2, halved 2) :=
  halfExtents_square rfl r

omit [LinearOrder K] in
theorem halfExtents_pinnedPart (r : Turn) :
    halfExtents (pinnedPart K).box r = (halved 4, halved 4) := halfExtents_square rfl r

variable [FloorRing K] [IsStrictOrderedRing K]

theorem pinAndFree_grid : (pinAndFree K).grid = 1 / 2 := if_pos (one_div_pos.mpr two_pos)

theorem pinAndFree_margin : (pinAndFree K).margin = 4 := if_pos four_pos

theorem pinAndFree_valid : validateFixedPlacements (pinAndFree K).parts (pinAndFree K).boardW
    (pinAndFree K).boardH (pinAndFree K).gridMm (pinAndFree K).marginMm (pinAndFree K).spacing =
      [] := by
  have hsnap : snap 0 (1 / 2 : K) = 0 := by
    rw [snap_eq]
    exact toStep_of_onStep (one_div_pos.mpr two_pos) (onStep_zero _)
  have hpinned : pinnedOf (pinAndFree K).parts = [(pinnedPart K, ⟨0, 0, none⟩)] := rfl
  have hext : pinExtents (pinnedPart K, ⟨0, 0, none⟩) = (halved 4, halved 4) :=
    halfExtents_pinnedPart _
  unfold validateFixedPlacements
  rw [hpinned]
  norm_num [pairsOf, pinProblems, pinTolerance, pinAndFree, hsnap, hext, halved]

/-- A single part that is not pinned is settled as soon as one cell is apart from the pins. -/
theorem legalize_single {n : Nat} {parts : Fin n → PlaceablePart K} {frame : Frame K}
    (hgrid : 0 < frame.grid) (hmargin : 0 ≤ frame.margin)
    (hsize : ∀ i, 0 ≤ (parts i).w ∧ 0 ≤ (parts i).h)
    (localeCompare : Text → Text → Int) {st : State n K} (h : AtPins parts st)
    (honly : ∀ i j, (parts i).fixed = none → (parts j).fixed = none → i = j) {p : K × K}
    (hp : OnGrid frame.grid p)
    (hroom : ∀ i, (parts i).fixed = none →
      InBounds frame (extents (fun i => (parts i).box) st i) p ∧
        ∀ j f, (parts j).fixed = some f →
          Apart (frame.spacing - slack) p (extents (fun i => (parts i).box) st i) (f.x, f.y)
            (extents (fun i => (parts i).box) st j)) :
    (legalize (fun i => (parts i).box) frame localeCompare st).1 = true := by
  let boxes := fun i => (parts i).box
  obtain ⟨hr, hpins, -, hfalse⟩ := legalize_run boxes hgrid localeCompare st
  by_contra hfull
  obtain ⟨pre, i, post, hsplit, hi, hnone⟩ := hfalse (Bool.eq_false_iff.mpr hfull)
  have hfree := box_fixed.mp hi
  obtain ⟨hin, hapart⟩ := hroom i hfree
  have hext : ∀ j, extents boxes (legalize boxes frame localeCompare st).2 j =
      extents boxes st j := fun j => by
    rw [extents, hr]
    rfl
  have htaken := freeCell_none hgrid hmargin (hsize i) hnone hp (by rw [hext]; exact hin)
  rw [← Bool.not_eq_true, Placement.isFree_iff] at htaken
  refine htaken fun j hj => ?_
  have hjp : (boxes j).fixed = true := by
    rcases List.mem_append.mp hj with hj | hj
    · exact (List.mem_filter.mp hj).2
    · -- the only part that is not pinned does not stand before itself
      obtain ⟨hjpre, hjf⟩ := List.mem_filter.mp hj
      have hjfree : (parts j).fixed = none := box_fixed.mp (by simpa using hjf)
      have hnodup := (perm_legalOrder boxes localeCompare).nodup_iff.mpr (List.nodup_finRange n)
      rw [hsplit] at hnodup
      exact absurd (honly j i hjfree hfree)
        ((List.nodup_append.mp hnodup).2.2 j hjpre i List.mem_cons_self)
  obtain ⟨f, hf⟩ := Option.isSome_iff_exists.mp hjp
  rw [hext, hext, hpins j hjp, h.place j f hf]
  exact hapart j f hf

omit [IsStrictOrderedRing K] in
theorem placeParts_ok_eq (localeCompare : Text → Text → Int) (sqrt : K → K)
    (input : PlacementInput K) : (placeParts localeCompare sqrt input).ok =
      (settle localeCompare input (input.sorted localeCompare).get (input.board sqrt)
        (arrange localeCompare sqrt input (input.sorted localeCompare).get
          (input.board sqrt))).1 := by
  unfold placeParts
  dsimp only
  split
  case isTrue h => exact h.symm
  case isFalse h => exact (Bool.eq_false_iff.mpr h).symm

omit [LinearOrder K] [FloorRing K] [IsStrictOrderedRing K] in
theorem pinAndFree_ids : ((pinAndFree K).parts.map PlaceablePart.id).Nodup := by
  simp [pinAndFree, pinnedPart, freePart]

/-- There is always room for the free part. -/
theorem pinAndFree_ok (localeCompare : Text → Text → Int) {sqrt : K → K} (hsqrt : IsSqrt sqrt) :
    (placeParts localeCompare sqrt (pinAndFree K)).ok = true := by
  have hgrid : (0 : K) < (pinAndFree K).grid := by
    rw [pinAndFree_grid]
    exact one_div_pos.mpr two_pos
  rw [placeParts_ok_eq]
  generalize hparts : ((pinAndFree K).sorted localeCompare).get = parts
  have hof : ∀ i, parts i = pinnedPart K ∨ parts i = freePart K := fun i => by
    rw [← hparts]
    have hmem := mem_sorted.mp (List.get_mem ((pinAndFree K).sorted localeCompare) i)
    simpa [pinAndFree] using hmem
  have hfree : ∀ i, (parts i).fixed = none → parts i = freePart K := fun i hi =>
    (hof i).resolve_left fun h => by
      rw [h] at hi
      cases hi
  have hnodup : ((List.finRange _).map fun i =>
      (((pinAndFree K).sorted localeCompare).get i).id).Nodup := nodup_ids pinAndFree_ids
  rw [hparts] at hnodup
  have hinj := List.inj_on_of_nodup_map hnodup
  have hpins : AtPins parts
      (arrange localeCompare sqrt (pinAndFree K) parts ((pinAndFree K).board sqrt)) :=
    atPins_forceLoop (atPins_seed _ _ _) _ _ _ _ _
  generalize arrange localeCompare sqrt (pinAndFree K) parts ((pinAndFree K).board sqrt) = st
    at hpins ⊢
  have hfirst : (legalize (fun i => (parts i).box)
      ((pinAndFree K).frame ((pinAndFree K).board sqrt)) localeCompare st).1 = true := by
    refine legalize_single (p := (10, 10)) hgrid ?_ (fun i => ?_) localeCompare hpins
      (fun i j hi hj => hinj (List.mem_finRange i) (List.mem_finRange j) ?_) ?_ fun i hi => ⟨?_, ?_⟩
    · rw [PlacementInput.frame, pinAndFree_margin]
      exact zero_le_four
    · rcases hof i with h | h <;> rw [h] <;> norm_num [pinnedPart, freePart]
    · rw [hfree i hi, hfree j hj]
    · exact ⟨20, 20, by norm_num [PlacementInput.frame, pinAndFree_grid]⟩
    · have hcells : ∀ size : K, 30 ≤ size →
          (10 : K) ≤ ⌊(halved size - 4 - halved 2) / (1 / 2)⌋ * (1 / 2) := by
        intro size hsize
        have hfloor : (20 : Int) ≤ ⌊(halved size - 4 - halved 2) / (1 / 2)⌋ := by
          rw [Int.le_floor, halved_eq, halved_eq]
          push_cast
          linarith
        have hcast : ((20 : Int) : K) ≤ ⌊(halved size - 4 - halved 2) / (1 / 2)⌋ :=
          Int.cast_le.mpr hfloor
        push_cast at hcast
        linarith
      have hboard : ∀ axis, (30 : K) ≤ along axis ((pinAndFree K).board sqrt) := fun axis =>
        le_trans (le_trans (by cases axis <;> rfl) (le_max_right _ _)) (le_board hsqrt hgrid axis)
      rw [InBounds, clampBounds, extents, hfree i hi, halfExtents_freePart]
      dsimp only [cellsTo, PlacementInput.frame]
      rw [pinAndFree_grid, pinAndFree_margin, abs_of_pos (by norm_num)]
      exact ⟨hcells _ (hboard .x), hcells _ (hboard .y)⟩
    · intro j f hf
      have hpin : parts j = pinnedPart K := (hof j).resolve_right fun h => by
        rw [h] at hf
        cases hf
      rw [hpin] at hf
      cases hf
      rw [extents, extents, hfree i hi, hpin, halfExtents_freePart, halfExtents_pinnedPart]
      left
      norm_num [PlacementInput.frame, PlacementInput.spacing, pinAndFree, halved, hundredths, slack]
  unfold settle
  dsimp only
  rw [if_pos hfirst]

end

end CircuitForge.Placer
