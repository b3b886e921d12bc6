/-
Connection dots: `junctionsAt` of `editor-core/src/schematic/route.ts` and `drawnJunctions` of
`wiring.ts`.

A dot stands where three or more conductors of one net meet, a terminal's lead among them.
The places looked at are the ends of segments and the points where segments cross; a terminal
that a segment passes over is neither.
-/
import CircuitForge.Schematic.Wiring

namespace CircuitForge

open Js

/-! ## Segments -/

/-- `Seg`. -/
structure Seg where
  x1 : Rat
  y1 : Rat
  x2 : Rat
  y2 : Rat
  deriving DecidableEq

/-- `Junction`. -/
structure Junction where
  x : Rat
  y : Rat
  netId : Text
  deriving DecidableEq

/-- `segsOf`. -/
def segsOf (pts : List XY) : List Seg :=
  ((pts.zip pts.tail).filter fun e => e.1 ≠ e.2).map fun e => ⟨e.1.x, e.1.y, e.2.x, e.2.y⟩

/-- `touchesPoint`. -/
def touchesPoint (s : Seg) (x y : Rat) : Bool := onSegment ⟨s.x1, s.y1⟩ ⟨s.x2, s.y2⟩ x y

/-- `STEP`. -/
def Side.step : Side → Rat × Rat
  | .left => (-1, 0)
  | .right => (1, 0)
  | .top => (0, -1)
  | .bottom => (0, 1)

/-- Where a terminal's lead goes: to the body, away from its side. -/
def Side.lead (side : Side) : Rat × Rat := (-side.step.1, -side.step.2)

/-- `meetPoint`. -/
def meetPoint (a b : Seg) : Option (Rat × Rat) :=
  if (a.y1 = a.y2 ↔ b.y1 = b.y2) then none
  else
    let (h, v) := if a.y1 = a.y2 then (a, b) else (b, a)
    if h.x1 = h.x2 ∨ v.y1 = v.y2 then none
    else if touchesPoint h v.x1 h.y1 && touchesPoint v v.x1 h.y1 then some (v.x1, h.y1)
    else none

/-- The points where two of the segments cross. -/
def crossings : List Seg → List (Rat × Rat)
  | [] => []
  | s :: rest => rest.filterMap (meetPoint s) ++ crossings rest

/-- `candidates`: where to look. -/
def candidates (segs : List Seg) : List (Rat × Rat) :=
  (segs.flatMap fun s => [(s.x1, s.y1), (s.x2, s.y2)]) ++ crossings segs

/-- `towards`: the direction of another point, none of the point itself. -/
def towards (x y px py : Rat) : List (Rat × Rat) :=
  let dx := px - x
  let dy := py - y
  if dx = 0 ∧ dy = 0 then [] else [(dx / (|dx| + |dy|), dy / (|dx| + |dy|))]

/-- `dirs`: the directions in which conductors leave a point. -/
def directions (segs : List Seg) (sides : List Side) (x y : Rat) : List (Rat × Rat) :=
  ((segs.filter (touchesPoint · x y)).flatMap fun t =>
    towards x y t.x1 t.y1 ++ towards x y t.x2 t.y2) ++
    sides.map Side.lead

/-- `junctionsAt`. -/
def junctionsAt (segs : List Seg) (netId : Text) (sidesAt : Rat → Rat → List Side) :
    List Junction :=
  ((candidates segs).eraseDups.filter fun c =>
    3 ≤ (directions segs (sidesAt c.1 c.2) c.1 c.2).dedup.length).map fun c => ⟨c.1, c.2, netId⟩

section

variable [Runtime]

/-- The sides of the terminals of a net at a point. -/
def sidesAt (pins : List SheetPin) (netId : Text) (x y : Rat) : List Side :=
  (pins.filter fun p => p.netId = netId && p.x = x && p.y = y).map SheetPin.side

/-- `drawnJunctions`. -/
def drawnJunctions (circuit : CircuitJson) (ui : UiJson) : List Junction :=
  match ui.wires with
  | none => []
  | some wires =>
    let pins := sheetPins circuit ui.positions
    (Map.group Wire.netId wires).flatMap fun e =>
      junctionsAt (e.2.flatMap fun w => segsOf w.points) e.1 (sidesAt pins e.1)

end

/-! ## Segments along an axis -/

def Seg.Flat (s : Seg) : Prop := s.y1 = s.y2 ∧ s.x1 ≠ s.x2

def Seg.Upright (s : Seg) : Prop := s.x1 = s.x2 ∧ s.y1 ≠ s.y2

/-- The side is one of those the segment runs between. -/
def Seg.Along (s : Seg) (side : Side) : Prop :=
  (s.Flat ∧ (side = .left ∨ side = .right)) ∨ (s.Upright ∧ (side = .top ∨ side = .bottom))

/-- The pieces of a line at right angles run along an axis each. -/
theorem axial_of_mem_segsOf {pts : List XY} (h : AtRightAngles pts) {s : Seg}
    (hs : s ∈ segsOf pts) : s.Flat ∨ s.Upright := by
  obtain ⟨e, hmem, rfl⟩ := List.mem_map.mp hs
  obtain ⟨he, hne⟩ := List.mem_filter.mp hmem
  rw [decide_eq_true_eq] at hne
  have haxial : Axial e.1 e.2 := by
    clear hne hs hmem
    induction pts with
    | nil => cases he
    | cons a pts ih =>
      cases pts with
      | nil => cases he
      | cons b pts =>
        obtain ⟨hab, hrest⟩ := List.isChain_cons_cons.mp h
        rcases List.mem_cons.mp he with rfl | he
        · exact hab
        · exact ih hrest he
  rcases haxial with hx | hy
  · exact .inr ⟨hx, fun hy => hne (XY.ext hx hy)⟩
  · exact .inl ⟨hy, fun hx => hne (XY.ext hx hy)⟩

theorem touches_flat {s : Seg} (h : s.Flat) {x y : Rat} :
    touchesPoint s x y = true ↔ y = s.y1 ∧ min s.x1 s.x2 ≤ x ∧ x ≤ max s.x1 s.x2 := by
  unfold touchesPoint onSegment
  simp only [h.1, sub_self, zero_mul, sub_zero, min_self, max_self, Bool.and_eq_true,
    decide_eq_true_eq, mul_eq_zero, sub_eq_zero]
  constructor
  · rintro ⟨⟨⟨⟨-, h₁⟩, h₂⟩, h₃⟩, h₄⟩
    exact ⟨le_antisymm h₄ h₃, h₁, h₂⟩
  · rintro ⟨rfl, h₁, h₂⟩
    exact ⟨⟨⟨⟨.inr rfl, h₁⟩, h₂⟩, le_rfl⟩, le_rfl⟩

theorem touches_upright {s : Seg} (h : s.Upright) {x y : Rat} :
    touchesPoint s x y = true ↔ x = s.x1 ∧ min s.y1 s.y2 ≤ y ∧ y ≤ max s.y1 s.y2 := by
  unfold touchesPoint onSegment
  simp only [h.1, sub_self, zero_mul, zero_sub, min_self, max_self, Bool.and_eq_true,
    decide_eq_true_eq, neg_eq_zero, mul_eq_zero, sub_eq_zero]
  constructor
  · rintro ⟨⟨⟨⟨-, h₁⟩, h₂⟩, h₃⟩, h₄⟩
    exact ⟨le_antisymm h₂ h₁, h₃, h₄⟩
  · rintro ⟨rfl, h₁, h₂⟩
    exact ⟨⟨⟨⟨.inr rfl, le_rfl⟩, le_rfl⟩, h₁⟩, h₂⟩

theorem towards_flat (x y px : Rat) :
    towards x y px y = if px = x then [] else if px < x then [(-1, 0)] else [(1, 0)] := by
  unfold towards
  simp only [sub_self, and_true, sub_eq_zero, abs_zero, add_zero, zero_div]
  split
  · rfl
  · next hne =>
    have hsub : px - x ≠ 0 := sub_ne_zero.mpr hne
    split
    · next hlt => rw [abs_of_neg (sub_neg.mpr hlt), div_neg, div_self hsub]
    · next hge =>
      rw [abs_of_nonneg (sub_nonneg.mpr (not_lt.mp hge)), div_self hsub]

theorem towards_upright (x y py : Rat) :
    towards x y x py = if py = y then [] else if py < y then [(0, -1)] else [(0, 1)] := by
  unfold towards
  simp only [sub_self, true_and, sub_eq_zero, abs_zero, zero_add, zero_div]
  split
  · rfl
  · next hne =>
    have hsub : py - y ≠ 0 := sub_ne_zero.mpr hne
    split
    · next hlt => rw [abs_of_neg (sub_neg.mpr hlt), div_neg, div_self hsub]
    · next hge =>
      rw [abs_of_nonneg (sub_nonneg.mpr (not_lt.mp hge)), div_self hsub]

/-! ## Where to look -/

/-- No segment ends at the point, and no two segments cross there. -/
def PlainSpot (segs : List Seg) (x y : Rat) : Prop :=
  (∀ s ∈ segs, ¬ (s.x1 = x ∧ s.y1 = y) ∧ ¬ (s.x2 = x ∧ s.y2 = y)) ∧
    ∀ s ∈ segs, ∀ t ∈ segs, s.Flat → t.Upright →
      ¬ (touchesPoint s x y = true ∧ touchesPoint t x y = true)

theorem Seg.Flat.not_upright {s : Seg} (h : s.Flat) : ¬ s.Upright := fun hu => h.2 hu.1

/-- Two segments meet where one is flat, one upright, and both touch the point. -/
theorem meetPoint_eq_some {a b : Seg} (ha : a.Flat ∨ a.Upright) (hb : b.Flat ∨ b.Upright)
    {x y : Rat} :
    meetPoint a b = some (x, y) ↔ (a.Flat ∧ b.Upright ∨ b.Flat ∧ a.Upright) ∧
      touchesPoint a x y = true ∧ touchesPoint b x y = true := by
  have hmeet : ∀ {h v : Seg}, h.Flat → v.Upright →
      ((if h.x1 = h.x2 ∨ v.y1 = v.y2 then none
        else if touchesPoint h v.x1 h.y1 && touchesPoint v v.x1 h.y1 then some (v.x1, h.y1)
        else none) = some (x, y) ↔ touchesPoint h x y = true ∧ touchesPoint v x y = true) := by
    intro h v hh hv
    rw [if_neg (not_or.mpr ⟨hh.2, hv.2⟩)]
    constructor
    · intro he
      split at he
      · next hboth =>
        cases he
        exact Bool.and_eq_true_iff.mp hboth
      · cases he
    · rintro ⟨hth, htv⟩
      obtain rfl := ((touches_flat hh).mp hth).1
      obtain rfl := ((touches_upright hv).mp htv).1
      rw [if_pos (Bool.and_eq_true_iff.mpr ⟨hth, htv⟩)]
  unfold meetPoint
  rcases ha with ha | ha <;> rcases hb with hb | hb
  · rw [if_pos (iff_of_true ha.1 hb.1)]
    exact iff_of_false (by simp) fun h => h.1.elim
      (fun h => hb.not_upright h.2) fun h => ha.not_upright h.2
  · rw [if_neg fun h => hb.2 (h.mp ha.1)]
    simp only [if_pos ha.1]
    rw [hmeet ha hb]
    exact ⟨fun h => ⟨.inl ⟨ha, hb⟩, h⟩, fun h => h.2⟩
  · rw [if_neg fun h => ha.2 (h.mpr hb.1)]
    simp only [if_neg ha.2]
    rw [hmeet hb ha]
    exact ⟨fun h => ⟨.inr ⟨hb, ha⟩, h.symm⟩, fun h => h.2.symm⟩
  · rw [if_pos (iff_of_false ha.2 hb.2)]
    exact iff_of_false (by simp) fun h => h.1.elim
      (fun h => h.1.not_upright ha) fun h => h.1.not_upright hb

theorem mem_crossings {segs : List Seg} {c : Rat × Rat} :
    c ∈ crossings segs ↔ ∃ (i j : Nat) (a b : Seg), i < j ∧ segs[i]? = some a ∧ segs[j]? = some b ∧
      meetPoint a b = some c := by
  induction segs with
  | nil => simp [crossings]
  | cons s segs ih =>
    rw [crossings, List.mem_append, List.mem_filterMap, ih]
    constructor
    · rintro (⟨t, ht, hm⟩ | ⟨i, j, a, b, hlt, ha, hb, hm⟩)
      · obtain ⟨j, hj⟩ := List.mem_iff_getElem?.mp ht
        exact ⟨0, j + 1, s, t, Nat.succ_pos j, rfl, hj, hm⟩
      · exact ⟨i + 1, j + 1, a, b, Nat.succ_lt_succ hlt, ha, hb, hm⟩
    · rintro ⟨i, j, a, b, hlt, ha, hb, hm⟩
      obtain ⟨j, rfl⟩ := Nat.exists_eq_succ_of_ne_zero (Nat.ne_of_gt (Nat.zero_lt_of_lt hlt))
      cases i with
      | zero =>
        cases ha
        exact .inl ⟨b, List.mem_of_getElem? hb, hm⟩
      | succ i => exact .inr ⟨i, j, a, b, Nat.lt_of_succ_lt_succ hlt, ha, hb, hm⟩

/-- The places looked at are those that are not plain. -/
theorem mem_candidates {segs : List Seg} (h : ∀ s ∈ segs, s.Flat ∨ s.Upright) {x y : Rat} :
    (x, y) ∈ candidates segs ↔ ¬ PlainSpot segs x y := by
  have hends : (x, y) ∈ segs.flatMap (fun s => [(s.x1, s.y1), (s.x2, s.y2)]) ↔
      ∃ s ∈ segs, (s.x1 = x ∧ s.y1 = y) ∨ (s.x2 = x ∧ s.y2 = y) := by
    simp only [List.mem_flatMap, List.mem_cons, List.not_mem_nil, or_false, Prod.mk.injEq,
      eq_comm]
  have hcross : (x, y) ∈ crossings segs ↔ ∃ s ∈ segs, ∃ t ∈ segs, s.Flat ∧ t.Upright ∧
      touchesPoint s x y = true ∧ touchesPoint t x y = true := by
    rw [mem_crossings]
    constructor
    · rintro ⟨i, j, a, b, -, ha, hb, hm⟩
      have hma := List.mem_of_getElem? ha
      have hmb := List.mem_of_getElem? hb
      obtain ⟨hkind | hkind, hta, htb⟩ := (meetPoint_eq_some (h a hma) (h b hmb)).mp hm
      · exact ⟨a, hma, b, hmb, hkind.1, hkind.2, hta, htb⟩
      · exact ⟨b, hmb, a, hma, hkind.1, hkind.2, htb, hta⟩
    · rintro ⟨s, hs, t, ht, hflat, hup, hts, htt⟩
      obtain ⟨i, hi⟩ := List.mem_iff_getElem?.mp hs
      obtain ⟨j, hj⟩ := List.mem_iff_getElem?.mp ht
      rcases Nat.lt_trichotomy i j with hlt | rfl | hlt
      · exact ⟨i, j, s, t, hlt, hi, hj,
          (meetPoint_eq_some (h s hs) (h t ht)).mpr ⟨.inl ⟨hflat, hup⟩, hts, htt⟩⟩
      · rw [hi] at hj
        obtain rfl := Option.some.inj hj
        exact absurd hup hflat.not_upright
      · exact ⟨j, i, t, s, hlt, hj, hi,
          (meetPoint_eq_some (h t ht) (h s hs)).mpr ⟨.inr ⟨hflat, hup⟩, htt, hts⟩⟩
  unfold candidates PlainSpot
  rw [List.mem_append, hends, hcross, not_and_or]
  push Not
  refine or_congr ?_ ?_
  · refine exists_congr fun s => and_congr_right fun _ => ?_
    tauto
  · refine exists_congr fun s => and_congr_right fun _ => exists_congr fun t =>
      and_congr_right fun _ => ?_
    tauto

/-! ## Directions at a plain spot -/

/-- Nothing branches off at the point: the leads of terminals on a segment go along it, and
terminals without a wire leave to two sides at most. -/
def Unbranched (segs : List Seg) (sides : List Side) (x y : Rat) : Prop :=
  (∀ s ∈ segs, touchesPoint s x y = true → ∀ side ∈ sides, s.Along side) ∧
    ((∀ s ∈ segs, touchesPoint s x y = false) → sides.dedup.length < 3)

theorem three_le_dedup {α : Type} [DecidableEq α] {xs : List α} {a b c : α} (ha : a ∈ xs)
    (hb : b ∈ xs) (hc : c ∈ xs) (hab : a ≠ b) (hac : a ≠ c) (hbc : b ≠ c) :
    3 ≤ xs.dedup.length := by
  have hsub : [a, b, c] ⊆ xs.dedup := by
    intro x hx
    simp only [List.mem_cons, List.not_mem_nil, or_false] at hx
    rcases hx with rfl | rfl | rfl
    exacts [List.mem_dedup.mpr ha, List.mem_dedup.mpr hb, List.mem_dedup.mpr hc]
  have hnodup : [a, b, c].Nodup := by simp [hab, hac, hbc]
  exact (hnodup.subperm hsub).length_le

theorem dedup_le_two {α : Type} [DecidableEq α] {xs : List α} {a b : α}
    (h : ∀ x ∈ xs, x = a ∨ x = b) : xs.dedup.length ≤ 2 := by
  have hsub : xs.dedup ⊆ [a, b] := fun x hx => by simpa using h x (List.mem_dedup.mp hx)
  exact ((List.nodup_dedup xs).subperm hsub).length_le

theorem mem_directions {segs : List Seg} {sides : List Side} {x y : Rat} {d : Rat × Rat} :
    d ∈ directions segs sides x y ↔
      (∃ s ∈ segs, touchesPoint s x y = true ∧
        (d ∈ towards x y s.x1 s.y1 ∨ d ∈ towards x y s.x2 s.y2)) ∨
      ∃ side ∈ sides, side.lead = d := by
  simp only [directions, List.mem_append, List.mem_flatMap, List.mem_filter, List.mem_map,
    and_assoc]

theorem Side.lead_injective : Function.Injective Side.lead := by
  intro a b h
  cases a <;> cases b <;> first | rfl | (exact absurd h (by decide))

/-- The directions of a segment along an axis. -/
theorem towards_along {s : Seg} {x y : Rat} {d : Rat × Rat} (ht : touchesPoint s x y = true)
    (hd : d ∈ towards x y s.x1 s.y1 ∨ d ∈ towards x y s.x2 s.y2) :
    (s.Flat → d = (-1, 0) ∨ d = (1, 0)) ∧ (s.Upright → d = (0, -1) ∨ d = (0, 1)) := by
  have hflat : ∀ px, d ∈ towards x y px y → d = (-1, 0) ∨ d = (1, 0) := by
    intro px hd
    rw [towards_flat] at hd
    split at hd
    · cases hd
    · split at hd
      · exact .inl (List.mem_singleton.mp hd)
      · exact .inr (List.mem_singleton.mp hd)
  have hup : ∀ py, d ∈ towards x y x py → d = (0, -1) ∨ d = (0, 1) := by
    intro py hd
    rw [towards_upright] at hd
    split at hd
    · cases hd
    · split at hd
      · exact .inl (List.mem_singleton.mp hd)
      · exact .inr (List.mem_singleton.mp hd)
  constructor
  · intro h
    have hy := ((touches_flat h).mp ht).1
    rw [← h.1, ← hy] at hd
    exact hd.elim (hflat _) (hflat _)
  · intro h
    have hx := ((touches_upright h).mp ht).1
    rw [← h.1, ← hx] at hd
    exact hd.elim (hup _) (hup _)

/-- A segment that passes through leaves both ways. -/
theorem through_directions {s : Seg} {x y : Rat} (ht : touchesPoint s x y = true)
    (h₁ : ¬ (s.x1 = x ∧ s.y1 = y)) (h₂ : ¬ (s.x2 = x ∧ s.y2 = y)) :
    (s.Flat → ∀ d, d = (-1, 0) ∨ d = (1, 0) →
      d ∈ towards x y s.x1 s.y1 ∨ d ∈ towards x y s.x2 s.y2) ∧
    (s.Upright → ∀ d, d = (0, -1) ∨ d = (0, 1) →
      d ∈ towards x y s.x1 s.y1 ∨ d ∈ towards x y s.x2 s.y2) := by
  constructor
  · intro h d hd
    obtain ⟨hy, hmin, hmax⟩ := (touches_flat h).mp ht
    have hx₁ : s.x1 ≠ x := fun he => h₁ ⟨he, hy.symm⟩
    have hx₂ : s.x2 ≠ x := fun he => h₂ ⟨he, h.1 ▸ hy.symm⟩
    rw [← h.1, ← hy, towards_flat, towards_flat, if_neg hx₁, if_neg hx₂]
    rcases lt_or_gt_of_ne hx₁ with hlt | hlt
    · have hgt : ¬ s.x2 < x := fun h2 => absurd hmax (not_le.mpr (max_lt hlt h2))
      rw [if_pos hlt, if_neg hgt]
      exact hd.imp List.mem_singleton.mpr List.mem_singleton.mpr
    · have hgt : s.x2 < x := by
        by_contra h2
        have h2' := lt_of_le_of_ne (not_lt.mp h2) hx₂.symm
        exact absurd hmin (not_le.mpr (lt_min hlt h2'))
      rw [if_neg (not_lt.mpr hlt.le), if_pos hgt]
      exact hd.symm.imp List.mem_singleton.mpr List.mem_singleton.mpr
  · intro h d hd
    obtain ⟨hx, hmin, hmax⟩ := (touches_upright h).mp ht
    have hy₁ : s.y1 ≠ y := fun he => h₁ ⟨hx.symm, he⟩
    have hy₂ : s.y2 ≠ y := fun he => h₂ ⟨h.1 ▸ hx.symm, he⟩
    rw [← h.1, ← hx, towards_upright, towards_upright, if_neg hy₁, if_neg hy₂]
    rcases lt_or_gt_of_ne hy₁ with hlt | hlt
    · have hgt : ¬ s.y2 < y := fun h2 => absurd hmax (not_le.mpr (max_lt hlt h2))
      rw [if_pos hlt, if_neg hgt]
      exact hd.imp List.mem_singleton.mpr List.mem_singleton.mpr
    · have hgt : s.y2 < y := by
        by_contra h2
        have h2' := lt_of_le_of_ne (not_lt.mp h2) hy₂.symm
        exact absurd hmin (not_le.mpr (lt_min hlt h2'))
      rw [if_neg (not_lt.mpr hlt.le), if_pos hgt]
      exact hd.symm.imp List.mem_singleton.mpr List.mem_singleton.mpr

/-- Without a wire there are as many directions as sides. -/
theorem length_directions_bare {segs : List Seg} {sides : List Side} {x y : Rat}
    (h : ∀ s ∈ segs, touchesPoint s x y = false) :
    (directions segs sides x y).dedup.length = sides.dedup.length := by
  have hnone : segs.filter (touchesPoint · x y) = [] :=
    List.filter_eq_nil_iff.mpr fun s hs => by rw [h s hs]; exact Bool.false_ne_true
  rw [directions, hnone, List.flatMap_nil, List.nil_append,
    List.dedup_map_of_injective Side.lead_injective, List.length_map]

/-- At a plain spot three conductors meet exactly if something branches off. -/
theorem three_directions_iff {segs : List Seg} (h : ∀ s ∈ segs, s.Flat ∨ s.Upright)
    {sides : List Side} {x y : Rat} (hplain : PlainSpot segs x y) :
    3 ≤ (directions segs sides x y).dedup.length ↔ ¬ Unbranched segs sides x y := by
  constructor
  · rintro hthree ⟨halong, hbare⟩
    by_cases hsome : ∃ s ∈ segs, touchesPoint s x y = true
    · obtain ⟨s, hs, ht⟩ := hsome
      -- All segments at the point run along one axis, and so do the leads.
      refine absurd hthree (not_le.mpr (Nat.lt_succ_of_le ?_))
      rcases h s hs with hflat | hup
      · refine dedup_le_two (a := (-1, 0)) (b := (1, 0)) fun d hd => ?_
        rcases mem_directions.mp hd with ⟨t, htm, htt, hdt⟩ | ⟨side, hside, rfl⟩
        · rcases h t htm with htf | htu
          · exact (towards_along htt hdt).1 htf
          · exact absurd ⟨ht, htt⟩ (hplain.2 s hs t htm hflat htu)
        · rcases halong s hs ht side hside with ⟨-, rfl | rfl⟩ | ⟨hu, -⟩
          · exact .inr (by simp [Side.lead, Side.step])
          · exact .inl (by simp [Side.lead, Side.step])
          · exact absurd hu hflat.not_upright
      · refine dedup_le_two (a := (0, -1)) (b := (0, 1)) fun d hd => ?_
        rcases mem_directions.mp hd with ⟨t, htm, htt, hdt⟩ | ⟨side, hside, rfl⟩
        · rcases h t htm with htf | htu
          · exact absurd ⟨htt, ht⟩ (hplain.2 t htm s hs htf hup)
          · exact (towards_along htt hdt).2 htu
        · rcases halong s hs ht side hside with ⟨hf, -⟩ | ⟨-, rfl | rfl⟩
          · exact absurd hup hf.not_upright
          · exact .inr (by simp [Side.lead, Side.step])
          · exact .inl (by simp [Side.lead, Side.step])
    · have hnone : ∀ s ∈ segs, touchesPoint s x y = false := fun s hs =>
        Bool.eq_false_iff.mpr fun ht => hsome ⟨s, hs, ht⟩
      rw [length_directions_bare hnone] at hthree
      exact absurd hthree (not_le.mpr (hbare hnone))
  · intro hbranch
    rw [Unbranched, not_and_or] at hbranch
    rcases hbranch with hlead | hbare
    · push Not at hlead
      obtain ⟨s, hs, ht, side, hside, hacross⟩ := hlead
      obtain ⟨h₁, h₂⟩ := hplain.1 s hs
      have hthrough := through_directions ht h₁ h₂
      have hlead : side.lead ∈ directions segs sides x y :=
        mem_directions.mpr (.inr ⟨side, hside, rfl⟩)
      have hwire : ∀ d, d ∈ towards x y s.x1 s.y1 ∨ d ∈ towards x y s.x2 s.y2 →
          d ∈ directions segs sides x y := fun d hd => mem_directions.mpr (.inl ⟨s, hs, ht, hd⟩)
      rcases h s hs with hflat | hup
      · have hside : side = .top ∨ side = .bottom := by
          cases side with
          | left => exact absurd (.inl ⟨hflat, .inl rfl⟩) hacross
          | right => exact absurd (.inl ⟨hflat, .inr rfl⟩) hacross
          | top => exact .inl rfl
          | bottom => exact .inr rfl
        refine three_le_dedup (hwire (-1, 0) (hthrough.1 hflat _ (.inl rfl)))
          (hwire (1, 0) (hthrough.1 hflat _ (.inr rfl))) hlead (by decide) ?_ ?_
        · rcases hside with rfl | rfl <;> decide
        · rcases hside with rfl | rfl <;> decide
      · have hside : side = .left ∨ side = .right := by
          cases side with
          | left => exact .inl rfl
          | right => exact .inr rfl
          | top => exact absurd (.inr ⟨hup, .inl rfl⟩) hacross
          | bottom => exact absurd (.inr ⟨hup, .inr rfl⟩) hacross
        refine three_le_dedup (hwire (0, -1) (hthrough.2 hup _ (.inl rfl)))
          (hwire (0, 1) (hthrough.2 hup _ (.inr rfl))) hlead (by decide) ?_ ?_
        · rcases hside with rfl | rfl <;> decide
        · rcases hside with rfl | rfl <;> decide
    · obtain ⟨hnone, hthree⟩ := Classical.not_imp.mp hbare
      rw [length_directions_bare hnone]
      exact not_lt.mp hthree

/-! ## All nets -/

/-- The segments of the wires of a net. -/
def netSegs (wires : List Wire) (netId : Text) : List Seg :=
  (wires.filter (·.netId = netId)).flatMap fun w => segsOf w.points

theorem mem_junctionsAt {segs : List Seg} {netId : Text} {sides : Rat → Rat → List Side}
    {j : Junction} :
    j ∈ junctionsAt segs netId sides ↔ j.netId = netId ∧ (j.x, j.y) ∈ candidates segs ∧
      3 ≤ (directions segs (sides j.x j.y) j.x j.y).dedup.length := by
  simp only [junctionsAt, List.mem_map, List.mem_filter, List.mem_eraseDups, decide_eq_true_eq]
  constructor
  · rintro ⟨c, ⟨hc, hthree⟩, rfl⟩
    exact ⟨rfl, hc, hthree⟩
  · rintro ⟨rfl, hc, hthree⟩
    exact ⟨(j.x, j.y), ⟨hc, hthree⟩, rfl⟩

section

variable [Runtime]

theorem mem_drawnJunctions {circuit : CircuitJson} {positions : Map Text Position}
    {wires : List Wire} {netId : Text} {x y : Rat} :
    ⟨x, y, netId⟩ ∈ drawnJunctions circuit ⟨positions, some wires⟩ ↔
      (x, y) ∈ candidates (netSegs wires netId) ∧
        3 ≤ (directions (netSegs wires netId)
          (sidesAt (sheetPins circuit positions) netId x y) x y).dedup.length := by
  unfold drawnJunctions
  simp only [List.mem_flatMap, mem_junctionsAt]
  constructor
  · rintro ⟨⟨key, ws⟩, he, rfl, hc, hthree⟩
    obtain ⟨-, rfl⟩ := Map.mem_group he
    exact ⟨hc, hthree⟩
  · rintro ⟨hc, hthree⟩
    -- A place to look at belongs to a wire of the net.
    have hwire : ∃ w ∈ wires, w.netId = netId := by
      by_contra hnone
      push Not at hnone
      have hnil : wires.filter (·.netId = netId) = [] :=
        List.filter_eq_nil_iff.mpr fun w hw he => hnone w hw (of_decide_eq_true he)
      rw [netSegs, hnil] at hc
      cases hc
    obtain ⟨w, hw, rfl⟩ := hwire
    obtain ⟨ws, hws, -⟩ := Map.exists_group (k := Wire.netId) hw
    obtain ⟨-, rfl⟩ := Map.mem_group hws
    exact ⟨_, hws, rfl, hc, hthree⟩

/-- The dots are the points that three conductors of a net leave in different directions. -/
def DotsAreBranches (circuit : CircuitJson) (positions : Map Text Position) (wires : List Wire) :
    Prop :=
  ∀ netId x y, ⟨x, y, netId⟩ ∈ drawnJunctions circuit ⟨positions, some wires⟩ ↔
    3 ≤ (directions (netSegs wires netId)
      (sidesAt (sheetPins circuit positions) netId x y) x y).dedup.length

/-- The dots are the branch points exactly if nothing branches off where no segment ends and no
two segments cross. -/
theorem dotsAreBranches_iff (circuit : CircuitJson) (positions : Map Text Position)
    {wires : List Wire} (h : ∀ w ∈ wires, AtRightAngles w.points) :
    DotsAreBranches circuit positions wires ↔ ∀ netId x y, PlainSpot (netSegs wires netId) x y →
      Unbranched (netSegs wires netId) (sidesAt (sheetPins circuit positions) netId x y) x y := by
  have haxial : ∀ netId, ∀ s ∈ netSegs wires netId, s.Flat ∨ s.Upright := by
    intro netId s hs
    obtain ⟨w, hw, hs⟩ := List.mem_flatMap.mp hs
    exact axial_of_mem_segsOf (h w (List.mem_filter.mp hw).1) hs
  unfold DotsAreBranches
  refine forall_congr' fun netId => forall_congr' fun x => forall_congr' fun y => ?_
  rw [mem_drawnJunctions, mem_candidates (haxial netId)]
  by_cases hplain : PlainSpot (netSegs wires netId) x y
  · have hthree : 3 ≤ (directions (netSegs wires netId)
        (sidesAt (sheetPins circuit positions) netId x y) x y).dedup.length ↔
        ¬ Unbranched (netSegs wires netId) (sidesAt (sheetPins circuit positions) netId x y) x y :=
      three_directions_iff (haxial netId) hplain
    constructor
    · intro hdots _
      by_contra hbranch
      exact (hdots.mpr (hthree.mpr hbranch)).1 hplain
    · intro hnone
      exact ⟨fun hd => absurd hplain hd.1, fun hd => absurd (hnone hplain) (hthree.mp hd)⟩
  · exact ⟨fun _ hp => absurd hp hplain, fun _ => ⟨fun hd => hd.2, fun hd => ⟨hplain, hd⟩⟩⟩

end

/-- Two resistors, the second above the right end of the first, on one net with it. -/
def stackedBoard : CircuitJson where
  components := [
    { id := "r1".toList, type := .resistor, designator := "R1".toList,
      pins := [⟨"1".toList, "a".toList⟩, ⟨"2".toList, "b".toList⟩] },
    { id := "r2".toList, type := .resistor, designator := "R2".toList,
      pins := [⟨"1".toList, "b".toList⟩, ⟨"2".toList, "c".toList⟩] }]
  nets := [{ id := "a".toList, name := "A".toList }, { id := "b".toList, name := "B".toList },
    { id := "c".toList, name := "C".toList }]

def stackedPositions : Map Text Position :=
  [("r1".toList, { x := 0, y := 0 }), ("r2".toList, { x := 40, y := -20 })]

/-- A wire from the second resistor straight down over the end of the first. -/
def passingWire : Wire where
  netId := "b".toList
  points := [⟨20, -20⟩, ⟨20, 20⟩]
  fromRef := some ⟨"r2".toList, "1".toList⟩

theorem dotsAreBranches_passingWire :
    DotsAreBranches stackedBoard stackedPositions [passingWire] ↔
      ∀ netId x y, PlainSpot (netSegs [passingWire] netId) x y →
        Unbranched (netSegs [passingWire] netId)
          (sidesAt (sheetPins stackedBoard stackedPositions) netId x y) x y :=
  dotsAreBranches_iff stackedBoard stackedPositions (by decide)

/-- The wire passes over a terminal whose lead leaves it sideways, and no dot says so. -/
theorem passed_terminal_without_dot :
    AtRightAngles passingWire.points ∧
      ¬ DotsAreBranches stackedBoard stackedPositions [passingWire] := by
  refine ⟨by decide, fun h => ?_⟩
  have hdot := (h "b".toList 20 0).mpr (by decide +kernel)
  have hnone : drawnJunctions stackedBoard ⟨stackedPositions, some [passingWire]⟩ = [] := by
    decide +kernel
  rw [hnone] at hdot
  cases hdot

end CircuitForge
