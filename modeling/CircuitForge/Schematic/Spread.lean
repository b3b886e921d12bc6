/-
Parts spread along an axis: `spreadParts` of `schematic/align.ts`.

The row of the parts is sorted by their low edges, the ends stay, and the parts between them are
brought where equal gaps put them, each rounded to the lattice for itself.  Where rounding or an
overlap changes the order of the row, a second spread has another row to deal with.
-/
import CircuitForge.Schematic.Align

namespace CircuitForge

open Js Rounding

/-- The edge of a box that comes first along an axis. -/
def Bounds.low (axis : Axis) (b : Bounds Rat) : Rat :=
  match axis with
  | .x => b.minX
  | .y => b.minY

def Bounds.high (axis : Axis) (b : Bounds Rat) : Rat :=
  match axis with
  | .x => b.maxX
  | .y => b.maxY

/-- `size`. -/
def sizeOn (axis : Axis) (p : PlacedPart) : Rat := (boxOf p).high axis - (boxOf p).low axis

/-- `order`: by the low edge, and then by the collation of the ids. -/
def spreadRow (localeCompare : Text → Text → Int) (axis : Axis) (parts : List PlacedPart) :
    List PlacedPart :=
  parts.insertionSort fun a b =>
    (boxOf a).low axis < (boxOf b).low axis ∨
      ((boxOf a).low axis = (boxOf b).low axis ∧ localeCompare a.id b.id ≤ 0)

/-- `first.minX`, and the first value of `cursor`. -/
def rowStart (axis : Axis) (row : List PlacedPart) : Rat :=
  row.head?.elim 0 fun first => (boxOf first).low axis

/-- `last.maxX`. -/
def rowEnd (axis : Axis) (row : List PlacedPart) : Rat :=
  row.getLast?.elim 0 fun last => (boxOf last).high axis

/-- `gap`. -/
def spreadGap (axis : Axis) (row : List PlacedPart) : Rat :=
  let span := rowEnd axis row - rowStart axis row
  let filled := (row.map (sizeOn axis)).sum
  (span - filled) / ((row.length : Rat) - 1)

/-- `next`: where a part between the ends comes to be. -/
def spreadAt (axis : Axis) (cursor : Rat) (p : PlacedPart) : XY :=
  let shift := cursor - (boxOf p).low axis
  match axis with
  | .x => ⟨snap (p.x + shift), snap p.y⟩
  | .y => ⟨snap p.x, snap (p.y + shift)⟩

/-- The walk along the row, with the index and `cursor`; an end stays. -/
def spreadNexts (axis : Axis) (gap : Rat) : Nat → Rat → List PlacedPart → List (PlacedPart × XY)
  | _, _, [] => []
  | i, cursor, p :: rest =>
    (p, if 0 < i ∧ rest ≠ [] then spreadAt axis cursor p else p.toXY) ::
      spreadNexts axis gap (i + 1) (cursor + (sizeOn axis p + gap)) rest

def spreadParts (localeCompare : Text → Text → Int) (parts : List PlacedPart) (axis : Axis)
    (positions : Map Text Position := []) : Map Text Position :=
  if parts.length < 3 then []
  else
    let row := spreadRow localeCompare axis parts
    movesOf positions (spreadNexts axis (spreadGap axis row) 0 (rowStart axis row) row)

/-! ## Equal gaps -/

/-- Where equal gaps put the low edge of the part at a place of the row. -/
def evenPlace (axis : Axis) (row : List PlacedPart) (k : Nat) : Rat :=
  rowStart axis row + ((row.take k).map fun p => sizeOn axis p + spreadGap axis row).sum

/-- Every part between the ends is where rounding its even place brings it. -/
def Even (axis : Axis) (row : List PlacedPart) : Prop :=
  ∀ k p, row[k]? = some p → 0 < k → k + 1 < row.length →
    -(step / 2) ≤ evenPlace axis row k - (boxOf p).low axis ∧
      evenPlace axis row k - (boxOf p).low axis < step / 2

theorem getElem?_spreadNexts (axis : Axis) (gap : Rat) (row : List PlacedPart) (i : Nat)
    (cursor : Rat) (k : Nat) :
    (spreadNexts axis gap i cursor row)[k]? = row[k]?.map fun p =>
      (p, if 0 < i + k ∧ k + 1 < row.length then
        spreadAt axis (cursor + ((row.take k).map fun q => sizeOn axis q + gap).sum) p
      else p.toXY) := by
  induction row generalizing i cursor k with
  | nil => simp [spreadNexts]
  | cons p rest ih =>
    cases k with
    | zero =>
      have hrest : rest ≠ [] ↔ 0 + 1 < (p :: rest).length := by
        rw [← List.length_pos_iff, List.length_cons]
        omega
      simp [spreadNexts, hrest]
    | succ k =>
      have hcond : (0 < i + 1 + k ∧ k + 1 < rest.length) ↔
          (0 < i + (k + 1) ∧ k + 1 + 1 < (p :: rest).length) := by
        rw [List.length_cons]
        omega
      rw [spreadNexts, List.getElem?_cons_succ, ih, List.getElem?_cons_succ]
      simp only [hcond, List.take_succ_cons, List.map_cons, List.sum_cons,
        add_assoc cursor]

/-- The parts of a row with where they come to be. -/
def rowNexts (axis : Axis) (row : List PlacedPart) : List (PlacedPart × XY) :=
  spreadNexts axis (spreadGap axis row) 0 (rowStart axis row) row

theorem getElem?_rowNexts (axis : Axis) (row : List PlacedPart) (k : Nat) :
    (rowNexts axis row)[k]? = row[k]?.map fun p =>
      (p, if 0 < k ∧ k + 1 < row.length then spreadAt axis (evenPlace axis row k) p
        else p.toXY) := by
  rw [rowNexts, getElem?_spreadNexts, Nat.zero_add]
  rfl

/-- A part between the ends is spread, and an end stays. -/
theorem rowNexts_cases {axis : Axis} {row : List PlacedPart} {k : Nat} {p : PlacedPart} {next : XY}
    (h : (rowNexts axis row)[k]? = some (p, next)) :
    row[k]? = some p ∧
      ((0 < k ∧ k + 1 < row.length) ∧ next = spreadAt axis (evenPlace axis row k) p ∨
        ¬ (0 < k ∧ k + 1 < row.length) ∧ next = p.toXY) := by
  rw [getElem?_rowNexts] at h
  obtain ⟨p', hp, heq⟩ := Option.map_eq_some_iff.mp h
  obtain ⟨rfl, rfl⟩ := Prod.mk.inj heq
  refine ⟨hp, ?_⟩
  split
  · exact Or.inl ⟨‹_›, rfl⟩
  · exact Or.inr ⟨‹_›, rfl⟩

theorem map_fst_rowNexts (axis : Axis) (row : List PlacedPart) :
    (rowNexts axis row).map Prod.fst = row := by
  refine List.ext_getElem? fun k => ?_
  rw [List.getElem?_map, getElem?_rowNexts, Option.map_map]
  exact Option.map_id_fun' ▸ rfl

/-- The guard for fewer than three parts changes nothing: all of them are ends. -/
theorem spreadParts_eq (localeCompare : Text → Text → Int) (parts : List PlacedPart) (axis : Axis)
    (positions : Map Text Position) :
    spreadParts localeCompare parts axis positions =
      movesOf positions (rowNexts axis (spreadRow localeCompare axis parts)) := by
  unfold spreadParts
  split
  · rename_i hshort
    refine ((movesOf_eq_nil_iff _ _).mpr fun e he => ?_).symm
    obtain ⟨k, hk⟩ := List.mem_iff_getElem?.mp he
    have hlength : (spreadRow localeCompare axis parts).length = parts.length :=
      List.length_insertionSort _ _
    rcases rowNexts_cases hk with ⟨-, ⟨hmiddle, -⟩ | ⟨-, hend⟩⟩
    · omega
    · exact hend
  · rfl

/-! ## The even places -/

section

variable {axis : Axis} {row : List PlacedPart}

theorem evenPlace_zero (axis : Axis) (row : List PlacedPart) :
    evenPlace axis row 0 = rowStart axis row := by
  simp [evenPlace]

theorem evenPlace_succ {k : Nat} {p : PlacedPart} (hp : row[k]? = some p) :
    evenPlace axis row (k + 1) = evenPlace axis row k + (sizeOn axis p + spreadGap axis row) := by
  have htake : row.take (k + 1) = row.take k ++ [p] := by
    rw [List.take_add_one, hp]
    rfl
  rw [evenPlace, htake, List.map_append, List.sum_append, ← add_assoc, ← evenPlace]
  simp

theorem sum_map_add (xs : List PlacedPart) (f : PlacedPart → Rat) (c : Rat) :
    (xs.map fun p => f p + c).sum = (xs.map f).sum + xs.length * c := by
  induction xs with
  | nil => simp
  | cons x xs ih =>
    rw [List.map_cons, List.sum_cons, ih, List.map_cons, List.sum_cons, List.length_cons]
    push_cast
    ring

/-- Equal gaps end at the end of the row. -/
theorem evenPlace_last {p : PlacedPart} {n : Nat} (hrow : row.length = n + 1) (hn : 0 < n)
    (hp : row[n]? = some p) : evenPlace axis row n = (boxOf p).low axis := by
  have hsplit : row = row.take n ++ [p] := by
    have htake : row.take (n + 1) = row.take n ++ [p] := by
      rw [List.take_add_one, hp]
      rfl
    rwa [← hrow, List.take_length] at htake
  have hend : rowEnd axis row = (boxOf p).high axis := by
    rw [rowEnd, hsplit, List.getLast?_concat]
    rfl
  have hfilled : (row.map (sizeOn axis)).sum =
      ((row.take n).map (sizeOn axis)).sum + sizeOn axis p := by
    conv_lhs => rw [hsplit, List.map_append, List.sum_append]
    simp
  have htake : ((row.take n).length : Rat) = n := by
    rw [List.length_take, hrow, Nat.min_eq_left (Nat.le_succ n)]
  have hgap : (n : Rat) * spreadGap axis row =
      rowEnd axis row - rowStart axis row - (row.map (sizeOn axis)).sum := by
    have hne : (n : Rat) ≠ 0 := Nat.cast_ne_zero.mpr (Nat.pos_iff_ne_zero.mp hn)
    rw [spreadGap, hrow]
    push_cast
    rw [add_sub_cancel_right, mul_div_cancel₀ _ hne]
  rw [evenPlace, sum_map_add, htake, hgap, hend, hfilled, sizeOn]
  ring

theorem low_boxOf_spreadAt (axis : Axis) (cursor : Rat) (p : PlacedPart) :
    (boxOf (p.placed (spreadAt axis cursor p))).low axis =
      snap (cursor - p.bounds.low axis) + p.bounds.low axis := by
  cases axis with
  | x =>
    have hshift : p.x + (cursor - (p.x + p.bounds.minX)) = cursor - p.bounds.minX := by ring
    exact congrArg (fun v => snap v + p.bounds.minX) hshift
  | y =>
    have hshift : p.y + (cursor - (p.y + p.bounds.minY)) = cursor - p.bounds.minY := by ring
    exact congrArg (fun v => snap v + p.bounds.minY) hshift

/-- An end of a row is at its even place. -/
theorem evenPlace_end {k : Nat} {p : PlacedPart} (hp : row[k]? = some p)
    (hend : ¬ (0 < k ∧ k + 1 < row.length)) : evenPlace axis row k = (boxOf p).low axis := by
  have hk : k < row.length := (List.getElem?_eq_some_iff.mp hp).1
  by_cases hzero : k = 0
  · subst hzero
    rw [evenPlace_zero, rowStart, List.head?_eq_getElem?, hp]
    rfl
  · exact evenPlace_last (by omega) (by omega) hp

/-- How far a part is from its even place when the row has been spread. -/
theorem low_placed {k : Nat} {p : PlacedPart} {next : XY}
    (hnext : (rowNexts axis row)[k]? = some (p, next)) :
    -(step / 2) < (boxOf (p.placed next)).low axis - evenPlace axis row k ∧
      (boxOf (p.placed next)).low axis - evenPlace axis row k ≤ step / 2 := by
  rcases rowNexts_cases hnext with ⟨hp, ⟨-, rfl⟩ | ⟨hend, rfl⟩⟩
  · obtain ⟨hlow, hhigh⟩ := toStep_sub_mem step_pos (evenPlace axis row k - p.bounds.low axis)
    rw [low_boxOf_spreadAt, snap_eq_toStep]
    constructor <;> linarith
  · have hstep := step_pos
    have hplaced : p.placed p.toXY = p := rfl
    rw [evenPlace_end hp hend, hplaced, sub_self]
    constructor <;> linarith

/-- Neighbours in a row that has been spread are an equal gap apart, within a step. -/
theorem gap_placed {k : Nat} {p q : PlacedPart} {next next' : XY}
    (hp : (rowNexts axis row)[k]? = some (p, next))
    (hq : (rowNexts axis row)[k + 1]? = some (q, next')) :
    |(boxOf (q.placed next')).low axis - (boxOf (p.placed next)).high axis -
      spreadGap axis row| ≤ step := by
  obtain ⟨hlow, hhigh⟩ := low_placed hp
  obtain ⟨hlow', hhigh'⟩ := low_placed hq
  have hrow := (rowNexts_cases hp).1
  have hsize : (boxOf (p.placed next)).high axis = (boxOf (p.placed next)).low axis +
      sizeOn axis p := by
    cases axis
    · simp only [boxOf, PlacedPart.placed, Bounds.high, Bounds.low, sizeOn]
      ring
    · simp only [boxOf, PlacedPart.placed, Bounds.high, Bounds.low, sizeOn]
      ring
  rw [evenPlace_succ hrow] at hlow' hhigh'
  rw [hsize, abs_le]
  constructor <;> linarith

end

theorem sizeOn_placed (axis : Axis) (p : PlacedPart) (at' : XY) :
    sizeOn axis (p.placed at') = sizeOn axis p := by
  cases axis
  · simp only [sizeOn, boxOf, PlacedPart.placed, Bounds.high, Bounds.low]
    ring
  · simp only [sizeOn, boxOf, PlacedPart.placed, Bounds.high, Bounds.low]
    ring

/-- Parts of the same sizes between the same ends have the same even places. -/
theorem evenPlace_map (axis : Axis) (row : List PlacedPart) (f : PlacedPart → PlacedPart)
    (hsize : ∀ p ∈ row, sizeOn axis (f p) = sizeOn axis p)
    (hstart : rowStart axis (row.map f) = rowStart axis row)
    (hend : rowEnd axis (row.map f) = rowEnd axis row) (k : Nat) :
    evenPlace axis (row.map f) k = evenPlace axis row k := by
  have hgap : spreadGap axis (row.map f) = spreadGap axis row := by
    rw [spreadGap, spreadGap, hstart, hend, List.length_map, List.map_map]
    congr 3
    exact List.map_congr_left hsize
  rw [evenPlace, evenPlace, hstart, hgap, ← List.map_take, List.map_map]
  congr 2
  exact List.map_congr_left fun p hp => congrArg (· + _) (hsize p (List.mem_of_mem_take hp))

/-! ## The command -/

section

variable {localeCompare : Text → Text → Int} {parts : List PlacedPart} {axis : Axis}
  {positions : Map Text Position}

theorem perm_spreadRow : (spreadRow localeCompare axis parts).Perm parts :=
  List.perm_insertionSort _ _

theorem nodup_rowNexts (hids : (parts.map PlacedPart.id).Nodup) :
    ((rowNexts axis (spreadRow localeCompare axis parts)).map fun e => e.1.id).Nodup := by
  have hmap : (rowNexts axis (spreadRow localeCompare axis parts)).map (fun e => e.1.id) =
      (spreadRow localeCompare axis parts).map PlacedPart.id := by
    conv_rhs => rw [← map_fst_rowNexts axis (spreadRow localeCompare axis parts), List.map_map]
    rfl
  rw [hmap]
  exact (perm_spreadRow.map _).nodup_iff.mpr hids

/-- Each part of the row is brought where the walk has it. -/
theorem afterMove_spreadParts (hids : (parts.map PlacedPart.id).Nodup) {p : PlacedPart} {next : XY}
    (h : (p, next) ∈ rowNexts axis (spreadRow localeCompare axis parts)) :
    afterMove (spreadParts localeCompare parts axis positions) p = p.placed next := by
  rw [spreadParts_eq]
  exact afterMove_movesOf positions (nodup_rowNexts hids) h

theorem onLattice_spreadAt (axis : Axis) (cursor : Rat) (p : PlacedPart) :
    (spreadAt axis cursor p).OnLattice := by
  cases axis
  · exact ⟨onStep_snap _, onStep_snap _⟩
  · exact ⟨onStep_snap _, onStep_snap _⟩

/-- Of a part on the lattice: rounding brings it where it is. -/
theorem spreadAt_eq_iff (axis : Axis) (cursor : Rat) {p : PlacedPart} (hp : p.toXY.OnLattice) :
    spreadAt axis cursor p = p.toXY ↔
      -(step / 2) ≤ cursor - (boxOf p).low axis ∧ cursor - (boxOf p).low axis < step / 2 := by
  cases axis with
  | x =>
    refine (XY.ext_iff.trans (and_iff_left (snap_of_onStep hp.2))).trans ?_
    refine (snap_eq_iff hp.1).trans ?_
    rw [add_sub_cancel_left]
  | y =>
    refine (XY.ext_iff.trans (and_iff_right (snap_of_onStep hp.1))).trans ?_
    refine (snap_eq_iff hp.2).trans ?_
    rw [add_sub_cancel_left]

/-- A spread moves nothing just where the row is even. -/
theorem spreadParts_eq_nil_iff (hlattice : ∀ p ∈ parts, p.toXY.OnLattice) :
    spreadParts localeCompare parts axis positions = [] ↔
      Even axis (spreadRow localeCompare axis parts) := by
  rw [spreadParts_eq, movesOf_eq_nil_iff]
  constructor
  · intro h k p hp hfirst hlast
    have hnext : (rowNexts axis (spreadRow localeCompare axis parts))[k]? =
        some (p, spreadAt axis (evenPlace axis (spreadRow localeCompare axis parts) k) p) := by
      rw [getElem?_rowNexts, hp, Option.map_some, if_pos ⟨hfirst, hlast⟩]
    have hp' := perm_spreadRow.mem_iff.mp (List.mem_of_getElem? hp)
    exact (spreadAt_eq_iff axis _ (hlattice p hp')).mp (h _ (List.mem_of_getElem? hnext))
  · intro h e he
    obtain ⟨k, hk⟩ := List.mem_iff_getElem?.mp he
    rcases rowNexts_cases hk with ⟨hp, ⟨⟨hfirst, hlast⟩, hnext⟩ | ⟨-, hend⟩⟩
    · have hp' := perm_spreadRow.mem_iff.mp (List.mem_of_getElem? hp)
      rw [hnext]
      exact (spreadAt_eq_iff axis _ (hlattice _ hp')).mpr (h k _ hp hfirst hlast)
    · exact hend

theorem exists_next {p : PlacedPart} {k : Nat}
    (hp : (spreadRow localeCompare axis parts)[k]? = some p) :
    ∃ next, (rowNexts axis (spreadRow localeCompare axis parts))[k]? = some (p, next) := by
  rw [getElem?_rowNexts, hp]
  exact ⟨_, rfl⟩

/-- The parts stay on the lattice. -/
theorem onLattice_afterMove (hids : (parts.map PlacedPart.id).Nodup)
    (hlattice : ∀ p ∈ parts, p.toXY.OnLattice) {p : PlacedPart} (hp : p ∈ parts) :
    (afterMove (spreadParts localeCompare parts axis positions) p).toXY.OnLattice := by
  have hperm : (spreadRow localeCompare axis parts).Perm parts := perm_spreadRow
  obtain ⟨k, hk⟩ := List.mem_iff_getElem?.mp (hperm.mem_iff.mpr hp)
  obtain ⟨next, hnext⟩ := exists_next hk
  rw [afterMove_spreadParts hids (List.mem_of_getElem? hnext)]
  rcases rowNexts_cases hnext with ⟨-, ⟨-, rfl⟩ | ⟨-, rfl⟩⟩
  · exact onLattice_spreadAt _ _ _
  · exact hlattice p hp

/-- An end of the row is not among the moves. -/
theorem get?_spreadParts_end (hids : (parts.map PlacedPart.id).Nodup) {k : Nat} {p : PlacedPart}
    (hp : (spreadRow localeCompare axis parts)[k]? = some p)
    (hend : ¬ (0 < k ∧ k + 1 < (spreadRow localeCompare axis parts).length)) :
    (spreadParts localeCompare parts axis positions).get? p.id = none := by
  obtain ⟨next, hnext⟩ := exists_next hp
  have hget := get?_movesOf positions (nodup_rowNexts hids) (List.mem_of_getElem? hnext)
  rw [spreadParts_eq, hget]
  rcases rowNexts_cases hnext with ⟨-, ⟨hmiddle, -⟩ | ⟨-, rfl⟩⟩
  · exact absurd hmiddle hend
  · exact if_neg (not_not.mpr rfl)

theorem afterMove_end (hids : (parts.map PlacedPart.id).Nodup) {k : Nat} {p : PlacedPart}
    (hp : (spreadRow localeCompare axis parts)[k]? = some p)
    (hend : ¬ (0 < k ∧ k + 1 < (spreadRow localeCompare axis parts).length)) :
    afterMove (spreadParts localeCompare parts axis positions) p = p := by
  rw [afterMove, get?_spreadParts_end hids hp hend]

theorem sizeOn_afterMove (axis : Axis) (moves : Map Text Position) (p : PlacedPart) :
    sizeOn axis (afterMove moves p) = sizeOn axis p := by
  unfold afterMove
  split
  · exact sizeOn_placed axis p _
  · rfl

/-- A row whose order is kept is even once it has been spread. -/
theorem even_of_order (hids : (parts.map PlacedPart.id).Nodup)
    (horder : spreadRow localeCompare axis
        (afterMoves (spreadParts localeCompare parts axis positions) parts) =
      (spreadRow localeCompare axis parts).map
        (afterMove (spreadParts localeCompare parts axis positions))) :
    Even axis (spreadRow localeCompare axis
      (afterMoves (spreadParts localeCompare parts axis positions) parts)) := by
  rw [horder]
  set row := spreadRow localeCompare axis parts with hrow
  set moves := spreadParts localeCompare parts axis positions with hmoves
  have hplace := evenPlace_map axis row (afterMove moves)
    (fun p _ => sizeOn_afterMove axis moves p) ?_ ?_
  · intro k p' hp' hfirst hlast
    rw [List.getElem?_map] at hp'
    obtain ⟨p, hp, rfl⟩ := Option.map_eq_some_iff.mp hp'
    rw [List.length_map] at hlast
    have hnext : (rowNexts axis row)[k]? = some (p, spreadAt axis (evenPlace axis row k) p) := by
      rw [getElem?_rowNexts, hp, Option.map_some, if_pos ⟨hfirst, hlast⟩]
    obtain ⟨hlow, hhigh⟩ := low_placed hnext
    rw [hplace, hmoves, afterMove_spreadParts hids (List.mem_of_getElem? hnext)]
    constructor <;> linarith
  · rw [rowStart, rowStart, List.head?_map, List.head?_eq_getElem?]
    cases hfirst : row[0]? with
    | none => rfl
    | some first =>
      rw [Option.map_some, hmoves, afterMove_end hids hfirst (by omega)]
  · rw [rowEnd, rowEnd, List.getLast?_map, List.getLast?_eq_getElem?]
    cases hlast : row[row.length - 1]? with
    | none => rfl
    | some last =>
      have hend : ¬ (0 < row.length - 1 ∧ row.length - 1 + 1 < row.length) := by omega
      rw [Option.map_some, hmoves, afterMove_end hids hlast hend]

/-- The coordinate that a spread keeps. -/
def XY.beside (p : XY) (axis : Axis) : Rat :=
  match axis with
  | .x => p.y
  | .y => p.x

/-- A spread moves parts along its own axis, to the lattice. -/
theorem mem_spreadParts (hlattice : ∀ p ∈ parts, p.toXY.OnLattice) {id : Text} {at' : Position}
    (h : (id, at') ∈ spreadParts localeCompare parts axis positions) :
    ∃ p ∈ parts, p.id = id ∧ at'.toXY.beside axis = p.toXY.beside axis ∧
      at'.toXY.OnLattice := by
  rw [spreadParts_eq] at h
  obtain ⟨⟨p, next⟩, he, hid, hat, hmoved⟩ := exists_of_mem_movesOf h
  obtain ⟨k, hk⟩ := List.mem_iff_getElem?.mp he
  rcases rowNexts_cases hk with ⟨hp, ⟨-, hnext⟩ | ⟨-, hnext⟩⟩
  · have hp' := perm_spreadRow.mem_iff.mp (List.mem_of_getElem? hp)
    refine ⟨p, hp', hid, ?_, ?_⟩
    · rw [hat, show (p, next).2 = next from rfl, hnext]
      cases axis
      · exact snap_of_onStep (hlattice p hp').2
      · exact snap_of_onStep (hlattice p hp').1
    · rw [hat, show (p, next).2 = next from rfl, hnext]
      exact onLattice_spreadAt _ _ _
  · exact absurd hnext hmoved

end

/-! ## Aligning and spreading twice -/

/-- A part whose symbol reaches from `low` to `high` along both axes. -/
def blockAt (id : String) (x low high : Rat) : PlacedPart :=
  { x := x, y := 0, id := id.toList, bounds := ⟨low, low, high, high⟩ }

/-- Two parts of one symbol. -/
def flushBlocks : List PlacedPart := [blockAt "a" 0 0 10, blockAt "b" 100 0 10]

theorem onLattice_flushBlocks : ∀ p ∈ flushBlocks, p.toXY.OnLattice := by
  rintro p hp
  rcases List.mem_cons.mp hp with rfl | hp
  · exact ⟨⟨0, by decide +kernel⟩, ⟨0, by decide +kernel⟩⟩
  · obtain rfl := List.mem_singleton.mp hp
    exact ⟨⟨10, by decide +kernel⟩, ⟨0, by decide +kernel⟩⟩

/-- Left edges that rounding leaves at 0, 4 and -4. -/
def ragged : List PlacedPart := [blockAt "a" 0 0 20, blockAt "b" 100 4 20, blockAt "c" 200 6 20]

end CircuitForge
