/-
A wire while a part is dragged: `stretchWire` of `schematic/stretch.ts`.

The end on a moved terminal takes the bend next to it along.  That keeps the wire at right angles
when its segments turn at every bend, since the segment behind the bend then runs the other way.
-/
import CircuitForge.Schematic.Bends

namespace CircuitForge

open Js

/-- A point moved by the drag. -/
def XY.shift (p : XY) (dx dy : Rat) : XY := ⟨p.x + dx, p.y + dy⟩

/-- What `stretchWire` does when the point at `stop` moves and the one at `inward` follows. -/
def stretchEnd (points : List XY) (stop inward : Nat) (dx dy : Rat) : List XY :=
  match points[stop]?, points[inward]? with
  | some before, some neighbour =>
    let moved := before.shift dx dy
    let out := points.set stop moved
    -- a diagonal segment moves as it is
    if before.y ≠ neighbour.y ∧ before.x ≠ neighbour.x then out
    else
      let bend : XY :=
        if before.y = neighbour.y then ⟨neighbour.x, moved.y⟩ else ⟨moved.x, neighbour.y⟩
      if points.length = 2 then
        if if before.y = neighbour.y then dy = 0 else dx = 0 then out
        else out.take 1 ++ bend :: out.drop 1
      else out.set inward bend
  | _, _ => points

/-- `stretchWire`.  The key of a point is its identity, so a set of keys is a set of points. -/
def stretchWire (points : List XY) (movedPins : XY → Bool) (dx dy : Rat) : List XY :=
  if points.length < 2 ∨ dx = 0 ∧ dy = 0 then points
  else
    let headMoves := points.head?.any movedPins
    let tailMoves := points.getLast?.any movedPins
    if headMoves = false ∧ tailMoves = false then points
    else if headMoves = true ∧ tailMoves = true then points.map (·.shift dx dy)
    else if headMoves = true then stretchEnd points 0 1 dx dy
    else stretchEnd points (points.length - 1) (points.length - 2) dx dy

/-! ## Wires that turn at every bend -/

/-- A segment along the horizontal, of some length. -/
def Level (a b : XY) : Prop := a.y = b.y ∧ a.x ≠ b.x

/-- A segment along the vertical, of some length. -/
def Upright (a b : XY) : Prop := a.x = b.x ∧ a.y ≠ b.y

instance (a b : XY) : Decidable (Level a b) := inferInstanceAs (Decidable (_ ∧ _))

instance (a b : XY) : Decidable (Upright a b) := inferInstanceAs (Decidable (_ ∧ _))

/-- A single segment along an axis, or segments that alternate between the axes. -/
def Turning : List XY → Prop
  | a :: b :: c :: rest =>
    (Level a b ∧ Upright b c ∨ Upright a b ∧ Level b c) ∧ Turning (b :: c :: rest)
  | [a, b] => Axial a b
  | _ => True

theorem Turning.atRightAngles {points : List XY} (h : Turning points) : AtRightAngles points := by
  induction points with
  | nil => exact List.isChain_nil
  | cons a points ih =>
    cases points with
    | nil => exact List.isChain_singleton a
    | cons b points =>
      cases points with
      | nil => exact List.isChain_pair.mpr h
      | cons c rest =>
        refine List.isChain_cons_cons.mpr ⟨?_, ih h.2⟩
        rcases h.1 with ⟨hab, -⟩ | ⟨hab, -⟩
        · exact .inr hab.1
        · exact .inl hab.1

theorem Turning.tail {a : XY} {points : List XY} (h : Turning (a :: points)) : Turning points := by
  cases points with
  | nil => trivial
  | cons b points =>
    cases points with
    | nil => trivial
    | cons c rest => exact h.2

/-- The last two segments of a wire turn. -/
theorem Turning.last {c b a : XY} {pre : List XY} (h : Turning (pre ++ [c, b, a])) :
    Level c b ∧ Upright b a ∨ Upright c b ∧ Level b a := by
  induction pre with
  | nil => exact h.1
  | cons p pre ih => exact ih h.tail

/-! ## The moved end -/

/-- Behind the bend that follows the moved end the wire still turns. -/
theorem axial_bend {a b c : XY} (dx dy : Rat)
    (h : Level a b ∧ Upright b c ∨ Upright a b ∧ Level b c) :
    let bend : XY := if a.y = b.y then ⟨b.x, (a.shift dx dy).y⟩ else ⟨(a.shift dx dy).x, b.y⟩
    ¬ (a.y ≠ b.y ∧ a.x ≠ b.x) ∧ Axial (a.shift dx dy) bend ∧ Axial bend c := by
  rcases h with ⟨hab, hbc⟩ | ⟨hab, hbc⟩
  · rw [if_pos hab.1]
    exact ⟨fun hd => hd.1 hab.1, .inr rfl, .inl hbc.1⟩
  · rw [if_neg hab.2]
    exact ⟨fun hd => hd.2 hab.1, .inl rfl, .inr hbc.1⟩

/-- A single segment gains the bend that it needs. -/
theorem axial_corner {a b : XY} (dx dy : Rat) (h : Axial a b) :
    let bend : XY := if a.y = b.y then ⟨b.x, (a.shift dx dy).y⟩ else ⟨(a.shift dx dy).x, b.y⟩
    ¬ (a.y ≠ b.y ∧ a.x ≠ b.x) ∧
      ((if a.y = b.y then dy = 0 else dx = 0) → Axial (a.shift dx dy) b) ∧
      Axial (a.shift dx dy) bend ∧ Axial bend b := by
  by_cases hlevel : a.y = b.y
  · rw [if_pos hlevel, if_pos hlevel]
    refine ⟨fun hd => hd.1 hlevel, fun hdy => .inr ?_, .inr rfl, .inl rfl⟩
    show a.y + dy = b.y
    rw [hdy, add_zero, hlevel]
  · rw [if_neg hlevel, if_neg hlevel]
    have hx : a.x = b.x := h.resolve_right hlevel
    refine ⟨fun hd => hd.2 hx, fun hdx => .inl ?_, .inl rfl, .inr rfl⟩
    show a.x + dx = b.x
    rw [hdx, add_zero, hx]

/-- What the stretch is for: the ends on moved terminals move along, the others stay, and the wire
is at right angles. -/
structure Attached (points out : List XY) (movedPins : XY → Bool) (dx dy : Rat) : Prop where
  head : out.head? = points.head?.map fun p => if movedPins p then p.shift dx dy else p
  tail : out.getLast? = points.getLast?.map fun p => if movedPins p then p.shift dx dy else p
  square : AtRightAngles out

theorem shift_zero (p : XY) : p.shift 0 0 = p := by
  rw [XY.shift, add_zero, add_zero]

/-- A wire none of whose ends moves, or that does not move at all. -/
theorem attached_self {points : List XY} {movedPins : XY → Bool} {dx dy : Rat}
    (hsquare : AtRightAngles points)
    (hstill : dx = 0 ∧ dy = 0 ∨
      (∀ p ∈ points.head?, movedPins p = false) ∧ ∀ p ∈ points.getLast?, movedPins p = false) :
    Attached points points movedPins dx dy := by
  have hend : ∀ {o : Option XY}, (dx = 0 ∧ dy = 0 ∨ ∀ p ∈ o, movedPins p = false) →
      o = o.map fun p => if movedPins p then p.shift dx dy else p := by
    intro o ho
    cases o with
    | none => rfl
    | some p =>
      rcases ho with ⟨rfl, rfl⟩ | ho
      · rw [Option.map_some, shift_zero, ite_self]
      · rw [Option.map_some, ho p rfl, if_neg Bool.false_ne_true]
  exact ⟨hend (hstill.imp_right And.left), hend (hstill.imp_right And.right), hsquare⟩

/-- A wire whose ends both move travels whole. -/
theorem attached_map {points : List XY} {movedPins : XY → Bool} {dx dy : Rat}
    (hsquare : AtRightAngles points) (hhead : ∀ p ∈ points.head?, movedPins p = true)
    (htail : ∀ p ∈ points.getLast?, movedPins p = true) :
    Attached points (points.map (·.shift dx dy)) movedPins dx dy := by
  have hend : ∀ {o : Option XY}, (∀ p ∈ o, movedPins p = true) →
      o.map (·.shift dx dy) = o.map fun p => if movedPins p then p.shift dx dy else p := by
    intro o ho
    cases o with
    | none => rfl
    | some p => rw [Option.map_some, Option.map_some, if_pos (ho p rfl)]
  refine ⟨?_, ?_, ?_⟩
  · rw [List.head?_map]
    exact hend hhead
  · rw [List.getLast?_map]
    exact hend htail
  · refine List.isChain_map_of_isChain _ (fun p q hpq => ?_) hsquare
    exact hpq.imp (congrArg (· + dx)) (congrArg (· + dy))

/-- The head moves. -/
theorem attached_head {a b : XY} {rest : List XY} {movedPins : XY → Bool} {dx dy : Rat}
    (hturning : Turning (a :: b :: rest)) (ha : movedPins a = true)
    (htail : ∀ p ∈ (a :: b :: rest).getLast?, movedPins p = false) :
    Attached (a :: b :: rest) (stretchEnd (a :: b :: rest) 0 1 dx dy) movedPins dx dy := by
  have hlast : (a :: b :: rest).getLast? =
      (a :: b :: rest).getLast?.map fun p => if movedPins p then p.shift dx dy else p := by
    cases hl : (a :: b :: rest).getLast? with
    | none => rfl
    | some p => rw [Option.map_some, htail p hl, if_neg Bool.false_ne_true]
  have hhead : some (a.shift dx dy) =
      ((a :: b :: rest).head?.map fun p => if movedPins p then p.shift dx dy else p) := by
    rw [List.head?_cons, Option.map_some, if_pos ha]
  cases rest with
  | nil =>
    obtain ⟨hstraight, halong, hfirst, hsecond⟩ := axial_corner dx dy hturning
    by_cases hal : if a.y = b.y then dy = 0 else dx = 0
    · have hout : stretchEnd [a, b] 0 1 dx dy = [a.shift dx dy, b] := by
        simp only [stretchEnd, List.getElem?_cons_zero, List.getElem?_cons_succ]
        rw [if_neg hstraight, if_pos (show [a, b].length = 2 from rfl), if_pos hal]
        rfl
      rw [hout]
      exact ⟨hhead, hlast, List.isChain_pair.mpr (halong hal)⟩
    · have hout : stretchEnd [a, b] 0 1 dx dy =
          [a.shift dx dy,
            if a.y = b.y then ⟨b.x, (a.shift dx dy).y⟩ else ⟨(a.shift dx dy).x, b.y⟩, b] := by
        simp only [stretchEnd, List.getElem?_cons_zero, List.getElem?_cons_succ]
        rw [if_neg hstraight, if_pos (show [a, b].length = 2 from rfl), if_neg hal]
        rfl
      rw [hout]
      exact ⟨hhead, hlast, List.isChain_cons_cons.mpr ⟨hfirst, List.isChain_pair.mpr hsecond⟩⟩
  | cons c rest =>
    obtain ⟨hstraight, hfirst, hsecond⟩ := axial_bend dx dy hturning.1
    have hout : stretchEnd (a :: b :: c :: rest) 0 1 dx dy =
        a.shift dx dy ::
          (if a.y = b.y then ⟨b.x, (a.shift dx dy).y⟩ else ⟨(a.shift dx dy).x, b.y⟩) ::
            c :: rest := by
      simp only [stretchEnd, List.getElem?_cons_zero, List.getElem?_cons_succ]
      rw [if_neg hstraight, if_neg (by simp)]
      rfl
    rw [hout]
    refine ⟨hhead, hlast, ?_⟩
    exact List.isChain_cons_cons.mpr
      ⟨hfirst, List.isChain_cons_cons.mpr ⟨hsecond, hturning.tail.tail.atRightAngles⟩⟩

/-- The tail moves. -/
theorem attached_tail {a b : XY} {pre : List XY} {movedPins : XY → Bool} {dx dy : Rat}
    (hturning : Turning (pre ++ [b, a])) (ha : movedPins a = true)
    (hhead : ∀ p ∈ (pre ++ [b, a]).head?, movedPins p = false) :
    Attached (pre ++ [b, a]) (stretchEnd (pre ++ [b, a]) (pre.length + 1) pre.length dx dy)
      movedPins dx dy := by
  have hfirst : (pre ++ [b, a]).head? =
      (pre ++ [b, a]).head?.map fun p => if movedPins p then p.shift dx dy else p := by
    cases hh : (pre ++ [b, a]).head? with
    | none => rfl
    | some p => rw [Option.map_some, hhead p hh, if_neg Bool.false_ne_true]
  have hlast : some (a.shift dx dy) =
      ((pre ++ [b, a]).getLast?.map fun p => if movedPins p then p.shift dx dy else p) := by
    rw [List.getLast?_append, List.getLast?_cons_cons, List.getLast?_singleton, Option.some_or,
      Option.map_some, if_pos ha]
  have hbefore : (pre ++ [b, a])[pre.length + 1]? = some a := by simp
  have hneighbour : (pre ++ [b, a])[pre.length]? = some b := by simp
  have hset : (pre ++ [b, a]).set (pre.length + 1) (a.shift dx dy) = pre ++ [b, a.shift dx dy] := by
    rw [List.set_append_right _ _ (by omega), Nat.add_sub_cancel_left]
    rfl
  rcases List.eq_nil_or_concat' pre with rfl | ⟨pre, c, rfl⟩
  · obtain ⟨hstraight, halong, hbend, hcorner⟩ := axial_corner dx dy (Axial.symm hturning)
    by_cases hal : if a.y = b.y then dy = 0 else dx = 0
    · have hout : stretchEnd [b, a] 1 0 dx dy = [b, a.shift dx dy] := by
        simp only [stretchEnd, List.getElem?_cons_zero, List.getElem?_cons_succ]
        rw [if_neg hstraight, if_pos (show [b, a].length = 2 from rfl), if_pos hal]
        rfl
      show Attached [b, a] (stretchEnd [b, a] 1 0 dx dy) movedPins dx dy
      rw [hout]
      exact ⟨hfirst, hlast, List.isChain_pair.mpr (halong hal).symm⟩
    · have hout : stretchEnd [b, a] 1 0 dx dy =
          [b, if a.y = b.y then ⟨b.x, (a.shift dx dy).y⟩ else ⟨(a.shift dx dy).x, b.y⟩,
            a.shift dx dy] := by
        simp only [stretchEnd, List.getElem?_cons_zero, List.getElem?_cons_succ]
        rw [if_neg hstraight, if_pos (show [b, a].length = 2 from rfl), if_neg hal]
        rfl
      show Attached [b, a] (stretchEnd [b, a] 1 0 dx dy) movedPins dx dy
      rw [hout]
      exact ⟨hfirst, hlast,
        List.isChain_cons_cons.mpr ⟨hcorner.symm, List.isChain_pair.mpr hbend.symm⟩⟩
  · have hwire : pre ++ [c] ++ [b, a] = pre ++ [c, b, a] := List.append_assoc ..
    have hturn : Level a b ∧ Upright b c ∨ Upright a b ∧ Level b c := by
      rw [hwire] at hturning
      rcases hturning.last with ⟨hcb, hba⟩ | ⟨hcb, hba⟩
      · exact .inr ⟨⟨hba.1.symm, hba.2.symm⟩, hcb.1.symm, hcb.2.symm⟩
      · exact .inl ⟨⟨hba.1.symm, hba.2.symm⟩, hcb.1.symm, hcb.2.symm⟩
    obtain ⟨hstraight, hbend, hbehind⟩ := axial_bend dx dy hturn
    have hlong : ¬ (pre ++ [c] ++ [b, a]).length = 2 := by simp
    have hout : stretchEnd (pre ++ [c] ++ [b, a]) ((pre ++ [c]).length + 1) (pre ++ [c]).length dx
        dy = pre ++ [c, if a.y = b.y then ⟨b.x, (a.shift dx dy).y⟩ else ⟨(a.shift dx dy).x, b.y⟩,
          a.shift dx dy] := by
      simp only [stretchEnd, hbefore, hneighbour]
      rw [if_neg hstraight, if_neg hlong, hset, List.set_append_right _ _ (le_refl _),
        Nat.sub_self, List.append_assoc]
      rfl
    rw [hout]
    refine ⟨?_, ?_, ?_⟩
    · rw [← hfirst]
      cases pre <;> rfl
    · rw [← hlast, List.getLast?_append]
      rfl
    · have hkept := hwire ▸ hturning.atRightAngles
      rw [AtRightAngles, List.isChain_split] at hkept ⊢
      exact ⟨hkept.1, List.isChain_cons_cons.mpr
        ⟨hbehind.symm, List.isChain_pair.mpr hbend.symm⟩⟩

theorem exists_first_two {points : List XY} (hlen : 2 ≤ points.length) :
    ∃ a b rest, points = a :: b :: rest := by
  match points, hlen with
  | a :: b :: rest, _ => exact ⟨a, b, rest, rfl⟩

theorem exists_last_two {points : List XY} (hlen : 2 ≤ points.length) :
    ∃ pre y z, points = pre ++ [y, z] := by
  have hlen' : 2 ≤ points.reverse.length := by rwa [List.length_reverse]
  obtain ⟨z, y, rest, hrev⟩ := exists_first_two hlen'
  exact ⟨rest.reverse, y, z, by rw [← List.reverse_reverse points, hrev]; simp⟩

/-- A stretched wire stays attached and at right angles. -/
theorem stretchWire_attached {points : List XY} (hlen : 2 ≤ points.length)
    (hturning : Turning points) (movedPins : XY → Bool) (dx dy : Rat) :
    Attached points (stretchWire points movedPins dx dy) movedPins dx dy := by
  unfold stretchWire
  by_cases hstill : points.length < 2 ∨ dx = 0 ∧ dy = 0
  · rw [if_pos hstill]
    exact attached_self hturning.atRightAngles (.inl (hstill.resolve_left (by omega)))
  rw [if_neg hstill]
  obtain ⟨pre, y, z, hsplit⟩ := exists_last_two hlen
  obtain ⟨a, b, rest, rfl⟩ := exists_first_two hlen
  have hlast : (a :: b :: rest).getLast? = some z := by
    rw [hsplit, List.getLast?_append]
    rfl
  have hheadMem : ∀ {v}, movedPins a = v → ∀ p ∈ (a :: b :: rest).head?, movedPins p = v :=
    fun hv p hp => Option.some.inj hp ▸ hv
  have htailMem : ∀ {v}, movedPins z = v → ∀ p ∈ (a :: b :: rest).getLast?, movedPins p = v :=
    fun hv p hp => Option.some.inj (hlast.symm.trans hp) ▸ hv
  have hh : (a :: b :: rest).head?.any movedPins = movedPins a := rfl
  have ht : (a :: b :: rest).getLast?.any movedPins = movedPins z := by
    rw [hlast, Option.any_some]
  dsimp only
  have hnot : ∀ {v : Bool}, v = true → ¬ v = false := fun hv hf => Bool.noConfusion (hv ▸ hf)
  rcases Bool.eq_false_or_eq_true (movedPins a) with ha | ha
  · rcases Bool.eq_false_or_eq_true (movedPins z) with hz | hz
    · rw [if_neg (fun h => hnot (hh.trans ha) h.1), if_pos ⟨hh.trans ha, ht.trans hz⟩]
      exact attached_map hturning.atRightAngles (hheadMem ha) (htailMem hz)
    · rw [if_neg (fun h => hnot (hh.trans ha) h.1), if_neg (fun h => hnot h.2 (ht.trans hz)),
        if_pos (hh.trans ha)]
      exact attached_head hturning ha (htailMem hz)
  · rcases Bool.eq_false_or_eq_true (movedPins z) with hz | hz
    · rw [if_neg (fun h => hnot (ht.trans hz) h.2), if_neg (fun h => hnot h.1 (hh.trans ha)),
        if_neg (fun h => hnot h (hh.trans ha))]
      have hlength : (a :: b :: rest).length = pre.length + 2 := by
        rw [hsplit, List.length_append]
        rfl
      have hnone := hheadMem ha
      rw [hlength]
      rw [hsplit] at hturning hnone ⊢
      exact attached_tail hturning hz hnone
    · rw [if_pos ⟨hh.trans ha, ht.trans hz⟩]
      exact attached_self hturning.atRightAngles (.inr ⟨hheadMem ha, htailMem hz⟩)

/-- A wire of three points, its head dragged. -/
theorem stretchWire_attached_bent :
    stretchWire [⟨0, 0⟩, ⟨20, 0⟩, ⟨20, 30⟩] (fun p => p = ⟨0, 0⟩) 5 10 =
        [⟨5, 10⟩, ⟨20, 10⟩, ⟨20, 30⟩] ∧
      Attached [⟨0, 0⟩, ⟨20, 0⟩, ⟨20, 30⟩]
        (stretchWire [⟨0, 0⟩, ⟨20, 0⟩, ⟨20, 30⟩] (fun p => p = ⟨0, 0⟩) 5 10) (fun p => p = ⟨0, 0⟩)
        5 10 := by
  have hlevel : Level (⟨0, 0⟩ : XY) ⟨20, 0⟩ := by decide +kernel
  have hupright : Upright (⟨20, 0⟩ : XY) ⟨20, 30⟩ := by decide +kernel
  have hturning : Turning [⟨0, 0⟩, ⟨20, 0⟩, ⟨20, 30⟩] :=
    And.intro (.inl ⟨hlevel, hupright⟩) (.inl hupright.1)
  exact ⟨by decide +kernel, stretchWire_attached (by decide) hturning _ 5 10⟩

end CircuitForge
