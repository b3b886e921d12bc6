/-
What tidying and moving an end do to the ends and the corners of a wire.
-/
import Mathlib.Data.List.Chain
import Mathlib.Tactic.Linarith
import CircuitForge.Schematic.Sheet

namespace CircuitForge

open Js

theorem Axial.symm {a b : XY} (h : Axial a b) : Axial b a := h.imp Eq.symm Eq.symm

theorem atRightAngles_reverse {points : List XY} :
    AtRightAngles points.reverse ↔ AtRightAngles points := by
  rw [AtRightAngles, List.isChain_reverse]
  exact ⟨fun h => h.imp fun _ _ => Axial.symm, fun h => h.imp fun _ _ => Axial.symm⟩

/-! ## Tidying -/

/-- A corner that a straight run goes on through leaves the run along its axis. -/
theorem axial_of_goesOn {prev last p : XY} (hp : Axial prev last) (hl : Axial last p)
    (hgo : goesOn prev last p = true) : Axial prev p := by
  rw [goesOn, Bool.and_eq_true, decide_eq_true_eq, decide_eq_true_eq] at hgo
  obtain ⟨hcross, hdot⟩ := hgo
  rcases hp with hp | hp <;> rcases hl with hl | hl
  · exact .inl (hp.trans hl)
  · rw [hp, hl] at hdot
    simp at hdot
  · rw [hp, hl] at hdot
    simp at hdot
  · exact .inr (hp.trans hl)

theorem tidyStep_head (out : List XY) (p : XY) : (tidyStep out p).head? = some p := by
  unfold tidyStep
  split
  case h_1 => rfl
  case h_2 last rest =>
    by_cases hl : last = p
    · rw [if_pos hl, hl]
      rfl
    · rw [if_neg hl]
      split
      case h_1 => rfl
      case h_2 prev rest' =>
        split <;> rfl

/-- The first point of a wire stays, here the last of the points so far. -/
theorem tidyStep_getLast (out : List XY) (p : XY) :
    (tidyStep out p).getLast? = some (out.getLast?.getD p) := by
  unfold tidyStep
  split
  case h_1 => rfl
  case h_2 last rest =>
    by_cases hl : last = p
    · rw [if_pos hl]
      simp [List.getLast?_cons]
    · rw [if_neg hl]
      split
      case h_1 => rfl
      case h_2 prev rest' =>
        split <;> simp [List.getLast?_cons]

theorem tidyStep_axial {out : List XY} {p : XY} (h : AtRightAngles out)
    (hp : ∀ last ∈ out.head?, Axial last p) : AtRightAngles (tidyStep out p) := by
  unfold tidyStep
  split
  case h_1 => exact List.isChain_singleton p
  case h_2 last rest =>
    have hlast : Axial last p := hp last rfl
    by_cases hl : last = p
    · rwa [if_pos hl]
    · rw [if_neg hl]
      split
      case h_1 => exact List.isChain_pair.mpr hlast.symm
      case h_2 prev rest' =>
        obtain ⟨hprev, hrest⟩ := List.isChain_cons_cons.mp h
        by_cases hgo : goesOn prev last p = true
        · rw [if_pos hgo]
          exact List.isChain_cons_cons.mpr ⟨(axial_of_goesOn hprev.symm hlast hgo).symm, hrest⟩
        · rw [if_neg hgo]
          exact List.isChain_cons_cons.mpr ⟨hlast.symm, h⟩

theorem tidyFold_head (points out : List XY) :
    (points.foldl tidyStep out).head? = points.getLast?.or out.head? := by
  induction points generalizing out with
  | nil => rfl
  | cons p points ih =>
    rw [List.foldl_cons, ih, tidyStep_head, List.getLast?_cons]
    cases points.getLast? <;> rfl

theorem tidyFold_getLast (points out : List XY) :
    (points.foldl tidyStep out).getLast? = out.getLast?.or points.head? := by
  induction points generalizing out with
  | nil => simp
  | cons p points ih =>
    rw [List.foldl_cons, ih, tidyStep_getLast]
    cases out.getLast? <;> rfl

theorem tidyFold_axial {points out : List XY} (h : AtRightAngles out) (hp : AtRightAngles points)
    (hjoin : ∀ last ∈ out.head?, ∀ p ∈ points.head?, Axial last p) :
    AtRightAngles (points.foldl tidyStep out) := by
  induction points generalizing out with
  | nil => exact h
  | cons p points ih =>
    rw [List.foldl_cons]
    refine ih (tidyStep_axial h fun last hl => hjoin last hl p rfl) hp.tail ?_
    rw [tidyStep_head]
    intro last hl q hq
    cases hl
    cases points with
    | nil => cases hq
    | cons q' points =>
      cases hq
      exact (List.isChain_cons_cons.mp hp).1

theorem head_tidyPoints (points : List XY) : (tidyPoints points).head? = points.head? := by
  rw [tidyPoints, List.head?_reverse, tidyFold_getLast]
  rfl

theorem getLast_tidyPoints (points : List XY) :
    (tidyPoints points).getLast? = points.getLast? := by
  rw [tidyPoints, List.getLast?_reverse, tidyFold_head, List.head?_nil, Option.or_none]

theorem atRightAngles_tidyPoints {points : List XY} (h : AtRightAngles points) :
    AtRightAngles (tidyPoints points) :=
  atRightAngles_reverse.mpr (tidyFold_axial List.isChain_nil h fun _ hl => nomatch hl)

/-! ## Moving an end -/

/-- The bend next to the moved end stays in line with the point behind it. -/
def Turns : List XY → XY → Prop
  | was :: near :: next :: _, to' =>
    if was.y = near.y then near.x = next.x ∨ to'.y = next.y else near.y = next.y ∨ to'.x = next.x
  | _, _ => True

theorem head_moveHead (points : List XY) (to' : XY) : (moveHead points to').head? = some to' := by
  unfold moveHead
  repeat' split
  all_goals rfl

/-- The other end stays where it was. -/
theorem getLast_moveHead {points : List XY} (h : 1 < points.length) (to' : XY) :
    (moveHead points to').getLast? = points.getLast? := by
  match points, h with
  | [was, near], _ =>
    unfold moveHead
    simp only
    repeat' split
    all_goals rfl
  | was :: near :: next :: rest, _ =>
    unfold moveHead
    simp only
    repeat' split
    all_goals simp only [List.getLast?_cons_cons]

theorem length_moveHead {points : List XY} (h : 1 < points.length) (to' : XY) :
    1 < (moveHead points to').length := by
  match points, h with
  | [was, near], _ =>
    unfold moveHead
    simp only
    repeat' split
    all_goals simp
  | was :: near :: next :: rest, _ =>
    unfold moveHead
    simp only
    repeat' split
    all_goals simp

theorem atRightAngles_moveHead {points : List XY} {to' : XY} (h : AtRightAngles points)
    (hturns : Turns points to') : AtRightAngles (moveHead points to') := by
  match points with
  | [] => exact List.isChain_singleton _
  | [_] => exact List.isChain_singleton _
  | [was, near] =>
    have hfirst : Axial was near := List.isChain_pair.mp h
    unfold moveHead
    simp only
    by_cases hy : was.y = near.y
    · rw [if_pos hy]
      by_cases ht : to'.y = near.y
      · rw [if_pos ht]
        exact List.isChain_pair.mpr (.inr ht)
      · rw [if_neg ht]
        exact List.isChain_cons_cons.mpr ⟨.inr rfl, List.isChain_pair.mpr (.inl rfl)⟩
    · rw [if_neg hy, if_pos (hfirst.resolve_right hy)]
      by_cases ht : to'.x = near.x
      · rw [if_pos ht]
        exact List.isChain_pair.mpr (.inl ht)
      · rw [if_neg ht]
        exact List.isChain_cons_cons.mpr ⟨.inl rfl, List.isChain_pair.mpr (.inr rfl)⟩
  | was :: near :: next :: rest =>
    obtain ⟨hfirst, hrest⟩ := List.isChain_cons_cons.mp h
    obtain ⟨-, hrest⟩ := List.isChain_cons_cons.mp hrest
    unfold moveHead
    simp only
    by_cases hy : was.y = near.y
    · rw [Turns, if_pos hy] at hturns
      rw [if_pos hy]
      exact List.isChain_cons_cons.mpr ⟨.inr rfl, List.isChain_cons_cons.mpr ⟨hturns, hrest⟩⟩
    · rw [Turns, if_neg hy] at hturns
      rw [if_neg hy, if_pos (hfirst.resolve_right hy)]
      exact List.isChain_cons_cons.mpr
        ⟨.inl rfl, List.isChain_cons_cons.mpr ⟨hturns.symm, hrest⟩⟩

/-! ## Either end -/

theorem moveEnd_head (points : List XY) (to' : XY) : moveEnd points true to' = moveHead points to' :=
  if_pos rfl

theorem moveEnd_tail (points : List XY) (to' : XY) :
    moveEnd points false to' = (moveHead points.reverse to').reverse :=
  if_neg Bool.false_ne_true

theorem getLast_moveTail (points : List XY) (to' : XY) :
    (moveEnd points false to').getLast? = some to' := by
  rw [moveEnd_tail, List.getLast?_reverse, head_moveHead]

theorem head_moveTail {points : List XY} (h : 1 < points.length) (to' : XY) :
    (moveEnd points false to').head? = points.head? := by
  rw [moveEnd_tail, List.head?_reverse, getLast_moveHead (by rwa [List.length_reverse]),
    List.getLast?_reverse]

theorem atRightAngles_moveTail {points : List XY} {to' : XY} (h : AtRightAngles points)
    (hturns : Turns points.reverse to') : AtRightAngles (moveEnd points false to') := by
  rw [moveEnd_tail, atRightAngles_reverse]
  exact atRightAngles_moveHead (atRightAngles_reverse.mpr h) hturns

/-! ## Moving a whole wire -/

theorem head_shift (dx dy : Rat) (points : List XY) :
    (shift dx dy points).head? = points.head?.map fun p => ⟨p.x + dx, p.y + dy⟩ :=
  List.head?_map

theorem getLast_shift (dx dy : Rat) (points : List XY) :
    (shift dx dy points).getLast? = points.getLast?.map fun p => ⟨p.x + dx, p.y + dy⟩ :=
  List.getLast?_map

theorem atRightAngles_shift {dx dy : Rat} {points : List XY} (h : AtRightAngles points) :
    AtRightAngles (shift dx dy points) := by
  refine List.isChain_map_of_isChain _ (fun a b hab => ?_) h
  exact hab.imp (congrArg (· + dx)) (congrArg (· + dy))

end CircuitForge
