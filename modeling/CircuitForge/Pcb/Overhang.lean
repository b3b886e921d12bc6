/-
Shrinking the outline of a board.

The new outline keeps the clearance from what the bounds have counted, so a pad, a hole, a via, a
trace point or a courtyard hangs over exactly when the layout reader sees it reach further than
anything the bounds count.
-/
import CircuitForge.Pcb.Outline
import Mathlib.Tactic.Linarith
import Mathlib.Tactic.Ring

namespace CircuitForge.Outline

open Js

/-! ## The board element -/

section

variable {K : Type}

theorem putBoard_self {board : List (Element K)} {b : BoardElement K}
    (h : boardElement board = some b) : putBoard b board = board := by
  induction board with
  | nil => rfl
  | cons e board ih =>
    cases e with
    | board b' =>
      cases Option.some.inj h
      rfl
    | _ => exact congrArg _ (ih h)

theorem boardElement_putBoard {board : List (Element K)} {b b' : BoardElement K}
    (h : boardElement board = some b) : boardElement (putBoard b' board) = some b' := by
  induction board with
  | nil => cases h
  | cons e board ih =>
    cases e with
    | board b'' => rfl
    | _ => exact ih h

/-- The board element is replaced where it stands. -/
theorem putBoard_splits {board : List (Element K)} {b : BoardElement K} (b' : BoardElement K)
    (h : boardElement board = some b) :
    ∃ pre post, board = pre ++ .board b :: post ∧ putBoard b' board = pre ++ .board b' :: post := by
  induction board with
  | nil => cases h
  | cons e board ih =>
    cases e with
    | board b'' =>
      cases Option.some.inj h
      exact ⟨[], board, rfl, rfl⟩
    | _ =>
      obtain ⟨pre, post, hboard, hput⟩ := ih h
      exact ⟨_ :: pre, post, congrArg _ hboard, congrArg _ hput⟩

end

section

variable {K : Type} [Field K] [LinearOrder K]

/-! ## What the bounds count -/

def Stamp.reach (s : Stamp K) : Axis → K
  | .x => s.halfW
  | .y => s.halfH

/-- What an `add` takes up along an axis. -/
def Stamp.span (ax : Axis) (s : Stamp K) : Option (Span K) :=
  match s.place.x.toNumber, s.place.y.toNumber with
  | some nx, some ny =>
    match ax with
    | .x => some ⟨nx - s.halfW, nx + s.halfW⟩
    | .y => some ⟨ny - s.halfH, ny + s.halfH⟩
  | _, _ => none

def Element.counted (ax : Axis) (e : Element K) : List (Span K) :=
  e.stamps.filterMap (Stamp.span ax)

/-- What the bounds count along an axis. -/
def counted (ax : Axis) (board : List (Element K)) : List (Span K) :=
  board.flatMap (Element.counted ax)

def Bounds.on (b : Bounds K) : Axis → Span K
  | .x => ⟨b.minX, b.maxX⟩
  | .y => ⟨b.minY, b.maxY⟩

theorem add_on (ax : Axis) (bounds : Option (Bounds K)) (s : Stamp K) :
    (add bounds s).map (Bounds.on · ax) =
      match s.span ax with
      | none => bounds.map (Bounds.on · ax)
      | some span => Span.widen (bounds.map (Bounds.on · ax)) span := by
  unfold add Stamp.span
  cases s.place.x.toNumber with
  | none => rfl
  | some nx =>
    cases s.place.y.toNumber with
    | none => rfl
    | some ny => cases bounds <;> cases ax <;> rfl

theorem stamps_on (ax : Axis) (stamps : List (Stamp K)) (bounds : Option (Bounds K)) :
    (stamps.foldl add bounds).map (Bounds.on · ax) =
      (stamps.filterMap (Stamp.span ax)).foldl Span.widen (bounds.map (Bounds.on · ax)) := by
  induction stamps generalizing bounds with
  | nil => rfl
  | cons s stamps ih =>
    rw [List.foldl_cons, ih, add_on, List.filterMap_cons]
    cases s.span ax <;> rfl

/-- The bounds of the content are the bounds of what is counted. -/
theorem contentBounds_on (ax : Axis) (board : List (Element K)) :
    (contentBounds board).map (Bounds.on · ax) = Span.bounds (counted ax board) := by
  have hfold : ∀ bounds : Option (Bounds K),
      (board.foldl (fun bounds e => e.stamps.foldl add bounds) bounds).map (Bounds.on · ax) =
        (counted ax board).foldl Span.widen (bounds.map (Bounds.on · ax)) := by
    induction board with
    | nil => exact fun _ => rfl
    | cons e board ih =>
      intro bounds
      have hcounted : counted ax (e :: board) = e.counted ax ++ counted ax board := rfl
      rw [List.foldl_cons, ih, stamps_on, hcounted, List.foldl_append]
      rfl
  exact hfold none

/-! ## The new outline -/

/-- The content leaves slack along an axis: two of its ends are never so far apart that the
outline is needed, with the clearance on both sides. -/
def Loose (board : List (Element K)) (clearance : K) (ax : Axis) : Prop :=
  ∃ b, boardElement board = some b ∧ b.customOutline = false ∧ counted ax board ≠ [] ∧
    ∀ p ∈ counted ax board, ∀ q ∈ counted ax board, q.hi - p.lo + (2 : ℕ) * clearance < b.size ax

/-- An axis is tightened around the content. -/
def Tightened (board : List (Element K)) (clearance : K) (ax : Axis) (content : Span K) : Prop :=
  ∃ b, boardElement board = some b ∧ b.customOutline = false ∧
    Span.bounds (counted ax board) = some content ∧
    content.hi - content.lo + (2 : ℕ) * clearance < b.size ax

/-- A board element along an axis behind the shrink of a board. -/
structure Fitted (board : List (Element K)) (clearance : K) (b b' : BoardElement K) : Prop where
  outline : b'.customOutline = b.customOutline
  tight : ∀ ax content, Tightened board clearance ax content →
    b'.size ax = content.hi - content.lo + (2 : ℕ) * clearance ∧
      b'.middle ax = halved (content.lo + content.hi)
  untouched : ∀ ax, (∀ content, ¬ Tightened board clearance ax content) →
    b'.size ax = b.size ax ∧ b'.middle ax = b.middle ax

theorem counted_putBoard (ax : Axis) (b : BoardElement K) (board : List (Element K)) :
    counted ax (putBoard b board) = counted ax board := by
  induction board with
  | nil => rfl
  | cons e board ih =>
    have hcons : ∀ es : List (Element K), counted ax (e :: es) = e.counted ax ++ counted ax es :=
      fun _ => rfl
    cases e with
    | board b' => rfl
    | _ =>
      rw [putBoard, hcons, hcons, ih]
      exact fun b' h => nomatch h

/-- The two axes of a shrink. -/
theorem shrink_of_bounds {board : List (Element K)} (clearance : K) {b : BoardElement K}
    {box : Bounds K} (hb : boardElement board = some b) (hplain : b.customOutline = false)
    (hbox : contentBounds board = some box) :
    ∃ b', shrinkBoardToContent board clearance = putBoard b' board ∧
      b'.customOutline = b.customOutline ∧ ∀ ax,
        (b'.size ax, b'.middle ax) =
          (axis (box.on ax).lo (box.on ax).hi (b.size ax) clearance).getD
            (b.size ax, b.middle ax) := by
  unfold shrinkBoardToContent
  rw [hb]
  simp only [hplain, Bool.false_eq_true, if_false, hbox]
  cases hx : axis box.minX box.maxX (b.width.getD 0) clearance with
  | none =>
    cases hy : axis box.minY box.maxY (b.height.getD 0) clearance with
    | none =>
      refine ⟨b, (putBoard_self hb).symm, hplain, fun ax => ?_⟩
      cases ax with
      | x => exact (congrArg (Option.getD · (b.size .x, b.middle .x)) hx).symm
      | y => exact (congrArg (Option.getD · (b.size .y, b.middle .y)) hy).symm
    | some y =>
      refine ⟨_, rfl, rfl, fun ax => ?_⟩
      cases ax with
      | x => exact (congrArg (Option.getD · (b.size .x, b.middle .x)) hx).symm
      | y => exact (congrArg (Option.getD · (b.size .y, b.middle .y)) hy).symm
  | some x =>
    refine ⟨_, rfl, rfl, fun ax => ?_⟩
    cases ax with
    | x => exact (congrArg (Option.getD · (b.size .x, b.middle .x)) hx).symm
    | y =>
      cases hy : axis box.minY box.maxY (b.height.getD 0) clearance with
      | none => exact (congrArg (Option.getD · (b.size .y, b.middle .y)) hy).symm
      | some y => exact (congrArg (Option.getD · (b.size .y, b.middle .y)) hy).symm

/-- The shrink fits the board element to the content. -/
theorem shrink_fitted {board : List (Element K)} (clearance : K) {b : BoardElement K}
    (hb : boardElement board = some b) :
    ∃ b', shrinkBoardToContent board clearance = putBoard b' board ∧
      Fitted board clearance b b' := by
  by_cases hopen : b.customOutline = false ∧ (contentBounds board).isSome
  · obtain ⟨hplain, hsome⟩ := hopen
    obtain ⟨box, hbox⟩ := Option.isSome_iff_exists.mp hsome
    have hcontent : ∀ ax, Span.bounds (counted ax board) = some (box.on ax) := fun ax => by
      rw [← contentBounds_on, hbox]
      rfl
    obtain ⟨b', heq, houtline, haxis⟩ := shrink_of_bounds clearance hb hplain hbox
    refine ⟨b', heq, houtline, fun ax content ht => ?_, fun ax hno => ?_⟩
    · obtain ⟨b₁, hb₁, -, hbounds, hless⟩ := ht
      cases hb.symm.trans hb₁
      cases (hcontent ax).symm.trans hbounds
      have := haxis ax
      rw [axis, if_pos hless] at this
      exact Prod.mk.inj this
    · have hnot : ¬ (box.on ax).hi - (box.on ax).lo + (2 : ℕ) * clearance < b.size ax :=
        fun hless => hno _ ⟨b, hb, hplain, hcontent ax, hless⟩
      have := haxis ax
      rw [axis, if_neg hnot] at this
      exact Prod.mk.inj this
  · have hsame : shrinkBoardToContent board clearance = board := by
      unfold shrinkBoardToContent
      rw [hb]
      cases hcustom : b.customOutline with
      | true => simp only [hcustom, if_true]
      | false =>
        have hnone : contentBounds board = none :=
          Option.not_isSome_iff_eq_none.mp fun h => hopen ⟨hcustom, h⟩
        simp only [hcustom, hnone, Bool.false_eq_true, if_false]
    refine ⟨b, hsame.trans (putBoard_self hb).symm, rfl, fun ax content ht => ?_, fun _ _ =>
      ⟨rfl, rfl⟩⟩
    obtain ⟨b₁, hb₁, hplain, hbounds, -⟩ := ht
    cases hb.symm.trans hb₁
    refine absurd ⟨hplain, ?_⟩ hopen
    rw [← contentBounds_on] at hbounds
    rw [← Option.isSome_map, hbounds]
    rfl

/-! ## What the layout reader sees -/

def Land.size (l : Land K) : Axis → K
  | .x => l.wMm
  | .y => l.hMm

/-- The extents of the pads, the holes, the trace points and the vias of an element. -/
def Element.extents (ax : Axis) (e : Element K) : List (Span K) :=
  e.pads.map (Land.extent ax) ++ e.segments.flatMap (Segment.extents ax) ++
    e.vias.map (Land.extent ax)

/-- The layout reader sees an element reach further than the bounds count it. -/
def Element.Misread (ax : Axis) (e : Element K) : Prop :=
  ∃ s ∈ e.extents ax, ¬ s.Between (e.counted ax)

theorem mem_extents {board : List (Element K)} {ax : Axis} {s : Span K} :
    s ∈ (shapeLayoutResult board).extents ax ↔
      (∃ e ∈ board, s ∈ e.extents ax) ∨
        ∃ e ∈ board, ∃ p ∈ e.courtyard (courtyards board), s = p.extent ax := by
  simp only [Layout.extents, shapeLayoutResult, Element.extents, List.mem_append, List.mem_map,
    List.mem_flatMap, List.mem_flatten]
  constructor
  · rintro (((⟨l, ⟨e, he, hl⟩, rfl⟩ | ⟨g, ⟨e, he, hg⟩, hs⟩) | ⟨l, ⟨e, he, hl⟩, rfl⟩) |
      ⟨p, ⟨_, ⟨e, he, rfl⟩, hp⟩, rfl⟩)
    · exact Or.inl ⟨e, he, Or.inl (Or.inl ⟨l, hl, rfl⟩)⟩
    · exact Or.inl ⟨e, he, Or.inl (Or.inr ⟨g, hg, hs⟩)⟩
    · exact Or.inl ⟨e, he, Or.inr ⟨l, hl, rfl⟩⟩
    · exact Or.inr ⟨e, he, p, hp, rfl⟩
  · rintro (⟨e, he, (⟨l, hl, rfl⟩ | ⟨g, hg, hs⟩) | ⟨l, hl, rfl⟩⟩ | ⟨e, he, p, hp, rfl⟩)
    · exact Or.inl (Or.inl (Or.inl ⟨l, ⟨e, he, hl⟩, rfl⟩))
    · exact Or.inl (Or.inl (Or.inr ⟨g, ⟨e, he, hg⟩, hs⟩))
    · exact Or.inl (Or.inr ⟨l, ⟨e, he, hl⟩, rfl⟩)
    · exact Or.inr ⟨p, ⟨_, ⟨e, he, rfl⟩, hp⟩, rfl⟩

theorem mem_counted {board : List (Element K)} {ax : Axis} {e : Element K} (he : e ∈ board)
    {s : Span K} (hs : s.Between (e.counted ax)) : s.Between (counted ax board) :=
  hs.mono fun _ ht => List.mem_flatMap.mpr ⟨e, he, ht⟩

/-! ### Courtyards -/

omit [LinearOrder K] in
theorem toNumber_of_num {v : Value K} {x : K} (h : v.num = some x) : v.toNumber = some x := by
  cases v with
  | number y => exact h
  | _ => cases h

omit [Field K] [LinearOrder K] in
theorem coordinates_of_pt {place : Place K} {p : Pt K} (h : place.pt = some p) :
    place.x.num = some p.x ∧ place.y.num = some p.y := by
  unfold Place.pt at h
  cases hx : place.x.num with
  | none =>
    rw [hx] at h
    cases h
  | some x =>
    cases hy : place.y.num with
    | none =>
      rw [hx, hy] at h
      cases h
    | some y =>
      rw [hx, hy] at h
      cases h
      exact ⟨rfl, rfl⟩

omit [Field K] in
theorem dedupeFrom_subset (last : Option (Pt K)) (points : List (Pt K)) {p : Pt K}
    (hp : p ∈ dedupeFrom last points) : p ∈ points := by
  induction points generalizing last with
  | nil => cases hp
  | cons q points ih =>
    unfold dedupeFrom at hp
    split at hp
    · exact List.mem_cons_of_mem _ (ih _ hp)
    · rcases List.mem_cons.mp hp with rfl | hp
      · exact List.mem_cons_self
      · exact List.mem_cons_of_mem _ (ih _ hp)

theorem mem_getD_nil {α : Type} {o : Option (List α)} {a : α} :
    a ∈ o.getD [] ↔ ∃ l, o = some l ∧ a ∈ l := by
  cases o with
  | none => exact ⟨fun h => (List.not_mem_nil h).elim, fun ⟨_, h, _⟩ => nomatch h⟩
  | some l => exact ⟨fun h => ⟨l, rfl, h⟩, fun ⟨_, h, ha⟩ => Option.some.inj h ▸ ha⟩

omit [Field K] in
/-- The outlines leave the courtyards that are there, and add points of theirs. -/
theorem get?_addOutline {board : List (Element K)} {m : Map Text (List (Pt K))} {pid : Text}
    {points : List (Pt K)} :
    (m.get? pid = some points → (board.foldl addOutline m).get? pid = some points) ∧
      ((board.foldl addOutline m).get? pid = some points →
        m.get? pid = some points ∨
          ∃ o, .courtyardOutline o ∈ board ∧ ∀ p ∈ points, p ∈ o.points) := by
  induction board generalizing m with
  | nil => exact ⟨id, Or.inl⟩
  | cons e board ih =>
    rw [List.foldl_cons]
    have hstep : (m.get? pid = some points → (addOutline m e).get? pid = some points) ∧
        ((addOutline m e).get? pid = some points → m.get? pid = some points ∨
          ∃ o, e = .courtyardOutline o ∧ ∀ p ∈ points, p ∈ o.points) := by
      cases e with
      | courtyardOutline o =>
        cases hpresent : present o.component with
        | none =>
          have hadd : addOutline m (.courtyardOutline o) = m := by simp only [addOutline, hpresent]
          rw [hadd]
          exact ⟨id, Or.inl⟩
        | some pid' =>
          have hadd : addOutline m (.courtyardOutline o) =
              if o.points ≠ [] ∧ m.has pid' = false then m.set pid' (dedupeFrom none o.points)
              else m := by
            simp only [addOutline, hpresent]
          rw [hadd]
          by_cases hnew : o.points ≠ [] ∧ m.has pid' = false
          · rw [if_pos hnew]
            by_cases hpid : pid' = pid
            · subst hpid
              rw [Map.get?_set_self]
              refine ⟨fun hm => ?_, fun hp => Or.inr ⟨o, rfl, ?_⟩⟩
              · rw [Map.has, hm] at hnew
                cases hnew.2
              · cases hp
                exact fun p hp => dedupeFrom_subset none o.points hp
            · rw [Map.get?_set_ne hpid]
              exact ⟨id, Or.inl⟩
          · rw [if_neg hnew]
            exact ⟨id, Or.inl⟩
      | _ => exact ⟨id, Or.inl⟩
    refine ⟨fun hm => ih.1 (hstep.1 hm), fun hp => ?_⟩
    rcases ih.2 hp with hp | ⟨o, ho, hsub⟩
    · rcases hstep.2 hp with hm | ⟨o, rfl, hsub⟩
      · exact Or.inl hm
      · exact Or.inr ⟨o, List.mem_cons_self, hsub⟩
    · exact Or.inr ⟨o, List.mem_cons_of_mem _ ho, hsub⟩

/-- A courtyard that is drawn by an outline is counted. -/
theorem outline_counted {board : List (Element K)} {o : CourtyardOutline K}
    (ho : .courtyardOutline o ∈ board) {p : Pt K} (hp : p ∈ o.points) (ax : Axis) :
    (p.extent ax).Between (counted ax board) := by
  obtain ⟨place, hplace, hpt⟩ := List.mem_filterMap.mp hp
  obtain ⟨hx, hy⟩ := coordinates_of_pt hpt
  have hspan : (⟨place, 0, 0⟩ : Stamp K).span ax = some (p.extent ax) := by
    unfold Stamp.span
    rw [toNumber_of_num hx, toNumber_of_num hy]
    cases ax
    · simp only [sub_zero, add_zero, Pt.extent, Pt.on]
    · simp only [sub_zero, add_zero, Pt.extent, Pt.on]
  have hmem : p.extent ax ∈ counted ax board :=
    List.mem_flatMap.mpr ⟨_, ho, List.mem_filterMap.mpr ⟨_, List.mem_map_of_mem hplace, hspan⟩⟩
  exact ⟨⟨_, hmem, le_refl _⟩, _, hmem, le_refl _⟩

/-- Each courtyard is drawn by a rectangle, or counted. -/
theorem courtyard_cases {board : List (Element K)} {e : Element K} {p : Pt K}
    (hp : p ∈ e.courtyard (courtyards board)) :
    p ∈ e.courtyard (rectCourtyards board) ∨ ∀ ax, (p.extent ax).Between (counted ax board) := by
  cases e with
  | component id =>
    obtain ⟨points, hpoints, hmem⟩ := mem_getD_nil.mp hp
    obtain ⟨pid, rfl, hget⟩ := Option.bind_eq_some_iff.mp hpoints
    rcases get?_addOutline.2 hget with hrect | ⟨o, ho, hsub⟩
    · exact Or.inl (mem_getD_nil.mpr ⟨points, hrect, hmem⟩)
    · exact Or.inr (outline_counted ho (hsub p hmem))
  | _ => cases hp

theorem courtyard_of_rect {board : List (Element K)} {e : Element K} {p : Pt K}
    (hp : p ∈ e.courtyard (rectCourtyards board)) : p ∈ e.courtyard (courtyards board) := by
  cases e with
  | component id =>
    obtain ⟨points, hpoints, hmem⟩ := mem_getD_nil.mp hp
    obtain ⟨pid, rfl, hget⟩ := Option.bind_eq_some_iff.mp hpoints
    exact mem_getD_nil.mpr ⟨points, get?_addOutline.1 hget, hmem⟩
  | _ => cases hp

end

/-! ## Shrinking cuts nothing off -/

section

variable {K : Type} [Field K] [LinearOrder K]

/-- The board is the same but for the size and the centre of its board element. -/
def OnlyOutline (board out : List (Element K)) : Prop :=
  out = board ∨ ∃ pre b b' post, board = pre ++ .board b :: post ∧ out = pre ++ .board b' :: post ∧
    b'.customOutline = b.customOutline

/-- What a shrink is for: no axis grows, nothing but the board element changes, a second shrink
changes nothing, and along an axis that gets shorter the clearance remains between the new outline
and everything the layout reader sees. -/
structure KeepsContent (board : List (Element K)) (clearance : K) : Prop where
  neverLarger : ∀ b b', boardElement board = some b →
    boardElement (shrinkBoardToContent board clearance) = some b' → ∀ ax, b'.size ax ≤ b.size ax
  onlyOutline : OnlyOutline board (shrinkBoardToContent board clearance)
  idempotent : shrinkBoardToContent (shrinkBoardToContent board clearance) clearance =
    shrinkBoardToContent board clearance
  inside : ∀ b b', boardElement board = some b →
    boardElement (shrinkBoardToContent board clearance) = some b' → ∀ ax, b'.size ax < b.size ax →
      ∀ s ∈ (shapeLayoutResult board).extents ax,
        (b'.extent ax).lo + clearance ≤ s.lo ∧ s.hi ≤ (b'.extent ax).hi - clearance

/-- The two readers agree well enough: along each axis with slack, what the layout reader sees
reach further than the bounds count it, and the corners of the courtyard rectangles, which the
bounds do not count at all, lie between ends of other content. -/
def Understood (board : List (Element K)) (clearance : K) : Prop :=
  ∀ ax, Loose board clearance ax →
    (∀ e ∈ board, e.Misread ax → ∀ s ∈ e.extents ax, s.Between (counted ax board)) ∧
      ∀ e ∈ board, ∀ p ∈ e.courtyard (rectCourtyards board),
        (p.extent ax).Between (counted ax board)

theorem understood_iff {board : List (Element K)} {clearance : K} :
    Understood board clearance ↔ ∀ ax, Loose board clearance ax →
      ∀ s ∈ (shapeLayoutResult board).extents ax, s.Between (counted ax board) := by
  refine forall₂_congr fun ax _ => ⟨fun ⟨helements, hrects⟩ s hs => ?_, fun hall => ⟨?_, ?_⟩⟩
  · rcases mem_extents.mp hs with ⟨e, he, hs⟩ | ⟨e, he, p, hp, rfl⟩
    · by_cases hread : e.Misread ax
      · exact helements e he hread s hs
      · exact mem_counted he (by_contra fun hnot => hread ⟨s, hs, hnot⟩)
    · rcases courtyard_cases hp with hrect | hcounted
      · exact hrects e he p hrect
      · exact hcounted ax
  · exact fun e he _ s hs => hall s (mem_extents.mpr (Or.inl ⟨e, he, hs⟩))
  · exact fun e he p hp =>
      hall _ (mem_extents.mpr (Or.inr ⟨e, he, p, courtyard_of_rect hp, rfl⟩))

section

variable {board : List (Element K)} {clearance : K} {b b' : BoardElement K}

theorem Fitted.size_le (hfit : Fitted board clearance b b') (hb : boardElement board = some b)
    (ax : Axis) : b'.size ax ≤ b.size ax := by
  by_cases htight : ∃ content, Tightened board clearance ax content
  · obtain ⟨content, ht⟩ := htight
    rw [(hfit.tight ax content ht).1]
    obtain ⟨b₁, hb₁, -, -, hless⟩ := ht
    cases hb.symm.trans hb₁
    exact hless.le
  · exact (hfit.untouched ax (not_exists.mp htight)).1.le

/-- An axis gets shorter when it has slack. -/
theorem Fitted.shorter_iff (hfit : Fitted board clearance b b') (hb : boardElement board = some b)
    (ax : Axis) : b'.size ax < b.size ax ↔ ∃ content, Tightened board clearance ax content := by
  constructor
  · intro hless
    by_contra hno
    exact hless.ne (hfit.untouched ax (not_exists.mp hno)).1
  · rintro ⟨content, ht⟩
    rw [(hfit.tight ax content ht).1]
    obtain ⟨b₁, hb₁, -, -, hless⟩ := ht
    cases hb.symm.trans hb₁
    exact hless

/-- Where no axis has slack the board stays as it is. -/
theorem shrink_untouched (hno : ∀ ax content, ¬ Tightened board clearance ax content) :
    shrinkBoardToContent board clearance = board := by
  unfold shrinkBoardToContent
  cases hb : boardElement board with
  | none => rfl
  | some b =>
    cases hcustom : b.customOutline with
    | true => simp only [hcustom, if_true]
    | false =>
      cases hbox : contentBounds board with
      | none => simp only [hcustom, Bool.false_eq_true, if_false]
      | some box =>
        have hcontent : ∀ ax, Span.bounds (counted ax board) = some (box.on ax) := fun ax => by
          rw [← contentBounds_on, hbox]
          rfl
        have hnone : ∀ ax, axis (box.on ax).lo (box.on ax).hi (b.size ax) clearance = none :=
          fun ax => if_neg fun hless => hno ax _ ⟨b, hb, hcustom, hcontent ax, hless⟩
        have hx : axis box.minX box.maxX (b.width.getD 0) clearance = none := hnone .x
        have hy : axis box.minY box.maxY (b.height.getD 0) clearance = none := hnone .y
        simp only [hcustom, Bool.false_eq_true, if_false, hx, hy]

/-- A board that was fitted has no slack. -/
theorem Fitted.no_slack (hfit : Fitted board clearance b b') (hb : boardElement board = some b)
    (ax : Axis) (content : Span K) : ¬ Tightened (putBoard b' board) clearance ax content := by
  rintro ⟨b₁, hb₁, hplain, hcontent, hless⟩
  cases (boardElement_putBoard hb).symm.trans hb₁
  rw [counted_putBoard] at hcontent
  by_cases htight : ∃ content, Tightened board clearance ax content
  · obtain ⟨content', ht⟩ := htight
    have hsize := (hfit.tight ax content' ht).1
    obtain ⟨-, -, -, hcontent', -⟩ := ht
    cases hcontent.symm.trans hcontent'
    exact hless.ne hsize.symm
  · rw [(hfit.untouched ax (not_exists.mp htight)).1] at hless
    exact htight ⟨content, b, hb, hfit.outline ▸ hplain, hcontent, hless⟩

theorem shrink_idempotent :
    shrinkBoardToContent (shrinkBoardToContent board clearance) clearance =
      shrinkBoardToContent board clearance := by
  cases hb : boardElement board with
  | none =>
    have hsame : shrinkBoardToContent board clearance = board := by
      unfold shrinkBoardToContent
      rw [hb]
    rw [hsame, hsame]
  | some b =>
    obtain ⟨b', heq, hfit⟩ := shrink_fitted clearance hb
    rw [heq]
    exact shrink_untouched (hfit.no_slack hb)

theorem shrink_onlyOutline : OnlyOutline board (shrinkBoardToContent board clearance) := by
  cases hb : boardElement board with
  | none =>
    refine Or.inl ?_
    unfold shrinkBoardToContent
    rw [hb]
  | some b =>
    obtain ⟨b', heq, hfit⟩ := shrink_fitted clearance hb
    obtain ⟨pre, post, hboard, hput⟩ := putBoard_splits b' hb
    exact Or.inr ⟨pre, b, b', post, hboard, heq.trans hput, hfit.outline⟩

section

variable [IsStrictOrderedRing K]

/-- An axis has slack when it is tightened. -/
theorem loose_iff {ax : Axis} :
    Loose board clearance ax ↔ ∃ content, Tightened board clearance ax content := by
  constructor
  · rintro ⟨b, hb, hplain, hne, hslack⟩
    obtain ⟨content, hcontent⟩ := Option.ne_none_iff_exists'.mp (mt Span.bounds_eq_none.mp hne)
    obtain ⟨⟨l, hl, hlo⟩, u, hu, hhi⟩ := Span.ends_of_bounds hcontent
    have hless := hslack l hl u hu
    rw [hlo, hhi] at hless
    exact ⟨content, b, hb, hplain, hcontent, hless⟩
  · rintro ⟨content, b, hb, hplain, hcontent, hless⟩
    have hne : counted ax board ≠ [] := fun hnil =>
      Option.some_ne_none content (hcontent.symm.trans (Span.bounds_eq_none.mpr hnil))
    refine ⟨b, hb, hplain, hne, fun p hp q hq => ?_⟩
    have hlo := (Span.within_bounds hcontent hp).1
    have hhi := (Span.within_bounds hcontent hq).2
    linarith

/-- The clearance remains around what lies within the content. -/
theorem Fitted.clear_iff (hfit : Fitted board clearance b b') {ax : Axis} {content : Span K}
    (ht : Tightened board clearance ax content) (s : Span K) :
    ((b'.extent ax).lo + clearance ≤ s.lo ∧ s.hi ≤ (b'.extent ax).hi - clearance) ↔
      s.Between (counted ax board) := by
  obtain ⟨hsize, hmiddle⟩ := hfit.tight ax content ht
  obtain ⟨-, -, -, hcontent, -⟩ := ht
  have hlo : (b'.extent ax).lo + clearance = content.lo := by
    show b'.middle ax - halved (b'.size ax) + clearance = content.lo
    rw [hsize, hmiddle, halved_eq, halved_eq]
    push_cast
    ring
  have hhi : (b'.extent ax).hi - clearance = content.hi := by
    show b'.middle ax + halved (b'.size ax) - clearance = content.hi
    rw [hsize, hmiddle, halved_eq, halved_eq]
    push_cast
    ring
  rw [hlo, hhi]
  exact Span.within_bounds_iff hcontent

end

end

/-! ## Where the readers agree -/

section

variable [IsStrictOrderedRing K]

omit [IsStrictOrderedRing K] in
theorem half_of_pos {size radius : Value K} {x : K} (h : size.toNumber = some x) (hpos : 0 < x) :
    half size radius = halved x := by
  rw [half, h, Option.filter_some, if_pos (decide_eq_true hpos)]

theorem half_nonneg (size radius : Value K) : 0 ≤ half size radius := by
  unfold half
  cases hs : size.toNumber.filter (0 < ·) with
  | some s => exact halved_nonneg (of_decide_eq_true (Option.filter_eq_some_iff.mp hs).2).le
  | none =>
    cases hr : radius.toNumber.filter (0 < ·) with
    | some r => exact (of_decide_eq_true (Option.filter_eq_some_iff.mp hr).2).le
    | none => exact le_refl _

/-- What the bounds take for half of a size is at least half of what the layout reader takes. -/
theorem halved_le_half (size radius : Value K) : halved (size.num.getD 0) ≤ half size radius := by
  have hnonpos : ∀ x : K, x ≤ 0 → halved x ≤ half size radius := fun x hx => by
    refine le_trans ?_ (half_nonneg size radius)
    rw [halved_eq]
    exact div_nonpos_of_nonpos_of_nonneg hx zero_le_two
  cases size with
  | number x =>
    rcases lt_or_ge 0 x with hpos | hx
    · exact (half_of_pos rfl hpos).ge
    · exact hnonpos x hx
  | _ => exact hnonpos 0 le_rfl

omit [LinearOrder K] [IsStrictOrderedRing K] in
theorem orZero_of_pt {place : Place K} {p : Pt K} (h : place.pt = some p) : place.orZero = p := by
  obtain ⟨hx, hy⟩ := coordinates_of_pt h
  rw [Place.orZero, hx, hy]
  rfl

omit [LinearOrder K] [IsStrictOrderedRing K] in
theorem span_of_pt {s : Stamp K} {p : Pt K} (h : s.place.pt = some p) (ax : Axis) :
    s.span ax = some ⟨p.on ax - s.reach ax, p.on ax + s.reach ax⟩ := by
  obtain ⟨hx, hy⟩ := coordinates_of_pt h
  unfold Stamp.span
  rw [toNumber_of_num hx, toNumber_of_num hy]
  cases ax <;> rfl

/-- A span around a point is counted by a stamp there exactly when it reaches no further. -/
theorem around_counted_iff {s : Stamp K} {p : Pt K} (h : s.place.pt = some p) (ax : Axis) (r : K) :
    (⟨p.on ax - r, p.on ax + r⟩ : Span K).Between ([s].filterMap (Stamp.span ax)) ↔
      r ≤ s.reach ax := by
  rw [List.filterMap_cons_some (span_of_pt h ax), List.filterMap_nil]
  constructor
  · rintro ⟨-, b, hb, hhi⟩
    cases List.mem_singleton.mp hb
    exact le_of_add_le_add_left hhi
  · intro hr
    exact ⟨⟨_, List.mem_cons_self, sub_le_sub_left hr _⟩, _, List.mem_cons_self,
      (add_le_add_iff_left _).mpr hr⟩

omit [LinearOrder K] [IsStrictOrderedRing K] in
theorem extent_around (l : Land K) (ax : Axis) :
    l.extent ax = ⟨l.place.on ax - halved (l.size ax), l.place.on ax + halved (l.size ax)⟩ := by
  cases ax <;> rfl

/-- An element that is one pad and one stamp at its place is misread exactly when the pad reaches
further. -/
theorem misread_iff_of_land {e : Element K} {s : Stamp K} {l : Land K} {ax : Axis}
    (hstamps : e.stamps = [s]) (hextents : e.extents ax = [l.extent ax])
    (hat : s.place.pt = some l.place) : e.Misread ax ↔ s.reach ax < halved (l.size ax) := by
  have hcounted : (l.extent ax).Between (e.counted ax) ↔ halved (l.size ax) ≤ s.reach ax := by
    rw [Element.counted, hstamps, extent_around]
    exact around_counted_iff hat ax _
  unfold Element.Misread
  rw [hextents, ← not_le, ← hcounted]
  constructor
  · rintro ⟨_, hs, hnot⟩
    cases List.mem_singleton.mp hs
    exact hnot
  · exact fun hnot => ⟨_, List.mem_cons_self, hnot⟩

/-- A pad with numbers for its coordinates is read alike. -/
theorem smtpad_read {p : Smtpad K} {c : Pt K} (hat : p.place.pt = some c) (ax : Axis) :
    ¬ (Element.smtpad p).Misread ax := by
  have hplace : p.land.place = c := orZero_of_pt hat
  rw [misread_iff_of_land (s := ⟨p.place, half p.width p.radius, half p.height p.radius⟩)
    (l := p.land) rfl rfl (hat.trans (congrArg some hplace.symm)), not_lt]
  cases ax with
  | x => exact halved_le_half p.width p.radius
  | y => exact halved_le_half p.height p.radius

/-- So is a via. -/
theorem via_read {place : Place K} {outerDiameter : Value K} {c : Pt K} (hat : place.pt = some c)
    (ax : Axis) : ¬ (Element.via place outerDiameter).Misread ax := by
  have hplace : place.orZero = c := orZero_of_pt hat
  rw [misread_iff_of_land
    (s := ⟨place, half outerDiameter .missing, half outerDiameter .missing⟩)
    (l := ⟨place.orZero, outerDiameter.num.getD 0, outerDiameter.num.getD 0⟩) rfl rfl
    (hat.trans (congrArg some hplace.symm)), not_lt]
  cases ax with
  | x => exact halved_le_half outerDiameter .missing
  | y => exact halved_le_half outerDiameter .missing

/-- A plated hole is misread when its pad is larger than the fields that the bounds take. -/
theorem platedHole_misread_iff {h : Hole K} {c : Pt K} (hat : h.place.pt = some c) (ax : Axis) :
    (Element.platedHole h).Misread ax ↔ h.stamp.reach ax < halved (h.land.size ax) := by
  have hplace : h.land.place = c := orZero_of_pt hat
  exact misread_iff_of_land rfl rfl (hat.trans (congrArg some hplace.symm))

/-- A round plated hole is read alike. -/
theorem platedHole_round {h : Hole K} {c : Pt K} (hat : h.place.pt = some c)
    (hpad : h.rectPadWidth.num = none ∧ h.rectPadHeight.num = none)
    (hwidth : h.outerWidth = .missing ∧ h.outerHeight = .missing)
    (houter : h.outerDiameter = .missing ∨ h.outerDiameter.num ≠ none) (ax : Axis) :
    ¬ (Element.platedHole h).Misread ax := by
  rw [platedHole_misread_iff hat, not_lt]
  have hround : halved ((h.outerDiameter.num <|> h.holeDiameter.num).getD 0) ≤
      half (h.outerDiameter.orElse h.holeDiameter) .missing := by
    rcases houter with hmissing | hnumber
    · rw [hmissing]
      exact halved_le_half h.holeDiameter .missing
    · obtain ⟨x, hx⟩ := Option.ne_none_iff_exists'.mp hnumber
      cases hd : h.outerDiameter with
      | number y => exact halved_le_half (.number y) .missing
      | _ =>
        rw [hd] at hx
        cases hx
  have hnone : half (.missing : Value K) .missing = 0 := rfl
  cases ax with
  | x =>
    show halved (h.rectPadWidth.num.getD _) ≤ nonzeroOr (half h.outerWidth .missing) _
    rw [hpad.1, hwidth.1, hnone, nonzeroOr, if_pos rfl]
    exact hround
  | y =>
    show halved (h.rectPadHeight.num.getD _) ≤ nonzeroOr (half h.outerHeight .missing) _
    rw [hpad.2, hwidth.2, hnone, nonzeroOr, if_pos rfl]
    exact hround

omit [LinearOrder K] [IsStrictOrderedRing K] in
/-- The segments of a route of one width have that width, and points of the route. -/
theorem segmentsFrom_of_width {w : K} {all : List (RoutePoint K)} (route : List (RoutePoint K))
    (hsub : ∀ p ∈ route, p ∈ all) (hwidth : ∀ p ∈ all, p.width.num.getD 0 = w)
    (cur : Option (Segment K))
    (hcur : ∀ s ∈ cur, s.widthMm = w ∧ ∀ q ∈ s.points, ∃ p ∈ all, p.place.pt = some q) :
    ∀ s ∈ segmentsFrom cur route,
      s.widthMm = w ∧ ∀ q ∈ s.points, ∃ p ∈ all, p.place.pt = some q := by
  induction route generalizing cur with
  | nil => exact fun s hs => hcur s (Option.mem_toList.mp hs)
  | cons p route ih =>
    have hrest : ∀ q ∈ route, q ∈ all := fun q hq => hsub q (List.mem_cons_of_mem _ hq)
    have hp : p ∈ all := hsub p List.mem_cons_self
    have hnew : ∀ {layer : Text} {point : Pt K}, p.place.pt = some point →
        ∀ s ∈ some (⟨layer, p.width.num.getD 0, [point]⟩ : Segment K),
          s.widthMm = w ∧ ∀ q ∈ s.points, ∃ p ∈ all, p.place.pt = some q := by
      intro layer point hpoint s hs
      cases hs
      refine ⟨hwidth p hp, fun q hq => ⟨p, hp, ?_⟩⟩
      cases List.mem_singleton.mp hq
      exact hpoint
    intro s hs
    unfold segmentsFrom at hs
    split at hs
    · rcases List.mem_append.mp hs with hs | hs
      · exact hcur s (Option.mem_toList.mp hs)
      · exact ih hrest none (fun _ h => nomatch h) s hs
    · cases hpoint : p.place.pt with
      | none =>
        rw [hpoint] at hs
        exact ih hrest cur hcur s hs
      | some point =>
        rw [hpoint] at hs
        cases cur with
        | none => exact ih hrest _ (hnew hpoint) s hs
        | some c =>
          dsimp only at hs
          split at hs
          · refine ih hrest _ (fun s' hs' => ?_) s hs
            cases hs'
            refine ⟨(hcur c rfl).1, fun q hq => ?_⟩
            rcases List.mem_append.mp hq with hq | hq
            · exact (hcur c rfl).2 q hq
            · cases List.mem_singleton.mp hq
              exact ⟨p, hp, hpoint⟩
          · rcases List.mem_cons.mp hs with rfl | hs
            · exact hcur s rfl
            · exact ih hrest _ (hnew hpoint) s hs

/-- A trace of one width is read alike. -/
theorem trace_read {route : List (RoutePoint K)} {width : Value K}
    (hwidth : ∀ p ∈ route, p.width = width) (ax : Axis) : ¬ (Element.trace route).Misread ax := by
  rintro ⟨span, hspan, hnot⟩
  have hsegment : ∃ g ∈ (Element.trace route).segments, span ∈ g.extents ax := by
    simpa [Element.extents, Element.pads, Element.vias] using hspan
  obtain ⟨g, hg, hspan⟩ := hsegment
  obtain ⟨q, hq, rfl⟩ := List.mem_map.mp hspan
  obtain ⟨hw, hpoints⟩ := segmentsFrom_of_width route (fun _ h => h)
    (fun p hp => congrArg (·.num.getD 0) (hwidth p hp)) none (fun _ h => nomatch h) g
    (List.mem_of_mem_filter hg)
  obtain ⟨p, hp, hpt⟩ := hpoints q hq
  let stamp : Stamp K := ⟨p.place, half p.width .missing, half p.width .missing⟩
  have hstamp : (⟨q.on ax - halved g.widthMm, q.on ax + halved g.widthMm⟩ : Span K).Between
      ([stamp].filterMap (Stamp.span ax)) := by
    rw [around_counted_iff hpt, hw]
    have hle := halved_le_half width .missing
    cases ax with
    | x =>
      show _ ≤ half p.width .missing
      rw [hwidth p hp]
      exact hle
    | y =>
      show _ ≤ half p.width .missing
      rw [hwidth p hp]
      exact hle
  refine hnot (hstamp.mono fun s hs => ?_)
  obtain ⟨st, hst, hs⟩ := List.mem_filterMap.mp hs
  cases List.mem_singleton.mp hst
  exact List.mem_filterMap.mpr ⟨_, List.mem_map_of_mem hp, hs⟩

end

end

/-- A single pad in the middle of a large board. -/
def padBoard : List (Element ℚ) :=
  [.board ⟨some 30, some 30, some (some 0, some 0), false⟩,
   .smtpad { place := ⟨.number 0, .number 0⟩, width := .number 1, height := .number 1 }]

/-- A pad, and a drilled hole in a rectangular pad of three by two millimetres. -/
def rectPadBoard : List (Element ℚ) :=
  [.board ⟨some 30, some 30, some (some 0, some 0), false⟩,
   .smtpad { place := ⟨.number 0, .number 0⟩, width := .number 1, height := .number 1 },
   .platedHole
    { place := ⟨.number 0, .number 0⟩, holeDiameter := .number 1, rectPadWidth := .number 3
      rectPadHeight := .number 2 }]

end CircuitForge.Outline
