/-
What comes apart when wires go.

With fewer wires a drawing joins less, so its islands come apart into pieces.  Of each island
the first piece stays, the largest or of several as large the one that begins first, and the
others come off.
-/
import CircuitForge.Schematic.Islands

namespace CircuitForge

open Js Relation Classes

section

variable {pins : List SheetPin} {before after : List Wire} {i j : Nat}

/-! ## Fewer wires -/

/-- With fewer wires the drawing joins less. -/
theorem DrawingJoins.mono (h : after.Sublist before) (hij : DrawingJoins pins after i j) :
    DrawingJoins pins before i j := by
  obtain ⟨f, hf⟩ := List.sublist_iff_exists_orderEmbedding_getElem?_eq.mp h
  have hconductor : ∀ {k l}, SameConductor after k l → SameConductor before (f k) (f l) := by
    intro k l hkl
    induction hkl with
    | rel k l h =>
      obtain ⟨a, b, ha, hb, hnet, htouch⟩ := h
      exact .rel _ _ ⟨a, b, (hf k).symm.trans ha, (hf l).symm.trans hb, hnet, htouch⟩
    | refl => exact .refl _
    | symm _ _ _ ih => exact ih.symm
    | trans _ _ _ _ _ ih₁ ih₂ => exact .trans _ _ _ ih₁ ih₂
  have hon : ∀ {i k}, OnWire pins after i k → OnWire pins before i (f k) :=
    fun ⟨p, w, hp, hw, h⟩ => ⟨p, w, hp, (hf _).symm.trans hw, h⟩
  refine eqvGen_le (fun i j h => .rel _ _ (h.imp_left ?_)) hij
  rintro ⟨k, l, hik, hjl, hkl⟩
  exact ⟨f k, f l, hon hik, hon hjl, hconductor hkl⟩

/-- The drawing joins terminals of one net. -/
theorem DrawingJoins.netId (h : DrawingJoins pins before i j) :
    pins[i]?.map SheetPin.netId = pins[j]?.map SheetPin.netId := by
  induction h with
  | rel i j h =>
    rcases h with ⟨k, l, ⟨p, v, hp, hv, hpv, -⟩, ⟨q, w, hq, hw, hqw, -⟩, hkl⟩ |
      ⟨p, q, hp, hq, hn, -⟩
    · have hvw := hkl.netId
      rw [hv, hw, Option.map_some, Option.map_some, Option.some.injEq] at hvw
      rw [hp, hq, Option.map_some, Option.map_some, hpv, hqw, hvw]
    · rw [hp, hq, Option.map_some, Option.map_some, hn]
  | refl => rfl
  | symm _ _ _ ih => exact ih.symm
  | trans _ _ _ _ _ ih₁ ih₂ => exact ih₁.trans ih₂

/-! ## Pieces -/

/-- The terminals that the wires left join with one. -/
def pieceOf (pins : List SheetPin) (after : List Wire) (i : Nat) : List Nat :=
  (List.range pins.length).filter fun j => drawnIslands pins after j = drawnIslands pins after i

/-- The piece of the terminal comes before all others of its island. -/
def StaysOn (pins : List SheetPin) (before after : List Wire) (i : Nat) : Prop :=
  ∀ j < pins.length, DrawingJoins pins before i j →
    beforePiece (pieceOf pins after i) (pieceOf pins after j) = true

theorem mem_pieceOf : j ∈ pieceOf pins after i ↔ j < pins.length ∧ DrawingJoins pins after j i := by
  rw [pieceOf, List.mem_filter, List.mem_range, decide_eq_true_eq, drawnIslands_eq_iff]

theorem pieceOf_congr (h : DrawingJoins pins after i j) :
    pieceOf pins after i = pieceOf pins after j := by
  rw [pieceOf, drawnIslands_eq_iff.mpr h, pieceOf]

theorem staysOn_congr (hsub : after.Sublist before) (h : DrawingJoins pins after i j) :
    StaysOn pins before after i ↔ StaysOn pins before after j := by
  have hij := h.mono hsub
  unfold StaysOn
  rw [pieceOf_congr h]
  refine forall_congr' fun k => imp_congr_right fun _ => imp_congr_left ?_
  exact ⟨fun hik => .trans _ _ _ hij.symm hik, fun hjk => .trans _ _ _ hij hjk⟩

theorem beforePiece_total (a b : List Nat) : (beforePiece a b || beforePiece b a) = true := by
  simp only [beforePiece, Bool.or_eq_true, Bool.and_eq_true, decide_eq_true_eq]
  omega

theorem beforePiece_trans (a b c : List Nat) (hab : beforePiece a b = true)
    (hbc : beforePiece b c = true) : beforePiece a c = true := by
  simp only [beforePiece, Bool.or_eq_true, Bool.and_eq_true, decide_eq_true_eq] at *
  omega

/-- Pieces that come before one another begin with one terminal. -/
theorem eq_of_beforePiece (hi : i < pins.length)
    (hij : beforePiece (pieceOf pins after i) (pieceOf pins after j) = true)
    (hji : beforePiece (pieceOf pins after j) (pieceOf pins after i) = true) :
    pieceOf pins after i = pieceOf pins after j := by
  have hmem : i ∈ pieceOf pins after i := mem_pieceOf.mpr ⟨hi, .refl _⟩
  simp only [beforePiece, Bool.or_eq_true, Bool.and_eq_true, decide_eq_true_eq] at hij hji
  have hpos := List.length_pos_of_mem hmem
  have hlength : (pieceOf pins after i).length = (pieceOf pins after j).length := by omega
  have hhead : (pieceOf pins after i).headD 0 = (pieceOf pins after j).headD 0 := by omega
  obtain ⟨m, tail, hpiece⟩ := List.exists_cons_of_length_pos hpos
  obtain ⟨m', tail', hpiece'⟩ := List.exists_cons_of_length_pos (hlength ▸ hpos)
  rw [hpiece, hpiece', List.headD_cons, List.headD_cons] at hhead
  subst hhead
  have hm := (mem_pieceOf.mp (hpiece ▸ List.mem_cons_self : m ∈ pieceOf pins after i)).2
  have hm' := (mem_pieceOf.mp (hpiece' ▸ List.mem_cons_self : m ∈ pieceOf pins after j)).2
  exact (pieceOf_congr hm).symm.trans (pieceOf_congr hm')

/-! ## Sorting them -/

/-- The pieces of an island, in order. -/
def sortedPieces (pins : List SheetPin) (after : List Wire) (island : List Nat) : List (List Nat) :=
  ((Map.group (drawnIslands pins after) island).map Prod.snd).mergeSort beforePiece

/-- The pieces that come off. -/
def piecesOff (pins : List SheetPin) (before after : List Wire) : List (List Nat) :=
  (Map.group (drawnIslands pins before) (List.range pins.length)).flatMap fun e =>
    (sortedPieces pins after e.2).tail

/-- The keys of some terminals. -/
def keysOf (pins : List SheetPin) (piece : List Nat) : List PinRef :=
  piece.filterMap fun i => pins[i]?.map SheetPin.key

theorem splitsOf_eq (pins : List SheetPin) (before after : List Wire) :
    splitsOf pins before after = (piecesOff pins before after).map (keysOf pins) := by
  rw [piecesOff, List.map_flatMap]
  rfl

/-- The pieces of one island. -/
theorem sortedPieces_spec (hsub : after.Sublist before) {e : Nat × List Nat}
    (he : e ∈ Map.group (drawnIslands pins before) (List.range pins.length)) :
    (∀ x, x ∈ sortedPieces pins after e.2 ↔ ∃ i ∈ e.2, x = pieceOf pins after i) ∧
      (sortedPieces pins after e.2).Pairwise List.Disjoint ∧
      (sortedPieces pins after e.2).Pairwise fun a b => beforePiece a b = true := by
  obtain ⟨key, island⟩ := e
  obtain ⟨-, hisland⟩ := Map.mem_group he
  have hperm : (sortedPieces pins after island).Perm
      ((Map.group (drawnIslands pins after) island).map Prod.snd) := List.mergeSort_perm ..
  -- A piece lies within its island.
  have hpiece : ∀ i ∈ island,
      island.filter (drawnIslands pins after · = drawnIslands pins after i) =
        pieceOf pins after i := by
    intro i hi
    rw [hisland, List.mem_filter, decide_eq_true_eq] at hi
    rw [hisland, List.filter_filter, pieceOf]
    refine List.filter_congr fun j _ => ?_
    rw [Bool.and_eq_left_iff_imp, decide_eq_true_eq, decide_eq_true_eq]
    intro hji
    rw [← hi.2, drawnIslands_eq_iff]
    exact (drawnIslands_eq_iff.mp hji).mono hsub
  refine ⟨fun x => ?_, ?_, ?_⟩
  · simp only [hperm.mem_iff, List.mem_map, Prod.exists, exists_eq_right]
    constructor
    · rintro ⟨a, hx⟩
      obtain ⟨ha, rfl⟩ := Map.mem_group hx
      obtain ⟨i, hi, rfl⟩ := List.mem_map.mp ha
      exact ⟨i, hi, hpiece i hi⟩
    · rintro ⟨i, hi, rfl⟩
      obtain ⟨ys, hys, -⟩ := Map.exists_group (k := drawnIslands pins after) hi
      refine ⟨drawnIslands pins after i, ?_⟩
      rw [← hpiece i hi, ← (Map.mem_group hys).2]
      exact hys
  · exact (hperm.pairwise_iff fun h => List.disjoint_symm h).mpr (disjoint_groups _ _)
  · exact List.pairwise_mergeSort beforePiece_trans beforePiece_total _

/-- The first piece of an island, and the others. -/
theorem exists_first (hsub : after.Sublist before) {e : Nat × List Nat}
    (he : e ∈ Map.group (drawnIslands pins before) (List.range pins.length)) :
    ∃ first ∈ e.2, ∃ others, sortedPieces pins after e.2 = pieceOf pins after first :: others ∧
      StaysOn pins before after first := by
  obtain ⟨hmem, -, hsorted⟩ := sortedPieces_spec hsub he
  obtain ⟨hkey, hisland⟩ := Map.mem_group he
  have hin : ∀ i, i ∈ e.2 ↔ i < pins.length ∧ drawnIslands pins before i = e.1 := fun i => by
    rw [hisland, List.mem_filter, List.mem_range, decide_eq_true_eq]
  obtain ⟨i, hi, hik⟩ := List.mem_map.mp hkey
  have hmember := (hmem _).mpr ⟨i, (hin i).mpr ⟨List.mem_range.mp hi, hik⟩, rfl⟩
  obtain ⟨x, others, hcons⟩ := List.exists_cons_of_ne_nil (List.ne_nil_of_mem hmember)
  obtain ⟨first, hfirst, rfl⟩ := (hmem x).mp (hcons ▸ List.mem_cons_self)
  refine ⟨first, hfirst, others, hcons, fun j hj hjoins => ?_⟩
  have hj' := (hmem _).mpr ⟨j, (hin j).mpr ⟨hj,
    (drawnIslands_eq_iff.mpr hjoins).symm.trans ((hin first).mp hfirst).2⟩, rfl⟩
  rw [hcons] at hj' hsorted
  rcases List.mem_cons.mp hj' with he | hj'
  · rw [he]
    exact (or_self_iff).mp ((Bool.or_eq_true ..).mp (beforePiece_total _ _))
  · exact (List.pairwise_cons.mp hsorted).1 _ hj'

/-- Of every island a terminal stays. -/
theorem exists_staysOn (hsub : after.Sublist before) (hi : i < pins.length) :
    ∃ j < pins.length, DrawingJoins pins before i j ∧ StaysOn pins before after j := by
  obtain ⟨island, he, hmem⟩ := Map.exists_group (k := drawnIslands pins before)
    (List.mem_range.mpr hi)
  obtain ⟨first, hfirst, -, -, hstays⟩ := exists_first hsub he
  rw [(Map.mem_group he).2, List.mem_filter, List.mem_range, decide_eq_true_eq] at hfirst
  exact ⟨first, hfirst.1, drawnIslands_eq_iff.mp hfirst.2.symm, hstays⟩

/-- What comes off are the pieces of the terminals that do not stay. -/
theorem mem_piecesOff (hsub : after.Sublist before) {x : List Nat} :
    x ∈ piecesOff pins before after ↔
      ∃ i < pins.length, x = pieceOf pins after i ∧ ¬ StaysOn pins before after i := by
  constructor
  · intro hx
    obtain ⟨e, he, hx⟩ := List.mem_flatMap.mp hx
    obtain ⟨hmem, hdisjoint, hsorted⟩ := sortedPieces_spec hsub he
    obtain ⟨first, hfirst, others, hcons, -⟩ := exists_first hsub he
    have hin : ∀ i ∈ e.2, i < pins.length ∧ drawnIslands pins before i = e.1 := fun i hi => by
      rw [(Map.mem_group he).2, List.mem_filter, List.mem_range, decide_eq_true_eq] at hi
      exact hi
    obtain ⟨i, hi, rfl⟩ := (hmem x).mp (List.mem_of_mem_tail hx)
    rw [hcons, List.tail_cons] at hx
    rw [hcons] at hdisjoint hsorted
    refine ⟨i, (hin i hi).1, rfl, fun hstays => ?_⟩
    have hjoins := drawnIslands_eq_iff.mp ((hin i hi).2.trans (hin first hfirst).2.symm)
    have heq := eq_of_beforePiece (hin i hi).1 (hstays first (hin first hfirst).1 hjoins)
      ((List.pairwise_cons.mp hsorted).1 _ hx)
    -- It would be in no common list with itself.
    have hself : i ∈ pieceOf pins after i := mem_pieceOf.mpr ⟨(hin i hi).1, .refl _⟩
    exact (List.pairwise_cons.mp hdisjoint).1 _ hx (heq ▸ hself) hself
  · rintro ⟨i, hi, rfl, hgoes⟩
    obtain ⟨island, he, hmem⟩ := Map.exists_group (k := drawnIslands pins before)
      (List.mem_range.mpr hi)
    obtain ⟨hpieces, -, -⟩ := sortedPieces_spec hsub he
    obtain ⟨first, hfirst, others, hcons, hstays⟩ := exists_first hsub he
    refine List.mem_flatMap.mpr ⟨_, he, ?_⟩
    have hin := (hpieces _).mpr ⟨i, hmem, rfl⟩
    rw [hcons] at hin ⊢
    rw [List.tail_cons]
    rcases List.mem_cons.mp hin with heq | hin
    · have hjoins : DrawingJoins pins after i first :=
        (mem_pieceOf.mp (heq ▸ mem_pieceOf.mpr ⟨hi, .refl _⟩)).2
      exact absurd ((staysOn_congr hsub hjoins).mpr hstays) hgoes
    · exact hin

theorem pairwise_piecesOff (hsub : after.Sublist before) :
    (piecesOff pins before after).Pairwise List.Disjoint := by
  refine List.pairwise_flatMap.mpr ⟨fun e he => ?_, ?_⟩
  · exact (sortedPieces_spec hsub he).2.1.sublist (List.tail_sublist _)
  · have hislands := List.pairwise_map.mp
      (disjoint_groups (drawnIslands pins before) (List.range pins.length))
    refine hislands.imp_of_mem fun {e e'} he he' hdisjoint x hx y hy => ?_
    have hwithin : ∀ {e : Nat × List Nat},
        e ∈ Map.group (drawnIslands pins before) (List.range pins.length) →
        ∀ x ∈ (sortedPieces pins after e.2).tail, x ⊆ e.2 := by
      intro e he x hx m hm
      obtain ⟨i, hi, rfl⟩ := ((sortedPieces_spec hsub he).1 x).mp (List.mem_of_mem_tail hx)
      obtain ⟨hlt, hjoins⟩ := mem_pieceOf.mp hm
      rw [(Map.mem_group he).2, List.mem_filter, decide_eq_true_eq] at hi ⊢
      exact ⟨List.mem_range.mpr hlt,
        (drawnIslands_eq_iff.mpr (hjoins.mono hsub)).trans hi.2⟩
    exact fun m hmx hmy => hdisjoint (hwithin he x hx hmx) (hwithin he' y hy hmy)

/-! ## The terminals that come off -/

/-- Every terminal has its own key. -/
def OwnKey (pins : List SheetPin) : Prop := (pins.map SheetPin.key).Nodup

theorem OwnKey.index (h : OwnKey pins) {a b : SheetPin} (hi : pins[i]? = some a)
    (hj : pins[j]? = some b) (hkey : a.key = b.key) : i = j := by
  have hlt : i < (pins.map SheetPin.key).length := by
    rw [List.length_map]
    exact (List.getElem?_eq_some_iff.mp hi).1
  refine (List.getElem?_inj hlt h).mp ?_
  rw [List.getElem?_map, List.getElem?_map, hi, hj, Option.map_some, Option.map_some, hkey]

theorem mem_keysOf (h : OwnKey pins) {piece : List Nat} {a : SheetPin} (hi : pins[i]? = some a) :
    a.key ∈ keysOf pins piece ↔ i ∈ piece := by
  rw [keysOf, List.mem_filterMap]
  constructor
  · rintro ⟨j, hj, hb⟩
    obtain ⟨b, hb, hkey⟩ := Option.map_eq_some_iff.mp hb
    rw [h.index hi hb hkey.symm]
    exact hj
  · exact fun hi' => ⟨i, hi', by rw [hi, Option.map_some]⟩

theorem exists_of_mem_keysOf {piece : List Nat} {ref : PinRef} (h : ref ∈ keysOf pins piece) :
    ∃ i ∈ piece, ∃ a, pins[i]? = some a ∧ a.key = ref := by
  obtain ⟨i, hi, ha⟩ := List.mem_filterMap.mp h
  obtain ⟨a, ha, hkey⟩ := Option.map_eq_some_iff.mp ha
  exact ⟨i, hi, a, ha, hkey⟩

theorem pairwise_splitsOf (h : OwnKey pins) (hsub : after.Sublist before) :
    (splitsOf pins before after).Pairwise List.Disjoint := by
  rw [splitsOf_eq, List.pairwise_map]
  refine (pairwise_piecesOff hsub).imp fun {x y} hdisjoint ref hx hy => ?_
  obtain ⟨i, hi, a, ha, rfl⟩ := exists_of_mem_keysOf hx
  exact hdisjoint hi ((mem_keysOf h ha).mp hy)

/-- A terminal that stays is in nothing that comes off. -/
theorem staysOn_iff (h : OwnKey pins) (hsub : after.Sublist before) {a : SheetPin}
    (hi : pins[i]? = some a) :
    StaysOn pins before after i ↔ ∀ take ∈ splitsOf pins before after, a.key ∉ take := by
  have hlt := (List.getElem?_eq_some_iff.mp hi).1
  rw [splitsOf_eq]
  simp only [List.forall_mem_map]
  constructor
  · intro hstays x hx hmem
    obtain ⟨m, -, rfl, hgoes⟩ := (mem_piecesOff hsub).mp hx
    have hjoins := (mem_pieceOf.mp ((mem_keysOf h hi).mp hmem)).2
    exact hgoes ((staysOn_congr hsub hjoins).mp hstays)
  · intro hnone
    by_contra hgoes
    exact hnone _ ((mem_piecesOff hsub).mpr ⟨i, hlt, rfl, hgoes⟩)
      ((mem_keysOf h hi).mpr (mem_pieceOf.mpr ⟨hlt, .refl _⟩))

/-- Two terminals are on one side of all that comes off exactly if they are still joined, or
both stay. -/
theorem oneSide_iff (h : OwnKey pins) (hsub : after.Sublist before) {a b : SheetPin}
    (hi : pins[i]? = some a) (hj : pins[j]? = some b) :
    (∀ take ∈ splitsOf pins before after, a.key ∈ take ↔ b.key ∈ take) ↔
      DrawingJoins pins after i j ∨
        (StaysOn pins before after i ∧ StaysOn pins before after j) := by
  have hlt := (List.getElem?_eq_some_iff.mp hi).1
  constructor
  · intro hside
    by_cases hstays : StaysOn pins before after i
    · refine .inr ⟨hstays, (staysOn_iff h hsub hj).mpr fun take htake hmem => ?_⟩
      exact (staysOn_iff h hsub hi).mp hstays take htake ((hside take htake).mpr hmem)
    · have htake : keysOf pins (pieceOf pins after i) ∈ splitsOf pins before after := by
        rw [splitsOf_eq]
        exact List.mem_map_of_mem ((mem_piecesOff hsub).mpr ⟨i, hlt, rfl, hstays⟩)
      have hmem := (hside _ htake).mp ((mem_keysOf h hi).mpr (mem_pieceOf.mpr ⟨hlt, .refl _⟩))
      exact .inl (mem_pieceOf.mp ((mem_keysOf h hj).mp hmem)).2.symm
  · rintro (hjoins | ⟨hstays, hstays'⟩) take htake
    · rw [splitsOf_eq] at htake
      obtain ⟨x, hx, rfl⟩ := List.mem_map.mp htake
      obtain ⟨m, -, rfl, -⟩ := (mem_piecesOff hsub).mp hx
      rw [mem_keysOf h hi, mem_keysOf h hj, mem_pieceOf, mem_pieceOf]
      have hlt' := (List.getElem?_eq_some_iff.mp hj).1
      exact ⟨fun him => ⟨hlt', .trans _ _ _ hjoins.symm him.2⟩,
        fun hjm => ⟨hlt, .trans _ _ _ hjoins hjm.2⟩⟩
    · exact iff_of_false ((staysOn_iff h hsub hi).mp hstays take htake)
        ((staysOn_iff h hsub hj).mp hstays' take htake)

/-- What comes off is some terminals of one net, and another of that net stays. -/
theorem splitsOf_spec (h : OwnKey pins) (hsub : after.Sublist before) {take : List PinRef}
    (htake : take ∈ splitsOf pins before after) :
    take ≠ [] ∧ ∃ netId, (∀ ref ∈ take, ∃ p ∈ pins, p.key = ref ∧ p.netId = netId) ∧
      ∃ p ∈ pins, p.netId = netId ∧ ∀ take' ∈ splitsOf pins before after, p.key ∉ take' := by
  rw [splitsOf_eq] at htake
  obtain ⟨x, hx, rfl⟩ := List.mem_map.mp htake
  obtain ⟨i, hi, rfl, -⟩ := (mem_piecesOff hsub).mp hx
  obtain ⟨a, ha⟩ : ∃ a, pins[i]? = some a := ⟨_, List.getElem?_eq_getElem hi⟩
  have hself := (mem_keysOf h ha).mpr (mem_pieceOf.mpr ⟨hi, EqvGen.refl i⟩ :
    i ∈ pieceOf pins after i)
  refine ⟨List.ne_nil_of_mem hself, a.netId, fun ref href => ?_, ?_⟩
  · obtain ⟨j, hj, b, hb, rfl⟩ := exists_of_mem_keysOf href
    have hnets := (mem_pieceOf.mp hj).2.netId
    rw [ha, hb, Option.map_some, Option.map_some, Option.some.injEq] at hnets
    exact ⟨b, List.mem_of_getElem? hb, rfl, hnets⟩
  · obtain ⟨j, hj, hjoins, hstays⟩ := exists_staysOn hsub hi
    obtain ⟨b, hb⟩ : ∃ b, pins[j]? = some b := ⟨_, List.getElem?_eq_getElem hj⟩
    have hnets := hjoins.netId
    rw [ha, hb, Option.map_some, Option.map_some, Option.some.injEq] at hnets
    exact ⟨b, List.mem_of_getElem? hb, hnets.symm, (staysOn_iff h hsub hb).mp hstays⟩

end

end CircuitForge
