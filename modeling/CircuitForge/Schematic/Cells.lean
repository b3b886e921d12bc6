/-
The drawn sheet: `placeParts` of `schematic/layout.ts`.

A cell is wider than the widest symbol by the gap, and the bounds of a symbol are nearly centred on
its spot.  Parts in different slots are therefore drawn apart, even with their spots rounded to the
lattice, and a part that shares its slot is drawn on another.
-/
import CircuitForge.Js.Exact
import CircuitForge.Schematic.Align
import CircuitForge.Schematic.Arrange
import CircuitForge.Schematic.Clearance

namespace CircuitForge

open Js

namespace Flow

/-- `GAP`: eight lanes. -/
def gap : Int := 8 * pinGrid

/-- `MARGIN`. -/
def margin : Int := gap / 2

def symbolWidth (g : SymbolGeometry) : Int := g.bounds.maxX - g.bounds.minX

def symbolHeight (g : SymbolGeometry) : Int := g.bounds.maxY - g.bounds.minY

/-- `PlacedPart`. -/
structure PlacedSymbol extends XY where
  id : Text
  designator : Text
  symbol : SymbolGeometry
  annotates : Option Text := none
  turn : Option Turn := none

/-- `bodiesOf`, for one part. -/
def PlacedSymbol.body (p : PlacedSymbol) : Bounds Rat :=
  ⟨p.x + p.symbol.bounds.minX, p.y + p.symbol.bounds.minY,
    p.x + p.symbol.bounds.maxX, p.y + p.symbol.bounds.maxY⟩

/-- `cellW` and `cellH`. -/
def cell (extents : List Int) : Int := extents.foldl max gap + gap

/-- The middle of a cell, on the lattice. -/
def spotIn (cell : Int) (index : Nat) : Rat := snap (margin + index * cell + (cell : Rat) / 2)

section

variable [Runtime]

/-! ## Markers -/

def byId (circuit : CircuitJson) : Map Text Component :=
  Map.fill Component.id id circuit.components []

/-- `isPlaceablePart` of the component of a placed part, or else of a type. -/
def isPart (circuit : CircuitJson) (otherwise : ComponentType) (p : PlacedSymbol) : Bool :=
  isPlaceablePart (((byId circuit).get? p.id).elim otherwise Component.type)

/-- A terminal that a marker may annotate. -/
structure Terminal extends XY where
  key : Text
  side : Side

/-- The terminals of the placed parts on a net. -/
def terminalsOn (circuit : CircuitJson) (placed : List PlacedSymbol) (net : Option Text) :
    List Terminal :=
  (placed.filter (isPart circuit .ground)).flatMap fun p =>
    ((((byId circuit).get? p.id).elim [] Component.pins).filter fun pin =>
      some pin.netId = net).filterMap fun pin =>
        (p.symbol.pins.find? (·.pinId = pin.pinId)).map fun sp =>
          { key := p.id ++ '.' :: pin.pinId, x := p.x + sp.x, y := p.y + sp.y, side := sp.side }

/-- `GLYPH_TURN`. -/
def glyphTurn : Side → Option Turn
  | .bottom => none
  | .top => some .deg180
  | .left => some .deg90
  | .right => some .deg270

/-- `GROUND_SYMBOL`. -/
def groundSymbol : Component :=
  { id := [], type := .ground, designator := [], pins := [⟨"1".toList, []⟩] }

/-- The marker moved to a terminal. -/
structure MovedMarker extends XY where
  symbol : SymbolGeometry
  annotates : Text
  turn : Option Turn

structure Attaching where
  taken : List Text := []
  moved : Map Text MovedMarker := []

variable (localeCompare : Text → Text → Int)

/-- One marker put against the lowest terminal of its net that is not taken. -/
def attachMarker (circuit : CircuitJson) (placed : List PlacedSymbol)
    (positions : Map Text Position) (st : Attaching) (marker : PlacedSymbol) : Attaching :=
  if (positions.get? marker.id).isSome then st
  else
    let net := (((byId circuit).get? marker.id).bind fun c => c.pins.head?).map
      PinConnection.netId
    let free := (terminalsOn circuit placed net).filter (·.key ∉ st.taken)
    match (free.insertionSort fun u v => v.y < u.y ∨ (v.y = u.y ∧
        (u.x < v.x ∨ (u.x = v.x ∧ localeCompare u.key v.key ≤ 0)))).head? with
    | none => st
    | some at' =>
      let taken := st.taken ++ [at'.key]
      let turn := glyphTurn at'.side
      let symbol := orientSymbol (symbolFor groundSymbol) { x := 0, y := 0, rotation := turn }
      match symbol.pins.head? with
      | none => { st with taken }
      | some own =>
        { taken
          moved := st.moved.set marker.id
            { x := at'.x - own.x, y := at'.y - own.y, symbol, annotates := at'.key, turn } }

def attachMarkers (circuit : CircuitJson) (placed : List PlacedSymbol)
    (positions : Map Text Position) : List PlacedSymbol :=
  let markers := placed.filter fun p => !isPart circuit .resistor p
  if markers.length = 0 then placed
  else
    let moved := (markers.foldl (attachMarker localeCompare circuit placed positions) {}).moved
    placed.map fun p =>
      match moved.get? p.id with
      | some m => { p with toXY := m.toXY, symbol := m.symbol, annotates := some m.annotates,
                           turn := m.turn }
      | none => p

/-! ## Parts -/

/-- The symbol of a part, turned as its position says. -/
def symbolAt (positions : Map Text Position) (c : Component) : SymbolGeometry :=
  match positions.get? c.id with
  | none => symbolFor c
  | some at' => orientSymbol (symbolFor c) at'

/-- Where a part is drawn: at its own position, or else in the middle of its cell. -/
def placeIn (positions : Map Text Position) (slots : Map Text Slot) (cellW cellH : Int)
    (c : Component) : PlacedSymbol :=
  let slot := slots.get? c.id
  { id := c.id
    designator := c.designator
    x := match positions.get? c.id with
      | some at' => snap at'.x
      | none => spotIn cellW (slot.elim 0 Slot.column)
    y := match positions.get? c.id with
      | some at' => snap at'.y
      | none => spotIn cellH (slot.elim 0 Slot.row)
    symbol := symbolAt positions c }

def placeParts (circuit : CircuitJson) (positions : Map Text Position := []) :
    Option (List PlacedSymbol) :=
  let symbols := circuit.components.map (symbolAt positions)
  let cellW := cell (symbols.map symbolWidth)
  let cellH := cell (symbols.map symbolHeight)
  (arrangeBySignalFlow localeCompare circuit).map fun slots =>
    attachMarkers localeCompare circuit
      (circuit.components.map (placeIn positions slots cellW cellH)) positions

end

/-! ## Boxes that are apart -/

/-- The boxes have no point in common. -/
def Disjoint (a b : Bounds Rat) : Prop :=
  a.maxX < b.minX ∨ b.maxX < a.minX ∨ a.maxY < b.minY ∨ b.maxY < a.minY

theorem disjoint_symm {a b : Bounds Rat} (h : Disjoint a b) : Disjoint b a := by
  rcases h with h | h | h | h
  · exact Or.inr (Or.inl h)
  · exact Or.inl h
  · exact Or.inr (Or.inr (Or.inr h))
  · exact Or.inr (Or.inr (Or.inl h))

/-- The middle of the bounds lies within two steps of the spot. -/
def Centred (b : Bounds Int) : Prop :=
  (-20 ≤ b.minX + b.maxX ∧ b.minX + b.maxX ≤ 20) ∧ -20 ≤ b.minY + b.maxY ∧ b.minY + b.maxY ≤ 20

instance (b : Bounds Int) : Decidable (Centred b) := by
  unfold Centred
  infer_instance

/-- Every side of the bounds touches a point. -/
theorem boundsOf_attained {ps : List (Int × Int)} (h : ps ≠ []) :
    ((∃ p ∈ ps, p.1 = (boundsOf ps).minX) ∧ ∃ p ∈ ps, p.1 = (boundsOf ps).maxX) ∧
      (∃ p ∈ ps, p.2 = (boundsOf ps).minY) ∧ ∃ p ∈ ps, p.2 = (boundsOf ps).maxY := by
  induction ps using List.reverseRecOn with
  | nil => exact absurd rfl h
  | append_singleton ps q ih =>
    cases ps with
    | nil => simp [boundsOf]
    | cons p ps =>
      have hgrow : boundsOf (p :: ps ++ [q]) =
          ⟨min (boundsOf (p :: ps)).minX q.1, min (boundsOf (p :: ps)).minY q.2,
            max (boundsOf (p :: ps)).maxX q.1, max (boundsOf (p :: ps)).maxY q.2⟩ := by
        rw [List.cons_append, boundsOf, boundsOf, List.foldl_concat]
      have hpick : ∀ {f : Int × Int → Int} {m : Int} (op : Int → Int → Int),
          (∀ a b, op a b = a ∨ op a b = b) → (∃ r ∈ p :: ps, f r = m) →
          ∃ r ∈ p :: ps ++ [q], f r = op m (f q) := by
        rintro f m op hop ⟨r, hr, rfl⟩
        rcases hop (f r) (f q) with he | he
        · exact ⟨r, List.mem_append_left _ hr, he.symm⟩
        · exact ⟨q, List.mem_append_right _ (List.mem_singleton_self q), he.symm⟩
      obtain ⟨⟨hminX, hmaxX⟩, hminY, hmaxY⟩ := ih (List.cons_ne_nil p ps)
      rw [hgrow]
      exact ⟨⟨hpick min min_choice hminX, hpick max max_choice hmaxX⟩,
        hpick min min_choice hminY, hpick max max_choice hmaxY⟩

/-- Bounds with a corner on either side, and within two steps of the corners. -/
theorem centred_of_corners {ps : List (Int × Int)} {w h : Int} (hne : ps ≠ [])
    (hlow : (-w, -h) ∈ ps) (hhigh : (w, h) ∈ ps)
    (hall : ∀ p ∈ ps, (-(w + 20) ≤ p.1 ∧ p.1 ≤ w + 20) ∧ -(h + 20) ≤ p.2 ∧ p.2 ≤ h + 20) :
    Centred (boundsOf ps) := by
  obtain ⟨⟨⟨a, ha, hminX⟩, b, hb, hmaxX⟩, ⟨c, hc, hminY⟩, d, hd, hmaxY⟩ := boundsOf_attained hne
  obtain ⟨hl₁, hl₂, hl₃, hl₄⟩ := boundsOf_holds hlow
  obtain ⟨hh₁, hh₂, hh₃, hh₄⟩ := boundsOf_holds hhigh
  have hpa := hall a ha
  have hpb := hall b hb
  have hpc := hall c hc
  have hpd := hall d hd
  simp only at hl₁ hl₂ hl₃ hl₄ hh₁ hh₂ hh₃ hh₄
  unfold Centred
  omega

theorem boundsOf_corners {w h : Int} (hw : 0 ≤ w) (hh : 0 ≤ h) :
    boundsOf [(-w, -h), (w, -h), (w, h), (-w, h)] = ⟨-w, -h, w, h⟩ := by
  simp only [boundsOf, List.foldl_cons, List.foldl_nil, Bounds.mk.injEq]
  omega

theorem snapOut_of_nonneg {v : Int} (h : 0 ≤ v) : v ≤ snapOut v ∧ snapOut v ≤ v + 9 := by
  rw [snapOut, if_pos h, show pinGrid = 10 from rfl]
  omega

/-- The box with pins on it: the pins stand out two steps at most. -/
theorem centred_derive (pins : List Text) : Centred (derive pins).bounds := by
  unfold derive
  set perSide := max 1 ((pins.length + 1) / 2) with hperSide
  set halfHeight : Int := max (2 * pinGrid) ((perSide : Int) * pinGrid / 2 + 4) with hhalfHeight
  set halfWidth : Int :=
    max (2 * pinGrid) (6 + ((pins.map List.length).foldl max 1 : Nat) * 4) with hhalfWidth
  have hgrid : pinGrid = 10 := rfl
  have hw : 0 ≤ halfWidth := le_max_of_le_left (by decide)
  have hh : 5 * (perSide : Int) + 4 ≤ halfHeight := by
    rw [hhalfHeight, hgrid]
    omega
  have hh' : 0 ≤ halfHeight := by omega
  obtain ⟨hout, hout'⟩ := snapOut_of_nonneg (v := halfWidth + minLead) (by rw [minLead]; omega)
  rw [minLead] at hout hout'
  refine centred_of_corners (w := halfWidth) (h := halfHeight)
    (List.append_ne_nil_of_left_ne_nil (List.cons_ne_nil _ _) _)
    (List.mem_append_left _ List.mem_cons_self)
    (List.mem_append_left _ (List.mem_cons_of_mem _ (List.mem_cons_of_mem _ List.mem_cons_self))) ?_
  intro p hp
  rcases List.mem_append.mp hp with hp | hp
  · simp only [List.mem_cons, List.not_mem_nil, or_false] at hp
    rcases hp with rfl | rfl | rfl | rfl <;> simp only <;> omega
  · obtain ⟨pin, hpin, hp⟩ := List.mem_flatMap.mp hp
    obtain ⟨i, hi, rfl⟩ := List.mem_mapIdx.mp hpin
    rw [boundsOf_corners hw hh'] at hp
    -- a pin of a side is as far up or down as the side is long
    have hside : ∀ (index count : Nat), index < count → count ≤ perSide →
        -halfHeight ≤ ((index : Int) - roundHalf (count - 1)) * pinGrid ∧
          ((index : Int) - roundHalf (count - 1)) * pinGrid ≤ halfHeight := by
      intro index count hindex hcount
      rw [hgrid, roundHalf]
      omega
    by_cases hleft : i < perSide
    · have hy := hside i (min perSide pins.length) (by omega) (by omega)
      simp only [hleft, if_true, List.mem_cons, List.not_mem_nil, or_false,
        leadEdge] at hp
      rcases hp with rfl | rfl <;> simp only <;> rw [minLead] at * <;> omega
    · have hy := hside (i - perSide) (pins.length - perSide) (by omega) (by omega)
      simp only [hleft, if_false, List.mem_cons, List.not_mem_nil, or_false, leadEdge] at hp
      rcases hp with rfl | rfl <;> simp only <;> rw [minLead] at * <;> omega

section

variable [Runtime]

theorem centred_drawnSymbol {type : ComponentType} {pins : List Text} {g : SymbolGeometry}
    (h : drawnSymbol type pins = some g) : Centred g.bounds := by
  unfold drawnSymbol at h
  split at h
  case h_1 =>
    cases h
    rw [show (twoTerminal pins _).bounds = ⟨-20, -4, 20, 4⟩ from rfl]
    decide
  case h_2 =>
    cases h
    rw [show (twoTerminal pins _).bounds = ⟨-10, -8, 10, 8⟩ from rfl]
    decide
  case h_3 =>
    cases h
    rw [show (twoTerminal pins _).bounds = ⟨-20, -5, 20, 0⟩ from rfl]
    decide
  case h_4 =>
    obtain ⟨p, -, rfl⟩ := Option.map_eq_some_iff.mp h
    rw [show (twoTerminal p _).bounds = ⟨-20, -7, 20, 7⟩ from rfl]
    decide
  case h_5 =>
    obtain ⟨p, -, rfl⟩ := Option.map_eq_some_iff.mp h
    rw [show (withPins _ _).bounds = ⟨-12, -20, 12, 20⟩ from rfl]
    decide
  case h_6 =>
    cases h
    rw [show (withPins _ _).bounds = ⟨-8, -10, 8, 6⟩ from rfl]
    decide
  case h_7 => cases h

/-- The symbol of every part is nearly centred on its spot. -/
theorem centred_symbolFor (c : Component) : Centred (symbolFor c).bounds := by
  unfold symbolFor
  simp only
  split
  · exact centred_derive _
  · next geometry hg =>
    split
    · exact centred_drawnSymbol hg
    · exact centred_derive _

/-! ## Cells -/

omit [Runtime] in
theorem add_gap_le_cell {extents : List Int} {extent : Int} (h : extent ∈ extents) :
    extent + gap ≤ cell extents :=
  Int.add_le_add_right (le_foldl_max h gap) gap

omit [Runtime] in
theorem cell_nonneg (extents : List Int) : 0 ≤ cell extents := by
  have h : gap ≤ extents.foldl max gap := start_le_foldl_max extents gap
  have hgap : gap = 80 := rfl
  rw [cell]
  omega

omit [Runtime] in
/-- Spots of different cells are a cell apart, up to the two roundings. -/
theorem spotIn_add_lt {cell : Int} (hcell : 0 ≤ cell) {i j : Nat} (h : i < j) :
    spotIn cell i + cell - 10 < spotIn cell j := by
  obtain ⟨-, hi⟩ := Rounding.toStep_sub_mem step_pos (margin + i * cell + (cell : Rat) / 2)
  obtain ⟨hj, -⟩ := Rounding.toStep_sub_mem step_pos (margin + j * cell + (cell : Rat) / 2)
  rw [← snap_eq_toStep] at hi hj
  have hstep : step = 10 := rfl
  have hc : (0 : Rat) ≤ cell := by exact_mod_cast hcell
  have hij : (i : Rat) + 1 ≤ j := by exact_mod_cast h
  have hmul := mul_le_mul_of_nonneg_right hij hc
  rw [hstep] at hi hj
  rw [spotIn, spotIn]
  linarith

omit [Runtime] in
/-- Two extents, on spots of different cells. -/
theorem extents_apart {cell lowP highP lowQ highQ : Int} (hcell : 0 ≤ cell)
    (hp : highP - lowP + gap ≤ cell) (hq : highQ - lowQ + gap ≤ cell)
    (hcp : lowP + highP ≤ 20) (hcq : -20 ≤ lowQ + highQ) {i j : Nat} (h : i < j) :
    spotIn cell i + highP < spotIn cell j + lowQ := by
  have hspots := spotIn_add_lt hcell h
  have hroom : 2 * (highP - lowQ) ≤ 2 * (cell - 10) := by
    have hgap : gap = 80 := rfl
    omega
  have hcast : (2 : Rat) * (highP - lowQ) ≤ 2 * (cell - 10) := by exact_mod_cast hroom
  linarith

/-- Parts in different slots are drawn apart. -/
theorem disjoint_placeIn {circuit : CircuitJson} {slots : Map Text Slot} {c d : Component}
    (hc : c ∈ circuit.components) (hd : d ∈ circuit.components) {sc sd : Slot}
    (hsc : slots.get? c.id = some sc) (hsd : slots.get? d.id = some sd) (hne : sc ≠ sd)
    {cellW cellH : Int}
    (hcellW : cellW = cell ((circuit.components.map (symbolAt [])).map symbolWidth))
    (hcellH : cellH = cell ((circuit.components.map (symbolAt [])).map symbolHeight)) :
    Disjoint (placeIn [] slots cellW cellH c).body (placeIn [] slots cellW cellH d).body := by
  have hw : ∀ e ∈ circuit.components, symbolWidth (symbolFor e) + gap ≤ cellW := fun e he =>
    hcellW ▸ add_gap_le_cell (List.mem_map_of_mem (List.mem_map_of_mem (f := symbolAt []) he))
  have hh : ∀ e ∈ circuit.components, symbolHeight (symbolFor e) + gap ≤ cellH := fun e he =>
    hcellH ▸ add_gap_le_cell (List.mem_map_of_mem (List.mem_map_of_mem (f := symbolAt []) he))
  have hw₀ : 0 ≤ cellW := hcellW ▸ cell_nonneg _
  have hh₀ : 0 ≤ cellH := hcellH ▸ cell_nonneg _
  have hcase : sc.column ≠ sd.column ∨ sc.row ≠ sd.row := by
    by_contra hboth
    rw [not_or, not_not, not_not] at hboth
    exact hne (congrArg₂ Slot.mk hboth.1 hboth.2)
  obtain ⟨hcx, hcy⟩ := centred_symbolFor c
  obtain ⟨hdx, hdy⟩ := centred_symbolFor d
  simp only [Disjoint, PlacedSymbol.body, placeIn, hsc, hsd, Map.get?_nil, symbolAt,
    Option.elim_some]
  rcases hcase with hcol | hrow
  · rcases Nat.lt_or_gt_of_ne hcol with hlt | hlt
    · exact Or.inl (extents_apart hw₀ (hw c hc) (hw d hd) hcx.2 hdx.1 hlt)
    · exact Or.inr (Or.inl (extents_apart hw₀ (hw d hd) (hw c hc) hdx.2 hcx.1 hlt))
  · rcases Nat.lt_or_gt_of_ne hrow with hlt | hlt
    · exact Or.inr (Or.inr (Or.inl (extents_apart hh₀ (hh c hc) (hh d hd) hcy.2 hdy.1 hlt)))
    · exact Or.inr (Or.inr (Or.inr (extents_apart hh₀ (hh d hd) (hh c hc) hdy.2 hcy.1 hlt)))

/-! ## Parts on the sheet -/

section

variable {localeCompare : Text → Text → Int} {circuit : CircuitJson} {placed : List PlacedSymbol}
  {positions : Map Text Position}

/-- Only the marker itself is moved. -/
theorem get?_attachMarker {st : Attaching} {marker : PlacedSymbol} {id : Text}
    (h : marker.id ≠ id) :
    (attachMarker localeCompare circuit placed positions st marker).moved.get? id =
      st.moved.get? id := by
  unfold attachMarker
  split
  · rfl
  · simp only
    split
    · rfl
    · split
      · rfl
      · exact Map.get?_set_ne h _ _

theorem get?_foldl_attachMarker {markers : List PlacedSymbol} {st : Attaching} {id : Text}
    (h : ∀ m ∈ markers, m.id ≠ id) :
    (markers.foldl (attachMarker localeCompare circuit placed positions) st).moved.get? id =
      st.moved.get? id := by
  induction markers generalizing st with
  | nil => rfl
  | cons m markers ih =>
    rw [List.forall_mem_cons] at h
    rw [List.foldl_cons, ih h.2, get?_attachMarker h.1]

theorem get?_byId (hids : (circuit.components.map Component.id).Nodup) {c : Component}
    (hc : c ∈ circuit.components) : (byId circuit).get? c.id = some c :=
  Map.get?_fill_of_nodup hids hc []

/-- A part stays where it was placed. -/
theorem mem_of_mem_attachMarkers (hids : (circuit.components.map Component.id).Nodup)
    {p : PlacedSymbol} (hp : p ∈ attachMarkers localeCompare circuit placed positions)
    (hpart : p.id ∈ partIds circuit) : p ∈ placed := by
  unfold attachMarkers at hp
  simp only at hp
  split at hp
  · exact hp
  · obtain ⟨q, hq, rfl⟩ := List.mem_map.mp hp
    have hid : q.id ∈ partIds circuit := by
      split at hpart
      · exact hpart
      · exact hpart
    obtain ⟨c, hc, hcid⟩ := List.mem_map.mp hid
    obtain ⟨hc, hplaceable⟩ := List.mem_filter.mp hc
    -- what the id stands for is no marker
    have hstays : ∀ m ∈ placed.filter (fun p => !isPart circuit .resistor p), m.id ≠ q.id := by
      intro m hm he
      have hmarker := (List.mem_filter.mp hm).2
      rw [isPart, he, ← hcid, get?_byId hids hc, Option.elim_some, hplaceable] at hmarker
      cases hmarker
    rw [get?_foldl_attachMarker hstays]
    exact hq

/-- No two parts are drawn over each other. -/
def DrawnApart (circuit : CircuitJson) (placed : List PlacedSymbol) : Prop :=
  ∀ p ∈ placed, ∀ q ∈ placed, p.id ∈ partIds circuit → q.id ∈ partIds circuit → p.id ≠ q.id →
    Disjoint p.body q.body

theorem drawnApart_of_unstacked (hids : (circuit.components.map Component.id).Nodup)
    {slots : Map Text Slot} (hslots : arrangeBySignalFlow localeCompare circuit = some slots)
    (hall : ∀ id ∈ partIds circuit, (slots.get? id).isSome = true)
    (hunstacked : Unstacked circuit slots)
    (hplaced : placeParts localeCompare circuit = some placed) : DrawnApart circuit placed := by
  rw [placeParts, hslots, Option.map_some] at hplaced
  obtain rfl := Option.some.inj hplaced
  intro p hp q hq hpart hqart hne
  obtain ⟨c, hc, rfl⟩ := List.mem_map.mp (mem_of_mem_attachMarkers hids hp hpart)
  obtain ⟨d, hd, rfl⟩ := List.mem_map.mp (mem_of_mem_attachMarkers hids hq hqart)
  obtain ⟨sc, hsc⟩ := Option.isSome_iff_exists.mp (hall c.id hpart)
  obtain ⟨sd, hsd⟩ := Option.isSome_iff_exists.mp (hall d.id hqart)
  refine disjoint_placeIn hc hd hsc hsd (fun he => ?_) rfl rfl
  exact hunstacked c.id hpart d.id hqart hne (by rw [hsc, hsd, he])

end

end

/-! ## Three unwired parts beside two sources -/

def partOn (id : String) (type : ComponentType) (pins : List (String × String)) : Component :=
  { id := id.toList, type, designator := id.toList
    pins := pins.map fun p => ⟨p.1.toList, p.2.toList⟩ }

/-- The unwired resistors come before the sources in the one column of the sheet. -/
def sheet : CircuitJson :=
  { components := [partOn "r1" .resistor [("1", "r1a"), ("2", "r1b")],
      partOn "r2" .resistor [("1", "r2a"), ("2", "r2b")],
      partOn "r3" .resistor [("1", "r3a"), ("2", "r3b")],
      partOn "v1" .voltageSource [("+", "n"), ("-", "gnd")],
      partOn "v2" .voltageSource [("+", "n"), ("-", "gnd")]]
    nets := (["r1a", "r1b", "r2a", "r2b", "r3a", "r3b", "n"].map fun id =>
        { id := id.toList, name := id.toList }) ++
      [{ id := "gnd".toList, name := "gnd".toList, isGround := true }] }

/-- The collation of plain lower-case ids. -/
def collate (a b : Text) : Int :=
  if a.map codeUnit < b.map codeUnit then -1 else if b.map codeUnit < a.map codeUnit then 1 else 0

/-- With two unwired parts fewer. -/
def roomySheet : CircuitJson := { sheet with components := sheet.components.drop 2 }

end Flow

end CircuitForge
