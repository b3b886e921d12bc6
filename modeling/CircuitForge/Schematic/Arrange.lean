/-
Slots: the last part of `schematic/arrange.ts`.

A wired part keeps its place in its column.  A part without neighbours is in the first column, and
is moved into a block below the longest column of wired parts.  The places of the first column are
counted with the unwired parts in it, so that a wired part may stand as low as the block.
-/
import CircuitForge.Schematic.Flow
import Mathlib.Data.List.Flatten

namespace CircuitForge

open Js

structure Slot where
  column : Nat
  row : Nat
  deriving DecidableEq

namespace Flow

section

variable [Runtime]

/-- `slots`: every part where the columns have it. -/
def slotsOf (columns : List (List Text)) : Map Text Slot :=
  Map.fill Prod.fst Prod.snd (columns.zipIdx.flatMap fun (col, ci) =>
    col.zipIdx.map fun (id, ri) => (id, (⟨ci, ri⟩ : Slot))) []

/-- `strayIds`: the parts wired to nothing at all. -/
def strayIds (circuit : CircuitJson) : List Text :=
  (partIds circuit).filter fun id => (neighbours circuit id).length = 0

/-- `below`: the length of the longest column of wired parts. -/
def below (strays : List Text) (columns : List (List Text)) : Nat :=
  (columns.map fun col => (col.filter (· ∉ strays)).length).foldl max 0

/-- `across`: the root of the count, rounded up. -/
def across (count : Nat) : Nat :=
  max 1 (if Nat.sqrt count * Nat.sqrt count = count then Nat.sqrt count else Nat.sqrt count + 1)

/-- The unwired parts, in a block below the circuit. -/
def gathered (strays : List Text) (columns : List (List Text)) (slots : Map Text Slot) :
    Map Text Slot :=
  Map.fill Prod.fst
    (fun e => ⟨e.2 % across strays.length,
      below strays columns + 1 + e.2 / across strays.length⟩) strays.zipIdx slots

variable (localeCompare : Text → Text → Int)

def arrangeBySignalFlow (circuit : CircuitJson) : Option (Map Text Slot) :=
  if (parts circuit).length = 0 then some []
  else
    (settledColumns localeCompare circuit).map fun columns =>
      let strays := strayIds circuit
      let slots := slotsOf columns
      let slots := if strays.length > 0 then gathered strays columns slots else slots
      (partIds circuit).foldl (fun slots id =>
        if slots.has id then slots else slots.set id ⟨columns.length, 0⟩) slots

/-! ## Where the block begins -/

/-- No wired part of the first column stands in a row of the block. -/
def ClearBelow (strays : List Text) (columns : List (List Text)) : Prop :=
  ∀ (row : Nat) (id : Text), ((columns[0]?).bind (·[row]?)) = some id → id ∉ strays →
    below strays columns < row →
    strays.length ≤ (row - (below strays columns + 1)) * across strays.length

/-- The wired parts of the settled first column end above the block or stand past it. -/
def Clear (circuit : CircuitJson) : Prop :=
  ∀ columns, settledColumns localeCompare circuit = some columns →
    ClearBelow (strayIds circuit) columns

end

/-! ## Columns that hold their parts -/

/-- A column holds the parts that `column` puts there, each of them once. -/
structure Filed (column : Map Text Nat) (columns : List (List Text)) : Prop where
  nodup : ∀ (ci : Nat) (col : List Text), columns[ci]? = some col → col.Nodup
  mem_iff : ∀ (ci : Nat) (col : List Text), columns[ci]? = some col →
    ∀ id, id ∈ col ↔ column.get? id = some ci
  lt : ∀ id ci, column.get? id = some ci → ci < columns.length

section

variable [Runtime] {localeCompare : Text → Text → Int} {circuit : CircuitJson}
  {column : Map Text Nat} {columns : List (List Text)}

omit [Runtime] in
theorem start_le_foldl_max {α : Type} [LinearOrder α] (ns : List α) (start : α) :
    start ≤ ns.foldl max start := by
  induction ns generalizing start with
  | nil => exact le_rfl
  | cons m ns ih => exact (le_max_left start m).trans (ih _)

omit [Runtime] in
theorem le_foldl_max {α : Type} [LinearOrder α] {n : α} {ns : List α} (h : n ∈ ns) (start : α) :
    n ≤ ns.foldl max start := by
  induction ns generalizing start with
  | nil => cases h
  | cons m ns ih =>
    rw [List.foldl_cons]
    rcases List.mem_cons.mp h with rfl | h
    · exact (le_max_right start n).trans (start_le_foldl_max ns _)
    · exact ih h _

omit [Runtime] in
theorem filed_columnsOf (h : column.Keyed) : Filed column (columnsOf localeCompare column) := by
  set entries := column.insertionSort fun a b => localeCompare a.1 b.1 ≤ 0 with hentries
  have hperm : entries.Perm column := List.perm_insertionSort _ _
  have hget : ∀ (ci : Nat) (col : List Text), (columnsOf localeCompare column)[ci]? = some col →
      col = (entries.filter (·.2 = ci)).map Prod.fst := by
    intro ci col hcol
    rw [columnsOf, List.getElem?_map, Option.map_eq_some_iff] at hcol
    obtain ⟨ci', hci, rfl⟩ := hcol
    obtain ⟨hlt, rfl⟩ := List.getElem?_eq_some_iff.mp hci
    rw [List.getElem_range]
  refine ⟨fun ci col hcol => ?_, fun ci col hcol id => ?_, fun id ci hid => ?_⟩
  · rw [hget ci col hcol]
    exact ((hperm.map Prod.fst).nodup_iff.mpr h).sublist (List.filter_sublist.map Prod.fst)
  · rw [hget ci col hcol, List.mem_map]
    constructor
    · rintro ⟨e, he, rfl⟩
      obtain ⟨he, hci⟩ := List.mem_filter.mp he
      exact Map.get?_of_mem h (of_decide_eq_true hci ▸ hperm.mem_iff.mp he)
    · intro hid
      exact ⟨(id, ci), List.mem_filter.mpr
        ⟨hperm.mem_iff.mpr (Map.mem_of_get? hid), decide_eq_true rfl⟩, rfl⟩
  · rw [columnsOf, List.length_map, List.length_range]
    exact le_foldl_max (List.mem_map_of_mem (f := fun e : Text × Nat => e.2 + 1)
      (Map.mem_of_get? hid)) 0

omit [Runtime] in
/-- A column may be put in another order. -/
theorem Filed.set (h : Filed column columns) {ci : Nat} {col : List Text}
    (hperm : col.Perm ((columns[ci]?).getD [])) : Filed column (columns.set ci col) := by
  have hget : ∀ (ci' : Nat) (col' : List Text), (columns.set ci col)[ci']? = some col' →
      ∃ before, columns[ci']? = some before ∧ col'.Perm before := by
    intro ci' col' hcol'
    rw [List.getElem?_set] at hcol'
    split at hcol'
    · rename_i heq
      subst heq
      split at hcol'
      · rename_i hlt
        obtain rfl := Option.some.inj hcol'
        rw [List.getElem?_eq_getElem hlt, Option.getD_some] at hperm
        exact ⟨_, List.getElem?_eq_getElem hlt, hperm⟩
      · cases hcol'
    · exact ⟨col', hcol', List.Perm.refl _⟩
  refine ⟨fun ci' col' hcol' => ?_, fun ci' col' hcol' id => ?_, fun id ci' hid => ?_⟩
  · obtain ⟨before, hbefore, hp⟩ := hget ci' col' hcol'
    exact hp.nodup_iff.mpr (h.nodup ci' before hbefore)
  · obtain ⟨before, hbefore, hp⟩ := hget ci' col' hcol'
    exact hp.mem_iff.trans (h.mem_iff ci' before hbefore id)
  · rw [List.length_set]
    exact h.lt id ci' hid

theorem filed_settle {st : Rows} (h : Filed column st.columns) (against : Option (List Text))
    (ci : Nat) : Filed column (settle localeCompare circuit against st ci).columns := by
  unfold settle
  split
  · exact h
  · exact h
  · exact h.set (List.perm_insertionSort _ _)

theorem filed_sweep {st : Rows} (h : Filed column st.columns) (side : SweepFrom) :
    Filed column (sweep localeCompare circuit st side).columns := by
  have hfold : ∀ (order : List Nat) (against : Rows → Nat → Option (List Text)) (st : Rows),
      Filed column st.columns → Filed column (order.foldl (fun st ci =>
        settle localeCompare circuit (against st ci) st ci) st).columns := by
    intro order against
    induction order with
    | nil => exact fun _ h => h
    | cons ci order ih => exact fun st h => ih _ (filed_settle h _ ci)
  cases side with
  | left => exact hfold _ (fun st ci => if ci = 0 then none else st.columns[ci - 1]?) st h
  | right => exact hfold _ (fun st ci => st.columns[ci + 1]?) st h

/-- The columns settle, and every part is still in its own. -/
theorem exists_settledColumns (hids : (partIds circuit).Nodup) (hparts : parts circuit ≠ []) :
    ∃ columns column, settledColumns localeCompare circuit = some columns ∧
      Columned circuit column ∧ Filed column columns := by
  obtain ⟨column, hcolumn, hcolumned⟩ :
      ∃ column, columnOf localeCompare circuit = some column ∧ Columned circuit column :=
    exists_columnOf hids hparts
  refine ⟨_, column, by rw [settledColumns, hcolumn, Option.map_some], hcolumned, ?_⟩
  have hfold : ∀ (sides : List SweepFrom) (st : Rows), Filed column st.columns →
      Filed column (sides.foldl (sweep localeCompare circuit) st).columns := by
    intro sides
    induction sides with
    | nil => exact fun _ h => h
    | cons side sides ih => exact fun st h => ih _ (filed_sweep h side)
  exact hfold _ _ (filed_columnsOf hcolumned.keyed)

/-! ## Places in the columns -/

omit [Runtime] in
/-- A part has one place. -/
theorem Filed.place_unique (h : Filed column columns) {ci ci' ri ri' : Nat} {col col' : List Text}
    {id : Text} (hcol : columns[ci]? = some col) (hid : col[ri]? = some id)
    (hcol' : columns[ci']? = some col') (hid' : col'[ri']? = some id) : ci = ci' ∧ ri = ri' := by
  have hci := (h.mem_iff ci col hcol id).mp (List.mem_of_getElem? hid)
  have hci' := (h.mem_iff ci' col' hcol' id).mp (List.mem_of_getElem? hid')
  obtain rfl := Option.some.inj (hci.symm.trans hci')
  obtain rfl := Option.some.inj (hcol.symm.trans hcol')
  obtain ⟨hlt, hri⟩ := List.getElem?_eq_some_iff.mp hid
  obtain ⟨hlt', hri'⟩ := List.getElem?_eq_some_iff.mp hid'
  exact ⟨rfl, (h.nodup ci col hcol).getElem_inj_iff.mp (hri.trans hri'.symm)⟩

omit [Runtime] in
/-- The slot of a part is its place. -/
theorem Filed.get?_slotsOf (h : Filed column columns) {ci ri : Nat} {col : List Text} {id : Text}
    (hcol : columns[ci]? = some col) (hid : col[ri]? = some id) :
    (slotsOf columns).get? id = some ⟨ci, ri⟩ := by
  have hentry : ∀ e : Text × Slot, e ∈ (columns.zipIdx.flatMap fun (col, ci) =>
      col.zipIdx.map fun (id, ri) => (id, (⟨ci, ri⟩ : Slot))) ↔
      ∃ col, columns[e.2.column]? = some col ∧ col[e.2.row]? = some e.1 := by
    rintro ⟨other, slot⟩
    simp only [List.mem_flatMap, List.mem_map, List.mem_zipIdx_iff_getElem?]
    constructor
    · rintro ⟨⟨col, ci⟩, hcol, ⟨id, ri⟩, hid, he⟩
      cases he
      exact ⟨col, hcol, hid⟩
    · rintro ⟨col, hcol, hid⟩
      exact ⟨(col, slot.column), hcol, (other, slot.row), hid, rfl⟩
  refine Map.get?_fill_of_agree (x := (id, (⟨ci, ri⟩ : Slot))) ((hentry _).mpr ⟨col, hcol, hid⟩)
    (fun e he hkey => ?_) []
  obtain ⟨col', hcol', hid'⟩ := (hentry e).mp he
  obtain ⟨hci, hri⟩ := h.place_unique hcol' (hid'.trans (congrArg some hkey)) hcol hid
  exact congrArg₂ Slot.mk hci hri

omit [Runtime] in
theorem Filed.exists_place (h : Filed column columns) {id : Text}
    (hid : id ∈ column.map Prod.fst) :
    ∃ (ci : Nat) (col : List Text) (ri : Nat), columns[ci]? = some col ∧ col[ri]? = some id ∧
      column.get? id = some ci := by
  cases hget : column.get? id with
  | none => exact absurd hid (Map.get?_eq_none_iff.mp hget)
  | some ci =>
    have hlt := h.lt id ci hget
    have hcol := List.getElem?_eq_getElem hlt
    obtain ⟨ri, hri⟩ := List.mem_iff_getElem?.mp ((h.mem_iff ci _ hcol id).mpr hget)
    exact ⟨ci, _, ri, hcol, hri, rfl⟩

/-! ## The block -/

variable {strays : List Text}

omit [Runtime] in
theorem across_pos (count : Nat) : 0 < across count :=
  Nat.lt_of_lt_of_le Nat.one_pos (le_max_left _ _)

omit [Runtime] in
/-- Where the block has a part. -/
theorem get?_gathered_of_mem (hnodup : strays.Nodup) {i : Nat} {id : Text}
    (hid : strays[i]? = some id) (slots : Map Text Slot) :
    (gathered strays columns slots).get? id = some ⟨i % across strays.length,
      below strays columns + 1 + i / across strays.length⟩ := by
  refine Map.get?_fill_of_agree (x := (id, i)) (List.mem_zipIdx_iff_getElem?.mpr hid)
    (fun e he hkey => ?_) slots
  obtain ⟨hlt, hi⟩ := List.getElem?_eq_some_iff.mp hid
  obtain ⟨hlt', hi'⟩ := List.getElem?_eq_some_iff.mp (List.mem_zipIdx_iff_getElem?.mp he)
  rw [hnodup.getElem_inj_iff.mp ((hi'.trans hkey).trans hi.symm)]

omit [Runtime] in
theorem get?_gathered_of_notMem {id : Text} (hid : id ∉ strays) (slots : Map Text Slot) :
    (gathered strays columns slots).get? id = slots.get? id := by
  rw [gathered, Map.get?_fill, List.find?_eq_none.mpr, Option.map_none, Option.none_or]
  intro e he hkey
  have hmem := List.mem_of_getElem? (List.mem_zipIdx_iff_getElem?.mp (List.mem_reverse.mp he))
  exact hid (of_decide_eq_true hkey ▸ hmem)

omit [Runtime] in
/-- A slot for every part: none of the parts falls through. -/
theorem foldl_has {slots : Map Text Slot} {ids : List Text} (h : ∀ id ∈ ids, slots.has id = true)
    (slot : Slot) :
    ids.foldl (fun slots id => if slots.has id then slots else slots.set id slot) slots = slots := by
  induction ids with
  | nil => rfl
  | cons id ids ih =>
    rw [List.forall_mem_cons] at h
    rw [List.foldl_cons, if_pos h.1, ih h.2]

/-- The wired parts have their places in the columns, and the others theirs in the block. -/
structure Slotted (circuit : CircuitJson) (columns : List (List Text)) (slots : Map Text Slot) :
    Prop where
  keyed : slots.Keyed
  wired : ∀ (ci ri : Nat) (col : List Text) (id : Text), columns[ci]? = some col → col[ri]? = some id →
    id ∉ strayIds circuit → slots.get? id = some ⟨ci, ri⟩
  stray : ∀ (i : Nat) (id : Text), (strayIds circuit)[i]? = some id →
    slots.get? id = some ⟨i % across (strayIds circuit).length,
      below (strayIds circuit) columns + 1 + i / across (strayIds circuit).length⟩

theorem Slotted.has {slots : Map Text Slot} (h : Slotted circuit columns slots)
    (hcolumned : Columned circuit column) (hfiled : Filed column columns) {id : Text}
    (hid : id ∈ partIds circuit) : (slots.get? id).isSome = true := by
  by_cases hstray : id ∈ strayIds circuit
  · obtain ⟨i, hi⟩ := List.mem_iff_getElem?.mp hstray
    rw [h.stray i id hi, Option.isSome_some]
  · obtain ⟨ci, col, ri, hcol, hri, -⟩ := hfiled.exists_place ((hcolumned.mem_iff id).mpr hid)
    rw [h.wired ci ri col id hcol hri hstray, Option.isSome_some]

omit [Runtime] in
theorem keyed_slotsOf (columns : List (List Text)) : (slotsOf columns).Keyed :=
  Map.Keyed.nil.fill _ _ _

theorem nodup_strayIds (hids : (partIds circuit).Nodup) : (strayIds circuit).Nodup :=
  hids.filter _

theorem exists_slots (hids : (partIds circuit).Nodup) (hparts : parts circuit ≠ []) :
    ∃ columns column slots, settledColumns localeCompare circuit = some columns ∧
      arrangeBySignalFlow localeCompare circuit = some slots ∧ Columned circuit column ∧
      Filed column columns ∧ Slotted circuit columns slots := by
  obtain ⟨columns, column, hsettled, hcolumned, hfiled⟩ :
      ∃ columns column, settledColumns localeCompare circuit = some columns ∧
        Columned circuit column ∧ Filed column columns := exists_settledColumns hids hparts
  set slots := if (strayIds circuit).length > 0 then
    gathered (strayIds circuit) columns (slotsOf columns) else slotsOf columns with hslots
  have hslotted : Slotted circuit columns slots := by
    refine ⟨?_, fun ci ri col id hcol hid hwired => ?_, fun i id hid => ?_⟩
    · rw [hslots]
      split
      · exact (keyed_slotsOf columns).fill _ _ _
      · exact keyed_slotsOf columns
    · rw [← hfiled.get?_slotsOf hcol hid, hslots]
      split
      · exact get?_gathered_of_notMem hwired _
      · rfl
    · have hlt := (List.getElem?_eq_some_iff.mp hid).1
      rw [hslots, if_pos (by omega)]
      exact get?_gathered_of_mem (nodup_strayIds hids) hid _
  have hhas : ∀ id ∈ partIds circuit, slots.has id = true := fun _ =>
    hslotted.has hcolumned hfiled
  refine ⟨columns, column, slots, hsettled, ?_, hcolumned, hfiled, hslotted⟩
  rw [arrangeBySignalFlow, if_neg fun h => hparts (List.length_eq_zero_iff.mp h), hsettled,
    Option.map_some]
  exact congrArg some (foldl_has hhas _)

/-! ## No two on one slot -/

/-- No two parts share a slot. -/
def Unstacked (circuit : CircuitJson) (slots : Map Text Slot) : Prop :=
  ∀ a ∈ partIds circuit, ∀ b ∈ partIds circuit, a ≠ b → slots.get? a ≠ slots.get? b

omit [Runtime] in
/-- A column of wired parts ends above the block. -/
theorem le_below {ci : Nat} {col : List Text} (hcol : columns[ci]? = some col)
    (hwired : ∀ id ∈ col, id ∉ strays) : col.length ≤ below strays columns := by
  have hall : col.filter (· ∉ strays) = col :=
    List.filter_eq_self.mpr fun id hid => decide_eq_true (hwired id hid)
  have hle := le_foldl_max (List.mem_map_of_mem (f := fun col : List Text =>
    (col.filter (· ∉ strays)).length) (List.mem_of_getElem? hcol)) 0
  rwa [hall] at hle

theorem neighbours_eq_nil_of_mem_strayIds {id : Text} (h : id ∈ strayIds circuit) :
    neighbours circuit id = [] :=
  List.length_eq_zero_iff.mp (of_decide_eq_true (List.mem_filter.mp h).2)

/-- A wired part and one of the block. -/
theorem Slotted.wired_ne_stray {slots : Map Text Slot} (hcolumned : Columned circuit column)
    (hfiled : Filed column columns) (h : Slotted circuit columns slots)
    (hclear : ClearBelow (strayIds circuit) columns) {a b : Text} (ha : a ∈ partIds circuit)
    (hwired : a ∉ strayIds circuit) (hb : b ∈ strayIds circuit) : slots.get? a ≠ slots.get? b := by
  obtain ⟨ci, col, ri, hcol, hri, -⟩ := hfiled.exists_place ((hcolumned.mem_iff a).mpr ha)
  obtain ⟨i, hi⟩ := List.mem_iff_getElem?.mp hb
  have hi' := (List.getElem?_eq_some_iff.mp hi).1
  rw [h.wired ci ri col a hcol hri hwired, h.stray i b hi]
  intro heq
  obtain ⟨hcolumn, hrow⟩ := Slot.mk.inj (Option.some.inj heq)
  have hdiv := Nat.div_add_mod i (across (strayIds circuit).length)
  generalize i / across (strayIds circuit).length = line at hrow hdiv
  cases ci with
  | zero =>
    -- the block's places in the first column are those the condition speaks of
    have hpast := hclear ri a (by rw [hcol]; exact hri) hwired (by omega)
    have hline : ri - (below (strayIds circuit) columns + 1) = line := by omega
    rw [hline, Nat.mul_comm] at hpast
    omega
  | succ ci =>
    -- the other columns are of wired parts only
    have hlong : col.length ≤ below (strayIds circuit) columns := by
      refine le_below hcol fun id hid hstray => ?_
      have hzero := hcolumned.zero id _ ((hfiled.mem_iff _ col hcol id).mp hid)
        (neighbours_eq_nil_of_mem_strayIds hstray)
      cases hzero
    have hlt := (List.getElem?_eq_some_iff.mp hri).1
    omega

theorem Slotted.unstacked_iff {slots : Map Text Slot} (hcolumned : Columned circuit column)
    (hfiled : Filed column columns) (h : Slotted circuit columns slots) :
    Unstacked circuit slots ↔ ClearBelow (strayIds circuit) columns := by
  constructor
  · intro hunstacked row id hid hwired hlow
    by_contra hinside
    rw [Nat.not_le] at hinside
    -- the part of the block that is put where the wired one stands
    obtain ⟨col, hcol, hrow⟩ := Option.bind_eq_some_iff.mp hid
    set i := (row - (below (strayIds circuit) columns + 1)) * across (strayIds circuit).length
      with hi
    have hb : (strayIds circuit)[i]? = some ((strayIds circuit)[i]) :=
      List.getElem?_eq_getElem hinside
    have hmem : (strayIds circuit)[i] ∈ strayIds circuit := List.getElem_mem hinside
    have hidPart : id ∈ partIds circuit := by
      have hget := (hfiled.mem_iff 0 col hcol id).mp (List.mem_of_getElem? hrow)
      exact (hcolumned.mem_iff id).mp (List.mem_map_of_mem (Map.mem_of_get? hget))
    refine hunstacked id hidPart _ (List.mem_filter.mp hmem).1
      (fun he => hwired (he ▸ hmem)) ?_
    rw [h.wired 0 row col id hcol hrow hwired, h.stray i _ hb, hi, Nat.mul_mod_left,
      Nat.mul_div_cancel _ (across_pos _), Nat.add_sub_cancel' hlow]
  · intro hclear a ha b hb hne
    by_cases hastray : a ∈ strayIds circuit
    · by_cases hbstray : b ∈ strayIds circuit
      · obtain ⟨i, hi⟩ := List.mem_iff_getElem?.mp hastray
        obtain ⟨j, hj⟩ := List.mem_iff_getElem?.mp hbstray
        rw [h.stray i a hi, h.stray j b hj]
        intro heq
        obtain ⟨hmod, hdiv⟩ := Slot.mk.inj (Option.some.inj heq)
        have hij : i = j := by
          rw [← Nat.div_add_mod i (across (strayIds circuit).length), hmod,
            Nat.add_left_cancel hdiv, Nat.div_add_mod]
        subst hij
        exact hne (Option.some.inj (hi.symm.trans hj))
      · exact (h.wired_ne_stray hcolumned hfiled hclear hb hbstray hastray).symm
    · by_cases hbstray : b ∈ strayIds circuit
      · exact h.wired_ne_stray hcolumned hfiled hclear ha hastray hbstray
      · obtain ⟨ci, col, ri, hcol, hri, -⟩ := hfiled.exists_place ((hcolumned.mem_iff a).mpr ha)
        obtain ⟨ci', col', ri', hcol', hri', -⟩ :=
          hfiled.exists_place ((hcolumned.mem_iff b).mpr hb)
        rw [h.wired ci ri col a hcol hri hastray, h.wired ci' ri' col' b hcol' hri' hbstray]
        intro heq
        obtain ⟨rfl, rfl⟩ := Slot.mk.inj (Option.some.inj heq)
        obtain rfl := Option.some.inj (hcol.symm.trans hcol')
        exact hne (Option.some.inj (hri.symm.trans hri'))

/-- One unwired part at most does not push a wired one down to the block. -/
theorem clear_of_length_strayIds_le_one (hids : (partIds circuit).Nodup)
    (hone : (strayIds circuit).length ≤ 1) : Clear localeCompare circuit := by
  intro columns hsettled row id hid hwired hlow
  by_cases hparts : parts circuit = []
  · rw [strayIds, partIds, hparts]
    exact Nat.zero_le _
  · obtain ⟨columns', column, hsettled', -, hfiled⟩ :
        ∃ columns column, settledColumns localeCompare circuit = some columns ∧
          Columned circuit column ∧ Filed column columns := exists_settledColumns hids hparts
    obtain rfl := Option.some.inj (hsettled'.symm.trans hsettled)
    obtain ⟨col, hcol, hrow⟩ := Option.bind_eq_some_iff.mp hid
    have hlt := (List.getElem?_eq_some_iff.mp hrow).1
    -- the first column is as long as its wired parts and its unwired one
    have hwiredLen := le_foldl_max (List.mem_map_of_mem (f := fun col : List Text =>
      (col.filter (· ∉ strayIds circuit)).length) (List.mem_of_getElem? hcol)) 0
    have hstrayLen : (col.filter (· ∈ strayIds circuit)).length ≤ (strayIds circuit).length :=
      (List.subperm_of_subset ((hfiled.nodup 0 col hcol).filter _) fun other hother =>
        of_decide_eq_true (List.mem_filter.mp hother).2).length_le
    have hsplit := List.length_eq_length_filter_add (l := col) (· ∈ strayIds circuit)
    simp only [← decide_not] at hsplit
    rw [below] at hlow
    omega

end

end Flow

end CircuitForge
