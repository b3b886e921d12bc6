/-
The columns and the rows of a sheet: `schematic/arrange.ts`.

A part stands in the column that its distance from a source or the depth of what feeds it
gives, whichever is further along.  Four sweeps put the parts of each column opposite what
they connect to; a sweep keeps who is in which column.
-/
import CircuitForge.Js.Layering
import CircuitForge.Schematic.Wiring
import Mathlib.Algebra.Field.Rat
import Mathlib.Data.List.Sort

namespace CircuitForge

open Js Layering

namespace Flow

variable [Runtime]

/-! ## Who touches what -/

/-- `SOURCES`. -/
def isSource : ComponentType → Bool
  | .voltageSource | .currentSource | .bsource => true
  | _ => false

def drivesTheNet (type : ComponentType) (pinId : Text) : Bool :=
  digitalPinRole type pinId = some .source || (isSource type && pinId = "+".toList)

/-- The nets that are no rails. -/
def joiningNets (circuit : CircuitJson) : List Text :=
  let rails := (circuit.nets.filter fun n => n.isGround || n.isPower).map Net.id
  (circuit.nets.map Net.id).filter (· ∉ rails)

def parts (circuit : CircuitJson) : List Component :=
  circuit.components.filter fun c => isPlaceablePart c.type

def partIds (circuit : CircuitJson) : List Text := (parts circuit).map Component.id

def netsOf (circuit : CircuitJson) (c : Component) : List Text :=
  (c.pins.map PinConnection.netId).filter (· ∈ joiningNets circuit)

/-- `onNet.get(netId)`. -/
def onNet (circuit : CircuitJson) (netId : Text) : List Text :=
  ((parts circuit).filter fun c => netId ∈ netsOf circuit c).map Component.id

/-- `neighbours.get(id)`: the others on the nets of the part. -/
def neighbours (circuit : CircuitJson) (id : Text) : List Text :=
  let nets := ((parts circuit).flatMap (netsOf circuit)).eraseDups
  (nets.flatMap fun netId =>
    let ids := onNet circuit netId
    if id ∈ ids then ids.filter (· ≠ id) else []).eraseDups

/-- `drivenBy.get(netId)`. -/
def drivenBy (circuit : CircuitJson) (netId : Text) : List Text :=
  (parts circuit).flatMap fun c =>
    (c.pins.filter fun pin => pin.netId = netId ∧ netId ∈ joiningNets circuit ∧
      drivesTheNet c.type pin.pinId = true).map fun _ => c.id

/-- `feeders.get(id)`: who drives a net that the part reads. -/
def feeders (circuit : CircuitJson) (id : Text) : List Text :=
  (((parts circuit).filter (·.id = id)).flatMap fun c =>
    (c.pins.filter fun pin => pin.netId ∈ joiningNets circuit ∧
      drivesTheNet c.type pin.pinId = false).flatMap fun pin =>
        (drivenBy circuit pin.netId).filter (· ≠ c.id)).eraseDups

/-! ## Columns -/

/-- `sort` without a comparison: in the order of the code units. -/
def sorted (ids : List Text) : List Text :=
  ids.insertionSort fun a b => ¬ b.map codeUnit < a.map codeUnit

section

variable (localeCompare : Text → Text → Int)

def seeds (circuit : CircuitJson) : List Text :=
  sorted (((parts circuit).filter fun c => isSource c.type).map Component.id)

/-- `busiest`: the part with most neighbours. -/
def busiest (circuit : CircuitJson) : Option Text :=
  (((parts circuit).insertionSort fun a b =>
    (neighbours circuit b.id).length < (neighbours circuit a.id).length ∨
      ((neighbours circuit b.id).length = (neighbours circuit a.id).length ∧
        localeCompare a.id b.id ≤ 0)).head?).map Component.id

/-- `stranded`: the first of the parts not met. -/
def stranded (circuit : CircuitJson) (column : Map Text Nat) : Option Text :=
  ((((parts circuit).filter fun c => !column.has c.id).insertionSort fun a b =>
    localeCompare a.id b.id ≤ 0).head?).map Component.id

/-- Where the walk starts: at the sources, or else at the busiest part. -/
def heads (circuit : CircuitJson) : List Text :=
  if seeds circuit = [] then (busiest localeCompare circuit).toList else seeds circuit

/-- The walk from the heads. -/
def nearness (circuit : CircuitJson) : Option (Map Text Nat) :=
  walk (fun id => sorted (neighbours circuit id)) (stranded localeCompare circuit)
    (parts circuit).length ((heads localeCompare circuit).foldl (fun w id => w.start id 0) {})

def flowDepth (circuit : CircuitJson) : Option (Map Text Nat) :=
  depths (feeders circuit) ((parts circuit).length + 1) (partIds circuit)

/-- `column`: whichever of the two says further along. -/
def columnOf (circuit : CircuitJson) : Option (Map Text Nat) := do
  let column ← nearness localeCompare circuit
  let depth ← flowDepth circuit
  pure <| (partIds circuit).foldl (fun column id =>
    column.set id (max ((column.get? id).getD 0) ((depth.get? id).getD 0))) column

/-- `columns`: the parts of each column, in the order of their ids. -/
def columnsOf (column : Map Text Nat) : List (List Text) :=
  let entries := column.insertionSort fun a b => localeCompare a.1 b.1 ≤ 0
  (List.range ((column.map fun e => e.2 + 1).foldl max 0)).map fun ci =>
    (entries.filter (·.2 = ci)).map Prod.fst

/-! ## Rows -/

/-- The columns, and `rowOf`. -/
structure Rows where
  columns : List (List Text)
  rowOf : Map Text Nat

/-- `col.forEach((id, i) => rowOf.set(id, i))`. -/
def numbered (rowOf : Map Text Nat) (col : List Text) : Map Text Nat :=
  Map.fill Prod.fst Prod.snd col.zipIdx rowOf

/-- `centre`: the average rank of what the part connects to, or the row it has. -/
def centre (circuit : CircuitJson) (against : List Text) (rowOf : Map Text Nat) (id : Text) : Rat :=
  let rank := numbered [] against
  let seen := (neighbours circuit id).filterMap rank.get?
  if seen.length = 0 then (rowOf.get? id).getD 0 else (seen.sum : Rat) / seen.length

/-- One column put in order against the one beside it. -/
def settle (circuit : CircuitJson) (against : Option (List Text)) (st : Rows) (ci : Nat) : Rows :=
  match against with
  | none | some [] => st
  | some against =>
    let at' := centre circuit against st.rowOf
    let col := ((st.columns[ci]?).getD []).insertionSort fun a b =>
      at' a < at' b ∨ (at' a = at' b ∧ localeCompare a b ≤ 0)
    ⟨st.columns.set ci col, numbered st.rowOf col⟩

inductive SweepFrom where
  | left | right

def sweep (circuit : CircuitJson) (st : Rows) : SweepFrom → Rows
  | .left => (List.range st.columns.length).foldl (fun st ci =>
      settle localeCompare circuit (if ci = 0 then none else st.columns[ci - 1]?) st ci) st
  | .right => (List.range st.columns.length).reverse.foldl (fun st ci =>
      settle localeCompare circuit st.columns[ci + 1]? st ci) st

/-- The four sweeps over the columns. -/
def sweeps (circuit : CircuitJson) (columns : List (List Text)) : Rows :=
  [SweepFrom.left, .right, .left, .right].foldl (sweep localeCompare circuit)
    ⟨columns, columns.foldl numbered []⟩

/-- The columns when the rows have settled. -/
def settledColumns (circuit : CircuitJson) : Option (List (List Text)) :=
  (columnOf localeCompare circuit).map fun column =>
    (sweeps localeCompare circuit (columnsOf localeCompare column)).columns

end

/-! ## Neighbours -/

variable {circuit : CircuitJson} {localeCompare : Text → Text → Int}

omit [Runtime] in
theorem mem_sorted {ids : List Text} {id : Text} : id ∈ sorted ids ↔ id ∈ ids :=
  (List.perm_insertionSort _ _).mem_iff

theorem mem_partIds_of_mem_onNet {netId id : Text} (h : id ∈ onNet circuit netId) :
    id ∈ partIds circuit := by
  obtain ⟨c, hc, rfl⟩ := List.mem_map.mp h
  exact List.mem_map_of_mem (List.mem_filter.mp hc).1

theorem mem_neighbours {a b : Text} :
    b ∈ neighbours circuit a ↔
      b ≠ a ∧ ∃ netId, a ∈ onNet circuit netId ∧ b ∈ onNet circuit netId := by
  simp only [neighbours, List.mem_eraseDups, List.mem_flatMap]
  constructor
  · rintro ⟨netId, -, hb⟩
    split at hb
    · rename_i ha
      obtain ⟨hb, hne⟩ := List.mem_filter.mp hb
      exact ⟨of_decide_eq_true hne, netId, ha, hb⟩
    · exact absurd hb List.not_mem_nil
  · rintro ⟨hne, netId, ha, hb⟩
    refine ⟨netId, ?_, ?_⟩
    · obtain ⟨c, hc, -⟩ := List.mem_map.mp ha
      obtain ⟨hc, hnet⟩ := List.mem_filter.mp hc
      exact ⟨c, hc, of_decide_eq_true hnet⟩
    · rw [if_pos ha]
      exact List.mem_filter.mpr ⟨hb, decide_eq_true hne⟩

theorem mem_neighbours_comm {a b : Text} (h : b ∈ neighbours circuit a) :
    a ∈ neighbours circuit b := by
  obtain ⟨hne, netId, ha, hb⟩ := mem_neighbours.mp h
  exact mem_neighbours.mpr ⟨hne.symm, netId, hb, ha⟩

theorem mem_partIds_of_mem_neighbours {a b : Text} (h : b ∈ neighbours circuit a) :
    b ∈ partIds circuit := by
  obtain ⟨-, netId, -, hb⟩ := mem_neighbours.mp h
  exact mem_partIds_of_mem_onNet hb

theorem mem_onNet {c : Component} (hc : c ∈ parts circuit) {pin : PinConnection}
    (hpin : pin ∈ c.pins) (hnet : pin.netId ∈ joiningNets circuit) :
    c.id ∈ onNet circuit pin.netId := by
  refine List.mem_map_of_mem (List.mem_filter.mpr ⟨hc, decide_eq_true ?_⟩)
  exact List.mem_filter.mpr ⟨List.mem_map_of_mem hpin, decide_eq_true hnet⟩

/-- What feeds a part is on a net with it. -/
theorem mem_neighbours_of_mem_feeders {a b : Text} (h : b ∈ feeders circuit a) :
    b ∈ neighbours circuit a := by
  rw [feeders, List.mem_eraseDups, List.mem_flatMap] at h
  obtain ⟨c, hc, hb⟩ := h
  obtain ⟨hc, hid⟩ := List.mem_filter.mp hc
  obtain ⟨pin, hpin, hb⟩ := List.mem_flatMap.mp hb
  obtain ⟨hpin, hreads⟩ := List.mem_filter.mp hpin
  obtain ⟨hb, hne⟩ := List.mem_filter.mp hb
  obtain ⟨d, hd, hb⟩ := List.mem_flatMap.mp hb
  obtain ⟨driver, hdriver, rfl⟩ := List.mem_map.mp hb
  obtain ⟨hdriver, hdrives⟩ := List.mem_filter.mp hdriver
  obtain ⟨hnet, hjoins, -⟩ := of_decide_eq_true hdrives
  rw [← of_decide_eq_true hid]
  refine mem_neighbours.mpr ⟨of_decide_eq_true hne, pin.netId, mem_onNet hc hpin hjoins, ?_⟩
  rw [← hnet] at hjoins ⊢
  exact mem_onNet hd hdriver hjoins

/-! ## Every part has its column -/

theorem strands_stranded : Strands (partIds circuit) (stranded localeCompare circuit) where
  new := by
    intro m id h
    obtain ⟨c, hc, rfl⟩ := Option.map_eq_some_iff.mp h
    have hc := (List.perm_insertionSort _ _).mem_iff.mp (List.mem_of_mem_head? hc)
    obtain ⟨hc, hnew⟩ := List.mem_filter.mp hc
    exact ⟨List.mem_map_of_mem hc, by simpa using hnew⟩
  all := by
    intro m h id hid
    obtain ⟨c, hc, rfl⟩ := List.mem_map.mp hid
    rw [stranded, Option.map_eq_none_iff, List.head?_eq_none_iff] at h
    by_contra hnot
    have hleft : c ∈ (parts circuit).filter fun c => !m.has c.id :=
      List.mem_filter.mpr ⟨hc, by simpa using hnot⟩
    have hmem := (List.perm_insertionSort (fun a b : Component => localeCompare a.id b.id ≤ 0)
      _).mem_iff.mpr hleft
    rw [h] at hmem
    exact absurd hmem List.not_mem_nil

omit [Runtime] in
/-- The walk starts somewhere, in layer 0. -/
theorem within_starts {next : Text → List Text} {u ids : List Text} (hids : ids.Nodup)
    (hu : ∀ id ∈ ids, id ∈ u) {w : Walk Text} (h : w.Within next u)
    (hnew : ∀ id ∈ ids, w.layer.has id = false) :
    (ids.foldl (fun w id => w.start id 0) w).Within next u ∧
      (ids.foldl (fun w id => w.start id 0) w).left u ≤ w.left u ∧
      (ids ≠ [] ∨ w.queue ≠ [] → (ids.foldl (fun w id => w.start id 0) w).queue ≠ []) := by
  induction ids generalizing w with
  | nil => exact ⟨h, Nat.le_refl _, fun hne => hne.resolve_left fun hnil => hnil rfl⟩
  | cons id ids ih =>
    rw [List.forall_mem_cons] at hu hnew
    rw [List.nodup_cons] at hids
    rw [List.foldl_cons]
    have hstill : ∀ x ∈ ids, (w.start id 0).layer.has x = false := by
      intro x hx
      have hne : id ≠ x := fun he => hids.1 (he ▸ hx)
      rw [Map.has, Walk.start, Map.get?_set_ne hne]
      exact hnew.2 x hx
    obtain ⟨hwithin, hleft, hqueue⟩ := ih hids.2 hu.2 (h.start hu.1 fun _ => rfl) hstill
    refine ⟨hwithin, le_trans hleft (left_start hu.1 hnew.1 0), fun _ => hqueue (Or.inr ?_)⟩
    exact List.append_ne_nil_of_right_ne_nil _ (List.cons_ne_nil id [])

theorem mem_partIds_of_busiest {id : Text} (h : busiest localeCompare circuit = some id) :
    id ∈ partIds circuit := by
  obtain ⟨c, hc, rfl⟩ := Option.map_eq_some_iff.mp h
  exact List.mem_map_of_mem
    ((List.perm_insertionSort _ _).mem_iff.mp (List.mem_of_mem_head? hc))

theorem mem_partIds_of_mem_heads {id : Text} (h : id ∈ heads localeCompare circuit) :
    id ∈ partIds circuit := by
  unfold heads at h
  split at h
  · exact mem_partIds_of_busiest (Option.mem_toList.mp h)
  · obtain ⟨c, hc, rfl⟩ := List.mem_map.mp (mem_sorted.mp h)
    exact List.mem_map_of_mem (List.mem_filter.mp hc).1

theorem nodup_heads (hids : (partIds circuit).Nodup) : (heads localeCompare circuit).Nodup := by
  unfold heads
  split
  · cases busiest localeCompare circuit with
    | none => exact List.nodup_nil
    | some id => exact List.nodup_singleton id
  · refine (List.perm_insertionSort _ _).nodup_iff.mpr ?_
    exact hids.sublist (List.filter_sublist.map _)

theorem heads_ne_nil (hparts : parts circuit ≠ []) : heads localeCompare circuit ≠ [] := by
  unfold heads
  split
  · intro hnil
    rw [Option.toList_eq_nil_iff, busiest, Option.map_eq_none_iff, List.head?_eq_none_iff,
      ← List.length_eq_zero_iff, List.length_insertionSort, List.length_eq_zero_iff] at hnil
    exact hparts hnil
  · assumption

/-- What a walk of the parts gives: a column to every part, and 0 to one without neighbours. -/
structure Columned (circuit : CircuitJson) (column : Map Text Nat) : Prop where
  keyed : column.Keyed
  mem_iff : ∀ id, id ∈ column.map Prod.fst ↔ id ∈ partIds circuit
  zero : ∀ id n, column.get? id = some n → neighbours circuit id = [] → n = 0

theorem exists_nearness (hids : (partIds circuit).Nodup) (hparts : parts circuit ≠ []) :
    ∃ column, nearness localeCompare circuit = some column ∧ Columned circuit column := by
  set next := fun id => sorted (neighbours circuit id) with hnext
  have hempty : (({} : Walk Text).Within next (partIds circuit)) :=
    ⟨Map.Keyed.nil, fun _ h => absurd h List.not_mem_nil, fun _ _ h => nomatch h⟩
  have hroom : ({} : Walk Text).left (partIds circuit) ≤ (parts circuit).length := by
    have hunseen := (List.length_filter_le (· ∉ ([] : List Text)) (partIds circuit).dedup).trans
      (partIds circuit).dedup_sublist.length_le
    rw [partIds, List.length_map] at hunseen
    rw [Walk.left, List.length_nil, Nat.zero_add]
    exact hunseen
  have hnodup : (heads localeCompare circuit).Nodup := nodup_heads hids
  obtain ⟨hwithin, hleft, hqueue⟩ :=
    within_starts hnodup (fun _ => mem_partIds_of_mem_heads) hempty fun _ _ => rfl
  obtain ⟨column, hwalk, hdone, hall⟩ := walk_spec
    (fun _ _ h => mem_partIds_of_mem_neighbours (mem_sorted.mp h)) strands_stranded hwithin
    (fun hnil => absurd hnil (hqueue (Or.inl (heads_ne_nil hparts)))) (hleft.trans hroom)
  refine ⟨column, hwalk, hdone.keyed, fun id => ⟨hdone.subset id, fun hid => ?_⟩, ?_⟩
  · by_contra hnot
    have hhas := hall id hid
    rw [has_eq_false_iff.mpr hnot] at hhas
    cases hhas
  · intro id n hn hlone
    refine hdone.zero id n hn fun other hmem => ?_
    have hother := mem_neighbours_comm (mem_sorted.mp hmem)
    rw [hlone] at hother
    exact absurd hother List.not_mem_nil

theorem exists_flowDepth (circuit : CircuitJson) : ∃ depth, flowDepth circuit = some depth ∧
    ∀ id d, depth.get? id = some d → neighbours circuit id = [] → d = 0 := by
  have hu : ∀ a, ∀ b ∈ feeders circuit a, b ∈ partIds circuit := fun _ _ h =>
    mem_partIds_of_mem_neighbours (mem_neighbours_of_mem_feeders h)
  obtain ⟨depth, hdepth, hzero⟩ := depths_spec hu (fun _ h => h)
    (n := (parts circuit).length + 1) (by rw [partIds, List.length_map]; omega)
  refine ⟨depth, hdepth, fun id d hd hlone => hzero id d hd ?_⟩
  rw [List.eq_nil_iff_forall_not_mem]
  intro other hother
  have hmem := mem_neighbours_of_mem_feeders hother
  rw [hlone] at hmem
  exact absurd hmem List.not_mem_nil

/-- One part is moved along, into the deeper of two columns. -/
theorem Columned.set {column : Map Text Nat} (h : Columned circuit column) {id : Text}
    (hid : id ∈ partIds circuit) {d : Nat} (hd : neighbours circuit id = [] → d = 0) :
    Columned circuit (column.set id (max ((column.get? id).getD 0) d)) where
  keyed := h.keyed.set _ _
  mem_iff := by
    intro other
    rw [Map.keys_set, if_pos ((h.mem_iff id).mpr hid)]
    exact h.mem_iff other
  zero := by
    intro other n hn hlone
    rw [Map.get?_set] at hn
    split at hn
    · rename_i hsame
      subst hsame
      have hnear : (column.get? id).getD 0 = 0 := by
        cases hget : column.get? id with
        | none => rfl
        | some m => exact h.zero id m hget hlone
      rw [hnear, hd hlone] at hn
      exact (Option.some.inj hn).symm
    · exact h.zero other n hn hlone

theorem exists_columnOf (hids : (partIds circuit).Nodup) (hparts : parts circuit ≠ []) :
    ∃ column, columnOf localeCompare circuit = some column ∧ Columned circuit column := by
  obtain ⟨column, hcolumn, hnear⟩ :
      ∃ column, nearness localeCompare circuit = some column ∧ Columned circuit column :=
    exists_nearness hids hparts
  obtain ⟨depth, hdepth, hzero⟩ := exists_flowDepth circuit
  have hfold : ∀ (ids : List Text) (column : Map Text Nat), (∀ id ∈ ids, id ∈ partIds circuit) →
      Columned circuit column → Columned circuit (ids.foldl (fun column id =>
        column.set id (max ((column.get? id).getD 0) ((depth.get? id).getD 0))) column) := by
    intro ids
    induction ids with
    | nil => exact fun _ _ h => h
    | cons id ids ih =>
      intro column hmem h
      rw [List.forall_mem_cons] at hmem
      rw [List.foldl_cons]
      refine ih _ hmem.2 (h.set hmem.1 fun hlone => ?_)
      cases hget : depth.get? id with
      | none => rfl
      | some d => exact hzero id d hget hlone
  refine ⟨_, ?_, hfold (partIds circuit) column (fun _ h => h) hnear⟩
  rw [columnOf, hcolumn, hdepth]
  rfl

end Flow

end CircuitForge
