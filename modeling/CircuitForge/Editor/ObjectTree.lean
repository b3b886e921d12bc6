/-
The addressable object tree: `tree/object-tree.ts`.

Every object is claimed under the text of its path, in the order in which the projection builds the
nodes; the first claim keeps an address and the later ones are reported.
-/
import CircuitForge.Js.Codes
import CircuitForge.Js.Decimal
import CircuitForge.Types.Circuit
import Mathlib.Data.List.Nodup

namespace CircuitForge.Objects

open Js Exact

/-! ## The laid out board -/

structure LayoutComponent where
  id : Text
  designator : Text
  footprint : Option Text
  deriving DecidableEq

structure LayoutPad where
  id : Text
  componentId : Text
  pin : Option Text
  sourcePin : Option Text
  net : Option Text
  deriving DecidableEq

/-- `LayoutGeometry`, as far as the tree reads it. -/
structure LayoutGeometry where
  components : List LayoutComponent
  pads : List LayoutPad

/-! ## The tree -/

inductive ObjectKind where
  | root | components | component | pins | pin | footprint | pads | pad | nets | net
  deriving DecidableEq

structure ObjectRef where
  kind : ObjectKind
  id : Text
  path : List Text
  componentId : Option Text := none
  deriving DecidableEq

structure TreeNode where
  ref : ObjectRef
  label : Text
  detail : Option Text := none
  children : List TreeNode

inductive UnplacedReason where
  | noLayoutComponent | noCircuitComponent | noSourcePin
  deriving DecidableEq

structure Unplaced where
  what : Text
  reason : UnplacedReason
  deriving DecidableEq

/-- An address that was taken already, and what claimed it again. -/
structure Ambiguous where
  what : Text
  path : Text
  deriving DecidableEq

structure ObjectTree where
  root : TreeNode
  byPath : Map Text TreeNode
  unplaced : List Unplaced
  ambiguous : List Ambiguous

/-! ## Addresses -/

/-- `s.replaceAll(c, r)` for one character. -/
def replaceAll (c : Char) (r s : Text) : Text := s.flatMap fun x => if x = c then r else [x]

def pathKey (segments : List Text) : Text :=
  join ['/'] (segments.map fun s => replaceAll '/' "%2F".toList (replaceAll '%' "%25".toList s))

def ref (kind : ObjectKind) (id : Text) (parent : List Text) (componentId : Option Text := none) :
    ObjectRef :=
  { kind, id, path := parent ++ [id], componentId }

def rootRef : ObjectRef := ref .root "root".toList []

def netsRef : ObjectRef := ref .nets "nets".toList rootRef.path

def componentsRef : ObjectRef := ref .components "components".toList rootRef.path

/-- What `add` writes to. -/
structure Index where
  byPath : Map Text TreeNode := []
  ambiguous : List Ambiguous := []

def Index.add (index : Index) (node : TreeNode) : Index :=
  let path := pathKey node.ref.path
  if index.byPath.has path then
    { index with ambiguous := index.ambiguous ++ [⟨node.label, path⟩] }
  else { index with byPath := index.byPath.set path node }

/-! ## The projection -/

section

variable [Runtime]

def isPlaceablePart (component : Component) : Bool := component.type ≠ .ground

/-- A component always has a type. -/
def isDrawnOnSheet (_ : Component) : Bool := true

variable (circuit : CircuitJson) (layout : Option LayoutGeometry)

def netNode (n : Net) : TreeNode :=
  { ref := ref .net n.id netsRef.path
    label := n.name
    detail := if n.isGround then some "ground".toList else none
    children := [] }

def netsNode : TreeNode :=
  { ref := netsRef
    label := "Nets".toList
    detail := some (digits circuit.nets.length)
    children := circuit.nets.map netNode }

/-- `netNameById.get(netId) ?? netId`. -/
def netName (netId : Text) : Text :=
  ((Map.fill Net.id Net.name circuit.nets []).get? netId).getD netId

/-- `p.pinId || String(i)`. -/
def pinName (i : Nat) (p : PinConnection) : Text := if p.pinId = [] then digits i else p.pinId

def pinsRef (c : Component) : ObjectRef :=
  ref .pins "pins".toList (ref .component c.id componentsRef.path).path

def pinNode (c : Component) (i : Nat) (p : PinConnection) : TreeNode :=
  { ref := ref .pin (pinName i p) (pinsRef c).path (some c.id)
    label := if p.pinId = [] then "pin".toList ++ digits (i + 1) else p.pinId
    detail := some (netName circuit p.netId)
    children := [] }

/-- The group of the pins, where there are any. -/
def pinsNodes (c : Component) : List TreeNode :=
  if c.pins = [] then []
  else
    [{ ref := pinsRef c
       label := "Pins".toList
       detail := some (digits c.pins.length)
       children := c.pins.mapIdx (pinNode circuit c) }]

/-- `layoutById.get(id)`: the last component of the board with the id. -/
def layoutOf (componentId : Text) : Option LayoutComponent :=
  layout.bind fun l => (Map.fill LayoutComponent.id id l.components []).get? componentId

/-- `lc?.footprint`. -/
def footprintOf (id : Text) : Option Text := (layoutOf layout id).bind LayoutComponent.footprint

def footprintNodes (c : Component) : List TreeNode :=
  match truthy (footprintOf layout c.id) with
  | some footprint =>
    [{ ref := ref .footprint footprint (ref .component c.id componentsRef.path).path
       label := footprint
       children := [] }]
  | none => []

/-- `padsByComponent.get(id) ?? []`. -/
def padsOf (id : Text) : List LayoutPad :=
  ((Map.group LayoutPad.componentId (layout.elim [] LayoutGeometry.pads)).get? id).getD []

def padsRef (c : Component) : ObjectRef :=
  ref .pads "pads".toList (ref .component c.id componentsRef.path).path

def padNode (c : Component) (p : LayoutPad) : TreeNode :=
  { ref := ref .pad p.id (padsRef c).path
    label := (p.sourcePin.or p.pin).getD p.id
    detail := some (p.net.getD "no net".toList)
    children := [] }

/-- The group of the pads, where there are any. -/
def padsNodes (c : Component) : List TreeNode :=
  if padsOf layout c.id = [] then []
  else
    [{ ref := padsRef c
       label := "Pads".toList
       detail := some (digits (padsOf layout c.id).length)
       children := (padsOf layout c.id).map (padNode c) }]

/-- The board is there and does not carry the component. -/
def isMissing (id : Text) : Bool := layout.isSome && (layoutOf layout id).isNone

def componentNode (c : Component) : TreeNode :=
  { ref := ref .component c.id componentsRef.path
    label := c.designator
    detail := some (
      if !isPlaceablePart c then "net marker".toList
      else if isMissing layout c.id then c.type.name ++ " · not on the board".toList
      else c.type.name)
    children := pinsNodes circuit c ++ footprintNodes layout c ++ padsNodes layout c }

/-- `${parts} parts · ${markers} markers`, or the parts where there is no marker. -/
def countText (parts markers : Nat) : Text :=
  if 0 < markers then
    digits parts ++ " parts · ".toList ++ digits markers ++ " markers".toList
  else digits parts

def componentsNode : TreeNode :=
  let drawn := circuit.components.filter isDrawnOnSheet
  let parts := (circuit.components.filter isPlaceablePart).length
  let counted := countText parts (drawn.length - parts)
  { ref := componentsRef
    label := "Components".toList
    detail := some (if layout.isSome then counted ++ " · laid out".toList else counted)
    children := drawn.map (componentNode circuit layout) }

/-- A group and its children, in the order in which they are added. -/
def groupClaims (group : TreeNode) : List TreeNode := group.children ++ [group]

def componentClaims (c : Component) : List TreeNode :=
  (pinsNodes circuit c).flatMap groupClaims ++ footprintNodes layout c ++
    (padsNodes layout c).flatMap groupClaims ++ [componentNode circuit layout c]

def rootNode : TreeNode :=
  { ref := rootRef
    label := "Root".toList
    children := [netsNode circuit, componentsNode circuit layout] }

/-- The nodes in the order in which they are added.  The root comes first: its children are
pushed to it later. -/
def claims : List TreeNode :=
  rootNode circuit layout :: groupClaims (netsNode circuit) ++
    (circuit.components.filter isDrawnOnSheet).flatMap (componentClaims circuit layout) ++
    [componentsNode circuit layout]

def componentUnplaced (c : Component) : List Unplaced :=
  (padsOf layout c.id).filterMap (fun p =>
      if p.sourcePin.isNone then
        some ⟨c.designator ++ '.' :: p.pin.getD p.id, .noSourcePin⟩
      else none) ++
    if isMissing layout c.id then [⟨c.designator, .noLayoutComponent⟩] else []

def boardUnplaced (lc : LayoutComponent) : Option Unplaced :=
  if (Map.fill Component.id id circuit.components []).has lc.id then none
  else some ⟨lc.designator, .noCircuitComponent⟩

def buildObjectTree : ObjectTree :=
  let index := (claims circuit layout).foldl Index.add {}
  { root := rootNode circuit layout
    byPath := index.byPath
    unplaced :=
      (circuit.components.filter isDrawnOnSheet).flatMap (componentUnplaced layout) ++
        (layout.elim [] LayoutGeometry.components).filterMap (boardUnplaced circuit)
    ambiguous := index.ambiguous }

end

def nodeAt (tree : ObjectTree) (path : List Text) : Option TreeNode :=
  tree.byPath.get? (pathKey path)

/-- A node is reached from another one through children. -/
inductive Reaches : TreeNode → TreeNode → Prop
  | here (n : TreeNode) : Reaches n n
  | child {n m k : TreeNode} (h : m ∈ n.children) (hr : Reaches m k) : Reaches n k

/-! ## Path keys -/

theorem isCode_escape : Codes.IsCode fun c : Char =>
    if c = '%' then "%25".toList else if c = '/' then "%2F".toList else [c] where
  nonempty c := by
    split_ifs <;> simp
  decodes {a b s t} h := by
    split_ifs at h <;> simp_all [eq_comm]

theorem escape_eq (s : Text) : replaceAll '/' "%2F".toList (replaceAll '%' "%25".toList s) =
    s.flatMap fun c => if c = '%' then "%25".toList else if c = '/' then "%2F".toList else [c] := by
  rw [replaceAll, replaceAll, List.flatMap_assoc]
  refine List.flatMap_congr fun c _ => ?_
  by_cases hc : c = '%'
  · rw [if_pos hc, if_pos hc]
    rfl
  · rw [if_neg hc, if_neg hc, List.flatMap_singleton]

theorem pathKey_injective {a b : List Text} (ha : a ≠ []) (hb : b ≠ [])
    (h : pathKey a = pathKey b) : a = b := by
  have hsep : ∀ c : Char, '/' ∉
      (if c = '%' then "%25".toList else if c = '/' then "%2F".toList else [c]) := by
    intro c
    split_ifs <;> simp_all [eq_comm]
  refine isCode_escape.joined_injective hsep ha hb ?_
  simpa only [pathKey, join, escape_eq] using h

/-! ## The index -/

/-- The key of a node. -/
def TreeNode.key (node : TreeNode) : Text := pathKey node.ref.path

theorem add_of_mem {index : Index} {node : TreeNode}
    (h : node.key ∈ index.byPath.map Prod.fst) :
    index.add node = { index with ambiguous := index.ambiguous ++ [⟨node.label, node.key⟩] } := by
  have hhas : index.byPath.has node.key = true := by
    rw [Map.has, Option.isSome_iff_ne_none]
    exact fun hnone => Map.get?_eq_none_iff.mp hnone h
  exact if_pos hhas

theorem add_of_notMem {index : Index} {node : TreeNode}
    (h : node.key ∉ index.byPath.map Prod.fst) :
    index.add node = { index with byPath := index.byPath ++ [(node.key, node)] } := by
  have hhas : index.byPath.has node.key = false := by
    rw [Map.has, Map.get?_eq_none_iff.mpr h, Option.isSome_none]
  rw [Index.add, ← TreeNode.key, hhas, Map.set_of_notMem h]
  exact if_neg Bool.false_ne_true

/-- No address is reported where the keys are distinct, and only there. -/
theorem ambiguous_foldl (nodes : List TreeNode) {index : Index} (hkeyed : index.byPath.Keyed) :
    (nodes.foldl Index.add index).ambiguous = [] ↔
      index.ambiguous = [] ∧ (index.byPath.map Prod.fst ++ nodes.map TreeNode.key).Nodup := by
  induction nodes generalizing index with
  | nil =>
    rw [List.map_nil, List.append_nil]
    exact (and_iff_left hkeyed).symm
  | cons node nodes ih =>
    rw [List.foldl_cons]
    by_cases hmem : node.key ∈ index.byPath.map Prod.fst
    · rw [add_of_mem hmem]
      have hlater := @ih ⟨index.byPath, index.ambiguous ++ [⟨node.label, node.key⟩]⟩ hkeyed
      refine hlater.trans ⟨fun h => absurd h.1 ?_, fun h => ?_⟩
      · exact List.append_ne_nil_of_right_ne_nil _ (List.cons_ne_nil _ _)
      · exact absurd rfl ((List.nodup_append.mp h.2).2.2 _ hmem _ List.mem_cons_self)
    · have hkeyed' : Map.Keyed (index.byPath ++ [(node.key, node)]) := by
        rw [← Map.set_of_notMem hmem]
        exact hkeyed.set _ _
      rw [add_of_notMem hmem, ih hkeyed', List.map_append, List.append_assoc]
      exact Iff.rfl

/-- With distinct keys every node is found under its own. -/
theorem byPath_foldl {nodes : List TreeNode} {index : Index}
    (h : (index.byPath.map Prod.fst ++ nodes.map TreeNode.key).Nodup) :
    (nodes.foldl Index.add index).byPath = index.byPath ++ nodes.map fun n => (n.key, n) := by
  induction nodes generalizing index with
  | nil => exact (List.append_nil _).symm
  | cons node nodes ih =>
    have hmem : node.key ∉ index.byPath.map Prod.fst := fun hmem =>
      absurd rfl ((List.nodup_append.mp h).2.2 _ hmem _ List.mem_cons_self)
    rw [List.foldl_cons, add_of_notMem hmem, ih, List.append_assoc]
    · rfl
    · rw [List.map_append, List.append_assoc]
      exact h

/-- The paths of the nodes are not empty, so distinct paths are distinct keys. -/
theorem nodup_key_iff {nodes : List TreeNode} (h : ∀ n ∈ nodes, n.ref.path ≠ []) :
    (nodes.map TreeNode.key).Nodup ↔ (nodes.map fun n => n.ref.path).Nodup := by
  rw [List.Nodup, List.Nodup, List.pairwise_map, List.pairwise_map]
  refine List.Pairwise.iff_of_mem fun {a b} ha hb => ⟨fun hk hp => ?_, fun hp hk => ?_⟩
  · exact hk (congrArg pathKey hp)
  · exact hp (pathKey_injective (h a ha) (h b hb) hk)

/-! ## The nodes that are reached -/

theorem mem_groupClaims {n group : TreeNode} :
    n ∈ groupClaims group ↔ n ∈ group.children ∨ n = group := by
  rw [groupClaims, List.mem_append, List.mem_singleton]

section

variable [Runtime] {circuit : CircuitJson} {layout : Option LayoutGeometry}

theorem children_pin {c : Component} {group n : TreeNode} (hgroup : group ∈ pinsNodes circuit c)
    (hn : n ∈ group.children) : n.children = [] := by
  unfold pinsNodes at hgroup
  split_ifs at hgroup
  · cases hgroup
  · obtain rfl := List.mem_singleton.mp hgroup
    obtain ⟨i, hi, rfl⟩ := List.mem_mapIdx.mp hn
    rfl

theorem children_pad {c : Component} {group n : TreeNode} (hgroup : group ∈ padsNodes layout c)
    (hn : n ∈ group.children) : n.children = [] := by
  unfold padsNodes at hgroup
  split_ifs at hgroup
  · cases hgroup
  · obtain rfl := List.mem_singleton.mp hgroup
    obtain ⟨p, -, rfl⟩ := List.mem_map.mp hn
    rfl

theorem children_footprint {c : Component} {n : TreeNode} (hn : n ∈ footprintNodes layout c) :
    n.children = [] := by
  unfold footprintNodes at hn
  split at hn
  · obtain rfl := List.mem_singleton.mp hn
    rfl
  · cases hn

/-- A component claims the children of what it claims. -/
theorem children_componentClaims {c : Component} {n m : TreeNode}
    (hn : n ∈ componentClaims circuit layout c) (hm : m ∈ n.children) :
    m ∈ componentClaims circuit layout c := by
  simp only [componentClaims, List.mem_append, List.mem_flatMap, mem_groupClaims,
    List.mem_singleton] at hn ⊢
  rcases hn with ((⟨g, hg, hn⟩ | hn) | ⟨g, hg, hn⟩) | rfl
  · rcases hn with hn | rfl
    · rw [children_pin hg hn] at hm
      cases hm
    · exact .inl (.inl (.inl ⟨n, hg, .inl hm⟩))
  · rw [children_footprint hn] at hm
    cases hm
  · rcases hn with hn | rfl
    · rw [children_pad hg hn] at hm
      cases hm
    · exact .inl (.inr ⟨n, hg, .inl hm⟩)
  · simp only [componentNode, List.mem_append] at hm
    rcases hm with (hm | hm) | hm
    · exact .inl (.inl (.inl ⟨m, hm, .inr rfl⟩))
    · exact .inl (.inl (.inr hm))
    · exact .inl (.inr ⟨m, hm, .inr rfl⟩)

theorem mem_claims {n : TreeNode} : n ∈ claims circuit layout ↔
    n = rootNode circuit layout ∨ (n ∈ (netsNode circuit).children ∨ n = netsNode circuit) ∨
      (∃ c ∈ circuit.components.filter isDrawnOnSheet, n ∈ componentClaims circuit layout c) ∨
      n = componentsNode circuit layout := by
  rw [claims, List.cons_append, List.cons_append, List.mem_cons, List.mem_append, List.mem_append,
    mem_groupClaims, List.mem_flatMap, List.mem_singleton, or_assoc]

/-- The children of a node that is added are added. -/
theorem children_claims {n m : TreeNode} (hn : n ∈ claims circuit layout) (hm : m ∈ n.children) :
    m ∈ claims circuit layout := by
  rw [mem_claims] at hn ⊢
  rcases hn with rfl | (hn | rfl) | ⟨c, hc, hn⟩ | rfl
  · rcases List.mem_pair.mp hm with rfl | rfl
    · exact .inr (.inl (.inr rfl))
    · exact .inr (.inr (.inr rfl))
  · obtain ⟨net, -, rfl⟩ := List.mem_map.mp hn
    cases hm
  · exact .inr (.inl (.inl hm))
  · exact .inr (.inr (.inl ⟨c, hc, children_componentClaims hn hm⟩))
  · obtain ⟨c, hc, rfl⟩ := List.mem_map.mp hm
    refine .inr (.inr (.inl ⟨c, hc, ?_⟩))
    exact List.mem_append_right _ (List.mem_singleton_self _)

theorem mem_claims_of_reaches {n m : TreeNode} (hn : n ∈ claims circuit layout)
    (hr : Reaches n m) : m ∈ claims circuit layout := by
  induction hr with
  | here n => exact hn
  | child hm _ ih => exact ih (children_claims hn hm)

/-! ## The paths -/

/-- The paths of a group and of its children, where there are any. -/
def groupPaths (name : Text) (ids : List Text) : List (List Text) :=
  if ids = [] then [] else ids.map (fun id => [name, id]) ++ [[name]]

/-- The path of a footprint that is named. -/
def footprintPaths (footprint : Option Text) : List (List Text) :=
  (truthy footprint).toList.map fun name => [name]

/-- The paths that a component claims, below its own. -/
def relative (layout : Option LayoutGeometry) (c : Component) : List (List Text) :=
  groupPaths "pins".toList (c.pins.mapIdx pinName) ++
    footprintPaths (footprintOf layout c.id) ++
    groupPaths "pads".toList ((padsOf layout c.id).map LayoutPad.id) ++ [[]]

def pathOf (c : Component) : List Text := componentsRef.path ++ [c.id]

theorem paths_componentClaims (c : Component) :
    (componentClaims circuit layout c).map (fun n => n.ref.path) =
      (relative layout c).map (pathOf c ++ ·) := by
  rw [componentClaims, relative]
  simp only [List.map_append]
  congr 1
  · congr 1
    · congr 1
      · unfold pinsNodes groupPaths
        by_cases hpins : c.pins = []
        · rw [if_pos hpins, hpins]
          rfl
        · rw [if_neg hpins, if_neg (by simpa using hpins)]
          simp only [List.flatMap_singleton, groupClaims, List.map_append, List.map_map,
            List.map_singleton]
          congr 1
          refine List.ext_getElem? fun i => ?_
          simp only [List.getElem?_map, List.getElem?_mapIdx, Option.map_map]
          rfl
      · unfold footprintNodes footprintPaths
        split <;> rename_i h <;> rw [h] <;> rfl
    · unfold padsNodes groupPaths
      by_cases hpads : padsOf layout c.id = []
      · rw [if_pos hpads, hpads]
        rfl
      · rw [if_neg hpads, if_neg (by simpa using hpads)]
        simp only [List.flatMap_singleton, groupClaims, List.map_append, List.map_map,
          List.map_singleton]
        rfl

end

/-! ### Distinct names -/

theorem digits_injective {i j : Nat} (h : digits i = digits j) : i = j := by
  rw [← digitsValue_digits i, h, digitsValue_digits]

theorem pinName_blank {i : Nat} {p : PinConnection} (h : p.pinId = []) :
    pinName i p = digits i := if_pos h

theorem pinName_named {i : Nat} {p : PinConnection} (h : p.pinId ≠ []) :
    pinName i p = p.pinId := if_neg h

theorem mem_groupPaths {name : Text} {ids p : List Text} (h : p ∈ groupPaths name ids) :
    ∃ rest, p = name :: rest := by
  unfold groupPaths at h
  split_ifs at h
  · cases h
  · rcases List.mem_append.mp h with h | h
    · obtain ⟨id, -, rfl⟩ := List.mem_map.mp h
      exact ⟨_, rfl⟩
    · exact ⟨_, List.mem_singleton.mp h⟩

theorem singleton_mem_groupPaths {name x : Text} {ids : List Text} :
    [x] ∈ groupPaths name ids ↔ ids ≠ [] ∧ x = name := by
  unfold groupPaths
  split_ifs with h
  · simp [h]
  · simp [h]

theorem nodup_groupPaths {name : Text} {ids : List Text} :
    (groupPaths name ids).Nodup ↔ ids.Nodup := by
  have hinj : Function.Injective fun id : Text => [name, id] :=
    fun a b hab => (List.cons.inj (List.cons.inj hab).2).1
  unfold groupPaths
  split_ifs with h
  · rw [h]
    exact Iff.rfl.trans (by simp)
  · rw [List.nodup_append, List.nodup_map_iff hinj]
    refine ⟨fun hn => hn.1, fun hn => ⟨hn, List.nodup_singleton _, ?_⟩⟩
    rintro _ ha _ hb rfl
    obtain ⟨id, -, rfl⟩ := List.mem_map.mp ha
    exact absurd (List.mem_singleton.mp hb) (by simp)

theorem mem_footprintPaths {footprint : Option Text} {p : List Text} :
    p ∈ footprintPaths footprint ↔ ∃ name, (footprint = some name ∧ name ≠ []) ∧ [name] = p := by
  simp only [footprintPaths, List.mem_map, Option.mem_toList, truthy_eq_some]

theorem footprint_apart {name : Text} (hname : name ≠ []) {ids : List Text}
    {footprint : Option Text} :
    (∀ a ∈ groupPaths name ids, ∀ b ∈ footprintPaths footprint, a ≠ b) ↔
      (ids ≠ [] → footprint ≠ some name) := by
  constructor
  · intro h hids hfootprint
    exact h [name] (singleton_mem_groupPaths.mpr ⟨hids, rfl⟩) [name]
      (mem_footprintPaths.mpr ⟨name, ⟨hfootprint, hname⟩, rfl⟩) rfl
  · rintro h a ha b hb rfl
    obtain ⟨x, ⟨hfootprint, -⟩, rfl⟩ := mem_footprintPaths.mp hb
    obtain ⟨hids, rfl⟩ := singleton_mem_groupPaths.mp ha
    exact h hids hfootprint

/-- Two groups and a footprint claim distinct paths. -/
theorem nodup_groups {name name' : Text} (hname : name ≠ []) (hname' : name' ≠ [])
    (hne : name ≠ name') {ids ids' : List Text} {footprint : Option Text} :
    (groupPaths name ids ++ footprintPaths footprint ++ groupPaths name' ids' ++ [[]]).Nodup ↔
      (ids.Nodup ∧ ids'.Nodup) ∧
        (ids ≠ [] → footprint ≠ some name) ∧ (ids' ≠ [] → footprint ≠ some name') := by
  have hsingle : (footprintPaths footprint).Nodup := by
    unfold footprintPaths
    cases truthy footprint with
    | none => exact List.nodup_nil
    | some x => exact List.nodup_singleton _
  have hgroups : ∀ a ∈ groupPaths name ids, ∀ b ∈ groupPaths name' ids', a ≠ b := by
    rintro a ha b hb rfl
    obtain ⟨rest, rfl⟩ := mem_groupPaths ha
    obtain ⟨rest', h⟩ := mem_groupPaths hb
    exact hne (List.cons.inj h).1
  have hlast : ∀ a ∈ groupPaths name ids ++ footprintPaths footprint ++ groupPaths name' ids',
      ∀ b ∈ [([] : List Text)], a ≠ b := by
    rintro a ha b hb rfl
    obtain rfl := List.mem_singleton.mp hb
    rcases List.mem_append.mp ha with ha | ha
    · rcases List.mem_append.mp ha with ha | ha
      · obtain ⟨rest, h⟩ := mem_groupPaths ha
        cases h
      · obtain ⟨x, -, h⟩ := mem_footprintPaths.mp ha
        cases h
    · obtain ⟨rest, h⟩ := mem_groupPaths ha
      cases h
  have hcomm : (∀ a ∈ footprintPaths footprint, ∀ b ∈ groupPaths name' ids', a ≠ b) ↔
      (ids' ≠ [] → footprint ≠ some name') := by
    rw [← footprint_apart hname']
    exact ⟨fun h b hb a ha => (h a ha b hb).symm, fun h a ha b hb => (h b hb a ha).symm⟩
  rw [List.nodup_append, and_iff_left ⟨List.nodup_singleton _, hlast⟩, List.nodup_append,
    List.nodup_append, nodup_groupPaths, nodup_groupPaths, footprint_apart hname]
  simp only [List.forall_mem_append, hsingle, true_and, hcomm]
  constructor
  · rintro ⟨⟨hids, hf⟩, hids', -, hf'⟩
    exact ⟨⟨hids, hids'⟩, hf, hf'⟩
  · rintro ⟨⟨hids, hids'⟩, hf, hf'⟩
    exact ⟨⟨hids, hf⟩, hids', hgroups, hf'⟩

section

variable [Runtime] {layout : Option LayoutGeometry}

/-- Two pins of one component that have an id have different ones. -/
def Component.DistinctPins (c : Component) : Prop :=
  c.pins.Pairwise fun p q => p.pinId ≠ [] → p.pinId ≠ q.pinId

/-- No pin has the id that the index of a blank one is written as. -/
def BlanksApart (c : Component) : Prop :=
  ∀ i (h : i < c.pins.length), c.pins[i].pinId = [] → ∀ p ∈ c.pins, p.pinId ≠ digits i

/-- The footprint is called as no group that the component has. -/
def FootprintApart (layout : Option LayoutGeometry) (c : Component) : Prop :=
  (c.pins ≠ [] → footprintOf layout c.id ≠ some "pins".toList) ∧
    (padsOf layout c.id ≠ [] → footprintOf layout c.id ≠ some "pads".toList)

theorem nodup_pinNames {c : Component} (h : Component.DistinctPins c) :
    (c.pins.mapIdx pinName).Nodup ↔ BlanksApart c := by
  rw [List.Nodup, List.pairwise_iff_getElem]
  simp only [List.getElem_mapIdx, List.length_mapIdx]
  have hdistinct := List.pairwise_iff_getElem.mp h
  constructor
  · intro hn i hi hblank p hp heq
    obtain ⟨j, hj, rfl⟩ := List.mem_iff_getElem.mp hp
    have hnamed : c.pins[j].pinId ≠ [] := by
      rw [heq]
      exact Nat.toDigits_ne_nil
    have hsame : pinName i c.pins[i] = pinName j c.pins[j] := by
      rw [pinName_blank hblank, pinName_named hnamed, heq]
    rcases Nat.lt_trichotomy i j with hij | rfl | hij
    · exact hn i j hi hj hij hsame
    · exact hnamed hblank
    · exact hn j i hj hi hij hsame.symm
  · intro hb i j hi hj hij hsame
    by_cases hi₀ : c.pins[i].pinId = []
    · rw [pinName_blank hi₀] at hsame
      by_cases hj₀ : c.pins[j].pinId = []
      · rw [pinName_blank hj₀] at hsame
        exact Nat.ne_of_lt hij (digits_injective hsame)
      · rw [pinName_named hj₀] at hsame
        exact hb i hi hi₀ _ (List.getElem_mem hj) hsame.symm
    · rw [pinName_named hi₀] at hsame
      by_cases hj₀ : c.pins[j].pinId = []
      · rw [pinName_blank hj₀] at hsame
        exact hb j hj hj₀ _ (List.getElem_mem hi) hsame
      · rw [pinName_named hj₀] at hsame
        exact hdistinct i j hi hj hij hi₀ hsame

/-- A component claims distinct paths where its own names stay apart. -/
theorem nodup_relative {c : Component} (h : Component.DistinctPins c)
    (hpads : ((padsOf layout c.id).map LayoutPad.id).Nodup) :
    (relative layout c).Nodup ↔ BlanksApart c ∧ FootprintApart layout c := by
  rw [relative, nodup_groups (by decide) (by decide) (by decide), and_iff_left hpads,
    nodup_pinNames h, FootprintApart]
  simp only [ne_eq, List.mapIdx_eq_nil_iff, List.map_eq_nil_iff]

end

/-! ### All paths -/

theorem netsRef_path : netsRef.path = rootRef.path ++ ["nets".toList] := rfl

theorem componentsRef_path : componentsRef.path = rootRef.path ++ ["components".toList] := rfl

/-- What the claim is about: the ids that are distinct. -/
structure Distinct [Runtime] (circuit : CircuitJson) (layout : Option LayoutGeometry) : Prop where
  components : (circuit.components.map Component.id).Nodup
  nets : (circuit.nets.map Net.id).Nodup
  pins : ∀ c ∈ circuit.components, Component.DistinctPins c
  pads : ((layout.elim [] LayoutGeometry.pads).map LayoutPad.id).Nodup

section

variable [Runtime] {circuit : CircuitJson} {layout : Option LayoutGeometry}

theorem nodup_padsOf (h : Distinct circuit layout) (componentId : Text) :
    ((padsOf layout componentId).map LayoutPad.id).Nodup := by
  rw [padsOf, Map.get?_group]
  split
  · exact h.pads.sublist (List.filter_sublist.map _)
  · exact List.nodup_nil

/-- The paths of all components. -/
def componentsPaths (layout : Option LayoutGeometry) (cs : List Component) : List (List Text) :=
  cs.flatMap fun c => (relative layout c).map (pathOf c ++ ·)

theorem nodup_componentsPaths {cs : List Component} (hids : (cs.map Component.id).Nodup) :
    (componentsPaths layout cs).Nodup ↔ ∀ c ∈ cs, (relative layout c).Nodup := by
  have hinj : ∀ c : Component, Function.Injective (pathOf c ++ ·) :=
    fun c a b hab => List.append_cancel_left hab
  rw [componentsPaths, List.nodup_flatMap]
  refine ⟨fun h c hc => (List.nodup_map_iff (hinj c)).mp (h.1 c hc), fun h =>
    ⟨fun c hc => (h c hc).map (hinj c), ?_⟩⟩
  refine (List.pairwise_map.mp hids).imp fun {c c'} hne p hp hp' => ?_
  obtain ⟨a, -, rfl⟩ := List.mem_map.mp hp
  obtain ⟨a', -, h⟩ := List.mem_map.mp hp'
  have hpath : pathOf c' = pathOf c := List.append_inj_left h rfl
  exact hne (List.cons.inj (List.append_cancel_left hpath)).1.symm

theorem paths_claims (circuit : CircuitJson) (layout : Option LayoutGeometry) :
    (claims circuit layout).map (fun n => n.ref.path) =
      rootRef.path :: (circuit.nets.map (fun n => netsRef.path ++ [n.id]) ++ [netsRef.path]) ++
        componentsPaths layout circuit.components ++ [componentsRef.path] := by
  have hdrawn : circuit.components.filter isDrawnOnSheet = circuit.components :=
    List.filter_eq_self.mpr fun _ _ => rfl
  rw [claims, hdrawn]
  simp only [List.map_append, List.map_cons, List.map_nil, List.map_flatMap, groupClaims,
    paths_componentClaims, netsNode, List.map_map]
  rfl

/-- Every path below the root and its two groups. -/
theorem mem_componentsPaths {cs : List Component} {p : List Text}
    (h : p ∈ componentsPaths layout cs) :
    ∃ id rest, p = componentsRef.path ++ id :: rest := by
  obtain ⟨c, -, hp⟩ := List.mem_flatMap.mp h
  obtain ⟨a, -, rfl⟩ := List.mem_map.mp hp
  exact ⟨c.id, a, by rw [pathOf, List.append_assoc, List.singleton_append]⟩

/-- The paths of the nets. -/
def netsPaths (nets : List Net) : List (List Text) :=
  nets.map (fun n => netsRef.path ++ [n.id]) ++ [netsRef.path]

omit [Runtime] in
theorem mem_netsPaths {nets : List Net} {p : List Text} (h : p ∈ netsPaths nets) :
    ∃ rest, p = netsRef.path ++ rest := by
  rcases List.mem_append.mp h with h | h
  · obtain ⟨n, -, rfl⟩ := List.mem_map.mp h
    exact ⟨_, rfl⟩
  · exact ⟨[], by rw [List.mem_singleton.mp h, List.append_nil]⟩

omit [Runtime] in
theorem nodup_netsPaths {nets : List Net} (h : (nets.map Net.id).Nodup) :
    (netsPaths nets).Nodup := by
  have hmap : (nets.map fun n => netsRef.path ++ [n.id]) =
      (nets.map Net.id).map fun id => netsRef.path ++ [id] := by
    rw [List.map_map]
    rfl
  refine List.nodup_append.mpr ⟨?_, List.nodup_singleton _, ?_⟩
  · rw [hmap]
    exact h.map fun a b hab => (List.cons.inj (List.append_cancel_left hab)).1
  · rintro _ ha _ hb rfl
    obtain ⟨n, -, rfl⟩ := List.mem_map.mp ha
    exact absurd (List.mem_singleton.mp hb) (by simp)

omit [Runtime] in
/-- A path of the nets is none of the components. -/
theorem nets_ne_components {a b : List Text} : netsRef.path ++ a ≠ componentsRef.path ++ b := by
  intro h
  rw [netsRef_path, componentsRef_path, List.append_assoc, List.append_assoc] at h
  exact absurd (List.cons.inj (List.append_cancel_left h)).1 (by decide)

theorem nodup_claims (h : Distinct circuit layout) :
    ((claims circuit layout).map fun n => n.ref.path).Nodup ↔
      ∀ c ∈ circuit.components, BlanksApart c ∧ FootprintApart layout c := by
  have hrelative : (∀ c ∈ circuit.components, (relative layout c).Nodup) ↔
      ∀ c ∈ circuit.components, BlanksApart c ∧ FootprintApart layout c :=
    forall₂_congr fun c hc => nodup_relative (h.pins c hc) (nodup_padsOf h c.id)
  have hroot : ∀ a : List Text, a ≠ [] → rootRef.path ≠ rootRef.path ++ a :=
    fun a ha heq => ha (List.self_eq_append_right.mp heq)
  have hbelow : ∀ p ∈ netsPaths circuit.nets ++
      (componentsPaths layout circuit.components ++ [componentsRef.path]), rootRef.path ≠ p := by
    intro p hp
    rcases List.mem_append.mp hp with hp | hp
    · obtain ⟨rest, rfl⟩ := mem_netsPaths hp
      rw [netsRef_path, List.append_assoc]
      exact hroot _ (List.cons_ne_nil _ _)
    · rcases List.mem_append.mp hp with hp | hp
      · obtain ⟨id, rest, rfl⟩ := mem_componentsPaths hp
        rw [componentsRef_path, List.append_assoc]
        exact hroot _ (List.cons_ne_nil _ _)
      · rw [List.mem_singleton.mp hp, componentsRef_path]
        exact hroot _ (List.cons_ne_nil _ _)
  have hnets : ∀ p ∈ netsPaths circuit.nets,
      ∀ q ∈ componentsPaths layout circuit.components ++ [componentsRef.path], p ≠ q := by
    intro p hp q hq
    obtain ⟨rest, rfl⟩ := mem_netsPaths hp
    rcases List.mem_append.mp hq with hq | hq
    · obtain ⟨id, rest', rfl⟩ := mem_componentsPaths hq
      exact nets_ne_components
    · rw [List.mem_singleton.mp hq, ← List.append_nil componentsRef.path]
      exact nets_ne_components
  have hlast : ∀ p ∈ componentsPaths layout circuit.components,
      ∀ q ∈ [componentsRef.path], p ≠ q := by
    intro p hp q hq heq
    obtain ⟨id, rest, rfl⟩ := mem_componentsPaths hp
    rw [List.mem_singleton.mp hq] at heq
    exact List.cons_ne_nil id rest (List.append_right_eq_self.mp heq)
  rw [paths_claims, ← netsPaths, List.append_assoc, List.cons_append, List.nodup_cons,
    List.nodup_append, List.nodup_append, ← hrelative, ← nodup_componentsPaths h.components]
  constructor
  · exact fun hn => hn.2.2.1.1
  · exact fun hn => ⟨fun hmem => hbelow _ hmem rfl, nodup_netsPaths h.nets,
      ⟨hn, List.nodup_singleton _, hlast⟩, hnets⟩

/-! ## Addresses -/

/-- No address is claimed twice, and every node that is reached from the root is found under its
path. -/
def Addressed (tree : ObjectTree) : Prop :=
  tree.ambiguous = [] ∧ ∀ node, Reaches tree.root node → nodeAt tree node.ref.path = some node

theorem path_ne_nil {n : TreeNode} (h : n ∈ claims circuit layout) : n.ref.path ≠ [] := by
  have hp : n.ref.path ∈ (claims circuit layout).map fun n => n.ref.path := List.mem_map_of_mem h
  rw [paths_claims] at hp
  intro hnil
  rw [hnil] at hp
  simp [componentsPaths, pathOf, componentsRef, netsRef, rootRef, ref] at hp

/-- Keys name one list of segments each, and every object has its own address where no pin has the
id a blank one falls back to and no footprint is called like a group beside it, and only there. -/
theorem addressed_iff (h : Distinct circuit layout) :
    (∀ a b : List Text, a ≠ [] → b ≠ [] → pathKey a = pathKey b → a = b) ∧
      (Addressed (buildObjectTree circuit layout) ↔
        ∀ c ∈ circuit.components, BlanksApart c ∧ FootprintApart layout c) := by
  refine ⟨fun a b ha hb => pathKey_injective ha hb, ?_⟩
  have hkeys := nodup_key_iff fun n (hn : n ∈ claims circuit layout) => path_ne_nil hn
  have hambiguous : (buildObjectTree circuit layout).ambiguous = [] ↔
      ((claims circuit layout).map TreeNode.key).Nodup :=
    (ambiguous_foldl _ Map.Keyed.nil).trans (and_iff_right rfl)
  rw [Addressed, hambiguous, ← nodup_claims h, ← hkeys]
  refine and_iff_left_of_imp fun hn node hr => ?_
  have hmem : node ∈ claims circuit layout :=
    mem_claims_of_reaches (List.mem_cons_self) hr
  have hpath : (buildObjectTree circuit layout).byPath =
      (claims circuit layout).map fun n => (n.key, n) := byPath_foldl hn
  rw [nodeAt, hpath]
  refine Map.get?_of_mem ?_ (List.mem_map_of_mem hmem)
  rw [Map.Keyed, List.map_map]
  exact hn

end

/-! ## Two small designs -/

/-- A resistor with a pin for each id. -/
def resistorWith (pinIds : List String) : CircuitJson where
  components :=
    [{ id := "r1".toList
       type := .resistor
       designator := "R1".toList
       pins := pinIds.map fun pinId => ⟨pinId.toList, "gnd".toList⟩ }]
  nets := [{ id := "gnd".toList, name := "GND".toList, isGround := true }]

/-- A board that carries the resistor. -/
def boardWith (footprint : String) : LayoutGeometry where
  components := [⟨"r1".toList, "R1".toList, some footprint.toList⟩]
  pads := [⟨"pad1".toList, "r1".toList, none, none, none⟩]

theorem distinct_resistorWith {pinIds : List String} {footprint : String}
    (h : (pinIds.map String.toList).Pairwise fun p q => p ≠ [] → p ≠ q) :
    Distinct (resistorWith pinIds) (some (boardWith footprint)) where
  components := List.nodup_singleton _
  nets := List.nodup_singleton _
  pins c hc := by
    obtain rfl := List.mem_singleton.mp hc
    exact List.pairwise_map.mpr (List.pairwise_map.mp h)
  pads := List.nodup_singleton _

/-- Two blank pins beside a named one. -/
theorem addressed_iff_blanks :
    (∀ a b : List Text, a ≠ [] → b ≠ [] → pathKey a = pathKey b → a = b) ∧
      (Addressed (buildObjectTree (resistorWith ["", "a/b", ""]) (some (boardWith "0402"))) ↔
        ∀ c ∈ (resistorWith ["", "a/b", ""]).components,
          BlanksApart c ∧ FootprintApart (some (boardWith "0402")) c) :=
  addressed_iff (distinct_resistorWith (by decide))

/-- A blank pin falls back to the id of its neighbour, and a footprint is called like the pads. -/
theorem not_addressed :
    (Distinct (resistorWith ["1", ""]) (some (boardWith "0402")) ∧
        ¬ Addressed (buildObjectTree (resistorWith ["1", ""]) (some (boardWith "0402")))) ∧
      Distinct (resistorWith ["1", "2"]) (some (boardWith "pads")) ∧
        ¬ Addressed (buildObjectTree (resistorWith ["1", "2"]) (some (boardWith "pads"))) := by
  refine ⟨⟨distinct_resistorWith (by decide), fun h => ?_⟩,
    distinct_resistorWith (by decide), fun h => ?_⟩
  · exact absurd h.1 (by decide +kernel)
  · exact absurd h.1 (by decide +kernel)

end CircuitForge.Objects
