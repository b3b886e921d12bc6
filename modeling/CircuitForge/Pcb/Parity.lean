/-
The connectivity-parity check: `pcb-core/src/parity.ts`.

The evaluated board is compared with the expected pin-net pairs.  Ports and nets
are named by their ids, and a trace connects everything it mentions.
-/
import CircuitForge.Js.UnionFind
import CircuitForge.Netlist.Sanitizer

namespace CircuitForge

open Js

/-- `TscElement`: the elements the check reads, with their fields as text. -/
inductive TscElement where
  | sourceComponent (sourceComponentId name : Text)
  | sourcePort (sourcePortId sourceComponentId name : Text) (portHints : Option (List Text))
      (connectivityKey : Option Text)
  | sourceNet (sourceNetId name : Text)
  | sourceTrace (connectedSourcePortIds connectedSourceNetIds : Option (List Text))
  | other

structure PinExpectation where
  name : Text
  pinId : Text
  selector : Text
  port : Text
  netName : Text
  deriving DecidableEq

inductive Severity where
  | error | warning | info
  deriving DecidableEq

/-- The codes this check reports. -/
inductive ParityCode where
  | pcb020 | pcb021 | pcb022 | pcb023 | pcb024 | pcb025 | pcb026
  deriving DecidableEq

structure LayoutDiagnostic where
  code : ParityCode
  severity : Severity
  message : Text

structure ParityResult where
  ok : Bool
  diagnostics : List LayoutDiagnostic
  checkedPins : Nat
  expectedPins : Nat

structure PortRec where
  id : Text
  componentName : Text
  /-- The name and the port hints. -/
  names : List Text
  connKey : Option Text
  deriving DecidableEq

def parityError (code : ParityCode) (message : Text) : LayoutDiagnostic := ⟨code, .error, message⟩

/-! ## The source model -/

def componentNameById (evaluated : List TscElement) : Map Text Text :=
  Map.fill Prod.fst Prod.snd (evaluated.filterMap fun
    | .sourceComponent id name => some (id, name)
    | _ => none) []

/-- The records of the source ports, in order. -/
def portRecs (evaluated : List TscElement) : List PortRec :=
  evaluated.filterMap fun
    | .sourcePort id componentId name hints key => some
      { id
        componentName := ((componentNameById evaluated).get? componentId).getD []
        names := name :: hints.getD []
        connKey := truthy key }
    | _ => none

/-- `ports`: a repeated id keeps its place and takes the later record. -/
def portsById (evaluated : List TscElement) : Map Text PortRec :=
  Map.fill PortRec.id id (portRecs evaluated) []

def portsByComponent (recs : List PortRec) (m : Map Text (List PortRec)) :
    Map Text (List PortRec) :=
  recs.foldl (fun m r => m.set r.componentName ((m.get? r.componentName).getD [] ++ [r])) m

def netIdByName (evaluated : List TscElement) : Map Text Text :=
  Map.fill Prod.fst Prod.snd (evaluated.filterMap fun
    | .sourceNet id name => some (name, id)
    | _ => none) []

/-- What each trace mentions, ports before nets. -/
def traceMembers (evaluated : List TscElement) : List (List Text) :=
  evaluated.filterMap fun
    | .sourceTrace portIds netIds => some (portIds.getD [] ++ netIds.getD [])
    | _ => none

/-- The pairs a trace unites: its first member with each of the others. -/
def tracePairs : List Text → List (Text × Text)
  | [] => []
  | first :: rest => rest.map fun member => (first, member)

/-- Our union-find over the traces. -/
def traceGroups (evaluated : List TscElement) : Map Text Text :=
  (traceMembers evaluated).foldl (fun uf members => UnionFind.unions (tracePairs members) uf) []

/-! ## The check -/

/-- `exp.selector.split('>')[1]?.trim().replace(/^\./, '') ?? ''`. -/
def portNameOf (exp : PinExpectation) : Text :=
  match (exp.selector.splitOn '>')[1]? with
  | some half => dropDot (trim half)
  | none => []

structure ParityState where
  uf : Map Text Text
  /-- The group of each expected net whose first pin has been checked. -/
  groupByExpectedNet : Map Text Text
  diagnostics : List LayoutDiagnostic
  checked : Nat

/-- The shorts a net's first pin reveals. -/
def shortsWith (groups : Map Text Text) (netName portGroup : Text) : List LayoutDiagnostic :=
  (groups.filter fun e => e.2 = portGroup ∧ e.1 ≠ netName).map fun e =>
    parityError .pcb023 ("parity: nets ".toList ++ e.1 ++ " and ".toList ++ netName ++
      " are SHORTED in the evaluated board.".toList)

/-- One expected pin in our view. -/
def checkPin (evaluated : List TscElement) (st : ParityState) (exp : PinExpectation) :
    ParityState :=
  let candidates := ((portsByComponent (portRecs evaluated) []).get? exp.name).getD []
  match candidates.filter fun p => portNameOf exp ∈ p.names with
  | first :: second :: rest =>
    { st with diagnostics := st.diagnostics ++ [parityError .pcb025
        ("parity: selector ".toList ++ exp.selector ++ " matches ".toList ++
          Nat.toDigits 10 (first :: second :: rest).length ++ " ports (upstream alias ".toList ++
          "collision) — connectivity cannot be certified.".toList)] }
  | [] =>
    { st with diagnostics := st.diagnostics ++ [parityError .pcb020
        ("parity: port ".toList ++ exp.selector ++ " not found in the evaluated board ".toList ++
          "(expected on net ".toList ++ exp.netName ++ ").".toList)] }
  | [port] =>
    match truthy ((netIdByName evaluated).get? exp.netName) with
    | none =>
      { st with diagnostics := st.diagnostics ++ [parityError .pcb021
          ("parity: net \"".toList ++ exp.netName ++
            "\" was not materialized in the evaluated board.".toList)] }
    | some netId =>
      let (uf, portGroup) := UnionFind.find st.uf port.id
      let (uf, netGroup) := UnionFind.find uf netId
      if portGroup ≠ netGroup then
        { st with
          uf
          diagnostics := st.diagnostics ++ [parityError .pcb022
            ("parity: ".toList ++ exp.selector ++ " is NOT connected to net ".toList ++
              exp.netName ++ " in the evaluated board.".toList)] }
      else
        match st.groupByExpectedNet.get? exp.netName with
        | some _ => { st with uf, checked := st.checked + 1 }
        | none =>
          { uf
            groupByExpectedNet := st.groupByExpectedNet.set exp.netName portGroup
            diagnostics := st.diagnostics ++
              shortsWith st.groupByExpectedNet exp.netName portGroup
            checked := st.checked + 1 }

/-- The state of the second view: the union-find, the group of each key, the report. -/
structure KeyState where
  uf : Map Text Text
  keyToGroup : Map Text Text
  diagnostics : List LayoutDiagnostic

/-- One port in tscircuit's own view. -/
def checkKey (st : KeyState) (port : PortRec) : KeyState :=
  match port.connKey with
  | none => st
  | some key =>
    let (uf, group) := UnionFind.find st.uf port.id
    match st.keyToGroup.get? key with
    | none => { st with uf, keyToGroup := st.keyToGroup.set key group }
    | some prior =>
      if prior ≠ group then
        { st with
          uf
          diagnostics := st.diagnostics ++ [parityError .pcb024
            ("parity: tscircuit's connectivity key ".toList ++ key ++
              " spans two of OUR trace-derived groups — the two views disagree; treat the ".toList ++
              "board as unverified.".toList)] }
      else { st with uf }

def checkConnectivityParity (evaluated : List TscElement) (expectations : List PinExpectation) :
    ParityResult :=
  if expectations = [] then
    { ok := false
      diagnostics := [parityError .pcb026
        ("parity: no pin expectations — nothing was verified; refusing a vacuous ".toList ++
          "pass.".toList)]
      checkedPins := 0
      expectedPins := 0 }
  else
    let st := expectations.foldl (checkPin evaluated) ⟨traceGroups evaluated, [], [], 0⟩
    let keys := ((portsById evaluated).map Prod.snd).foldl checkKey ⟨st.uf, [], st.diagnostics⟩
    { ok := !keys.diagnostics.any fun d => d.severity = .error
      diagnostics := keys.diagnostics
      checkedPins := st.checked
      expectedPins := expectations.length }

/-! ## What the parts compute -/

theorem portsByComponent_get? (recs : List PortRec) (m : Map Text (List PortRec)) (name : Text) :
    ((portsByComponent recs m).get? name).getD [] =
      (m.get? name).getD [] ++ recs.filter fun r => r.componentName = name := by
  induction recs generalizing m with
  | nil => exact (List.append_nil _).symm
  | cons r recs ih =>
    have hstep : portsByComponent (r :: recs) m =
        portsByComponent recs (m.set r.componentName ((m.get? r.componentName).getD [] ++ [r])) := rfl
    rw [hstep, ih, Map.get?_set]
    by_cases h : r.componentName = name
    · subst h
      rw [if_pos rfl, List.filter_cons_of_pos (by simp), Option.getD_some, List.append_assoc,
        List.singleton_append]
    · rw [if_neg h, List.filter_cons_of_neg (by simpa using h)]

/-- The source ports an expected pin can stand for. -/
def resolve (evaluated : List TscElement) (exp : PinExpectation) : List PortRec :=
  (portRecs evaluated).filter fun p => p.componentName = exp.name ∧ portNameOf exp ∈ p.names

theorem candidates_eq (evaluated : List TscElement) (exp : PinExpectation) :
    ((((portsByComponent (portRecs evaluated) []).get? exp.name).getD []).filter fun p =>
      decide (portNameOf exp ∈ p.names)) = resolve evaluated exp := by
  rw [portsByComponent_get?, Map.get?_nil, Option.getD_none, List.nil_append, List.filter_filter,
    resolve]
  refine List.filter_congr fun p _ => ?_
  rw [Bool.and_comm, Bool.decide_and]

/-- Two ids are connected through the traces: the equivalence that joins what one trace
mentions. -/
def Connected (evaluated : List TscElement) : Text → Text → Prop :=
  Relation.EqvGen fun x y => ∃ members ∈ traceMembers evaluated, x ∈ members ∧ y ∈ members

theorem traceGroups_eq (evaluated : List TscElement) :
    traceGroups evaluated = UnionFind.unions ((traceMembers evaluated).flatMap tracePairs) [] := by
  rw [traceGroups]
  generalize ([] : Map Text Text) = uf
  induction traceMembers evaluated generalizing uf with
  | nil => rfl
  | cons members rest ih =>
    rw [List.foldl_cons, ih, List.flatMap_cons]
    exact (List.foldl_append ..).symm

/-- The pairs of a trace generate the connection of all it mentions. -/
theorem connected_iff (evaluated : List TscElement) (x y : Text) :
    Relation.EqvGen (fun x y => (x, y) ∈ (traceMembers evaluated).flatMap tracePairs) x y ↔
      Connected evaluated x y := by
  constructor
  · refine Relation.EqvGen.mono (fun x y h => ?_) x y
    obtain ⟨members, hm, h⟩ := List.mem_flatMap.mp h
    refine ⟨members, hm, ?_⟩
    cases members with
    | nil => cases h
    | cons first rest =>
      obtain ⟨member, hr, he⟩ := List.mem_map.mp h
      cases he
      exact ⟨List.mem_cons_self, List.mem_cons_of_mem _ hr⟩
  · intro h
    have hfirst : ∀ (first : Text) (rest : List Text), first :: rest ∈ traceMembers evaluated →
        ∀ z ∈ first :: rest, Relation.EqvGen
          (fun x y => (x, y) ∈ (traceMembers evaluated).flatMap tracePairs) first z := by
      intro first rest hm z hz
      rcases List.mem_cons.mp hz with rfl | hz
      · exact .refl _
      · exact .rel _ _ (List.mem_flatMap.mpr ⟨_, hm, List.mem_map_of_mem hz⟩)
    induction h with
    | rel x y h =>
      obtain ⟨members, hm, hx, hy⟩ := h
      cases members with
      | nil => cases hx
      | cons first rest =>
        exact ((hfirst first rest hm x hx).symm _ _).trans _ _ _ (hfirst first rest hm y hy)
    | refl x => exact .refl x
    | symm x y _ ih => exact ih.symm _ _
    | trans x y z _ _ ih₁ ih₂ => exact ih₁.trans _ _ _ ih₂

/-- The groups name one root for each set of connected ids. -/
theorem traceGroups_rooted (evaluated : List TscElement) :
    ∃ root : Text → Text, UnionFind.Rooted (traceGroups evaluated) root ∧
      ∀ x y, root x = root y ↔ Connected evaluated x y := by
  obtain ⟨root, hr, hn⟩ := UnionFind.unions_rooted UnionFind.rooted_nil UnionFind.names_id
    ((traceMembers evaluated).flatMap tracePairs)
  refine ⟨root, by rwa [traceGroups_eq], fun x y => ?_⟩
  rw [hn x y, ← connected_iff]
  simp only [false_or]

/-! ## The check -/

/-- What the pins checked so far have established, where nothing was reported. -/
structure PinsChecked (evaluated : List TscElement) (root : Text → Text)
    (done : List PinExpectation) (st : ParityState) : Prop where
  rooted : UnionFind.Rooted st.uf root
  /-- Each pin is one port, in the group of its net. -/
  pins : ∀ exp ∈ done, ∃ port, resolve evaluated exp = [port] ∧
    st.groupByExpectedNet.get? exp.netName = some (root port.id)
  /-- A net's group is that of its id, -/
  groups : ∀ netName group, st.groupByExpectedNet.get? netName = some group →
    ∃ netId, (netIdByName evaluated).get? netName = some netId ∧ group = root netId
  /-- and no two nets share one. -/
  apart : ∀ netName netName' group, st.groupByExpectedNet.get? netName = some group →
    st.groupByExpectedNet.get? netName' = some group → netName = netName'

theorem shortsWith_eq_nil {groups : Map Text Text} {netName group : Text}
    (h : shortsWith groups netName group = []) {other : Text} (ho : (other, group) ∈ groups) :
    other = netName := by
  by_contra hne
  have hmem : (other, group) ∈ groups.filter fun e => e.2 = group ∧ e.1 ≠ netName :=
    List.mem_filter.mpr ⟨ho, by simp [hne]⟩
  rw [shortsWith, List.map_eq_nil_iff] at h
  rw [h] at hmem
  cases hmem

/-- The state after a pin that is one port in the group of its net. -/
theorem PinsChecked.step {evaluated : List TscElement} {root : Text → Text}
    {done : List PinExpectation} {st : ParityState} (h : PinsChecked evaluated root done st)
    {exp : PinExpectation} {port : PortRec} (hport : resolve evaluated exp = [port])
    {netId : Text} (hnet : (netIdByName evaluated).get? exp.netName = some netId)
    (hroot : root port.id = root netId) {uf groups : Map Text Text} {ds : List LayoutDiagnostic}
    {n : Nat} (huf : UnionFind.Rooted uf root)
    (hgroups : (st.groupByExpectedNet.get? exp.netName = some (root port.id) ∧
        groups = st.groupByExpectedNet) ∨
      (st.groupByExpectedNet.get? exp.netName = none ∧
        groups = st.groupByExpectedNet.set exp.netName (root port.id) ∧
        shortsWith st.groupByExpectedNet exp.netName (root port.id) = [])) :
    PinsChecked evaluated root (done ++ [exp]) ⟨uf, groups, ds, n⟩ := by
  rcases hgroups with ⟨hget, rfl⟩ | ⟨hget, rfl, hshorts⟩
  · refine ⟨huf, fun e he => ?_, h.groups, h.apart⟩
    rcases List.mem_append.mp he with he | he
    · exact h.pins e he
    · rw [List.mem_singleton.mp he]
      exact ⟨port, hport, hget⟩
  · have hset := fun name => Map.get?_set st.groupByExpectedNet exp.netName name (root port.id)
    refine ⟨huf, fun e he => ?_, fun netName group hg => ?_, fun netName netName' group hg hg' => ?_⟩
    · rcases List.mem_append.mp he with he | he
      · obtain ⟨p, hp, hg⟩ := h.pins e he
        refine ⟨p, hp, ?_⟩
        have hne : exp.netName ≠ e.netName := fun heq => by
          rw [← heq, hget] at hg
          cases hg
        rw [hset, if_neg hne, hg]
      · rw [List.mem_singleton.mp he]
        exact ⟨port, hport, Map.get?_set_self ..⟩
    · rw [hset] at hg
      split at hg
      case isTrue heq =>
        cases hg
        exact ⟨netId, heq ▸ hnet, hroot⟩
      case isFalse => exact h.groups netName group hg
    · have hold : ∀ other, st.groupByExpectedNet.get? other = some (root port.id) →
          other = exp.netName := fun other ho =>
        shortsWith_eq_nil hshorts (Map.mem_of_get? ho)
      rw [hset] at hg hg'
      split at hg <;> split at hg'
      case isTrue.isTrue h₁ h₂ => exact h₁.symm.trans h₂
      case isTrue.isFalse h₁ h₂ =>
        cases hg
        exact absurd (hold netName' hg').symm h₂
      case isFalse.isTrue h₁ h₂ =>
        cases hg'
        exact absurd (hold netName hg).symm h₁
      case isFalse.isFalse => exact h.apart netName netName' group hg hg'

theorem forall_severity_append {ds ds' : List LayoutDiagnostic}
    (h : ∀ d ∈ ds, d.severity = .error) (h' : ∀ d ∈ ds', d.severity = .error) :
    ∀ d ∈ ds ++ ds', d.severity = .error :=
  fun d hd => (List.mem_append.mp hd).elim (h d) (h' d)

theorem severity_parityError (code : ParityCode) (message : Text) :
    ∀ d ∈ [parityError code message], d.severity = .error := by
  intro d hd
  rw [List.mem_singleton.mp hd]
  rfl

theorem severity_shortsWith (groups : Map Text Text) (netName group : Text) :
    ∀ d ∈ shortsWith groups netName group, d.severity = .error := by
  intro d hd
  obtain ⟨e, _, rfl⟩ := List.mem_map.mp hd
  rfl

/-- A pin adds to the report, and where it adds nothing it has been established. -/
theorem checkPin_spec {evaluated : List TscElement} {root : Text → Text}
    {done : List PinExpectation} {st : ParityState} (exp : PinExpectation)
    (h : st.diagnostics = [] → PinsChecked evaluated root done st)
    (hall : ∀ d ∈ st.diagnostics, d.severity = .error) :
    ((checkPin evaluated st exp).diagnostics = [] →
      PinsChecked evaluated root (done ++ [exp]) (checkPin evaluated st exp)) ∧
    ∀ d ∈ (checkPin evaluated st exp).diagnostics, d.severity = .error := by
  unfold checkPin
  simp only [candidates_eq]
  split
  case h_1 =>
    exact ⟨fun hd => absurd (List.append_eq_nil_iff.mp hd).2 (List.cons_ne_nil _ _),
      forall_severity_append hall (severity_parityError _ _)⟩
  case h_2 =>
    exact ⟨fun hd => absurd (List.append_eq_nil_iff.mp hd).2 (List.cons_ne_nil _ _),
      forall_severity_append hall (severity_parityError _ _)⟩
  case h_3 port hport =>
    cases hnet : truthy ((netIdByName evaluated).get? exp.netName) with
    | none =>
      exact ⟨fun hd => absurd (List.append_eq_nil_iff.mp hd).2 (List.cons_ne_nil _ _),
        forall_severity_append hall (severity_parityError _ _)⟩
    | some netId =>
      simp only
      by_cases hroots : (UnionFind.find st.uf port.id).2 ≠
          (UnionFind.find (UnionFind.find st.uf port.id).1 netId).2
      · rw [if_pos hroots]
        exact ⟨fun hd => absurd (List.append_eq_nil_iff.mp hd).2 (List.cons_ne_nil _ _),
          forall_severity_append hall (severity_parityError _ _)⟩
      · rw [if_neg hroots]
        have hpin : st.diagnostics = [] → PinsChecked evaluated root done st ∧
            (netIdByName evaluated).get? exp.netName = some netId ∧ root port.id = root netId ∧
            (UnionFind.find st.uf port.id).2 = root port.id ∧
            UnionFind.Rooted (UnionFind.find (UnionFind.find st.uf port.id).1 netId).1 root := by
          intro hd
          obtain ⟨hfind, hr⟩ := UnionFind.find_rooted (h hd).rooted port.id
          obtain ⟨hfind', hr'⟩ := UnionFind.find_rooted hr netId
          refine ⟨h hd, (truthy_eq_some.mp hnet).1, ?_, hfind, hr'⟩
          rw [← hfind, ← hfind']
          exact not_not.mp hroots
        cases hgroup : st.groupByExpectedNet.get? exp.netName with
        | some group =>
          refine ⟨fun hd => ?_, hall⟩
          obtain ⟨hc, hn, hroot, _, hr⟩ := hpin hd
          refine hc.step hport hn hroot hr (Or.inl ⟨?_, rfl⟩)
          obtain ⟨netId', hn', rfl⟩ := hc.groups _ _ hgroup
          cases hn.symm.trans hn'
          rw [hgroup, hroot]
        | none =>
          refine ⟨fun hd => ?_, forall_severity_append hall (severity_shortsWith _ _ _)⟩
          obtain ⟨hd, hshorts⟩ := List.append_eq_nil_iff.mp hd
          obtain ⟨hc, hn, hroot, hfind, hr⟩ := hpin hd
          rw [hfind] at hshorts ⊢
          exact hc.step hport hn hroot hr (Or.inr ⟨hgroup, rfl, hshorts⟩)

theorem checkPins_spec {evaluated : List TscElement} {root : Text → Text}
    (exps : List PinExpectation) {done : List PinExpectation} {st : ParityState}
    (h : st.diagnostics = [] → PinsChecked evaluated root done st)
    (hall : ∀ d ∈ st.diagnostics, d.severity = .error) :
    ((exps.foldl (checkPin evaluated) st).diagnostics = [] →
      PinsChecked evaluated root (done ++ exps) (exps.foldl (checkPin evaluated) st)) ∧
    ∀ d ∈ (exps.foldl (checkPin evaluated) st).diagnostics, d.severity = .error := by
  induction exps generalizing done st with
  | nil =>
    rw [List.append_nil]
    exact ⟨h, hall⟩
  | cons exp exps ih =>
    obtain ⟨h', hall'⟩ := checkPin_spec exp h hall
    have := ih h' hall'
    rwa [List.append_assoc, List.singleton_append] at this

/-- The second view only adds to the report. -/
theorem checkKeys_pairs (ports : List PortRec) (st : KeyState) :
    st.diagnostics <+: (ports.foldl checkKey st).diagnostics := by
  induction ports generalizing st with
  | nil => exact List.prefix_rfl
  | cons port ports ih =>
    refine List.IsPrefix.trans ?_ (ih (checkKey st port))
    unfold checkKey
    split
    · exact List.prefix_rfl
    · simp only
      split
      · exact List.prefix_rfl
      · split
        · exact List.prefix_append _ _
        · exact List.prefix_rfl

theorem pinsChecked_start {evaluated : List TscElement} {root : Text → Text}
    (h : UnionFind.Rooted (traceGroups evaluated) root) :
    PinsChecked evaluated root [] ⟨traceGroups evaluated, [], [], 0⟩ where
  rooted := h
  pins := fun _ he => by cases he
  groups := fun _ _ hg => by cases hg
  apart := fun _ _ _ hg => by cases hg

/-- A passed parity check is an isomorphism of partitions: there is something to check,
each expected pin is exactly one source port, and two expected pins are connected
through the traces exactly if they are expected on one net. -/
theorem parity_isomorphism {evaluated : List TscElement} {expectations : List PinExpectation}
    (h : (checkConnectivityParity evaluated expectations).ok = true) :
    expectations ≠ [] ∧ (∀ exp ∈ expectations, ∃ port, resolve evaluated exp = [port]) ∧
      ∀ exp ∈ expectations, ∀ exp' ∈ expectations, ∀ port port',
        resolve evaluated exp = [port] → resolve evaluated exp' = [port'] →
          (Connected evaluated port.id port'.id ↔ exp.netName = exp'.netName) := by
  have hne : expectations ≠ [] := by
    rintro rfl
    cases h
  obtain ⟨root, hrooted, hroot⟩ := traceGroups_rooted evaluated
  obtain ⟨hchecked, hall⟩ := @checkPins_spec evaluated root expectations []
    ⟨traceGroups evaluated, [], [], 0⟩ (fun _ => pinsChecked_start hrooted)
    (fun _ hd => by cases hd)
  have hclean : (expectations.foldl (checkPin evaluated)
      ⟨traceGroups evaluated, [], [], 0⟩).diagnostics = [] := by
    rw [checkConnectivityParity, if_neg hne] at h
    simp only [Bool.not_eq_true', List.any_eq_false, decide_eq_true_eq] at h
    refine List.eq_nil_iff_forall_not_mem.mpr fun d hd => h d ?_ (hall d hd)
    exact (checkKeys_pairs _ _).subset hd
  have hc := hchecked hclean
  rw [List.nil_append] at hc
  refine ⟨hne, fun exp he => ?_, fun exp he exp' he' port port' hp hp' => ?_⟩
  · obtain ⟨port, hp, _⟩ := hc.pins exp he
    exact ⟨port, hp⟩
  · obtain ⟨_, hp₁, hg⟩ := hc.pins exp he
    obtain ⟨_, hp₂, hg'⟩ := hc.pins exp' he'
    cases hp.symm.trans hp₁
    cases hp'.symm.trans hp₂
    rw [← hroot]
    constructor
    · intro heq
      rw [← heq] at hg'
      exact hc.apart _ _ _ hg hg'
    · intro heq
      rw [heq] at hg
      exact Option.some.inj (hg.symm.trans hg')

/-- Two resistors in series, as the adapter emits them. -/
def seriesBoard : List TscElement :=
  [.sourceComponent "c1".toList "R1".toList, .sourceComponent "c2".toList "R2".toList,
    .sourcePort "p1".toList "c1".toList "pin1".toList (some ["left".toList]) (some "k1".toList),
    .sourcePort "p2".toList "c1".toList "pin2".toList none (some "k2".toList),
    .sourcePort "p3".toList "c2".toList "pin1".toList none (some "k2".toList),
    .sourceNet "n1".toList "VIN".toList, .sourceNet "n2".toList "MID".toList,
    .sourceTrace (some ["p1".toList]) (some ["n1".toList]),
    .sourceTrace (some ["p2".toList]) (some ["n2".toList]),
    .sourceTrace (some ["p3".toList]) (some ["n2".toList])]

def seriesExpectations : List PinExpectation :=
  [⟨"R1".toList, "1".toList, ".R1 > .left".toList, "left".toList, "VIN".toList⟩,
    ⟨"R1".toList, "2".toList, ".R1 > .pin2".toList, "pin2".toList, "MID".toList⟩,
    ⟨"R2".toList, "1".toList, ".R2 > .pin1".toList, "pin1".toList, "MID".toList⟩]

theorem parity_isomorphism_seriesBoard :
    Connected seriesBoard "p2".toList "p3".toList ∧
      ¬ Connected seriesBoard "p1".toList "p2".toList := by
  obtain ⟨_, _, h⟩ := parity_isomorphism
    (show (checkConnectivityParity seriesBoard seriesExpectations).ok = true by decide +kernel)
  constructor
  · exact (h _ (.tail _ (.head _)) _ (.tail _ (.tail _ (.head _)))
      ⟨"p2".toList, "R1".toList, ["pin2".toList], some "k2".toList⟩
      ⟨"p3".toList, "R2".toList, ["pin1".toList], some "k2".toList⟩
      (by decide +kernel) (by decide +kernel)).mpr rfl
  · intro hc
    have := (h _ (.head _) _ (.tail _ (.head _))
      ⟨"p1".toList, "R1".toList, ["pin1".toList, "left".toList], some "k1".toList⟩
      ⟨"p2".toList, "R1".toList, ["pin2".toList], some "k2".toList⟩
      (by decide +kernel) (by decide +kernel)).mp hc
    exact absurd this (by decide +kernel)

end CircuitForge
