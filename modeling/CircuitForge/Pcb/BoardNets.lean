/-
The nets of the board against the nodes of the deck.

Board and deck name the nets by rules of their own.  Where the deck is accepted both tell the nets
apart alike, except that a record of the board hands some keys to its prototype.
-/
import CircuitForge.Netlist.Nodes
import CircuitForge.Pcb.Adapter

namespace CircuitForge

open Js

/-! ## Unused names -/

theorem suffixed_injective (base : Text) : Function.Injective (suffixed base) :=
  FirstFree.numbered_injective (add_left_injective 1)

theorem unusedName_notMem (used : List Text) (base : Text) : unusedName used base ∉ used :=
  FirstFree.search_free (suffixed_injective base)

theorem isWord_suffixed {base : Text} (h : ∀ c ∈ base, isWord c = true) (n : Nat) :
    ∀ c ∈ suffixed base n, isWord c = true := by
  intro c hc
  unfold suffixed at hc
  split at hc
  · exact h c hc
  · rcases List.mem_append.mp hc with hc | hc
    · exact h c hc
    · rcases List.mem_cons.mp hc with rfl | hc
      · decide
      · have hd := isDigit_iff.mp (Nat.isDigit_of_mem_toDigits (by decide) (by decide) hc)
        rw [isWord_iff]
        omega

theorem isWord_toUpper {c : Char} (h : isWord c = true) : isWord c.toUpper = true := by
  rw [isWord_iff] at h ⊢
  rw [toNat_toUpper]
  split_ifs <;> omega

theorem baseNetName_words (net : Net) :
    baseNetName net ≠ [] ∧ ∀ c ∈ baseNetName net, isWord c = true := by
  have hwords : ∀ c ∈ (wordChars (if net.name = [] then net.id else net.name)).map Char.toUpper,
      isWord c = true := by
    intro c hc
    obtain ⟨d, hd, rfl⟩ := List.mem_map.mp hc
    exact isWord_toUpper (isWord_wordChars _ d hd)
  unfold baseNetName
  generalize (wordChars (if net.name = [] then net.id else net.name)).map Char.toUpper = cleaned
    at hwords ⊢
  dsimp only
  split
  case isTrue h =>
    refine ⟨fun hnil => ?_, hwords⟩
    rw [hnil] at h
    cases h
  case isFalse =>
    refine ⟨List.cons_ne_nil _ _, fun c hc => ?_⟩
    rcases List.mem_cons.mp hc with rfl | hc
    · decide
    · exact hwords c hc

/-! ## The names of the nets -/

/-- What the ground nets leave in the record. -/
theorem get?_nameGround (nets : List Net) (byId : Record) (id : Text) :
    Map.get? (nets.foldl nameGround byId) id =
      if id ≠ protoKey ∧ ∃ net ∈ nets, net.isGround = true ∧ net.id = id then some gnd
      else Map.get? byId id := by
  induction nets generalizing byId with
  | nil => simp
  | cons net nets ih =>
    rw [List.foldl_cons, ih]
    by_cases hrest : id ≠ protoKey ∧ ∃ net ∈ nets, net.isGround = true ∧ net.id = id
    · obtain ⟨hne, other, hother, hg⟩ := hrest
      rw [if_pos ⟨hne, other, hother, hg⟩,
        if_pos ⟨hne, other, List.mem_cons_of_mem net hother, hg⟩]
    · rw [if_neg hrest]
      unfold nameGround
      by_cases hhere : id ≠ protoKey ∧ net.isGround = true ∧ net.id = id
      · obtain ⟨hne, hg, rfl⟩ := hhere
        rw [if_pos hg, Record.get?_put_self _ hne,
          if_pos ⟨hne, net, List.mem_cons_self, hg, rfl⟩]
      · have hnone : ¬ (id ≠ protoKey ∧
            ∃ other ∈ net :: nets, other.isGround = true ∧ other.id = id) := by
          rintro ⟨hne, other, hother, hg, hid⟩
          rcases List.mem_cons.mp hother with rfl | hother
          · exact hhere ⟨hne, hg, hid⟩
          · exact hrest ⟨hne, other, hother, hg, hid⟩
        rw [if_neg hnone]
        by_cases hg : net.isGround = true
        · rw [if_pos hg]
          by_cases hid : net.id = id
          · have hproto : id = protoKey := by
              by_contra hne
              exact hhere ⟨hne, hg, hid⟩
            rw [hproto, Record.get?_put_protoKey]
          · exact Record.get?_put_ne _ hid _
        · rw [if_neg hg]

/-- The signal nets named so far. -/
structure NetNaming.Spec (grounds : Record) (done : List Net) (s : NetNaming) : Prop where
  reserved : gnd ∈ s.used
  kept : ∀ id, (∀ net ∈ done, net.isGround = false → net.id ≠ id) →
    Map.get? s.byId id = Map.get? grounds id
  proto : Map.get? s.byId protoKey = Map.get? grounds protoKey
  named : ∀ net ∈ done, net.isGround = false → net.id ≠ protoKey →
    ∃ name ∈ s.used, Map.get? s.byId net.id = some name ∧ name ≠ gnd ∧ name ≠ [] ∧
      ∀ c ∈ name, isWord c = true
  apart : ∀ a ∈ done, ∀ b ∈ done, a.isGround = false → b.isGround = false → a.id ≠ protoKey →
    b.id ≠ protoKey → Map.get? s.byId a.id = Map.get? s.byId b.id → a.id = b.id

theorem NetNaming.Spec.nil (grounds : Record) :
    NetNaming.Spec grounds [] { used := [gnd], byId := grounds } where
  reserved := List.mem_singleton.mpr rfl
  kept := fun _ _ => rfl
  proto := rfl
  named := fun _ h => absurd h List.not_mem_nil
  apart := fun _ h => absurd h List.not_mem_nil

/-- One net more. -/
theorem NetNaming.Spec.step {grounds : Record} {done : List Net} {s : NetNaming}
    (h : NetNaming.Spec grounds done s) {net : Net} (hnew : net.id ∉ done.map Net.id) :
    NetNaming.Spec grounds (done ++ [net]) (nameSignal s net) := by
  have hother : ∀ a ∈ done, net.id ≠ a.id := fun a ha e =>
    hnew (List.mem_map.mpr ⟨a, ha, e.symm⟩)
  have hdone : ∀ {a}, a ∈ done ++ [net] → a ≠ net → a ∈ done := by
    intro a ha hne
    rcases List.mem_append.mp ha with ha | ha
    · exact ha
    · exact absurd (List.mem_singleton.mp ha) hne
  by_cases hg : net.isGround = true
  · rw [nameSignal, if_pos hg]
    have hne : ∀ {a : Net}, a.isGround = false → a ≠ net := by
      rintro a ha rfl
      rw [hg] at ha
      cases ha
    refine ⟨h.reserved, fun id hid => h.kept id fun a ha => hid a (List.mem_append_left _ ha),
      h.proto, fun a ha hsignal => h.named a (hdone ha (hne hsignal)) hsignal, ?_⟩
    intro a ha b hb hsa hsb
    exact h.apart a (hdone ha (hne hsa)) b (hdone hb (hne hsb)) hsa hsb
  · rw [nameSignal, if_neg hg]
    have hsignal : net.isGround = false := Bool.eq_false_iff.mpr hg
    have hfresh := unusedName_notMem s.used (baseNetName net)
    obtain ⟨hnil, hwords⟩ := baseNetName_words net
    have hold : ∀ a ∈ done,
        Map.get? (Record.put s.byId net.id (unusedName s.used (baseNetName net))) a.id =
          Map.get? s.byId a.id := fun a ha => Record.get?_put_ne _ (hother a ha) _
    -- the name of an earlier net is in use, so the new one differs from it
    have hsplit : ∀ a ∈ done, a.isGround = false → a.id ≠ protoKey → net.id ≠ protoKey →
        Map.get? (Record.put s.byId net.id (unusedName s.used (baseNetName net))) a.id ≠
          Map.get? (Record.put s.byId net.id (unusedName s.used (baseNetName net))) net.id := by
      intro a ha hsa hpa hpn e
      obtain ⟨name, hmem, hget, -⟩ := h.named a ha hsa hpa
      rw [hold a ha, hget, Record.get?_put_self _ hpn] at e
      exact hfresh (Option.some.inj e ▸ hmem)
    refine ⟨List.mem_append_left _ h.reserved, fun id hid => ?_, ?_, fun a ha hsa hpa => ?_,
      fun a ha b hb hsa hsb hpa hpb e => ?_⟩
    · dsimp only
      rw [Record.get?_put_ne _ (hid net (List.mem_append_right _ (List.mem_singleton.mpr rfl))
        hsignal)]
      exact h.kept id fun a ha => hid a (List.mem_append_left _ ha)
    · dsimp only
      rw [Record.get?_put_protoKey]
      exact h.proto
    · rcases List.mem_append.mp ha with ha | ha
      · obtain ⟨name, hmem, hget, hrest⟩ := h.named a ha hsa hpa
        exact ⟨name, List.mem_append_left _ hmem, by rw [hold a ha, hget], hrest⟩
      · obtain rfl := List.mem_singleton.mp ha
        refine ⟨_, List.mem_append_right _ (List.mem_singleton.mpr rfl),
          Record.get?_put_self _ hpa _, fun e => hfresh (e ▸ h.reserved), fun e => ?_,
          isWord_suffixed hwords _⟩
        unfold unusedName suffixed at e
        split at e
        · exact hnil e
        · exact hnil (List.append_eq_nil_iff.mp e).1
    · dsimp only at e
      rcases List.mem_append.mp ha with ha' | ha' <;> rcases List.mem_append.mp hb with hb' | hb'
      · rw [hold a ha', hold b hb'] at e
        exact h.apart a ha' b hb' hsa hsb hpa hpb e
      · rw [List.mem_singleton.mp hb'] at e hpb
        exact absurd e (hsplit a ha' hsa hpa hpb)
      · rw [List.mem_singleton.mp ha'] at e hpa
        exact absurd e.symm (hsplit b hb' hsb hpb hpa)
      · rw [List.mem_singleton.mp ha', List.mem_singleton.mp hb']

theorem NetNaming.spec_foldl {grounds : Record} {done rest : List Net} {s : NetNaming}
    (h : NetNaming.Spec grounds done s) (hids : ((done ++ rest).map Net.id).Nodup) :
    NetNaming.Spec grounds (done ++ rest) (rest.foldl nameSignal s) := by
  induction rest generalizing done s with
  | nil => rwa [List.append_nil]
  | cons net rest ih =>
    have hnew : net.id ∉ done.map Net.id := by
      intro hmem
      rw [List.map_append, List.nodup_append] at hids
      exact hids.2.2 _ hmem _ List.mem_cons_self rfl
    have hnext := ih (h.step hnew) (by rwa [List.append_assoc])
    rwa [List.append_assoc] at hnext

section

variable [Runtime] {circuit : CircuitJson}

/-- The name a net id stands for on the board. -/
def boardNet (circuit : CircuitJson) (netId : Text) : Option Text :=
  (buildNetNames circuit).read netId

/-- The node a net id stands for in the deck. -/
def spiceNode (circuit : CircuitJson) (netId : Text) : Option Text :=
  (buildNodeMap circuit.nets).get? netId

theorem netNames_spec (hids : (circuit.nets.map Net.id).Nodup) :
    NetNaming.Spec (circuit.nets.foldl nameGround []) circuit.nets
      (circuit.nets.foldl nameSignal
        { used := [gnd], byId := circuit.nets.foldl nameGround [] }) :=
  NetNaming.spec_foldl (NetNaming.Spec.nil _) hids

/-- A key that is handed to the prototype. -/
theorem boardNet_protoKey (hids : (circuit.nets.map Net.id).Nodup) :
    boardNet circuit protoKey = some "[object Object]".toList := by
  have hnone : Map.get? (buildNetNames circuit) protoKey = none := by
    rw [buildNetNames, (netNames_spec hids).proto, get?_nameGround, if_neg fun h => h.1 rfl]
    rfl
  rw [boardNet, Record.read_of_get?_none hnone, inherited_protoKey]

theorem boardNet_of_notMem (hids : (circuit.nets.map Net.id).Nodup) {id : Text}
    (h : id ∉ circuit.nets.map Net.id) : boardNet circuit id = inherited.get? id := by
  have hnone : Map.get? (buildNetNames circuit) id = none := by
    rw [buildNetNames, (netNames_spec hids).kept id fun net hnet _ e =>
      h (List.mem_map.mpr ⟨net, hnet, e⟩), get?_nameGround, if_neg]
    · rfl
    · rintro ⟨-, net, hnet, -, e⟩
      exact h (List.mem_map.mpr ⟨net, hnet, e⟩)
  exact Record.read_of_get?_none hnone

theorem boardNet_ground (hids : (circuit.nets.map Net.id).Nodup) {net : Net}
    (hnet : net ∈ circuit.nets) (hg : net.isGround = true) (hp : net.id ≠ protoKey) :
    boardNet circuit net.id = some gnd := by
  refine Record.read_of_get? ?_
  have hkept : ∀ other ∈ circuit.nets, other.isGround = false → other.id ≠ net.id := by
    intro other hother hsignal e
    rw [List.inj_on_of_nodup_map hids hother hnet e, hg] at hsignal
    cases hsignal
  rw [buildNetNames, (netNames_spec hids).kept net.id hkept, get?_nameGround,
    if_pos ⟨hp, net, hnet, hg, rfl⟩]

theorem boardNet_signal (hids : (circuit.nets.map Net.id).Nodup) {net : Net}
    (hnet : net ∈ circuit.nets) (hg : net.isGround = false) (hp : net.id ≠ protoKey) :
    ∃ name, Map.get? (buildNetNames circuit) net.id = some name ∧ name ≠ gnd ∧ name ≠ [] ∧
      ∀ c ∈ name, isWord c = true := by
  obtain ⟨name, -, h⟩ := (netNames_spec hids).named net hnet hg hp
  exact ⟨name, h⟩

omit [Runtime] in
/-- The written out prototype is no net's name. -/
theorem ne_prototype {name : Text} (h : ∀ c ∈ name, isWord c = true) :
    name ≠ "[object Object]".toList := by
  rintro rfl
  obtain ⟨c, hc, hword⟩ := not_isWord_inherited inherited_protoKey
  rw [h c hc] at hword
  cases hword

theorem boardNet_signal_iff (hids : (circuit.nets.map Net.id).Nodup) {a b : Net}
    (ha : a ∈ circuit.nets) (hb : b ∈ circuit.nets) (hsa : a.isGround = false)
    (hsb : b.isGround = false) : boardNet circuit a.id = boardNet circuit b.id ↔ a.id = b.id := by
  refine ⟨fun e => ?_, fun e => by rw [e]⟩
  have hproto : ∀ {net : Net}, net ∈ circuit.nets → net.isGround = false → net.id ≠ protoKey →
      boardNet circuit net.id ≠ boardNet circuit protoKey := by
    intro net hnet hg hp e
    obtain ⟨name, hget, -, -, hwords⟩ := boardNet_signal hids hnet hg hp
    rw [boardNet_protoKey hids, boardNet, Record.read_of_get? hget] at e
    exact ne_prototype hwords (Option.some.inj e)
  by_cases hpa : a.id = protoKey
  · by_cases hpb : b.id = protoKey
    · rw [hpa, hpb]
    · rw [hpa] at e
      exact absurd e.symm (hproto hb hsb hpb)
  · by_cases hpb : b.id = protoKey
    · rw [hpb] at e
      exact absurd e (hproto ha hsa hpa)
    · obtain ⟨name, hget, -⟩ := boardNet_signal hids ha hsa hpa
      obtain ⟨name', hget', -⟩ := boardNet_signal hids hb hsb hpb
      rw [boardNet, boardNet, Record.read_of_get? hget, Record.read_of_get? hget'] at e
      exact (netNames_spec hids).apart a ha b hb hsa hsb hpa hpb (hget.trans (e.trans hget'.symm))

theorem boardNet_signal_ne_gnd (hids : (circuit.nets.map Net.id).Nodup) {net : Net}
    (hnet : net ∈ circuit.nets) (hg : net.isGround = false) :
    boardNet circuit net.id ≠ some gnd := by
  by_cases hp : net.id = protoKey
  · rw [hp, boardNet_protoKey hids]
    decide
  · obtain ⟨name, hget, hne, -⟩ := boardNet_signal hids hnet hg hp
    rw [boardNet, Record.read_of_get? hget]
    exact fun e => hne (Option.some.inj e)

/-! ## The nodes of the nets -/

theorem spiceNode_of_mem (hids : (circuit.nets.map Net.id).Nodup) {net : Net}
    (hnet : net ∈ circuit.nets) : spiceNode circuit net.id = some (nodeOfNet net) := by
  have hmem : (net.id, nodeOfNet net) ∈ buildNodeMap circuit.nets := by
    rw [buildNodeMap_of_nodup hids]
    exact List.mem_map.mpr ⟨net, hnet, rfl⟩
  refine Map.get?_of_mem ?_ hmem
  rw [buildNodeMap_of_nodup hids, Map.Keyed, List.map_map]
  exact hids

theorem mem_of_spiceNode {id node : Text} (h : spiceNode circuit id = some node) :
    id ∈ circuit.nets.map Net.id := by
  obtain ⟨net, hnet, hid, -⟩ := mem_nodeMap (Map.mem_of_get? h)
  exact List.mem_map.mpr ⟨net, hnet, hid⟩

/-- A deck that is returned keeps the signal nets apart. -/
theorem nodeOfNet_injective {now : Timestamp} {analysis : AnalysisConfig}
    {options : NetlistOptions} {deck : Text} (hids : (circuit.nets.map Net.id).Nodup)
    (hdeck : generateNetlist now circuit analysis options = .ok deck) {a b : Net}
    (ha : a ∈ circuit.nets) (hb : b ∈ circuit.nets) (hsa : a.isGround = false)
    (hsb : b.isGround = false) (e : nodeOfNet a = nodeOfNet b) : a = b := by
  obtain ⟨d, hd, -⟩ := Outcome.map_eq_ok.mp hdeck
  obtain ⟨parts, ⟨run⟩, -⟩ := generateDeck_ok hd
  have hnodup := (nodup_deckNodes hids run).of_map
  rw [deckNodes, List.append_assoc, List.nodup_append] at hnodup
  have hmem : ∀ {net : Net}, net ∈ circuit.nets → net.isGround = false →
      net ∈ circuit.nets.filter (!·.isGround) := fun hnet hg =>
    List.mem_filter.mpr ⟨hnet, by rw [hg]; rfl⟩
  exact List.inj_on_of_nodup_map hnodup.1 (hmem ha hsa) (hmem hb hsb) e

/-! ## The parts of a program -/

/-- The parts that are emitted behind those with the names in use. -/
def emittedFrom : List Text → List ComponentPlan → List (Text × ComponentPlan)
  | _, [] => []
  | used, plan :: rest =>
    (partName used plan, plan) :: emittedFrom (used ++ [partName used plan]) rest

/-- The parts that are emitted, under their names. -/
def emittedParts (plans : List ComponentPlan) : List (Text × ComponentPlan) :=
  emittedFrom [] (plans.filter ComponentPlan.isPhysical)

theorem map_snd_emittedFrom (used : List Text) (plans : List ComponentPlan) :
    (emittedFrom used plans).map Prod.snd = plans := by
  induction plans generalizing used with
  | nil => rfl
  | cons plan rest ih => rw [emittedFrom, List.map_cons, ih]

theorem nodup_emittedFrom (used : List Text) (plans : List ComponentPlan) :
    ((emittedFrom used plans).map Prod.fst).Nodup ∧
      ∀ name ∈ (emittedFrom used plans).map Prod.fst, name ∉ used := by
  induction plans generalizing used with
  | nil => exact ⟨List.nodup_nil, fun _ h => absurd h List.not_mem_nil⟩
  | cons plan rest ih =>
    obtain ⟨hnodup, hfresh⟩ := ih (used ++ [partName used plan])
    rw [emittedFrom, List.map_cons]
    refine ⟨List.nodup_cons.mpr ⟨fun hmem => ?_, hnodup⟩, fun name hname => ?_⟩
    · exact hfresh _ hmem (List.mem_append_right _ (List.mem_singleton.mpr rfl))
    · rcases List.mem_cons.mp hname with rfl | hname
      · exact unusedName_notMem used _
      · exact fun hused => hfresh name hname (List.mem_append_left _ hused)

variable (attributes : Attributes)

variable (circuit) in
/-- What the pins of one part add. -/
theorem addPins_eq (g : Generation) (name : Text) (plan : ComponentPlan)
    (pins : List PinConnection) :
    let g' := pins.foldl (fun g pin => g.addPin (emitPinOf circuit name plan pin)) g
    g'.usedNames = g.usedNames ∧ g'.elementLines = g.elementLines ∧
      g'.expectations = g.expectations ++
        (pins.filterMap fun pin => (emitPinOf circuit name plan pin).1) ∧
      g'.traceLines = g.traceLines ++
        (pins.filterMap fun pin => (emitPinOf circuit name plan pin).1).map traceLine := by
  induction pins generalizing g with
  | nil => exact ⟨rfl, rfl, (List.append_nil _).symm, (List.append_nil _).symm⟩
  | cons pin pins ih =>
    obtain ⟨hused, helements, hexpect, htraces⟩ := ih (g.addPin (emitPinOf circuit name plan pin))
    refine ⟨hused, helements, ?_, ?_⟩
    · rw [List.foldl_cons, hexpect, Generation.addPin, List.append_assoc]
      cases h : (emitPinOf circuit name plan pin).1 with
      | none => simp only [List.filterMap_cons, h, Option.toList_none, List.nil_append]
      | some e => simp only [List.filterMap_cons, h, Option.toList_some, List.singleton_append]
    · rw [List.foldl_cons, htraces, Generation.addPin, List.append_assoc]
      cases h : (emitPinOf circuit name plan pin).1 with
      | none => simp only [List.filterMap_cons, h, Option.map_none, Option.toList_none,
          List.nil_append]
      | some e => simp only [List.filterMap_cons, h, Option.map_some, Option.toList_some,
          List.singleton_append, List.map_cons]

/-- What is emitted for the pins of a part. -/
def emittedPins (circuit : CircuitJson) (part : Text × ComponentPlan) : List PinExpectation :=
  part.2.component.pins.filterMap fun pin => (emitPinOf circuit part.1 part.2 pin).1

variable (circuit) in
theorem addParts_eq (g : Generation) (plans : List ComponentPlan) :
    let g' := plans.foldl (addPart circuit attributes) g
    let parts := emittedFrom g.usedNames plans
    g'.elementLines = g.elementLines ++
        parts.map (fun part => elementLine part.2 part.1 (attributes part.2 part.1).1) ∧
      g'.expectations = g.expectations ++ parts.flatMap (emittedPins circuit) ∧
      g'.traceLines = g.traceLines ++ (parts.flatMap (emittedPins circuit)).map traceLine := by
  induction plans generalizing g with
  | nil => exact ⟨(List.append_nil _).symm, (List.append_nil _).symm, (List.append_nil _).symm⟩
  | cons plan plans ih =>
    obtain ⟨helements, hexpect, htraces⟩ := ih (addPart circuit attributes g plan)
    obtain ⟨hused, hlines, hpins, hpinTraces⟩ := addPins_eq circuit
      { g with
        usedNames := g.usedNames ++ [partName g.usedNames plan]
        namesById := Record.put g.namesById plan.component.id (partName g.usedNames plan)
        elementLines := g.elementLines ++ [elementLine plan (partName g.usedNames plan)
          (attributes plan (partName g.usedNames plan)).1]
        diagnostics := g.diagnostics ++ (attributes plan (partName g.usedNames plan)).2 }
      (partName g.usedNames plan) plan plan.component.pins
    change (addPart circuit attributes g plan).usedNames = _ at hused
    change (addPart circuit attributes g plan).elementLines = _ at hlines
    change (addPart circuit attributes g plan).expectations = _ at hpins
    change (addPart circuit attributes g plan).traceLines = _ at hpinTraces
    dsimp only at hused hlines hpins hpinTraces
    rw [hused] at helements hexpect htraces
    rw [hlines] at helements
    rw [hpins] at hexpect
    rw [hpinTraces] at htraces
    refine ⟨?_, ?_, ?_⟩
    · rw [List.foldl_cons, helements, List.append_assoc]
      rfl
    · rw [List.foldl_cons, hexpect, List.append_assoc]
      rfl
    · rw [List.foldl_cons, htraces, emittedFrom, List.flatMap_cons, List.map_append,
        List.append_assoc]
      rfl

/-- The program and its expectations are those of the emitted parts. -/
theorem generateTscircuitCode_eq (circuit : CircuitJson) (attributes : Attributes)
    (plans : List ComponentPlan) (boardTag : Text) :
    let result := generateTscircuitCode circuit attributes plans boardTag
    let parts := emittedParts plans
    result.expectations = parts.flatMap (emittedPins circuit) ∧
      result.code = join "\n".toList (["export default () => (".toList, boardTag] ++
        parts.map (fun part => elementLine part.2 part.1 (attributes part.2 part.1).1) ++
        (parts.flatMap (emittedPins circuit)).map traceLine ++
        ["  </board>".toList, ")".toList]) := by
  obtain ⟨helements, hexpect, htraces⟩ := addParts_eq circuit attributes {}
    (plans.filter ComponentPlan.isPhysical)
  refine ⟨hexpect, ?_⟩
  unfold generateTscircuitCode
  dsimp only
  rw [helements, htraces]
  rfl

/-! ## The pins of a part -/

theorem emitPin_some {names : Record} {element : TscElementName} {order : Option (List Text)}
    {name : Text} {c : Component} {pin : PinConnection} {e : PinExpectation}
    (h : (emitPin names element order name c pin).1 = some e) :
    (portNameFor element pin.pinId order c).1 = some e.port ∧
      names.read pin.netId = some e.netName := by
  unfold emitPin at h
  split at h
  case h_1 => cases h
  case h_2 port notes hport =>
    split at h
    case h_1 => cases h
    case h_2 netName hnet =>
      obtain rfl := Option.some.inj h
      exact ⟨congrArg Prod.fst hport, (truthy_eq_some.mp hnet).1⟩

theorem emitPin_of_read {names : Record} {element : TscElementName} {order : Option (List Text)}
    (name : Text) {c : Component} {pin : PinConnection} {netName : Text}
    (hport : (portNameFor element pin.pinId order c).1 ≠ none)
    (hread : names.read pin.netId = some netName) (hne : netName ≠ []) :
    ∃ e, (emitPin names element order name c pin).1 = some e := by
  unfold emitPin
  split
  case h_1 notes hnone => exact absurd (congrArg Prod.fst hnone) hport
  case h_2 =>
    rw [truthy_eq_some.mpr ⟨hread, hne⟩]
    exact ⟨_, rfl⟩

omit [Runtime] in
theorem directPinMaps_words {element : TscElementName} {map : Record}
    (h : directPinMaps element = some map) :
    (map.map Prod.snd).Nodup ∧ ∀ e ∈ map, ∀ c ∈ e.2, isWord c = true := by
  cases element <;> cases h <;> decide

omit [Runtime] in
theorem directPort_injective {element : TscElementName} {p q port : Text}
    (hp : directPort element p = some port) (hq : directPort element q = some port) : p = q := by
  obtain ⟨map, hmap, hp⟩ := Option.bind_eq_some_iff.mp (truthy_eq_some.mp hp).1
  obtain ⟨map', hmap', hq⟩ := Option.bind_eq_some_iff.mp (truthy_eq_some.mp hq).1
  obtain rfl := Option.some.inj (hmap.symm.trans hmap')
  obtain ⟨hnodup, hwords⟩ := directPinMaps_words hmap
  exact Record.read_injective hnodup hwords hp hq

theorem portNameFor_direct {element : TscElementName} (hchip : element ≠ .chip) {pinId : Text}
    (hbulk : ¬ (element = .mosfet ∧ pinId = ['b'])) (order : Option (List Text)) (c : Component) :
    (portNameFor element pinId order c).1 = directPort element pinId := by
  unfold portNameFor
  rw [if_neg hchip, if_neg hbulk]
  cases directPort element pinId <;> rfl

theorem portNameFor_bulk (order : Option (List Text)) (c : Component) :
    (portNameFor .mosfet ['b'] order c).1 = none := rfl

/-- Distinct pins of a part have distinct ports. -/
theorem portNameFor_injective {element : TscElementName} {p q port : Text}
    {order : Option (List Text)} {c : Component}
    (hp : (portNameFor element p order c).1 = some port)
    (hq : (portNameFor element q order c).1 = some port) : p = q := by
  by_cases hchip : element = .chip
  · unfold portNameFor at hp hq
    rw [if_pos hchip] at hp hq
    cases order with
    | none => exact List.append_cancel_left ((Option.some.inj hp).trans (Option.some.inj hq).symm)
    | some order =>
      dsimp only at hp hq
      split_ifs at hp hq with hmemp hmemq
      have he := List.append_cancel_left ((Option.some.inj hp).trans (Option.some.inj hq).symm)
      have hd := congrArg (fun s => Nat.ofDigitChars 10 s 0) he
      have hidx : order.idxOf p = order.idxOf q := by simpa using hd
      exact (List.idxOf_inj hmemp).mp hidx
  · have hdirect : ∀ {r : Text}, (portNameFor element r order c).1 = some port →
        directPort element r = some port := by
      intro r h
      by_cases hbulk : element = .mosfet ∧ r = ['b']
      · rw [hbulk.1, hbulk.2, portNameFor_bulk] at h
        cases h
      · rwa [portNameFor_direct hchip hbulk] at h
    exact directPort_injective (hdirect hp) (hdirect hq)

/-! ## Board and deck -/

/-- The chip order a part's ports are taken from. -/
def portOrder (circuit : CircuitJson) (plan : ComponentPlan) : Option (List Text) :=
  if plan.element = .chip then chipPinOrder plan.component circuit else none

/-- What the board owes to the deck. -/
structure BoardAgrees (circuit : CircuitJson) (plans : List ComponentPlan) : Prop where
  /-- Nets share a name on the board exactly where they share a node. -/
  nets : ∀ a ∈ circuit.nets, ∀ b ∈ circuit.nets,
    boardNet circuit a.id = boardNet circuit b.id ↔ spiceNode circuit a.id = spiceNode circuit b.id
  ground : ∀ a ∈ circuit.nets,
    boardNet circuit a.id = some gnd ↔ spiceNode circuit a.id = some "0".toList
  names : ((emittedParts plans).map Prod.fst).Nodup
  ports : ∀ part ∈ emittedParts plans, ∀ p ∈ part.2.component.pins, ∀ q ∈ part.2.component.pins,
    p.pinId ≠ q.pinId → ∀ e e', (emitPinOf circuit part.1 part.2 p).1 = some e →
      (emitPinOf circuit part.1 part.2 q).1 = some e' → e.port ≠ e'.port
  /-- Emitted pins are traced to one net exactly where they lie on one node. -/
  traced : ∀ part ∈ emittedParts plans, ∀ p ∈ part.2.component.pins,
    ∀ part' ∈ emittedParts plans, ∀ q ∈ part'.2.component.pins, ∀ e e',
      (emitPinOf circuit part.1 part.2 p).1 = some e →
      (emitPinOf circuit part'.1 part'.2 q).1 = some e' →
      (e.netName = e'.netName ↔
        ∃ node, spiceNode circuit p.netId = some node ∧ spiceNode circuit q.netId = some node)

/-- No ground net has the id `__proto__`, and no pin with a port refers to a net that is not
declared and whose id is the name of an inherited property. -/
structure NoProtoKeys (circuit : CircuitJson) (plans : List ComponentPlan) : Prop where
  ground : ∀ net ∈ circuit.nets, net.isGround = true → net.id ≠ protoKey
  pins : ∀ plan ∈ plans, plan.isPhysical = true → ∀ pin ∈ plan.component.pins,
    (portNameFor plan.element pin.pinId (portOrder circuit plan) plan.component).1 ≠ none →
      pin.netId ∉ circuit.nets.map Net.id → inherited.get? pin.netId = none

theorem mem_emittedParts {plans : List ComponentPlan} {part : Text × ComponentPlan}
    (h : part ∈ emittedParts plans) : part.2 ∈ plans ∧ part.2.isPhysical = true := by
  have hmem : part.2 ∈ (emittedParts plans).map Prod.snd := List.mem_map_of_mem h
  rw [emittedParts, map_snd_emittedFrom] at hmem
  exact List.mem_filter.mp hmem

theorem exists_emittedParts {plans : List ComponentPlan} {plan : ComponentPlan}
    (hmem : plan ∈ plans) (hp : plan.isPhysical = true) :
    ∃ name, (name, plan) ∈ emittedParts plans := by
  have h : plan ∈ (emittedParts plans).map Prod.snd := by
    rw [emittedParts, map_snd_emittedFrom]
    exact List.mem_filter.mpr ⟨hmem, hp⟩
  obtain ⟨⟨name, plan'⟩, hpart, rfl⟩ := List.mem_map.mp h
  exact ⟨name, hpart⟩

variable {now : Timestamp} {analysis : AnalysisConfig} {options : NetlistOptions} {deck : Text}
  {plans : List ComponentPlan}

/-- Where no ground net is handed to the prototype, names and nodes tell the nets apart alike. -/
theorem boardNet_iff_spiceNode (hids : (circuit.nets.map Net.id).Nodup)
    (hdeck : generateNetlist now circuit analysis options = .ok deck)
    (hground : ∀ net ∈ circuit.nets, net.isGround = true → net.id ≠ protoKey) {a b : Net}
    (ha : a ∈ circuit.nets) (hb : b ∈ circuit.nets) :
    boardNet circuit a.id = boardNet circuit b.id ↔
      spiceNode circuit a.id = spiceNode circuit b.id := by
  rw [spiceNode_of_mem hids ha, spiceNode_of_mem hids hb, Option.some.injEq]
  cases hga : a.isGround with
  | true =>
    rw [boardNet_ground hids ha hga (hground a ha hga), nodeOfNet_eq_zero_iff.mpr hga]
    cases hgb : b.isGround with
    | true =>
      rw [boardNet_ground hids hb hgb (hground b hb hgb), nodeOfNet_eq_zero_iff.mpr hgb]
      exact iff_of_true rfl rfl
    | false =>
      refine iff_of_false (fun e => boardNet_signal_ne_gnd hids hb hgb e.symm) fun e => ?_
      rw [nodeOfNet_eq_zero_iff.mp e.symm] at hgb
      cases hgb
  | false =>
    cases hgb : b.isGround with
    | true =>
      rw [boardNet_ground hids hb hgb (hground b hb hgb), nodeOfNet_eq_zero_iff.mpr hgb]
      refine iff_of_false (boardNet_signal_ne_gnd hids ha hga) fun e => ?_
      rw [nodeOfNet_eq_zero_iff.mp e] at hga
      cases hga
    | false =>
      rw [boardNet_signal_iff hids ha hb hga hgb]
      constructor
      · intro e
        rw [List.inj_on_of_nodup_map hids ha hb e]
      · intro e
        rw [nodeOfNet_injective hids hdeck ha hb hga hgb e]

/-- The net of a pin that is emitted. -/
theorem declared_of_emitted (hids : (circuit.nets.map Net.id).Nodup)
    (hown : NoProtoKeys circuit plans) {part : Text × ComponentPlan} (hpart : part ∈ emittedParts plans)
    {pin : PinConnection} (hpin : pin ∈ part.2.component.pins) {e : PinExpectation}
    (h : (emitPinOf circuit part.1 part.2 pin).1 = some e) :
    ∃ net ∈ circuit.nets, net.id = pin.netId ∧ boardNet circuit net.id = some e.netName := by
  obtain ⟨hport, hread⟩ := emitPin_some h
  obtain ⟨hmem, hphysical⟩ := mem_emittedParts hpart
  have hdeclared : pin.netId ∈ circuit.nets.map Net.id := by
    by_contra hnot
    have hnone := hown.pins part.2 hmem hphysical pin hpin
      (by rw [portOrder, hport]; exact Option.some_ne_none _) hnot
    have hinherited := boardNet_of_notMem hids hnot
    rw [hnone, boardNet, hread] at hinherited
    cases hinherited
  obtain ⟨net, hnet, hid⟩ := List.mem_map.mp hdeclared
  exact ⟨net, hnet, hid, by rw [boardNet, hid, hread]⟩

theorem boardAgrees_of_noProtoKeys (hids : (circuit.nets.map Net.id).Nodup)
    (hdeck : generateNetlist now circuit analysis options = .ok deck)
    (hown : NoProtoKeys circuit plans) : BoardAgrees circuit plans where
  nets := fun _ ha _ hb => boardNet_iff_spiceNode hids hdeck hown.ground ha hb
  ground := by
    intro a ha
    rw [spiceNode_of_mem hids ha, Option.some.injEq, nodeOfNet_eq_zero_iff]
    refine ⟨fun e => ?_, fun hg => boardNet_ground hids ha hg (hown.ground a ha hg)⟩
    by_contra hg
    exact boardNet_signal_ne_gnd hids ha (Bool.eq_false_iff.mpr hg) e
  names := (nodup_emittedFrom [] _).1
  ports := by
    intro part _ p _ q _ hne e e' he he' hport
    have hq := (emitPin_some he').1
    rw [← hport] at hq
    exact hne (portNameFor_injective (emitPin_some he).1 hq)
  traced := by
    intro part hpart p hp part' hpart' q hq e e' he he'
    obtain ⟨a, ha, hida, hreada⟩ := declared_of_emitted hids hown hpart hp he
    obtain ⟨b, hb, hidb, hreadb⟩ := declared_of_emitted hids hown hpart' hq he'
    have hiff := boardNet_iff_spiceNode hids hdeck hown.ground ha hb
    rw [hreada, hreadb, Option.some.injEq] at hiff
    rw [hiff, ← hida, ← hidb, spiceNode_of_mem hids ha, spiceNode_of_mem hids hb]
    constructor
    · intro h
      exact ⟨_, rfl, h.symm⟩
    · rintro ⟨node, h, h'⟩
      rw [h, h']

theorem noProtoKeys_of_boardAgrees (hids : (circuit.nets.map Net.id).Nodup)
    (h : BoardAgrees circuit plans) : NoProtoKeys circuit plans where
  ground := by
    intro net hnet hg hproto
    have hname := (h.ground net hnet).mpr (by
      rw [spiceNode_of_mem hids hnet, nodeOfNet_eq_zero_iff.mpr hg])
    rw [hproto, boardNet_protoKey hids] at hname
    exact absurd hname (by decide)
  pins := by
    intro plan hplan hphysical pin hpin hport hnot
    by_contra hsome
    obtain ⟨v, hv⟩ := Option.ne_none_iff_exists'.mp hsome
    obtain ⟨c, hc, -⟩ := not_isWord_inherited hv
    obtain ⟨name, hpart⟩ := exists_emittedParts hplan hphysical
    obtain ⟨e, he⟩ := emitPin_of_read name hport
      ((boardNet_of_notMem hids hnot).trans hv) (List.ne_nil_of_mem hc)
    obtain ⟨node, hnode, -⟩ := (h.traced _ hpart pin hpin _ hpart pin hpin e e he he).mp rfl
    exact hnot (mem_of_spiceNode hnode)

/-- The board has the nets of the deck exactly where no ground net and no stray pin is handed to
the prototype of the records. -/
theorem boardAgrees_iff (hids : (circuit.nets.map Net.id).Nodup)
    (hdeck : generateNetlist now circuit analysis options = .ok deck)
    (plans : List ComponentPlan) : BoardAgrees circuit plans ↔ NoProtoKeys circuit plans :=
  ⟨noProtoKeys_of_boardAgrees hids, boardAgrees_of_noProtoKeys hids hdeck⟩

end

/-- A source and a resistor on a net and a ground net with the given id. -/
def grounded (groundId : String) : CircuitJson where
  nets := [⟨groundId.toList, "ground".toList, true, false⟩,
    ⟨"in".toList, "in".toList, false, false⟩]
  components := [
    { id := ['1'], type := .voltageSource, designator := "V1".toList
      pins := [⟨['+'], "in".toList⟩, ⟨['-'], groundId.toList⟩] },
    { id := ['2'], type := .resistor, designator := "R1".toList, value := some "1k".toList
      pins := [⟨['1'], "in".toList⟩, ⟨['2'], groundId.toList⟩] }]

/-- Its plans. -/
def groundedPlans (groundId : String) : List ComponentPlan :=
  ((grounded groundId).components.zip
      [(LayoutRole.connectorized, TscElementName.pinheader), (.direct, .resistor)]).map
    fun p => { component := p.1, role := p.2.1, element := p.2.2 }

theorem boardAgrees_grounded :
    ∃ deck, generateNetlist epoch (grounded "gnd") (.op {}) = .ok deck ∧
      (BoardAgrees (grounded "gnd") (groundedPlans "gnd") ↔
        NoProtoKeys (grounded "gnd") (groundedPlans "gnd")) := by
  obtain ⟨deck, hdeck, _⟩ := Outcome.exists_ok
    (x := generateNetlist epoch (grounded "gnd") (.op {})) (p := fun _ => true) (by decide +kernel)
  exact ⟨deck, hdeck, boardAgrees_iff (by decide) hdeck _⟩

/-- A ground net with the id `__proto__` is simulated as node 0 and traced to another name. -/
theorem boardNets_differ_grounded :
    ((grounded "__proto__").nets.map Net.id).Nodup ∧
      (∃ deck, generateNetlist epoch (grounded "__proto__") (.op {}) = .ok deck) ∧
      spiceNode (grounded "__proto__") "__proto__".toList = some "0".toList ∧
      ((emittedParts (groundedPlans "__proto__")).flatMap
          (emittedPins (grounded "__proto__"))).map PinExpectation.netName =
        ["IN".toList, "[object Object]".toList, "IN".toList, "[object Object]".toList] ∧
      ¬ BoardAgrees (grounded "__proto__") (groundedPlans "__proto__") := by
  obtain ⟨deck, hdeck, _⟩ := Outcome.exists_ok
    (x := generateNetlist epoch (grounded "__proto__") (.op {})) (p := fun _ => true)
    (by decide +kernel)
  refine ⟨by decide, ⟨deck, hdeck⟩, by decide, by decide, fun h => ?_⟩
  exact absurd ((h.ground _ List.mem_cons_self).mpr (by decide)) (by decide)

end CircuitForge
