/-
Two notions of ground.

The rule check knows ground by a flag, by the number 0 as id or name, and by a
ground component; the deck knows it by the flag alone.
-/
import CircuitForge.Erc.Checker
import CircuitForge.Netlist.Domains

namespace CircuitForge

open Js

section

variable [Runtime]

/-- The declared nets the rule check grounds are those the deck has on node 0. -/
def GroundsAgree (circuit : CircuitJson) : Prop :=
  ∀ net ∈ circuit.nets,
    (net.id ∈ collectGroundNetIds circuit ↔
      (buildNodeMap circuit.nets).get? net.id = some "0".toList) ∧
    (net.id ∈ anchoredNetIds circuit ↔
      (buildNodeMap circuit.nets).get? net.id = some "0".toList)

/-- Some device is on node 0. -/
def TouchesGround (d : Deck) : Prop := ∃ card ∈ d.components, "0".toList ∈ card.terminals

/-- Every net with the id or the name 0, a ground component or a flag is flagged
in the last declaration of its id. -/
def EveryGroundFlagged (circuit : CircuitJson) : Prop :=
  ∀ net ∈ circuit.nets, net.isReference = true ∨ net.id ∈ groundPinNets circuit →
    (circuit.nets.reverse.find? (·.id = net.id)).any Net.isGround = true

omit [Runtime] in
theorem buildNodeMap_zero_iff (nets : List Net) (g : Text) :
    (buildNodeMap nets).get? g = some "0".toList ↔
      (nets.reverse.find? (·.id = g)).any Net.isGround = true := by
  rw [buildNodeMap, Map.get?_fill, Map.get?_nil, Option.or_none]
  cases nets.reverse.find? (·.id = g) with
  | none => simp
  | some net => rw [Option.map_some, Option.some.injEq, nodeOfNet_eq_zero_iff, Option.any_some]

/-- A declared net is anchored by a declaration of its id or by a component. -/
theorem mem_anchoredNetIds {circuit : CircuitJson} {g : Text} :
    g ∈ anchoredNetIds circuit ↔
      (∃ net ∈ circuit.nets, net.id = g ∧ net.isReference = true) ∨
        g ∈ groundPinNets circuit := by
  rw [anchoredNetIds, List.mem_append, List.mem_map]
  refine or_congr_left ⟨?_, ?_⟩
  · rintro ⟨net, hnet, rfl⟩
    exact ⟨net, (List.mem_filter.mp hnet).1, rfl, (List.mem_filter.mp hnet).2⟩
  · rintro ⟨net, hnet, hid, href⟩
    exact ⟨net, List.mem_filter.mpr ⟨hnet, href⟩, hid⟩

/-- On declared nets the two collections are one. -/
theorem mem_collectGroundNetIds {circuit : CircuitJson} {net : Net} (hnet : net ∈ circuit.nets) :
    net.id ∈ collectGroundNetIds circuit ↔ net.id ∈ anchoredNetIds circuit := by
  rw [collectGroundNetIds, List.mem_cons]
  refine or_iff_right_of_imp fun hzero => ?_
  exact mem_anchoredNetIds.mpr (Or.inl ⟨net, hnet, rfl, by simp [Net.isReference, hzero]⟩)

/-- What the deck grounds the rule check grounds. -/
theorem mem_anchoredNetIds_of_zero {circuit : CircuitJson} {g : Text}
    (h : (buildNodeMap circuit.nets).get? g = some "0".toList) : g ∈ anchoredNetIds circuit := by
  rw [buildNodeMap_zero_iff, Option.any_eq_true] at h
  obtain ⟨net, hfind, hground⟩ := h
  have hid : net.id = g := by simpa using List.find?_some hfind
  refine mem_anchoredNetIds.mpr (Or.inl ⟨net, ?_, hid, by simp [Net.isReference, hground]⟩)
  exact List.mem_reverse.mp (List.mem_of_find?_eq_some hfind)

/-- The grounds agree exactly when the flag covers the other ways to name ground. -/
theorem groundsAgree_iff (circuit : CircuitJson) :
    GroundsAgree circuit ↔ EveryGroundFlagged circuit := by
  constructor
  · intro h net hnet hground
    rw [← buildNodeMap_zero_iff]
    refine (h net hnet).2.mp (mem_anchoredNetIds.mpr ?_)
    exact hground.imp_left fun href => ⟨net, hnet, rfl, href⟩
  · intro h net hnet
    have hback : net.id ∈ anchoredNetIds circuit →
        (buildNodeMap circuit.nets).get? net.id = some "0".toList := by
      intro hmem
      rw [buildNodeMap_zero_iff]
      rcases mem_anchoredNetIds.mp hmem with ⟨net', hnet', hid, href⟩ | hpin
      · rw [← hid]
        exact h net' hnet' (Or.inl href)
      · exact h net hnet (Or.inr hpin)
    have hiff : net.id ∈ anchoredNetIds circuit ↔
        (buildNodeMap circuit.nets).get? net.id = some "0".toList :=
      ⟨hback, mem_anchoredNetIds_of_zero⟩
    exact ⟨(mem_collectGroundNetIds hnet).trans hiff, hiff⟩

/-- What puts a device on node 0. -/
theorem touchesGround_iff {now : Timestamp} {circuit : CircuitJson} {analysis : AnalysisConfig}
    {options : NetlistOptions} {d : Deck}
    (h : generateDeck now circuit analysis options = .ok d) :
    TouchesGround d ↔ AnalogAtGround circuit ∨ EventAtGround circuit := by
  obtain ⟨parts, ⟨run⟩, rfl⟩ := generateDeck_ok h
  have hloop := emitLoop_spec run.emitted
  rw [← exists_analogZero_iff hloop, ← exists_eventZero_iff hloop]
  constructor
  · rintro ⟨card, hcard, ht⟩
    rcases List.mem_append.mp ht with ht | ht
    · exact Or.inl ⟨card, hcard, ht⟩
    · exact Or.inr ⟨card, hcard, ht⟩
  · rintro (⟨card, hcard, ht⟩ | ⟨card, hcard, ht⟩)
    · exact ⟨card, hcard, List.mem_append_left _ ht⟩
    · exact ⟨card, hcard, List.mem_append_right _ ht⟩

/-- When the rule check's ground is the deck's: for every circuit when the two know
the same nets, and for every deck when a circuit that passed is grounded in it. -/
theorem erc_ground_iff (circuit : CircuitJson) :
    (GroundsAgree circuit ↔ EveryGroundFlagged circuit) ∧
      ∀ (now : Timestamp) (analysis : AnalysisConfig) (options : NetlistOptions) (d : Deck),
        generateDeck now circuit analysis options = .ok d →
          (((runErc circuit).passed = true → TouchesGround d) ↔
            ((runErc circuit).passed = true →
              AnalogAtGround circuit ∨ EventAtGround circuit)) :=
  ⟨groundsAgree_iff circuit, fun _ _ _ _ h => imp_congr_right fun _ => touchesGround_iff h⟩

end

/-- A divider grounded by a ground component alone. -/
def unflaggedGround : CircuitJson where
  nets := [⟨"in".toList, [], false, false⟩, ⟨"gnd".toList, "GND".toList, false, false⟩]
  components := [
    { id := ['1'], type := .voltageSource, designator := "V1".toList, value := some "DC 5".toList
      pins := [⟨"+".toList, "in".toList⟩, ⟨"-".toList, "gnd".toList⟩] },
    { id := ['2'], type := .resistor, designator := "R1".toList, value := some "1k".toList
      pins := [⟨"1".toList, "in".toList⟩, ⟨"2".toList, "gnd".toList⟩] },
    { id := ['3'], type := .ground, designator := "GND1".toList
      pins := [⟨"1".toList, "gnd".toList⟩] }]

instance (d : Deck) : Decidable (TouchesGround d) :=
  inferInstanceAs (Decidable (∃ card ∈ d.components, "0".toList ∈ card.terminals))

theorem erc_ground_unflaggedGround :
    ¬ GroundsAgree unflaggedGround ∧ (runErc unflaggedGround).passed = true ∧
      ∃ d, generateDeck epoch unflaggedGround (.op {}) = .ok d ∧ ¬ TouchesGround d := by
  refine ⟨?_, by decide +kernel, ?_⟩
  · rw [groundsAgree_iff]
    intro h
    exact absurd (h ⟨"gnd".toList, "GND".toList, false, false⟩ (by decide) (Or.inr (by decide)))
      (by decide)
  · obtain ⟨d, hd, hno⟩ := Outcome.exists_ok (x := generateDeck epoch unflaggedGround (.op {}))
      (p := fun d => !decide (TouchesGround d)) (by decide +kernel)
    exact ⟨d, hd, by simpa using hno⟩

theorem erc_ground_iff_splitBoard :
    ∃ d, generateDeck epoch splitBoard (.op {}) = .ok d ∧
      (((runErc splitBoard).passed = true → TouchesGround d) ↔
        ((runErc splitBoard).passed = true →
          AnalogAtGround splitBoard ∨ EventAtGround splitBoard)) := by
  obtain ⟨d, hd, _⟩ := Outcome.exists_ok (x := generateDeck epoch splitBoard (.op {}))
    (p := fun _ => true) (by decide +kernel)
  exact ⟨d, hd, (erc_ground_iff splitBoard).2 epoch (.op {}) {} d hd⟩

/-! ## Reachability -/

/-- A component has a pin on either net. -/
def Joined (circuit : CircuitJson) (a b : Text) : Prop :=
  ∃ c ∈ circuit.components, a ∈ netsOf c ∧ b ∈ netsOf c

theorem mem_adjacentNets {circuit : CircuitJson} {a b : Text} :
    b ∈ adjacentNets circuit a ↔ b ≠ a ∧ Joined circuit a b := by
  rw [adjacentNets, List.mem_flatMap]
  constructor
  · rintro ⟨c, hc, hb⟩
    split_ifs at hb with ha
    · obtain ⟨hb, hne⟩ := List.mem_filter.mp hb
      exact ⟨of_decide_eq_true hne, c, hc, ha, hb⟩
    · cases hb
  · rintro ⟨hne, c, hc, ha, hb⟩
    refine ⟨c, hc, ?_⟩
    rw [if_pos ha]
    exact List.mem_filter.mpr ⟨hb, decide_eq_true hne⟩

/-- The fill reaches the nets that components join to an anchored one. -/
theorem mem_reachableNets_iff {circuit : CircuitJson} {netId : Text} :
    netId ∈ reachableNets circuit ↔
      ∃ g ∈ anchoredNetIds circuit, Relation.ReflTransGen (Joined circuit) g netId := by
  have hnets : ∀ a, ∀ b ∈ adjacentNets circuit a, b ∈ circuit.components.flatMap netsOf := by
    intro a b hb
    obtain ⟨-, c, hc, -, hmem⟩ := mem_adjacentNets.mp hb
    exact List.mem_flatMap.mpr ⟨c, hc, hmem⟩
  rw [reachableNets, Worklist.mem_reach_iff hnets]
  refine exists_congr fun g => and_congr List.mem_eraseDups ?_
  constructor
  · exact Relation.ReflTransGen.mono
      (fun a b (hb : b ∈ adjacentNets circuit a) => (mem_adjacentNets.mp hb).2) g netId
  · intro hpath
    induction hpath with
    | refl => exact .refl
    | @tail a b _ hjoin ih =>
      by_cases hne : b = a
      · rwa [hne]
      · exact ih.tail (mem_adjacentNets.mpr ⟨hne, hjoin⟩)

/-- The reachability rule passes a circuit without an anchored net, and one whose nets with two
analog pins are all joined to one. -/
theorem checkGroundReachability_eq_nil_iff (circuit : CircuitJson) :
    checkGroundReachability circuit = [] ↔
      anchoredNetIds circuit = [] ∨
        ∀ net ∈ circuit.nets, 2 ≤ analogPinCount circuit net.id →
          ∃ g ∈ anchoredNetIds circuit, Relation.ReflTransGen (Joined circuit) g net.id := by
  unfold checkGroundReachability
  dsimp only
  by_cases hanchored : anchoredNetIds circuit = []
  · rw [if_pos hanchored]
    exact iff_of_true rfl (Or.inl hanchored)
  · rw [if_neg hanchored, or_iff_right hanchored]
    simp only [← mem_reachableNets_iff]
    split_ifs with hislands
    · refine iff_of_true rfl fun net hnet hpins => ?_
      have hkept := List.filter_eq_nil_iff.mp hislands net hnet
      rw [decide_eq_true_iff] at hkept
      exact not_not.mp fun hout => hkept ⟨hout, hpins⟩
    · refine iff_of_false not_false fun hall => hislands ?_
      refine List.filter_eq_nil_iff.mpr fun net hnet hkept => ?_
      rw [decide_eq_true_iff] at hkept
      exact hkept.1 (hall net hnet hkept.2)

end CircuitForge
