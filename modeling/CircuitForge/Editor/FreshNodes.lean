/-
Fresh nets against the node guard.

The editor calls a net fresh when its id and its name are free.  The generator compares
the nodes the ids are sanitized to, so a net `1`, whose node is `n1`, meets the fresh
net `n1`.
-/
import CircuitForge.Editor.CopiedPins
import CircuitForge.Editor.Runs
import CircuitForge.Netlist.Nodes

namespace CircuitForge

open Js

section

variable [Runtime]

/-! ## The guard -/

/-- The nets have nodes that differ when case is ignored, node 0 apart. -/
def NodesApart (circuit : CircuitJson) : Prop :=
  ((checkedNodes circuit).map Runtime.lower).Nodup

theorem claimNodes_of_nodup {owners entries : Map Text Text}
    (h : (owners.map Prod.fst ++
      ((entries.map Prod.snd).filter (· ≠ "0".toList)).map Runtime.lower).Nodup) :
    ∃ owners', claimNodes owners entries = .ok owners' := by
  induction entries generalizing owners with
  | nil => exact ⟨owners, rfl⟩
  | cons e entries ih =>
    obtain ⟨netId, node⟩ := e
    rw [claimNodes]
    by_cases hzero : node = "0".toList
    · rw [if_pos hzero]
      rw [List.map_cons, List.filter_cons_of_neg (by simp [hzero])] at h
      exact ih h
    · rw [List.map_cons, List.filter_cons_of_pos (by simpa using hzero), List.map_cons] at h
      have hnew : Runtime.lower node ∉ owners.map Prod.fst := fun hm =>
        (List.nodup_append.mp h).2.2 _ hm _ (List.mem_cons_self ..) rfl
      rw [if_neg hzero, Map.get?_eq_none_iff.mpr hnew]
      refine ih ?_
      rwa [Map.keys_set, if_neg hnew, List.append_assoc, List.singleton_append]

/-- The guard of the generator lets the nets through exactly if their nodes are apart. -/
theorem claimNodes_iff (circuit : CircuitJson) :
    (∃ owners, claimNodes [] (buildNodeMap circuit.nets) = .ok owners) ↔ NodesApart circuit := by
  constructor
  · rintro ⟨owners, h⟩
    obtain ⟨hkeys, hkeyed⟩ := claimNodes_ok h
    rw [NodesApart, checkedNodes, ← List.nil_append (List.map _ _), ← List.map_nil, ← hkeys]
    exact hkeyed Map.Keyed.nil
  · exact fun h => claimNodes_of_nodup h

/-! ## The node of a fresh net -/

omit [Runtime] in
theorem sanitizeNodeName_freshId (i : Nat) : sanitizeNodeName (freshId i) = freshId i := by
  have hdigits : ∀ c ∈ Nat.toDigits 10 (i + 1), c.isDigit = true := fun c hc =>
    Nat.isDigit_of_mem_toDigits (by decide) (by decide) hc
  have hword : wordChars (freshId i) = freshId i := by
    conv_rhs => rw [← List.map_id (freshId i)]
    refine List.map_congr_left fun c hc => ?_
    rw [if_pos (isWord_numbered (by decide) i c hc)]
    rfl
  have hlower : asciiLower (freshId i) = freshId i := by
    rw [freshId]
    exact congrArg _ (asciiLower_digits _)
  -- a word of either list goes on with a letter
  have hlist : ∀ w ∈ reservedWords ++ ngspiceOperators, ∃ c ∈ w.tail, c.isDigit = false := by
    decide
  have hplain : freshId i ∉ reservedWords ++ ngspiceOperators := by
    intro hm
    obtain ⟨c, hc, hd⟩ := hlist _ hm
    rw [hdigits c hc] at hd
    cases hd
  rw [List.mem_append, not_or] at hplain
  rw [sanitizeNodeName, hword]
  have h₁ : escapeDigit (freshId i) = freshId i := rfl
  have h₂ : escapeReserved (freshId i) = freshId i := by
    rw [escapeReserved, hlower, if_neg hplain.1]
  have h₃ : escapeEmpty (freshId i) = freshId i := rfl
  have h₄ : addNodePrefix (freshId i) = freshId i := rfl
  rw [h₁, h₂, h₃, h₄, escapeOperator, hlower, if_neg hplain.2]

omit [Runtime] in
theorem nodeOfNet_freshNetAt (i : Nat) : nodeOfNet (freshNetAt i) = freshId i :=
  sanitizeNodeName_freshId i

theorem mintedNet_node (circuit : CircuitJson) (q : Nat) :
    nodeOfNet (mintedNet circuit q) = mintedId circuit q ∧
      Runtime.lower (mintedId circuit q) = mintedId circuit q ∧
      mintedId circuit q ≠ "0".toList := by
  obtain ⟨k, hk, -⟩ := mintedNet_nth circuit q
  rw [mintedId, hk]
  refine ⟨nodeOfNet_freshNetAt k, lower_freshId k, fun he => ?_⟩
  exact absurd (List.cons.inj he).1 (by decide)

/-- The `q`th fresh net has a node no other net has. -/
def Apart (circuit : CircuitJson) (q : Nat) : Prop :=
  mintedId circuit q ∉ (checkedNodes circuit).map Runtime.lower

/-- Nets minted in a document, at distinct places. -/
theorem nodesApart_minted {circuit after : CircuitJson} (h : NodesApart circuit)
    {places : List Nat} (hplaces : places.Nodup)
    (hnets : after.nets = circuit.nets ++ places.map (mintedNet circuit)) :
    NodesApart after ↔ ∀ q ∈ places, Apart circuit q := by
  have hmap : buildNodeMap after.nets = buildNodeMap circuit.nets ++
      places.map fun q => (mintedId circuit q, mintedId circuit q) := by
    rw [hnets, buildNodeMap, Map.fill_append, ← buildNodeMap, Map.fill_of_nodup, List.map_map]
    · refine congrArg _ (List.map_congr_left fun q _ => ?_)
      simp only [Function.comp_apply, (mintedNet_node circuit q).1]
      rfl
    · rw [List.map_map]
      exact hplaces.map (mintedId_injective circuit)
    · intro net hnet hm
      obtain ⟨q, -, rfl⟩ := List.mem_map.mp hnet
      obtain ⟨e, he, heq⟩ := List.mem_map.mp hm
      obtain ⟨old, hold, hid, -⟩ := mem_nodeMap he
      exact mintedId_fresh circuit q (List.mem_map.mpr ⟨old, hold, hid.trans heq⟩)
  have hchecked : (checkedNodes after).map Runtime.lower =
      (checkedNodes circuit).map Runtime.lower ++ places.map (mintedId circuit) := by
    rw [checkedNodes, hmap, List.map_append, List.filter_append, ← checkedNodes, List.map_append,
      List.map_map]
    congr 1
    rw [List.filter_eq_self.mpr, List.map_map]
    · refine List.map_congr_left fun q _ => ?_
      exact (mintedNet_node circuit q).2.1
    · intro s hs
      obtain ⟨q, -, rfl⟩ := List.mem_map.mp hs
      simpa using (mintedNet_node circuit q).2.2
  rw [NodesApart, hchecked, List.nodup_append]
  constructor
  · rintro ⟨-, -, hdisjoint⟩ q hq hm
    exact hdisjoint _ hm _ (List.mem_map_of_mem hq) rfl
  · refine fun hapart => ⟨h, hplaces.map (mintedId_injective circuit), ?_⟩
    rintro s hs t ht rfl
    obtain ⟨q, hq, rfl⟩ := List.mem_map.mp ht
    exact hapart q hq hs

/-! ## One fresh net, and one for each pin -/

/-- Nothing else is on the net of the pin. -/
def PinAlone (circuit : CircuitJson) (ref : PinRef) : Prop :=
  ∀ c found, findPin circuit ref = .ok (c, found) →
    ∀ key, (key, found) ∈ pinsOf circuit → key = ref

theorem nodesApart_fresh {circuit after : CircuitJson} (h : NodesApart circuit)
    (hnets : after.nets = circuit.nets ++ [freshNet circuit]) :
    NodesApart after ↔ Apart circuit 0 := by
  rw [nodesApart_minted h (List.nodup_singleton 0) (by rw [hnets, freshNet_eq_minted]; rfl),
    List.forall_mem_singleton]

theorem nodesApart_disconnectPin {circuit after : CircuitJson} {ref : PinRef}
    (h : NodesApart circuit) (hs : (disconnectPin circuit ref).circuit? = some after) :
    NodesApart after ↔ PinAlone circuit ref ∨ Apart circuit 0 := by
  obtain ⟨c, found, hfind, hcases⟩ := disconnectPin_result hs
  rw [PinAlone, forall_findPin hfind]
  rcases hcases with ⟨rfl, halone⟩ | ⟨rfl, other, hne, hpin⟩
  · exact ⟨fun _ => .inl halone, fun _ => h⟩
  · exact (nodesApart_fresh h rfl).trans
      ⟨.inr, fun hm => hm.resolve_left fun halone => hne (halone other hpin)⟩

theorem nodesApart_splitNet {circuit after : CircuitJson} {netId : Text} {take : List PinRef}
    (h : NodesApart circuit) (hs : (splitNet circuit netId take).circuit? = some after) :
    NodesApart after ↔ Apart circuit 0 := by
  obtain ⟨rfl, -⟩ := splitNet_result hs
  exact nodesApart_fresh h rfl

theorem nodesApart_addComponent {circuit after : CircuitJson} {spec : NewPart}
    (h : NodesApart circuit) (hs : (addComponent circuit spec).circuit? = some after) :
    NodesApart after ↔ ∀ q < spec.pinIds.length, Apart circuit q := by
  obtain ⟨rfl, -⟩ := addComponent_cases hs
  rw [nodesApart_minted h (@List.nodup_range spec.pinIds.length)]
  · simp only [List.mem_range]
  · rw [withPart, netsFor, freshNets_eq_map]

theorem nodesApart_duplicateComponents {circuit after : CircuitJson} {ids : List Text}
    (h : NodesApart circuit) (hs : (duplicateComponents circuit ids).circuit? = some after) :
    NodesApart after ↔ ∀ q, IsKept circuit (selection circuit ids) q → Apart circuit q := by
  obtain ⟨places, hnodup, hnets, hkept⟩ := duplicateComponents_result hs
  rw [nodesApart_minted h hnodup hnets]
  exact forall_congr' fun q => imp_congr_left (hkept q)

/-! ## The edits that mint nets -/

/-- The edits that mint nets. -/
def KernelEdit.mints : KernelEdit → Bool
  | .disconnectPin _ | .splitNet _ _ | .addComponent _ | .duplicateComponents _ => true
  | _ => false

/-- Every fresh net that the edit leaves in the document has a node of its own. -/
def FreshApart (circuit : CircuitJson) : KernelEdit → Prop
  | .disconnectPin ref => PinAlone circuit ref ∨ Apart circuit 0
  | .splitNet _ _ => Apart circuit 0
  | .addComponent spec => ∀ q < spec.pinIds.length, Apart circuit q
  | .duplicateComponents ids => ∀ q, IsKept circuit (selection circuit ids) q → Apart circuit q
  | _ => True

/-- After an edit that mints nets the nodes are apart exactly if no fresh net it leaves
meets the node of a net that was there. -/
theorem fresh_nets_apart_iff {circuit after : CircuitJson} {edit : KernelEdit}
    (hmints : edit.mints = true) (h : NodesApart circuit)
    (hs : edited circuit edit = some after) : NodesApart after ↔ FreshApart circuit edit := by
  cases edit with
  | disconnectPin => exact nodesApart_disconnectPin h hs
  | splitNet => exact nodesApart_splitNet h hs
  | addComponent => exact nodesApart_addComponent h hs
  | duplicateComponents => exact nodesApart_duplicateComponents h hs
  | _ => cases hmints

instance (circuit : CircuitJson) : Decidable (NodesApart circuit) :=
  inferInstanceAs (Decidable (List.Nodup _))

instance (circuit : CircuitJson) (q : Nat) : Decidable (Apart circuit q) :=
  inferInstanceAs (Decidable (¬ _))

end

theorem fresh_nets_apart_parallelBoard :
    ∃ after, edited parallelBoard (.disconnectPin ⟨"r1".toList, "1".toList⟩) = some after ∧
      NodesApart after := by
  have hapart : Apart parallelBoard 0 := by decide
  have hfresh : FreshApart parallelBoard (.disconnectPin ⟨"r1".toList, "1".toList⟩) := .inr hapart
  exact ⟨_, rfl, (fresh_nets_apart_iff rfl (show NodesApart parallelBoard by decide) rfl).mpr hfresh⟩

/-- A resistor of an imported deck, on the node `1`. -/
def numericBoard : CircuitJson where
  components := [
    { id := "r1".toList, type := .resistor, designator := "R1".toList,
      pins := [⟨"1".toList, "1".toList⟩, ⟨"2".toList, "1".toList⟩] }]
  nets := [{ id := "1".toList, name := "IN".toList }]

/-- The fresh net of pin `1` has the id `n1`, which is the node of net `1`. -/
theorem fresh_net_collides :
    ¬ ∀ (circuit after : CircuitJson) (edit : KernelEdit), edit.mints = true →
      NodesApart circuit → edited circuit edit = some after → NodesApart after := by
  intro hall
  exact absurd (hall numericBoard _ (.disconnectPin ⟨"r1".toList, "1".toList⟩) rfl (by decide) rfl)
    (by decide)

end CircuitForge
