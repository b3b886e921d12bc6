/-
The nets that the arguments of an expression name.

The generator looks an argument up by its lower-case spelling, and of several nets spelled alike
the last one answers.  A fresh net stands behind the nets that were there, so it answers for a
spelling it shares with one of them.
-/
import CircuitForge.Editor.Repointed
import CircuitForge.Netlist.Nodes

namespace CircuitForge

open Js

variable [Runtime]

/-- The net that the generator reads for an argument: case aside, the last one of its spelling. -/
def readNet (nets : List Net) (arg : Text) : Option Net :=
  (Map.fill (fun net => Runtime.lower net.id) id nets []).get? (Runtime.lower arg)

theorem readNet_eq (nets : List Net) (arg : Text) :
    readNet nets arg =
      nets.reverse.find? fun net => Runtime.lower net.id = Runtime.lower arg := by
  rw [readNet, Map.get?_fill, Option.map_id_fun, id, Map.get?_nil, Option.or_none]

theorem exprRef_readNet {nets : List Net} (h : (nets.map Net.id).Nodup) (arg : Text) :
    exprRef (Map.fill (fun e : Text × Text => Runtime.lower e.1) Prod.snd (buildNodeMap nets) [])
        arg = ((readNet nets (trim arg)).map nodeOfNet).getD (trim arg) := by
  rw [exprRef, buildNodeMap_of_nodup h, Map.get?_fill, Map.get?_nil, Option.or_none, readNet_eq,
    ← List.map_reverse, List.find?_map, Option.map_map]
  rfl

/-- The generator's text depends on the nets that the arguments name, and on nothing else. -/
theorem rewriteExprNodeRefs_congr {nets nets' : List Net} (h : (nets.map Net.id).Nodup)
    (h' : (nets'.map Net.id).Nodup) {expr : Text}
    (hsame : ∀ arg ∈ exprArgs expr,
      (readNet nets arg).map nodeOfNet = (readNet nets' arg).map nodeOfNet) :
    rewriteExprNodeRefs expr (buildNodeMap nets) =
      rewriteExprNodeRefs expr (buildNodeMap nets') := by
  refine replaceCallsFrom_congr expr _ _ fun inner hinner whole => ?_
  have hargs : mapCommas (exprRef (Map.fill (fun e : Text × Text => Runtime.lower e.1) Prod.snd
        (buildNodeMap nets) [])) inner =
      mapCommas (exprRef (Map.fill (fun e : Text × Text => Runtime.lower e.1) Prod.snd
        (buildNodeMap nets') [])) inner := by
    refine congrArg _ (List.map_congr_left fun arg harg => ?_)
    rw [exprRef_readNet h, exprRef_readNet h', hsame (trim arg)
      (List.mem_flatMap.mpr ⟨inner, hinner, List.mem_map_of_mem harg⟩)]
  rw [hargs]

theorem lower_mintedId (circuit : CircuitJson) (q : Nat) :
    Runtime.lower (mintedId circuit q) = mintedId circuit q := by
  obtain ⟨k, hk, -⟩ := mintedNet_nth circuit q
  rw [mintedId, hk, freshNetAt, lower_freshId]

theorem exists_freshId (circuit : CircuitJson) (q : Nat) : ∃ i, mintedId circuit q = freshId i := by
  obtain ⟨k, hk, -⟩ := mintedNet_nth circuit q
  exact ⟨k, by rw [mintedId, hk, freshNetAt]⟩

/-- A net of the design is read as before unless a fresh one takes the spelling. -/
theorem readNet_minted {circuit : CircuitJson} {places : List Nat} {arg : Text} {net : Net} :
    (readNet (circuit.nets ++ places.map (mintedNet circuit)) arg = some net ∧
        net ∈ circuit.nets) ↔
      readNet circuit.nets arg = some net ∧
        ∀ q ∈ places, mintedId circuit q ≠ Runtime.lower arg := by
  rw [readNet_eq, readNet_eq, List.reverse_append, List.find?_append]
  cases hf : (places.map (mintedNet circuit)).reverse.find?
      fun net => decide (Runtime.lower net.id = Runtime.lower arg) with
  | none =>
    rw [Option.none_or]
    have hfree : ∀ q ∈ places, mintedId circuit q ≠ Runtime.lower arg := by
      intro q hq he
      refine List.find?_eq_none.mp hf (mintedNet circuit q)
        (List.mem_reverse.mpr (List.mem_map_of_mem hq)) (decide_eq_true ?_)
      exact (lower_mintedId circuit q).trans he
    constructor
    · exact fun ⟨h, _⟩ => ⟨h, hfree⟩
    · exact fun ⟨h, _⟩ => ⟨h, List.mem_reverse.mp (List.mem_of_find?_eq_some h)⟩
  | some m =>
    obtain ⟨q, hq, rfl⟩ := List.mem_map.mp (List.mem_reverse.mp (List.mem_of_find?_eq_some hf))
    have hfound := List.find?_some hf
    rw [decide_eq_true_eq] at hfound
    have hspelt : mintedId circuit q = Runtime.lower arg :=
      (lower_mintedId circuit q).symm.trans hfound
    rw [Option.some_or]
    constructor
    · rintro ⟨h, hmem⟩
      obtain rfl := Option.some.inj h
      exact absurd (List.mem_map_of_mem hmem) (mintedId_fresh circuit q)
    · exact fun ⟨_, hfree⟩ => absurd hspelt (hfree q hq)

/-- No net is read for an empty argument. -/
theorem readNet_nil {nets : List Net} (h : ∀ net ∈ nets, net.id ≠ []) : readNet nets [] = none := by
  have hempty : Runtime.lower [] = [] :=
    Runtime.lower_ascii [] fun _ hc => absurd hc List.not_mem_nil
  rw [readNet_eq, List.find?_eq_none]
  intro net hnet he
  rw [decide_eq_true_eq, hempty] at he
  have hlower := Runtime.lower_to_ascii net.id (by
    rw [he]
    exact fun _ hc => absurd hc List.not_mem_nil)
  rw [he, eq_comm, List.map_eq_nil_iff] at hlower
  exact h net (List.mem_reverse.mp hnet) hlower

end CircuitForge
