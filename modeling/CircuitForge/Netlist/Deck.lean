/-
What stands behind a generated deck.

A deck that is returned has passed every guard of `generateDeck`.  `DeckRun`
collects the values on the way; the loop over the components is read off card by
card and midpoint by midpoint.
-/
import CircuitForge.Netlist.Emission

namespace CircuitForge

open Js

variable [Runtime]

/-! ## Node owners -/

theorem claimNodes_ok {owners entries owners' : Map Text Text}
    (h : claimNodes owners entries = .ok owners') :
    owners'.map Prod.fst = owners.map Prod.fst ++
        ((entries.map Prod.snd).filter (· ≠ "0".toList)).map Runtime.lower ∧
      (owners.Keyed → owners'.Keyed) := by
  induction entries generalizing owners with
  | nil =>
    cases h
    exact ⟨by simp, id⟩
  | cons e entries ih =>
    obtain ⟨netId, node⟩ := e
    rw [claimNodes] at h
    by_cases hzero : node = "0".toList
    · rw [if_pos hzero] at h
      obtain ⟨hkeys, hkeyed⟩ := ih h
      refine ⟨?_, hkeyed⟩
      rw [hkeys, List.map_cons, List.filter_cons_of_neg (by simp [hzero])]
    · rw [if_neg hzero] at h
      cases hprev : owners.get? (Runtime.lower node) with
      | some prev => rw [hprev] at h; cases h
      | none =>
        rw [hprev] at h
        obtain ⟨hkeys, hkeyed⟩ := ih h
        refine ⟨?_, fun hk => hkeyed (hk.set _ _)⟩
        rw [hkeys, Map.keys_set, if_neg (Map.get?_eq_none_iff.mp hprev), List.map_cons,
          List.filter_cons_of_pos (by simpa using hzero), List.map_cons, List.append_assoc,
          List.singleton_append]

theorem claimMidNodes_ok {designator : Text} {owners owners' : Map Text Text} {mids : List Text}
    (h : claimMidNodes designator owners mids = .ok owners') :
    owners'.map Prod.fst = owners.map Prod.fst ++ mids.map Runtime.lower ∧
      (owners.Keyed → owners'.Keyed) := by
  induction mids generalizing owners with
  | nil =>
    cases h
    exact ⟨by simp, id⟩
  | cons mid mids ih =>
    rw [claimMidNodes] at h
    cases hprev : owners.get? (Runtime.lower mid) with
    | some prev => rw [hprev] at h; cases h
    | none =>
      rw [hprev] at h
      obtain ⟨hkeys, hkeyed⟩ := ih h
      refine ⟨?_, fun hk => hkeyed (hk.set _ _)⟩
      rw [hkeys, Map.keys_set, if_neg (Map.get?_eq_none_iff.mp hprev), List.map_cons,
        List.append_assoc, List.singleton_append]

/-! ## Device names -/

theorem checkDevices_ok {seen seen' : List Text} {cards : List Card}
    (h : checkDevices seen cards = .ok seen') :
    seen' = ((cards.map fun c => Runtime.lower c.name).reverse) ++ seen ∧
      (seen.Nodup → seen'.Nodup) := by
  induction cards generalizing seen with
  | nil =>
    cases h
    exact ⟨rfl, id⟩
  | cons card cards ih =>
    rw [checkDevices] at h
    by_cases hmem : Runtime.lower card.name ∈ seen
    · rw [if_pos hmem] at h
      cases h
    · rw [if_neg hmem] at h
      obtain ⟨hseen, hnodup⟩ := ih h
      refine ⟨?_, fun hs => hnodup (List.nodup_cons.mpr ⟨hmem, hs⟩)⟩
      rw [hseen, List.map_cons, List.reverse_cons, List.append_assoc, List.singleton_append]

/-- The cards of a deck differ in their lower-cased names. -/
theorem nodup_of_checkDevices {cards : List Card} {seen : List Text}
    (h : checkDevices [] cards = .ok seen) :
    (cards.map fun c => Runtime.lower c.name).Nodup := by
  obtain ⟨hseen, hnodup⟩ := checkDevices_ok h
  rw [List.append_nil] at hseen
  exact List.nodup_reverse.mp (hseen ▸ hnodup List.nodup_nil)

/-! ## The loop over the components -/

/-- The cards a component comes to; none when it is refused. -/
def cardsOf (ctx : EmitContext) (c : Component) : List Card :=
  match emitComponent ctx c with
  | .ok cards => cards
  | .error _ => []

/-- The winding midpoints of an emitted transformer. -/
def midsOf (ctx : EmitContext) (c : Component) : List Text :=
  if c.type = .transformer ∧ cardsOf ctx c ≠ [] then
    [(transformerMidNodes c.designator).1, (transformerMidNodes c.designator).2]
  else []

/-- The midpoints that are checked against the owners: those of a transformer
with a designator. -/
def claimedMids (ctx : EmitContext) (c : Component) : List Text :=
  if c.designator = [] then [] else midsOf ctx c

theorem noteNames_cards (e : Emission) (c : Component) (emitted : List Card) :
    (noteNames e c emitted).cards = e.cards := by
  unfold noteNames
  split
  · split_ifs <;> rfl
  · rfl

theorem noteNames_nodeOwner (e : Emission) (c : Component) (emitted : List Card) :
    (noteNames e c emitted).nodeOwner = e.nodeOwner := by
  unfold noteNames
  split
  · split_ifs <;> rfl
  · rfl

/-- What one turn of the loop has done. -/
theorem emitStep_ok {ctx : EmitContext} {e e' : Emission} {c : Component}
    (h : emitStep ctx e c = .ok e') :
    emitComponent ctx c = .ok (cardsOf ctx c) ∧ e'.cards = e.cards ++ cardsOf ctx c ∧
      claimMidNodes c.designator e.nodeOwner (claimedMids ctx c) = .ok e'.nodeOwner := by
  obtain ⟨emitted, hemit, h⟩ := Outcome.bind_eq_ok.mp h
  have hcards : cardsOf ctx c = emitted := by rw [cardsOf, hemit]
  rw [hcards]
  by_cases hmid : c.type = .transformer ∧ emitted ≠ [] ∧ c.designator ≠ []
  · rw [if_pos hmid] at h
    obtain ⟨owners, howners, h⟩ := Outcome.bind_eq_ok.mp h
    cases Outcome.pure_eq_ok.mp h
    refine ⟨hemit, by rw [noteNames_cards], ?_⟩
    rw [claimedMids, if_neg hmid.2.2, midsOf, hcards, if_pos ⟨hmid.1, hmid.2.1⟩]
    simpa only [noteNames_nodeOwner, transformerMidNodes] using howners
  · rw [if_neg hmid] at h
    cases Outcome.pure_eq_ok.mp h
    refine ⟨hemit, by rw [noteNames_cards], ?_⟩
    have hnone : claimedMids ctx c = [] := by
      unfold claimedMids midsOf
      rw [hcards]
      split_ifs with hd ht
      · rfl
      · exact absurd ⟨ht.1, ht.2, hd⟩ hmid
      · rfl
    rw [hnone, noteNames_nodeOwner]
    rfl

/-- What the loop has done after the components `done`. -/
structure LoopSpec (ctx : EmitContext) (owners : Map Text Text) (done : List Component)
    (e : Emission) : Prop where
  emits : ∀ c ∈ done, emitComponent ctx c = .ok (cardsOf ctx c)
  cards : e.cards = done.flatMap (cardsOf ctx)
  keys : e.nodeOwner.map Prod.fst =
    owners.map Prod.fst ++ (done.flatMap (claimedMids ctx)).map Runtime.lower
  keyed : owners.Keyed → e.nodeOwner.Keyed

theorem LoopSpec.step {ctx : EmitContext} {owners : Map Text Text} {done : List Component}
    {c : Component} {e e' : Emission} (h : LoopSpec ctx owners done e)
    (hstep : emitStep ctx e c = .ok e') : LoopSpec ctx owners (done ++ [c]) e' := by
  obtain ⟨hemit, hcards, hmids⟩ := emitStep_ok hstep
  obtain ⟨hkeys, hkeyed⟩ := claimMidNodes_ok hmids
  refine ⟨List.forall_mem_append.mpr ⟨h.emits, by simpa using hemit⟩, ?_, ?_,
    fun hk => hkeyed (h.keyed hk)⟩
  · rw [hcards, h.cards, List.flatMap_append, List.flatMap_singleton]
  · rw [hkeys, h.keys, List.flatMap_append, List.flatMap_singleton, List.map_append,
      List.append_assoc]

theorem emitLoop_spec {ctx : EmitContext} {owners : Map Text Text} {cs : List Component}
    {e : Emission} (h : cs.foldlM (emitStep ctx) { nodeOwner := owners } = .ok e) :
    LoopSpec ctx owners cs e := by
  have hinit : LoopSpec ctx owners [] { nodeOwner := owners } :=
    ⟨by simp, rfl, by simp, id⟩
  have := Outcome.foldlM_invariant (P := LoopSpec ctx owners)
    (fun _ _ _ _ hp hs => hp.step hs) hinit h
  rwa [List.nil_append] at this

/-! ## The deck -/

/-- The refusals `generateDeck` has passed on the way to a deck with these parts. -/
structure DeckRun (circuit : CircuitJson) (analysis : AnalysisConfig) (options : NetlistOptions)
    (parts : DeckParts) where
  owners : Map Text Text
  claimed : claimNodes [] (buildNodeMap circuit.nets) = .ok owners
  acSource : checkAc circuit analysis = .ok ()
  declared : Map Text Text
  models : declareModels (defaultModels circuit)
    ((deckModels circuit).map fun m => (m.name, m.body)) = .ok (declared, parts.models)
  withZeners : Map Text Text
  zeners : declareModels declared ((zenerModels circuit).map fun m => (m.name, m.body)) =
    .ok (withZeners, parts.zenerModels)
  withDigitals : Map Text Text
  digitals : declareModels withZeners
    ((deckPlan circuit options).modelCards.map fun card => (modelCardName card, card)) =
    .ok (withDigitals, parts.digitalModels)
  includes : includeLines options = .ok parts.includes
  emitted : circuit.components.foldlM (emitStep (emitContext circuit options))
    { nodeOwner := owners } = .ok parts.loop
  devices : checkDevices [] (parts.loop.cards ++ (deckPlan circuit options).deviceLines) =
    .ok parts.seenDevices
  observable : checkProbes options (deckProbes circuit analysis options parts) = .ok ()

theorem generateDeck_ok {now : Timestamp} {circuit : CircuitJson} {analysis : AnalysisConfig}
    {options : NetlistOptions} {d : Deck}
    (h : generateDeck now circuit analysis options = .ok d) :
    ∃ parts, Nonempty (DeckRun circuit analysis options parts) ∧
      d = assembleDeck now circuit analysis options parts := by
  obtain ⟨owners, howners, h⟩ := Outcome.bind_eq_ok.mp h
  obtain ⟨_, hac, h⟩ := Outcome.bind_eq_ok.mp h
  obtain ⟨⟨declared, models⟩, hmodels, h⟩ := Outcome.bind_eq_ok.mp h
  obtain ⟨⟨withZeners, zeners⟩, hzeners, h⟩ := Outcome.bind_eq_ok.mp h
  obtain ⟨⟨withDigitals, digitals⟩, hdigitals, h⟩ := Outcome.bind_eq_ok.mp h
  obtain ⟨includes, hincludes, h⟩ := Outcome.bind_eq_ok.mp h
  obtain ⟨e, he, h⟩ := Outcome.bind_eq_ok.mp h
  obtain ⟨seen, hseen, h⟩ := Outcome.bind_eq_ok.mp h
  obtain ⟨_, hprobes, h⟩ := Outcome.bind_eq_ok.mp h
  cases Outcome.pure_eq_ok.mp h
  exact ⟨⟨models, zeners, digitals, includes, e, seen⟩,
    ⟨⟨owners, howners, hac, declared, hmodels, withZeners, hzeners, withDigitals, hdigitals,
      hincludes, he, hseen, hprobes⟩⟩, rfl⟩

end CircuitForge
