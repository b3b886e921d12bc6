/-
The nets that copied pins come to sit on.

A copy is built with a fresh net for each pin and then wired like its original: a pin on
a shared net goes back to it, the pins on one net inside the selection meet on the fresh
net of the first of them, and any other pin stays where it is.
-/
import CircuitForge.Editor.Placing

namespace CircuitForge

open Js

variable [Runtime]

/-- The parts a copy is asked of. -/
def selection (circuit : CircuitJson) (ids : List Text) : List Component :=
  (ids.filterMap fun id => circuit.components.find? (·.id = id)).filter
    fun c => isPlaceablePart c.type

/-- The nets the pins of some parts are on, pin by pin. -/
def netIdsOf (components : List Component) : List Text :=
  components.flatMap fun c => c.pins.map PinConnection.netId

omit [Runtime] in
/-- The place of the fresh net that the copy of the `q`th pin gets. -/
def slot (inside : Map Text Nat) (selected : List Text) (q : Nat) (was : Text) : Nat :=
  if (inside.get? was).getD 0 < 2 then q else selected.idxOf was

/-- The net the copy of the `q`th pin comes to sit on. -/
def landing (circuit : CircuitJson) (shared : List Text) (inside : Map Text Nat)
    (selected : List Text) (q : Nat) (was : Text) : Text :=
  if was ∈ shared then was else mintedId circuit (slot inside selected q was)

/-- The fresh nets known after the pins on `done` have been copied. -/
def Knows (circuit : CircuitJson) (shared : List Text) (inside : Map Text Nat)
    (selected done : List Text) (netFor : Map Text Text) : Prop :=
  ∀ was, netFor.get? was =
    if was ∈ done ∧ was ∉ shared ∧ ¬ (inside.get? was).getD 0 < 2 then
      some (mintedId circuit (selected.idxOf was))
    else none

theorem netIdsOf_append (cs cs' : List Component) : netIdsOf (cs ++ cs') = netIdsOf cs ++ netIdsOf cs' :=
  List.flatMap_append

/-- The fresh nets of the next part. -/
theorem netsFor_next {circuit next : CircuitJson} {count : Nat}
    (h : next.nets = circuit.nets ++ (List.range count).map (mintedNet circuit))
    (pins : List Text) :
    netsFor next pins =
      (List.range pins.length).map fun i => mintedNet circuit (count + i) := by
  have hall := freshNets_append (circuit.nets.map Net.id) (takenNames circuit) count pins.length
  rw [freshNets_eq_map circuit, freshNets_eq_map circuit] at hall
  rw [netsFor, takenNames, h, List.map_append, List.map_append]
  refine List.append_cancel_left (hall.trans ?_)
  rw [List.range_add, List.map_append, List.map_map]
  rfl

/-- One pin that leaves the fresh nets known as they are. -/
theorem Knows.pass {circuit : CircuitJson} {shared : List Text} {inside : Map Text Nat}
    {selected done : List Text} {netFor : Map Text Text}
    (h : Knows circuit shared inside selected done netFor) {was : Text}
    (hw : was ∈ shared ∨ (inside.get? was).getD 0 < 2) :
    Knows circuit shared inside selected (done ++ [was]) netFor := by
  intro other
  rw [h other]
  refine if_congr ?_ rfl rfl
  rw [List.mem_append, List.mem_singleton]
  constructor
  · exact fun ⟨hd, hs, hi⟩ => ⟨.inl hd, hs, hi⟩
  · rintro ⟨hd | rfl, hs, hi⟩
    · exact ⟨hd, hs, hi⟩
    · exact absurd hw (not_or.mpr ⟨hs, hi⟩)

/-- One pin inside the selection. -/
theorem Knows.meet {circuit : CircuitJson} {shared : List Text} {inside : Map Text Nat}
    {selected done rest : List Text} {netFor : Map Text Text}
    (h : Knows circuit shared inside selected done netFor) {was : Text}
    (hselected : selected = done ++ was :: rest) (hs : was ∉ shared)
    (hi : ¬ (inside.get? was).getD 0 < 2) :
    (netFor.get? was).getD (mintedId circuit done.length) =
        mintedId circuit (selected.idxOf was) ∧
      Knows circuit shared inside selected (done ++ [was])
        (netFor.set was (mintedId circuit (selected.idxOf was))) := by
  constructor
  · rw [h was]
    by_cases hd : was ∈ done
    · rw [if_pos ⟨hd, hs, hi⟩, Option.getD_some]
    · rw [if_neg fun hc => hd hc.1, Option.getD_none, hselected,
        List.idxOf_append_of_notMem hd, List.idxOf_cons_self, Nat.add_zero]
  · intro other
    rw [Map.get?_set]
    by_cases he : was = other
    · subst he
      rw [if_pos rfl, if_pos ⟨List.mem_append_right _ (List.mem_singleton_self _), hs, hi⟩]
    · rw [if_neg he, h other]
      refine if_congr ?_ rfl rfl
      rw [List.mem_append, List.mem_singleton, or_iff_left fun e => he e.symm]

/-- The pins of one copy, when those of the copies before it were on `done`. -/
theorem copyPins_landing {circuit : CircuitJson} {shared : List Text} {inside : Map Text Nat}
    {selected rest : List Text} {was : Map Text Text} (ws : List Text) :
    ∀ {done : List Text} {netFor : Map Text Text} {pins : List PinConnection},
      selected = done ++ ws ++ rest → pins.length = ws.length →
      (∀ (i : Nat) (p : PinConnection), pins[i]? = some p → was.get? p.pinId = ws[i]? ∧
        p.netId = mintedId circuit (done.length + i)) →
      Knows circuit shared inside selected done netFor →
      (copyPins shared inside was netFor pins).2.map PinConnection.netId =
          ws.mapIdx (fun i => landing circuit shared inside selected (done.length + i)) ∧
        Knows circuit shared inside selected (done ++ ws)
          (copyPins shared inside was netFor pins).1 := by
  induction ws with
  | nil =>
    intro done netFor pins _ hlen _ hknows
    rw [List.length_eq_zero_iff.mp hlen, List.append_nil]
    exact ⟨rfl, hknows⟩
  | cons w ws ih =>
    intro done netFor pins hselected hlen hpins hknows
    cases pins with
    | nil => cases hlen
    | cons pin pins =>
      obtain ⟨hwas, hnet⟩ := hpins 0 pin rfl
      rw [List.getElem?_cons_zero] at hwas
      rw [Nat.add_zero] at hnet
      have hselected' : selected = (done ++ [w]) ++ ws ++ rest := by
        rw [hselected]
        simp only [List.append_assoc, List.cons_append, List.nil_append]
      -- the pins behind the first, from the fresh nets known after it
      have hrest {netFor' : Map Text Text}
          (hk : Knows circuit shared inside selected (done ++ [w]) netFor') :
          (copyPins shared inside was netFor' pins).2.map PinConnection.netId =
              ws.mapIdx (fun i => landing circuit shared inside selected (done.length + (i + 1))) ∧
            Knows circuit shared inside selected (done ++ w :: ws)
              (copyPins shared inside was netFor' pins).1 := by
        have := ih hselected' (Nat.succ.inj hlen) (fun i p hp => ?_) hk
        · rw [List.length_append, List.length_singleton, List.append_assoc,
            List.singleton_append] at this
          simpa only [Nat.add_assoc, Nat.add_comm 1] using this
        · obtain ⟨hw, hn⟩ := hpins (i + 1) p hp
          rw [List.getElem?_cons_succ] at hw
          rw [List.length_append, List.length_singleton, Nat.add_assoc, Nat.add_comm 1]
          exact ⟨hw, hn⟩
      rw [List.mapIdx_cons, copyPins, hwas]
      simp only [Nat.add_zero]
      by_cases hs : w ∈ shared
      · rw [if_pos hs, List.map_cons, landing, if_pos hs]
        obtain ⟨hnets, hk⟩ := hrest (hknows.pass (.inl hs))
        exact ⟨congrArg _ hnets, hk⟩
      rw [if_neg hs, landing, if_neg hs, slot]
      by_cases hi : (inside.get? w).getD 0 < 2
      · rw [if_pos hi, if_pos hi, List.map_cons, hnet]
        obtain ⟨hnets, hk⟩ := hrest (hknows.pass (.inr hi))
        exact ⟨congrArg _ hnets, hk⟩
      · rw [if_neg hi, if_neg hi, List.map_cons, hnet]
        obtain ⟨hmeet, hset⟩ := hknows.meet (by rw [hselected, List.append_assoc]; rfl) hs hi
        rw [hmeet]
        obtain ⟨hnets, hk⟩ := hrest hset
        exact ⟨congrArg _ hnets, hk⟩

/-- Where the copies of some of the selected parts stand. -/
structure Copied (circuit : CircuitJson) (shared : List Text) (inside : Map Text Nat)
    (selected : List Text) (done : List Component) (st : Copying) : Prop where
  nets : st.next.nets = circuit.nets ++
    (List.range (netIdsOf done).length).map (mintedNet circuit)
  pins : netIdsOf st.next.components = netIdsOf circuit.components ++
    (netIdsOf done).mapIdx (landing circuit shared inside selected)
  netFor : Knows circuit shared inside selected (netIdsOf done) st.netFor

theorem Copied.copyOne {circuit : CircuitJson} {shared : List Text} {inside : Map Text Nat}
    {selected rest : List Text} {done : List Component} {st st' : Copying} {original : Component}
    (h : Copied circuit shared inside selected done st)
    (hselected : selected = netIdsOf (done ++ [original]) ++ rest)
    (hc : copyOne shared inside st original = .ok st') :
    Copied circuit shared inside selected (done ++ [original]) st' := by
  obtain ⟨hnodup, -, -, rfl⟩ := copyOne_cases hc
  have hids : (specOf original).pinIds = original.pins.map PinConnection.pinId := rfl
  have hown : netIdsOf [original] = original.pins.map PinConnection.netId := List.append_nil _
  rw [hids] at hnodup
  rw [netIdsOf_append, hown] at hselected
  have hnets := netsFor_next h.nets (specOf original).pinIds
  have hpins : ((specOf original).component st.next).pins =
      List.zipWith (fun pinId net => ⟨pinId, Net.id net⟩) (specOf original).pinIds
        (netsFor st.next (specOf original).pinIds) := rfl
  have hlen : ((specOf original).component st.next).pins.length =
      (original.pins.map PinConnection.netId).length := by
    rw [hpins, hnets, hids]
    simp
  have hpin (i : Nat) (p : PinConnection)
      (hp : ((specOf original).component st.next).pins[i]? = some p) :
      (wasOn original).get? p.pinId = (original.pins.map PinConnection.netId)[i]? ∧
        p.netId = mintedId circuit ((netIdsOf done).length + i) := by
    rw [hpins, List.getElem?_zipWith_eq_some] at hp
    obtain ⟨pinId, net, hpin, hnet, rfl⟩ := hp
    rw [hids, List.getElem?_map, Option.map_eq_some_iff] at hpin
    obtain ⟨pin, hpin, rfl⟩ := hpin
    rw [hnets, List.getElem?_map, Option.map_eq_some_iff] at hnet
    obtain ⟨i', hi', rfl⟩ := hnet
    obtain ⟨hlt, hi'⟩ := List.getElem?_eq_some_iff.mp hi'
    rw [List.getElem_range] at hi'
    subst hi'
    refine ⟨?_, rfl⟩
    rw [List.getElem?_map, hpin]
    exact Map.get?_fill_of_nodup hnodup (List.mem_of_getElem? hpin) _
  obtain ⟨hlanding, hknows⟩ := @copyPins_landing _ circuit shared inside selected rest
    (wasOn original) (original.pins.map PinConnection.netId) _ _ _ hselected hlen hpin h.netFor
  refine ⟨?_, ?_, ?_⟩
  · rw [withPart, h.nets, hnets, netIdsOf_append, hown, List.length_append, List.range_add,
      List.map_append, List.append_assoc, List.map_map, hids, List.length_map, List.length_map]
    rfl
  · rw [withPart, netIdsOf_append, h.pins, netIdsOf_append, hown, List.mapIdx_append,
      List.append_assoc]
    refine congrArg _ (congrArg _ ?_)
    rw [show netIdsOf [copyOf shared inside st original] =
      (pinsOfCopy shared inside st original).2.map PinConnection.netId from List.append_nil _]
    refine hlanding.trans ?_
    simp only [Nat.add_comm]
  · rw [netIdsOf_append, hown]
    exact hknows

theorem Copied.copyAll {circuit : CircuitJson} {shared : List Text} {inside : Map Text Nat}
    {originals : List Component} {done : List Component} {st st' : Copying}
    (h : Copied circuit shared inside (netIdsOf (done ++ originals)) done st)
    (hc : copyAll shared inside st originals = .ok st') :
    Copied circuit shared inside (netIdsOf (done ++ originals)) (done ++ originals) st' := by
  induction originals generalizing done st with
  | nil =>
    cases hc
    rw [List.append_nil] at h ⊢
    exact h
  | cons original originals ih =>
    unfold CircuitForge.copyAll at hc
    split at hc
    case h_1 => cases hc
    case h_2 st₁ h₁ =>
      rw [List.append_cons] at h ⊢
      exact ih (h.copyOne (netIdsOf_append _ _) h₁) hc

theorem Copied.start (circuit : CircuitJson) (shared : List Text) (inside : Map Text Nat)
    (selected : List Text) : Copied circuit shared inside selected [] { next := circuit } where
  nets := (List.append_nil _).symm
  pins := (List.append_nil _).symm
  netFor := fun was => by
    rw [if_neg fun h => List.not_mem_nil h.1]
    rfl

/-- The fresh net of place `q` is one the copies need, or one a pin of the document names. -/
def IsKept (circuit : CircuitJson) (originals : List Component) (q : Nat) : Prop :=
  (q < (netIdsOf originals).length ∧ mintedId circuit q ∈ netIdsOf circuit.components) ∨
    ∃ i was, (netIdsOf originals)[i]? = some was ∧ was ∉ sharedNets circuit ∧
      slot (insideCounts (sharedNets circuit) originals) (netIdsOf originals) i was = q

omit [Runtime] in
theorem slot_lt {inside : Map Text Nat} {selected : List Text} {i : Nat} {was : Text}
    (h : selected[i]? = some was) : slot inside selected i was < selected.length := by
  rw [slot]
  split
  · exact (List.getElem?_eq_some_iff.mp h).1
  · exact List.idxOf_lt_length_of_mem (List.mem_of_getElem? h)

/-- The nets of the document with the copies. -/
theorem Copied.finish_nets {circuit : CircuitJson} {originals : List Component} {st : Copying}
    (h : Copied circuit (sharedNets circuit) (insideCounts (sharedNets circuit) originals)
      (netIdsOf originals) originals st) :
    ∃ places : List Nat, places.Nodup ∧
      (finishCopies circuit (sharedNets circuit) st).nets =
        circuit.nets ++ places.map (mintedNet circuit) ∧
      ∀ q, q ∈ places ↔ IsKept circuit originals q := by
  set n := (netIdsOf originals).length with hn
  refine ⟨(List.range n).filter fun q => mintedId circuit q ∈ netIdsOf st.next.components,
    List.nodup_range.filter _, ?_, fun q => ?_⟩
  · have hold : (circuit.nets.filter fun net => decide (net.id ∈ netIdsOf st.next.components ∨
        net.id ∈ circuit.nets.map Net.id)) = circuit.nets :=
      List.filter_eq_self.mpr fun net hnet =>
        decide_eq_true (.inr (List.mem_map_of_mem hnet))
    change st.next.nets.filter (fun net => decide (net.id ∈ netIdsOf st.next.components ∨
      net.id ∈ circuit.nets.map Net.id)) = _
    rw [h.nets, List.filter_append, hold, List.filter_map]
    refine congrArg _ (congrArg _ (List.filter_congr fun q _ => ?_))
    refine decide_eq_decide.mpr (or_iff_left ?_)
    exact mintedId_fresh circuit q
  · rw [List.mem_filter, List.mem_range, decide_eq_true_eq, h.pins, List.mem_append, IsKept]
    constructor
    · rintro ⟨hq, hold | hcopy⟩
      · exact .inl ⟨hq, hold⟩
      · obtain ⟨i, hi, hland⟩ := List.mem_mapIdx.mp hcopy
        refine .inr ⟨i, (netIdsOf originals)[i], List.getElem?_eq_getElem hi, ?_⟩
        rw [landing] at hland
        by_cases hs : (netIdsOf originals)[i] ∈ sharedNets circuit
        · rw [if_pos hs] at hland
          exact absurd (hland ▸ mem_sharedNets hs) (mintedId_fresh circuit q)
        · rw [if_neg hs] at hland
          exact ⟨hs, mintedId_injective circuit hland⟩
    · rintro (⟨hq, hold⟩ | ⟨i, was, hi, hs, rfl⟩)
      · exact ⟨hq, .inl hold⟩
      · refine ⟨slot_lt hi, .inr ?_⟩
        obtain ⟨hlt, rfl⟩ := List.getElem?_eq_some_iff.mp hi
        refine List.mem_mapIdx.mpr ⟨i, hlt, ?_⟩
        rw [landing, if_neg hs]

theorem mem_netIdsOf {circuit : CircuitJson} {netId : Text} :
    netId ∈ netIdsOf circuit.components ↔ ∃ key, (key, netId) ∈ pinsOf circuit := by
  simp only [netIdsOf, mem_pinsOf, List.mem_flatMap, List.mem_map]
  constructor
  · rintro ⟨c, hc, p, hp, hn⟩
    exact ⟨_, c, hc, p, hp, rfl, hn⟩
  · rintro ⟨_, c, hc, p, hp, -, hn⟩
    exact ⟨c, hc, p, hp, hn⟩

theorem nodup_ids_copyAll {shared : List Text} {inside : Map Text Nat}
    {originals : List Component} {st st' : Copying}
    (h : (st.next.components.map Component.id).Nodup)
    (hc : copyAll shared inside st originals = .ok st') :
    (st'.next.components.map Component.id).Nodup := by
  induction originals generalizing st with
  | nil =>
    cases hc
    exact h
  | cons original originals ih =>
    unfold CircuitForge.copyAll at hc
    split at hc
    case h_1 => cases hc
    case h_2 st₁ h₁ =>
      obtain ⟨-, -, hfit, rfl⟩ := copyOne_cases h₁
      refine ih ?_ hc
      rw [withPart, List.map_append, List.map_singleton]
      refine List.nodup_append.mpr ⟨h, List.nodup_singleton _, ?_⟩
      intro x hx y hy he
      obtain ⟨c, hc, rfl⟩ := List.mem_map.mp hx
      exact hfit.id c hc (he.trans (List.mem_singleton.mp hy))

/-- The pins of the copies are on nets of the document with the copies. -/
theorem Copied.wired {circuit : CircuitJson} {originals : List Component} {st : Copying}
    (hw : Wired circuit) (hids : (st.next.components.map Component.id).Nodup)
    (h : Copied circuit (sharedNets circuit) (insideCounts (sharedNets circuit) originals)
      (netIdsOf originals) originals st) :
    Wired (finishCopies circuit (sharedNets circuit) st) where
  componentIds := by
    rw [finishCopies, List.map_map]
    exact hids
  declared := by
    rintro ⟨key, netId⟩ he
    rw [pinsOf_finishCopies] at he
    have hreferenced : netId ∈ netIdsOf st.next.components := mem_netIdsOf.mpr ⟨key, he⟩
    have hnets : netId ∈ st.next.nets.map Net.id := by
      rw [h.pins] at hreferenced
      rw [h.nets, List.map_append]
      rcases List.mem_append.mp hreferenced with hold | hcopy
      · obtain ⟨key, hkey⟩ := mem_netIdsOf.mp hold
        exact List.mem_append_left _ (hw.declared _ hkey)
      · obtain ⟨i, hi, hland⟩ := List.mem_mapIdx.mp hcopy
        rw [landing] at hland
        by_cases hs : (netIdsOf originals)[i] ∈ sharedNets circuit
        · rw [if_pos hs] at hland
          exact List.mem_append_left _ (mem_sharedNets (hland ▸ hs))
        · rw [if_neg hs] at hland
          refine List.mem_append_right _ (List.mem_map.mpr ⟨_, List.mem_map_of_mem
            (List.mem_range.mpr (slot_lt (List.getElem?_eq_getElem hi))), hland⟩)
    obtain ⟨net, hn, rfl⟩ := List.mem_map.mp hnets
    exact List.mem_map_of_mem (List.mem_filter.mpr ⟨hn, decide_eq_true (.inl hreferenced)⟩)

theorem duplicateComponents_result {circuit after : CircuitJson} {ids : List Text}
    (hs : (duplicateComponents circuit ids).circuit? = some after) :
    ∃ places : List Nat, places.Nodup ∧
      after.nets = circuit.nets ++ places.map (mintedNet circuit) ∧
      ∀ q, q ∈ places ↔ IsKept circuit (selection circuit ids) q := by
  unfold duplicateComponents at hs
  simp only at hs
  split at hs
  case h_1 => cases hs
  case h_2 =>
    split at hs
    case isTrue hnone =>
      cases hs
      have hempty : selection circuit ids = [] := List.length_eq_zero_iff.mp hnone
      refine ⟨[], List.nodup_nil, (List.append_nil _).symm, fun q => ?_⟩
      rw [hempty]
      exact iff_of_false List.not_mem_nil (by simp [IsKept, netIdsOf])
    case isFalse =>
      split at hs
      case h_1 => cases hs
      case h_2 st hst =>
        cases hs
        exact ((Copied.start circuit _ _ _).copyAll hst).finish_nets

theorem Wired.duplicateComponents {circuit after : CircuitJson} {ids : List Text}
    (h : Wired circuit) (hs : (duplicateComponents circuit ids).circuit? = some after) :
    Wired after := by
  unfold CircuitForge.duplicateComponents at hs
  simp only at hs
  split at hs
  case h_1 => cases hs
  case h_2 =>
    split at hs
    case isTrue =>
      cases hs
      exact h
    case isFalse =>
      split at hs
      case h_1 => cases hs
      case h_2 st hst =>
        cases hs
        exact ((Copied.start circuit _ _ _).copyAll hst).wired h
          (nodup_ids_copyAll h.componentIds hst)

end CircuitForge
