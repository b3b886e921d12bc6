/-
What `syncDrawing` makes of the wires.

Every wire is in one conductor, the wires of a conductor carry one label, and a wire
that stays ends on terminals of the net the conductor was given.
-/
import CircuitForge.Schematic.Wiring

namespace CircuitForge

open Js

/-! ## Conductors -/

theorem mem_joints {wires : List Wire} {i k : Nat} (h : (i, k) ∈ joints wires) :
    wires[i]?.map Wire.netId = wires[k]?.map Wire.netId := by
  obtain ⟨i', -, h⟩ := List.mem_flatMap.mp h
  obtain ⟨k', hk, he⟩ := List.mem_map.mp h
  cases he
  have hjoined := (List.mem_filter.mp hk).2
  split at hjoined
  case h_1 a b ha hb =>
    simp only [Bool.and_eq_true, decide_eq_true_eq] at hjoined
    rw [ha, hb, Option.map_some, Option.map_some, hjoined.1.2]
  case h_2 => cases hjoined

theorem joints_rooted (wires : List Wire) :
    ∃ root : Nat → Nat, (∀ i, (UnionFind.find (UnionFind.unions (joints wires) []) i).2 = root i) ∧
      ∀ i k, root i = root k → wires[i]?.map Wire.netId = wires[k]?.map Wire.netId := by
  obtain ⟨root, hr, hn⟩ := UnionFind.unions_rooted UnionFind.rooted_nil UnionFind.names_id
    (joints wires)
  refine ⟨root, fun i => (UnionFind.find_rooted hr i).1, fun i k he => ?_⟩
  have hgen := (hn i k).mp he
  clear he
  induction hgen with
  | rel i k h => exact mem_joints (h.resolve_left id)
  | refl i => rfl
  | symm i k _ ih => exact ih.symm
  | trans i k l _ _ ih₁ ih₂ => exact ih₁.trans ih₂

/-- Every wire is in a conductor. -/
theorem exists_groupsOf {wires : List Wire} {i : Nat} (h : i < wires.length) :
    ∃ group ∈ groupsOf wires, i ∈ group := by
  obtain ⟨group, hg, hi⟩ := Map.exists_group
    (k := fun i => (UnionFind.find (UnionFind.unions (joints wires) []) i).2)
    (List.mem_range.mpr h)
  exact ⟨group, List.mem_map.mpr ⟨_, hg, rfl⟩, hi⟩

/-- The wires of a conductor carry one label. -/
theorem netId_groupsOf {wires : List Wire} {group : List Nat} (h : group ∈ groupsOf wires)
    {i k : Nat} (hi : i ∈ group) (hk : k ∈ group) :
    wires[i]?.map Wire.netId = wires[k]?.map Wire.netId := by
  obtain ⟨root, hroot, hlabel⟩ := joints_rooted wires
  obtain ⟨⟨key, members⟩, he, rfl⟩ := List.mem_map.mp h
  obtain ⟨-, rfl⟩ := Map.mem_group he
  have hi := (List.mem_filter.mp hi).2
  have hk := (List.mem_filter.mp hk).2
  rw [decide_eq_true_eq, hroot] at hi hk
  exact hlabel i k (hi.trans hk.symm)

/-! ## Votes -/

theorem tally_concat (votes : List Text) (v : Text) :
    tally (votes ++ [v]) = (tally votes).set v (((tally votes).get? v).getD 0 + 1) :=
  List.foldl_concat ..

theorem mem_tally {votes : List Text} {e : Text × Nat} (h : e ∈ tally votes) : e.1 ∈ votes := by
  induction votes using List.reverseRecOn with
  | nil => cases h
  | append_singleton votes v ih =>
    rw [tally_concat] at h
    rcases Map.mem_set h with rfl | hm
    · exact List.mem_append_right _ (List.mem_singleton_self v)
    · exact List.mem_append_left _ (ih hm)

theorem tally_ne_nil {votes : List Text} (h : votes ≠ []) : tally votes ≠ [] := by
  induction votes using List.reverseRecOn with
  | nil => exact absurd rfl h
  | append_singleton votes v _ =>
    rw [tally_concat]
    intro he
    have := Map.get?_set_self (tally votes) v (((tally votes).get? v).getD 0 + 1)
    rw [he] at this
    cases this

theorem leastText_mem {ts : List Text} {t : Text} (h : leastText ts = some t) : t ∈ ts := by
  cases ts with
  | nil => cases h
  | cons u us =>
    cases h
    suffices hall : ∀ (us : List Text) (u : Text),
        us.foldl (fun a b => if b.map codeUnit < a.map codeUnit then b else a) u ∈ u :: us from
      hall us u
    intro us
    induction us with
    | nil => exact fun u => List.mem_singleton_self u
    | cons v us ih =>
      intro u
      rw [List.foldl_cons]
      by_cases hlt : v.map codeUnit < u.map codeUnit
      · rw [if_pos hlt]
        exact List.mem_cons_of_mem _ (ih v)
      · rw [if_neg hlt]
        rcases List.mem_cons.mp (ih u) with he | hmem
        · rw [he]
          exact List.mem_cons_self
        · exact List.mem_cons_of_mem _ (List.mem_cons_of_mem _ hmem)

/-- The net elected has a vote. -/
theorem elected_mem {was : Text} {votes : List Text} (h : votes ≠ []) :
    elected was votes ∈ votes := by
  unfold elected
  simp only
  generalize hmost : ((tally votes).map Prod.snd).max?.getD 0 = most
  set tied := ((tally votes).filter (·.2 = most)).map Prod.fst with htied
  have hmem {t : Text} (ht : t ∈ tied) : t ∈ votes := by
    obtain ⟨e, he, rfl⟩ := List.mem_map.mp ht
    exact mem_tally (List.mem_filter.mp he).1
  by_cases hw : was ∈ tied
  · rw [if_pos hw]
    exact hmem hw
  rw [if_neg hw]
  cases hleast : leastText tied with
  | some t =>
    rw [Option.getD_some]
    exact hmem (leastText_mem hleast)
  | none =>
    -- the largest count is the count of some net
    exfalso
    have hnil : tied = [] := by
      cases htied' : tied with
      | nil => rfl
      | cons t ts =>
        rw [htied'] at hleast
        cases hleast
    have hne : (tally votes).map Prod.snd ≠ [] := fun he =>
      tally_ne_nil h (List.map_eq_nil_iff.mp he)
    obtain ⟨n, hn⟩ := Option.isSome_iff_exists.mp (List.isSome_max?_of_ne_nil hne)
    rw [hn, Option.getD_some] at hmost
    obtain ⟨e, he, hen⟩ := List.mem_map.mp (List.max?_mem hn)
    have : e.1 ∈ tied := List.mem_map_of_mem
      (List.mem_filter.mpr ⟨he, decide_eq_true (hen.trans hmost)⟩)
    rw [hnil] at this
    cases this

/-! ## Wires -/

/-- The wire without its label. -/
def Wire.line (w : Wire) : Wire := { w with netId := [] }

/-- A wire stays, on whatever net, or goes. -/
def Follows (w : Wire) (o : Option Wire) : Prop := ∀ w', o = some w' → w'.line = w.line

theorem relabelled_eq_some {netOf : Map PinRef Text} {net : Text} {w w' : Wire} :
    relabelled netOf net w = some w' ↔
      (∀ ref ∈ w.ends, netOf.get? ref = some net) ∧ { w with netId := net } = w' := by
  unfold relabelled
  by_cases hany : (w.ends.any fun ref => netOf.get? ref ≠ some net) = true
  · rw [if_pos hany]
    obtain ⟨ref, href, hne⟩ := List.any_eq_true.mp hany
    exact iff_of_false (fun h => nomatch h) fun h => of_decide_eq_true hne (h.1 ref href)
  · rw [if_neg hany, Option.some.injEq]
    refine ⟨fun h => ⟨fun ref href => ?_, h⟩, And.right⟩
    by_contra hne
    exact hany (List.any_eq_true.mpr ⟨ref, href, decide_eq_true hne⟩)

theorem forall₂_set {α β : Type} {R : α → β → Prop} {xs : List α} {ys : List β}
    (h : List.Forall₂ R xs ys) {i : Nat} {y : β} (hy : ∀ x, xs[i]? = some x → R x y) :
    List.Forall₂ R xs (ys.set i y) := by
  induction h generalizing i with
  | nil => exact .nil
  | cons hr hrest ih =>
    cases i with
    | zero => exact .cons (hy _ rfl) hrest
    | succ i => exact .cons hr (ih hy)

theorem getElem?_foldl_set {α : Type} (is : List Nat) (v : Nat → α) (next : List α) (j : Nat) :
    (is.foldl (fun next i => next.set i (v i)) next)[j]? =
      if j ∈ is ∧ j < next.length then some (v j) else next[j]? := by
  induction is generalizing next with
  | nil => simp
  | cons i is ih =>
    rw [List.foldl_cons, ih, List.length_set, List.getElem?_set]
    by_cases hl : j < next.length
    · by_cases hj : j ∈ is
      · rw [if_pos ⟨hj, hl⟩, if_pos ⟨List.mem_cons_of_mem _ hj, hl⟩]
      · rw [if_neg (fun h : j ∈ is ∧ _ => hj h.1)]
        by_cases hij : i = j
        · subst hij
          rw [if_pos rfl, if_pos hl, if_pos ⟨List.mem_cons_self, hl⟩]
        · rw [if_neg hij, if_neg]
          rintro ⟨hmem, -⟩
          exact (List.mem_cons.mp hmem).elim (fun e => hij e.symm) hj
    · have hnone : next[j]? = none := List.getElem?_eq_none (Nat.le_of_not_lt hl)
      simp only [hl, and_false, if_false, hnone]
      by_cases hij : i = j
      · rw [if_pos hij, hij, if_neg hl]
      · rw [if_neg hij]

section

variable {netOf : Map PinRef Text} {nets : List Text} {before : List Wire}

/-- The net a conductor is given, unless it is left alone or goes. -/
def groupNet (netOf : Map PinRef Text) (nets : List Text) (before : List Wire)
    (group : List Nat) : Option Text :=
  (group.head?.bind (before[·]?)).bind fun first =>
    netOfGroup netOf nets first.netId (group.filterMap (before[·]?))

/-- The first wire of the conductor stays. -/
def LivesOn (netOf : Map PinRef Text) (before : List Wire) (group : List Nat) : Prop :=
  ∃ first, group.head?.bind (before[·]?) = some first ∧ isAlive netOf first = true

/-- The wire at an index, on the net of the conductor. -/
def wireIn (netOf : Map PinRef Text) (nets : List Text) (before : List Wire) (group : List Nat)
    (i : Nat) : Option Wire :=
  (groupNet netOf nets before group).bind fun net => before[i]?.bind (relabelled netOf net)

theorem syncGroup_of_lives {group : List Nat} (h : LivesOn netOf before group)
    (next : List (Option Wire)) :
    syncGroup netOf nets before next group =
      group.foldl (fun next i => next.set i (wireIn netOf nets before group i)) next := by
  obtain ⟨first, hfirst, hlive⟩ := h
  rw [syncGroup, hfirst]
  simp only
  rw [if_neg (by simp [hlive])]
  simp only [wireIn, groupNet, hfirst, Option.bind_some]

theorem syncGroup_of_not_lives {group : List Nat} (h : ¬ LivesOn netOf before group)
    (next : List (Option Wire)) : syncGroup netOf nets before next group = next := by
  rw [syncGroup]
  split
  case h_1 => rfl
  case h_2 first hfirst =>
    rw [if_pos]
    by_contra hlive
    exact h ⟨first, hfirst, by simpa using hlive⟩

theorem follows_wireIn (group : List Nat) (i : Nat) {w : Wire} (hw : before[i]? = some w) :
    Follows w (wireIn netOf nets before group i) := by
  intro w' hw'
  obtain ⟨net, -, h⟩ := Option.bind_eq_some_iff.mp hw'
  rw [hw, Option.bind_some, relabelled_eq_some] at h
  rw [← h.2]
  rfl

theorem follows_syncGroup {next : List (Option Wire)} (h : List.Forall₂ Follows before next)
    (group : List Nat) : List.Forall₂ Follows before (syncGroup netOf nets before next group) := by
  by_cases hl : LivesOn netOf before group
  · rw [syncGroup_of_lives hl]
    suffices hall : ∀ (is : List Nat) (next : List (Option Wire)),
        List.Forall₂ Follows before next → List.Forall₂ Follows before
          (is.foldl (fun next i => next.set i (wireIn netOf nets before group i)) next) from
      hall group next h
    intro is
    induction is with
    | nil => exact fun next h => h
    | cons i is ih =>
      exact fun next h => ih _ (forall₂_set h fun w hw => follows_wireIn group i hw)
  · rw [syncGroup_of_not_lives hl]
    exact h

theorem follows_syncGroups (groups : List (List Nat)) {next : List (Option Wire)}
    (h : List.Forall₂ Follows before next) :
    List.Forall₂ Follows before (groups.foldl (syncGroup netOf nets before) next) := by
  induction groups generalizing next with
  | nil => exact h
  | cons group groups ih => exact ih (follows_syncGroup h group)

/-- A wire that is there at the end was given a net by a conductor it is in, or no conductor
that it is in lives on. -/
theorem syncGroups_cases (groups : List (List Nat)) (next : List (Option Wire)) {j : Nat}
    {w' : Wire} (h : (groups.foldl (syncGroup netOf nets before) next)[j]? = some (some w')) :
    (∃ group ∈ groups, j ∈ group ∧ LivesOn netOf before group ∧
        wireIn netOf nets before group j = some w') ∨
      (next[j]? = some (some w') ∧ ∀ group ∈ groups, j ∈ group → ¬ LivesOn netOf before group) := by
  induction groups generalizing next with
  | nil => exact .inr ⟨h, fun _ hg => absurd hg List.not_mem_nil⟩
  | cons group groups ih =>
    rcases ih _ h with ⟨g, hg, hrest⟩ | ⟨hj, hnone⟩
    · exact .inl ⟨g, List.mem_cons_of_mem _ hg, hrest⟩
    by_cases hl : LivesOn netOf before group
    · rw [syncGroup_of_lives hl, getElem?_foldl_set] at hj
      by_cases hmem : j ∈ group ∧ j < next.length
      · rw [if_pos hmem, Option.some.injEq] at hj
        exact .inl ⟨group, List.mem_cons_self, hmem.1, hl, hj⟩
      · rw [if_neg hmem] at hj
        refine .inr ⟨hj, List.forall_mem_cons.mpr ⟨fun hin => absurd ⟨hin, ?_⟩ hmem, hnone⟩⟩
        exact (List.getElem?_eq_some_iff.mp hj).1
    · rw [syncGroup_of_not_lives hl] at hj
      exact .inr ⟨hj, List.forall_mem_cons.mpr ⟨fun _ => hl, hnone⟩⟩

/-- The wires that are left, in order. -/
theorem sublist_filterMap {next : List (Option Wire)} (h : List.Forall₂ Follows before next) :
    ((next.filterMap id).map Wire.line).Sublist (before.map Wire.line) := by
  induction h with
  | nil => exact .slnil
  | @cons w o _ _ hr _ ih =>
    cases o with
    | none => exact ih.cons w.line
    | some w' =>
      have hline : w'.line = w.line := hr w' rfl
      change List.Sublist (w'.line :: _) (w.line :: _)
      rw [hline]
      exact ih.cons_cons w.line

end

/-! ## The whole drawing -/

section

variable [Runtime]

theorem mem_of_get_pinNets {circuit : CircuitJson} {ref : PinRef} {net : Text}
    (h : (pinNets circuit).get? ref = some net) : (ref, net) ∈ pinsOf circuit := by
  rcases Map.mem_fill (Map.mem_of_get? h) with ⟨e, he, heq⟩ | hnil
  · rw [heq]
    exact he
  · cases hnil

/-- The net of a conductor exists. -/
theorem groupNet_declared {circuit : CircuitJson}
    (hdeclared : ∀ e ∈ pinsOf circuit, e.2 ∈ circuit.nets.map Net.id) {before : List Wire}
    {group : List Nat} {net : Text}
    (h : groupNet (pinNets circuit) (circuit.nets.map Net.id) before group = some net) :
    net ∈ circuit.nets.map Net.id := by
  obtain ⟨first, -, h⟩ := Option.bind_eq_some_iff.mp h
  unfold netOfGroup at h
  simp only at h
  set votes := (group.filterMap (before[·]?)).flatMap fun w =>
    w.ends.filterMap (pinNets circuit).get? with hvotes
  by_cases hv : votes.length > 0
  · rw [if_pos hv, Option.some.injEq] at h
    have hmem : net ∈ votes := h ▸ elected_mem (List.ne_nil_of_length_pos hv)
    obtain ⟨w, -, hw⟩ := List.mem_flatMap.mp hmem
    obtain ⟨ref, -, href⟩ := List.mem_filterMap.mp hw
    exact hdeclared _ (mem_of_get_pinNets href)
  · rw [if_neg hv] at h
    by_cases hwas : first.netId ∈ circuit.nets.map Net.id
    · rw [if_pos hwas, Option.some.injEq] at h
      exact h ▸ hwas
    · rw [if_neg hwas] at h
      cases h

/-- Where no wire carries the label of the ones that go, a wire that stays is on a net that
exists, and ends on terminals of it. -/
theorem mem_syncWires {circuit : CircuitJson}
    (hdeclared : ∀ e ∈ pinsOf circuit, e.2 ∈ circuit.nets.map Net.id) {before : List Wire}
    (hlabels : ∀ w ∈ before, w.netId ≠ deadNet) {w' : Wire} (h : w' ∈ syncWires circuit before) :
    w'.netId ∈ circuit.nets.map Net.id ∧
      ∀ ref ∈ w'.ends, (pinNets circuit).get? ref = some w'.netId := by
  unfold syncWires at h
  simp only at h
  obtain ⟨o, ho, rfl⟩ := List.mem_filterMap.mp h
  obtain ⟨j, hj⟩ := List.getElem?_of_mem ho
  rcases syncGroups_cases _ _ hj with ⟨group, -, -, -, hwire⟩ | ⟨hinit, hnone⟩
  · obtain ⟨net, hnet, hw⟩ := Option.bind_eq_some_iff.mp hwire
    obtain ⟨w, -, hw⟩ := Option.bind_eq_some_iff.mp hw
    obtain ⟨hends, rfl⟩ := relabelled_eq_some.mp hw
    exact ⟨groupNet_declared hdeclared hnet, hends⟩
  · -- the conductor of a wire that stays lives on
    exfalso
    rw [List.getElem?_map, Option.map_eq_some_iff] at hinit
    obtain ⟨w, hw, halive⟩ := hinit
    have hlive : isAlive (pinNets circuit) w = true := by
      by_contra hdead
      rw [if_neg hdead] at halive
      cases halive
    have hlen : j < (before.map fun w =>
        if isAlive (pinNets circuit) w then w else { w with netId := deadNet }).length := by
      rw [List.length_map]
      exact (List.getElem?_eq_some_iff.mp hw).1
    obtain ⟨group, hgroup, hmem⟩ := exists_groupsOf hlen
    obtain ⟨i, rest, rfl⟩ := List.exists_cons_of_ne_nil (List.ne_nil_of_mem hmem)
    have hlabel := netId_groupsOf hgroup List.mem_cons_self hmem
    rw [List.getElem?_map, List.getElem?_map, hw, Option.map_some, if_pos hlive, Option.map_some,
      Option.map_map, Option.map_eq_some_iff] at hlabel
    obtain ⟨first, hfirst, hid⟩ := hlabel
    refine hnone _ hgroup hmem ⟨first, hfirst, ?_⟩
    by_contra hdead
    rw [Function.comp_apply, if_neg hdead] at hid
    exact hlabels w (List.mem_of_getElem? hw) hid.symm

/-- The wires that stay keep their lines. -/
theorem syncWires_lines (circuit : CircuitJson) (before : List Wire) :
    ((syncWires circuit before).map Wire.line).Sublist (before.map Wire.line) := by
  refine sublist_filterMap (follows_syncGroups _ ?_)
  rw [List.forall₂_map_right_iff, List.forall₂_same]
  intro w _ w' hw'
  by_cases hlive : isAlive (pinNets circuit) w = true
  · rw [if_pos hlive, Option.some.injEq] at hw'
    rw [← hw']
  · rw [if_neg hlive] at hw'
    cases hw'

/-! ## New parts -/

theorem placePart_keeps {parts : List Component} {rails : List Text} {st : Placing}
    {c : Component} {id : Text} (h : c.id ≠ id) :
    (placePart parts rails st c).positions.get? id = st.positions.get? id := by
  unfold placePart
  simp only
  exact Map.get?_set_ne h _ _

/-- A part that has a place keeps it. -/
theorem placeNewParts_keeps (circuit : CircuitJson) {ui : UiJson} {id : Text} {at' : Position}
    (h : ui.positions.get? id = some at') :
    (placeNewParts circuit ui).positions.get? id = some at' := by
  unfold placeNewParts
  simp only
  set missing := circuit.components.filter fun c => (ui.positions.get? c.id).isNone with hmissing
  by_cases hzero : missing.length = 0
  · rw [if_pos hzero]
    exact h
  rw [if_neg hzero]
  have hne : ∀ c ∈ missing, c.id ≠ id := by
    rintro c hc rfl
    have := (List.mem_filter.mp hc).2
    rw [h] at this
    cases this
  clear_value missing
  suffices hall : ∀ (cs : List Component) (st : Placing), (∀ c ∈ cs, c.id ≠ id) →
      (cs.foldl (placePart circuit.components (sharedNets circuit)) st).positions.get? id =
        st.positions.get? id by
    exact (hall missing _ hne).trans h
  intro cs
  induction cs with
  | nil => exact fun st _ => rfl
  | cons c cs ih =>
    intro st hcs
    obtain ⟨hc, hcs⟩ := List.forall_mem_cons.mp hcs
    rw [List.foldl_cons, ih _ hcs, placePart_keeps hc]

theorem placeNewParts_wires (circuit : CircuitJson) (ui : UiJson) :
    (placeNewParts circuit ui).wires = ui.wires := by
  unfold placeNewParts
  simp only
  split <;> rfl

end

end CircuitForge
