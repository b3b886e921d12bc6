/-
Connections that no drawn wire shows: `airwires` of `editor-core/src/schematic/wiring.ts`.

The islands of a net are joined one after the other, each by its shortest line to what is
joined so far.
-/
import CircuitForge.Schematic.Islands

namespace CircuitForge

open Js Relation

/-- `Airwire`. -/
structure Airwire where
  netId : Text
  fromPoint : XY
  toPoint : XY

/-! ## Joining islands -/

/-- How far two terminals are apart, along the lattice. -/
def gap (pins : List SheetPin) (a b : Nat) : Rat :=
  match pins[a]?, pins[b]? with
  | some p, some q => |p.x - q.x| + |p.y - q.y|
  | _, _ => 0

/-- The lines from what is joined to the other islands: a terminal, the island and one of
its terminals. -/
def linesOut (joined : List Nat) (rest : List (List Nat)) : List (Nat × Nat × Nat) :=
  joined.flatMap fun a => rest.zipIdx.flatMap fun g => g.1.map fun b => (a, g.2, b)

/-- The first of the shortest lines. -/
def shortest (pins : List SheetPin) (lines : List (Nat × Nat × Nat)) :
    Option (Nat × Nat × Nat) :=
  lines.foldl (fun best line =>
    match best with
    | none => some line
    | some b => if gap pins line.1 line.2.2 < gap pins b.1 b.2.2 then some line else best) none

/-- The loop of `airwires` over the islands of one net.  An island has a terminal, so there is
a shortest line as long as an island is left. -/
def joinIslands (pins : List SheetPin) (netId : Text) :
    Nat → List Nat → List (List Nat) → List Airwire
  | 0, _, _ => []
  | n + 1, joined, rest =>
    match shortest pins (linesOut joined rest) with
    | none => []
    | some (a, g, b) =>
      ((pins[a]?).bind fun p => (pins[b]?).map fun q =>
        ({ netId, fromPoint := p.toXY, toPoint := q.toXY } : Airwire)).toList ++
        joinIslands pins netId n (joined ++ rest.getD g []) (rest.eraseIdx g)

/-- The airwires between the islands of one net, none for a single island. -/
def netAirwires (pins : List SheetPin) (netId : Text) (islands : List (List Nat)) :
    List Airwire :=
  match islands with
  | [] => []
  | joined :: rest => joinIslands pins netId rest.length joined rest

section

variable [Runtime]

/-- The terminals on the sheet that are not on a rail. -/
def signalPins (circuit : CircuitJson) (positions : Map Text Position) : List SheetPin :=
  (sheetPins circuit positions).filter (·.netId ∉ sharedNets circuit)

/-- `airwires`. -/
def airwires (circuit : CircuitJson) (ui : UiJson) : List Airwire :=
  match ui.wires with
  | none => []
  | some wires =>
    let pins := signalPins circuit ui.positions
    (Map.group (fun e : SheetPin × Nat => e.1.netId) pins.zipIdx).flatMap fun e =>
      netAirwires pins e.1
        ((Map.group (drawnIslands pins wires) (e.2.map Prod.snd)).map Prod.snd)

end

/-! ## The loop -/

theorem shortest_mem (pins : List SheetPin) {lines : List (Nat × Nat × Nat)} (h : lines ≠ []) :
    ∃ line ∈ lines, shortest pins lines = some line := by
  unfold shortest
  suffices hrun : ∀ (lines : List (Nat × Nat × Nat)) (best : Nat × Nat × Nat),
      ∃ line ∈ best :: lines, lines.foldl (fun best line =>
        match best with
        | none => some line
        | some b => if gap pins line.1 line.2.2 < gap pins b.1 b.2.2 then some line else best)
        (some best) = some line by
    cases lines with
    | nil => exact absurd rfl h
    | cons line lines => exact hrun lines line
  intro lines
  induction lines with
  | nil => exact fun best => ⟨best, List.mem_singleton_self _, rfl⟩
  | cons line lines ih =>
    intro best
    rw [List.foldl_cons]
    simp only
    split
    · obtain ⟨l, hl, he⟩ := ih line
      exact ⟨l, List.mem_cons_of_mem _ hl, he⟩
    · obtain ⟨l, hl, he⟩ := ih best
      refine ⟨l, ?_, he⟩
      rcases List.mem_cons.mp hl with rfl | hl
      · exact List.mem_cons_self
      · exact List.mem_cons_of_mem _ (List.mem_cons_of_mem _ hl)

theorem mem_linesOut {joined : List Nat} {rest : List (List Nat)} {a g b : Nat} :
    (a, g, b) ∈ linesOut joined rest ↔
      a ∈ joined ∧ ∃ island, rest[g]? = some island ∧ b ∈ island := by
  unfold linesOut
  simp only [List.mem_flatMap, List.mem_map, Prod.exists, Prod.mk.injEq,
    List.mem_zipIdx_iff_getElem?]
  constructor
  · rintro ⟨a', ha, island, g', hg, b', hb, rfl, rfl, rfl⟩
    exact ⟨ha, island, hg, hb⟩
  · rintro ⟨ha, island, hg, hb⟩
    exact ⟨a, ha, island, g, hg, b, hb, rfl, rfl, rfl⟩

/-- What is joined so far and the islands that are left, by the roots of their terminals. -/
structure Separate (pins : List SheetPin) (netId : Text) (root : Nat → Nat) (joined : List Nat)
    (rest : List (List Nat)) : Prop where
  joined_ne : joined ≠ []
  rest_ne : ∀ g ∈ rest, g ≠ []
  onNet : ∀ i ∈ joined ++ rest.flatten, ∃ p, pins[i]? = some p ∧ p.netId = netId
  fresh : ∀ a ∈ joined, ∀ g ∈ rest, ∀ b ∈ g, root a ≠ root b
  apart : rest.Pairwise fun g h => ∀ a ∈ g, ∀ b ∈ h, root a ≠ root b

/-- Two terminals at the ends of an airwire of their net. -/
def AirLink (pins : List SheetPin) (out : List Airwire) (i j : Nat) : Prop :=
  ∃ w ∈ out, ∃ p q, pins[i]? = some p ∧ pins[j]? = some q ∧ p.netId = w.netId ∧
    q.netId = w.netId ∧ w.fromPoint = p.toXY ∧ w.toPoint = q.toXY

/-- One turn of the loop: a line to an island that is left, which is joined. -/
theorem Separate.step {pins : List SheetPin} {netId : Text} {root : Nat → Nat} {joined : List Nat}
    {rest : List (List Nat)} (h : Separate pins netId root joined rest) (hrest : rest ≠ [])
    (n : Nat) :
    ∃ a g b island p q, a ∈ joined ∧ island ∈ rest ∧ b ∈ island ∧ rest[g]? = some island ∧
      pins[a]? = some p ∧ pins[b]? = some q ∧ p.netId = netId ∧ q.netId = netId ∧
      joinIslands pins netId (n + 1) joined rest =
        { netId, fromPoint := p.toXY, toPoint := q.toXY } ::
          joinIslands pins netId n (joined ++ island) (rest.eraseIdx g) ∧
      Separate pins netId root (joined ++ island) (rest.eraseIdx g) := by
  have hlines : linesOut joined rest ≠ [] := by
    obtain ⟨a, ha⟩ := List.exists_mem_of_ne_nil _ h.joined_ne
    obtain ⟨island, hisland⟩ := List.exists_mem_of_ne_nil _ hrest
    obtain ⟨b, hb⟩ := List.exists_mem_of_ne_nil _ (h.rest_ne island hisland)
    obtain ⟨g, hg⟩ := List.mem_iff_getElem?.mp hisland
    exact List.ne_nil_of_mem (mem_linesOut.mpr ⟨ha, island, hg, hb⟩)
  obtain ⟨⟨a, g, b⟩, hline, hshort⟩ := shortest_mem pins hlines
  obtain ⟨ha, island, hg, hb⟩ := mem_linesOut.mp hline
  have hisland := List.mem_of_getElem? hg
  have hb' : b ∈ rest.flatten := List.mem_flatten.mpr ⟨island, hisland, hb⟩
  obtain ⟨p, hp, hpn⟩ := h.onNet a (List.mem_append_left _ ha)
  obtain ⟨q, hq, hqn⟩ := h.onNet b (List.mem_append_right _ hb')
  have hlt := (List.getElem?_eq_some_iff.mp hg).1
  have hperm : rest.Perm (island :: rest.eraseIdx g) := by
    rw [← (List.getElem?_eq_some_iff.mp hg).2]
    exact (List.getElem_cons_eraseIdx_perm hlt).symm
  obtain ⟨hhead, htail⟩ := List.pairwise_cons.mp
    ((hperm.pairwise_iff fun hgh a ha b hb => (hgh b hb a ha).symm).mp h.apart)
  have hsub : ∀ g' ∈ rest.eraseIdx g, g' ∈ rest := fun g' hg' => List.mem_of_mem_eraseIdx hg'
  refine ⟨a, g, b, island, p, q, ha, hisland, hb, hg, hp, hq, hpn, hqn, ?_, ?_⟩
  · rw [joinIslands, hshort]
    simp only
    rw [hp, hq, List.getD_eq_getElem?_getD, hg]
    rfl
  · exact {
      joined_ne := List.append_ne_nil_of_left_ne_nil h.joined_ne _
      rest_ne := fun g' hg' => h.rest_ne g' (hsub g' hg')
      onNet := by
        intro i hi
        refine h.onNet i ?_
        rw [List.append_assoc] at hi
        rcases List.mem_append.mp hi with hi | hi
        · exact List.mem_append_left _ hi
        · refine List.mem_append_right _ ?_
          rcases List.mem_append.mp hi with hi | hi
          · exact List.mem_flatten.mpr ⟨island, hisland, hi⟩
          · obtain ⟨g', hg', hi⟩ := List.mem_flatten.mp hi
            exact List.mem_flatten.mpr ⟨g', hsub g' hg', hi⟩
      fresh := by
        intro x hx g' hg' y hy
        rcases List.mem_append.mp hx with hx | hx
        · exact h.fresh x hx g' (hsub g' hg') y hy
        · exact hhead g' hg' x hx y hy
      apart := htail }

/-- The loop joins every island, with one airwire for each, between terminals of two islands. -/
theorem joinIslands_spec {pins : List SheetPin} {netId : Text} {root : Nat → Nat} :
    ∀ (n : Nat) {joined : List Nat} {rest : List (List Nat)} {r : Nat → Nat → Prop},
      rest.length = n → Separate pins netId root joined rest →
      (∀ x ∈ joined, ∀ y ∈ joined, EqvGen r x y) →
      (∀ g ∈ rest, ∀ x ∈ g, ∀ y ∈ g, EqvGen r x y) →
      (joinIslands pins netId n joined rest).length = n ∧
      (∀ w ∈ joinIslands pins netId n joined rest, w.netId = netId ∧
        ∃ i j p q, pins[i]? = some p ∧ pins[j]? = some q ∧ p.netId = netId ∧ q.netId = netId ∧
          w.fromPoint = p.toXY ∧ w.toPoint = q.toXY ∧ root i ≠ root j) ∧
      ∀ x ∈ joined ++ rest.flatten, ∀ y ∈ joined ++ rest.flatten,
        EqvGen (fun x y => r x y ∨ AirLink pins (joinIslands pins netId n joined rest) x y) x y
  | 0, joined, rest, r, hn, h, hjoined, _ => by
    obtain rfl := List.length_eq_zero_iff.mp hn
    refine ⟨rfl, fun w hw => (by cases hw), fun x hx y hy => ?_⟩
    rw [List.flatten_nil, List.append_nil] at hx hy
    exact (hjoined x hx y hy).mono fun _ _ => .inl
  | n + 1, joined, rest, r, hn, h, hjoined, hrest => by
    have hne : rest ≠ [] := by
      rintro rfl
      cases hn
    obtain ⟨a, g, b, island, p, q, ha, hisland, hb, hg, hp, hq, hpn, hqn, hout, hsep⟩ :=
      h.step hne n
    have hlt := (List.getElem?_eq_some_iff.mp hg).1
    have hlength : (rest.eraseIdx g).length = n := by
      rw [List.length_eraseIdx_of_lt hlt, hn, Nat.add_sub_cancel]
    set w : Airwire := { netId, fromPoint := p.toXY, toPoint := q.toXY }
    -- With the new airwire the island belongs to what is joined.
    have hab : EqvGen (fun x y => r x y ∨ AirLink pins [w] x y) a b :=
      .rel _ _ (.inr ⟨w, List.mem_singleton_self _, p, q, hp, hq, hpn, hqn, rfl, rfl⟩)
    have hold : ∀ {x y}, EqvGen r x y → EqvGen (fun x y => r x y ∨ AirLink pins [w] x y) x y :=
      fun hxy => hxy.mono fun _ _ => .inl
    have htoA : ∀ x ∈ joined ++ island, EqvGen (fun x y => r x y ∨ AirLink pins [w] x y) x a := by
      intro x hx
      rcases List.mem_append.mp hx with hx | hx
      · exact hold (hjoined x hx a ha)
      · exact (hold (hrest island hisland x hx b hb)).trans _ _ _ hab.symm
    obtain ⟨hlen, hends, hall⟩ := joinIslands_spec n hlength hsep
      (fun x hx y hy => (htoA x hx).trans _ _ _ (htoA y hy).symm)
      (fun g' hg' x hx y hy => hold (hrest g' (List.mem_of_mem_eraseIdx hg') x hx y hy))
    rw [hout]
    refine ⟨by rw [List.length_cons, hlen], fun w' hw' => ?_, fun x hx y hy => ?_⟩
    · rcases List.mem_cons.mp hw' with rfl | hw'
      · exact ⟨rfl, a, b, p, q, hp, hq, hpn, hqn, rfl, rfl, h.fresh a ha island hisland b hb⟩
      · exact hends w' hw'
    · have hperm : rest.Perm (island :: rest.eraseIdx g) := by
        rw [← (List.getElem?_eq_some_iff.mp hg).2]
        exact (List.getElem_cons_eraseIdx_perm hlt).symm
      have hmem : ∀ x ∈ joined ++ rest.flatten,
          x ∈ joined ++ island ++ (rest.eraseIdx g).flatten := by
        intro x hx
        rw [List.append_assoc]
        rcases List.mem_append.mp hx with hx | hx
        · exact List.mem_append_left _ hx
        · exact List.mem_append_right _ (hperm.flatten.mem_iff.mp hx)
      refine (hall x (hmem x hx) y (hmem y hy)).mono fun i j hij => ?_
      rcases hij with (hij | ⟨v, hv, hlink⟩) | ⟨v, hv, hlink⟩
      · exact .inl hij
      · exact .inr ⟨v, List.mem_singleton.mp hv ▸ List.mem_cons_self, hlink⟩
      · exact .inr ⟨v, List.mem_cons_of_mem _ hv, hlink⟩

/-! ## All nets -/

/-- The islands of a net, by their roots. -/
def islandsOf (pins : List SheetPin) (wires : List Wire) (netId : Text) : List Nat :=
  (((pins.zipIdx.filter fun e => e.1.netId = netId).map Prod.snd).map
    (drawnIslands pins wires)).dedup

/-- The airwires of a net complete it: with the drawing they join all its terminals, there is
one less than there are islands, and each runs between two islands. -/
structure Completes (pins : List SheetPin) (wires : List Wire) (netId : Text)
    (out : List Airwire) : Prop where
  joins : ∀ i j p q, pins[i]? = some p → pins[j]? = some q → p.netId = netId → q.netId = netId →
    EqvGen (fun i j => DrawingJoins pins wires i j ∨ AirLink pins out i j) i j
  count : out.length = (islandsOf pins wires netId).length - 1
  between : ∀ w ∈ out, w.netId = netId ∧ ∃ i j p q, pins[i]? = some p ∧ pins[j]? = some q ∧
    p.netId = netId ∧ q.netId = netId ∧ w.fromPoint = p.toXY ∧ w.toPoint = q.toXY ∧
    ¬ DrawingJoins pins wires i j

/-- As many groups as there are keys. -/
theorem length_group {α κ : Type} [DecidableEq κ] (k : α → κ) (xs : List α) :
    (Map.group k xs).length = (xs.map k).dedup.length := by
  have hperm : ((Map.group k xs).map Prod.fst).Perm (xs.map k).dedup := by
    refine (List.perm_ext_iff_of_nodup (Map.keyed_group k xs) (List.nodup_dedup _)).mpr fun a => ?_
    rw [List.mem_dedup]
    constructor
    · intro ha
      obtain ⟨⟨a', ys⟩, he, rfl⟩ := List.mem_map.mp ha
      exact (Map.mem_group he).1
    · intro ha
      obtain ⟨x, hx, rfl⟩ := List.mem_map.mp ha
      obtain ⟨ys, hys, -⟩ := Map.exists_group (k := k) hx
      exact List.mem_map.mpr ⟨_, hys, rfl⟩
  rw [← hperm.length_eq, List.length_map]

/-- The groups of different keys. -/
theorem pairwise_group {α κ : Type} [DecidableEq κ] (k : α → κ) (xs : List α) :
    ((Map.group k xs).map Prod.snd).Pairwise fun g h => ∀ a ∈ g, ∀ b ∈ h, k a ≠ k b := by
  rw [List.pairwise_map]
  refine (List.pairwise_map.mp (Map.keyed_group k xs)).imp_of_mem ?_
  intro e e' he he' hne a ha b hb
  rw [(Map.mem_group he).2] at ha
  rw [(Map.mem_group he').2] at hb
  have hka := (List.mem_filter.mp ha).2
  have hkb := (List.mem_filter.mp hb).2
  rw [decide_eq_true_eq] at hka hkb
  rw [hka, hkb]
  exact hne

/-- The airwires over the islands of a net complete it. -/
theorem completes_net {pins : List SheetPin} {wires : List Wire} {netId : Text}
    {members : List Nat}
    (hmembers : members = (pins.zipIdx.filter fun e => e.1.netId = netId).map Prod.snd) :
    Completes pins wires netId (netAirwires pins netId
      ((Map.group (drawnIslands pins wires) members).map Prod.snd)) := by
  have hmem : ∀ i, i ∈ members ↔ ∃ p, pins[i]? = some p ∧ p.netId = netId := by
    intro i
    rw [hmembers]
    simp only [List.mem_map, List.mem_filter, Prod.exists, List.mem_zipIdx_iff_getElem?,
      decide_eq_true_eq]
    constructor
    · rintro ⟨p, j, ⟨hp, hn⟩, rfl⟩
      exact ⟨p, hp, hn⟩
    · rintro ⟨p, hp, hn⟩
      exact ⟨p, i, ⟨hp, hn⟩, rfl⟩
  have hcount : ((Map.group (drawnIslands pins wires) members).map Prod.snd).length =
      (islandsOf pins wires netId).length := by
    rw [List.length_map, length_group, islandsOf, hmembers]
  have hapart := pairwise_group (drawnIslands pins wires) members
  -- Each group is one island, and not empty.
  have hgroup : ∀ g ∈ (Map.group (drawnIslands pins wires) members).map Prod.snd,
      g ≠ [] ∧ (∀ i ∈ g, i ∈ members) ∧
        ∀ x ∈ g, ∀ y ∈ g, drawnIslands pins wires x = drawnIslands pins wires y := by
    intro g hg
    obtain ⟨⟨key, g⟩, he, rfl⟩ := List.mem_map.mp hg
    obtain ⟨hkey, rfl⟩ := Map.mem_group he
    refine ⟨?_, fun i hi => (List.mem_filter.mp hi).1, fun x hx y hy => ?_⟩
    · obtain ⟨i, hi, rfl⟩ := List.mem_map.mp hkey
      exact List.ne_nil_of_mem (List.mem_filter.mpr ⟨hi, decide_eq_true rfl⟩)
    · have hx := (List.mem_filter.mp hx).2
      have hy := (List.mem_filter.mp hy).2
      rw [decide_eq_true_eq] at hx hy
      exact hx.trans hy.symm
  have hin : ∀ i ∈ members, i ∈ ((Map.group (drawnIslands pins wires) members).map
      Prod.snd).flatten := by
    intro i hi
    obtain ⟨g, hg, hig⟩ := Map.exists_group (k := drawnIslands pins wires) hi
    exact List.mem_flatten.mpr ⟨g, List.mem_map.mpr ⟨_, hg, rfl⟩, hig⟩
  generalize (Map.group (drawnIslands pins wires) members).map Prod.snd = islands at *
  cases islands with
  | nil =>
    refine ⟨fun i j p q hp hq hpn hqn => ?_, hcount ▸ rfl, fun w hw => by cases hw⟩
    exact absurd (hin i ((hmem i).mpr ⟨p, hp, hpn⟩)) List.not_mem_nil
  | cons joined rest =>
    obtain ⟨hfresh, hpairs⟩ := List.pairwise_cons.mp hapart
    have hsep : Separate pins netId (drawnIslands pins wires) joined rest := {
      joined_ne := (hgroup joined List.mem_cons_self).1
      rest_ne := fun g hg => (hgroup g (List.mem_cons_of_mem _ hg)).1
      onNet := fun i hi => (hmem i).mp (by
        rcases List.mem_append.mp hi with hi | hi
        · exact (hgroup joined List.mem_cons_self).2.1 i hi
        · obtain ⟨g, hg, hi⟩ := List.mem_flatten.mp hi
          exact (hgroup g (List.mem_cons_of_mem _ hg)).2.1 i hi)
      fresh := fun a ha g hg b hb => hfresh g hg a ha b hb
      apart := hpairs }
    have hjoins : ∀ g ∈ joined :: rest, ∀ x ∈ g, ∀ y ∈ g,
        EqvGen (DrawingJoins pins wires) x y := fun g hg x hx y hy =>
      .rel _ _ (drawnIslands_eq_iff.mp ((hgroup g hg).2.2 x hx y hy))
    obtain ⟨hlen, hends, hall⟩ := joinIslands_spec rest.length rfl hsep
      (hjoins joined List.mem_cons_self) fun g hg => hjoins g (List.mem_cons_of_mem _ hg)
    refine ⟨fun i j p q hp hq hpn hqn => ?_, ?_, fun w hw => ?_⟩
    · exact hall i (hin i ((hmem i).mpr ⟨p, hp, hpn⟩)) j (hin j ((hmem j).mpr ⟨q, hq, hqn⟩))
    · rw [← hcount, List.length_cons, Nat.add_sub_cancel]
      exact hlen
    · obtain ⟨hnet, i, j, p, q, hp, hq, hpn, hqn, hf, ht, hroot⟩ := hends w hw
      exact ⟨hnet, i, j, p, q, hp, hq, hpn, hqn, hf, ht,
        fun hj => hroot (drawnIslands_eq_iff.mpr hj)⟩

/-- The part of a labelled list that has one label. -/
theorem filter_flatMap_keyed {κ β γ : Type} [DecidableEq κ] {m : Map κ β} (hm : m.Keyed)
    {f : κ → β → List γ} {label : γ → κ} (hf : ∀ e ∈ m, ∀ x ∈ f e.1 e.2, label x = e.1) (k : κ) :
    (m.flatMap fun e => f e.1 e.2).filter (fun x => label x = k) =
      match m.get? k with
      | none => []
      | some v => f k v := by
  induction m with
  | nil => rfl
  | cons e m ih =>
    obtain ⟨hne, hkeys⟩ := List.nodup_cons.mp hm
    have hrest := ih hkeys fun e he => hf e (List.mem_cons_of_mem _ he)
    rw [List.flatMap_cons, List.filter_append, hrest]
    have hhead := hf e List.mem_cons_self
    by_cases hk : e.1 = k
    · subst hk
      have hnone : Map.get? m e.1 = none := Map.get?_eq_none_iff.mpr hne
      have hself : (f e.1 e.2).filter (fun x => label x = e.1) = f e.1 e.2 :=
        List.filter_eq_self.mpr fun x hx => decide_eq_true (hhead x hx)
      rw [hnone, hself, Map.get?_cons, if_pos rfl]
      exact List.append_nil _
    · have hempty : (f e.1 e.2).filter (fun x => label x = k) = [] :=
        List.filter_eq_nil_iff.mpr fun x hx he =>
          hk ((hhead x hx).symm.trans (of_decide_eq_true he))
      rw [hempty, Map.get?_cons, if_neg hk, List.nil_append]

variable [Runtime]

/-- The airwires of every net that is no rail complete it, and no other is reported. -/
theorem airwires_complete (circuit : CircuitJson) (positions : Map Text Position)
    (wires : List Wire) :
    (∀ w ∈ airwires circuit ⟨positions, some wires⟩, w.netId ∉ sharedNets circuit) ∧
      ∀ netId, Completes (signalPins circuit positions) wires netId
        ((airwires circuit ⟨positions, some wires⟩).filter (·.netId = netId)) := by
  unfold airwires
  simp only
  set pins := signalPins circuit positions
  set byNet := Map.group (fun e : SheetPin × Nat => e.1.netId) pins.zipIdx
  have hlabel : ∀ e ∈ byNet, ∀ w ∈ netAirwires pins e.1
      ((Map.group (drawnIslands pins wires) (e.2.map Prod.snd)).map Prod.snd),
      w.netId = e.1 := by
    intro e he w hw
    exact ((completes_net (by rw [(Map.mem_group he).2])).between w hw).1
  refine ⟨fun w hw => ?_, fun netId => ?_⟩
  · obtain ⟨e, he, hw⟩ := List.mem_flatMap.mp hw
    obtain ⟨hkey, -⟩ := Map.mem_group he
    obtain ⟨⟨p, i⟩, hp, hpn⟩ := List.mem_map.mp hkey
    rw [hlabel e he w hw, ← hpn]
    have := (List.mem_filter.mp (List.fst_mem_of_mem_zipIdx hp)).2
    simpa using this
  · rw [filter_flatMap_keyed (Map.keyed_group _ _)
      (f := fun netId es => netAirwires pins netId
        ((Map.group (drawnIslands pins wires) (es.map Prod.snd)).map Prod.snd)) hlabel]
    have hget := Map.get?_group (fun e : SheetPin × Nat => e.1.netId) pins.zipIdx netId
    split
    · next hnone =>
      -- No terminal of the net is on the sheet.
      have hempty : pins.zipIdx.filter (fun e => e.1.netId = netId) = [] := by
        by_contra hne
        obtain ⟨e, he⟩ := List.exists_mem_of_ne_nil _ hne
        obtain ⟨he, hen⟩ := List.mem_filter.mp he
        rw [hget, if_pos (List.mem_map.mpr ⟨e, he, of_decide_eq_true hen⟩)] at hnone
        cases hnone
      have h : Completes pins wires netId _ := completes_net rfl
      rw [hempty] at h
      exact h
    · next es hsome =>
      refine completes_net ?_
      rw [hget] at hsome
      split at hsome
      · rw [← Option.some.inj hsome]
      · cases hsome

end CircuitForge
