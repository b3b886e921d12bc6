/-
When bringing a drawing in step drops no wire.

Where the recorded ends of each conductor are on one net, every wire stays and takes that
net; a conductor without recorded ends keeps its label, as long as the net is declared.  A
commit whose drawing is in step already stores it as it is.
-/
import CircuitForge.Js.Exact
import CircuitForge.Schematic.InStep
import CircuitForge.Schematic.Islands

namespace CircuitForge

open Js Runs

section

variable [Runtime] [FirstDrawing]

/-- What a sheet commits: kernel edits, or the plan of a wire drawn or of wires deleted. -/
inductive Gesture where
  | edit (label : Text) (edits : List KernelEdit)
  | wire (draft : WireDraft)
  | deleteWires (keys : List Text)

/-- The commit of a gesture. -/
def Gesture.commit (history : History) : Gesture → CommitResult
  | .edit label edits =>
    CircuitForge.commit history label
      (edits.map fun (edit : KernelEdit) (circuit : CircuitJson) => edit.apply circuit) none
  | .wire draft =>
    let plan := planWire history.present.circuit history.present.ui draft
    CircuitForge.commit history plan.label plan.edits (some plan.drawing)
  | .deleteWires keys =>
    let plan := planWireDeletion history.present.circuit history.present.ui keys
    CircuitForge.commit history plan.label plan.edits (some plan.drawing)

omit [FirstDrawing] in
/-- The wires a gesture adds to a drawing, without their labels. -/
def Gesture.newWires (ui : UiJson) : Gesture → List Wire
  | .wire draft =>
    [{ id := some (nextWireId ui.drawn), netId := [], points := tidyPoints draft.points
       fromRef := draft.fromRef, toRef := draft.toRef }]
  | _ => []

/-- What a commit owes the drawing. -/
structure KeepsDrawing (new : List Wire) (before after : EditorDocument) : Prop where
  inStep : drawingProblems after.circuit after.ui = []
  /-- A part that is there before and after keeps its place. -/
  places : ∀ id ∈ (after.circuit : CircuitJson).components.map Component.id, ∀ p,
    (before.ui : UiJson).positions.get? id = some p → (after.ui : UiJson).positions.get? id = some p
  /-- The wires that stay, and the new ones, are drawn as they were. -/
  lines : ((after.ui : UiJson).drawn.map Wire.line).Sublist
    ((before.ui : UiJson).drawn.map Wire.line ++ new)

omit [FirstDrawing] in
/-- The edits leave the pins that are there where their symbols had them. -/
def Gesture.Meets (circuit : CircuitJson) : Gesture → Prop
  | .edit _ edits => ∀ after, edits.foldlM edited circuit = some after → SamePins circuit after
  | _ => True

end

open Relation Classes

section

variable {netOf : Map PinRef Text} {nets : List Text} {before : List Wire} {label : Nat → Text}

/-- The conductors of a drawing have a label each that their ends agree on. -/
structure EndsAgree (netOf : Map PinRef Text) (nets : List Text) (before : List Wire)
    (label : Nat → Text) : Prop where
  conductor : ∀ i k, SameConductor before i k → label i = label k
  ends : ∀ i w, before[i]? = some w → ∀ ref ∈ w.ends, netOf.get? ref = some (label i)
  bare : ∀ i w, before[i]? = some w → (label i = w.netId ∧ w.netId ∈ nets) ∨
    ∃ k v, SameConductor before i k ∧ before[k]? = some v ∧ v.ends ≠ []

theorem EndsAgree.alive (h : EndsAgree netOf nets before label) {w : Wire} (hw : w ∈ before) :
    isAlive netOf w = true := by
  obtain ⟨i, hi⟩ := List.mem_iff_getElem?.mp hw
  exact List.all_eq_true.mpr fun ref href => by rw [h.ends i w hi ref href]; rfl

/-- The net a conductor is given is its label. -/
theorem EndsAgree.groupNet (h : EndsAgree netOf nets before label) {group : List Nat}
    (hgroup : group ∈ groupsOf before) {i : Nat} (hi : i ∈ group) :
    CircuitForge.groupNet netOf nets before group = some (label i) := by
  obtain ⟨j, rest, rfl⟩ := List.exists_cons_of_ne_nil (List.ne_nil_of_mem hi)
  have hj : j ∈ j :: rest := List.mem_cons_self
  obtain ⟨first, hfirst⟩ : ∃ first, before[j]? = some first :=
    ⟨_, List.getElem?_eq_getElem (lt_of_mem_groupsOf hgroup hj)⟩
  have hlabel : ∀ k ∈ j :: rest, label k = label i := fun k hk =>
    h.conductor k i ((mem_groupsOf hgroup hk i).mp hi).2
  have hmember : ∀ v, v ∈ (j :: rest).filterMap (before[·]?) ↔
      ∃ k ∈ j :: rest, before[k]? = some v := fun v => List.mem_filterMap
  unfold CircuitForge.groupNet netOfGroup
  rw [List.head?_cons, Option.bind_some, hfirst, Option.bind_some]
  simp only
  set votes := ((j :: rest).filterMap (before[·]?)).flatMap fun w => w.ends.filterMap netOf.get?
    with hvotes
  -- Every vote is for the label.
  have hvote : ∀ net ∈ votes, net = label i := by
    intro net hnet
    obtain ⟨w, hw, hnet⟩ := List.mem_flatMap.mp hnet
    obtain ⟨ref, href, hnet⟩ := List.mem_filterMap.mp hnet
    obtain ⟨k, hk, hwk⟩ := (hmember w).mp hw
    rw [h.ends k w hwk ref href, hlabel k hk] at hnet
    exact (Option.some.inj hnet).symm
  by_cases hlen : votes.length > 0
  · rw [if_pos hlen, hvote _ (elected_mem (List.ne_nil_of_length_pos hlen))]
  · rw [if_neg hlen]
    have hnil : votes = [] := List.length_eq_zero_iff.mp (Nat.eq_zero_of_not_pos hlen)
    rcases h.bare j first hfirst with ⟨hself, hdeclared⟩ | ⟨k, v, hk, hv, hends⟩
    · rw [if_pos hdeclared, ← hself, hlabel j hj]
    · -- A recorded end in the conductor would have voted.
      obtain ⟨ref, href⟩ := List.exists_mem_of_ne_nil _ hends
      have hmem := (mem_groupsOf hgroup hj k).mpr ⟨(List.getElem?_eq_some_iff.mp hv).1, hk⟩
      have hcast : label k ∈ votes := List.mem_flatMap.mpr ⟨v, (hmember v).mpr ⟨k, hmem, hv⟩,
        List.mem_filterMap.mpr ⟨ref, href, h.ends k v hv ref href⟩⟩
      rw [hnil] at hcast
      cases hcast

theorem EndsAgree.wireIn (h : EndsAgree netOf nets before label) {group : List Nat}
    (hgroup : group ∈ groupsOf before) {i : Nat} (hi : i ∈ group) {w : Wire}
    (hw : before[i]? = some w) :
    CircuitForge.wireIn netOf nets before group i = some { w with netId := label i } := by
  rw [CircuitForge.wireIn, h.groupNet hgroup hi, Option.bind_some, hw, Option.bind_some,
    relabelled_eq_some]
  exact ⟨h.ends i w hw, rfl⟩

theorem EndsAgree.livesOn (h : EndsAgree netOf nets before label) {group : List Nat}
    (hgroup : group ∈ groupsOf before) {i : Nat} (hi : i ∈ group) :
    LivesOn netOf before group := by
  obtain ⟨j, rest, rfl⟩ := List.exists_cons_of_ne_nil (List.ne_nil_of_mem hi)
  have hlt := lt_of_mem_groupsOf hgroup (List.mem_cons_self : j ∈ j :: rest)
  refine ⟨before[j], ?_, h.alive (List.getElem_mem hlt)⟩
  rw [List.head?_cons, Option.bind_some]
  exact List.getElem?_eq_getElem hlt

theorem length_syncGroup (next : List (Option Wire)) (group : List Nat) :
    (syncGroup netOf nets before next group).length = next.length := by
  by_cases hl : LivesOn netOf before group
  · rw [syncGroup_of_lives hl]
    generalize CircuitForge.wireIn netOf nets before group = value
    clear hl
    induction group generalizing next with
    | nil => rfl
    | cons i is ih => rw [List.foldl_cons, ih, List.length_set]
  · rw [syncGroup_of_not_lives hl]

theorem length_syncGroups (groups : List (List Nat)) (next : List (Option Wire)) :
    (groups.foldl (syncGroup netOf nets before) next).length = next.length := by
  induction groups generalizing next with
  | nil => rfl
  | cons group groups ih => rw [List.foldl_cons, ih, length_syncGroup]

/-- A wire that was given its label keeps it, and every wire of a group gets it. -/
theorem EndsAgree.syncGroups (h : EndsAgree netOf nets before label) {j : Nat} {w : Wire}
    (hw : before[j]? = some w) :
    ∀ (groups : List (List Nat)) (next : List (Option Wire)), groups ⊆ groupsOf before →
      next.length = before.length →
      (next[j]? = some (some { w with netId := label j }) ∨ ∃ group ∈ groups, j ∈ group) →
      (groups.foldl (syncGroup netOf nets before) next)[j]? =
        some (some { w with netId := label j })
  | [], _, _, _, hj => hj.resolve_right fun ⟨_, hg, _⟩ => absurd hg List.not_mem_nil
  | group :: groups, next, hsub, hlen, hj => by
    obtain ⟨hgroup, hsub⟩ := List.cons_subset.mp hsub
    rw [List.foldl_cons]
    have hjlt : j < next.length := hlen ▸ (List.getElem?_eq_some_iff.mp hw).1
    have hstep : j ∈ group → (syncGroup netOf nets before next group)[j]? =
        some (some { w with netId := label j }) := by
      intro hmem
      rw [syncGroup_of_lives (h.livesOn hgroup hmem), getElem?_foldl_set,
        if_pos ⟨hmem, hjlt⟩, h.wireIn hgroup hmem hw]
    have hkeep : j ∉ group → (syncGroup netOf nets before next group)[j]? = next[j]? := by
      intro hout
      by_cases hl : LivesOn netOf before group
      · rw [syncGroup_of_lives hl, getElem?_foldl_set, if_neg fun hin => hout hin.1]
      · rw [syncGroup_of_not_lives hl]
    refine h.syncGroups hw groups _ hsub ((length_syncGroup next group).trans hlen) ?_
    by_cases hmem : j ∈ group
    · exact .inl (hstep hmem)
    · rw [hkeep hmem]
      refine hj.imp_right fun ⟨g, hg, hin⟩ => ?_
      rcases List.mem_cons.mp hg with rfl | hg
      · exact absurd hin hmem
      · exact ⟨g, hg, hin⟩

end

/-! ## Labels -/

/-- The terminals that the wires of a conductor are recorded on. -/
def conductorEnds (wires : List Wire) (i : Nat) : List PinRef :=
  (wires.zipIdx.filter fun e => root (joints wires) e.2 = root (joints wires) i).flatMap
    fun e => e.1.ends

theorem mem_conductorEnds {wires : List Wire} {i : Nat} {ref : PinRef} :
    ref ∈ conductorEnds wires i ↔
      ∃ k w, wires[k]? = some w ∧ SameConductor wires i k ∧ ref ∈ w.ends := by
  simp only [conductorEnds, List.mem_flatMap, List.mem_filter, Prod.exists,
    List.mem_zipIdx_iff_getElem?, decide_eq_true_eq, root_eq_iff, eqvGen_joints]
  constructor
  · rintro ⟨w, k, ⟨hw, hk⟩, href⟩
    exact ⟨k, w, hw, hk.symm, href⟩
  · rintro ⟨k, w, hw, hk, href⟩
    exact ⟨w, k, ⟨hw, hk.symm⟩, href⟩

/-- Where the ends of every conductor are on one net, its wires have a label. -/
theorem exists_endsAgree {netOf : Map PinRef Text} {nets : List Text} {before : List Wire}
    (hnets : ∀ w ∈ before, w.netId ∈ nets)
    (halive : ∀ w ∈ before, ∀ ref ∈ w.ends, (netOf.get? ref).isSome = true)
    (hone : ∀ i k v w, SameConductor before i k → before[i]? = some v → before[k]? = some w →
      ∀ ref ∈ v.ends, ∀ ref' ∈ w.ends, netOf.get? ref = netOf.get? ref') :
    ∃ label, EndsAgree netOf nets before label := by
  refine ⟨fun i => ((conductorEnds before i).head?.bind netOf.get?).getD
    ((before[i]?.map Wire.netId).getD []), fun i k hik => ?_, fun i w hw ref href => ?_,
    fun i w hw => ?_⟩
  · have hroots : root (joints before) i = root (joints before) k :=
      root_eq_iff.mpr (eqvGen_joints.mpr hik)
    simp only [conductorEnds, hroots, hik.netId]
  · have hmem : ref ∈ conductorEnds before i := mem_conductorEnds.mpr ⟨i, w, hw, .refl _, href⟩
    obtain ⟨first, rest, hcons⟩ := List.exists_cons_of_ne_nil (List.ne_nil_of_mem hmem)
    obtain ⟨k, v, hv, hik, hfirst⟩ := mem_conductorEnds.mp (hcons ▸ List.mem_cons_self)
    obtain ⟨netId, hnet⟩ := Option.isSome_iff_exists.mp
      (halive w (List.mem_of_getElem? hw) ref href)
    have hsame := hone i k w v hik hw hv ref href first hfirst
    simp only [hcons, List.head?_cons, Option.bind_some]
    rw [← hsame, hnet, Option.getD_some]
  · by_cases hnil : conductorEnds before i = []
    · left
      simp only [hnil, List.head?_nil, Option.bind_none, Option.getD_none, hw, Option.map_some,
        Option.getD_some]
      exact ⟨trivial, hnets w (List.mem_of_getElem? hw)⟩
    · right
      obtain ⟨ref, href⟩ := List.exists_mem_of_ne_nil _ hnil
      obtain ⟨k, v, hv, hik, href⟩ := mem_conductorEnds.mp href
      exact ⟨k, v, hik, hv, List.ne_nil_of_mem href⟩

/-! ## The drawing -/

/-- Where the ends of every conductor agree, every wire stays and takes their net. -/
theorem syncWires_of_agree [Runtime] {circuit : CircuitJson} {before : List Wire}
    {label : Nat → Text}
    (h : EndsAgree (pinNets circuit) (circuit.nets.map Net.id) before label) :
    syncWires circuit before = before.mapIdx fun i w => { w with netId := label i } := by
  have halive : before.map (fun w =>
      if isAlive (pinNets circuit) w then w else { w with netId := deadNet }) = before := by
    conv_rhs => rw [← List.map_id before]
    exact List.map_congr_left fun w hw => if_pos (h.alive hw)
  unfold syncWires
  simp only [halive]
  have hall : (groupsOf before).foldl
      (syncGroup (pinNets circuit) (circuit.nets.map Net.id) before)
      (before.map fun w => if isAlive (pinNets circuit) w then some w else none) =
      (before.mapIdx fun i w => { w with netId := label i }).map some := by
    refine List.ext_getElem? fun j => ?_
    rw [List.getElem?_map, List.getElem?_mapIdx]
    cases hw : before[j]? with
    | some w =>
      exact h.syncGroups hw _ _ (fun _ hg => hg) (List.length_map ..)
        (.inr (exists_groupsOf (List.getElem?_eq_some_iff.mp hw).1))
    | none =>
      refine List.getElem?_eq_none ?_
      rw [length_syncGroups, List.length_map]
      exact List.getElem?_eq_none_iff.mp hw
  rw [hall, List.filterMap_map]
  exact List.filterMap_some

/-- Where the ends of every conductor are on one net, every wire stays. -/
theorem syncWires_keeps_lines [Runtime] {circuit : CircuitJson} {before : List Wire}
    (hnets : ∀ w ∈ before, w.netId ∈ circuit.nets.map Net.id)
    (halive : ∀ w ∈ before, ∀ ref ∈ w.ends, ((pinNets circuit).get? ref).isSome = true)
    (hone : ∀ i k v w, SameConductor before i k → before[i]? = some v → before[k]? = some w →
      ∀ ref ∈ v.ends, ∀ ref' ∈ w.ends, (pinNets circuit).get? ref = (pinNets circuit).get? ref') :
    (syncWires circuit before).map Wire.line = before.map Wire.line := by
  obtain ⟨label, hagree⟩ := exists_endsAgree hnets halive hone
  rw [syncWires_of_agree hagree]
  refine List.ext_getElem? fun i => ?_
  rw [List.getElem?_map, List.getElem?_mapIdx, List.getElem?_map, Option.map_map]
  rfl

/-- A drawing whose ends are all on the nets of their wires stays as it is. -/
theorem syncWires_of_labels [Runtime] {circuit : CircuitJson} {before : List Wire}
    (h : ∀ w ∈ before, w.netId ∈ circuit.nets.map Net.id ∧
      ∀ ref ∈ w.ends, (pinNets circuit).get? ref = some w.netId) :
    syncWires circuit before = before := by
  have hagree : EndsAgree (pinNets circuit) (circuit.nets.map Net.id) before
      fun i => (before[i]?.map Wire.netId).getD [] := by
    refine ⟨fun i k hik => ?_, fun i w hw ref href => ?_, fun i w hw => ?_⟩
    · simp only [hik.netId]
    · rw [hw, Option.map_some, Option.getD_some]
      exact (h w (List.mem_of_getElem? hw)).2 ref href
    · rw [hw, Option.map_some, Option.getD_some]
      exact .inl ⟨rfl, (h w (List.mem_of_getElem? hw)).1⟩
  rw [syncWires_of_agree hagree]
  refine List.ext_getElem? fun i => ?_
  rw [List.getElem?_mapIdx]
  cases hw : before[i]? with
  | none => rfl
  | some w => rw [Option.map_some, Option.map_some, Option.getD_some]

/-! ## Commits -/

section

variable [Kernel]

open Kernel (Circuit Ui)

/-- An edit that is valid and changes nothing answers the circuit it was given. -/
def AnswersSame (edit : Circuit → EditResult Circuit) : Prop :=
  ∀ circuit after, edit circuit = .unchanged after → after = circuit

/-- The circuit after some edits, unless one is refused. -/
theorem circuit_applyEdits : ∀ {edits : List (Circuit → EditResult Circuit)},
    (∀ edit ∈ edits, AnswersSame edit) → ∀ (i : Nat) (applied : Applied),
    (applyEdits i applied edits).toOption.map Applied.circuit =
      edits.foldlM (fun c edit => (edit c).circuit?) applied.circuit
  | [], _, _, _ => rfl
  | edit :: edits, hedits, i, applied => by
    obtain ⟨hedit, hedits⟩ := List.forall_mem_cons.mp hedits
    rw [List.foldlM_cons]
    unfold applyEdits
    cases he : edit applied.circuit with
    | refused reason message => rfl
    | changed circuit note created touched => exact circuit_applyEdits hedits ..
    | unchanged circuit =>
      rw [hedit _ _ he]
      exact circuit_applyEdits hedits ..

/-- The commit was not refused. -/
def CommitResult.done : CommitResult → Bool
  | .refused _ _ _ => false
  | _ => true

theorem CommitResult.ne_refused {result : CommitResult} (h : result.done = true) (index : Nat)
    (reason : EditRefusal) (message : Text) : result ≠ .refused index reason message := by
  rintro rfl
  cases h

/-- A commit with a drawing records the document it makes, unless that is the one there is. -/
theorem commit_of_applied (history : History) (label : Text)
    {edits : List (Circuit → EditResult Circuit)} (draw : Ui → List Text → Circuit → Ui)
    {applied : Applied}
    (h : applyEdits 0 ⟨history.present.circuit, false, [], []⟩ edits = .ok applied) :
    commit history label edits (some draw) = .changed (recorded history label
        ⟨applied.circuit, nextDrawing history.present applied (some draw)⟩) applied.notes ∨
      (commit history label edits (some draw) = .unchanged history ∧
        Kernel.sameJson (nextDrawing history.present applied (some draw))
          history.present.ui = true) := by
  unfold commit
  rw [h]
  simp only [Option.isNone_some, Bool.and_false, Bool.false_eq_true, if_false]
  split
  · next hs => exact .inr ⟨rfl, (Bool.and_eq_true_iff.mp hs).2⟩
  · exact .inl rfl

/-- A commit that is not refused has made its edits. -/
theorem exists_applied {history : History} {label : Text}
    {edits : List (Circuit → EditResult Circuit)} {drawing : Option (Ui → List Text → Circuit → Ui)}
    (h : ∀ index reason message,
      commit history label edits drawing ≠ .refused index reason message) :
    ∃ applied, applyEdits 0 ⟨history.present.circuit, false, [], []⟩ edits = .ok applied := by
  unfold commit at h
  cases he : applyEdits 0 ⟨history.present.circuit, false, [], []⟩ edits with
  | error e =>
    rw [he] at h
    exact absurd rfl (h e.1 e.2.1 e.2.2)
  | ok applied => exact ⟨applied, rfl⟩

end

section

variable [Runtime] [FirstDrawing]

omit [Runtime] [FirstDrawing] in
theorem sameDrawing_wires {a b : UiJson} (h : sameDrawing a b = true) : a.wires = b.wires := by
  unfold sameDrawing at h
  simp only [Bool.and_eq_true, decide_eq_true_eq] at h
  exact h.1.1

theorem withoutOrphanPositions_wires (ui : UiJson) (circuit : CircuitJson) :
    (withoutOrphanPositions ui circuit : UiJson).wires = ui.wires := by
  unfold withoutOrphanPositions
  simp only [Kernel.positions]
  split
  · rfl
  · rfl

/-- The wires of a commit are those of its drawing, brought in step. -/
theorem wires_nextDrawing {present : EditorDocument} {applied : Applied}
    {draw : UiJson → List Text → CircuitJson → UiJson} {wires : List Wire}
    (howned : (present.ui : UiJson).wires.isSome = true)
    (hwires : (draw present.ui applied.created applied.circuit).wires = some wires) :
    (nextDrawing present applied (some draw) : UiJson).wires =
      some (syncWires applied.circuit wires) := by
  have hfreeze : freezeDrawing present.circuit present.ui = present.ui := if_pos howned
  show (syncDrawing applied.circuit (withoutOrphanPositions
    (draw (freezeDrawing present.circuit present.ui) applied.created applied.circuit)
      applied.circuit)).wires = _
  rw [hfreeze, syncDrawing, withoutOrphanPositions_wires, hwires]
  simp only
  rw [placeNewParts_wires]

end

end CircuitForge
