/-
Runs of commits of kernel edits.

No single edit moves a pin on the symbol of a part that is there before and after it, so a
drawing in step stays in step however many commits, undos and redos follow.  A commit of
several edits can take a part away and bring another one back under its id.
-/
import CircuitForge.Schematic.DrawnWires

namespace CircuitForge

open Js Runs

section

variable [Runtime]

/-! ## Spots of an edit -/

theorem spotAt_eq (circuit : CircuitJson) (ref : PinRef) :
    spotAt circuit ref = (circuit.components.flatMap fun c =>
      if c.id = ref.componentId then
        ((terminalsOf c).filter (·.1.pinId = ref.pinId)).map fun t => (t.2.x, t.2.y)
      else []).getLast? := by
  rw [spotAt, ← List.getLast?_map, terminalsAt, List.map_flatMap]
  congr 2
  funext c
  split
  · rw [List.map_map]
    rfl
  · rfl

/-- A terminal with a spot is one of a part that is there. -/
theorem mem_ids_of_spotAt {circuit : CircuitJson} {ref : PinRef} {spot : Int × Int}
    (h : spotAt circuit ref = some spot) :
    ref.componentId ∈ circuit.components.map Component.id := by
  rw [spotAt_eq] at h
  obtain ⟨c, hc, hspot⟩ := List.mem_flatMap.mp (List.mem_of_getLast? h)
  by_cases hid : c.id = ref.componentId
  · exact hid ▸ List.mem_map_of_mem hc
  · rw [if_neg hid] at hspot
    cases hspot

/-- Parts whose pins and symbols stay have their terminals where they were. -/
theorem spotAt_map {circuit after : CircuitJson} (f : Component → Component)
    (hafter : after.components = circuit.components.map f) (hid : ∀ c, (f c).id = c.id)
    (hterminals : ∀ c, terminalsOf (f c) = terminalsOf c) (ref : PinRef) :
    spotAt after ref = spotAt circuit ref := by
  rw [spotAt_eq, spotAt_eq, hafter, List.flatMap_map]
  simp only [hid, hterminals]

/-- Parts under other ids do not matter. -/
theorem spotAt_append {circuit after : CircuitJson} {more : List Component} {ref : PinRef}
    (hafter : after.components = circuit.components ++ more)
    (hmore : ∀ c ∈ more, c.id ≠ ref.componentId) : spotAt after ref = spotAt circuit ref := by
  have hnone : (more.flatMap fun c =>
      if c.id = ref.componentId then
        ((terminalsOf c).filter (·.1.pinId = ref.pinId)).map fun t => (t.2.x, t.2.y)
      else []) = [] := by
    rw [List.flatMap_eq_nil_iff]
    exact fun c hc => if_neg (hmore c hc)
  rw [spotAt_eq, spotAt_eq, hafter, List.flatMap_append, hnone, List.append_nil]

theorem spotAt_withoutPart {circuit : CircuitJson} {target : Component} {ref : PinRef}
    (href : ref.componentId ≠ target.id) :
    spotAt (withoutPart circuit target) ref = spotAt circuit ref := by
  rw [spotAt_eq, spotAt_eq, withoutPart]
  induction circuit.components with
  | nil => rfl
  | cons c cs ih =>
    by_cases hid : c.id = target.id
    · have hother : c.id ≠ ref.componentId := fun he => href (he.symm.trans hid)
      rw [List.filter_cons_of_neg (by simpa using hid), List.flatMap_cons, if_neg hother,
        List.nil_append]
      exact ih
    · rw [List.filter_cons_of_pos (by simpa using hid), List.flatMap_cons, List.flatMap_cons,
        List.getLast?_append, List.getLast?_append]
      exact congrArg (Option.or · _) ih

theorem SamePins.refl (circuit : CircuitJson) : SamePins circuit circuit :=
  fun _ _ hspot _ => hspot

/-- Parts that come under new ids leave the pins that are there. -/
theorem samePins_append {circuit after : CircuitJson} {more : List Component}
    (hids : (after.components.map Component.id).Nodup)
    (hafter : after.components = circuit.components ++ more) : SamePins circuit after := by
  intro ref spot hspot _
  refine (spotAt_append hafter fun c hc he => ?_).trans hspot
  rw [hafter, List.map_append, List.nodup_append] at hids
  exact hids.2.2 _ (mem_ids_of_spotAt hspot) _ (List.mem_map_of_mem hc) he.symm

theorem samePins_replaceComponent (circuit : CircuitJson) (componentId : Text)
    {update : Component → Component} (hid : ∀ c, (update c).id = c.id)
    (hterminals : ∀ c, terminalsOf (update c) = terminalsOf c) :
    SamePins circuit (replaceComponent circuit componentId update) := by
  intro ref spot hspot _
  refine (spotAt_map _ rfl (fun c => ?_) (fun c => ?_) ref).trans hspot
  · split
    · exact hid c
    · rfl
  · split
    · exact hterminals c
    · rfl

/-- Copies come behind the parts that are there. -/
theorem components_copyAll {shared : List Text} {inside : Map Text Nat}
    {originals : List Component} {st st' : Copying}
    (hc : copyAll shared inside st originals = .ok st') :
    ∃ copies, st'.next.components = st.next.components ++ copies := by
  induction originals generalizing st with
  | nil =>
    cases hc
    exact ⟨[], (List.append_nil _).symm⟩
  | cons original originals ih =>
    unfold CircuitForge.copyAll at hc
    split at hc
    case h_1 => cases hc
    case h_2 st₁ h₁ =>
      obtain ⟨-, -, -, rfl⟩ := copyOne_cases h₁
      obtain ⟨copies, hcopies⟩ := ih hc
      exact ⟨_, hcopies.trans (List.append_assoc ..)⟩

theorem spotAt_finishCopies (circuit : CircuitJson) (shared : List Text) (st : Copying)
    (ref : PinRef) : spotAt (finishCopies circuit shared st) ref = spotAt st.next ref :=
  spotAt_map (fun c => { c with value := (rewriteValue shared st c).1 }) rfl (fun _ => rfl)
    (fun _ => rfl) ref

theorem samePins_duplicateComponents {circuit after : CircuitJson} {ids : List Text}
    (h : Wired circuit) (hs : (duplicateComponents circuit ids).circuit? = some after) :
    SamePins circuit after := by
  unfold CircuitForge.duplicateComponents at hs
  simp only at hs
  split at hs
  case h_1 => cases hs
  case h_2 =>
    split at hs
    case isTrue =>
      cases hs
      exact .refl circuit
    case isFalse =>
      split at hs
      case h_1 => cases hs
      case h_2 st hst =>
        cases hs
        obtain ⟨copies, hcopies⟩ := components_copyAll hst
        intro ref spot hspot hpin
        rw [spotAt_finishCopies]
        rw [pinsOf_finishCopies] at hpin
        exact samePins_append (nodup_ids_copyAll h.componentIds hst) hcopies ref spot hspot hpin

/-- A single edit leaves the pins that are there where their symbols had them. -/
theorem samePins_edited {circuit after : CircuitJson} {edit : KernelEdit} (h : Wired circuit)
    (hs : edited circuit edit = some after) : SamePins circuit after := by
  have hmoved (moves : PinRef → PinConnection → Bool) (netId : Text) (nets : List Net) :
      SamePins circuit
        { circuit with components := moveAll circuit.components moves netId, nets } :=
    fun ref spot hspot _ => (spotAt_moveAll circuit moves netId nets ref).trans hspot
  cases edit with
  | setDesignator =>
    obtain rfl | ⟨_, rfl, -⟩ := setDesignator_result hs
    · exact .refl _
    · exact samePins_replaceComponent _ _ (fun _ => rfl) fun _ => rfl
  | setValue =>
    obtain rfl | ⟨_, rfl⟩ := setValue_result hs
    · exact .refl _
    · exact samePins_replaceComponent _ _ (fun _ => rfl) fun _ => rfl
  | setNetName =>
    obtain rfl | ⟨_, rfl, -⟩ := setNetName_result hs
    · exact .refl _
    · exact fun ref spot hspot _ => hspot
  | connectPins =>
    obtain rfl | ⟨_, -, _, -, rfl⟩ := connectPins_result hs
    · exact .refl _
    · exact hmoved _ _ _
  | disconnectPin =>
    obtain ⟨_, _, -, ⟨rfl, -⟩ | ⟨rfl, -⟩⟩ := disconnectPin_result hs
    · exact .refl _
    · exact hmoved _ _ _
  | movePinToNet =>
    obtain ⟨-, _, _, -, ⟨-, rfl⟩ | ⟨-, rfl⟩⟩ := movePinToNet_result hs
    · exact .refl _
    · exact hmoved _ _ _
  | splitNet =>
    obtain ⟨rfl, -⟩ := splitNet_result hs
    exact hmoved _ _ _
  | addComponent =>
    have hwired := wired_edited h hs
    obtain ⟨rfl, -⟩ := addComponent_cases hs
    exact samePins_append hwired.componentIds rfl
  | deleteComponent =>
    obtain ⟨target, -, -, rfl⟩ := deleteComponent_result hs
    rintro ref spot hspot ⟨netId, hpin⟩
    obtain ⟨c, hc, p, -, rfl, -⟩ := mem_pinsOf.mp hpin
    exact (spotAt_withoutPart (of_decide_eq_true (List.mem_filter.mp hc).2)).trans hspot
  | duplicateComponents => exact samePins_duplicateComponents h hs

/-! ## Labels of an edit -/

/-- No net goes by the label that dead ends are given. -/
def Unmarked (circuit : CircuitJson) : Prop := ∀ net ∈ circuit.nets, net.id ≠ deadNet

omit [Runtime] in
theorem freshNetAt_unmarked (k : Nat) : (freshNetAt k).id ≠ deadNet :=
  fun h => absurd (List.cons.inj h).1 (by decide)

theorem mintedNet_unmarked (circuit : CircuitJson) (q : Nat) :
    (mintedNet circuit q).id ≠ deadNet := by
  obtain ⟨k, hk, -⟩ := mintedNet_nth circuit q
  rw [hk]
  exact freshNetAt_unmarked k

theorem Unmarked.append {circuit after : CircuitJson} (h : Unmarked circuit) {more : List Net}
    (hafter : after.nets = circuit.nets ++ more) (hmore : ∀ net ∈ more, net.id ≠ deadNet) :
    Unmarked after := by
  intro net hnet
  rw [hafter] at hnet
  exact (List.mem_append.mp hnet).elim (h net) (hmore net)

theorem Unmarked.subset {circuit after : CircuitJson} (h : Unmarked circuit)
    (hafter : after.nets.map Net.id ⊆ circuit.nets.map Net.id) : Unmarked after := by
  intro net hnet
  obtain ⟨was, hwas, hid⟩ := List.mem_map.mp (hafter (List.mem_map_of_mem hnet))
  rw [← hid]
  exact h was hwas

theorem unmarked_edited {circuit after : CircuitJson} {edit : KernelEdit} (h : Unmarked circuit)
    (hs : edited circuit edit = some after) : Unmarked after := by
  have hfresh : ∀ net ∈ [freshNet circuit], net.id ≠ deadNet := by
    intro net hnet
    rw [List.mem_singleton.mp hnet]
    exact freshNetAt_unmarked _
  have hfilter (p : Net → Bool) : (circuit.nets.filter p).map Net.id ⊆ circuit.nets.map Net.id :=
    (List.filter_sublist.map Net.id).subset
  cases edit with
  | setDesignator =>
    obtain rfl | ⟨_, rfl, -⟩ := setDesignator_result hs
    · exact h
    · exact h
  | setValue =>
    obtain rfl | ⟨_, rfl⟩ := setValue_result hs
    · exact h
    · exact h
  | setNetName =>
    obtain rfl | ⟨_, rfl, -⟩ := setNetName_result hs
    · exact h
    · refine h.subset ?_
      rw [ids_renamed]
      exact List.Subset.refl _
  | connectPins =>
    obtain rfl | ⟨_, -, _, -, rfl⟩ := connectPins_result hs
    · exact h
    · exact h.subset (hfilter _)
  | disconnectPin =>
    obtain ⟨_, _, -, ⟨rfl, -⟩ | ⟨rfl, -⟩⟩ := disconnectPin_result hs
    · exact h
    · exact h.append rfl hfresh
  | movePinToNet =>
    obtain ⟨-, _, _, -, ⟨-, rfl⟩ | ⟨-, rfl⟩⟩ := movePinToNet_result hs
    · exact h
    · exact h.subset (hfilter _)
  | splitNet =>
    obtain ⟨rfl, -⟩ := splitNet_result hs
    exact h.append rfl hfresh
  | addComponent spec =>
    obtain ⟨rfl, -⟩ := addComponent_cases hs
    refine h.append rfl fun net hnet => ?_
    rw [netsFor, freshNets_eq_map] at hnet
    obtain ⟨q, -, rfl⟩ := List.mem_map.mp hnet
    exact mintedNet_unmarked circuit q
  | deleteComponent =>
    obtain ⟨target, -, -, rfl⟩ := deleteComponent_result hs
    exact h.subset (hfilter _)
  | duplicateComponents =>
    obtain ⟨places, -, hnets, -⟩ := duplicateComponents_result hs
    refine h.append hnets fun net hnet => ?_
    obtain ⟨q, -, rfl⟩ := List.mem_map.mp hnet
    exact mintedNet_unmarked circuit q

/-! ## Several edits -/

/-- What every edit keeps, a list of edits keeps. -/
theorem foldlM_edited {I : CircuitJson → Prop}
    (hstep : ∀ circuit edit after, I circuit → edited circuit edit = some after → I after) :
    ∀ {edits : List KernelEdit} {circuit after : CircuitJson}, I circuit →
      edits.foldlM edited circuit = some after → I after
  | [], _, _, h, hs => by
    cases hs
    exact h
  | edit :: edits, _, _, h, hs => by
    rw [List.foldlM_cons] at hs
    obtain ⟨next, hnext, hs⟩ := Option.bind_eq_some_iff.mp hs
    exact foldlM_edited hstep (hstep _ edit next h hnext) hs

/-- An edit that is valid and changes nothing answers the circuit it was given. -/
theorem answersSame_apply [FirstDrawing] (edit : KernelEdit) :
    AnswersSame fun circuit : CircuitJson => edit.apply circuit := by
  intro circuit after he
  cases edit with
  | setDesignator componentId next =>
    simp only [KernelEdit.apply, setDesignator] at he
    repeat' split at he
    all_goals cases he
    rfl
  | setValue componentId next =>
    simp only [KernelEdit.apply, setValue] at he
    repeat' split at he
    all_goals cases he
    rfl
  | setNetName netId next =>
    simp only [KernelEdit.apply, setNetName] at he
    repeat' split at he
    all_goals cases he
    rfl
  | connectPins fromRef toRef => exact answersSame_connectPins fromRef toRef circuit after he
  | disconnectPin ref =>
    simp only [KernelEdit.apply, disconnectPin] at he
    repeat' split at he
    all_goals cases he
    rfl
  | movePinToNet ref netId =>
    simp only [KernelEdit.apply, movePinToNet] at he
    repeat' split at he
    all_goals cases he
    rfl
  | splitNet netId take =>
    simp only [KernelEdit.apply, splitNet] at he
    repeat' split at he
    all_goals cases he
  | addComponent spec => exact absurd he (addComponent_ne_unchanged circuit after spec)
  | deleteComponent componentId =>
    simp only [KernelEdit.apply, deleteComponent] at he
    repeat' split at he
    all_goals cases he
  | duplicateComponents ids =>
    simp only [KernelEdit.apply, duplicateComponents] at he
    repeat' split at he
    all_goals cases he
    rfl

/-! ## One commit -/

/-- An end in step sits on its terminal after edits that leave the pins that are there, where
the parts that are left keep their places. -/
theorem EndInStep.sits {before after : CircuitJson} {positions positions' : Map Text Position}
    {w : Wire} {end' : Option PinRef} {at' : Option XY}
    (hend : EndInStep (pinMap before positions) w end' at')
    (hplaces : ∀ id ∈ after.components.map Component.id,
      positions'.get? id = positions.get? id) (hpins : SamePins before after) :
    EndSits after positions' end' at' := by
  rintro ref href ⟨netId, hpin⟩
  obtain ⟨p, hp, -, hat⟩ := hend ref href
  obtain ⟨place, spot, hplace, hspot, hpoint⟩ := get_pinMap_iff.mp ⟨p, hp, rfl⟩
  obtain ⟨c, hc, _, -, hkey, -⟩ := mem_pinsOf.mp hpin
  have hid : ref.componentId ∈ after.components.map Component.id :=
    List.mem_map.mpr ⟨c, hc, congrArg PinRef.componentId hkey⟩
  obtain ⟨q, hq, hqp⟩ := get_pinMap_iff.mpr ⟨place, spot, (hplaces _ hid).trans hplace,
    hpins ref spot hspot ⟨netId, hpin⟩, hpoint⟩
  exact ⟨q, hq, hat.trans (congrArg some hqp.symm)⟩

variable [FirstDrawing]

/-- What the drawing of a document needs to stay in step. -/
structure Sound (document : EditorDocument) : Prop where
  wired : Wired document.circuit
  unmarked : Unmarked document.circuit
  owned : (document.ui : UiJson).wires.isSome = true
  inStep : drawingProblems document.circuit document.ui = []

theorem get?_withoutOrphanPositions (ui : UiJson) (circuit : CircuitJson) {id : Text}
    (hid : id ∈ circuit.components.map Component.id) :
    (withoutOrphanPositions ui circuit : UiJson).positions.get? id = ui.positions.get? id := by
  have hfilter (m : Map Text Position) :
      Map.get? (m.filter fun e => e.1 ∈ circuit.components.map Component.id) id = m.get? id := by
    induction m with
    | nil => rfl
    | cons e m ih =>
      by_cases he : e.1 ∈ circuit.components.map Component.id
      · rw [List.filter_cons_of_pos (by simpa using he), Map.get?, Map.get?, ih]
      · have hne : e.1 ≠ id := fun h => he (h ▸ hid)
        rw [List.filter_cons_of_neg (by simpa using he), Map.get?, if_neg hne, ih]
  have halive : (Kernel.components circuit).map Kernel.componentId =
      circuit.components.map Component.id := List.map_id _
  unfold withoutOrphanPositions
  simp only [Kernel.positions, halive]
  split
  · rfl
  · exact hfilter ui.positions

/-- The edits of a commit make a sound document of a sound one, if they leave the pins that
are there where their symbols had them. -/
theorem Sound.nextDrawing {present : EditorDocument} (h : Sound present) {applied : Applied}
    (hwired : Wired applied.circuit) (hunmarked : Unmarked applied.circuit)
    (hpins : SamePins present.circuit applied.circuit) :
    Sound ⟨applied.circuit, nextDrawing present applied none⟩ ∧
      KeepsDrawing [] present ⟨applied.circuit, CircuitForge.nextDrawing present applied none⟩ := by
  obtain ⟨before, hbefore⟩ := Option.isSome_iff_exists.mp h.owned
  set ui : UiJson := withoutOrphanPositions present.ui applied.circuit with hui
  have hplaces : ∀ id ∈ (applied.circuit : CircuitJson).components.map Component.id,
      ui.positions.get? id = (present.ui : UiJson).positions.get? id := fun id hid =>
    get?_withoutOrphanPositions present.ui applied.circuit hid
  have hwires : ui.wires = some before := by
    rw [hui, withoutOrphanPositions_wires, hbefore]
  have hnext : CircuitForge.nextDrawing present applied none = syncDrawing applied.circuit ui := by
    have hfreeze : freezeDrawing present.circuit present.ui = present.ui := if_pos h.owned
    show syncDrawing applied.circuit (withoutOrphanPositions
      (freezeDrawing present.circuit present.ui) applied.circuit) = _
    rw [hfreeze]
  have hsteps := drawingProblems_eq_nil.mp h.inStep before hbefore
  have hlabels : ∀ w ∈ before, w.netId ≠ deadNet := by
    intro w hw
    obtain ⟨net, hnet, hid⟩ := List.mem_map.mp (hsteps w hw).net
    rw [← hid]
    exact h.unmarked net hnet
  obtain ⟨hinStep, hkeep, hlines⟩ := syncDrawing_keeps hwired hwires hlabels fun w hw =>
    ⟨(hsteps w hw).fromEnd.sits hplaces hpins, (hsteps w hw).toEnd.sits hplaces hpins⟩
  have hdrawn : (present.ui : UiJson).drawn = before := by
    rw [UiJson.drawn, hbefore, Option.getD_some]
  rw [hnext]
  refine ⟨⟨hwired, hunmarked, ?_, hinStep⟩, ⟨hinStep, fun id hid p hp => ?_, ?_⟩⟩
  · show (syncDrawing applied.circuit ui).wires.isSome = true
    rw [syncDrawing, hwires]
    simp only
    rw [placeNewParts_wires]
    rfl
  · exact hkeep id p ((hplaces id hid).trans hp)
  · rw [List.append_nil, hdrawn]
    exact hlines

end

/-! ## Runs -/

section

variable [Kernel]

/-- Every document that a history holds. -/
def History.documents (history : History) : List EditorDocument :=
  history.present :: (history.past ++ history.future).map Revision.snapshot

theorem mem_documents {history : History} {document : EditorDocument} :
    document ∈ history.documents ↔ document = history.present ∨
      (∃ r ∈ history.past, r.snapshot = document) ∨
        ∃ r ∈ history.future, r.snapshot = document := by
  rw [History.documents, List.mem_cons, List.map_append, List.mem_append, List.mem_map,
    List.mem_map]

theorem lastRevisions_subset (xs : List Revision) : lastRevisions xs ⊆ xs :=
  List.drop_subset _ _

theorem documents_recorded {history : History} {label : Text}
    {next document : EditorDocument} (h : document ∈ (recorded history label next).documents) :
    document = next ∨ document ∈ history.documents := by
  rcases mem_documents.mp h with rfl | ⟨r, hr, rfl⟩ | ⟨r, hr, rfl⟩
  · exact .inl rfl
  · refine .inr (mem_documents.mpr ?_)
    rcases List.mem_append.mp (lastRevisions_subset _ hr) with hr | hr
    · exact .inr (.inl ⟨r, hr, rfl⟩)
    · rw [List.mem_singleton.mp hr]
      exact .inl rfl
  · cases hr

theorem documents_undo {history : History} {document : EditorDocument}
    (h : document ∈ (undo history).documents) : document ∈ history.documents := by
  unfold undo at h
  cases hlast : history.past.getLast? with
  | none =>
    rw [hlast] at h
    exact h
  | some previous =>
    rw [hlast] at h
    refine mem_documents.mpr ?_
    rcases mem_documents.mp h with rfl | ⟨r, hr, rfl⟩ | ⟨r, hr, rfl⟩
    · exact .inr (.inl ⟨previous, List.mem_of_getLast? hlast, rfl⟩)
    · exact .inr (.inl ⟨r, List.mem_of_mem_dropLast hr, rfl⟩)
    · rcases List.mem_cons.mp hr with rfl | hr
      · exact .inl rfl
      · exact .inr (.inr ⟨r, hr, rfl⟩)

theorem documents_redo {history : History} {document : EditorDocument}
    (h : document ∈ (redo history).documents) : document ∈ history.documents := by
  unfold redo at h
  cases hfuture : history.future with
  | nil =>
    rw [hfuture] at h
    exact h
  | cons next rest =>
    rw [hfuture] at h
    refine mem_documents.mpr ?_
    rw [hfuture]
    rcases mem_documents.mp h with rfl | ⟨r, hr, rfl⟩ | ⟨r, hr, rfl⟩
    · exact .inr (.inr ⟨next, List.mem_cons_self, rfl⟩)
    · rcases List.mem_append.mp (lastRevisions_subset _ hr) with hr | hr
      · exact .inr (.inl ⟨r, hr, rfl⟩)
      · rw [List.mem_singleton.mp hr]
        exact .inl rfl
    · exact .inr (.inr ⟨r, List.mem_cons_of_mem _ hr, rfl⟩)

end

section

variable [Runtime] [FirstDrawing]

/-- What an editor asks of the history of a design. -/
inductive DesignOp where
  | edit (label : Text) (edits : List KernelEdit)
  | undo
  | redo

def DesignOp.next (history : History) : DesignOp → History
  | .edit label edits => ((Gesture.edit label edits).commit history).historyAfter history
  | .undo => CircuitForge.undo history
  | .redo => CircuitForge.redo history

/-- A commit of more than one edit leaves the pins that are there where their symbols had
them. -/
def DesignOp.Meets (history : History) : DesignOp → Prop
  | .edit label edits =>
    1 < edits.length → (Gesture.edit label edits).Meets history.present.circuit
  | _ => True

/-- A commit of one edit leaves the pins that are there. -/
theorem DesignOp.Meets.gesture {history : History} (h : Wired history.present.circuit)
    {label : Text} {edits : List KernelEdit}
    (hmeets : (DesignOp.edit label edits).Meets history) :
    (Gesture.edit label edits).Meets history.present.circuit := by
  match edits with
  | [] =>
    rintro after ⟨⟩
    exact .refl _
  | [sole] =>
    intro after hafter
    rw [List.foldlM_cons] at hafter
    obtain ⟨next, hnext, hend⟩ := Option.bind_eq_some_iff.mp hafter
    cases hend
    exact samePins_edited h hnext
  | first :: second :: rest => exact hmeets (by rw [List.length_cons, List.length_cons]; omega)

/-- A commit leaves the history, or records a document that keeps the drawing. -/
theorem edit_commit_cases {history : History} (h : Sound history.present) {label : Text}
    {edits : List KernelEdit}
    (hmeets : (DesignOp.edit label edits).Meets history) :
    DesignOp.next history (.edit label edits) = history ∨
      ∃ next, DesignOp.next history (.edit label edits) = recorded history label next ∧
        Sound next ∧ KeepsDrawing [] history.present next := by
  rcases commit_cases history label
    (edits.map fun (edit : KernelEdit) (circuit : CircuitJson) => edit.apply circuit) none with
    ⟨index, reason, message, hc⟩ | hc | ⟨applied, happlied, hc⟩
  · left
    rw [DesignOp.next, Gesture.commit, hc, CommitResult.historyAfter]
  · left
    rw [DesignOp.next, Gesture.commit, hc, CommitResult.historyAfter]
  · right
    have hedits : edits.foldlM edited history.present.circuit = some applied.circuit := by
      have hall : ∀ answer ∈ edits.map
          fun (edit : KernelEdit) (circuit : CircuitJson) => edit.apply circuit,
          AnswersSame answer := List.forall_mem_map.mpr fun edit _ => answersSame_apply edit
      have hsame := circuit_applyEdits hall 0 ⟨history.present.circuit, false, [], []⟩
      rw [happlied, List.foldlM_map] at hsame
      exact hsame.symm
    have hwired : Wired applied.circuit :=
      foldlM_edited (fun _ _ _ => wired_edited) h.wired hedits
    have hunmarked : Unmarked applied.circuit :=
      foldlM_edited (fun _ _ _ => unmarked_edited) h.unmarked hedits
    refine ⟨_, ?_, h.nextDrawing hwired hunmarked
      (hmeets.gesture h.wired _ hedits)⟩
    rw [DesignOp.next, Gesture.commit, hc, CommitResult.historyAfter]

/-- Every document of a history is sound. -/
def AllSound (history : History) : Prop := ∀ document ∈ history.documents, Sound document

theorem AllSound.present {history : History} (h : AllSound history) : Sound history.present :=
  h _ (mem_documents.mpr (.inl rfl))

theorem Sound.keeps {document : EditorDocument} (h : Sound document) :
    KeepsDrawing [] document document where
  inStep := h.inStep
  places := fun _ _ _ hp => hp
  lines := List.sublist_append_left _ _

/-- The operation is a commit. -/
def DesignOp.isEdit : DesignOp → Bool
  | .edit _ _ => true
  | _ => false

/-- What one operation keeps. -/
theorem AllSound.next {history : History} (h : AllSound history) {op : DesignOp}
    (hmeets : op.Meets history) :
    AllSound (op.next history) ∧
      (op.isEdit = true → KeepsDrawing [] history.present (op.next history).present) := by
  cases op with
  | edit label edits =>
    rcases edit_commit_cases h.present hmeets with hsame | ⟨next, hnext, hsound, hkeeps⟩
    · rw [hsame]
      exact ⟨h, fun _ => h.present.keeps⟩
    · rw [hnext]
      refine ⟨fun document hmem => ?_, fun _ => hkeeps⟩
      rcases documents_recorded hmem with rfl | hold
      · exact hsound
      · exact h document hold
  | undo =>
    refine ⟨fun document hmem => h document (documents_undo hmem), fun hedit => ?_⟩
    cases hedit
  | redo =>
    refine ⟨fun document hmem => h document (documents_redo hmem), fun hedit => ?_⟩
    cases hedit

/-- One operation, which an editor always carries out. -/
def designStep (history : History) (op : DesignOp) : Option History := some (op.next history)

/-- In every run of commits, undos and redos from a drawing in step, every document of the
history is in step, and every commit leaves the parts that stay where they were and draws no
wire of its own. -/
theorem edits_stay_in_step {opened : EditorDocument} (h : Sound opened) {ops : List DesignOp}
    (hmeets : Along designStep (fun history op _ => op.Meets history) (beginHistory opened) ops) :
    (∀ document ∈ (final designStep (beginHistory opened) ops).documents,
      drawingProblems document.circuit document.ui = []) ∧
      Along designStep (fun before op after =>
        op.isEdit = true → KeepsDrawing [] before.present after.present)
        (beginHistory opened) ops := by
  have hopened : AllSound (beginHistory opened) := by
    intro document hmem
    rw [List.mem_singleton.mp hmem]
    exact h
  have hstep : ∀ before op after, AllSound before → designStep before op = some after →
      DesignOp.Meets before op →
        AllSound after ∧ (op.isEdit = true → KeepsDrawing [] before.present after.present) := by
    rintro before op after hbefore ⟨⟩ hop
    exact hbefore.next hop
  constructor
  · have hsound := final_of_along
      (fun before op after hs ha hp => (hstep before op after hs ha hp).1) hopened hmeets
    exact fun document hmem => (hsound document hmem).inStep
  · exact along_of_along hstep hopened hmeets

end

section

/-- A drawing that nobody owns is taken as it is. -/
local instance takenDrawing : FirstDrawing := ⟨fun _ ui => ui⟩

/-- A value, a connection taken back and made again, and a part taken away. -/
def pairEdits : List DesignOp :=
  [.edit "value".toList [.setValue "r1".toList "2k".toList],
    .edit "connect".toList [.connectPins ⟨"r1".toList, "1".toList⟩ ⟨"r2".toList, "2".toList⟩],
    .undo, .redo, .edit "delete".toList [.deleteComponent "r2".toList]]

theorem sound_wiredPair : Sound ⟨wiredPair, pairDrawing⟩ where
  wired := (⟨by decide, by decide⟩ : Wired wiredPair)
  unmarked := (by decide : ∀ net ∈ wiredPair.nets, net.id ≠ deadNet)
  owned := rfl
  inStep := (by decide +kernel : drawingProblems wiredPair pairDrawing = [])

theorem edits_stay_in_step_pairEdits :
    (final designStep (beginHistory ⟨wiredPair, pairDrawing⟩) pairEdits).documents.length = 4 ∧
      ∀ document ∈ (final designStep (beginHistory ⟨wiredPair, pairDrawing⟩) pairEdits).documents,
        drawingProblems document.circuit document.ui = [] := by
  refine ⟨by decide +kernel, (edits_stay_in_step sound_wiredPair ?_).1⟩
  exact ⟨fun _ _ hlen => absurd hlen (by decide), fun _ _ hlen => absurd hlen (by decide),
    fun _ _ => trivial, fun _ _ => trivial, fun _ _ hlen => absurd hlen (by decide), trivial⟩

/-- `R2` taken away, a box with three pins put under its id and wired up again, in one
commit. -/
def swapEdits : List KernelEdit :=
  [.deleteComponent "r2".toList,
    .addComponent
      { type := .subckt
        designator := some "R2".toList
        pins := some ["1".toList, "2".toList, "3".toList] },
    .connectPins ⟨"r1".toList, "2".toList⟩ ⟨"r2".toList, "1".toList⟩]

/-- Several edits in one commit can leave a wire where its terminal was. -/
theorem swapEdits_out_of_step :
    ¬ ∀ (opened : EditorDocument) (ops : List DesignOp), Sound opened →
      ∀ document ∈ (final designStep (beginHistory opened) ops).documents,
        drawingProblems document.circuit document.ui = [] := by
  intro hall
  have hpresent := hall _ [.edit "swap".toList swapEdits] sound_wiredPair _
    (mem_documents.mpr (.inl rfl))
  exact absurd hpresent (by decide +kernel)

end

end CircuitForge
