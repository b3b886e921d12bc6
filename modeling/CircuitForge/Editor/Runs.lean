/-
Runs of kernel edits.

Every edit keeps ids, designators and names apart, pins on declared nets and pins in
order.  What it can miss is a net it empties: an edit that moves a pin moves every pin
with its key, and looks at one net only.
-/
import Mathlib.Data.List.Flatten
import CircuitForge.Editor.Moves
import CircuitForge.Editor.Placing
import CircuitForge.Js.Exact
import CircuitForge.Js.Runs

namespace CircuitForge

open Js Runs

section

variable [Runtime]

/-- The edits of the kernel. -/
inductive KernelEdit where
  | setDesignator (componentId next : Text)
  | setValue (componentId next : Text)
  | setNetName (netId next : Text)
  | connectPins (fromRef toRef : PinRef)
  | disconnectPin (ref : PinRef)
  | movePinToNet (ref : PinRef) (netId : Text)
  | splitNet (netId : Text) (take : List PinRef)
  | addComponent (spec : NewPart)
  | deleteComponent (componentId : Text)
  | duplicateComponents (ids : List Text)

def KernelEdit.apply (circuit : CircuitJson) : KernelEdit → EditResult CircuitJson
  | .setDesignator componentId next => CircuitForge.setDesignator circuit componentId next
  | .setValue componentId next => CircuitForge.setValue circuit componentId next
  | .setNetName netId next => CircuitForge.setNetName circuit netId next
  | .connectPins fromRef toRef => CircuitForge.connectPins circuit fromRef toRef
  | .disconnectPin ref => CircuitForge.disconnectPin circuit ref
  | .movePinToNet ref netId => CircuitForge.movePinToNet circuit ref netId
  | .splitNet netId take => CircuitForge.splitNet circuit netId take
  | .addComponent spec => CircuitForge.addComponent circuit spec
  | .deleteComponent componentId => CircuitForge.deleteComponent circuit componentId
  | .duplicateComponents ids => CircuitForge.duplicateComponents circuit ids

/-- The document after an edit, unless it was refused. -/
def edited (circuit : CircuitJson) (edit : KernelEdit) : Option CircuitJson :=
  (edit.apply circuit).circuit?

/-- The pins an edit moves leave a pin on every net it does not look at. -/
def LeavesPins (circuit : CircuitJson) : KernelEdit → Prop
  | .disconnectPin ref => DisconnectMeets circuit ref
  | .movePinToNet ref netId => MoveMeets circuit ref netId
  | .splitNet _ take => LeavesAPin circuit take []
  | _ => True

theorem keepsDocument_edited {circuit after : CircuitJson} {edit : KernelEdit}
    (h : WellFormed circuit) (hs : edited circuit edit = some after) :
    KeepsDocument circuit after ↔ LeavesPins circuit edit := by
  cases edit with
  | setDesignator => exact iff_true_intro (keepsDocument_setDesignator h hs)
  | setValue => exact iff_true_intro (keepsDocument_setValue h hs)
  | setNetName => exact iff_true_intro (keepsDocument_setNetName h hs)
  | connectPins => exact iff_true_intro (keepsDocument_connectPins h hs)
  | disconnectPin => exact keepsDocument_disconnectPin h hs
  | movePinToNet => exact keepsDocument_movePinToNet h hs
  | splitNet => exact keepsDocument_splitNet h hs
  | addComponent => exact iff_true_intro (keepsDocument_addComponent h hs)
  | deleteComponent => exact iff_true_intro (keepsDocument_deleteComponent h hs)
  | duplicateComponents => exact iff_true_intro (keepsDocument_duplicateComponents h hs)

theorem netId_eq_of_keys {circuit : CircuitJson}
    (hkeys : ((pinsOf circuit).map Prod.fst).Nodup) {key : PinRef} {netId netId' : Text}
    (h : (key, netId) ∈ pinsOf circuit) (h' : (key, netId') ∈ pinsOf circuit) : netId = netId' :=
  congrArg Prod.snd (List.inj_on_of_nodup_map hkeys h h' rfl)

theorem nodup_pinsOn {circuit : CircuitJson} (hkeys : ((pinsOf circuit).map Prod.fst).Nodup)
    (netId : Text) : (pinsOn circuit netId).Nodup := by
  refine List.Sublist.nodup ?_ hkeys
  rw [pinsOn, pinsOf, List.map_flatMap]
  refine List.Sublist.flatMap_right circuit.components fun c _ => ?_
  rw [List.map_map]
  exact List.filter_sublist.map _

/-- Where no key occurs twice, an edit that goes through leaves its pins. -/
theorem leavesPins_of_keys {circuit after : CircuitJson} {edit : KernelEdit}
    (hkeys : ((pinsOf circuit).map Prod.fst).Nodup) (hs : edited circuit edit = some after) :
    LeavesPins circuit edit := by
  cases edit with
  | disconnectPin ref =>
    intro c found hfind
    refine .inr fun key hk netId hpin => .inl ?_
    rw [List.mem_singleton.mp hk] at hpin
    rw [netId_eq_of_keys hkeys hpin (findPin_ok hfind)]
    exact List.mem_singleton_self _
  | movePinToNet ref netId =>
    intro c found hfind
    refine .inr fun key hk netId hpin => .inl ?_
    rw [List.mem_singleton.mp hk] at hpin
    rw [netId_eq_of_keys hkeys hpin (findPin_ok hfind)]
    exact List.mem_cons_of_mem _ (List.mem_singleton_self _)
  | splitNet netId take =>
    obtain ⟨-, hon, -, hlen⟩ := splitNet_result hs
    intro key hk netId' hpin
    rw [netId_eq_of_keys hkeys hpin (mem_pinsOn.mp (hon key hk))]
    refine .inr ?_
    by_contra hnone
    refine hlen (le_antisymm ?_ ?_)
    · exact ((List.nodup_dedup take).subperm
        fun k hk => hon k (List.mem_dedup.mp hk)).length_le
    · refine ((nodup_pinsOn hkeys netId).subperm fun k hk => ?_).length_le
      by_contra hout
      exact hnone ⟨k, fun ht => hout (List.mem_dedup.mpr ht), mem_pinsOn.mp hk⟩
  | _ => trivial

/-- Over any run of edits, every edit keeps the document exactly if every edit leaves a
pin on the nets it does not look at. -/
theorem edits_keep_document {circuit : CircuitJson} (h : WellFormed circuit)
    (edits : List KernelEdit) :
    Along edited (fun before _ after => KeepsDocument before after) circuit edits ↔
      Along edited (fun before edit _ => LeavesPins before edit) circuit edits :=
  along_iff (fun _ _ _ => keepsDocument_edited) (fun _ _ _ _ _ hk => hk.wellFormed) h edits

end

/-- Two resistors in parallel. -/
def parallelBoard : CircuitJson where
  components := [
    { id := "r1".toList, type := .resistor, designator := "R1".toList,
      pins := [⟨"1".toList, "a".toList⟩, ⟨"2".toList, "b".toList⟩] },
    { id := "r2".toList, type := .resistor, designator := "R2".toList,
      pins := [⟨"1".toList, "a".toList⟩, ⟨"2".toList, "b".toList⟩] }]
  nets := [{ id := "a".toList, name := "A".toList }, { id := "b".toList, name := "B".toList }]

theorem edits_keep_document_parallelBoard :
    Along edited (fun before _ after => KeepsDocument before after) parallelBoard
      [.disconnectPin ⟨"r1".toList, "1".toList⟩, .deleteComponent "r2".toList] :=
  (edits_keep_document ⟨by decide, by decide, by decide, by decide, by decide⟩ _).mpr
    ⟨fun _ hs => leavesPins_of_keys (by decide) hs, fun _ _ => trivial, trivial⟩

/-- A resistor whose pin `1` is there twice, on two nets. -/
def doubledBoard : CircuitJson where
  components := [
    { id := "r1".toList, type := .resistor, designator := "R1".toList,
      pins := [⟨"1".toList, "a".toList⟩, ⟨"1".toList, "b".toList⟩] },
    { id := "r2".toList, type := .resistor, designator := "R2".toList,
      pins := [⟨"1".toList, "a".toList⟩, ⟨"2".toList, "a".toList⟩] }]
  nets := [{ id := "a".toList, name := "A".toList }, { id := "b".toList, name := "B".toList }]

/-- Taking pin `1` off net `a` takes both of them, and leaves net `b` with nothing on it. -/
theorem net_left_empty :
    ¬ ∀ (circuit : CircuitJson) (edits : List KernelEdit), WellFormed circuit →
      Along edited (fun before _ after => KeepsDocument before after) circuit edits := by
  intro hall
  have hkeeps := (hall doubledBoard [.disconnectPin ⟨"r1".toList, "1".toList⟩]
    ⟨by decide, by decide, by decide, by decide, by decide⟩).1 _ rfl
  have hempty := hkeeps.noneEmptied { id := "b".toList, name := "B".toList } (by decide) ?_
  · exact hempty.2 ⟨⟨"r1".toList, "1".toList⟩, by decide⟩
  · rintro ⟨key, hkey⟩
    have hnone : ∀ e ∈ pinsOf { doubledBoard with
        components := movePins doubledBoard ⟨"r1".toList, "1".toList⟩ "n1".toList },
        e.2 ≠ "b".toList := by decide
    exact hnone _ hkey rfl

end CircuitForge
