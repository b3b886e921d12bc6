/-
Copies are electrically separate.

The pins of the copies meet where those of the originals do, and reach the rest of the design on
the marked nets alone.  An expression reaches it by name as well: where the copy's pattern finds
the reference the note reports it, and where it does not the copy still reads the original's node.
-/
import CircuitForge.Editor.CopiedParts
import CircuitForge.Editor.NetNames

namespace CircuitForge

open Js

section

variable [Runtime]

/-! ## Separate copies -/

/-- The fresh nets that the copies meet on, by the net of the originals. -/
def travelling (circuit : CircuitJson) (ids : List Text) : Map Text Text :=
  let selected := netIdsOf (selection circuit ids)
  Map.fill id (fun was => mintedId circuit (selected.idxOf was))
    (selected.filter fun was => was ∉ sharedNets circuit ∧ 2 ≤ selected.count was) []

/-- The references that the copy's pattern finds in an expression. -/
def soleRefs (expr : Text) : List Text := (rewriteNodes [] [] (expr.length + 1) false expr).2

/-- `stillReaching`: what the copies still read, as the note lists it. -/
def stillReaching (circuit : CircuitJson) (ids : List Text) : List Text :=
  match copyAll (sharedNets circuit) (insideCounts (sharedNets circuit) (selection circuit ids))
      { next := circuit } (selection circuit ids) with
  | .error _ => []
  | .ok st => (st.next.components.flatMap fun c =>
      (rewriteValue (sharedNets circuit) st c).2).eraseDups

/-- A net that a sheet wires rather than marks. -/
def isSignal (net : Net) : Bool := !net.isGround && !net.isPower

/-- The line of the note about a reference. -/
def readsNodePhrase (designator ref : Text) : Text := designator ++ " reads node ".toList ++ ref

/-- The copies stand apart from the design they were copied from. -/
structure CopiesApart (circuit after : CircuitJson) (originals copies : List Component)
    (reaching : List Text) : Prop where
  /-- A copy has the pins of its original. -/
  pinIds : copies.map (fun c => c.pins.map PinConnection.pinId) =
    originals.map fun c => c.pins.map PinConnection.pinId
  /-- Two copied pins share a net where their originals do. -/
  meet : ∀ (i j : Nat) (was was' now now' : Text), i ≠ j →
    (netIdsOf originals)[i]? = some was → (netIdsOf originals)[j]? = some was' →
    (netIdsOf copies)[i]? = some now → (netIdsOf copies)[j]? = some now' →
    (now = now' ↔ was = was')
  /-- A copied pin is on a net that was there before where its original is on it and the sheet
  marks it. -/
  marked : ∀ (i : Nat) (was now : Text), (netIdsOf originals)[i]? = some was →
    (netIdsOf copies)[i]? = some now →
    now ∈ circuit.nets.map Net.id → was = now ∧ now ∈ sharedNets circuit
  /-- What a copied expression still reads of the design is reported. -/
  reads : ∀ copy ∈ copies, copy.type = .bsource → ∀ expr, copy.value = some expr →
    ∀ arg ∈ exprArgs expr, ∀ net ∈ circuit.nets, isSignal net = true →
      readNet after.nets arg = some net →
      ∃ ref, readNet after.nets ref = some net ∧ readsNodePhrase copy.designator ref ∈ reaching

/-- The document with its copies: the original components and nets, and copies that stand apart. -/
def SeparateCopies (circuit after : CircuitJson) (ids reaching : List Text) : Prop :=
  ∃ copies fresh,
    after = { circuit with
      components := circuit.components ++ copies
      nets := circuit.nets ++ fresh } ∧
    CopiesApart circuit after (selection circuit ids) copies reaching

/-- An argument reads a net of the design, whatever fresh nets the copies bring. -/
def ReadsOld (circuit : CircuitJson) (ids : List Text) (arg : Text) (net : Net) : Prop :=
  readNet circuit.nets arg = some net ∧
    ∀ q, IsKept circuit (selection circuit ids) q → mintedId circuit q ≠ Runtime.lower arg

/-- Whatever signal net an expression of the selection reads past the copy's pattern, it also
names alone, where the note sees it. -/
def PassedOverNamed (circuit : CircuitJson) (ids : List Text) : Prop :=
  ∀ original ∈ selection circuit ids, original.type = .bsource →
    ∀ expr, original.value = some expr →
      ∀ arg ∈ exprPassedOver (sharedNets circuit) (travelling circuit ids) expr,
        ∀ net, isSignal net = true → ReadsOld circuit ids arg net →
          ∃ ref ∈ soleRefs expr, ref ∉ sharedNets circuit ∧
            (travelling circuit ids).get? ref = none ∧ ReadsOld circuit ids ref net

theorem get?_travelling (circuit : CircuitJson) (ids : List Text) (was : Text) :
    (travelling circuit ids).get? was =
      if was ∈ netIdsOf (selection circuit ids) ∧ was ∉ sharedNets circuit ∧
          ¬ ((insideCounts (sharedNets circuit) (selection circuit ids)).get? was).getD 0 < 2 then
        some (mintedId circuit ((netIdsOf (selection circuit ids)).idxOf was))
      else none := by
  rw [travelling, Map.get?_fill, Map.get?_nil, Option.or_none]
  set selected := netIdsOf (selection circuit ids) with hselected
  have hmem : was ∈ selected.filter (fun was => was ∉ sharedNets circuit ∧ 2 ≤ selected.count was) ↔
      was ∈ selected ∧ was ∉ sharedNets circuit ∧
        ¬ ((insideCounts (sharedNets circuit) (selection circuit ids)).get? was).getD 0 < 2 := by
    rw [List.mem_filter, decide_eq_true_eq]
    refine and_congr_right fun _ => and_congr_right fun hs => ?_
    rw [insideCounts_count _ hs, Nat.not_lt]
  cases hf : (selected.filter fun was => was ∉ sharedNets circuit ∧
      2 ≤ selected.count was).reverse.find? fun x => decide (id x = was) with
  | none =>
    rw [if_neg fun h => List.find?_eq_none.mp hf was (List.mem_reverse.mpr (hmem.mpr h))
      (decide_eq_true rfl)]
    rfl
  | some x =>
    have hx := List.find?_some hf
    rw [decide_eq_true_eq] at hx
    obtain rfl : x = was := hx
    rw [if_pos (hmem.mp (List.mem_reverse.mp (List.mem_of_find?_eq_some hf)))]
    rfl

/-- A fresh net that copies meet on is one of those kept. -/
theorem travelling_kept {circuit : CircuitJson} {ids : List Text} {was to' : Text}
    (h : (travelling circuit ids).get? was = some to') :
    ∃ q, IsKept circuit (selection circuit ids) q ∧ mintedId circuit q = to' := by
  rw [get?_travelling] at h
  split_ifs at h with hw
  obtain ⟨hmem, hs, hi⟩ := hw
  refine ⟨_, .inr ⟨_, was, List.getElem?_idxOf hmem, hs, ?_⟩, Option.some.inj h⟩
  rw [slot, if_neg hi]

theorem travelling_fresh {circuit : CircuitJson} {ids : List Text} {was to' : Text}
    (h : truthy ((travelling circuit ids).get? was) = some to') : ∃ i, to' = freshId i := by
  obtain ⟨q, -, rfl⟩ := travelling_kept (truthy_eq_some.mp h).1
  exact exists_freshId circuit q

theorem travelling_none {circuit : CircuitJson} {ids : List Text} {was : Text} :
    truthy ((travelling circuit ids).get? was) = none ↔
      (travelling circuit ids).get? was = none := by
  rw [truthy_eq_none]
  refine or_iff_left fun h => ?_
  obtain ⟨q, -, he⟩ := travelling_kept h
  obtain ⟨i, hi⟩ := exists_freshId circuit q
  rw [hi] at he
  exact List.cons_ne_nil _ _ he

/-- An expression as the copy has it, and the references that stay. -/
def copiedExpr (circuit : CircuitJson) (ids : List Text) (expr : Text) : Text × List Text :=
  rewriteNodes (sharedNets circuit) (travelling circuit ids) (expr.length + 1) false expr

theorem mem_copiedExpr {circuit : CircuitJson} {ids : List Text} {expr ref : Text} :
    ref ∈ (copiedExpr circuit ids expr).2 ↔
      ref ∈ soleRefs expr ∧ ref ∉ sharedNets circuit ∧
        (travelling circuit ids).get? ref = none := by
  rw [copiedExpr, rewriteNodes_reads, List.mem_filter, decide_eq_true_eq, travelling_none, soleRefs]

/-- What the generator reads of the design in a copied expression stands alone there, or passes
the copy's pattern. -/
theorem copiedExpr_args {circuit : CircuitJson} {ids : List Text}
    (hids : ∀ net ∈ circuit.nets, net.id ≠ []) (expr : Text) :
    (∀ arg ∈ exprArgs (copiedExpr circuit ids expr).1, ∀ net, ReadsOld circuit ids arg net →
      arg ∈ exprPassedOver (sharedNets circuit) (travelling circuit ids) expr ∨
        arg ∈ (copiedExpr circuit ids expr).2) ∧
      ∀ arg ∈ exprPassedOver (sharedNets circuit) (travelling circuit ids) expr,
        arg ∈ exprArgs (copiedExpr circuit ids expr).1 := by
  obtain ⟨hargs, hpassed⟩ := exprArgs_rewriteNodes (sharedNets circuit)
    (fun ref to' (h : truthy ((travelling circuit ids).get? ref) = some to') => travelling_fresh h)
    expr (Nat.lt_succ_self expr.length)
  refine ⟨fun arg harg net hold => ?_, hpassed⟩
  rcases hargs arg harg with hp | hr | rfl | ⟨ref, hto⟩
  · exact .inl hp
  · exact .inr hr
  · rw [ReadsOld, readNet_nil hids] at hold
    cases hold.1
  · obtain ⟨q, hq, rfl⟩ := travelling_kept (truthy_eq_some.mp hto).1
    exact absurd (lower_mintedId circuit q).symm (hold.2 q hq)

/-! ## A whole duplication -/

theorem rewriteValue_old {shared : List Text} {st : Copying} {c : Component}
    (h : c.id ∉ st.created) : rewriteValue shared st c = (c.value, []) := by
  rw [rewriteValue]
  cases c.value with
  | none => rfl
  | some value =>
    simp only
    rw [if_neg fun hc => h hc.1]

/-- What becomes of the value of a copy, whether or not it mentions a node. -/
theorem rewriteValue_copy {shared : List Text} {st : Copying} {c : Component} {value : Text}
    (h : c.id ∈ st.created) (hv : c.value = some value) :
    rewriteValue shared st c =
      (some (rewriteNodes shared st.netFor (value.length + 1) false value).1,
        (rewriteNodes shared st.netFor (value.length + 1) false value).2.map
          (readsNodePhrase c.designator)) := by
  rw [rewriteValue, hv]
  simp only
  cases hr : readsNode false value with
  | true =>
    rw [if_pos ⟨h, rfl⟩]
    rfl
  | false =>
    rw [if_neg fun hc => Bool.false_ne_true hc.2, rewriteNodes_of_readsNode value _ _ hr]
    rfl

omit [Runtime] in
/-- The line of the note says which part reads which reference. -/
theorem readsNodePhrase_inj {d d' ref ref' : Text} (hd : Solid d) (hd' : Solid d')
    (h : readsNodePhrase d ref = readsNodePhrase d' ref') : d = d' ∧ ref = ref' := by
  have hfirst {d : Text} (hd : Solid d) (ref : Text) :
      firstToken (readsNodePhrase d ref) = d ∧ afterToken (readsNodePhrase d ref) =
        " reads node ".toList ++ ref := by
    have hblank : BlankLed (" reads node ".toList ++ ref) :=
      blankLed_cons.mpr (by decide)
    rw [readsNodePhrase, List.append_assoc]
    exact ⟨firstToken_of_solid hd hblank, afterToken_of_solid hd hblank⟩
  obtain ⟨h₁, h₂⟩ := hfirst hd ref
  obtain ⟨h₁', h₂'⟩ := hfirst hd' ref'
  rw [h] at h₁ h₂
  exact ⟨h₁.symm.trans h₁', List.append_cancel_left (h₂.symm.trans h₂')⟩

/-- A successful duplication is a run of copies and what is made of it at the end. -/
theorem duplicateComponents_run {circuit after : CircuitJson} {ids : List Text}
    (hs : (duplicateComponents circuit ids).circuit? = some after) :
    ∃ st, copyAll (sharedNets circuit)
        (insideCounts (sharedNets circuit) (selection circuit ids)) { next := circuit }
        (selection circuit ids) = .ok st ∧
      after = finishCopies circuit (sharedNets circuit) st := by
  unfold duplicateComponents at hs
  simp only at hs
  split at hs
  case h_1 => cases hs
  case h_2 =>
    split at hs
    case isTrue hnone =>
      cases hs
      have hempty : selection circuit ids = [] := List.length_eq_zero_iff.mp hnone
      refine ⟨{ next := circuit }, by rw [hempty]; rfl, ?_⟩
      have hvalues : circuit.components.map (fun c =>
          { c with value := (rewriteValue (sharedNets circuit) { next := circuit } c).1 }) =
          circuit.components := by
        refine (List.map_congr_left fun c _ => ?_).trans (List.map_id _)
        rw [rewriteValue_old List.not_mem_nil]
        rfl
      have hnets : circuit.nets.filter (fun n => n.id ∈ (circuit.components.flatMap fun c =>
          c.pins.map PinConnection.netId) ∨ n.id ∈ circuit.nets.map Net.id) = circuit.nets :=
        List.filter_eq_self.mpr fun n hn => decide_eq_true (.inr (List.mem_map_of_mem hn))
      rw [finishCopies, hvalues]
      exact congrArg (fun nets => { circuit with nets }) hnets.symm
    case isFalse =>
      split at hs
      case h_1 => cases hs
      case h_2 st hst =>
        cases hs
        exact ⟨st, hst, rfl⟩

section Run

variable {circuit : CircuitJson} {ids : List Text} {st : Copying} {copies : List Component}

/-- A copy is none of the parts that were there. -/
theorem notMem_created (hon : CopiesOn circuit st)
    (hclone : Cloned circuit (selection circuit ids) copies st) {c : Component}
    (hc : c ∈ circuit.components) : c.id ∉ st.created := by
  have hnodup := hon.wellFormed.componentIds
  rw [hclone.rest, List.map_append] at hnodup
  rw [hclone.created]
  exact fun hm => (List.nodup_append.mp hnodup).2.2 _ (List.mem_map_of_mem hc) _ hm rfl

/-- What a part comes to carry at the end. -/
def finished (circuit : CircuitJson) (st : Copying) (c : Component) : Component :=
  { c with value := (rewriteValue (sharedNets circuit) st c).1 }

theorem finishCopies_eq (hon : CopiesOn circuit st)
    (hclone : Cloned circuit (selection circuit ids) copies st) {nets : List Net}
    (hnets : (finishCopies circuit (sharedNets circuit) st).nets = nets) :
    finishCopies circuit (sharedNets circuit) st =
      { circuit with
        components := circuit.components ++ copies.map (finished circuit st)
        nets } := by
  have hold : circuit.components.map (finished circuit st) = circuit.components := by
    refine (List.map_congr_left fun c hc => ?_).trans (List.map_id _)
    rw [finished, rewriteValue_old (notMem_created hon hclone hc)]
    rfl
  have hcomponents : st.next.components.map (finished circuit st) =
      circuit.components ++ copies.map (finished circuit st) := by
    rw [hclone.rest, List.map_append, hold]
  rw [← hnets, ← hcomponents, finishCopies]
  rw [hclone.rest]
  rfl

theorem netFor_travelling
    (hcopied : Copied circuit (sharedNets circuit)
      (insideCounts (sharedNets circuit) (selection circuit ids)) (netIdsOf (selection circuit ids))
      (selection circuit ids) st) (expr : Text) :
    rewriteNodes (sharedNets circuit) st.netFor (expr.length + 1) false expr =
      copiedExpr circuit ids expr :=
  rewriteNodes_congr (fun was => (hcopied.netFor was).trans (get?_travelling circuit ids was).symm)
    expr _ _

/-- Copies with one designator are one copy. -/
theorem copy_eq (hon : CopiesOn circuit st)
    (hclone : Cloned circuit (selection circuit ids) copies st) {c c' : Component}
    (hc : c ∈ copies) (hc' : c' ∈ copies) (h : c.designator = c'.designator) : c = c' := by
  have hnodup := hon.wellFormed.designators
  rw [hclone.rest, List.map_append] at hnodup
  exact List.inj_on_of_nodup_map (List.nodup_append.mp hnodup).2.1 hc hc' (congrArg _ h)

/-- The note lists what a copy still reads. -/
theorem mem_stillReaching
    (hst : copyAll (sharedNets circuit) (insideCounts (sharedNets circuit) (selection circuit ids))
      { next := circuit } (selection circuit ids) = .ok st)
    (hon : CopiesOn circuit st) (hclone : Cloned circuit (selection circuit ids) copies st)
    (hcopied : Copied circuit (sharedNets circuit)
      (insideCounts (sharedNets circuit) (selection circuit ids)) (netIdsOf (selection circuit ids))
      (selection circuit ids) st)
    {copy : Component} (hcopy : copy ∈ copies) {expr : Text} (hv : copy.value = some expr)
    (ref : Text) :
    readsNodePhrase copy.designator ref ∈ stillReaching circuit ids ↔
      ref ∈ (copiedExpr circuit ids expr).2 := by
  have hvalue {c : Component} (hc : c ∈ copies) {value : Text} (hcv : c.value = some value) :
      (rewriteValue (sharedNets circuit) st c).2 =
        (copiedExpr circuit ids value).2.map (readsNodePhrase c.designator) := by
    have hcreated : c.id ∈ st.created := hclone.created ▸ List.mem_map_of_mem hc
    rw [rewriteValue_copy hcreated hcv, netFor_travelling hcopied]
  rw [stillReaching, hst]
  simp only [List.mem_eraseDups, List.mem_flatMap]
  constructor
  · rintro ⟨c, hc, hm⟩
    rw [hclone.rest] at hc
    rcases List.mem_append.mp hc with hc | hc
    · rw [rewriteValue_old (notMem_created hon hclone hc)] at hm
      exact absurd hm List.not_mem_nil
    cases hcv : c.value with
    | none =>
      rw [rewriteValue, hcv] at hm
      exact absurd hm List.not_mem_nil
    | some value =>
      rw [hvalue hc hcv] at hm
      obtain ⟨ref', href', he⟩ := List.mem_map.mp hm
      obtain ⟨_, -, hoc⟩ := (forall₂_sides hclone.parts).1 c hc
      obtain ⟨_, -, hocopy⟩ := (forall₂_sides hclone.parts).1 copy hcopy
      obtain ⟨hd, rfl⟩ := readsNodePhrase_inj hoc.designator hocopy.designator he
      obtain rfl := copy_eq hon hclone hc hcopy hd
      rw [hv, Option.some.injEq] at hcv
      rwa [hcv]
  · intro href
    refine ⟨copy, ?_, ?_⟩
    · rw [hclone.rest]
      exact List.mem_append_right _ hcopy
    · rw [hvalue hcopy hv]
      exact List.mem_map_of_mem href

/-- What the copies still read is reported where every signal net they read past the copy's
pattern is also named alone. -/
theorem reads_iff {after : CircuitJson} {places : List Nat}
    (hids : ∀ net ∈ circuit.nets, net.id ≠ [])
    (hst : copyAll (sharedNets circuit) (insideCounts (sharedNets circuit) (selection circuit ids))
      { next := circuit } (selection circuit ids) = .ok st)
    (hon : CopiesOn circuit st) (hclone : Cloned circuit (selection circuit ids) copies st)
    (hcopied : Copied circuit (sharedNets circuit)
      (insideCounts (sharedNets circuit) (selection circuit ids)) (netIdsOf (selection circuit ids))
      (selection circuit ids) st)
    (hnets : after.nets = circuit.nets ++ places.map (mintedNet circuit))
    (hkept : ∀ q, q ∈ places ↔ IsKept circuit (selection circuit ids) q) :
    (∀ copy ∈ copies.map (finished circuit st), copy.type = .bsource →
      ∀ expr, copy.value = some expr → ∀ arg ∈ exprArgs expr, ∀ net ∈ circuit.nets,
        isSignal net = true → readNet after.nets arg = some net →
        ∃ ref, readNet after.nets ref = some net ∧
          readsNodePhrase copy.designator ref ∈ stillReaching circuit ids) ↔
      PassedOverNamed circuit ids := by
  have hread {arg : Text} {net : Net} (hnet : net ∈ circuit.nets) :
      readNet after.nets arg = some net ↔ ReadsOld circuit ids arg net := by
    rw [hnets, ← and_iff_left_of_imp (a := readNet _ arg = some net) fun _ => hnet, readNet_minted,
      ReadsOld]
    simp only [hkept]
  have hvalue {c : Component} (hc : c ∈ copies) {value : Text} (hcv : c.value = some value) :
      (finished circuit st c).value = some (copiedExpr circuit ids value).1 := by
    have hcreated : c.id ∈ st.created := hclone.created ▸ List.mem_map_of_mem hc
    rw [finished, rewriteValue_copy hcreated hcv, netFor_travelling hcopied]
  constructor
  · intro h original ho htype expr hexpr arg harg net hsignal hold
    obtain ⟨copy, hcopy, hof⟩ := (forall₂_sides hclone.parts).2 original ho
    have hv : copy.value = some expr := hof.value.trans hexpr
    have hnet : net ∈ circuit.nets := by
      have hfound := hold.1
      rw [readNet_eq] at hfound
      exact List.mem_reverse.mp (List.mem_of_find?_eq_some hfound)
    obtain ⟨ref, href, hphrase⟩ := h (finished circuit st copy) (List.mem_map_of_mem hcopy)
      (hof.type.trans htype) _ (hvalue hcopy hv) arg ((copiedExpr_args hids expr).2 arg harg) net
      hnet hsignal ((hread hnet).mpr hold)
    have hreported : ref ∈ (copiedExpr circuit ids expr).2 :=
      (mem_stillReaching hst hon hclone hcopied hcopy hv ref).mp hphrase
    obtain ⟨hsole, hs, hnone⟩ := mem_copiedExpr.mp hreported
    exact ⟨ref, hsole, hs, hnone, (hread hnet).mp href⟩
  · rintro h copy' hcopy' htype expr' hexpr' arg harg net hnet hsignal hreads
    obtain ⟨copy, hcopy, rfl⟩ := List.mem_map.mp hcopy'
    obtain ⟨original, ho, hof⟩ := (forall₂_sides hclone.parts).1 copy hcopy
    cases hv : copy.value with
    | none =>
      rw [finished, rewriteValue, hv] at hexpr'
      cases hexpr'
    | some expr =>
      rw [hvalue hcopy hv] at hexpr'
      obtain rfl := Option.some.inj hexpr'
      have hold : ReadsOld circuit ids arg net := (hread hnet).mp hreads
      rcases (copiedExpr_args hids expr).1 arg harg net hold with hpassed | hreported
      · obtain ⟨ref, hsole, hs, hnone, href⟩ := h original ho (hof.type.symm.trans htype) expr
          (hof.value.symm.trans hv) arg hpassed net hsignal hold
        exact ⟨ref, (hread hnet).mpr href,
          (mem_stillReaching hst hon hclone hcopied hcopy hv ref).mpr
            (mem_copiedExpr.mpr ⟨hsole, hs, hnone⟩)⟩
      · exact ⟨arg, hreads, (mem_stillReaching hst hon hclone hcopied hcopy hv arg).mpr hreported⟩

/-- Whatever the expressions read, the copies stand apart pin by pin. -/
theorem separate_pins
    (hclone : Cloned circuit (selection circuit ids) copies st)
    (hcopied : Copied circuit (sharedNets circuit)
      (insideCounts (sharedNets circuit) (selection circuit ids)) (netIdsOf (selection circuit ids))
      (selection circuit ids) st) :
    ((copies.map (finished circuit st)).map fun c => c.pins.map PinConnection.pinId) =
        (selection circuit ids).map (fun c => c.pins.map PinConnection.pinId) ∧
      netIdsOf (copies.map (finished circuit st)) =
        (netIdsOf (selection circuit ids)).mapIdx (landing circuit (sharedNets circuit)
          (insideCounts (sharedNets circuit) (selection circuit ids))
          (netIdsOf (selection circuit ids))) := by
  constructor
  · rw [List.map_map]
    have hparts := hclone.parts
    clear hclone hcopied
    generalize selection circuit ids = originals at hparts
    induction hparts with
    | nil => rfl
    | cons h _ ih =>
      rw [List.map_cons, List.map_cons, ih]
      exact congrArg (· :: _) h.pinIds
  · have hpins := hcopied.pins
    rw [hclone.rest, netIdsOf_append] at hpins
    rw [← List.append_cancel_left hpins, netIdsOf, netIdsOf, List.flatMap_map]
    rfl

end Run

/-! ## Where copies are separate -/

/-- The note of a duplication is made of the references still read. -/
theorem duplicateComponents_note {circuit after : CircuitJson} {ids created derived : List Text}
    {note : Option Text}
    (h : duplicateComponents circuit ids = .changed after note created derived) :
    note = duplicateNote { next := after, created } (stillReaching circuit ids) := by
  unfold duplicateComponents at h
  simp only at h
  split at h
  case h_1 => cases h
  case h_2 =>
    split at h
    case isTrue => cases h
    case isFalse =>
      split at h
      case h_1 => cases h
      case h_2 st hst =>
        cases h
        rw [stillReaching, selection, hst]
        rfl

theorem separateCopies_iff {circuit after : CircuitJson} {ids : List Text}
    (hw : WellFormed circuit) (hids : ∀ net ∈ circuit.nets, net.id ≠ [])
    (hs : (duplicateComponents circuit ids).circuit? = some after) :
    SeparateCopies circuit after ids (stillReaching circuit ids) ↔ PassedOverNamed circuit ids := by
  obtain ⟨st, hst, rfl⟩ := duplicateComponents_run hs
  have hon := (CopiesOn.start hw).copyAll (fun _ => mem_sharedNets) hst
  obtain ⟨copies, hclone⟩ := (Cloned.start circuit).copyAll hst
  have hcopied := (Copied.start circuit _ _ _).copyAll hst
  obtain ⟨places, -, hnets, hkept⟩ := hcopied.finish_nets
  have hafter := finishCopies_eq hon hclone hnets
  have hreads := reads_iff hids hst hon hclone hcopied hnets hkept
  obtain ⟨hpinIds, hnetIds⟩ := separate_pins hclone hcopied
  have hlanded {i : Nat} {was now : Text} (hi : (netIdsOf (selection circuit ids))[i]? = some was)
      (hn : (netIdsOf (copies.map (finished circuit st)))[i]? = some now) :
      landing circuit (sharedNets circuit) (insideCounts (sharedNets circuit)
        (selection circuit ids)) (netIdsOf (selection circuit ids)) i was = now := by
    rw [hnetIds, List.getElem?_mapIdx, hi] at hn
    exact Option.some.inj hn
  constructor
  · rintro ⟨copies', fresh, he, hsep⟩
    have hcopies : copies' = copies.map (finished circuit st) :=
      List.append_cancel_left (congrArg CircuitJson.components (he.symm.trans hafter))
    subst hcopies
    exact hreads.mp hsep.reads
  · intro hnamed
    refine ⟨copies.map (finished circuit st), _, hafter, hpinIds, ?_, ?_, hreads.mpr hnamed⟩
    · intro i j was was' now now' hij hi hj hni hnj
      rw [← hlanded hi hni, ← hlanded hj hnj]
      exact landing_eq_iff hi hj hij
    · intro i was now hi hni hold
      rw [← hlanded hi hni, landing] at hold ⊢
      by_cases hshared : was ∈ sharedNets circuit
      · rw [if_pos hshared]
        exact ⟨rfl, hshared⟩
      · rw [if_neg hshared] at hold
        exact absurd hold (mintedId_fresh circuit _)

/-- The copies stand apart from the design, and the note reports what they still read of it,
where every signal net that an expression reads past the copy's pattern is also named alone. -/
theorem duplicateComponents_separate_iff {circuit after : CircuitJson} {ids : List Text}
    (hw : WellFormed circuit) (hids : ∀ net ∈ circuit.nets, net.id ≠ [])
    (hs : (duplicateComponents circuit ids).circuit? = some after) :
    (∀ note created derived, duplicateComponents circuit ids = .changed after note created derived →
        note = duplicateNote { next := after, created } (stillReaching circuit ids)) ∧
      (SeparateCopies circuit after ids (stillReaching circuit ids) ↔
        PassedOverNamed circuit ids) :=
  ⟨fun _ _ _ h => duplicateComponents_note h, separateCopies_iff hw hids hs⟩

end

/-- A source that doubles the node between two resistors. -/
def stageBoard : CircuitJson where
  components := [
    { id := "b1".toList, type := .bsource, designator := "B1".toList,
      value := some "V=v(MID)*2 + v(mid)".toList,
      pins := [⟨"+".toList, "out".toList⟩, ⟨"-".toList, "gnd".toList⟩] },
    { id := "r1".toList, type := .resistor, designator := "R1".toList,
      pins := [⟨"1".toList, "in".toList⟩, ⟨"2".toList, "mid".toList⟩] },
    { id := "r2".toList, type := .resistor, designator := "R2".toList,
      pins := [⟨"1".toList, "mid".toList⟩, ⟨"2".toList, "gnd".toList⟩] }]
  nets := [{ id := "in".toList, name := "IN".toList, isPower := true },
    { id := "mid".toList, name := "MID".toList }, { id := "out".toList, name := "OUT".toList },
    { id := "gnd".toList, name := "GND".toList, isGround := true }]

theorem duplicateComponents_separate_stageBoard :
    ∃ after, (duplicateComponents stageBoard
        (["b1", "r1", "r2"].map String.toList)).circuit? = some after ∧
      SeparateCopies stageBoard after (["b1", "r1", "r2"].map String.toList)
        (stillReaching stageBoard (["b1", "r1", "r2"].map String.toList)) := by
  have hnone : ∀ original ∈ selection stageBoard (["b1", "r1", "r2"].map String.toList),
      original.value.all (fun expr => (exprPassedOver (sharedNets stageBoard)
        (travelling stageBoard (["b1", "r1", "r2"].map String.toList)) expr).isEmpty) = true := by
    decide
  refine ⟨_, rfl, (duplicateComponents_separate_iff
    ⟨by decide, by decide, by decide, by decide, by decide⟩ (by decide) rfl).2.mpr ?_⟩
  intro original ho _ expr hexpr arg harg
  have hempty := hnone original ho
  rw [hexpr, Option.all_some, List.isEmpty_iff] at hempty
  rw [hempty] at harg
  exact absurd harg List.not_mem_nil

/-- A source that takes the difference of two nodes. -/
def differenceBoard : CircuitJson where
  components := [
    { id := "b1".toList, type := .bsource, designator := "B1".toList,
      value := some "V=v(mid,out)".toList,
      pins := [⟨"+".toList, "out".toList⟩, ⟨"-".toList, "gnd".toList⟩] },
    { id := "r1".toList, type := .resistor, designator := "R1".toList,
      pins := [⟨"1".toList, "mid".toList⟩, ⟨"2".toList, "gnd".toList⟩] }]
  nets := [{ id := "mid".toList, name := "MID".toList },
    { id := "out".toList, name := "OUT".toList },
    { id := "gnd".toList, name := "GND".toList, isGround := true }]

/-- The copy of the source still reads `mid` and `out` of the design, and no note says so. -/
theorem difference_stays_unreported :
    ¬ ∀ (circuit after : CircuitJson) (ids : List Text), WellFormed circuit →
      (∀ net ∈ circuit.nets, net.id ≠ []) →
      (duplicateComponents circuit ids).circuit? = some after →
      SeparateCopies circuit after ids (stillReaching circuit ids) := by
  intro hall
  have hw : WellFormed differenceBoard := ⟨by decide, by decide, by decide, by decide, by decide⟩
  have hids : ∀ net ∈ differenceBoard.nets, net.id ≠ [] := by decide
  have hnamed := (separateCopies_iff hw hids rfl).mp
    (hall differenceBoard _ ["b1".toList] hw hids rfl)
  have hfresh : ∀ q, IsKept differenceBoard (selection differenceBoard ["b1".toList]) q →
      mintedId differenceBoard q ≠ Runtime.lower "mid".toList := by
    intro q _ he
    obtain ⟨i, hi⟩ := exists_freshId differenceBoard q
    rw [hi, show Runtime.lower "mid".toList = "mid".toList by decide] at he
    exact absurd (List.cons.inj he).1 (by decide)
  obtain ⟨ref, href, -⟩ := hnamed _ (List.mem_singleton_self _) rfl _ rfl "mid".toList (by decide)
    { id := "mid".toList, name := "MID".toList } rfl ⟨by decide, hfresh⟩
  have hnil : soleRefs "V=v(mid,out)".toList = [] := by decide
  rw [hnil] at href
  exact absurd href List.not_mem_nil

end CircuitForge
