/-
What the resolver of a fab profile promises.

An override only makes a board easier to build, what is not taken over is written down, and a
resolved profile is resolved to itself.  The one entry that can be lost quietly is a width for a
net that is called `__proto__`.
-/
import CircuitForge.Pcb.FabProfile
import Mathlib.Tactic.NormNum

namespace CircuitForge.Fab

open Js

variable {wr : Writing}

/-- How an adjustment begins. -/
def Subject.heading : Subject → Text
  | field .tier => "unknown fab tier".toList
  | s => s.name ++ [':']

/-- There is an adjustment about `subject`, and it begins with its name. -/
def Mentioned (notes : List Adjustment) (subject : Subject) : Prop :=
  ∃ note ∈ notes, note.subject = subject ∧ subject.heading <+: note.text

theorem Mentioned.mono {notes notes' : List Adjustment} {subject : Subject}
    (h : Mentioned notes subject) (hsub : notes ⊆ notes') : Mentioned notes' subject := by
  obtain ⟨note, hmem, hnote⟩ := h
  exact ⟨note, hsub hmem, hnote⟩

/-- A field is taken over as it was supplied; the entries of a map are looked at one by one. -/
def TakenOver (r : ResolvedFabProfile) : FabField → Supplied → Prop
  | .tier, v => v = .text r.tier.name
  | .floor f, v => v = .number (.finite (r.profile.floor f))
  | .passthrough f, v => ∃ q, r.profile.passthrough f = some q ∧ v = .number (.finite q)
  | .layers, v => ∃ c, r.profile.layers = some c ∧ v = .number (.finite c.count)
  | .gndPour, v => ∃ b, r.profile.gndPour = some b ∧ v = .boolean b
  | .perNetMinWidthMm, v => ∃ entries, v = .object entries

/-- A width is taken over as it was supplied. -/
def WidthTakenOver (r : ResolvedFabProfile) (e : Text × Entry) : Prop :=
  ∃ w kept, e.2 = .number (.finite w) ∧ r.profile.perNetMinWidthMm = some kept ∧
    kept.1.get? e.1 = some w

theorem keyed_asEntries {m : Map Text ℚ} (h : m.Keyed) :
    Map.Keyed (m.map fun e => (e.1, Entry.number (.finite e.2))) := by
  unfold Map.Keyed at *
  rwa [List.map_map]

/-- A profile with its tier as an input. -/
def toInput (tier : FabTier) (p : FabProfile) : FabProfileInput
  | .tier => some (.text tier.name)
  | .floor f => some (.number (.finite (p.floor f)))
  | .passthrough f => (p.passthrough f).map fun q => .number (.finite q)
  | .layers => p.layers.map fun c => .number (.finite c.count)
  | .gndPour => p.gndPour.map .boolean
  | .perNetMinWidthMm => p.perNetMinWidthMm.map fun kept => .object ⟨_, keyed_asEntries kept.2⟩

/-- What the resolver promises for an input. -/
structure Promised (wr : Writing) (raw : FabProfileInput) : Prop where
  floors : ∀ f, (resolveFabProfile wr raw).tier.limit f ≤
    (resolveFabProfile wr raw).profile.floor f
  complete : (∀ f, tierDefault f ≠ none →
      (resolveFabProfile wr raw).profile.passthrough f ≠ none) ∧
    (resolveFabProfile wr raw).profile.gndPour ≠ none
  widths : ∀ kept, (resolveFabProfile wr raw).profile.perNetMinWidthMm = some kept →
    ∀ e ∈ kept.1, (resolveFabProfile wr raw).profile.floor .minTraceWidthMm ≤ e.2
  disclosed : ∀ field v, raw field = some v → TakenOver (resolveFabProfile wr raw) field v ∨
    Mentioned (resolveFabProfile wr raw).adjustments (.field field)
  entries : ∀ entries, raw .perNetMinWidthMm = some (.object entries) → ∀ e ∈ entries.1,
    WidthTakenOver (resolveFabProfile wr raw) e ∨
      Mentioned (resolveFabProfile wr raw).adjustments (.net e.1)
  again : resolveFabProfile wr (toInput (resolveFabProfile wr raw).tier
      (resolveFabProfile wr raw).profile) =
    { profile := (resolveFabProfile wr raw).profile, tier := (resolveFabProfile wr raw).tier
      adjustments := [], unsupportedLayers := none }

/-! ## Numbers -/

theorem positive_eq_some {v : Supplied} {q : ℚ} :
    v.positive = some q ↔ v = .number (.finite q) ∧ 0 < q := by
  constructor
  · intro h
    cases v with
    | number n =>
      cases n with
      | finite p =>
        change (if 0 < p then some p else none) = some q at h
        split at h
        case isTrue hp =>
          obtain rfl := Option.some.inj h
          exact ⟨rfl, hp⟩
        case isFalse => cases h
      | infinite => cases h
      | nan => cases h
    | _ => cases h
  · rintro ⟨rfl, hq⟩
    exact if_pos hq

theorem entry_positive_eq_some {v : Entry} {q : ℚ} :
    v.positive = some q ↔ v = .number (.finite q) ∧ 0 < q := by
  cases v with
  | number n =>
    have h := positive_eq_some (v := .number n) (q := q)
    rw [Supplied.number.injEq] at h
    rw [Entry.number.injEq]
    exact h
  | other json => exact iff_of_false (fun h => nomatch h) fun h => nomatch h.1

theorem limit_pos (tier : FabTier) (f : FloorField) : 0 < tier.limit f := by
  cases tier <;> cases f <;> norm_num [FabTier.limit]

/-! ## One field -/

theorem resolveTier_name (wr : Writing) (tier : FabTier) :
    resolveTier wr (some (.text tier.name)) = (tier, []) := by
  cases tier <;> rfl

theorem resolveTier_disclosed (v : Supplied) :
    v = .text (resolveTier wr (some v)).1.name ∨
      Mentioned (resolveTier wr (some v)).2 (.field .tier) := by
  unfold resolveTier
  dsimp only
  split
  case h_1 tier hfind =>
    have h := List.find?_some hfind
    cases v with
    | text s => exact Or.inl (congrArg Supplied.text (of_decide_eq_true h).symm)
    | _ => cases h
  case h_2 => exact Or.inr ⟨_, List.mem_singleton.mpr rfl, rfl, _, rfl⟩

theorem mentioned_noteOn {subject : Subject} (h : subject ≠ .field .tier) (what : Text) :
    Mentioned [noteOn subject what] subject := by
  have hheading : subject.heading = subject.name ++ [':'] := by
    unfold Subject.heading
    split
    case h_1 => exact absurd rfl h
    case h_2 => rfl
  refine ⟨_, List.mem_singleton.mpr rfl, rfl, ' ' :: what, ?_⟩
  rw [hheading, List.append_assoc]
  rfl

theorem limit_le_resolveFloor (wr : Writing) (tier : FabTier) (f : FloorField)
    (supplied : Option Supplied) : tier.limit f ≤ (resolveFloor wr tier f supplied).1 := by
  unfold resolveFloor
  split
  case h_1 => exact le_refl _
  case h_2 v =>
    split
    case h_1 => exact le_refl _
    case h_2 q _ =>
      split
      case isTrue => exact le_refl _
      case isFalse h => exact not_lt.mp h

theorem resolveFloor_disclosed (tier : FabTier) (f : FloorField) (v : Supplied) :
    v = .number (.finite (resolveFloor wr tier f (some v)).1) ∨
      Mentioned (resolveFloor wr tier f (some v)).2 (.field (.floor f)) := by
  unfold resolveFloor
  dsimp only
  split
  case h_1 => exact Or.inr (mentioned_noteOn (by simp) _)
  case h_2 q hq =>
    split
    case isTrue => exact Or.inr (mentioned_noteOn (by simp) _)
    case isFalse => exact Or.inl (positive_eq_some.mp hq).1

theorem resolveFloor_again {tier : FabTier} {f : FloorField} {q : ℚ} (h : tier.limit f ≤ q) :
    resolveFloor wr tier f (some (.number (.finite q))) = (q, []) := by
  have hpos : Supplied.positive (.number (.finite q)) = some q :=
    positive_eq_some.mpr ⟨rfl, (limit_pos tier f).trans_le h⟩
  unfold resolveFloor
  dsimp only
  rw [hpos]
  exact if_neg (not_lt.mpr h)

/-- A width is below the resolved minimum where it is below the limit or a supplied minimum. -/
theorem lt_resolveFloor_iff (wr : Writing) (tier : FabTier) (f : FloorField)
    (supplied : Option Supplied) {w : ℚ} (hw : 0 < w) : w < (resolveFloor wr tier f supplied).1 ↔
      w < tier.limit f ∨ ∃ m, supplied = some (.number (.finite m)) ∧ w < m := by
  unfold resolveFloor
  split
  case h_1 =>
    refine ⟨Or.inl, ?_⟩
    rintro (h | ⟨m, h, -⟩)
    · exact h
    · cases h
  case h_2 v =>
    split
    case h_1 hnone =>
      refine ⟨Or.inl, ?_⟩
      rintro (h | ⟨m, h, hlt⟩)
      · exact h
      · rw [positive_eq_some.mpr ⟨Option.some.inj h, hw.trans hlt⟩] at hnone
        cases hnone
    case h_2 q hq =>
      obtain ⟨rfl, -⟩ := positive_eq_some.mp hq
      have hsame : ∀ {m : ℚ}, some (Supplied.number (.finite q)) = some (.number (.finite m)) →
          q = m := fun h => JsNumber.finite.inj (Supplied.number.inj (Option.some.inj h))
      split
      case isTrue hlow =>
        refine ⟨Or.inl, ?_⟩
        rintro (h | ⟨m, h, hlt⟩)
        · exact h
        · exact hlt.trans (hsame h ▸ hlow)
      case isFalse hhigh =>
        refine ⟨fun h => Or.inr ⟨q, rfl, h⟩, ?_⟩
        rintro (h | ⟨m, h, hlt⟩)
        · exact h.trans_le (not_lt.mp hhigh)
        · rw [hsame h]
          exact hlt

theorem resolvePassthrough_disclosed (f : PassthroughField) (v : Supplied) :
    (∃ q, (resolvePassthrough wr f (some v)).1 = some q ∧ v = .number (.finite q)) ∨
      Mentioned (resolvePassthrough wr f (some v)).2 (.field (.passthrough f)) := by
  unfold resolvePassthrough
  dsimp only
  split
  case h_1 => exact Or.inr (mentioned_noteOn (by simp) _)
  case h_2 q hq => exact Or.inl ⟨q, rfl, (positive_eq_some.mp hq).1⟩

theorem resolvePassthrough_cases (wr : Writing) (f : PassthroughField)
    (supplied : Option Supplied) :
    (resolvePassthrough wr f supplied).1 = tierDefault f ∨
      ∃ q, 0 < q ∧ (resolvePassthrough wr f supplied).1 = some q := by
  unfold resolvePassthrough
  split
  case h_1 => exact Or.inl rfl
  case h_2 =>
    split
    case h_1 => exact Or.inl rfl
    case h_2 q hq => exact Or.inr ⟨q, (positive_eq_some.mp hq).2, rfl⟩

theorem tierDefault_pos {f : PassthroughField} {q : ℚ} (h : tierDefault f = some q) : 0 < q := by
  cases f <;> cases h <;> norm_num

theorem resolvePassthrough_again (f : PassthroughField) (supplied : Option Supplied) :
    resolvePassthrough wr f ((resolvePassthrough wr f supplied).1.map
      fun q => .number (.finite q)) = ((resolvePassthrough wr f supplied).1, []) := by
  have hagain : ∀ {q : ℚ}, 0 < q →
      resolvePassthrough wr f (some (.number (.finite q))) = (some q, []) := by
    intro q hq
    unfold resolvePassthrough
    dsimp only
    rw [positive_eq_some.mpr ⟨rfl, hq⟩]
  rcases resolvePassthrough_cases wr f supplied with h | ⟨q, hq, h⟩
  · rw [h]
    cases hd : tierDefault f with
    | none =>
      rw [Option.map_none]
      unfold resolvePassthrough
      rw [hd]
    | some q => exact hagain (tierDefault_pos hd)
  · rw [h]
    exact hagain hq

theorem resolveLayers_disclosed (v : Supplied) :
    (∃ c, (resolveLayers wr (some v)).1 = some c ∧ v = .number (.finite c.count)) ∨
      Mentioned (resolveLayers wr (some v)).2.1 (.field .layers) := by
  unfold resolveLayers
  dsimp only
  split
  case h_1 n =>
    split_ifs with h1 h2 h4
    · exact Or.inl ⟨.one, rfl, congrArg _ h1⟩
    · exact Or.inl ⟨.two, rfl, congrArg _ h2⟩
    · exact Or.inl ⟨.four, rfl, congrArg _ h4⟩
    · exact Or.inr (mentioned_noteOn (by simp) _)
  case h_2 => exact Or.inr (mentioned_noteOn (by simp) _)

theorem resolveLayers_again (layers : Option LayerCount) :
    resolveLayers wr (layers.map fun c => .number (.finite c.count)) = (layers, [], none) := by
  cases layers with
  | none => rfl
  | some c => cases c <;> rfl

theorem resolveGndPour_disclosed (v : Supplied) :
    (∃ b, (resolveGndPour wr (some v)).1 = some b ∧ v = .boolean b) ∨
      Mentioned (resolveGndPour wr (some v)).2 (.field .gndPour) := by
  cases v with
  | boolean b => exact Or.inl ⟨b, rfl, rfl⟩
  | _ => exact Or.inr (mentioned_noteOn (by simp) _)

theorem resolveGndPour_some (wr : Writing) (supplied : Option Supplied) :
    ∃ b, (resolveGndPour wr supplied).1 = some b := by
  unfold resolveGndPour
  split <;> exact ⟨_, rfl⟩

/-! ## The map of widths -/

theorem le_resolveWidth {minimum : ℚ} {net : Text} {v : Entry} {w : ℚ}
    (h : (resolveWidth wr minimum net v).1 = some w) : minimum ≤ w := by
  unfold resolveWidth at h
  split at h
  case h_1 => cases h
  case h_2 q _ =>
    split at h
    case isTrue => exact (Option.some.inj h).le
    case isFalse hq => exact Option.some.inj h ▸ not_lt.mp hq

theorem resolveWidth_disclosed (wr : Writing) (minimum : ℚ) (net : Text) (v : Entry) :
    (∃ w, 0 < w ∧ minimum ≤ w ∧ v = .number (.finite w) ∧
        (resolveWidth wr minimum net v).1 = some w) ∨
      Mentioned (resolveWidth wr minimum net v).2 (.net net) := by
  unfold resolveWidth
  split
  case h_1 => exact Or.inr (mentioned_noteOn (by simp) _)
  case h_2 w hw =>
    obtain ⟨hv, hpos⟩ := entry_positive_eq_some.mp hw
    split
    case isTrue => exact Or.inr (mentioned_noteOn (by simp) _)
    case isFalse h => exact Or.inl ⟨w, hpos, not_lt.mp h, hv, rfl⟩

theorem resolveWidth_of_le {minimum w : ℚ} (hpos : 0 < w) (h : minimum ≤ w) (net : Text) :
    resolveWidth wr minimum net (.number (.finite w)) = (some w, []) := by
  have hw : Entry.positive (.number (.finite w)) = some w := entry_positive_eq_some.mpr ⟨rfl, hpos⟩
  unfold resolveWidth
  rw [hw]
  exact if_neg (not_lt.mpr h)

/-- A net that is not supplied keeps its width. -/
theorem get?_keepWidths_of_notMem {minimum : ℚ} {entries : List (Text × Entry)}
    {kept : Map Text ℚ} {net : Text} (h : net ∉ entries.map Prod.fst) :
    Map.get? (entries.foldl (keepWidth wr minimum) kept) net = kept.get? net := by
  induction entries generalizing kept with
  | nil => rfl
  | cons e entries ih =>
    rw [List.map_cons, List.mem_cons, not_or] at h
    rw [List.foldl_cons, ih h.2, keepWidth]
    split
    case h_1 => rfl
    case h_2 => exact Record.get?_put_ne _ (Ne.symm h.1) _

theorem get?_keepWidths {minimum : ℚ} {entries : List (Text × Entry)} (hkeyed : Map.Keyed entries)
    {kept : Map Text ℚ} {net : Text} {v : Entry} {w : ℚ} (hmem : (net, v) ∈ entries)
    (hnet : net ≠ protoKey) (h : (resolveWidth wr minimum net v).1 = some w) :
    Map.get? (entries.foldl (keepWidth wr minimum) kept) net = some w := by
  induction entries generalizing kept with
  | nil => exact absurd hmem List.not_mem_nil
  | cons e entries ih =>
    obtain ⟨hnot, hrest⟩ := List.nodup_cons.mp hkeyed
    rw [List.foldl_cons]
    rcases List.mem_cons.mp hmem with rfl | hmem
    · rw [get?_keepWidths_of_notMem hnot, keepWidth, h]
      exact Record.get?_put_self _ hnet _
    · exact ih hrest hmem

/-- The key of the prototype is never kept. -/
theorem get?_keepWidths_protoKey {minimum : ℚ} {entries : List (Text × Entry)}
    {kept : Map Text ℚ} :
    Map.get? (entries.foldl (keepWidth wr minimum) kept) protoKey = kept.get? protoKey := by
  induction entries generalizing kept with
  | nil => rfl
  | cons e entries ih =>
    rw [List.foldl_cons, ih, keepWidth]
    split
    case h_1 => rfl
    case h_2 => exact Record.get?_put_protoKey _ _ _

theorem forall_mem_keepWidths {P : Text × ℚ → Prop} {minimum : ℚ}
    {entries : List (Text × Entry)} {kept : Map Text ℚ} (hkept : ∀ e ∈ kept, P e)
    (h : ∀ net w, minimum ≤ w → net ≠ protoKey → P (net, w)) :
    ∀ e ∈ entries.foldl (keepWidth wr minimum) kept, P e := by
  induction entries generalizing kept with
  | nil => exact hkept
  | cons e entries ih =>
    refine ih ?_
    unfold keepWidth
    split
    case h_1 => exact hkept
    case h_2 w hw =>
      unfold Record.put
      split
      case isTrue => exact hkept
      case isFalse hproto =>
        intro e' he'
        rcases Map.mem_set he' with rfl | he'
        · exact h _ _ (le_resolveWidth hw) hproto
        · exact hkept e' he'

/-- Kept widths are kept again as they are. -/
theorem keepWidths_again (wr : Writing) {minimum : ℚ} (kept : Map Text ℚ) (hpos : 0 < minimum)
    {widths : Map Text ℚ} (hkeyed : Map.Keyed (kept ++ widths))
    (hwidths : ∀ e ∈ widths, minimum ≤ e.2 ∧ e.1 ≠ protoKey) :
    (widths.map fun e => (e.1, Entry.number (.finite e.2))).foldl (keepWidth wr minimum) kept =
      kept ++ widths := by
  induction widths generalizing kept with
  | nil => rw [List.append_nil]; rfl
  | cons e widths ih =>
    obtain ⟨hle, hproto⟩ := hwidths e List.mem_cons_self
    have hnew : e.1 ∉ kept.map Prod.fst := by
      intro hmem
      unfold Map.Keyed at hkeyed
      rw [List.map_append, List.nodup_append] at hkeyed
      exact hkeyed.2.2 _ hmem _ List.mem_cons_self rfl
    have hstep : keepWidth wr minimum kept (e.1, Entry.number (.finite e.2)) = kept ++ [e] := by
      rw [keepWidth, resolveWidth_of_le (hpos.trans_le hle) hle]
      dsimp only
      rw [Record.put, if_neg hproto, Map.set_of_notMem hnew]
    rw [List.map_cons, List.foldl_cons, hstep, ih _ (by rwa [List.append_assoc])
      fun e' he' => hwidths e' (List.mem_cons_of_mem e he'), List.append_assoc]
    rfl

/-! ## The promise -/

variable {raw : FabProfileInput}

/-- The least width of a resolved profile. -/
def minimumOf (wr : Writing) (raw : FabProfileInput) : ℚ :=
  (resolveFabProfile wr raw).profile.floor .minTraceWidthMm

theorem minimumOf_pos (wr : Writing) (raw : FabProfileInput) : 0 < minimumOf wr raw :=
  (limit_pos _ _).trans_le (limit_le_resolveFloor wr _ _ _)

/-- A map of widths is kept from an object. -/
theorem kept_cases {kept : {m : Map Text ℚ // m.Keyed}}
    (h : (resolveFabProfile wr raw).profile.perNetMinWidthMm = some kept) :
    ∃ entries, raw .perNetMinWidthMm = some (.object entries) ∧
      kept = keptWidths wr (minimumOf wr raw) entries.1 ∧ kept.1 ≠ [] := by
  change (resolvePerNet wr (minimumOf wr raw) (raw .perNetMinWidthMm)).1 = some kept at h
  unfold resolvePerNet at h
  split at h
  case h_1 => cases h
  case h_2 entries hraw =>
    dsimp only at h
    split at h
    case isTrue => cases h
    case isFalse hne =>
      obtain rfl := Option.some.inj h
      exact ⟨entries, hraw, rfl, hne⟩
  case h_3 => cases h

theorem kept_widths {kept : {m : Map Text ℚ // m.Keyed}}
    (h : (resolveFabProfile wr raw).profile.perNetMinWidthMm = some kept) :
    ∀ e ∈ kept.1, minimumOf wr raw ≤ e.2 ∧ e.1 ≠ protoKey := by
  obtain ⟨entries, -, rfl, -⟩ := kept_cases h
  exact forall_mem_keepWidths (fun _ h => absurd h List.not_mem_nil) fun _ _ hle hne => ⟨hle, hne⟩

/-- Every group writes its adjustments down. -/
theorem adjustments_sub (wr : Writing) (raw : FabProfileInput) :
    let r := resolveFabProfile wr raw
    (resolveTier wr (raw .tier)).2 ⊆ r.adjustments ∧
      (∀ f, (resolveFloor wr r.tier f (raw (.floor f))).2 ⊆ r.adjustments) ∧
      (∀ f, (resolvePassthrough wr f (raw (.passthrough f))).2 ⊆ r.adjustments) ∧
      (resolveLayers wr (raw .layers)).2.1 ⊆ r.adjustments ∧
      (resolveGndPour wr (raw .gndPour)).2 ⊆ r.adjustments ∧
      (resolvePerNet wr (minimumOf wr raw) (raw .perNetMinWidthMm)).2 ⊆ r.adjustments := by
  intro r
  have hfloor : ∀ f, f ∈ floorFields := fun f => by cases f <;> decide
  have hpass : ∀ f, f ∈ passthroughFields := fun f => by cases f <;> decide
  refine ⟨fun a h => ?_, fun f a h => ?_, fun f a h => ?_, fun a h => ?_, fun a h => ?_,
    fun a h => List.mem_append_right _ h⟩
  · exact List.mem_append_left _ (List.mem_append_left _ (List.mem_append_left _
      (List.mem_append_left _ (List.mem_append_left _ h))))
  · exact List.mem_append_left _ (List.mem_append_left _ (List.mem_append_left _
      (List.mem_append_left _ (List.mem_append_right _
        (List.mem_flatMap.mpr ⟨f, hfloor f, h⟩)))))
  · exact List.mem_append_left _ (List.mem_append_left _ (List.mem_append_left _
      (List.mem_append_right _ (List.mem_flatMap.mpr ⟨f, hpass f, h⟩))))
  · exact List.mem_append_left _ (List.mem_append_left _ (List.mem_append_right _ h))
  · exact List.mem_append_left _ (List.mem_append_right _ h)

/-- A supplied field is taken over or written down. -/
theorem field_disclosed (wr : Writing) (raw : FabProfileInput) (field : FabField) (v : Supplied)
    (h : raw field = some v) : TakenOver (resolveFabProfile wr raw) field v ∨
      Mentioned (resolveFabProfile wr raw).adjustments (.field field) := by
  obtain ⟨htier, hfloor, hpass, hlayers, hpour, hnets⟩ := adjustments_sub wr raw
  cases field with
  | tier =>
    rw [h] at htier
    refine (resolveTier_disclosed v).imp (fun hv => ?_) fun hm => hm.mono htier
    change v = .text (resolveTier wr (raw .tier)).1.name
    rw [h]
    exact hv
  | floor f =>
    have hf := hfloor f
    rw [h] at hf
    refine (resolveFloor_disclosed _ f v).imp (fun hv => ?_) fun hm => hm.mono hf
    change v = .number (.finite (resolveFloor wr _ f (raw (.floor f))).1)
    rw [h]
    exact hv
  | passthrough f =>
    have hf := hpass f
    rw [h] at hf
    refine (resolvePassthrough_disclosed f v).imp (fun hv => ?_) fun hm => hm.mono hf
    change ∃ q, (resolvePassthrough wr f (raw (.passthrough f))).1 = some q ∧ _
    rw [h]
    exact hv
  | layers =>
    rw [h] at hlayers
    refine (resolveLayers_disclosed v).imp (fun hv => ?_) fun hm => hm.mono hlayers
    change ∃ c, (resolveLayers wr (raw .layers)).1 = some c ∧ _
    rw [h]
    exact hv
  | gndPour =>
    rw [h] at hpour
    refine (resolveGndPour_disclosed v).imp (fun hv => ?_) fun hm => hm.mono hpour
    change ∃ b, (resolveGndPour wr (raw .gndPour)).1 = some b ∧ _
    rw [h]
    exact hv
  | perNetMinWidthMm =>
    rw [h] at hnets
    cases v with
    | object entries => exact Or.inl ⟨entries, rfl⟩
    | _ => exact Or.inr ((mentioned_noteOn (by simp) _).mono hnets)

/-- A width that is assigned to another key than the prototype's is kept. -/
theorem widthTakenOver {entries : {m : Map Text Entry // m.Keyed}}
    (hraw : raw .perNetMinWidthMm = some (.object entries)) {e : Text × Entry}
    (he : e ∈ entries.1) {w : ℚ} (hv : e.2 = .number (.finite w))
    (hw : (resolveWidth wr (minimumOf wr raw) e.1 e.2).1 = some w) (hproto : e.1 ≠ protoKey) :
    WidthTakenOver (resolveFabProfile wr raw) e := by
  have hget : Map.get? (keptWidths wr (minimumOf wr raw) entries.1).1 e.1 = some w :=
    get?_keepWidths entries.2 he hproto hw
  refine ⟨w, keptWidths wr (minimumOf wr raw) entries.1, hv, ?_, hget⟩
  change (resolvePerNet wr (minimumOf wr raw) (raw .perNetMinWidthMm)).1 = _
  rw [hraw]
  refine if_neg fun hnil => ?_
  rw [hnil] at hget
  cases hget

/-- A resolved profile is resolved to itself. -/
theorem resolve_again (wr : Writing) (raw : FabProfileInput) :
    resolveFabProfile wr (toInput (resolveFabProfile wr raw).tier
        (resolveFabProfile wr raw).profile) =
      { profile := (resolveFabProfile wr raw).profile, tier := (resolveFabProfile wr raw).tier
        adjustments := [], unsupportedLayers := none } := by
  generalize hr : resolveFabProfile wr raw = r
  have htier : resolveTier wr (toInput r.tier r.profile .tier) = (r.tier, []) :=
    resolveTier_name wr r.tier
  have hfloor : ∀ f, resolveFloor wr r.tier f (toInput r.tier r.profile (.floor f)) =
      (r.profile.floor f, []) := by
    intro f
    refine resolveFloor_again ?_
    rw [← hr]
    exact limit_le_resolveFloor wr _ f _
  have hpass : ∀ f, resolvePassthrough wr f (toInput r.tier r.profile (.passthrough f)) =
      (r.profile.passthrough f, []) := by
    intro f
    rw [← hr]
    exact resolvePassthrough_again f (raw (.passthrough f))
  have hlayers : resolveLayers wr (toInput r.tier r.profile .layers) =
      (r.profile.layers, [], none) := resolveLayers_again r.profile.layers
  have hpour : resolveGndPour wr (toInput r.tier r.profile .gndPour) =
      (r.profile.gndPour, []) := by
    obtain ⟨b, hb⟩ := resolveGndPour_some wr (raw .gndPour)
    have hb' : r.profile.gndPour = some b := by
      rw [← hr]
      exact hb
    unfold toInput
    rw [hb']
    rfl
  have hnets : resolvePerNet wr (r.profile.floor .minTraceWidthMm)
      (toInput r.tier r.profile .perNetMinWidthMm) = (r.profile.perNetMinWidthMm, []) := by
    cases hkept : r.profile.perNetMinWidthMm with
    | none =>
      unfold toInput
      rw [hkept]
      rfl
    | some kept =>
      rw [← hr] at hkept
      have hwidths := kept_widths hkept
      obtain ⟨-, -, -, hne⟩ := kept_cases hkept
      rw [hr] at hkept
      have hmin : minimumOf wr raw = r.profile.floor .minTraceWidthMm := by
        rw [← hr]
        rfl
      rw [hmin] at hwidths
      have hpos : 0 < r.profile.floor .minTraceWidthMm := hmin ▸ minimumOf_pos wr raw
      have hagain : keptWidths wr (r.profile.floor .minTraceWidthMm)
          (kept.1.map fun e => (e.1, Entry.number (.finite e.2))) = kept := by
        refine Subtype.ext ?_
        have h := keepWidths_again wr [] hpos
          (by rw [List.nil_append]; exact kept.2) hwidths
        rwa [List.nil_append] at h
      have hquiet : (kept.1.map fun e => (e.1, Entry.number (.finite e.2))).flatMap
          (fun e => (resolveWidth wr (r.profile.floor .minTraceWidthMm) e.1 e.2).2) = [] := by
        rw [List.flatMap_eq_nil_iff]
        intro e he
        obtain ⟨e', he', rfl⟩ := List.mem_map.mp he
        have hle := (hwidths e' he').1
        rw [resolveWidth_of_le (hpos.trans_le hle) hle]
      unfold toInput resolvePerNet
      rw [hkept]
      dsimp only [Option.map_some]
      rw [hagain, hquiet, if_neg hne]
  unfold resolveFabProfile
  dsimp only
  rw [htier]
  dsimp only
  simp only [hfloor, hpass]
  rw [hlayers, hpour, hnets]
  simp [floorFields, passthroughFields]

/-- A width for the prototype's key that no rule raises or refuses. -/
def QuietEntry (wr : Writing) (raw : FabProfileInput) : Prop :=
  ∃ entries w, raw .perNetMinWidthMm = some (.object entries) ∧
    (protoKey, .number (.finite w)) ∈ entries.1 ∧ 0 < w ∧
    (resolveTier wr (raw .tier)).1.limit .minTraceWidthMm ≤ w ∧
    ∀ m, raw (.floor .minTraceWidthMm) = some (.number (.finite m)) → m ≤ w

theorem minimumOf_le_iff {w : ℚ} (hw : 0 < w) : minimumOf wr raw ≤ w ↔
    (resolveTier wr (raw .tier)).1.limit .minTraceWidthMm ≤ w ∧
      ∀ m, raw (.floor .minTraceWidthMm) = some (.number (.finite m)) → m ≤ w := by
  have h := (lt_resolveFloor_iff wr (resolveTier wr (raw .tier)).1 .minTraceWidthMm
    (raw (.floor .minTraceWidthMm)) hw).not
  rw [not_lt, not_or, not_lt, not_exists] at h
  refine h.trans (and_congr_right fun _ => forall_congr' fun m => ?_)
  rw [not_and, not_lt]

/-- A group writes about its own field. -/
theorem subject_field (wr : Writing) (raw : FabProfileInput) :
    (∀ a ∈ (resolveTier wr (raw .tier)).2, a.subject = .field .tier) ∧
      (∀ tier f, ∀ a ∈ (resolveFloor wr tier f (raw (.floor f))).2,
        a.subject = .field (.floor f)) ∧
      (∀ f, ∀ a ∈ (resolvePassthrough wr f (raw (.passthrough f))).2,
        a.subject = .field (.passthrough f)) ∧
      (∀ a ∈ (resolveLayers wr (raw .layers)).2.1, a.subject = .field .layers) ∧
      ∀ a ∈ (resolveGndPour wr (raw .gndPour)).2, a.subject = .field .gndPour := by
  have hone : ∀ {a b : Adjustment}, a ∈ [b] → a.subject = b.subject := fun h => by
    rw [List.mem_singleton.mp h]
  refine ⟨fun a ha => ?_, fun tier f a ha => ?_, fun f a ha => ?_, fun a ha => ?_, fun a ha => ?_⟩
  · unfold resolveTier at ha
    split at ha
    · cases ha
    · split at ha
      · cases ha
      · exact hone ha
  · unfold resolveFloor at ha
    split at ha
    · cases ha
    · split at ha
      · exact hone ha
      · split at ha
        · exact hone ha
        · cases ha
  · unfold resolvePassthrough at ha
    split at ha
    · cases ha
    · split at ha
      · exact hone ha
      · cases ha
  · unfold resolveLayers at ha
    split at ha
    · cases ha
    · dsimp only at ha
      split at ha
      · split_ifs at ha
        · cases ha
        · cases ha
        · cases ha
        · exact hone ha
      · exact hone ha
  · unfold resolveGndPour at ha
    split at ha
    · cases ha
    · cases ha
    · exact hone ha

/-- What is written about a net is written at one of its entries. -/
theorem entry_of_subject {a : Adjustment} (ha : a ∈ (resolveFabProfile wr raw).adjustments)
    {net : Text} (hnet : a.subject = .net net) :
    ∃ entries, raw .perNetMinWidthMm = some (.object entries) ∧
      ∃ v, (net, v) ∈ entries.1 ∧ a ∈ (resolveWidth wr (minimumOf wr raw) net v).2 := by
  obtain ⟨htier, hfloor, hpass, hlayers, hpour⟩ := subject_field wr raw
  have hfield : ∀ {f : FabField}, a.subject ≠ .field f := fun h => by
    rw [hnet] at h
    cases h
  rcases List.mem_append.mp ha with ha | ha
  · rcases List.mem_append.mp ha with ha | ha
    · rcases List.mem_append.mp ha with ha | ha
      · rcases List.mem_append.mp ha with ha | ha
        · rcases List.mem_append.mp ha with ha | ha
          · exact absurd (htier a ha) hfield
          · obtain ⟨f, -, hf⟩ := List.mem_flatMap.mp ha
            exact absurd (hfloor _ f a hf) hfield
        · obtain ⟨f, -, hf⟩ := List.mem_flatMap.mp ha
          exact absurd (hpass f a hf) hfield
      · exact absurd (hlayers a ha) hfield
    · exact absurd (hpour a ha) hfield
  · change a ∈ (resolvePerNet wr (minimumOf wr raw) (raw .perNetMinWidthMm)).2 at ha
    unfold resolvePerNet at ha
    split at ha
    case h_1 => cases ha
    case h_2 entries hraw =>
      obtain ⟨⟨net', v⟩, hmem, hv⟩ := List.mem_flatMap.mp ha
      have hsubject : a.subject = .net net' := by
        unfold resolveWidth at hv
        split at hv
        case h_1 => rw [List.mem_singleton.mp hv]; rfl
        case h_2 =>
          split at hv
          case isTrue => rw [List.mem_singleton.mp hv]; rfl
          case isFalse => cases hv
      obtain rfl := Subject.net.inj (hsubject.symm.trans hnet)
      exact ⟨entries, hraw, v, hmem, hv⟩
    case h_3 =>
      rw [List.mem_singleton.mp ha] at hnet
      cases hnet

/-- The resolver keeps its promise exactly where no width for `__proto__` slips through. -/
theorem promised_iff (wr : Writing) (raw : FabProfileInput) :
    Promised wr raw ↔ ¬ QuietEntry wr raw := by
  constructor
  · rintro h ⟨entries, w, hraw, hmem, hpos, hle⟩
    have hmin : minimumOf wr raw ≤ w := (minimumOf_le_iff hpos).mpr hle
    rcases h.entries entries hraw _ hmem with
      ⟨w', kept, -, hkept, hget⟩ | ⟨note, hnote, hsubject, -⟩
    · obtain ⟨entries', hraw', rfl, -⟩ := kept_cases hkept
      rw [keptWidths, get?_keepWidths_protoKey] at hget
      cases hget
    · obtain ⟨entries', hraw', v, hv, hwritten⟩ := entry_of_subject hnote hsubject
      obtain rfl := Supplied.object.inj (Option.some.inj (hraw.symm.trans hraw'))
      have hsame : v = .number (.finite w) :=
        Option.some.inj ((Map.get?_of_mem entries.2 hv).symm.trans (Map.get?_of_mem entries.2 hmem))
      rw [hsame, resolveWidth_of_le hpos hmin] at hwritten
      cases hwritten
  · intro h
    refine ⟨fun f => limit_le_resolveFloor wr _ f _, ⟨fun f hf => ?_, ?_⟩,
      fun kept hkept e he => (kept_widths hkept e he).1, field_disclosed wr raw,
      fun entries hraw e he => ?_, resolve_again wr raw⟩
    · rcases resolvePassthrough_cases wr f (raw (.passthrough f)) with hd | ⟨q, -, hq⟩
      · exact fun hnone => hf (hd.symm.trans hnone)
      · exact fun hnone => Option.some_ne_none q (hq.symm.trans hnone)
    · obtain ⟨b, hb⟩ := resolveGndPour_some wr (raw .gndPour)
      exact fun hnone => Option.some_ne_none b (hb.symm.trans hnone)
    · rcases resolveWidth_disclosed wr (minimumOf wr raw) e.1 e.2 with
        ⟨w, hpos, hle, hv, hw⟩ | hm
      · refine Or.inl (widthTakenOver hraw he hv hw fun hproto => h ?_)
        have hmem : (protoKey, Entry.number (.finite w)) ∈ entries.1 := by
          rw [← hproto, ← hv]
          exact he
        exact ⟨entries, w, hraw, hmem, hpos, (minimumOf_le_iff hpos).mp hle⟩
      · refine Or.inr (hm.mono ?_)
        intro a ha
        refine (adjustments_sub wr raw).2.2.2.2.2 ?_
        rw [hraw]
        exact List.mem_flatMap.mpr ⟨e, he, ha⟩

/-- `{ perNetMinWidthMm: { "__proto__": 0.5 } }`, as it comes out of `JSON.parse`. -/
def protoWidth : FabProfileInput
  | .perNetMinWidthMm =>
    some (.object ⟨[(protoKey, .number (.finite (1 / 2)))], List.nodup_singleton _⟩)
  | _ => none

/-- Values that are written out as nothing. -/
def blankWriting : Writing where
  number := fun _ => []
  json := fun _ => []

/-- The width is gone, and nothing is written down. -/
theorem protoWidth_lost :
    (resolveFabProfile blankWriting protoWidth).profile.perNetMinWidthMm = none ∧
      (resolveFabProfile blankWriting protoWidth).adjustments.map Adjustment.text = [] ∧
      ¬ Promised blankWriting protoWidth := by
  refine ⟨by decide +kernel, by decide +kernel, fun h => (promised_iff _ _).mp h ?_⟩
  refine ⟨_, 1 / 2, rfl, List.mem_singleton.mpr rfl, by norm_num, ?_, fun m hm => ?_⟩
  · change FabTier.economy.limit .minTraceWidthMm ≤ 1 / 2
    norm_num [FabTier.limit]
  · cases hm

end CircuitForge.Fab
