/-
The nodes of a deck.

Nets, twins, rails and winding midpoints are named in four places, each checked
against some of the others.  What no check covers the spellings keep apart: the
last word of a synthesized node is never that of a midpoint.
-/
import CircuitForge.Js.Exact
import CircuitForge.Netlist.Deck
import CircuitForge.Netlist.Plan

namespace CircuitForge

open Js

/-! ## The last word of a name -/

/-- The characters behind the last `_`, last one first. -/
def lastWord (s : Text) : Text := s.reverse.takeWhile (· ≠ '_')

theorem lastWord_underscore (a : Text) {b : Text} (hb : '_' ∉ b) :
    lastWord (a ++ '_' :: b) = b.reverse := by
  have hall : ∀ c ∈ b.reverse, decide (c ≠ '_') = true := by
    intro c hc
    rw [decide_eq_true_eq]
    rintro rfl
    exact hb (List.mem_reverse.mp hc)
  rw [lastWord, List.reverse_append, List.reverse_cons, List.append_assoc, List.singleton_append,
    List.takeWhile_append_of_pos hall, List.takeWhile_cons_of_neg (by simp), List.append_nil]

/-- The last words of the winding midpoints, reversed. -/
def midWords : List Text := ["pw", "sw"].map String.toList

theorem lastWord_candidate {base : Text} (n : Nat) (h : lastWord base ∉ midWords) :
    lastWord (candidate base n) ∉ midWords := by
  unfold candidate
  split_ifs
  · exact h
  · have hdigit : ∀ c ∈ Nat.toDigits 10 n, c.isDigit = true := fun c hc =>
      Nat.isDigit_of_mem_toDigits (by decide) (by decide) hc
    have hund : '_' ∉ Nat.toDigits 10 n := fun hm => absurd (hdigit _ hm) (by decide)
    rw [lastWord_underscore _ hund]
    intro hmem
    have hw : 'w' ∈ (Nat.toDigits 10 n).reverse := by
      have hall : ∀ t ∈ midWords, 'w' ∈ t := by decide
      exact hall _ hmem
    exact absurd (hdigit _ (List.mem_reverse.mp hw)) (by decide)

/-- The names of winding midpoints. -/
def IsMid (s : Text) : Prop :=
  ∃ designator, s = designator ++ "_wp".toList ∨ s = designator ++ "_ws".toList

section

variable [Runtime]

theorem lower_wp (designator : Text) :
    Runtime.lower (designator ++ "_wp".toList) = Runtime.lower designator ++ "_wp".toList := by
  have hw : Runtime.lower "wp".toList = "wp".toList := by
    rw [Runtime.lower_of_isWord (by decide)]
    decide
  exact (lower_underscore designator "wp".toList).trans (by rw [hw]; rfl)

theorem lower_ws (designator : Text) :
    Runtime.lower (designator ++ "_ws".toList) = Runtime.lower designator ++ "_ws".toList := by
  have hw : Runtime.lower "ws".toList = "ws".toList := by
    rw [Runtime.lower_of_isWord (by decide)]
    decide
  exact (lower_underscore designator "ws".toList).trans (by rw [hw]; rfl)

theorem IsMid.lower {s : Text} (h : IsMid s) : IsMid (Runtime.lower s) := by
  obtain ⟨d, rfl | rfl⟩ := h
  · exact ⟨Runtime.lower d, Or.inl (lower_wp d)⟩
  · exact ⟨Runtime.lower d, Or.inr (lower_ws d)⟩

omit [Runtime] in
theorem IsMid.lastWord_mem {s : Text} (h : IsMid s) : lastWord s ∈ midWords := by
  obtain ⟨d, rfl | rfl⟩ := h
  · have := lastWord_underscore d (b := "wp".toList) (by decide)
    rw [show d ++ "_wp".toList = d ++ '_' :: "wp".toList from rfl, this]
    decide
  · have := lastWord_underscore d (b := "ws".toList) (by decide)
    rw [show d ++ "_ws".toList = d ++ '_' :: "ws".toList from rfl, this]
    decide

omit [Runtime] in
theorem IsMid.ne_zero {s : Text} (h : IsMid s) : s ≠ "0".toList := by
  rintro rfl
  exact absurd h.lastWord_mem (by decide)

theorem lower_twinBase {nodes : List Text} {base : Text} (h : TwinBase nodes base) :
    lastWord (Runtime.lower base) ∉ midWords ∧ '_' ∈ Runtime.lower base := by
  have hword : ∀ (a : Text) (b : Text), '_' ∉ b → b.reverse ∉ midWords →
      Runtime.lower b = b → lastWord (Runtime.lower (a ++ '_' :: b)) ∉ midWords ∧
        '_' ∈ Runtime.lower (a ++ '_' :: b) := by
    intro a b hb hmid hlow
    rw [lower_underscore, hlow, lastWord_underscore _ hb]
    exact ⟨hmid, List.mem_append_right _ List.mem_cons_self⟩
  have hlow : ∀ b ∈ ["d", "p", "a", "lo"].map String.toList, Runtime.lower b = b := by
    intro b hb
    have hwords : ∀ b ∈ ["d", "p", "a", "lo"].map String.toList,
        (∀ c ∈ b, isWord c = true) ∧ asciiLower b = b := by decide
    rw [Runtime.lower_of_isWord (hwords b hb).1, (hwords b hb).2]
  cases h with
  | @digital node _ => exact hword node "d".toList (by decide) (by decide) (hlow _ (by decide))
  | @probe node _ => exact hword node "p".toList (by decide) (by decide) (hlow _ (by decide))
  | railAnalog =>
    exact hword "dlogic_lo".toList "a".toList (by decide) (by decide) (hlow _ (by decide))
  | railDigital =>
    exact hword "dlogic".toList "lo".toList (by decide) (by decide) (hlow _ (by decide))

/-- A synthesized node is not spelled like a midpoint or like node 0. -/
theorem IsTwin.lower {nodes : List Text} {s : Text} (h : IsTwin nodes s) :
    lastWord (Runtime.lower s) ∉ midWords ∧ Runtime.lower s ≠ "0".toList := by
  obtain ⟨base, n, hbase, rfl⟩ := h
  obtain ⟨hword, hund⟩ := lower_twinBase hbase
  rw [lower_candidate]
  refine ⟨lastWord_candidate n hword, fun hzero => ?_⟩
  have hmem : '_' ∈ candidate (Runtime.lower base) n := by
    unfold candidate
    split_ifs
    · exact hund
    · exact List.mem_append_left _ hund
  rw [hzero] at hmem
  exact absurd hmem (by decide)

/-! ## Midpoints -/

omit [Runtime] in
/-- A list drawn from `f` without repetition, where whatever `g` yields comes with
the same element of `f`. -/
theorem nodup_flatMap_of_marker {α β γ : Type} {f : α → List β} {g : α → List γ} {k : β}
    {xs : List α} (hmark : ∀ a ∈ xs, g a ≠ [] → k ∈ f a) (hg : ∀ a, (g a).Nodup)
    (h : (xs.flatMap f).Nodup) : (xs.flatMap g).Nodup := by
  induction xs with
  | nil => exact List.nodup_nil
  | cons a xs ih =>
    rw [List.flatMap_cons, List.nodup_append] at h
    rw [List.flatMap_cons, List.nodup_append]
    have hmark' : ∀ b ∈ xs, g b ≠ [] → k ∈ f b := fun b hb => hmark b (List.mem_cons_of_mem _ hb)
    refine ⟨hg a, ih hmark' h.2.1, fun x hx y hy => ?_⟩
    obtain ⟨b, hb, hyb⟩ := List.mem_flatMap.mp hy
    have ha : k ∈ f a := hmark a List.mem_cons_self (List.ne_nil_of_mem hx)
    have hb' : k ∈ xs.flatMap f :=
      List.mem_flatMap.mpr ⟨b, hb, hmark' b hb (List.ne_nil_of_mem hyb)⟩
    exact absurd rfl (h.2.2 k ha k hb')

/-- The midpoints of a transformer without a designator. -/
def unnamedMids (ctx : EmitContext) (c : Component) : List Text :=
  if c.designator = [] then midsOf ctx c else []

theorem midsOf_eq (ctx : EmitContext) (c : Component) :
    claimedMids ctx c ++ unnamedMids ctx c = midsOf ctx c := by
  unfold claimedMids unnamedMids
  split_ifs
  · rfl
  · exact List.append_nil _

theorem isMid_of_mem_midsOf {ctx : EmitContext} {c : Component} {s : Text}
    (h : s ∈ midsOf ctx c) : s = c.designator ++ "_wp".toList ∨ s = c.designator ++ "_ws".toList := by
  unfold midsOf at h
  split_ifs at h
  · simpa [transformerMidNodes] using h
  · simp at h

theorem unnamedMids_eq {ctx : EmitContext} {c : Component} (h : unnamedMids ctx c ≠ []) :
    unnamedMids ctx c = ["_wp", "_ws"].map String.toList ∧ c.type = .transformer ∧
      cardsOf ctx c ≠ [] ∧ c.designator = [] := by
  unfold unnamedMids midsOf at *
  split_ifs at h ⊢ with hd ht
  · exact ⟨by simp [transformerMidNodes, hd], ht.1, ht.2, hd⟩
  · exact absurd rfl h
  · exact absurd rfl h

/-- The cards of a component of an analog type are those of `componentToSpice`. -/
theorem cardsOf_emission {ctx : EmitContext} {c : Component}
    (hemit : emitComponent ctx c = .ok (cardsOf ctx c)) (hdig : c.type.isDigital = false) :
    AnalogEmission ctx.nodeMap ctx.modelMap ctx.exprNodeMap c (cardsOf ctx c) := by
  have h := hemit
  unfold emitComponent at h
  split_ifs at h with hk hd
  · rw [hdig] at hd
    simp at hd
  · exact componentToSpice_emission h

/-- The cards of a component of a digital type are those of `emitDigitalComponent`. -/
theorem cardsOf_digital {ctx : EmitContext} {c : Component}
    (hemit : emitComponent ctx c = .ok (cardsOf ctx c)) (hdig : c.type.isDigital = true) :
    ∃ x, DigitalEmission ctx.nodeMap ctx.plan c x ∧ cardsOf ctx c = x.toList := by
  have h := hemit
  unfold emitComponent at h
  split_ifs at h with hk
  obtain ⟨x, hx, hcards⟩ := Outcome.map_eq_ok.mp h
  exact ⟨x, emitDigitalComponent_emission hdig hx, hcards.symm⟩

/-- A transformer without a designator emits a device named `LP`. -/
theorem name_mem_of_unnamed {ctx : EmitContext} {c : Component}
    (hemit : emitComponent ctx c = .ok (cardsOf ctx c)) (h : unnamedMids ctx c ≠ []) :
    Runtime.lower "LP".toList ∈ (cardsOf ctx c).map fun card => Runtime.lower card.name := by
  obtain ⟨_, hty, hne, hd⟩ := unnamedMids_eq h
  have hemission := cardsOf_emission hemit (by rw [hty]; rfl)
  generalize cardsOf ctx c = cards at hemission hne
  cases hemission with
  | skipped _ _ => exact absurd rfl hne
  | element hpre _ _ =>
    rw [hty] at hpre
    simp [ComponentType.spicePrefix] at hpre
  | @transformer tp pp pn sp sn _ _ _ =>
    rw [hd]
    refine List.mem_map.mpr ⟨.element "LP".toList [pp, "_wp".toList] tp.lp, ?_, ?_⟩
    · exact List.mem_append_left _ (List.mem_append_left _ List.mem_cons_self)
    · have hname : (Card.element "LP".toList [pp, "_wp".toList] tp.lp).name = "LP".toList := by
        rw [Card.name, headD_splitBlanks]
        exact firstToken_of_solid (solid_of_isWord (by decide)) (blankLed_cons.mpr (by decide))
      rw [hname]

/-- At most one emitted transformer is without a designator. -/
theorem nodup_unnamedMids {ctx : EmitContext} {owners : Map Text Text} {cs : List Component}
    {e : Emission} (hloop : LoopSpec ctx owners cs e)
    (hnames : (e.cards.map fun card => Runtime.lower card.name).Nodup) :
    (cs.flatMap (unnamedMids ctx)).Nodup := by
  rw [hloop.cards, List.map_flatMap] at hnames
  refine nodup_flatMap_of_marker (fun c hc => name_mem_of_unnamed (hloop.emits c hc))
    (fun c => ?_) hnames
  by_cases hnil : unnamedMids ctx c = []
  · rw [hnil]
    exact List.nodup_nil
  · rw [(unnamedMids_eq hnil).1]
    decide

/-! ## The nodes of the deck -/

/-- The nodes of the nets but node 0. -/
def netNodes (circuit : CircuitJson) : List Text :=
  (circuit.nets.filter (!·.isGround)).map nodeOfNet

/-- The nodes the planner synthesizes: digital twins, probe twins and the rail. -/
def twinNodes (circuit : CircuitJson) (options : NetlistOptions) : List Text :=
  if circuit.components.any (·.type.isDigital) then
    (planState circuit (buildNodeMap circuit.nets) (reservedDeviceNames circuit)
      options.logicVoltage).synthesized
  else []

/-- The midpoints of the emitted transformers. -/
def midNodes (circuit : CircuitJson) (options : NetlistOptions) : List Text :=
  circuit.components.flatMap (midsOf (emitContext circuit options))

/-- The nodes of the node map but node 0: those the owners' check sees. -/
def checkedNodes (circuit : CircuitJson) : List Text :=
  ((buildNodeMap circuit.nets).map Prod.snd).filter (· ≠ "0".toList)

def deckNodes (circuit : CircuitJson) (options : NetlistOptions) : List Text :=
  netNodes circuit ++ twinNodes circuit options ++ midNodes circuit options

omit [Runtime] in
theorem buildNodeMap_of_nodup {nets : List Net} (h : (nets.map Net.id).Nodup) :
    buildNodeMap nets = nets.map fun net => (net.id, nodeOfNet net) := by
  rw [buildNodeMap, Map.fill_of_nodup h (by simp), List.nil_append]

theorem checkedNodes_eq {circuit : CircuitJson} (h : (circuit.nets.map Net.id).Nodup) :
    checkedNodes circuit = netNodes circuit := by
  rw [checkedNodes, buildNodeMap_of_nodup h, List.map_map, netNodes, List.filter_map]
  congr 1
  apply List.filter_congr
  intro net _
  have := @nodeOfNet_eq_zero_iff net
  cases hg : net.isGround <;> simp_all

omit [Runtime] in
/-- The nodes of the node map. -/
theorem mem_nodeMap {nets : List Net} {e : Text × Text} (h : e ∈ buildNodeMap nets) :
    ∃ net ∈ nets, net.id = e.1 ∧ e.2 = nodeOfNet net := by
  rcases Map.mem_fill h with ⟨net, hnet, he⟩ | he
  · cases he
    exact ⟨net, hnet, rfl, rfl⟩
  · simp at he

theorem lower_nodeOfNet {net : Net} (h : nodeOfNet net ≠ "0".toList) :
    HasNodePrefix (Runtime.lower (nodeOfNet net)) := by
  rcases nodeOfNet_cases net with ⟨_, hz⟩ | ⟨_, hp⟩
  · exact absurd hz h
  · exact hp.lower (isWord_nodeOfNet net)

theorem lower_checkedNodes {circuit : CircuitJson} {s : Text} (h : s ∈ checkedNodes circuit) :
    HasNodePrefix (Runtime.lower s) := by
  rw [checkedNodes, List.mem_filter, List.mem_map] at h
  obtain ⟨⟨e, he, rfl⟩, hzero⟩ := h
  obtain ⟨net, _, _, hnode⟩ := mem_nodeMap he
  rw [hnode] at hzero ⊢
  exact lower_nodeOfNet (by simpa using hzero)

theorem lower_netNodes {circuit : CircuitJson} {s : Text} (h : s ∈ netNodes circuit) :
    HasNodePrefix (Runtime.lower s) := by
  obtain ⟨net, hnet, rfl⟩ := List.mem_map.mp h
  have hground : net.isGround = false := by simpa using (List.mem_filter.mp hnet).2
  exact lower_nodeOfNet fun hz => by simp [nodeOfNet_eq_zero_iff.mp hz] at hground

/-- The plan of a circuit with digital devices, and the empty plan. -/
theorem deckPlan_cases (circuit : CircuitJson) (options : NetlistOptions) :
    (∃ st A D, PlanSpec circuit (buildNodeMap circuit.nets) st (netRoles circuit)
        (needsLowRail circuit) A D ∧
      deckPlan circuit options = st.plan ∧ twinNodes circuit options = st.synthesized) ∨
    (circuit.components.any (·.type.isDigital) = false ∧ deckPlan circuit options = {} ∧
      twinNodes circuit options = []) := by
  rw [deckPlan, planMixedSignal, twinNodes]
  cases hdig : circuit.components.any (·.type.isDigital)
  · exact Or.inr ⟨rfl, rfl, rfl⟩
  · obtain ⟨A, D, h⟩ := planState_spec circuit (buildNodeMap circuit.nets)
      (reservedDeviceNames circuit) options.logicVoltage
    exact Or.inl ⟨_, A, D, h, rfl, rfl⟩

/-- The synthesized nodes as the planner's bookkeeping has them. -/
theorem twinNodes_spec (circuit : CircuitJson) (options : NetlistOptions) :
    ((twinNodes circuit options).map Runtime.lower).Nodup ∧
      (∀ s ∈ twinNodes circuit options, Runtime.lower s ∉
        ((buildNodeMap circuit.nets).map Prod.snd).map Runtime.lower) ∧
      ∀ s ∈ twinNodes circuit options, IsTwin ((buildNodeMap circuit.nets).map Prod.snd) s := by
  rcases deckPlan_cases circuit options with ⟨st, A, D, h, _, htwins⟩ | ⟨_, _, htwins⟩
  · rw [htwins]
    exact ⟨h.names.fresh, h.netNodes ▸ h.names.apart, h.netNodes ▸ h.names.twin⟩
  · rw [htwins]
    simp

theorem mem_midNodes {circuit : CircuitJson} {options : NetlistOptions} {s : Text}
    (h : s ∈ midNodes circuit options) : IsMid s := by
  obtain ⟨c, _, hs⟩ := List.mem_flatMap.mp h
  exact ⟨c.designator, isMid_of_mem_midsOf hs⟩

omit [Runtime] in
theorem not_hasNodePrefix_of_unnamed {s : Text} (h : s ∈ ["_wp", "_ws"].map String.toList) :
    ¬ HasNodePrefix s := by
  rintro ⟨r, rfl | rfl⟩ <;> simp at h

/-- The midpoints are distinct from each other and from the nodes of the nets. -/
theorem nodup_checkedNodes_midNodes {circuit : CircuitJson} {analysis : AnalysisConfig}
    {options : NetlistOptions} {parts : DeckParts}
    (run : DeckRun circuit analysis options parts) :
    ((checkedNodes circuit ++ midNodes circuit options).map Runtime.lower).Nodup := by
  set ctx := emitContext circuit options with hctx
  have hloop : LoopSpec ctx run.owners circuit.components parts.loop := emitLoop_spec run.emitted
  obtain ⟨hkeys, hkeyed⟩ := claimNodes_ok run.claimed
  rw [List.map_nil, List.nil_append, ← checkedNodes] at hkeys
  -- what the owners' map has checked
  have hclaimed : ((checkedNodes circuit).map Runtime.lower ++
      (circuit.components.flatMap (claimedMids ctx)).map Runtime.lower).Nodup := by
    have := hloop.keyed (hkeyed Map.Keyed.nil)
    rwa [Map.Keyed, hloop.keys, hkeys] at this
  -- what the device names leave of transformers without designator
  have hunnamed : (circuit.components.flatMap (unnamedMids ctx)).Nodup := by
    have hdev := nodup_of_checkDevices run.devices
    rw [List.map_append] at hdev
    exact nodup_unnamedMids hloop hdev.of_append_left
  have hforms : ∀ s ∈ circuit.components.flatMap (unnamedMids ctx),
      s ∈ ["_wp", "_ws"].map String.toList ∧ Runtime.lower s = s := by
    intro s hs
    obtain ⟨c, _, hc⟩ := List.mem_flatMap.mp hs
    have hs' := (unnamedMids_eq (List.ne_nil_of_mem hc)).1 ▸ hc
    refine ⟨hs', ?_⟩
    have hwords : ∀ s ∈ ["_wp", "_ws"].map String.toList,
        (∀ c ∈ s, isWord c = true) ∧ asciiLower s = s := by decide
    rw [Runtime.lower_of_isWord (hwords s hs').1, (hwords s hs').2]
  have hperm : (midNodes circuit options).Perm (circuit.components.flatMap (claimedMids ctx) ++
      circuit.components.flatMap (unnamedMids ctx)) := by
    have := List.flatMap_append_perm circuit.components (claimedMids ctx) (unnamedMids ctx)
    simp only [midsOf_eq] at this
    exact this.symm
  have hlow : (circuit.components.flatMap (unnamedMids ctx)).map Runtime.lower =
      circuit.components.flatMap (unnamedMids ctx) :=
    (List.map_congr_left fun s hs => (hforms s hs).2).trans (List.map_id _)
  refine (((hperm.append_left (checkedNodes circuit)).map Runtime.lower).nodup_iff).mpr ?_
  rw [← List.append_assoc, List.map_append, List.map_append, hlow, List.nodup_append]
  refine ⟨hclaimed, hunnamed, fun a ha b hb => ?_⟩
  have hb' := (hforms b hb).1
  rcases List.mem_append.mp ha with ha | ha
  · obtain ⟨s, hs, rfl⟩ := List.mem_map.mp ha
    exact fun e => not_hasNodePrefix_of_unnamed hb' (e ▸ lower_checkedNodes hs)
  · -- a checked midpoint has more in front of `_wp`
    obtain ⟨s, hs, rfl⟩ := List.mem_map.mp ha
    obtain ⟨c, _, hc⟩ := List.mem_flatMap.mp hs
    unfold claimedMids at hc
    split_ifs at hc with hd
    · simp at hc
    · have hlen : 3 < (Runtime.lower s).length := by
        have hne : Runtime.lower c.designator ≠ [] := fun e => hd (lower_eq_nil e)
        have := List.length_pos_iff.mpr hne
        rcases isMid_of_mem_midsOf hc with rfl | rfl
        · rw [lower_wp, List.length_append]
          simp
          omega
        · rw [lower_ws, List.length_append]
          simp
          omega
      have hthree : ∀ t ∈ ["_wp", "_ws"].map String.toList, t.length = 3 := by decide
      intro e
      rw [e, hthree b hb'] at hlen
      omega

theorem mem_nodeMap_of_mem_netNodes {circuit : CircuitJson}
    (hids : (circuit.nets.map Net.id).Nodup) {s : Text} (h : s ∈ netNodes circuit) :
    s ∈ (buildNodeMap circuit.nets).map Prod.snd :=
  (List.mem_filter.mp (checkedNodes_eq hids ▸ h)).1

theorem nodup_deckNodes {circuit : CircuitJson} {analysis : AnalysisConfig}
    {options : NetlistOptions} {parts : DeckParts} (hids : (circuit.nets.map Net.id).Nodup)
    (run : DeckRun circuit analysis options parts) :
    ((deckNodes circuit options).map Runtime.lower).Nodup := by
  obtain ⟨hfresh, hapart, htwin⟩ := twinNodes_spec circuit options
  have hperm : (deckNodes circuit options).Perm
      (netNodes circuit ++ midNodes circuit options ++ twinNodes circuit options) := by
    rw [deckNodes, List.append_assoc, List.append_assoc]
    exact List.perm_append_comm.append_left _
  refine ((hperm.map Runtime.lower).nodup_iff).mpr ?_
  rw [List.map_append, List.nodup_append]
  refine ⟨checkedNodes_eq hids ▸ nodup_checkedNodes_midNodes run, hfresh, fun a ha b hb => ?_⟩
  obtain ⟨s, hs, rfl⟩ := List.mem_map.mp ha
  obtain ⟨t, ht, rfl⟩ := List.mem_map.mp hb
  intro e
  rcases List.mem_append.mp hs with hs | hs
  · exact hapart t ht (List.mem_map.mpr ⟨s, mem_nodeMap_of_mem_netNodes hids hs, e⟩)
  · exact (htwin t ht).lower.1 (e ▸ (mem_midNodes hs).lower.lastWord_mem)

theorem zero_notMem_deckNodes (circuit : CircuitJson) (options : NetlistOptions) :
    "0".toList ∉ (deckNodes circuit options).map Runtime.lower := by
  intro h
  obtain ⟨s, hs, hzero⟩ := List.mem_map.mp h
  rw [deckNodes, List.mem_append, List.mem_append] at hs
  rcases hs with (hs | hs) | hs
  · exact (lower_netNodes hs).ne_zero hzero
  · exact ((twinNodes_spec circuit options).2.2 s hs).lower.2 hzero
  · exact (mem_midNodes hs).lower.ne_zero hzero

/-! ## Terminals -/

theorem nodeMap_value {circuit : CircuitJson} {g node : Text}
    (h : truthy ((buildNodeMap circuit.nets).get? g) = some node) :
    node = "0".toList ∨ node ∈ netNodes circuit := by
  obtain ⟨net, hnet, _, rfl⟩ := mem_nodeMap (Map.mem_of_get? (truthy_eq_some.mp h).1)
  cases hg : net.isGround
  · exact Or.inr (List.mem_map.mpr ⟨net, List.mem_filter.mpr ⟨hnet, by simp [hg]⟩, rfl⟩)
  · exact Or.inl (nodeOfNet_eq_zero_iff.mpr hg)

omit [Runtime] in
theorem transformerCards_terminals {designator pp pn sp sn : Text} {tp : TransformerParams} :
    ∀ card ∈ transformerCards designator pp pn sp sn tp, card.eventPorts = [] ∧
      ∀ t ∈ card.analogTerminals, t ∈ [pp, pn, sp, sn] ∨ t = "0".toList ∨
        t = (transformerMidNodes designator).1 ∨ t = (transformerMidNodes designator).2 := by
  unfold transformerCards
  refine List.forall_mem_append.mpr ⟨List.forall_mem_append.mpr ⟨?_, ?_⟩, ?_⟩
  · simp [Card.eventPorts, Card.analogTerminals, transformerMidNodes]
  · split_ifs <;> simp [Card.eventPorts, Card.analogTerminals]
  · split_ifs <;> simp [Card.eventPorts, Card.analogTerminals]

/-- The terminals of an analog device: nodes of its pins, midpoints and node 0. -/
theorem AnalogEmission.terminals {nodeMap : Map Text Text} {modelMap : Map Text ModelDef}
    {exprNodeMap : Map Text Text} {c : Component} {cards : List Card}
    (h : AnalogEmission nodeMap modelMap exprNodeMap c cards) :
    ∀ card ∈ cards, card.eventPorts = [] ∧ ∀ t ∈ card.analogTerminals,
      (∃ pin ∈ wiredPins modelMap c, truthy (nodeMap.get? pin.netId) = some t) ∨
      (c.type = .transformer ∧ (t = "0".toList ∨ t = (transformerMidNodes c.designator).1 ∨
        t = (transformerMidNodes c.designator).2)) := by
  cases h with
  | skipped _ _ => simp
  | element hpre hspec hres =>
    intro card hcard
    rw [List.mem_singleton.mp hcard]
    exact ⟨rfl, fun t ht => Or.inl ((hres.mem t).mp ht)⟩
  | transformer hty hp hres =>
    intro card hcard
    obtain ⟨hports, hterms⟩ := transformerCards_terminals card hcard
    refine ⟨hports, fun t ht => ?_⟩
    rcases hterms t ht with ht | ht
    · exact Or.inl ((hres.mem t).mp ht)
    · exact Or.inr ⟨hty, ht⟩

/-- The terminals of the synthesized devices. -/
theorem deviceLines_terminals {circuit : CircuitJson} {options : NetlistOptions} {card : Card}
    (hcard : card ∈ (deckPlan circuit options).deviceLines) {t : Text} (ht : t ∈ card.terminals) :
    t = "0".toList ∨ t ∈ netNodes circuit ∨ t ∈ twinNodes circuit options := by
  rcases deckPlan_cases circuit options with ⟨st, A, D, h, hplan, htwins⟩ | ⟨_, hplan, _⟩
  · rw [hplan] at hcard
    rw [htwins]
    have htwin : t ∈ A ∨ t ∈ D → t ∈ st.synthesized := fun hm =>
      h.parted.mem_iff.mpr (List.mem_append.mpr hm)
    rcases List.mem_append.mp ht with ht | ht
    · rcases (h.analog t).mp ⟨card, hcard, ht⟩ with hA | hside | hrail
      · exact Or.inr (Or.inr (htwin (Or.inl hA)))
      · obtain ⟨e, _, he⟩ := List.mem_filterMap.mp hside
        unfold analogSide at he
        split_ifs at he
        exact (nodeMap_value he).imp_right Or.inl
      · exact Or.inl hrail.2
    · rcases (h.event t).mp ⟨card, hcard, ht⟩ with hD | hside
      · exact Or.inr (Or.inr (htwin (Or.inr hD)))
      · obtain ⟨e, _, he⟩ := List.mem_filterMap.mp hside
        unfold eventSide at he
        split_ifs at he
        exact (nodeMap_value he).imp_right Or.inl
  · rw [hplan] at hcard
    simp at hcard

/-- The node of a digital port. -/
theorem portNode_value {circuit : CircuitJson} {options : NetlistOptions} {c : Component}
    {p t : Text}
    (h : portNode c (buildNodeMap circuit.nets) (deckPlan circuit options) p = some t) :
    t = "0".toList ∨ t ∈ netNodes circuit ∨ t ∈ twinNodes circuit options := by
  have htwin : ∀ {t}, truthy ((deckPlan circuit options).nodeOverride.get? (pinKey c.id p)) =
      some t ∨ (deckPlan circuit options).lowRailNode = some t → t ∈ twinNodes circuit options := by
    intro t ht
    rcases deckPlan_cases circuit options with ⟨st, A, D, h, hplan, htwins⟩ | ⟨_, hplan, _⟩
    · rw [hplan] at ht
      rw [htwins]
      refine h.parted.mem_iff.mpr (List.mem_append_right _ ?_)
      rcases ht with ht | ht
      · exact h.override_mem _ _ (truthy_eq_some.mp ht).1
      · exact h.lowRail_mem _ ht
    · rw [hplan] at ht
      simp [truthy] at ht
  unfold portNode at h
  rcases Option.or_eq_some_iff.mp h with h | ⟨_, h⟩
  · unfold pinNode at h
    rcases Option.or_eq_some_iff.mp h with h | ⟨_, h⟩
    · exact Or.inr (Or.inr (htwin (Or.inl h)))
    · obtain ⟨pin, _, hpin⟩ := Option.bind_eq_some_iff.mp h
      exact (nodeMap_value hpin).imp_right Or.inl
  · split_ifs at h
    exact Or.inr (Or.inr (htwin (Or.inr h)))

/-- Every terminal of a card is on node 0 or on one of the deck's nodes. -/
theorem terminals_deckNodes {circuit : CircuitJson} {analysis : AnalysisConfig}
    {options : NetlistOptions} {parts : DeckParts}
    (run : DeckRun circuit analysis options parts) {card : Card}
    (hcard : card ∈ parts.loop.cards ++ (deckPlan circuit options).deviceLines) {t : Text}
    (ht : t ∈ card.terminals) : t = "0".toList ∨ t ∈ deckNodes circuit options := by
  have hloop := emitLoop_spec run.emitted
  have hmem : (t ∈ netNodes circuit ∨ t ∈ twinNodes circuit options) →
      t ∈ deckNodes circuit options := fun h =>
    List.mem_append_left _ (List.mem_append.mpr h)
  rcases List.mem_append.mp hcard with hcard | hcard
  · rw [hloop.cards] at hcard
    obtain ⟨c, hc, hcard⟩ := List.mem_flatMap.mp hcard
    cases hdig : c.type.isDigital
    · obtain ⟨hports, hterms⟩ := (cardsOf_emission (hloop.emits c hc) hdig).terminals card hcard
      rw [Card.terminals, hports, List.append_nil] at ht
      rcases hterms t ht with ⟨pin, _, hpin⟩ | ⟨hty, h | h⟩
      · exact (nodeMap_value hpin).imp_right fun h => hmem (Or.inl h)
      · exact Or.inl h
      · refine Or.inr (List.mem_append_right _ (List.mem_flatMap.mpr ⟨c, hc, ?_⟩))
        rw [midsOf, if_pos ⟨hty, List.ne_nil_of_mem hcard⟩]
        simpa using h
    · obtain ⟨x, hx, hcards⟩ := cardsOf_digital (hloop.emits c hc) hdig
      rw [hcards] at hcard
      cases hx with
      | device _ _ hres hports hterms _ =>
        rw [Option.toList_some, List.mem_singleton] at hcard
        rw [hcard, Card.terminals, hports, hterms, List.nil_append] at ht
        obtain ⟨p, _, hp⟩ := Outcome.exists_of_mem_right hres ht
        exact (portNode_value hp).imp_right hmem
      | _ => simp at hcard
  · exact (deviceLines_terminals hcard ht).imp_right hmem

/-- Distinct electrical nodes have distinct names, no name is node 0, and the
devices touch no other nodes. -/
theorem deckNodes_apart {now : Timestamp} {circuit : CircuitJson} {analysis : AnalysisConfig}
    {options : NetlistOptions} {d : Deck} (hids : (circuit.nets.map Net.id).Nodup)
    (h : generateDeck now circuit analysis options = .ok d) :
    ((deckNodes circuit options).map Runtime.lower).Nodup ∧
      "0".toList ∉ (deckNodes circuit options).map Runtime.lower ∧
      ∀ card ∈ d.components, ∀ t ∈ card.terminals,
        t = "0".toList ∨ t ∈ deckNodes circuit options := by
  obtain ⟨parts, ⟨run⟩, rfl⟩ := generateDeck_ok h
  exact ⟨nodup_deckNodes hids run, zero_notMem_deckNodes circuit options,
    fun _ hcard _ ht => terminals_deckNodes run hcard ht⟩

end

/-- A source, an inverter, a flip-flop without preset and a transformer, with a net
named like a digital twin. -/
def splitBoard : CircuitJson where
  nets := [⟨"gnd".toList, [], true, false⟩, ⟨"in".toList, [], false, false⟩,
    ⟨"x_in_d".toList, [], false, false⟩, ⟨"out".toList, [], false, false⟩,
    ⟨"q".toList, [], false, false⟩, ⟨"qb".toList, [], false, false⟩]
  components := [
    { id := ['1'], type := .voltageSource, designator := "V1".toList
      pins := [⟨"+".toList, "in".toList⟩, ⟨"-".toList, "gnd".toList⟩] },
    { id := ['2'], type := .logicNot, designator := "U1".toList
      pins := [⟨"in1".toList, "in".toList⟩, ⟨"out".toList, "out".toList⟩] },
    { id := ['3'], type := .dff, designator := "U2".toList
      pins := [⟨"d".toList, "out".toList⟩, ⟨"clk".toList, "in".toList⟩,
        ⟨"q".toList, "q".toList⟩, ⟨"qb".toList, "qb".toList⟩] },
    { id := ['4'], type := .transformer, designator := "T1".toList
      pins := [⟨"p+".toList, "in".toList⟩, ⟨"p-".toList, "gnd".toList⟩,
        ⟨"s+".toList, "x_in_d".toList⟩, ⟨"s-".toList, "gnd".toList⟩]
      properties := some [("primaryInductance".toList, .str "1m".toList),
        ("secondaryInductance".toList, .str "4m".toList)] }]

/-- Midnight of the epoch. -/
def epoch : Timestamp := ⟨"1970-01-01T00:00:00.000Z".toList, by decide⟩

theorem deckNodes_apart_splitBoard :
    ∃ d, generateDeck epoch splitBoard (.op {}) = .ok d ∧
      (((deckNodes splitBoard {}).map Runtime.lower).Nodup ∧
        "0".toList ∉ (deckNodes splitBoard {}).map Runtime.lower ∧
        ∀ card ∈ d.components, ∀ t ∈ card.terminals,
          t = "0".toList ∨ t ∈ deckNodes splitBoard {}) := by
  obtain ⟨d, hd, _⟩ := Outcome.exists_ok (x := generateDeck epoch splitBoard (.op {}))
    (p := fun _ => true) (by decide +kernel)
  exact ⟨d, hd, deckNodes_apart (by decide) hd⟩

end CircuitForge
