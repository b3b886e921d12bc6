/-
Layers of a graph.

The breadth-first walk gives a node the layer after the one it is met from, and starts
again at layer 0 where the queue runs out before every node is met.  The depth of a node
is one more than that of the deepest node that feeds it, where a node whose depth is
still being found counts as 0.

Both have fuel for every node.  The walk meets all of them, and a node that no node leads
to, or that none feeds, is in layer 0.
-/
import CircuitForge.Js.Map
import CircuitForge.Js.Worklist

namespace Layering

open Js

variable {α : Type} [DecidableEq α]

/-! ## Breadth first -/

/-- The layer of every node met, and the nodes still to walk on from. -/
structure Walk (α : Type) where
  layer : Map α Nat := []
  queue : List α := []

def Walk.start (w : Walk α) (x : α) (n : Nat) : Walk α :=
  { layer := w.layer.set x n, queue := w.queue ++ [x] }

/-- The nodes not met yet come into layer `n`. -/
def Walk.visit (w : Walk α) (n : Nat) (xs : List α) : Walk α :=
  xs.foldl (fun w x => if w.layer.has x then w else w.start x n) w

/-- An empty queue is filled with a node not met yet. -/
def Walk.resume (stranded : Map α Nat → Option α) (w : Walk α) : Walk α :=
  if w.queue = [] then
    match stranded w.layer with
    | some x => w.start x 0
    | none => w
  else w

def walk (next : α → List α) (stranded : Map α Nat → Option α) :
    Nat → Walk α → Option (Map α Nat)
  | _, ⟨layer, []⟩ => some layer
  | 0, ⟨_, _ :: _⟩ => none
  | n + 1, ⟨layer, x :: queue⟩ =>
    let met : Walk α := ⟨layer, queue⟩
    walk next stranded n
      ((met.visit ((layer.get? x).getD 0 + 1) (next x)).resume stranded)

/-- Every node that is met is one of `u`, and is in layer 0 if no node leads to it. -/
structure Walk.Within (next : α → List α) (u : List α) (w : Walk α) : Prop where
  keyed : w.layer.Keyed
  subset : ∀ x ∈ w.layer.map Prod.fst, x ∈ u
  zero : ∀ x n, w.layer.get? x = some n → (∀ y, x ∉ next y) → n = 0

/-- What is left to do: the queue, and the nodes not met. -/
def Walk.left (u : List α) (w : Walk α) : Nat :=
  w.queue.length + (Worklist.unseen u (w.layer.map Prod.fst)).length

variable {next : α → List α} {stranded : Map α Nat → Option α} {u : List α} {w : Walk α}

theorem has_eq_false_iff {m : Map α Nat} {x : α} :
    m.has x = false ↔ x ∉ m.map Prod.fst := by
  rw [← Map.get?_eq_none_iff, Map.has, Option.isSome_eq_false_iff, Option.isNone_iff_eq_none]

/-- A new node is taken out of what is not met, and put into the queue. -/
theorem left_start {x : α} (hx : x ∈ u) (hnew : w.layer.has x = false) (n : Nat) :
    (w.start x n).left u ≤ w.left u := by
  have hkey := has_eq_false_iff.mp hnew
  have hless : (Worklist.unseen u (w.layer.map Prod.fst ++ [x])).length + [x].length ≤ _ :=
    Worklist.length_unseen (List.nodup_singleton x) fun y hy => by
      rw [List.mem_singleton.mp hy]
      exact ⟨hkey, hx⟩
  rw [List.length_singleton] at hless
  rw [Walk.left, Walk.left, Walk.start, Map.keys_set, if_neg hkey, List.length_append,
    List.length_singleton]
  omega

theorem Walk.Within.start {x : α} (h : w.Within next u) (hx : x ∈ u) {n : Nat}
    (hzero : (∀ y, x ∉ next y) → n = 0) : (w.start x n).Within next u where
  keyed := h.keyed.set x n
  subset := by
    intro y hy
    rw [Walk.start, Map.keys_set] at hy
    split at hy
    · exact h.subset y hy
    · rcases List.mem_append.mp hy with hy | hy
      · exact h.subset y hy
      · rwa [List.mem_singleton.mp hy]
  zero := by
    intro y m hm hlone
    rw [Walk.start, Map.get?_set] at hm
    split at hm
    · rename_i hxy
      subst hxy
      exact Option.some.inj hm ▸ hzero hlone
    · exact h.zero y m hm hlone

/-- A visit to nodes that `from'` leads to. -/
theorem Walk.Within.visit {xs : List α} {from' : α} (h : w.Within next u)
    (hnext : ∀ x ∈ xs, x ∈ next from') (hu : ∀ x ∈ xs, x ∈ u) (n : Nat) :
    (w.visit n xs).Within next u ∧ (w.visit n xs).left u ≤ w.left u := by
  induction xs generalizing w with
  | nil => exact ⟨h, Nat.le_refl _⟩
  | cons x xs ih =>
    rw [List.forall_mem_cons] at hnext hu
    rw [Walk.visit, List.foldl_cons, ← Walk.visit]
    by_cases hx : w.layer.has x = true
    · rw [if_pos hx]
      exact ih h hnext.2 hu.2
    · have hnew : w.layer.has x = false := Bool.eq_false_iff.mpr hx
      rw [if_neg hx]
      obtain ⟨hwithin, hleft⟩ :=
        ih (h.start hu.1 fun hlone => absurd hnext.1 (hlone from')) hnext.2 hu.2
      exact ⟨hwithin, Nat.le_trans hleft (left_start hu.1 hnew n)⟩

/-- The choice of a stranded node: one that is not met, as long as there are such. -/
structure Strands (u : List α) (stranded : Map α Nat → Option α) : Prop where
  new : ∀ m x, stranded m = some x → x ∈ u ∧ m.has x = false
  all : ∀ m, stranded m = none → ∀ x ∈ u, m.has x = true

/-- With an empty queue every node has been met. -/
def Walk.Over (u : List α) (w : Walk α) : Prop := w.queue = [] → ∀ x ∈ u, w.layer.has x = true

theorem Walk.Within.resume (h : w.Within next u) (hs : Strands u stranded) :
    (w.resume stranded).Within next u ∧ (w.resume stranded).left u ≤ w.left u ∧
      (w.resume stranded).Over u := by
  unfold Walk.resume
  by_cases hq : w.queue = []
  · rw [if_pos hq]
    cases hx : stranded w.layer with
    | none => exact ⟨h, Nat.le_refl _, fun _ => hs.all _ hx⟩
    | some x =>
      obtain ⟨hu, hnew⟩ := hs.new _ x hx
      refine ⟨h.start hu fun _ => rfl, left_start hu hnew 0, fun hnil => ?_⟩
      exact absurd hnil (List.append_ne_nil_of_right_ne_nil _ (List.cons_ne_nil x []))
  · rw [if_neg hq]
    exact ⟨h, Nat.le_refl _, fun hnil => absurd hnil hq⟩

/-- With fuel for what is left the walk comes to its end, and meets every node. -/
theorem walk_spec (hu : ∀ x, ∀ y ∈ next x, y ∈ u) (hs : Strands u stranded) {n : Nat}
    (h : w.Within next u) (hover : w.Over u) (hfuel : w.left u ≤ n) :
    ∃ layer, walk next stranded n w = some layer ∧ Walk.Within next u ⟨layer, []⟩ ∧
      ∀ x ∈ u, layer.has x = true := by
  induction n generalizing w with
  | zero =>
    obtain ⟨layer, queue⟩ := w
    cases queue with
    | nil => exact ⟨layer, by rw [walk], h, hover rfl⟩
    | cons x queue =>
      rw [Walk.left, List.length_cons] at hfuel
      omega
  | succ n ih =>
    obtain ⟨layer, queue⟩ := w
    cases queue with
    | nil => exact ⟨layer, by rw [walk], h, hover rfl⟩
    | cons x queue =>
      have hmet : Walk.Within next u ⟨layer, queue⟩ := ⟨h.keyed, h.subset, h.zero⟩
      obtain ⟨hvisit, hvisitLeft⟩ :=
        hmet.visit (fun y hy => hy) (hu x) ((layer.get? x).getD 0 + 1)
      obtain ⟨hresume, hresumeLeft, hresumeOver⟩ := hvisit.resume hs
      rw [walk]
      refine ih hresume hresumeOver ?_
      have hpop : (⟨layer, x :: queue⟩ : Walk α).left u = (⟨layer, queue⟩ : Walk α).left u + 1 := by
        simp only [Walk.left, List.length_cons]
        omega
      omega

/-! ## Depths -/

/-- The depths found, and the nodes whose depth is being found. -/
structure Depths (α : Type) where
  known : Map α Nat := []
  walking : List α := []

/-- The deepest so far, and the node `f`. -/
def deeper (depth : α → Depths α → Option (Nat × Depths α)) (deepest : Nat × Depths α) (f : α) :
    Option (Nat × Depths α) :=
  (depth f deepest.2).map fun d => (max deepest.1 (d.1 + 1), d.2)

def depthOf (feeders : α → List α) : Nat → α → Depths α → Option (Nat × Depths α)
  | 0, _, _ => none
  | n + 1, x, st =>
    match st.known.get? x with
    | some known => some (known, st)
    | none =>
      if x ∈ st.walking then some (0, st)
      else
        ((feeders x).foldlM (deeper (depthOf feeders n))
          (0, { st with walking := st.walking ++ [x] })).map
        fun deepest => (deepest.1,
          ⟨deepest.2.known.set x deepest.1, deepest.2.walking.filter (· ≠ x)⟩)

/-- The depths of some nodes, one after the other. -/
def depths (feeders : α → List α) (n : Nat) (xs : List α) : Option (Map α Nat) :=
  (xs.foldlM (fun st x => (depthOf feeders n x st).map Prod.snd) ({} : Depths α)).map Depths.known

/-- What is not fed has depth 0. -/
def Depths.Grounded (feeders : α → List α) (st : Depths α) : Prop :=
  ∀ x n, st.known.get? x = some n → feeders x = [] → n = 0

theorem Depths.Grounded.set {feeders : α → List α} {st : Depths α} (h : st.Grounded feeders)
    {x : α} {d : Nat} (hd : feeders x = [] → d = 0) (walking : List α) :
    Depths.Grounded feeders ⟨st.known.set x d, walking⟩ := by
  intro y m hm hnone
  rw [Map.get?_set] at hm
  split at hm
  · rename_i hxy
    subst hxy
    exact Option.some.inj hm ▸ hd hnone
  · exact h y m hm hnone

/-- A loop over nodes whose depths are found, with the same nodes being walked. -/
theorem foldlM_deeper {feeders : α → List α} {walking : List α}
    {depth : α → Depths α → Option (Nat × Depths α)} {fs : List α}
    (hdepth : ∀ f ∈ fs, ∀ st : Depths α, st.walking = walking → st.Grounded feeders →
      ∃ d st', depth f st = some (d, st') ∧ st'.walking = walking ∧ st'.Grounded feeders)
    (acc : Nat × Depths α) (hwalk : acc.2.walking = walking) (hground : acc.2.Grounded feeders) :
    ∃ acc' : Nat × Depths α, fs.foldlM (deeper depth) acc = some acc' ∧
      acc'.2.walking = walking ∧ acc'.2.Grounded feeders ∧ (fs = [] → acc' = acc) := by
  induction fs generalizing acc with
  | nil => exact ⟨acc, rfl, hwalk, hground, fun _ => rfl⟩
  | cons f fs ih =>
    rw [List.forall_mem_cons] at hdepth
    obtain ⟨d, st', hd, hwalk', hground'⟩ := hdepth.1 acc.2 hwalk hground
    obtain ⟨acc', hacc, hwalk'', hground'', -⟩ :=
      ih hdepth.2 (max acc.1 (d + 1), st') hwalk' hground'
    refine ⟨acc', ?_, hwalk'', hground'', fun hnil => absurd hnil (List.cons_ne_nil _ _)⟩
    rw [List.foldlM_cons, deeper, hd]
    exact hacc

theorem filter_ne_append_self {x : α} {xs : List α} (hx : x ∉ xs) :
    (xs ++ [x]).filter (· ≠ x) = xs := by
  rw [List.filter_append, List.filter_eq_self.mpr, List.filter_eq_nil_iff.mpr, List.append_nil]
  · intro y hy
    simp [List.mem_singleton.mp hy]
  · exact fun y hy => decide_eq_true fun he => hx (he ▸ hy)

/-- With fuel for the nodes not being walked the depth is found. -/
theorem depthOf_spec {feeders : α → List α} {u : List α} (hu : ∀ x, ∀ y ∈ feeders x, y ∈ u)
    {n : Nat} {x : α} {st : Depths α} (hx : x ∈ u) (hst : st.Grounded feeders)
    (hfuel : (Worklist.unseen u st.walking).length < n) :
    ∃ d st', depthOf feeders n x st = some (d, st') ∧ st'.walking = st.walking ∧
      st'.Grounded feeders := by
  induction n generalizing x st with
  | zero => exact absurd hfuel (Nat.not_lt_zero _)
  | succ n ih =>
    rw [depthOf]
    cases hknown : st.known.get? x with
    | some known => exact ⟨known, st, rfl, rfl, hst⟩
    | none =>
      by_cases hw : x ∈ st.walking
      · exact ⟨0, st, by simp only [if_pos hw], rfl, hst⟩
      · -- the walk on is over the feeders, with `x` among the nodes being walked
        have hless : (Worklist.unseen u (st.walking ++ [x])).length + [x].length ≤
            (Worklist.unseen u st.walking).length :=
          Worklist.length_unseen (List.nodup_singleton x) fun y hy => by
            rw [List.mem_singleton.mp hy]
            exact ⟨hw, hx⟩
        rw [List.length_singleton] at hless
        have hfeeder : ∀ f ∈ feeders x, ∀ st' : Depths α, st'.walking = st.walking ++ [x] →
            st'.Grounded feeders → ∃ d st'', depthOf feeders n f st' = some (d, st'') ∧
              st''.walking = st.walking ++ [x] ∧ st''.Grounded feeders := by
          intro f hf st' hwalk hground
          have h := ih (hu x f hf) hground (by rw [hwalk]; omega)
          rwa [hwalk] at h
        obtain ⟨acc, hacc, hwalk, hground, hnil⟩ := foldlM_deeper hfeeder
          (0, { st with walking := st.walking ++ [x] }) rfl hst
        refine ⟨acc.1, ⟨acc.2.known.set x acc.1, acc.2.walking.filter (· ≠ x)⟩, ?_, ?_, ?_⟩
        · simp only [if_neg hw, hacc, Option.map_some]
        · show acc.2.walking.filter (· ≠ x) = st.walking
          rw [hwalk, filter_ne_append_self hw]
        · exact hground.set (fun h => by rw [hnil h]) _

/-- With fuel for every node all the depths are found. -/
theorem depths_spec {feeders : α → List α} {u : List α} (hu : ∀ x, ∀ y ∈ feeders x, y ∈ u)
    {xs : List α} (hxs : ∀ x ∈ xs, x ∈ u) {n : Nat} (hn : u.length < n) :
    ∃ m, depths feeders n xs = some m ∧ ∀ x d, m.get? x = some d → feeders x = [] → d = 0 := by
  have hfuel : (Worklist.unseen u []).length < n :=
    Nat.lt_of_le_of_lt (Nat.le_trans (List.length_filter_le _ _) u.dedup_sublist.length_le) hn
  have hrun : ∀ (xs : List α) (st : Depths α), (∀ x ∈ xs, x ∈ u) → st.walking = [] →
      st.Grounded feeders → ∃ st', xs.foldlM
        (fun st x => (depthOf feeders n x st).map Prod.snd) st = some st' ∧
        st'.Grounded feeders := by
    intro xs
    induction xs with
    | nil => exact fun st _ _ hst => ⟨st, rfl, hst⟩
    | cons x xs ih =>
      intro st hxs hwalk hst
      rw [List.forall_mem_cons] at hxs
      obtain ⟨d, st', hd, hwalk', hst'⟩ := depthOf_spec hu hxs.1 hst (by rwa [hwalk])
      obtain ⟨st'', hrest, hground⟩ := ih st' hxs.2 (hwalk'.trans hwalk) hst'
      refine ⟨st'', ?_, hground⟩
      rw [List.foldlM_cons, hd]
      exact hrest
  obtain ⟨st, hst, hground⟩ := hrun xs {} hxs rfl fun x d h _ => nomatch h
  exact ⟨st.known, by rw [depths, hst, Option.map_some], hground⟩

end Layering
