/-
The rotation sweep, plain and incremental: `rotationSweep` of `pcb-core/src/placement.ts` and
`rotation_sweep` of `pcb-placement-rs/src/placer.rs`.

A part takes the rotation that brings its pads closest to the centers of their nets, less its own
pads.  One engine scans every pad for a center; the other keeps the sums of all nets, takes a
part's own pads off them and renews them where a part turns.  Numbers are exact, and no part is
pinned.
-/
import CircuitForge.Js.Tallies
import CircuitForge.Types.Ui
import Mathlib.Algebra.Field.Rat
import Mathlib.Algebra.Order.BigOperators.Group.List
import Mathlib.Algebra.Order.Field.Basic
import Mathlib.Algebra.Order.Ring.Rat
import Mathlib.Data.List.FinRange
import Mathlib.Data.Rat.Sqrt
import Mathlib.Tactic.Abel

namespace CircuitForge.Placement

open Js Tallies

/-! ## Parts -/

/-- `PlaceablePad` and `Pad`; a pad without a net has the empty one. -/
structure Pad (K : Type) where
  x : K
  y : K
  net : Text

/-- `PlaceablePart` and `Part`, as far as a sweep reads them. -/
structure Part (K : Type) where
  pads : List (Pad K)

/-- `State`: where each part is, and how it is turned. -/
@[ext] structure State (n : Nat) (K : Type) where
  x : Fin n → K
  y : Fin n → K
  r : Fin n → Turn

section

variable {K : Type} [Field K] {n : Nat}

/-- A pad of a part at a place, turned. -/
def padAt (x y : K) (r : Turn) (pad : Pad K) : K × K :=
  let p := rotatePoint r (pad.x, pad.y)
  (x + p.1, y + p.2)

/-- A part takes another rotation. -/
def State.turn (st : State n K) (i : Fin n) (r : Turn) : State n K :=
  { st with r := Function.update st.r i r }

omit [Field K] in
theorem State.turn_self (st : State n K) (i : Fin n) (r : Turn) : (st.turn i r).r i = r := by
  unfold State.turn
  exact Function.update_self i r st.r

omit [Field K] in
theorem State.turn_of_ne (st : State n K) {i j : Fin n} (h : j ≠ i) (r : Turn) :
    (st.turn i r).r j = st.r j := by
  unfold State.turn
  exact Function.update_of_ne h r st.r

variable [LinearOrder K] (sqrt : K → K) (netWeights : Map Text K) (parts : Fin n → Part K)

/-- The term of one pad, for the center of its net less the part's own pads. -/
def padScore (center : Text → Option (K × K)) (x y : K) (r : Turn) (pad : Pad K) : K :=
  if pad.net = [] then 0
  else
    let w := (netWeights.get? pad.net).getD 1
    if w ≤ 0 then 0
    else
      match center pad.net with
      | none => 0
      | some c =>
        let p := padAt x y r pad
        let dx := p.1 - c.1
        let dy := p.2 - c.2
        w * sqrt (dx * dx + dy * dy)

/-- `score`. -/
def score (center : Text → Option (K × K)) (p : Part K) (x y : K) (r : Turn) : K :=
  p.pads.foldl (fun s pad => s + padScore sqrt netWeights center x y r pad) 0

/-- The search over the four rotations; no score yet is `Infinity`. -/
def bestTurn (score : Turn → K) (now : Turn) : Turn :=
  ([Turn.deg0, .deg90, .deg180, .deg270].foldl (fun best r =>
    match best.2 with
    | none => (r, some (score r))
    | some b => if score r < b - 1 / 1000000000 then (r, some (score r)) else best)
    (now, (none : Option K))).1

/-! ## The plain sweep -/

/-- `padWorld`. -/
def padWorld (st : State n K) (i : Fin n) (pad : Pad K) : K × K :=
  padAt (st.x i) (st.y i) (st.r i) pad

/-- The pads of a net on all parts but one. -/
def othersOn (st : State n K) (i : Fin n) (net : Text) : List (K × K) :=
  ((List.finRange n).filter (· ≠ i)).flatMap fun j =>
    ((parts j).pads.filter (·.net = net)).map (padWorld st j)

/-- The center of a net without the pads of one part. -/
def centroid (st : State n K) (i : Fin n) (net : Text) : Option (K × K) :=
  let others := othersOn parts st i net
  if others.length = 0 then none
  else some ((others.map Prod.fst).sum / others.length, (others.map Prod.snd).sum / others.length)

/-- One turn of the loop of `rotationSweep`. -/
def rotatePart (st : State n K) (i : Fin n) : State n K :=
  if (parts i).pads.length < 2 then st
  else
    st.turn i (bestTurn
      (score sqrt netWeights (centroid parts st i) (parts i) (st.x i) (st.y i)) (st.r i))

/-- `rotationSweep`. -/
def rotationSweep (st : State n K) (order : List (Fin n)) : State n K :=
  order.foldl (rotatePart sqrt netWeights parts) st

/-! ## The incremental sweep -/

/-- The pads of a part that have a net, each with its net. -/
def spotsOf (p : Part K) (x y : K) (r : Turn) : List (Text × K × K) :=
  (p.pads.filter (·.net ≠ [])).map fun pad => (pad.net, padAt x y r pad)

/-- `own_net_sums`. -/
def ownNetSums (p : Part K) (x y : K) (r : Turn) : Map Text (K × K × K) :=
  creditAll ((spotsOf p x y r).map fun e => (e.1, e.2.1, e.2.2, 1)) []

/-- `sum_x`, `sum_y` and `cnt`. -/
structure NetSums (K : Type) where
  sumX : Map Text K
  sumY : Map Text K
  cnt : Map Text K

/-- The pads of all parts that have a net. -/
def netSpots (st : State n K) : List (Text × K × K) :=
  (List.finRange n).flatMap fun i => spotsOf (parts i) (st.x i) (st.y i) (st.r i)

/-- The sums from scratch. -/
def netSums (st : State n K) : NetSums K where
  sumX := creditAll ((netSpots parts st).map fun e => (e.1, e.2.1)) []
  sumY := creditAll ((netSpots parts st).map fun e => (e.1, e.2.2)) []
  cnt := creditAll ((netSpots parts st).map fun e => (e.1, 1)) []

/-- The sums of the nets of one part, less or plus its own. -/
def NetSums.adjust (op : K → K → K) (sums : NetSums K) (own : Map Text (K × K × K)) : NetSums K :=
  own.foldl (fun sums e =>
    match sums.sumX.get? e.1, sums.sumY.get? e.1 with
    | some sx, some sy =>
      { sums with
        sumX := sums.sumX.set e.1 (op sx e.2.1), sumY := sums.sumY.set e.1 (op sy e.2.2.1) }
    | _, _ => sums) sums

/-- The center of a net, from its sums less those of one part. -/
def NetSums.centroid (sums : NetSums K) (own : Map Text (K × K × K)) (net : Text) :
    Option (K × K) :=
  let o := (own.get? net).getD (0, 0, 0)
  let others := (sums.cnt.get? net).getD 0 - o.2.2
  if others ≤ 0 then none
  else
    some (((sums.sumX.get? net).getD 0 - o.1) / others,
      ((sums.sumY.get? net).getD 0 - o.2.1) / others)

/-- One turn of the loop of `rotation_sweep`. -/
def rotatePartCached (acc : State n K × NetSums K) (i : Fin n) : State n K × NetSums K :=
  let st := acc.1
  let p := parts i
  if p.pads.length < 2 then acc
  else
    let own := ownNetSums p (st.x i) (st.y i) (st.r i)
    let best := bestTurn
      (score sqrt netWeights (acc.2.centroid own) p (st.x i) (st.y i)) (st.r i)
    if best ≠ st.r i then
      let newOwn := ownNetSums p (st.x i) (st.y i) best
      (st.turn i best, (acc.2.adjust (· - ·) own).adjust (· + ·) newOwn)
    else acc

/-- `rotation_sweep`, with the sums it ends with. -/
def rotationSweepCached (st : State n K) (order : List (Fin n)) : State n K × NetSums K :=
  order.foldl (rotatePartCached sqrt netWeights parts) (st, netSums parts st)

end

/-! ## Own pads and others -/

section

variable {K : Type} [Field K] {n : Nat} (parts : Fin n → Part K)

/-- The pads that have a net, of all parts but one. -/
def otherSpots (st : State n K) (i : Fin n) : List (Text × K × K) :=
  ((List.finRange n).filter (· ≠ i)).flatMap fun j =>
    spotsOf (parts j) (st.x j) (st.y j) (st.r j)

/-- The pads are those of one part and those of the others. -/
theorem netSpots_perm (st : State n K) (i : Fin n) :
    (netSpots parts st).Perm
      (spotsOf (parts i) (st.x i) (st.y i) (st.r i) ++ otherSpots parts st i) := by
  have hperm : (List.finRange n).Perm (i :: (List.finRange n).filter (· ≠ i)) := by
    refine (List.perm_cons_erase (List.mem_finRange i)).trans ?_
    rw [(List.nodup_finRange n).erase_eq_filter]
    refine List.Perm.of_eq (congrArg (i :: ·) (List.filter_congr fun j _ => ?_))
    by_cases h : j = i <;> simp [h]
  exact hperm.flatMap_right _

/-- The others stay where they are. -/
theorem otherSpots_turn (st : State n K) (i : Fin n) (r : Turn) :
    otherSpots parts (st.turn i r) i = otherSpots parts st i := by
  unfold otherSpots
  refine List.flatMap_congr fun j hj => ?_
  have hne : j ≠ i := of_decide_eq_true (List.mem_filter.mp hj).2
  rw [st.turn_of_ne hne]
  rfl

/-- What a net has in the sums, pads by pads: on one part and on the others. -/
theorem total_netSpots {G : Type} [AddCommMonoid G] (f : K × K → G) (st : State n K) (i : Fin n)
    (net : Text) :
    total ((netSpots parts st).map fun e => (e.1, f e.2)) net =
      total ((spotsOf (parts i) (st.x i) (st.y i) (st.r i)).map fun e => (e.1, f e.2)) net +
        total ((otherSpots parts st i).map fun e => (e.1, f e.2)) net := by
  rw [total_perm ((netSpots_perm parts st i).map _), List.map_append, total_append]

/-- A scan for a net that is not the empty one finds the pads of the others. -/
theorem total_otherSpots {G : Type} [AddCommMonoid G] (f : K × K → G) (st : State n K) (i : Fin n)
    {net : Text} (hnet : net ≠ []) :
    total ((otherSpots parts st i).map fun e => (e.1, f e.2)) net =
      ((othersOn parts st i net).map f).sum := by
  have hpads (p : Part K) (x y : K) (r : Turn) :
      (((spotsOf p x y r).map fun e => (e.1, f e.2)).filter (·.1 = net)).map Prod.snd =
        ((p.pads.filter (·.net = net)).map (padAt x y r)).map f := by
    rw [spotsOf, List.map_map, List.filter_map, List.filter_filter, List.map_map, List.map_map]
    refine congrArg (List.map _) (List.filter_congr fun pad _ => ?_)
    by_cases h : pad.net = net
    · simp [h, hnet]
    · simp [h]
  unfold total otherSpots othersOn
  rw [List.map_flatMap, List.filter_flatMap, List.map_flatMap, List.map_flatMap]
  simp only [hpads]
  rfl

end

/-! ## Sums kept up to date -/

section

variable {K : Type} {n : Nat}

/-- The same sums, in whatever order the nets come. -/
structure NetSums.Agrees (s t : NetSums K) : Prop where
  sumX : ∀ net, s.sumX.get? net = t.sumX.get? net
  sumY : ∀ net, s.sumY.get? net = t.sumY.get? net
  cnt : ∀ net, s.cnt.get? net = t.cnt.get? net

/-- Both sums of every net of the part are there. -/
def NetSums.Has (sums : NetSums K) (own : Map Text (K × K × K)) : Prop :=
  ∀ net ∈ own.map Prod.fst, (sums.sumX.get? net).isSome ∧ (sums.sumY.get? net).isSome

/-- A renewal reaches the nets of the part, and these only. -/
theorem NetSums.get_adjust (op : K → K → K) {sums : NetSums K} {own : Map Text (K × K × K)}
    (hkeyed : own.Keyed) (hhas : sums.Has own) (net : Text) :
    (sums.adjust op own).sumX.get? net =
        ((own.get? net).elim (sums.sumX.get? net) fun o =>
          (sums.sumX.get? net).map fun v => op v o.1) ∧
      (sums.adjust op own).sumY.get? net =
        ((own.get? net).elim (sums.sumY.get? net) fun o =>
          (sums.sumY.get? net).map fun v => op v o.2.1) ∧
      (sums.adjust op own).cnt = sums.cnt := by
  induction own generalizing sums with
  | nil => exact ⟨rfl, rfl, rfl⟩
  | cons e own ih =>
    obtain ⟨hfresh, hkeyed⟩ := List.nodup_cons.mp hkeyed
    obtain ⟨hx, hy⟩ := hhas e.1 List.mem_cons_self
    obtain ⟨sx, hsx⟩ := Option.isSome_iff_exists.mp hx
    obtain ⟨sy, hsy⟩ := Option.isSome_iff_exists.mp hy
    set next : NetSums K :=
      { sums with
        sumX := sums.sumX.set e.1 (op sx e.2.1), sumY := sums.sumY.set e.1 (op sy e.2.2.1) }
    have hstep : sums.adjust op (e :: own) = next.adjust op own := by
      unfold NetSums.adjust
      rw [List.foldl_cons, hsx, hsy]
    have hnext : next.Has own := by
      intro k hk
      have hne : e.1 ≠ k := fun h => hfresh (h ▸ hk)
      obtain ⟨hkx, hky⟩ := hhas k (List.mem_cons_of_mem _ hk)
      exact ⟨by rwa [Map.get?_set_ne hne], by rwa [Map.get?_set_ne hne]⟩
    obtain ⟨ihx, ihy, ihc⟩ := ih hkeyed hnext
    rw [hstep, Map.get?_cons]
    by_cases hk : e.1 = net
    · subst hk
      have hnone : Map.get? own e.1 = none := Map.get?_eq_none_iff.mpr hfresh
      rw [if_pos rfl, ihx, ihy, hnone, hsx, hsy]
      exact ⟨Map.get?_set_self .., Map.get?_set_self .., ihc⟩
    · rw [if_neg hk, ihx, ihy, Map.get?_set_ne hk, Map.get?_set_ne hk]
      exact ⟨rfl, rfl, ihc⟩

variable [Field K] (parts : Fin n → Part K)

/-- The nets of a part. -/
theorem keys_spotsOf (p : Part K) (x y : K) (r : Turn) :
    (spotsOf p x y r).map Prod.fst = (p.pads.filter (·.net ≠ [])).map Pad.net := by
  rw [spotsOf, List.map_map]
  rfl

theorem keys_netSpots_turn (st : State n K) (i : Fin n) (r : Turn) :
    (netSpots parts (st.turn i r)).map Prod.fst = (netSpots parts st).map Prod.fst := by
  simp only [netSpots, List.map_flatMap, keys_spotsOf]

/-- The own sums of a net. -/
theorem get_ownNetSums (p : Part K) (x y : K) (r : Turn) (net : Text) :
    (ownNetSums p x y r).get? net =
      if net ∈ (p.pads.filter (·.net ≠ [])).map Pad.net then
        some (total ((spotsOf p x y r).map fun e => (e.1, e.2.1)) net,
          total ((spotsOf p x y r).map fun e => (e.1, e.2.2)) net,
          total ((spotsOf p x y r).map fun e => (e.1, (1 : K))) net)
      else none := by
  unfold ownNetSums
  rw [get?_creditAll, Map.get?_nil, Option.getD_none, zero_add, List.map_map]
  have hkeys : (spotsOf p x y r).map (Prod.fst ∘ fun e => (e.1, e.2.1, e.2.2, (1 : K))) =
      (p.pads.filter (·.net ≠ [])).map Pad.net := keys_spotsOf p x y r
  rw [hkeys]
  congr 2
  set es := (spotsOf p x y r).map fun e => (e.1, e.2.1, e.2.2, (1 : K)) with hes
  refine Prod.ext ?_ (Prod.ext ?_ ?_)
  · refine (map_total (AddMonoidHom.fst K (K × K)) es net).trans ?_
    rw [hes, List.map_map]
    rfl
  · refine (map_total ((AddMonoidHom.fst K K).comp (AddMonoidHom.snd K (K × K))) es net).trans ?_
    rw [hes, List.map_map]
    rfl
  · refine (map_total ((AddMonoidHom.snd K K).comp (AddMonoidHom.snd K (K × K))) es net).trans ?_
    rw [hes, List.map_map]
    rfl

/-- A sum from scratch. -/
theorem get_netSum (f : K × K → K) (st : State n K) (net : Text) :
    (creditAll ((netSpots parts st).map fun e => (e.1, f e.2)) []).get? net =
      if net ∈ (netSpots parts st).map Prod.fst then
        some (total ((netSpots parts st).map fun e => (e.1, f e.2)) net)
      else none := by
  have hkeys : ((netSpots parts st).map fun e => (e.1, f e.2)).map Prod.fst =
      (netSpots parts st).map Prod.fst := by
    rw [List.map_map]
    rfl
  rw [get?_creditAll, Map.get?_nil, Option.getD_none, zero_add]
  simp only [hkeys]

theorem mem_keys_netSpots (st : State n K) {i : Fin n} {net : Text}
    (h : net ∈ ((parts i).pads.filter (·.net ≠ [])).map Pad.net) :
    net ∈ (netSpots parts st).map Prod.fst := by
  rw [netSpots, List.map_flatMap]
  refine List.mem_flatMap.mpr ⟨i, List.mem_finRange i, ?_⟩
  rwa [keys_spotsOf]

theorem keys_ownNetSums {p : Part K} {x y : K} {r : Turn} {net : Text}
    (h : net ∈ (ownNetSums p x y r).map Prod.fst) :
    net ∈ (p.pads.filter (·.net ≠ [])).map Pad.net := by
  by_contra hno
  have hnone := get_ownNetSums p x y r net
  rw [if_neg hno, Map.get?_eq_none_iff] at hnone
  exact hnone h

theorem keyed_ownNetSums (p : Part K) (x y : K) (r : Turn) : (ownNetSums p x y r).Keyed :=
  keyed_creditAll _ .nil

/-- One sum, less the part's old pads and plus its new ones, is the sum from scratch. -/
theorem renewed (f : K × K → K) (st : State n K) (i : Fin n) (r : Turn) (net : Text) :
    (creditAll ((netSpots parts (st.turn i r)).map fun e => (e.1, f e.2)) []).get? net =
      ((creditAll ((netSpots parts st).map fun e => (e.1, f e.2)) []).get? net).map fun v =>
        v - total ((spotsOf (parts i) (st.x i) (st.y i) (st.r i)).map fun e => (e.1, f e.2)) net +
          total ((spotsOf (parts i) (st.x i) (st.y i) r).map fun e => (e.1, f e.2)) net := by
  rw [get_netSum, get_netSum, keys_netSpots_turn]
  by_cases h : net ∈ (netSpots parts st).map Prod.fst
  · rw [if_pos h, if_pos h, Option.map_some, total_netSpots parts f st i,
      total_netSpots parts f (st.turn i r) i, otherSpots_turn]
    have hplace : (st.turn i r).x i = st.x i ∧ (st.turn i r).y i = st.y i := ⟨rfl, rfl⟩
    rw [st.turn_self, hplace.1, hplace.2]
    congr 1
    abel
  · rw [if_neg h, if_neg h, Option.map_none]

/-- Where a part turns, the renewed sums are those from scratch. -/
theorem NetSums.Agrees.adjust {sums : NetSums K} {st : State n K}
    (h : sums.Agrees (netSums parts st)) (i : Fin n) (r : Turn) :
    ((sums.adjust (· - ·) (ownNetSums (parts i) (st.x i) (st.y i) (st.r i))).adjust (· + ·)
      (ownNetSums (parts i) (st.x i) (st.y i) r)).Agrees (netSums parts (st.turn i r)) := by
  set own := ownNetSums (parts i) (st.x i) (st.y i) (st.r i)
  set newOwn := ownNetSums (parts i) (st.x i) (st.y i) r
  have hsome : ∀ net ∈ ((parts i).pads.filter (·.net ≠ [])).map Pad.net,
      (sums.sumX.get? net).isSome ∧ (sums.sumY.get? net).isSome := by
    intro net hnet
    have hmem := mem_keys_netSpots parts st hnet
    have hx := get_netSum parts Prod.fst st net
    have hy := get_netSum parts Prod.snd st net
    rw [if_pos hmem] at hx hy
    exact ⟨by rw [h.sumX]; exact Option.isSome_of_eq_some hx,
      by rw [h.sumY]; exact Option.isSome_of_eq_some hy⟩
  have hhas : sums.Has own := fun net hnet => hsome net (keys_ownNetSums hnet)
  have hless := fun net => NetSums.get_adjust (· - ·) (keyed_ownNetSums ..) hhas net
  have hhas' : (sums.adjust (· - ·) own).Has newOwn := by
    intro net hnet
    obtain ⟨hx, hy⟩ := hsome net (keys_ownNetSums hnet)
    obtain ⟨hlx, hly, -⟩ := hless net
    rw [hlx, hly]
    cases own.get? net with
    | none => exact ⟨hx, hy⟩
    | some o => exact ⟨by simpa using hx, by simpa using hy⟩
  have hplus := fun net =>
    NetSums.get_adjust (· + ·) (keyed_ownNetSums ..) hhas' net
  -- a net that is not the part's own has nothing to renew
  have hforeign : ∀ (f : K × K → K) (r : Turn) (net : Text),
      net ∉ ((parts i).pads.filter (·.net ≠ [])).map Pad.net →
      total ((spotsOf (parts i) (st.x i) (st.y i) r).map fun e => (e.1, f e.2)) net = 0 := by
    intro f r net hnet
    refine total_of_notMem ?_
    rw [List.map_map]
    exact fun hmem => hnet (keys_spotsOf (parts i) _ _ r ▸ hmem)
  refine ⟨fun net => ?_, fun net => ?_, fun net => ?_⟩
  · rw [(hplus net).1, (hless net).1, h.sumX, get_ownNetSums, get_ownNetSums]
    refine Eq.trans ?_ (renewed parts Prod.fst st i r net).symm
    by_cases hnet : net ∈ ((parts i).pads.filter (·.net ≠ [])).map Pad.net
    · rw [if_pos hnet, if_pos hnet, Option.elim_some, Option.elim_some, Option.map_map]
      rfl
    · rw [if_neg hnet, if_neg hnet, Option.elim_none, Option.elim_none, hforeign _ _ _ hnet,
        hforeign _ _ _ hnet]
      simp only [sub_zero, add_zero, Option.map_id']
      rfl
  · rw [(hplus net).2.1, (hless net).2.1, h.sumY, get_ownNetSums, get_ownNetSums]
    refine Eq.trans ?_ (renewed parts Prod.snd st i r net).symm
    by_cases hnet : net ∈ ((parts i).pads.filter (·.net ≠ [])).map Pad.net
    · rw [if_pos hnet, if_pos hnet, Option.elim_some, Option.elim_some, Option.map_map]
      rfl
    · rw [if_neg hnet, if_neg hnet, Option.elim_none, Option.elim_none, hforeign _ _ _ hnet,
        hforeign _ _ _ hnet]
      simp only [sub_zero, add_zero, Option.map_id']
      rfl
  · have hcount : ∀ st' : State n K, (netSums parts st').cnt.get? net =
        if net ∈ (netSpots parts st').map Prod.fst then
          some (total ((netSpots parts st').map fun e => (e.1, (1 : K))) net) else none :=
      fun st' => get_netSum parts (fun _ => 1) st' net
    rw [(hplus net).2.2, (hless net).2.2, h.cnt]
    refine Eq.trans ?_ (renewed parts (fun _ => 1) st i r net).symm
    have hsame : total ((spotsOf (parts i) (st.x i) (st.y i) (st.r i)).map
          fun e => (e.1, (1 : K))) net =
        total ((spotsOf (parts i) (st.x i) (st.y i) r).map fun e => (e.1, (1 : K))) net := by
      have hlist : ∀ r, (spotsOf (parts i) (st.x i) (st.y i) r).map (fun e => (e.1, (1 : K))) =
          ((parts i).pads.filter (·.net ≠ [])).map fun pad => (pad.net, 1) := by
        intro r
        rw [spotsOf, List.map_map]
        rfl
      rw [hlist, hlist]
    rw [hsame]
    simp only [sub_add_cancel, Option.map_id']
    rfl

end

/-! ## The two sweeps -/

section

variable {K : Type} [Field K] [LinearOrder K] [IsStrictOrderedRing K] {n : Nat}
  (parts : Fin n → Part K)

/-- The center of a net, from sums that are up to date. -/
theorem NetSums.Agrees.centroid {sums : NetSums K} {st : State n K}
    (h : sums.Agrees (netSums parts st)) (i : Fin n) {net : Text} (hnet : net ≠ []) :
    sums.centroid (ownNetSums (parts i) (st.x i) (st.y i) (st.r i)) net =
      Placement.centroid parts st i net := by
  set spots := spotsOf (parts i) (st.x i) (st.y i) (st.r i) with hspots
  have hown : ((ownNetSums (parts i) (st.x i) (st.y i) (st.r i)).get? net).getD (0, 0, 0) =
      (total (spots.map fun e => (e.1, e.2.1)) net, total (spots.map fun e => (e.1, e.2.2)) net,
        total (spots.map fun e => (e.1, (1 : K))) net) := by
    rw [get_ownNetSums]
    by_cases hmem : net ∈ ((parts i).pads.filter (·.net ≠ [])).map Pad.net
    · rw [if_pos hmem, Option.getD_some]
    · have hzero : ∀ f : K × K → K, total (spots.map fun e => (e.1, f e.2)) net = 0 := by
        intro f
        refine total_of_notMem ?_
        rw [List.map_map]
        exact fun h => hmem (keys_spotsOf (parts i) _ _ (st.r i) ▸ h)
      rw [if_neg hmem, Option.getD_none]
      exact (Prod.ext (hzero Prod.fst) (Prod.ext (hzero Prod.snd) (hzero fun _ => 1))).symm
  have hrest : ∀ (f : K × K → K),
      ((creditAll ((netSpots parts st).map fun e => (e.1, f e.2)) []).get? net).getD 0 -
        total (spots.map fun e => (e.1, f e.2)) net =
          ((othersOn parts st i net).map f).sum := by
    intro f
    rw [getD_creditAll, total_netSpots parts f st i, add_sub_cancel_left,
      total_otherSpots parts f st i hnet]
  have hcount : ((othersOn parts st i net).map fun _ => (1 : K)).sum =
      ((othersOn parts st i net).length : K) := by
    rw [List.map_const', List.sum_replicate, nsmul_one]
  have hx := hrest Prod.fst
  have hy := hrest Prod.snd
  have hc := (hrest fun _ => 1).trans hcount
  unfold NetSums.centroid Placement.centroid
  rw [hown, h.sumX, h.sumY, h.cnt]
  unfold netSums
  dsimp only
  rw [hx, hy, hc]
  by_cases hlen : (othersOn parts st i net).length = 0
  · rw [if_pos hlen, if_pos (by rw [hlen, Nat.cast_zero])]
  · rw [if_neg hlen, if_neg]
    exact not_le.mpr (by exact_mod_cast Nat.pos_of_ne_zero hlen)

variable (sqrt : K → K) (netWeights : Map Text K)

omit [IsStrictOrderedRing K] in
/-- A score only asks for centers of nets that pads have. -/
theorem score_congr {center center' : Text → Option (K × K)}
    (h : ∀ net, net ≠ [] → center net = center' net) (p : Part K) (x y : K) (r : Turn) :
    score sqrt netWeights center p x y r = score sqrt netWeights center' p x y r := by
  have hpad : ∀ pad, padScore sqrt netWeights center x y r pad =
      padScore sqrt netWeights center' x y r pad := by
    intro pad
    unfold padScore
    by_cases hnet : pad.net = []
    · rw [if_pos hnet, if_pos hnet]
    · rw [if_neg hnet, if_neg hnet, h pad.net hnet]
  unfold score
  simp only [hpad]

/-- One part. -/
theorem rotatePartCached_eq {sums : NetSums K} {st : State n K}
    (h : sums.Agrees (netSums parts st)) (i : Fin n) :
    (rotatePartCached sqrt netWeights parts (st, sums) i).1 =
        rotatePart sqrt netWeights parts st i ∧
      (rotatePartCached sqrt netWeights parts (st, sums) i).2.Agrees
        (netSums parts (rotatePart sqrt netWeights parts st i)) := by
  unfold rotatePartCached rotatePart
  dsimp only
  by_cases hpads : (parts i).pads.length < 2
  · rw [if_pos hpads, if_pos hpads]
    exact ⟨rfl, h⟩
  · rw [if_neg hpads, if_neg hpads]
    have hscore : score sqrt netWeights
          (sums.centroid (ownNetSums (parts i) (st.x i) (st.y i) (st.r i))) (parts i) (st.x i)
          (st.y i) =
        score sqrt netWeights (centroid parts st i) (parts i) (st.x i) (st.y i) :=
      funext fun r => score_congr sqrt netWeights (fun net hnet => h.centroid parts i hnet) _ _ _ r
    rw [hscore]
    set best := bestTurn (score sqrt netWeights (centroid parts st i) (parts i) (st.x i) (st.y i))
      (st.r i)
    by_cases hbest : best = st.r i
    · have hsame : st.turn i best = st := by
        refine State.ext rfl rfl ?_
        rw [hbest]
        exact Function.update_eq_self i st.r
      rw [if_neg (not_not.mpr hbest), hsame]
      exact ⟨rfl, h⟩
    · rw [if_pos hbest]
      exact ⟨rfl, h.adjust parts i best⟩

/-- The sums are kept up to date through every sweep, and both sweeps turn every part alike. -/
theorem sweeps_agree (st : State n K) (order : List (Fin n)) :
    (rotationSweepCached sqrt netWeights parts st order).2.Agrees
        (netSums parts (rotationSweepCached sqrt netWeights parts st order).1) ∧
      (rotationSweepCached sqrt netWeights parts st order).1 =
        rotationSweep sqrt netWeights parts st order := by
  suffices hrun : ∀ (order : List (Fin n)) (st : State n K) (sums : NetSums K),
      sums.Agrees (netSums parts st) →
        (order.foldl (rotatePartCached sqrt netWeights parts) (st, sums)).1 =
            order.foldl (rotatePart sqrt netWeights parts) st ∧
          (order.foldl (rotatePartCached sqrt netWeights parts) (st, sums)).2.Agrees
            (netSums parts (order.foldl (rotatePart sqrt netWeights parts) st)) by
    obtain ⟨hstate, hsums⟩ := hrun order st (netSums parts st)
      ⟨fun _ => rfl, fun _ => rfl, fun _ => rfl⟩
    exact ⟨by rw [rotationSweepCached, hstate]; exact hsums, hstate⟩
  intro order
  induction order with
  | nil => exact fun st sums h => ⟨rfl, h⟩
  | cons i order ih =>
    intro st sums h
    obtain ⟨hstate, hsums⟩ := rotatePartCached_eq parts sqrt netWeights h i
    rw [List.foldl_cons, List.foldl_cons, ← hstate]
    rw [← hstate] at hsums
    exact ih _ _ hsums

end

/-- A part with two pads beside one with a single pad, joined by one net. -/
def pair : Fin 2 → Part ℚ
  | 0 => ⟨[⟨(3 : Int), (0 : Int), ['A']⟩, ⟨(-3 : Int), (0 : Int), []⟩]⟩
  | 1 => ⟨[⟨(0 : Int), (0 : Int), ['A']⟩]⟩

/-- The parts of `pair` on a line, not turned. -/
def pairState : State 2 ℚ where
  x := fun i => ((-4 * (i : Nat) : Int) : ℚ)
  y := fun _ => ((0 : Int) : ℚ)
  r := fun _ => .deg0

theorem sweeps_agree_pair :
    (rotationSweepCached Rat.sqrt [] pair pairState [0, 1]).2.Agrees
        (netSums pair (rotationSweepCached Rat.sqrt [] pair pairState [0, 1]).1) ∧
      (rotationSweepCached Rat.sqrt [] pair pairState [0, 1]).1 =
        rotationSweep Rat.sqrt [] pair pairState [0, 1] :=
  sweeps_agree pair Rat.sqrt [] pairState [0, 1]

end CircuitForge.Placement
