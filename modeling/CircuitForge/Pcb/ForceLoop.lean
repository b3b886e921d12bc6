/-
Placing parts by what connects them: the edges, the seed and the force loop of
`pcb-core/src/placement.ts`.

Parts that share a net pull at each other, parts that overlap push each other apart, and the edge
of the board pushes back.  A pinned part pulls and pushes and does not move.  Numbers are exact.
-/
import CircuitForge.Pcb.Legalize

namespace CircuitForge.Placer

open Js Placement

/-! ## Parts -/

/-- `fixed`: where the caller wants a part. -/
structure Pin (K : Type) where
  x : K
  y : K
  rotation : Option Turn

/-- `PlaceablePart`. -/
structure PlaceablePart (K : Type) where
  id : Text
  w : K
  h : K
  pads : List (Pad K)
  /-- `role === 'connector'` -/
  connector : Bool := false
  fixed : Option (Pin K) := none

/-- What the legalizer reads of a part. -/
def PlaceablePart.box {K : Type} (p : PlaceablePart K) : Placement.PlaceablePart K where
  id := p.id
  w := p.w
  h := p.h
  fixed := p.fixed.isSome

/-- The rotation a part is pinned at. -/
def PlaceablePart.pinnedTurn {K : Type} (p : PlaceablePart K) : Option Turn :=
  p.fixed.bind Pin.rotation

structure ExtraEdge (K : Type) where
  a : Text
  b : Text
  weight : K

structure Edge (n : Nat) (K : Type) where
  a : Fin n
  b : Fin n
  weight : K

/-- `localeCompare`, square roots and what a net weighs. -/
structure Setting (K : Type) where
  localeCompare : Text → Text → Int
  sqrt : K → K
  netWeights : Map Text K

section

variable {K : Type} [Field K] [LinearOrder K] {n : Nat}

/-! ## Edges -/

/-- `add`. -/
def addEdge (acc : Map (Fin n × Fin n) K) (a b : Fin n) (weight : K) : Map (Fin n × Fin n) K :=
  if a = b ∨ weight ≤ 0 then acc
  else acc.set (min a b, max a b) (((acc.get? (min a b, max a b)).getD 0) + weight)

/-- The parts on each net; a part with pads in a row is there once. -/
def byNet (parts : Fin n → PlaceablePart K) : Map Text (List (Fin n)) :=
  ((List.finRange n).flatMap fun i =>
      ((parts i).pads.filter (·.net ≠ [])).map fun pad => (pad.net, i)).foldl
    (fun m e =>
      let arr := (m.get? e.1).getD []
      m.set e.1 (if arr.getLast? = some e.2 then arr else arr ++ [e.2])) []

/-- The edges of one net: from its first part to the others, and from each of them to the next. -/
def addNet (netWeights : Map Text K) (acc : Map (Fin n × Fin n) K) (e : Text × List (Fin n)) :
    Map (Fin n × Fin n) K :=
  let w := (netWeights.get? e.1).getD 1
  match e.2 with
  | first :: rest =>
    if w ≤ 0 ∨ rest = [] then acc
    else
      let pair := w / (rest.length : K)
      let acc := rest.foldl (fun acc i => addEdge acc first i pair) acc
      (rest.zip rest.tail).foldl (fun acc ij => addEdge acc ij.1 ij.2 (halved pair)) acc
  | [] => acc

/-- `buildEdges`. -/
def buildEdges (parts : Fin n → PlaceablePart K) (netWeights : Map Text K)
    (extra : List (ExtraEdge K)) : List (Edge n K) :=
  let idx : Map Text (Fin n) := Map.fill (fun i => (parts i).id) id (List.finRange n) []
  let acc := (byNet parts).foldl (addNet netWeights) []
  let acc := extra.foldl (fun acc e =>
    match idx.get? e.a, idx.get? e.b with
    | some a, some b => addEdge acc a b e.weight
    | _, _ => acc) acc
  (acc.map fun e => { a := e.1.1, b := e.1.2, weight := e.2 }).insertionSort fun x y =>
    x.a < y.a ∨ (x.a = y.a ∧ x.b ≤ y.b)

/-- The weight that meets each part. -/
def degrees (edges : List (Edge n K)) : Fin n → K :=
  edges.foldl (fun d e =>
    let d := Function.update d e.a (d e.a + e.weight)
    Function.update d e.b (d e.b + e.weight)) fun _ => 0

/-! ## The seed -/

def median (nums : List K) : K := ((nums.insertionSort (· ≤ ·))[nums.length / 2]?).getD 0

/-- The UTF-16 code units of a text. -/
def codeUnits (t : Text) : List Nat :=
  t.flatMap fun c =>
    if c.toNat < 65536 then [c.toNat]
    else [55296 + (c.toNat - 65536) / 1024, 56320 + (c.toNat - 65536) % 1024]

/-- The parts by their ids. -/
def idOrder (localeCompare : Text → Text → Int) (parts : Fin n → PlaceablePart K) :
    List (Fin n) :=
  (List.finRange n).insertionSort fun a b => localeCompare (parts a).id (parts b).id ≤ 0

/-- By descending weight, and then by the ids. -/
def degreeOrder (localeCompare : Text → Text → Int) (parts : Fin n → PlaceablePart K)
    (degree : Fin n → K) (l : List (Fin n)) : List (Fin n) :=
  l.insertionSort fun a b =>
    degree b < degree a ∨
      (degree b = degree a ∧ localeCompare (parts a).id (parts b).id ≤ 0)

/-- `hubIdx`. -/
def hubs (localeCompare : Text → Text → Int) (parts : Fin n → PlaceablePart K)
    (degree : Fin n → K) : List (Fin n) :=
  let med := median ((List.finRange n).map degree)
  (degreeOrder localeCompare parts degree
    ((List.finRange n).filter fun i => (2 : ℕ) * med ≤ degree i ∧ 0 < degree i)).take 3

/-- A part takes its place, which is its pin where it has one. -/
def seat (parts : Fin n → PlaceablePart K) (st : State n K) (i : Fin n) (p : K × K) : State n K :=
  match (parts i).fixed with
  | some f => st.moveTo i (f.x, f.y)
  | none => st.moveTo i p

/-- `hubWeight.get(h)?.get(i) ?? 0`. -/
def hubWeight (edges : List (Edge n K)) (h i : Fin n) : K :=
  edges.foldl (fun w e =>
    let w := if e.a = h ∧ e.b = i then w + e.weight else w
    if e.b = h ∧ e.a = i then w + e.weight else w) 0

/-- `clusterOf`, where there are hubs. -/
def clusterOf (parts : Fin n → PlaceablePart K) (edges : List (Edge n K)) (hub : Fin n)
    (rest : List (Fin n)) (i : Fin n) : Fin n :=
  if i ∈ hub :: rest then i
  else
    let best := (hub :: rest).foldl (fun (best : Option (Fin n) × K) h =>
      let w := hubWeight edges h i
      if best.2 < w ∨ (w = best.2 ∧ 0 < w ∧
          best.1.any fun b => codeUnits (parts h).id < codeUnits (parts b).id) then (some h, w)
      else best) (none, 0)
    best.1.getD hub

/-- Which way from its hub a part goes: the side of the pads it shares, or by turns. -/
def quadrant (s : K) (i : Fin n) : Int :=
  if s = 0 then (if (i : Nat) % 2 = 0 then 1 else -1) else if 0 < s then 1 else -1

/-- One part of the rings, with how many each quadrant of each hub has. -/
def seedRing (parts : Fin n → PlaceablePart K) (cluster : Fin n → Fin n) (center : Fin n → K × K)
    (acc : State n K × Map (Fin n × Int × Int) Nat) (i : Fin n) :
    State n K × Map (Fin n × Int × Int) Nat :=
  let h := cluster i
  let c := center h
  if i = h then (seat parts acc.1 i c, acc.2)
  else
    let nets := ((parts i).pads.map Pad.net).filter (· ≠ [])
    let shared := (parts h).pads.filter fun pad => pad.net ∈ nets
    let qx := quadrant (shared.foldl (fun s pad => s + pad.x) 0) i
    let qy := quadrant (shared.foldl (fun s pad => s + pad.y) 0) i
    let k := (acc.2.get? (h, qx, qy)).getD 0
    let ring : Nat := k / 3
    let rad := halved (parts h).w + halved (parts h).h + (3 : ℕ) + (ring : K) * (4 : ℕ) +
      ((k % 3 : Nat) : K) * hundredths 150
    (seat parts acc.1 i
      (c.1 + (qx : K) * rad * (hundredths 60 + hundredths 20 * ((k % 3 : Nat) : K)),
        c.2 + (qy : K) * rad * (hundredths 60 + hundredths 20 * (((k + 1) % 3 : Nat) : K))),
      acc.2.set (h, qx, qy) (k + 1))

/-- Where a hub is seeded: the hubs share the long axis. -/
def hubCenter (all : List (Fin n)) (boardW boardH : K) (h : Fin n) : K × K :=
  let axisX := boardH ≤ boardW
  let off := ((all.idxOf h : K) - halved ((all.length : K) - 1)) *
    (if axisX then boardW else boardH) * hundredths 50
  if axisX then (off, 0) else (0, off)

/-- `State` at first: a pinned rotation is there from the start. -/
def initial (parts : Fin n → PlaceablePart K) : State n K where
  x := fun _ => 0
  y := fun _ => 0
  r := fun i => (parts i).pinnedTurn.getD .deg0

variable [FloorRing K]

/-- The cells of the base grid, in the order of the ids. -/
def seedGrid (setting : Setting K) (parts : Fin n → PlaceablePart K) (boardW boardH : K) :
    State n K :=
  let cols : Nat := max 1 ⌈setting.sqrt n⌉.toNat
  let rows : Nat := ⌈((n : K) / (cols : K))⌉.toNat
  let pitchX := boardW / ((cols : K) + 1)
  let pitchY := boardH / ((rows : K) + 1)
  (idOrder setting.localeCompare parts).zipIdx.foldl (fun st pk =>
    seat parts st pk.1
      ((((pk.2 % cols : Nat) : K) - halved ((cols : K) - 1)) * pitchX,
        (((pk.2 / cols : Nat) : K) - halved ((rows : K) - 1)) * pitchY)) (initial parts)

/-- `seed`. -/
def seed (setting : Setting K) (parts : Fin n → PlaceablePart K) (edges : List (Edge n K))
    (boardW boardH : K) : State n K :=
  let st := seedGrid setting parts boardW boardH
  match hubs setting.localeCompare parts (degrees edges) with
  | [] => st
  | hub :: rest =>
    ((idOrder setting.localeCompare parts).foldl
      (seedRing parts (clusterOf parts edges hub rest)
        (hubCenter (hub :: rest) boardW boardH)) (st, [])).1

/-! ## The force loop -/

/-- One turn of the loop of `rotationSweep`: a pinned rotation is not searched. -/
def rotatePart (setting : Setting K) (parts : Fin n → PlaceablePart K) (st : State n K)
    (i : Fin n) : State n K :=
  if (parts i).pads.length < 2 then st
  else
    let pads : Fin n → Placement.Part K := fun j => ⟨(parts j).pads⟩
    st.turn i ((parts i).pinnedTurn.getD (bestTurn
      (score setting.sqrt setting.netWeights (centroid pads st i) (pads i) (st.x i) (st.y i))
      (st.r i)))

/-- `rotationSweep`. -/
def rotationSweep (setting : Setting K) (parts : Fin n → PlaceablePart K) (st : State n K)
    (order : List (Fin n)) : State n K := order.foldl (rotatePart setting parts) st

/-- The force on each part. -/
abbrev Forces (n : Nat) (K : Type) := Fin n → K × K

def push (f : Forces n K) (i : Fin n) (dx dy : K) : Forces n K :=
  Function.update f i ((f i).1 + dx, (f i).2 + dy)

/-- An edge pulls its two parts together. -/
def attract (st : State n K) (f : Forces n K) (e : Edge n K) : Forces n K :=
  let dx := st.x e.b - st.x e.a
  let dy := st.y e.b - st.y e.a
  let (dx, dy) :=
    if dx = 0 ∧ dy = 0 then (if e.a < e.b then hundredths 1 else -hundredths 1, hundredths 1)
    else (dx, dy)
  let f := push f e.a (dx * e.weight * hundredths 2) (dy * e.weight * hundredths 2)
  push f e.b (-(dx * e.weight * hundredths 2)) (-(dy * e.weight * hundredths 2))

/-- Two parts that overlap are pushed apart along the axis of the smaller overlap. -/
def repel (parts : Fin n → PlaceablePart K) (spacing : K) (st : State n K) (f : Forces n K)
    (ij : Fin n × Fin n) : Forces n K :=
  let (i, j) := ij
  let ei := halfExtents (parts i).box (st.r i)
  let ej := halfExtents (parts j).box (st.r j)
  let dx := st.x j - st.x i
  let dy := st.y j - st.y i
  let (dx, dy) := if dx = 0 ∧ dy = 0 then (hundredths 1, -hundredths 1) else (dx, dy)
  let ox := ei.1 + ej.1 + spacing - |dx|
  let oy := ei.2 + ej.2 + spacing - |dy|
  if ox ≤ 0 ∨ oy ≤ 0 then f
  else
    let amount := hundredths 50 * min ox oy
    if ox < oy then
      let s : K := if dx < 0 then -1 else 1
      push (push f i (-(s * amount)) 0) j (s * amount) 0
    else
      let s : K := if dy < 0 then -1 else 1
      push (push f i 0 (-(s * amount))) j 0 (s * amount)

/-- The edge of the board, and a connector's pull towards it. -/
def contain (parts : Fin n → PlaceablePart K) (limX limY : K) (st : State n K) (f : Forces n K)
    (i : Fin n) : Forces n K :=
  let e := halfExtents (parts i).box (st.r i)
  let maxX := limX - e.1
  let maxY := limY - e.2
  let x := st.x i
  let y := st.y i
  let f := if maxX < x then push f i (-(x - maxX)) 0 else f
  let f := if x < -maxX then push f i (-maxX - x) 0 else f
  let f := if maxY < y then push f i 0 (-(y - maxY)) else f
  let f := if y < -maxY then push f i 0 (-maxY - y) else f
  if (parts i).connector then
    push f i (((if 0 ≤ x then maxX else -maxX) - x) * hundredths 15) 0
  else f

/-- The parts that are not pinned move. -/
def integrate (parts : Fin n → PlaceablePart K) (lr : K) (f : Forces n K) (st : State n K) :
    State n K :=
  { st with
    x := fun i => if (parts i).fixed.isSome then st.x i else st.x i + (f i).1 * lr
    y := fun i => if (parts i).fixed.isSome then st.y i else st.y i + (f i).2 * lr }

/-- The pairs of parts, each once. -/
def pairs (n : Nat) : List (Fin n × Fin n) :=
  (List.finRange n).flatMap fun i => ((List.finRange n).filter (i < ·)).map fun j => (i, j)

def forceSteps : Nat := 200

def relaxSteps : Nat := 50

def rotationCheckpoints : List Nat := [80, 160]

/-- One step of `forceLoop`. -/
def forceStep (setting : Setting K) (parts : Fin n → PlaceablePart K) (edges : List (Edge n K))
    (spacing limX limY : K) (rotOrder : List (Fin n)) (st : State n K) (step : Nat) : State n K :=
  let st :=
    if step ∈ rotationCheckpoints ∨ step = forceSteps then rotationSweep setting parts st rotOrder
    else st
  let lr := hundredths 30 + (hundredths 5 - hundredths 30) * ((step : K) / ((forceSteps + relaxSteps : Nat) : K))
  let f : Forces n K := edges.foldl (attract st) fun _ => (0, 0)
  let f := (pairs n).foldl (repel parts spacing st) f
  let f := (List.finRange n).foldl (contain parts limX limY st) f
  integrate parts lr f st

/-- `forceLoop`. -/
def forceLoop (setting : Setting K) (parts : Fin n → PlaceablePart K) (edges : List (Edge n K))
    (spacing limX limY : K) (rotOrder : List (Fin n)) (st : State n K) : State n K :=
  (List.range (forceSteps + relaxSteps)).foldl
    (forceStep setting parts edges spacing limX limY rotOrder) st

end

/-! ## Pinned parts stay -/

section

variable {K : Type} {n : Nat} {parts : Fin n → PlaceablePart K}

/-- Every pinned part is at its pin, and turned as it is pinned. -/
structure AtPins (parts : Fin n → PlaceablePart K) (st : State n K) : Prop where
  place : ∀ i f, (parts i).fixed = some f → st.at i = (f.x, f.y)
  turn : ∀ i r, (parts i).pinnedTurn = some r → st.r i = r

/-- Every pinned part that has its place so far, and the rotations. -/
def PinnedIn (parts : Fin n → PlaceablePart K) (l : List (Fin n)) (st : State n K) : Prop :=
  (∀ i ∈ l, ∀ f, (parts i).fixed = some f → st.at i = (f.x, f.y)) ∧
    ∀ i r, (parts i).pinnedTurn = some r → st.r i = r


theorem seat_at_self {st : State n K} {i : Fin n} {f : Pin K} (h : (parts i).fixed = some f)
    (p : K × K) : (seat parts st i p).at i = (f.x, f.y) := by
  rw [seat, h]
  exact st.moveTo_at_self i _

theorem seat_at_of_ne {st : State n K} {i j : Fin n} (h : j ≠ i) (p : K × K) :
    (seat parts st i p).at j = st.at j := by
  unfold seat
  split <;> exact st.moveTo_at_of_ne h _

theorem seat_r (st : State n K) (i : Fin n) (p : K × K) : (seat parts st i p).r = st.r := by
  unfold seat
  split <;> rfl

/-- One part more has its place. -/
theorem PinnedIn.seat {l : List (Fin n)} {st : State n K} (h : PinnedIn parts l st) (i : Fin n)
    (p : K × K) : PinnedIn parts (i :: l) (seat parts st i p) := by
  refine ⟨fun j hj f hf => ?_, fun j r hr => ?_⟩
  · by_cases hji : j = i
    · subst hji
      exact seat_at_self hf p
    · rw [seat_at_of_ne hji]
      exact h.1 j ((List.mem_cons.mp hj).resolve_left hji) f hf
  · rw [seat_r]
    exact h.2 j r hr

theorem PinnedIn.mono {l l' : List (Fin n)} {st : State n K} (h : PinnedIn parts l st)
    (hsub : l' ⊆ l) : PinnedIn parts l' st := ⟨fun i hi => h.1 i (hsub hi), h.2⟩

theorem mem_idOrder (localeCompare : Text → Text → Int) (i : Fin n) :
    i ∈ idOrder localeCompare parts :=
  (List.perm_insertionSort _ _).mem_iff.mpr (List.mem_finRange i)

end

section

variable {K : Type} [Field K] [LinearOrder K] {n : Nat} {setting : Setting K}
  {parts : Fin n → PlaceablePart K}

omit [LinearOrder K] in
theorem pinnedIn_initial : PinnedIn parts [] (initial parts) := by
  refine ⟨nofun, fun i r hr => ?_⟩
  show (parts i).pinnedTurn.getD .deg0 = r
  rw [hr, Option.getD_some]

theorem atPins_rotatePart {st : State n K} (h : AtPins parts st) (i : Fin n) :
    AtPins parts (rotatePart setting parts st i) := by
  unfold rotatePart
  split
  case isTrue => exact h
  case isFalse =>
    refine ⟨h.place, fun j r hr => ?_⟩
    by_cases hji : j = i
    · subst hji
      rw [State.turn_self, hr, Option.getD_some]
    · rw [State.turn_of_ne _ hji]
      exact h.turn j r hr

theorem atPins_rotationSweep {st : State n K} (h : AtPins parts st) (order : List (Fin n)) :
    AtPins parts (rotationSweep setting parts st order) := by
  unfold rotationSweep
  induction order generalizing st with
  | nil => exact h
  | cons i order ih => exact ih (atPins_rotatePart h i)

omit [LinearOrder K] in
theorem atPins_integrate {st : State n K} (h : AtPins parts st) (lr : K) (f : Forces n K) :
    AtPins parts (integrate parts lr f st) := by
  refine ⟨fun i p hp => ?_, h.turn⟩
  have hfixed : (parts i).fixed.isSome = true := by rw [hp]; rfl
  have hplace : (st.x i, st.y i) = (p.x, p.y) := h.place i p hp
  simp only [State.at, integrate, if_pos hfixed]
  exact hplace

/-- However long the loop runs, a pinned part stays at its pin. -/
theorem atPins_forceLoop {st : State n K} (h : AtPins parts st) (edges : List (Edge n K))
    (spacing limX limY : K) (rotOrder : List (Fin n)) :
    AtPins parts (forceLoop setting parts edges spacing limX limY rotOrder st) := by
  have hstep : ∀ (st : State n K) (step : Nat), AtPins parts st →
      AtPins parts (forceStep setting parts edges spacing limX limY rotOrder st step) := by
    intro st step h
    unfold forceStep
    dsimp only
    refine atPins_integrate ?_ _ _
    split
    case isTrue => exact atPins_rotationSweep h rotOrder
    case isFalse => exact h
  unfold forceLoop
  generalize List.range (forceSteps + relaxSteps) = steps
  induction steps generalizing st with
  | nil => exact h
  | cons step steps ih => exact ih (hstep st step h)

variable [FloorRing K]

theorem pinnedIn_seedGrid (boardW boardH : K) :
    PinnedIn parts (idOrder setting.localeCompare parts)
      (seedGrid setting parts boardW boardH) := by
  have hfold : ∀ (g : Fin n × Nat → K × K) (l : List (Fin n × Nat)) (seen : List (Fin n))
      (st : State n K), PinnedIn parts seen st →
        PinnedIn parts ((l.map Prod.fst).reverse ++ seen)
          (l.foldl (fun st pk => seat parts st pk.1 (g pk)) st) := by
    intro g l
    induction l with
    | nil => exact fun _ _ h => h
    | cons pk l ih =>
      intro seen st h
      rw [List.map_cons, List.reverse_cons, List.append_assoc, List.foldl_cons]
      exact ih (pk.1 :: seen) _ (h.seat pk.1 (g pk))
  unfold seedGrid
  dsimp only
  refine (hfold _ _ [] _ pinnedIn_initial).mono fun i hi => ?_
  rw [List.append_nil, List.mem_reverse, List.zipIdx_map_fst]
  exact hi

theorem atPins_seed (edges : List (Edge n K)) (boardW boardH : K) :
    AtPins parts (seed setting parts edges boardW boardH) := by
  have hgrid : PinnedIn parts (idOrder setting.localeCompare parts)
      (seedGrid setting parts boardW boardH) := pinnedIn_seedGrid boardW boardH
  have hdone : ∀ st : State n K, PinnedIn parts (idOrder setting.localeCompare parts) st →
      AtPins parts st := fun st h => ⟨fun i f hf => h.1 i (mem_idOrder _ i) f hf, h.2⟩
  unfold seed
  dsimp only
  split
  case h_1 => exact hdone _ hgrid
  case h_2 hub rest _ =>
    have hfold : ∀ (l : List (Fin n)) (acc : State n K × Map (Fin n × Int × Int) Nat),
        PinnedIn parts (idOrder setting.localeCompare parts) acc.1 →
          PinnedIn parts (idOrder setting.localeCompare parts)
            (l.foldl (seedRing parts (clusterOf parts edges hub rest)
              (hubCenter (hub :: rest) boardW boardH)) acc).1 := by
      intro l
      induction l with
      | nil => exact fun _ h => h
      | cons i l ih =>
        intro acc h
        rw [List.foldl_cons]
        refine ih _ ?_
        unfold seedRing
        dsimp only
        split <;> exact (h.seat i _).mono (List.subset_cons_self i _)
    exact hdone _ (hfold _ _ hgrid)

end

end CircuitForge.Placer
