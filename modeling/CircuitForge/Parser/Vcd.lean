/-
The exported dump: `resultToVcd` of `parser/result-export.ts`.

A series is thresholded to a wire, and only the changes of a wire are written.  The identifier
codes of the wires repeat after 94, and the wires of one code are one wire to whoever reads the
dump.
-/
import CircuitForge.Types.Simulation
import CircuitForge.Js.Changes
import CircuitForge.Js.Map
import CircuitForge.Js.Numbers
import Mathlib.Data.Rat.Floor
import Mathlib.Tactic.Linarith

namespace CircuitForge

open Js

section

variable [Runtime]

/-! ## Bits and ticks -/

/-- `Math.round`: a half goes up. -/
def mathRound (x : Runtime.Num) : Runtime.Num :=
  if Runtime.lt (Runtime.sub x (Runtime.floor x)) (Runtime.lit 5 (-1)) then Runtime.floor x
  else Runtime.add (Runtime.floor x) (Runtime.lit 1 0)

/-- The tick of an abscissa. -/
def vcdTick (unit x : Runtime.Num) : Runtime.Num := mathRound (Runtime.div x unit)

/-- `lo`, or `hi` with the order turned round; nothing is the infinity the loop starts from. -/
def swingEnd (less : Runtime.Num → Runtime.Num → Bool) (points : List (DataPoint Runtime.Num)) :
    Option Runtime.Num :=
  points.foldl (fun lo p =>
    match lo with
    | none => if Runtime.isNaN p.y then none else some p.y
    | some l => if less p.y l then some p.y else some l) none

/-- `thresholdOf`. -/
def thresholdOf (threshold : Option Runtime.Num) (s : DataSeries Runtime.Num) : Runtime.Num :=
  match threshold with
  | some t => t
  | none =>
    match swingEnd Runtime.lt s.points, swingEnd (fun a b => Runtime.lt b a) s.points with
    | some lo, some hi =>
      if Runtime.isFinite lo && Runtime.isFinite hi then
        Runtime.div (Runtime.add lo hi) (Runtime.lit 2 0)
      else Runtime.lit 5 (-1)
    | _, _ => Runtime.lit 5 (-1)

/-- `bitAt`. -/
def bitAt (threshold : Option Runtime.Num) (s : DataSeries Runtime.Num)
    (p : DataPoint Runtime.Num) : Bool :=
  Runtime.le (thresholdOf threshold s) p.y

/-! ## Commands -/

/-- A line of a dump. -/
inductive VcdCommand (K : Type) where
  | version
  | timescale (unit : Text)
  | scope
  | declare (id : Char) (name : Text)
  | upscope
  | enddefinitions
  | tick (t : K)
  | dumpvars
  | done
  | change (bit : Bool) (id : Char)

def VcdCommand.text : VcdCommand Runtime.Num → Text
  | .version => "$version eda-core VCD export $end".toList
  | .timescale unit => "$timescale ".toList ++ unit ++ " $end".toList
  | .scope => "$scope module circuit $end".toList
  | .declare id name => "$var wire 1 ".toList ++ id :: ' ' :: name ++ " $end".toList
  | .upscope => "$upscope $end".toList
  | .enddefinitions => "$enddefinitions $end".toList
  | .tick t => '#' :: Runtime.toText t
  | .dumpvars => "$dumpvars".toList
  | .done => "$end".toList
  | .change bit id => [if bit then '1' else '0', id]

def vcdId (index : Nat) : Char := Char.ofNat (33 + index % 94)

/-- `TIME_UNIT_LABEL`. -/
def timeUnitLabel : Map Text Text :=
  [("1", "1s"), ("0.001", "1ms"), ("0.000001", "1us"), ("1e-9", "1ns"), ("1e-12", "1ps"),
    ("1e-15", "1fs")].map fun e => (e.1.toList, e.2.toList)

/-- `unitLabel`. -/
def unitLabel (unit : Runtime.Num) : Text :=
  (timeUnitLabel.get? (Runtime.toText unit)).getD (Runtime.toText unit ++ ['s'])

/-- `head`. -/
def vcdHead (unit : Runtime.Num) (series : List (DataSeries Runtime.Num)) :
    List (VcdCommand Runtime.Num) :=
  [.version, .timescale (unitLabel unit), .scope] ++
    series.zipIdx.map (fun e => .declare (vcdId e.2) e.1.name) ++ [.upscope, .enddefinitions]

/-! ## The loop over the rows -/

structure VcdLoop where
  last : Nat → Option Bool
  lastTick : Option Runtime.Num
  body : List (VcdCommand Runtime.Num)

def VcdLoop.start : VcdLoop := { last := fun _ => none, lastTick := none, body := [] }

/-- `changes` of the row `i`: the code and the bit of each. -/
def vcdChanges (threshold : Option Runtime.Num) (series : List (DataSeries Runtime.Num))
    (last : Nat → Option Bool) (i : Nat) : List (Char × Bool) :=
  series.zipIdx.filterMap fun e =>
    e.1.points[i]?.bind fun p =>
      if last e.2 = some (bitAt threshold e.1 p) then none
      else some (vcdId e.2, bitAt threshold e.1 p)

/-- `last` after the row `i`. -/
def lastBits (threshold : Option Runtime.Num) (series : List (DataSeries Runtime.Num))
    (last : Nat → Option Bool) (i si : Nat) : Option Bool :=
  (series[si]?.bind fun s => s.points[i]?.map (bitAt threshold s)).or (last si)

/-- The lines of a tick, the first one with the initial values. -/
def tickLines (initial : Bool) (tick : Runtime.Num) (changes : List (Char × Bool)) :
    List (VcdCommand Runtime.Num) :=
  let lines := changes.map fun c => .change c.2 c.1
  .tick tick :: if initial then .dumpvars :: lines ++ [.done] else lines

/-- One turn of the loop. -/
def VcdLoop.row (threshold : Option Runtime.Num) (unit : Runtime.Num)
    (series : List (DataSeries Runtime.Num)) (loop : VcdLoop) (i : Nat) : VcdLoop :=
  match pointAt series i with
  | none => loop
  | some p =>
    let changes := vcdChanges threshold series loop.last i
    let last := lastBits threshold series loop.last i
    if changes.isEmpty then { loop with last := last }
    else
      { last := last
        lastTick := some (vcdTick unit p.x)
        body := loop.body ++
          tickLines (i == 0 || loop.lastTick.isNone) (vcdTick unit p.x) changes }

/-- The loop after `n` rows. -/
def vcdRows (threshold : Option Runtime.Num) (unit : Runtime.Num)
    (series : List (DataSeries Runtime.Num)) (n : Nat) : VcdLoop :=
  (List.range n).foldl (VcdLoop.row threshold unit series) VcdLoop.start

/-- The series that are dumped. -/
def vcdSeries (result : SimulationResult Runtime.Num) : List (DataSeries Runtime.Num) :=
  result.series.filter fun s => !s.points.isEmpty

/-- `timeUnitSeconds`, a picosecond by default. -/
def picosecond : Runtime.Num := Runtime.lit 1 (-12)

/-- The lines of the dump, head and body. -/
def vcdCommands (result : SimulationResult Runtime.Num) (threshold : Option Runtime.Num := none)
    (unit : Runtime.Num := picosecond) :
    List (VcdCommand Runtime.Num) × List (VcdCommand Runtime.Num) :=
  (vcdHead unit (vcdSeries result),
    (vcdRows threshold unit (vcdSeries result) (rowCount (vcdSeries result))).body)

/-- `resultToVcd`. -/
def resultToVcd (result : SimulationResult Runtime.Num) (threshold : Option Runtime.Num := none)
    (unit : Runtime.Num := picosecond) : Text :=
  let commands := vcdCommands result threshold unit
  join ['\n'] (commands.1.map VcdCommand.text) ++ '\n' ::
    join ['\n'] (commands.2.map VcdCommand.text) ++ ['\n']

/-! ## Reading a dump -/

/-- What a line says to a reader of the values. -/
def VcdCommand.entry : VcdCommand Runtime.Num → Option (Changes.Entry Runtime.Num Char Bool)
  | .tick t => some (.instant t)
  | .change bit id => some (.change id bit)
  | _ => none

/-- The codes of the wires, as declared. -/
def declarations (head : List (VcdCommand Runtime.Num)) : List (Char × Text) :=
  head.filterMap fun command =>
    match command with
    | .declare id name => some (id, name)
    | _ => none

/-- Replaying the lines up to the tick `t`. -/
def readBody (t : Runtime.Num) (body : List (VcdCommand Runtime.Num)) :
    Changes.Reader Char Bool :=
  Changes.Reader.start.run (fun u => Runtime.le u t) (body.filterMap VcdCommand.entry)

/-- Replaying a dump gives every sample its bit: the code declared for a series has, at the tick
of the sample, the thresholded value. -/
def VcdFaithful (result : SimulationResult Runtime.Num) (threshold : Option Runtime.Num)
    (unit : Runtime.Num) : Prop :=
  ∀ (j : Nat) (s : DataSeries Runtime.Num), (vcdSeries result)[j]? = some s →
    ∃ id, (declarations (vcdCommands result threshold unit).1)[j]? = some (id, s.name) ∧
      ∀ p ∈ s.points,
        (readBody (vcdTick unit p.x) (vcdCommands result threshold unit).2).values id =
          some (bitAt threshold s p)

/-- Series on one ascending sweep, whose rounded ticks are distinct numbers. -/
structure SharedSweep (unit : Runtime.Num) (series : List (DataSeries Runtime.Num)) : Prop where
  same : ∀ s ∈ series, ∀ s' ∈ series, ∀ (i : Nat) (p q : DataPoint Runtime.Num),
    s.points[i]? = some p → s'.points[i]? = some q → p.x = q.x
  ascending : ∀ s ∈ series, ∀ (i j : Nat) (p q : DataPoint Runtime.Num), i < j →
    s.points[i]? = some p → s.points[j]? = some q → Runtime.lt p.x q.x = true
  distinct : ∀ s ∈ series, ∀ (i j : Nat) (p q : DataPoint Runtime.Num), i < j →
    s.points[i]? = some p → s.points[j]? = some q →
      Runtime.eq (vcdTick unit p.x) (vcdTick unit q.x) = false
  number : ∀ s ∈ series, ∀ p ∈ s.points, Runtime.isNaN (vcdTick unit p.x) = false

/-- Rounding to ticks keeps the order of two numbers, and `<` excludes the other comparisons. -/
structure TickOrder (unit : Runtime.Num) : Prop where
  rounds : ∀ x y : Runtime.Num, Runtime.lt x y = true →
    Runtime.le (vcdTick unit x) (vcdTick unit y) = true
  asymm : ∀ a b : Runtime.Num, Runtime.lt a b = true → Runtime.le b a = false

/-- Series of one code agree: where two of them have a sample, the bits are equal. -/
def CodesAgree (threshold : Option Runtime.Num) (series : List (DataSeries Runtime.Num)) : Prop :=
  ∀ (j k : Nat) (s s' : DataSeries Runtime.Num), series[j]? = some s → series[k]? = some s' →
    j % 94 = k % 94 → ∀ (i : Nat) (p q : DataPoint Runtime.Num), s.points[i]? = some p →
      s'.points[i]? = some q → bitAt threshold s p = bitAt threshold s' q

/-! ## One row -/

section

variable {threshold : Option Runtime.Num} {unit : Runtime.Num}
  {series : List (DataSeries Runtime.Num)}

omit [Runtime] in
theorem vcdId_eq_iff {j k : Nat} : vcdId j = vcdId k ↔ j % 94 = k % 94 := by
  have hvalid : ∀ n, n < 94 → (Char.ofNat (33 + n)).toNat = 33 + n := by decide
  constructor
  · intro h
    have hnat := congrArg Char.toNat h
    rw [vcdId, vcdId, hvalid _ (Nat.mod_lt _ (by decide)),
      hvalid _ (Nat.mod_lt _ (by decide))] at hnat
    exact Nat.add_left_cancel hnat
  · intro h
    rw [vcdId, vcdId, h]

theorem mem_vcdChanges {last : Nat → Option Bool} {i : Nat} {c : Char × Bool} :
    c ∈ vcdChanges threshold series last i ↔
      ∃ j s p, series[j]? = some s ∧ s.points[i]? = some p ∧
        last j ≠ some (bitAt threshold s p) ∧ c = (vcdId j, bitAt threshold s p) := by
  rw [vcdChanges, List.mem_filterMap]
  constructor
  · rintro ⟨⟨s, j⟩, hmem, hc⟩
    obtain ⟨p, hp, hc⟩ := Option.bind_eq_some_iff.mp hc
    split_ifs at hc with hlast
    exact ⟨j, s, p, List.mem_zipIdx_iff_getElem?.mp hmem, hp, hlast, (Option.some.inj hc).symm⟩
  · rintro ⟨j, s, p, hs, hp, hlast, rfl⟩
    refine ⟨(s, j), List.mem_zipIdx_iff_getElem?.mpr hs, ?_⟩
    rw [hp, Option.bind_some, if_neg hlast]

theorem lastBits_of_point {last : Nat → Option Bool} {i j : Nat} {s : DataSeries Runtime.Num}
    {p : DataPoint Runtime.Num} (hs : series[j]? = some s) (hp : s.points[i]? = some p) :
    lastBits threshold series last i j = some (bitAt threshold s p) := by
  rw [lastBits, hs, Option.bind_some, hp]
  rfl

/-- What a tick writes, as a reader sees it. -/
theorem tickLines_entries (initial : Bool) (tick : Runtime.Num) (changes : List (Char × Bool)) :
    (tickLines initial tick changes).filterMap VcdCommand.entry =
      .instant tick :: Changes.changeEntries changes := by
  have hlines : (changes.map fun c => VcdCommand.change c.2 c.1).filterMap VcdCommand.entry =
      (Changes.changeEntries changes : List (Changes.Entry Runtime.Num Char Bool)) := by
    rw [List.filterMap_map, Changes.changeEntries, ← List.filterMap_eq_map]
    rfl
  unfold tickLines
  cases initial with
  | false => exact congrArg _ hlines
  | true =>
    dsimp only
    rw [if_pos rfl, List.cons_append, List.filterMap_cons, List.filterMap_cons,
      List.filterMap_append, hlines]
    exact congrArg _ (List.append_nil _)

/-- The lines of one turn, as a reader sees them. -/
theorem row_entries (threshold : Option Runtime.Num) (unit : Runtime.Num) (loop : VcdLoop)
    {i : Nat} {p : DataPoint Runtime.Num}
    (hp : pointAt series i = some p) :
    (loop.row threshold unit series i).body.filterMap VcdCommand.entry =
        loop.body.filterMap VcdCommand.entry ++
          (if vcdChanges threshold series loop.last i = [] then []
            else .instant (vcdTick unit p.x) ::
              Changes.changeEntries (vcdChanges threshold series loop.last i)) ∧
      (loop.row threshold unit series i).last = lastBits threshold series loop.last i := by
  unfold VcdLoop.row
  rw [hp]
  dsimp only
  cases hchanges : vcdChanges threshold series loop.last i with
  | nil =>
    rw [List.isEmpty_nil, if_pos rfl, if_pos rfl, List.append_nil]
    exact ⟨rfl, rfl⟩
  | cons c changes =>
    rw [List.isEmpty_cons, if_neg Bool.false_ne_true, if_neg (List.cons_ne_nil _ _)]
    dsimp only
    rw [List.filterMap_append, tickLines_entries]
    exact ⟨rfl, rfl⟩

/-- What the loop remembers of a series that has not ended is what a reader holds for its code. -/
def Tracks (series : List (DataSeries Runtime.Num)) (n : Nat) (last : Nat → Option Bool)
    (values : Char → Option Bool) : Prop :=
  ∀ (j : Nat) (s : DataSeries Runtime.Num), series[j]? = some s → n ≤ s.points.length →
    last j = values (vcdId j)

/-- A row whose tick is due keeps loop and reader together. -/
theorem tracks_row (hagree : CodesAgree threshold series) {loop : VcdLoop} {i : Nat}
    {p : DataPoint Runtime.Num} (hp : pointAt series i = some p)
    (due : Runtime.Num → Bool) (hdue : due (vcdTick unit p.x) = true)
    (h : Tracks series i loop.last
      (Changes.Reader.start.run due (loop.body.filterMap VcdCommand.entry)).values) :
    Tracks series (i + 1) (loop.row threshold unit series i).last
      (Changes.Reader.start.run due
        ((loop.row threshold unit series i).body.filterMap VcdCommand.entry)).values := by
  obtain ⟨hbody, hlast⟩ := row_entries threshold unit loop hp
  intro j s hs hlen
  obtain ⟨q, hq⟩ : ∃ q, s.points[i]? = some q := ⟨_, List.getElem?_eq_getElem hlen⟩
  have hbefore := h j s hs (Nat.le_of_succ_le hlen)
  rw [hlast, lastBits_of_point hs hq, hbody, Changes.run_append]
  -- the changes written under this code all write the bit of this series
  have hall : ∀ c ∈ vcdChanges threshold series loop.last i, c.1 = vcdId j →
      c.2 = bitAt threshold s q := by
    intro c hc hid
    obtain ⟨k, s', p', hs', hp', -, rfl⟩ := mem_vcdChanges.mp hc
    exact hagree k j s' s hs' hs (vcdId_eq_iff.mp hid) i p' _ hp' hq
  have hsome : loop.last j = some (bitAt threshold s q) ∨
      (vcdId j, bitAt threshold s q) ∈
        vcdChanges threshold series loop.last i := by
    by_cases hsame : loop.last j = some (bitAt threshold s q)
    · exact Or.inl hsame
    · exact Or.inr (mem_vcdChanges.mpr ⟨j, s, _, hs, hq, hsame, rfl⟩)
  split_ifs with hnone
  · rw [hnone] at hsome
    rw [← hsome.resolve_right List.not_mem_nil, hbefore]
    rfl
  · rw [hbefore] at hsome
    exact (Changes.run_instant_value due _ hdue hall hsome).symm

/-- A row whose tick is not due is not read. -/
theorem pending_row {loop : VcdLoop} {i : Nat} {p : DataPoint Runtime.Num}
    (hp : pointAt series i = some p) (due : Runtime.Num → Bool)
    (hdue : due (vcdTick unit p.x) = false) (r : Changes.Reader Char Bool) :
    (r.run due ((loop.row threshold unit series i).body.filterMap VcdCommand.entry)).values =
      (r.run due (loop.body.filterMap VcdCommand.entry)).values := by
  rw [(row_entries threshold unit loop hp).1,
    Changes.run_append]
  split_ifs
  · rfl
  · exact Changes.run_instant_pending due _ hdue _

/-! ## The whole dump -/

theorem vcdRows_succ (n : Nat) : vcdRows threshold unit series (n + 1) =
    (vcdRows threshold unit series n).row threshold unit series n := by
  rw [vcdRows, List.range_succ, List.foldl_append]
  rfl

/-- As long as the ticks are due, loop and reader stay together. -/
theorem tracks_rows (unit : Runtime.Num) (hagree : CodesAgree threshold series)
    (due : Runtime.Num → Bool) {n : Nat}
    (hdue : ∀ i p, i < n → pointAt series i = some p → due (vcdTick unit p.x) = true)
    (hpoint : ∀ i, i < n → ∃ p, pointAt series i = some p) :
    Tracks series n (vcdRows threshold unit series n).last
      (Changes.Reader.start.run due
        ((vcdRows threshold unit series n).body.filterMap VcdCommand.entry)).values := by
  induction n with
  | zero => exact fun j s _ _ => rfl
  | succ n ih =>
    obtain ⟨p, hp⟩ := hpoint n (Nat.lt_succ_self n)
    rw [vcdRows_succ]
    exact tracks_row hagree hp due (hdue n p (Nat.lt_succ_self n) hp)
      (ih (fun i q hi => hdue i q (Nat.lt_succ_of_lt hi))
        fun i hi => hpoint i (Nat.lt_succ_of_lt hi))

/-- Rows whose ticks are not due are not read. -/
theorem pending_rows (due : Runtime.Num → Bool) {m n : Nat} (hmn : m ≤ n)
    (hdue : ∀ i p, m ≤ i → i < n → pointAt series i = some p → due (vcdTick unit p.x) = false)
    (r : Changes.Reader Char Bool) :
    (r.run due ((vcdRows threshold unit series n).body.filterMap VcdCommand.entry)).values =
      (r.run due ((vcdRows threshold unit series m).body.filterMap VcdCommand.entry)).values := by
  induction n, hmn using Nat.le_induction with
  | base => rfl
  | succ n hmn ih =>
    rw [← ih fun i p hm hi => hdue i p hm (Nat.lt_succ_of_lt hi), vcdRows_succ]
    cases hp : pointAt series n with
    | none =>
      rw [VcdLoop.row, hp]
    | some p => exact pending_row hp due (hdue n p hmn (Nat.lt_succ_self n) hp) r

/-- The declared codes are those of the positions. -/
theorem declarations_head (unit : Runtime.Num) {j : Nat} {s : DataSeries Runtime.Num}
    (hs : series[j]? = some s) :
    (declarations (vcdHead unit series))[j]? = some (vcdId j, s.name) := by
  have hdecl : declarations (vcdHead unit series) =
      series.zipIdx.map fun e => (vcdId e.2, e.1.name) := by
    rw [declarations, vcdHead, List.filterMap_append, List.filterMap_append, List.filterMap_map,
      ← List.filterMap_eq_map]
    exact List.append_nil _
  rw [hdecl, List.getElem?_map, List.getElem?_zipIdx, hs, Option.map_some, Option.map_some,
    Nat.zero_add]

theorem mem_vcdSeries {result : SimulationResult Runtime.Num} {s : DataSeries Runtime.Num}
    (h : s ∈ vcdSeries result) : s ∈ result.series :=
  (List.mem_filter.mp h).1

/-- On a shared sweep the point of a row has the abscissa of every series. -/
theorem SharedSweep.pointAt_x (h : SharedSweep unit series) {s : DataSeries Runtime.Num}
    (hs : s ∈ series) {i : Nat} {p q : DataPoint Runtime.Num} (hp : s.points[i]? = some p)
    (hq : pointAt series i = some q) : q.x = p.x := by
  obtain ⟨s', hs', hq⟩ := pointAt_some hq
  exact h.same s' hs' s hs i q p hq hp

/-- The ticks of a shared sweep ascend. -/
theorem SharedSweep.tick_lt (hnum : TickOrder unit) (h : SharedSweep unit series)
    {s : DataSeries Runtime.Num} (hs : s ∈ series) {i j : Nat} {p q : DataPoint Runtime.Num}
    (hij : i < j) (hp : s.points[i]? = some p) (hq : s.points[j]? = some q) :
    Runtime.le (vcdTick unit p.x) (vcdTick unit q.x) = true ∧
      Runtime.le (vcdTick unit q.x) (vcdTick unit p.x) = false := by
  have hle := hnum.rounds p.x q.x (h.ascending s hs i j p q hij hp hq)
  refine ⟨hle, hnum.asymm _ _ ?_⟩
  rw [Runtime.le, h.distinct s hs i j p q hij hp hq, Bool.or_false] at hle
  exact hle

/-- Where the series of one code agree, the dump of a shared sweep gives every sample its bit. -/
theorem readBody_value (hnum : TickOrder unit) (hsweep : SharedSweep unit series)
    (hagree : CodesAgree threshold series) {j i : Nat} {s : DataSeries Runtime.Num}
    (hs : series[j]? = some s) {p : DataPoint Runtime.Num} (hp : s.points[i]? = some p) :
    (readBody (vcdTick unit p.x)
      (vcdRows threshold unit series (rowCount series)).body).values (vcdId j) =
        some (bitAt threshold s p) := by
  have hmem := List.mem_of_getElem? hs
  have hlen : i < s.points.length := (List.getElem?_eq_some_iff.mp hp).1
  have hrows : i < rowCount series := lt_rowCount.mpr ⟨s, hmem, hlen⟩
  -- rows after the sample are not due at its tick
  have hafter : ∀ k q, i + 1 ≤ k → k < rowCount series → pointAt series k = some q →
      Runtime.le (vcdTick unit q.x) (vcdTick unit p.x) = false := by
    intro k q hik _ hq
    obtain ⟨s', hs', hq⟩ := pointAt_some hq
    have hk : k < s'.points.length := (List.getElem?_eq_some_iff.mp hq).1
    obtain ⟨p', hi⟩ : ∃ p', s'.points[i]? = some p' :=
      ⟨_, List.getElem?_eq_getElem (Nat.lt_of_succ_le (hik.trans hk.le))⟩
    rw [hsweep.same s hmem s' hs' i p p' hp hi]
    exact (hsweep.tick_lt hnum hs' hik hi hq).2
  -- rows up to it are
  have hbefore : ∀ k q, k < i + 1 → pointAt series k = some q →
      Runtime.le (vcdTick unit q.x) (vcdTick unit p.x) = true := by
    intro k q hk hq
    obtain ⟨p', hget⟩ : ∃ p', s.points[k]? = some p' :=
      ⟨_, List.getElem?_eq_getElem (lt_of_lt_of_le hk hlen)⟩
    rw [hsweep.pointAt_x hmem hget hq]
    rcases Nat.lt_succ_iff_lt_or_eq.mp hk with hlt | rfl
    · exact (hsweep.tick_lt hnum hmem hlt hget hp).1
    · obtain rfl := Option.some.inj (hget.symm.trans hp)
      have hnan := hsweep.number s hmem _ (List.mem_of_getElem? hp)
      rw [Runtime.isNaN, Bool.not_eq_false'] at hnan
      rw [Runtime.le, hnan, Bool.or_true]
  have htracks := tracks_rows unit hagree
    (fun u => Runtime.le u (vcdTick unit p.x)) hbefore fun k hk =>
      exists_pointAt hmem (List.getElem?_eq_getElem (show k < s.points.length by omega))
  rw [readBody, pending_rows (fun u => Runtime.le u (vcdTick unit p.x)) hrows hafter,
    ← htracks j s hs hlen, vcdRows_succ]
  obtain ⟨q, hq⟩ := exists_pointAt hmem hp
  rw [(row_entries threshold unit _ hq).2, lastBits_of_point hs hp]

end

/-- A faithful dump gives the series of one code the same bits. -/
theorem codesAgree_of_faithful {result : SimulationResult Runtime.Num}
    {threshold : Option Runtime.Num} {unit : Runtime.Num}
    (hsweep : SharedSweep unit result.series) (h : VcdFaithful result threshold unit) :
    CodesAgree threshold (vcdSeries result) := by
  intro j k s s' hs hs' hmod i p q hp hq
  obtain ⟨id, hid, hvalue⟩ := h j s hs
  obtain ⟨id', hid', hvalue'⟩ := h k s' hs'
  have hx := hsweep.same s (mem_vcdSeries (List.mem_of_getElem? hs)) s'
    (mem_vcdSeries (List.mem_of_getElem? hs')) i p q hp hq
  have heq : id = id' := by
    have hj := (declarations_head unit hs).symm.trans hid
    have hk := (declarations_head unit hs').symm.trans hid'
    rw [Option.some.injEq, Prod.mk.injEq] at hj hk
    rw [← hj.1, ← hk.1, vcdId_eq_iff.mpr hmod]
  have hp' := hvalue p (List.mem_of_getElem? hp)
  have hq' := hvalue' q (List.mem_of_getElem? hq)
  rw [hx, heq, hq'] at hp'
  exact (Option.some.inj hp').symm

/-- The abscissae of all series are those of one list. -/
theorem sharedSweep_of_abscissae {unit : Runtime.Num} {series : List (DataSeries Runtime.Num)}
    (xs : List Runtime.Num) (h : ∀ s ∈ series, s.points.map DataPoint.x = xs)
    (hlt : xs.Pairwise fun x y => Runtime.lt x y = true)
    (heq : xs.Pairwise fun x y => Runtime.eq (vcdTick unit x) (vcdTick unit y) = false)
    (hnum : ∀ x ∈ xs, Runtime.isNaN (vcdTick unit x) = false) : SharedSweep unit series := by
  have hget : ∀ s ∈ series, ∀ (i : Nat) (p : DataPoint Runtime.Num), s.points[i]? = some p →
      xs[i]? = some p.x := by
    intro s hs i p hp
    rw [← h s hs, List.getElem?_map, hp, Option.map_some]
  have hpair : ∀ {r : Runtime.Num → Runtime.Num → Prop}, xs.Pairwise r → ∀ s ∈ series,
      ∀ (i j : Nat) (p q : DataPoint Runtime.Num), i < j → s.points[i]? = some p →
        s.points[j]? = some q → r p.x q.x := by
    intro r hr s hs i j p q hij hp hq
    obtain ⟨hi, hpi⟩ := List.getElem?_eq_some_iff.mp (hget s hs i p hp)
    obtain ⟨hj, hqj⟩ := List.getElem?_eq_some_iff.mp (hget s hs j q hq)
    rw [← hpi, ← hqj]
    exact List.pairwise_iff_getElem.mp hr i j hi hj hij
  refine ⟨fun s hs s' hs' i p q hp hq => ?_, hpair hlt, hpair heq, fun s hs p hp => ?_⟩
  · exact Option.some.inj ((hget s hs i p hp).symm.trans (hget s' hs' i q hq))
  · exact hnum _ (h s hs ▸ List.mem_map_of_mem hp)

end

/-! ## Two dumps -/

/-- Exact rounding takes the half up. -/
theorem mathRound_exact (x : Rat) : mathRound x = ((⌊x + 1 / 2⌋ : Int) : Rat) := by
  have hhalf : (5 : Int) * Exact.pow10 (-1) = 1 / 2 := by decide +kernel
  have hone : (1 : Int) * Exact.pow10 0 = 1 := by decide +kernel
  have hunfold : mathRound x =
      if x - (⌊x⌋ : Int) < 1 / 2 then ((⌊x⌋ : Int) : Rat) else ((⌊x⌋ : Int) : Rat) + 1 := by
    rw [← hhalf, ← hone, ← if_congr (decide_eq_true_iff (p := _ < _)) rfl rfl]
    rfl
  have hle := Int.floor_le x
  have hlt := Int.lt_floor_add_one x
  rw [hunfold]
  split_ifs with h
  · rw [Int.floor_eq_iff.mpr (⟨by linarith, by linarith⟩ :
      ((⌊x⌋ : Int) : Rat) ≤ x + 1 / 2 ∧ x + 1 / 2 < (⌊x⌋ : Int) + 1)]
  · have hup : ⌊x + 1 / 2⌋ = ⌊x⌋ + 1 := by
      rw [Int.floor_eq_iff]
      push_cast
      exact ⟨by linarith, by linarith⟩
    rw [hup]
    push_cast
    rfl

theorem tickOrder_exact {unit : Rat} (h : 0 < unit) : TickOrder unit := by
  have htick : ∀ x : Rat, vcdTick unit x = ((⌊x / unit + 1 / 2⌋ : Int) : Rat) :=
    fun x => mathRound_exact (x / unit)
  refine ⟨fun (x y : Rat) hxy => ?_, fun (a b : Rat) hab => ?_⟩
  · have hxy : x < y := of_decide_eq_true hxy
    have hdiv : x / unit ≤ y / unit := div_le_div_of_nonneg_right hxy.le h.le
    rw [htick, htick, exact_le_iff]
    exact_mod_cast Int.floor_le_floor (add_le_add_left hdiv (1 / 2))
  · have hab : a < b := of_decide_eq_true hab
    rw [← Bool.not_eq_true, exact_le_iff]
    exact not_le.mpr hab

/-- A step up and a step down. -/
def stepUp : List (DataPoint Rat) := [⟨0, 0⟩, ⟨1, 1⟩]

def stepDown : List (DataPoint Rat) := [⟨0, 1⟩, ⟨1, 0⟩]

/-- Ninety-four series that step up and a last one that steps down. -/
def crowdedResult : SimulationResult Rat where
  info :=
    { analysisType := "tran".toList, xLabel := "time".toList, xUnit := none, pointsCount := 2 }
  series := (List.range 95).map fun i =>
    { name := 'v' :: Exact.digits i, points := if i = 94 then stepDown else stepUp }

theorem steps_sweep {series : List (DataSeries Rat)}
    (h : ∀ s ∈ series, s.points = stepUp ∨ s.points = stepDown) :
    SharedSweep picosecond series := by
  refine sharedSweep_of_abscissae ([0, 1] : List Rat) (fun s hs => ?_)
    (by decide +kernel) (by decide +kernel) (by decide +kernel)
  rcases h s hs with hup | hdown
  · rw [hup]
    rfl
  · rw [hdown]
    rfl

theorem crowdedResult_sweep : SharedSweep picosecond crowdedResult.series := by
  refine steps_sweep fun s hs => ?_
  obtain ⟨i, -, rfl⟩ := List.mem_map.mp hs
  dsimp only
  split_ifs
  · exact Or.inr rfl
  · exact Or.inl rfl

/-- Two series whose levels are far apart. -/
def pairResult : SimulationResult Rat where
  info :=
    { analysisType := "tran".toList, xLabel := "time".toList, xUnit := none, pointsCount := 2 }
  series := [{ name := ['a'], points := stepUp }, { name := ['b'], points := stepDown }]

end CircuitForge
