/-
A series in a few numbers: `analysis/measurements.ts` and `analysis/ac-measurements.ts`.

Two accumulators run over the finite samples: the trapezoids over the abscissae and the plain sums.
The first gives the statistics when the abscissae ascend, the second otherwise.
-/
import CircuitForge.Types.Simulation
import CircuitForge.Js.Means
import CircuitForge.Js.Numbers

namespace CircuitForge

open Js

section

variable [Runtime]

/-! ## The cutoff -/

/-- `Math.SQRT2`. -/
def sqrt2 : Runtime.Num := Runtime.lit 14142135623730951 (-16)

/-- `FLAT_RATIO`. -/
def flatRatio : Runtime.Num := Runtime.lit 944 (-3)

/-- The samples a cutoff is read from, by frequency. -/
def cutoffPoints (points : List (DataPoint Runtime.Num)) : List (DataPoint Runtime.Num) :=
  (points.filter fun p => Runtime.isFinite p.x && Runtime.isFinite p.y &&
      Runtime.lt (Runtime.lit 0 0) p.x && Runtime.le (Runtime.lit 0 0) p.y).mergeSort
    fun a b => !Runtime.lt b.x a.x

/-- The frequency at which the line from `a` to `b` crosses the threshold. -/
def crossing (threshold : Runtime.Num) (a b : DataPoint Runtime.Num) : Option Runtime.Num :=
  if Runtime.le threshold a.y = Runtime.le threshold b.y then none
  else
    let dy := Runtime.sub b.y a.y
    let t := if Runtime.eq dy (Runtime.lit 0 0) then Runtime.lit 0 0
      else Runtime.div (Runtime.sub threshold a.y) dy
    some (Runtime.exp10 (Runtime.add (Runtime.log10 a.x)
      (Runtime.mul t (Runtime.sub (Runtime.log10 b.x) (Runtime.log10 a.x)))))

/-- `cutoffFrequency`. -/
def cutoffFrequency (points : List (DataPoint Runtime.Num)) : Option Runtime.Num :=
  let pts := cutoffPoints points
  let peak := pts.foldl (fun peak p => if Runtime.lt peak p.y then p.y else peak) (Runtime.lit 0 0)
  let plateau := pts.countP fun p => Runtime.le (Runtime.mul peak flatRatio) p.y
  if pts.length < 2 then none
  else if !Runtime.lt (Runtime.lit 0 0) peak then none
  else if plateau < 3 then none
  else
    match (pts.zip pts.tail).filterMap fun e => crossing (Runtime.div peak sqrt2) e.1 e.2 with
    | [frequency] => some frequency
    | _ => none

/-- `isAcMagnitudeSeries`. -/
def isAcMagnitudeSeries (name : Text) : Bool := !startsWithI (trim name) "phase(".toList

/-! ## The accumulators -/

/-- The statistics of a series. -/
structure SeriesStats where
  min : Runtime.Num
  max : Runtime.Num
  final : Runtime.Num
  pp : Runtime.Num
  avg : Runtime.Num
  rms : Runtime.Num

/-- `SimMeasurement`; `cutoff` is absent, `null` or a number. -/
structure SimMeasurement extends SeriesStats where
  node : Text
  cutoff : Option (Option Runtime.Num) := none
  thd : Option Runtime.Num := none
  gain : Option Runtime.Num := none
  raw : Option SeriesStats := none

/-- The variables of the loop; no `min` or `max` are the infinities. -/
structure Summary where
  min : Option Runtime.Num := none
  max : Option Runtime.Num := none
  final : Runtime.Num := Runtime.lit 0 0
  count : Nat := 0
  sum : Runtime.Num := Runtime.lit 0 0
  sumSq : Runtime.Num := Runtime.lit 0 0
  area : Runtime.Num := Runtime.lit 0 0
  areaSq : Runtime.Num := Runtime.lit 0 0
  firstX : Runtime.Num
  lastX : Runtime.Num
  prevX : Runtime.Num
  prevY : Runtime.Num
  xUsable : Bool := true

def Summary.start (nan : Runtime.Num) : Summary :=
  { firstX := nan, lastX := nan, prevX := nan, prevY := nan }

/-- `0.5 * (a + b) * dx`. -/
def trapezoid (a b dx : Runtime.Num) : Runtime.Num :=
  Runtime.mul (Runtime.mul (Runtime.lit 5 (-1)) (Runtime.add a b)) dx

/-- The abscissa of a sample `p`. -/
def Summary.abscissa (s : Summary) (p : DataPoint Runtime.Num) : Summary :=
  if Runtime.isFinite p.x then
    let s :=
      if s.count = 0 then { s with firstX := p.x }
      else if Runtime.isFinite s.prevX then
        let dx := Runtime.sub p.x s.prevX
        if Runtime.lt (Runtime.lit 0 0) dx then
          { s with
            area := Runtime.add s.area (trapezoid s.prevY p.y dx)
            areaSq := Runtime.add s.areaSq
              (trapezoid (Runtime.mul s.prevY s.prevY) (Runtime.mul p.y p.y) dx) }
        else if Runtime.lt dx (Runtime.lit 0 0) then { s with xUsable := false }
        else s
      else s
    { s with prevX := p.x, lastX := p.x }
  else { s with xUsable := false }

/-- The ordinate of a sample `p`. -/
def Summary.ordinate (s : Summary) (p : DataPoint Runtime.Num) : Summary :=
  { s with
    min := match s.min with
      | none => some p.y
      | some m => if Runtime.lt p.y m then some p.y else some m
    max := match s.max with
      | none => some p.y
      | some m => if Runtime.lt m p.y then some p.y else some m
    final := p.y
    sum := Runtime.add s.sum p.y
    sumSq := Runtime.add s.sumSq (Runtime.mul p.y p.y) }

/-- One turn of the loop. -/
def Summary.step (s : Summary) (p : DataPoint Runtime.Num) : Summary :=
  if Runtime.isFinite p.y then
    let s := (s.ordinate p).abscissa p
    { s with prevY := p.y, count := s.count + 1 }
  else s

/-- The loop over the samples. -/
def Summary.of (nan : Runtime.Num) (points : List (DataPoint Runtime.Num)) : Summary :=
  points.foldl Summary.step (.start nan)

/-- `span`. -/
def Summary.span (s : Summary) : Runtime.Num :=
  if s.xUsable && Runtime.isFinite s.firstX && Runtime.isFinite s.lastX then
    Runtime.sub s.lastX s.firstX
  else Runtime.lit 0 0

/-- The mean of what the two accumulators hold. -/
def Summary.mean (s : Summary) (area sum : Runtime.Num) : Runtime.Num :=
  if Runtime.lt (Runtime.lit 0 0) s.span then Runtime.div area s.span
  else Runtime.div sum (Runtime.lit s.count 0)

/-- `avg`. -/
def Summary.avg (s : Summary) : Runtime.Num := s.mean s.area s.sum

/-- What `rms` is the root of. -/
def Summary.meanSquare (s : Summary) : Runtime.Num :=
  Runtime.max (Runtime.lit 0 0) (s.mean s.areaSq s.sumSq)

/-- `Number(n.toPrecision(4))`. -/
def round4 (n : Runtime.Num) : Runtime.Num := Runtime.ofText (Runtime.toPrecision 4 n)

/-- `cutoff`, where an `ac` magnitude series has one. -/
def cutoffOf (s : DataSeries Runtime.Num) (analysisType : Option Text)
    (cutoff : Option Runtime.Num) : Option (Option Runtime.Num) :=
  if analysisType = some "ac".toList ∧ isAcMagnitudeSeries s.name = true then some cutoff else none

/-- The full-precision statistics, when there is a finite sample. -/
def rawStats (sqrt : Runtime.Num → Runtime.Num) (nan : Runtime.Num)
    (points : List (DataPoint Runtime.Num)) : Option SeriesStats :=
  let s := Summary.of nan points
  if s.count = 0 then none
  else
    let min := s.min.getD nan
    let max := s.max.getD nan
    some { min := min, max := max, final := s.final, pp := Runtime.sub max min, avg := s.avg
           rms := sqrt s.meanSquare }

/-- Statistics of nothing. -/
def SeriesStats.blank (nan : Runtime.Num) : SeriesStats :=
  { min := nan, max := nan, final := nan, pp := nan, avg := nan, rms := nan }

/-- The statistics as they are shown. -/
def SeriesStats.rounded (s : SeriesStats) : SeriesStats :=
  { min := round4 s.min, max := round4 s.max, final := round4 s.final, pp := round4 s.pp
    avg := round4 s.avg, rms := round4 s.rms }

/-- `summarizeSeries`; `sqrt` is `Math.sqrt` and `nan` is `Number.NaN`. -/
def summarizeSeries (sqrt : Runtime.Num → Runtime.Num) (nan : Runtime.Num)
    (s : DataSeries Runtime.Num) (analysisType : Option Text := none) : SimMeasurement :=
  match rawStats sqrt nan s.points with
  | none =>
    { toSeriesStats := .blank nan, node := s.name, raw := some (.blank nan)
      cutoff := cutoffOf s analysisType none }
  | some raw =>
    { toSeriesStats := raw.rounded, node := s.name, raw := some raw
      cutoff := cutoffOf s analysisType (cutoffFrequency s.points) }

/-! ## The extremes -/

/-- A sample counts when its ordinate is finite. -/
def IsSample (points : List (DataPoint Runtime.Num)) (y : Runtime.Num) : Prop :=
  Runtime.isFinite y = true ∧ ∃ p ∈ points, p.y = y

theorem isSample_append {points : List (DataPoint Runtime.Num)} {p : DataPoint Runtime.Num}
    {y : Runtime.Num} : IsSample (points ++ [p]) y ↔
      IsSample points y ∨ (Runtime.isFinite p.y = true ∧ p.y = y) := by
  constructor
  · rintro ⟨hy, q, hq, rfl⟩
    rcases List.mem_append.mp hq with hq | hq
    · exact Or.inl ⟨hy, q, hq, rfl⟩
    · rw [List.mem_singleton.mp hq] at hy ⊢
      exact Or.inr ⟨hy, rfl⟩
  · rintro (⟨hy, q, hq, rfl⟩ | ⟨hy, rfl⟩)
    · exact ⟨hy, q, List.mem_append_left _ hq, rfl⟩
    · exact ⟨hy, p, List.mem_append_right _ (List.mem_singleton.mpr rfl), rfl⟩

theorem of_append (nan : Runtime.Num) (points : List (DataPoint Runtime.Num))
    (p : DataPoint Runtime.Num) :
    Summary.of nan (points ++ [p]) = (Summary.of nan points).step p := by
  rw [Summary.of, List.foldl_append]
  rfl

theorem step_of_not_finite {s : Summary} {p : DataPoint Runtime.Num}
    (h : Runtime.isFinite p.y = false) : s.step p = s := by
  rw [Summary.step, h]
  rfl

/-- The abscissa of a sample leaves what the ordinates gave. -/
theorem abscissa_frame (s : Summary) (p : DataPoint Runtime.Num) :
    (s.abscissa p).min = s.min ∧ (s.abscissa p).max = s.max ∧
      (s.abscissa p).final = s.final ∧ (s.abscissa p).count = s.count ∧
      (s.abscissa p).sum = s.sum ∧ (s.abscissa p).sumSq = s.sumSq := by
  unfold Summary.abscissa
  dsimp only
  split_ifs <;> exact ⟨rfl, rfl, rfl, rfl, rfl, rfl⟩

section

variable {K : Type} [LinearOrder K] {value : Runtime.Num → K}

/-- `lo` and `hi` are the extremes of the samples so far, and `final` is one of them. -/
structure Extremes (value : Runtime.Num → K) (points : List (DataPoint Runtime.Num)) (s : Summary)
    (lo hi : Runtime.Num) : Prop where
  count : s.count ≠ 0
  min : s.min = some lo
  max : s.max = some hi
  lo_sample : IsSample points lo
  hi_sample : IsSample points hi
  final_sample : IsSample points s.final
  between : ∀ y, IsSample points y → value lo ≤ value y ∧ value y ≤ value hi

/-- Before the first sample. -/
structure Unsampled (nan : Runtime.Num) (points : List (DataPoint Runtime.Num)) (s : Summary) :
    Prop where
  start : s = .start nan
  none : ∀ y, ¬ IsSample points y

/-- The first sample is both extremes. -/
theorem extremes_first {nan : Runtime.Num} {points : List (DataPoint Runtime.Num)} {s : Summary}
    (h : Unsampled nan points s) {p : DataPoint Runtime.Num}
    (hp : Runtime.isFinite p.y = true) :
    Extremes value (points ++ [p]) (s.step p) p.y p.y := by
  obtain ⟨rfl, hnone⟩ := h
  have hsample : IsSample (points ++ [p]) p.y := isSample_append.mpr (Or.inr ⟨hp, rfl⟩)
  obtain ⟨hmin, hmax, hfinal, -, -, -⟩ := abscissa_frame ((Summary.start nan).ordinate p) p
  rw [Summary.step, if_pos hp]
  refine ⟨Nat.succ_ne_zero _, hmin, hmax, hsample, hsample, hfinal ▸ hsample, fun y hy => ?_⟩
  rcases isSample_append.mp hy with hy | ⟨-, rfl⟩
  · exact absurd hy (hnone y)
  · exact ⟨le_rfl, le_rfl⟩

/-- A further sample moves one extreme at most. -/
theorem extremes_step (hnum : OrderedNumbers value) {points : List (DataPoint Runtime.Num)}
    {s : Summary} {lo hi : Runtime.Num} (h : Extremes value points s lo hi)
    {p : DataPoint Runtime.Num} (hp : Runtime.isFinite p.y = true) :
    Extremes value (points ++ [p]) (s.step p) (Runtime.min lo p.y) (Runtime.max hi p.y) := by
  have hsample : IsSample (points ++ [p]) p.y := isSample_append.mpr (Or.inr ⟨hp, rfl⟩)
  have hold : ∀ y, IsSample points y → IsSample (points ++ [p]) y :=
    fun y hy => isSample_append.mpr (Or.inl hy)
  obtain ⟨hmin, hmax, hfinal, -, -, -⟩ := abscissa_frame (s.ordinate p) p
  obtain ⟨hlo, hvlo⟩ := hnum.min h.lo_sample.1 hp
  obtain ⟨hhi, hvhi⟩ := hnum.max h.hi_sample.1 hp
  rw [Summary.step, if_pos hp]
  constructor
  · exact Nat.succ_ne_zero _
  · refine hmin.trans ?_
    rw [Summary.ordinate, h.min]
    exact (apply_ite some _ _ _).symm
  · refine hmax.trans ?_
    rw [Summary.ordinate, h.max]
    exact (apply_ite some _ _ _).symm
  · rcases hlo with heq | heq
    · rw [heq]
      exact hold _ h.lo_sample
    · rw [heq]
      exact hsample
  · rcases hhi with heq | heq
    · rw [heq]
      exact hold _ h.hi_sample
    · rw [heq]
      exact hsample
  · exact hfinal ▸ hsample
  · intro y hy
    rw [hvlo, hvhi]
    rcases isSample_append.mp hy with hy | ⟨-, rfl⟩
    · exact ⟨min_le_of_left_le (h.between y hy).1, le_max_of_le_left (h.between y hy).2⟩
    · exact ⟨min_le_right _ _, le_max_right _ _⟩

theorem isSample_skip {points : List (DataPoint Runtime.Num)} {p : DataPoint Runtime.Num}
    (hp : Runtime.isFinite p.y = false) (y : Runtime.Num) :
    IsSample (points ++ [p]) y ↔ IsSample points y := by
  rw [isSample_append, hp]
  exact or_iff_left fun h => Bool.false_ne_true h.1

theorem Unsampled.skip {nan : Runtime.Num} {points : List (DataPoint Runtime.Num)} {s : Summary}
    (h : Unsampled nan points s) {p : DataPoint Runtime.Num}
    (hp : Runtime.isFinite p.y = false) : Unsampled nan (points ++ [p]) s :=
  ⟨h.start, fun y hy => h.none y ((isSample_skip hp y).mp hy)⟩

theorem Extremes.skip {points : List (DataPoint Runtime.Num)} {s : Summary}
    {lo hi : Runtime.Num} (h : Extremes value points s lo hi) {p : DataPoint Runtime.Num}
    (hp : Runtime.isFinite p.y = false) : Extremes value (points ++ [p]) s lo hi :=
  ⟨h.count, h.min, h.max, (isSample_skip hp _).mpr h.lo_sample,
    (isSample_skip hp _).mpr h.hi_sample, (isSample_skip hp _).mpr h.final_sample,
    fun y hy => h.between y ((isSample_skip hp y).mp hy)⟩

/-- The loop has seen no sample, or it knows their extremes. -/
theorem of_extremes (hnum : OrderedNumbers value) (nan : Runtime.Num)
    (points : List (DataPoint Runtime.Num)) :
    Unsampled nan points (Summary.of nan points) ∨
      ∃ lo hi, Extremes value points (Summary.of nan points) lo hi := by
  induction points using List.reverseRecOn with
  | nil => exact Or.inl ⟨rfl, fun y hy => List.not_mem_nil hy.2.choose_spec.1⟩
  | append_singleton points p ih =>
    rw [of_append]
    cases hp : Runtime.isFinite p.y with
    | false =>
      rw [step_of_not_finite hp]
      rcases ih with h | ⟨lo, hi, h⟩
      · exact Or.inl (h.skip hp)
      · exact Or.inr ⟨lo, hi, h.skip hp⟩
    | true =>
      rcases ih with h | ⟨lo, hi, h⟩
      · exact Or.inr ⟨_, _, extremes_first h hp⟩
      · exact Or.inr ⟨_, _, extremes_step hnum h hp⟩

/-- A series with a sample has full-precision statistics. -/
theorem Extremes.rawStats (sqrt : Runtime.Num → Runtime.Num)
    (nan : Runtime.Num) {points : List (DataPoint Runtime.Num)} {lo hi : Runtime.Num}
    (h : Extremes value points (Summary.of nan points) lo hi) :
    CircuitForge.rawStats sqrt nan points = some
      { min := lo, max := hi, final := (Summary.of nan points).final
        pp := Runtime.sub hi lo, avg := (Summary.of nan points).avg
        rms := sqrt (Summary.of nan points).meanSquare } := by
  rw [CircuitForge.rawStats]
  dsimp only
  rw [if_neg h.count, h.min, h.max]
  rfl

end

/-! ## The weights -/

section

open Means

variable {K : Type} [Field K] [LinearOrder K] [IsStrictOrderedRing K] {value : Runtime.Num → K}
  {s : Summary} {lo hi : K} {p : DataPoint Runtime.Num}

/-- The trapezoids so far, weighted by the way from the first abscissa to the last. -/
structure OnAxis (value : Runtime.Num → K) (s : Summary) (lo hi : K) : Prop where
  first : Runtime.isFinite s.firstX = true
  last : Runtime.isFinite s.lastX = true
  prev : s.prevX = s.lastX
  area : Runtime.isFinite s.area = true
  areaSq : Runtime.isFinite s.areaSq = true
  weighs : Weighs lo hi (value s.lastX - value s.firstX) (value s.area) (value s.areaSq)

/-- The sums so far, weighted by the number of samples, and the trapezoids while the abscissae
are usable. -/
structure Tallied (value : Runtime.Num → K) (s : Summary) (lo hi : K) : Prop where
  sum : Runtime.isFinite s.sum = true
  sumSq : Runtime.isFinite s.sumSq = true
  weighs : Weighs lo hi (s.count : K) (value s.sum) (value s.sumSq)
  prevY : Runtime.isFinite s.prevY = true
  lower : lo ≤ value s.prevY
  upper : value s.prevY ≤ hi
  axis : s.xUsable = true → OnAxis value s lo hi

theorem Tallied.widen (h : Tallied value s lo hi) {lo' hi' : K} (hlo : lo' ≤ lo) (hhi : hi ≤ hi') :
    Tallied value s lo' hi' where
  sum := h.sum
  sumSq := h.sumSq
  weighs := h.weighs.widen hlo hhi (h.lower.trans h.upper)
  prevY := h.prevY
  lower := hlo.trans h.lower
  upper := h.upper.trans hhi
  axis hx := { h.axis hx with weighs := (h.axis hx).weighs.widen hlo hhi (h.lower.trans h.upper) }

/-- A trapezoid has its exact area. -/
theorem trapezoid_value (hnum : ExactNumbers value) {a b dx : Runtime.Num}
    (ha : Runtime.isFinite a = true) (hb : Runtime.isFinite b = true)
    (hdx : Runtime.isFinite dx = true) :
    Runtime.isFinite (trapezoid a b dx) = true ∧
      value (trapezoid a b dx) = 1 / 2 * (value a + value b) * value dx := by
  have hlit := hnum.lit 5 (-1)
  have hadd := hnum.add a b ha hb
  have hmul := hnum.mul _ _ hlit.1 hadd.1
  have htwice := hnum.mul _ _ hmul.1 hdx
  refine ⟨htwice.1, ?_⟩
  have hhalf : ((5 : Int) : K) * 10 ^ (-1 : Int) = 1 / 2 := by norm_num
  rw [trapezoid, htwice.2, hmul.2, hlit.2, hadd.2, hhalf]

omit [IsStrictOrderedRing K] in
/-- The first finite abscissa starts the axis. -/
theorem onAxis_first (hnum : ExactNumbers value) (hcount : s.count = 0)
    (harea : s.area = Runtime.lit 0 0) (hareaSq : s.areaSq = Runtime.lit 0 0)
    (hx : (s.abscissa p).xUsable = true) : OnAxis value (s.abscissa p) lo hi := by
  unfold Summary.abscissa at hx ⊢
  split_ifs at hx ⊢ with hfinite
  · refine ⟨hfinite, hfinite, rfl, ?_, ?_, ?_⟩
    · exact harea ▸ (hnum.lit 0 0).1
    · exact hareaSq ▸ (hnum.lit 0 0).1
    · dsimp only
      rw [harea, hareaSq, hnum.zero, sub_self]
      exact .zero lo hi

/-- A further abscissa adds a trapezoid, or nothing when it repeats the last one. -/
theorem onAxis_step (hnum : ExactNumbers value) (hcount : s.count ≠ 0)
    (h : s.xUsable = true → OnAxis value s lo hi) (hprevY : Runtime.isFinite s.prevY = true)
    (hlower : lo ≤ value s.prevY) (hupper : value s.prevY ≤ hi)
    (hp : Runtime.isFinite p.y = true) (hlo : lo ≤ value p.y) (hhi : value p.y ≤ hi)
    (hx : (s.abscissa p).xUsable = true) : OnAxis value (s.abscissa p) lo hi := by
  unfold Summary.abscissa at hx ⊢
  cases hfinite : Runtime.isFinite p.x with
  | false =>
    rw [hfinite] at hx
    exact absurd hx Bool.false_ne_true
  | true =>
    rw [hfinite, if_pos rfl, if_neg hcount] at hx
    rw [if_pos rfl, if_neg hcount]
    dsimp only at hx ⊢
    split_ifs at hx ⊢ with hprev hpos hneg
    · obtain ⟨hfirst, hlast, hsame, harea, hareaSq, hweighs⟩ := h hx
      rw [hsame] at hpos hprev ⊢
      have hdx := hnum.sub _ _ hfinite hlast
      have hy := trapezoid_value hnum hprevY hp hdx.1
      have hyy := trapezoid_value hnum (hnum.mul _ _ hprevY hprevY).1 (hnum.mul _ _ hp hp).1 hdx.1
      have hadd := hnum.add _ _ harea hy.1
      have haddSq := hnum.add _ _ hareaSq hyy.1
      rw [hnum.lt_iff _ _ (hnum.lit 0 0).1 hdx.1, hnum.zero, hdx.2] at hpos
      refine ⟨hfirst, hfinite, rfl, hadd.1, haddSq.1, ?_⟩
      have hnext := hweighs.trapezoid hlower hupper hlo hhi hpos.le
      have hw : value s.lastX - value s.firstX + (value p.x - value s.lastX) =
          value p.x - value s.firstX := by ring
      rw [hw] at hnext
      dsimp only
      rw [hadd.2, haddSq.2, hy.2, hyy.2, hdx.2, (hnum.mul _ _ hprevY hprevY).2,
        (hnum.mul _ _ hp hp).2]
      exact hnext
    · obtain ⟨hfirst, hlast, hsame, harea, hareaSq, hweighs⟩ := h hx
      rw [hsame] at hpos hneg
      have hdx := hnum.sub _ _ hfinite hlast
      rw [hnum.lt_iff _ _ (hnum.lit 0 0).1 hdx.1, hnum.zero, hdx.2, not_lt] at hpos
      rw [hnum.lt_iff _ _ hdx.1 (hnum.lit 0 0).1, hnum.zero, hdx.2, not_lt] at hneg
      have heq : value p.x = value s.lastX := sub_eq_zero.mp (le_antisymm hpos hneg)
      refine ⟨hfirst, hfinite, rfl, harea, hareaSq, ?_⟩
      dsimp only
      rw [heq]
      exact hweighs
    · obtain ⟨-, hlast, hsame, -⟩ := h hx
      exact absurd (hsame ▸ hlast) hprev

theorem Summary.step_of_finite (hp : Runtime.isFinite p.y = true) :
    s.step p = { (s.ordinate p).abscissa p with
      prevY := p.y, count := ((s.ordinate p).abscissa p).count + 1 } := by
  rw [Summary.step, if_pos hp]

/-- What a step makes of the accumulators, given what it makes of the axis. -/
theorem tallied_of_axis (hnum : ExactNumbers value) (hsum : Runtime.isFinite s.sum = true)
    (hsumSq : Runtime.isFinite s.sumSq = true)
    (hweighs : Weighs lo hi (s.count : K) (value s.sum) (value s.sumSq))
    (hp : Runtime.isFinite p.y = true) (hlo : lo ≤ value p.y) (hhi : value p.y ≤ hi)
    (haxis : ((s.ordinate p).abscissa p).xUsable = true →
      OnAxis value ((s.ordinate p).abscissa p) lo hi) :
    Tallied value (s.step p) lo hi := by
  obtain ⟨-, -, -, hcount, hs, hss⟩ := abscissa_frame (s.ordinate p) p
  have hmul := hnum.mul _ _ hp hp
  have hadd := hnum.add _ _ hsum hp
  have haddSq := hnum.add _ _ hsumSq hmul.1
  rw [Summary.step_of_finite hp]
  refine ⟨hs ▸ hadd.1, hss ▸ haddSq.1, ?_, hp, hlo, hhi, fun hx => ?_⟩
  · have hnext := hweighs.add hlo hhi zero_le_one
    dsimp only
    rw [hcount, hs, hss]
    have hw : ((s.count + 1 : Nat) : K) = (s.count : K) + 1 := Nat.cast_succ _
    have hone : (1 : K) * value p.y = value p.y := one_mul _
    have hsq : (1 : K) * value p.y ^ 2 = value p.y * value p.y := by ring
    rw [hone, hsq] at hnext
    rw [Summary.ordinate]
    dsimp only
    rw [hw, hadd.2, haddSq.2, hmul.2]
    exact hnext
  · obtain ⟨hfirst, hlast, hprev, harea, hareaSq, hw⟩ := haxis hx
    exact ⟨hfirst, hlast, hprev, harea, hareaSq, hw⟩

theorem tallied_first (hnum : ExactNumbers value) (nan : Runtime.Num)
    (hp : Runtime.isFinite p.y = true) :
    Tallied value ((Summary.start nan).step p) (value p.y) (value p.y) := by
  refine tallied_of_axis hnum (hnum.lit 0 0).1 (hnum.lit 0 0).1 ?_ hp le_rfl le_rfl
    (onAxis_first hnum rfl rfl rfl)
  rw [Summary.start]
  dsimp only
  rw [hnum.zero, Nat.cast_zero]
  exact .zero _ _

theorem tallied_step (hnum : ExactNumbers value) (hcount : s.count ≠ 0)
    (h : Tallied value s lo hi) (hp : Runtime.isFinite p.y = true) (hlo : lo ≤ value p.y)
    (hhi : value p.y ≤ hi) : Tallied value (s.step p) lo hi := by
  refine tallied_of_axis hnum h.sum h.sumSq h.weighs hp hlo hhi
    (onAxis_step hnum hcount (fun hx => ?_) h.prevY h.lower h.upper hp hlo hhi)
  obtain ⟨hfirst, hlast, hprev, harea, hareaSq, hw⟩ := h.axis hx
  exact ⟨hfirst, hlast, hprev, harea, hareaSq, hw⟩

/-- The loop has seen no sample, or it has tallied them between their extremes. -/
theorem of_tallied (hnum : ExactNumbers value) (nan : Runtime.Num)
    (points : List (DataPoint Runtime.Num)) :
    Unsampled nan points (Summary.of nan points) ∨
      ∃ lo hi, Extremes value points (Summary.of nan points) lo hi ∧
        Tallied value (Summary.of nan points) (value lo) (value hi) := by
  induction points using List.reverseRecOn with
  | nil => exact Or.inl ⟨rfl, fun y hy => List.not_mem_nil hy.2.choose_spec.1⟩
  | append_singleton points p ih =>
    rw [of_append]
    cases hp : Runtime.isFinite p.y with
    | false =>
      rw [step_of_not_finite hp]
      rcases ih with h | ⟨lo, hi, h, htally⟩
      · exact Or.inl (h.skip hp)
      · exact Or.inr ⟨lo, hi, h.skip hp, htally⟩
    | true =>
      rcases ih with h | ⟨lo, hi, h, htally⟩
      · refine Or.inr ⟨_, _, extremes_first h hp, ?_⟩
        rw [h.start]
        exact tallied_first hnum nan hp
      · have hnext := extremes_step hnum.toOrderedNumbers h hp
        have hlo := hnum.toOrderedNumbers.min h.lo_sample.1 hp
        have hhi := hnum.toOrderedNumbers.max h.hi_sample.1 hp
        refine Or.inr ⟨_, _, hnext, tallied_step hnum h.count (htally.widen ?_ ?_) hp ?_ ?_⟩
        · exact hlo.2 ▸ min_le_left _ _
        · exact hhi.2 ▸ le_max_left _ _
        · exact hlo.2 ▸ min_le_right _ _
        · exact hhi.2 ▸ le_max_right _ _

/-! ## The statistics -/

/-- Both ways to the mean divide weighted values by their positive weight. -/
theorem Tallied.means (hnum : ExactNumbers value) (h : Tallied value s lo hi)
    (hcount : s.count ≠ 0) :
    ∃ w a q, Weighs lo hi w a q ∧ 0 < w ∧ value s.avg = a / w ∧
      Runtime.isFinite (s.mean s.areaSq s.sumSq) = true ∧
      value (s.mean s.areaSq s.sumSq) = q / w := by
  unfold Summary.avg Summary.mean
  by_cases hspan : Runtime.lt (Runtime.lit 0 0) s.span = true
  · rw [if_pos hspan, if_pos hspan]
    have husable : s.xUsable = true ∧ s.span = Runtime.sub s.lastX s.firstX := by
      unfold Summary.span at hspan ⊢
      split_ifs at hspan ⊢ with hcond
      · exact ⟨(Bool.and_eq_true_iff.mp (Bool.and_eq_true_iff.mp hcond).1).1, rfl⟩
      · rw [hnum.lt_iff _ _ (hnum.lit 0 0).1 (hnum.lit 0 0).1] at hspan
        exact absurd hspan (lt_irrefl _)
    have haxis := h.axis husable.1
    have hsub := hnum.sub _ _ haxis.last haxis.first
    rw [husable.2] at hspan ⊢
    rw [hnum.lt_iff _ _ (hnum.lit 0 0).1 hsub.1, hnum.zero, hsub.2] at hspan
    have hne : value (Runtime.sub s.lastX s.firstX) ≠ 0 := hsub.2 ▸ hspan.ne'
    have hdiv := hnum.div _ _ haxis.area hsub.1 hne
    have hdivSq := hnum.div _ _ haxis.areaSq hsub.1 hne
    exact ⟨_, _, _, haxis.weighs, hspan, hsub.2 ▸ hdiv.2, hdivSq.1, hsub.2 ▸ hdivSq.2⟩
  · rw [if_neg hspan, if_neg hspan]
    have hpos : (0 : K) < s.count := Nat.cast_pos.mpr (Nat.pos_of_ne_zero hcount)
    have hne : value (Runtime.lit s.count 0) ≠ 0 := (hnum.nat s.count).symm ▸ hpos.ne'
    have hdiv := hnum.div _ _ h.sum (hnum.lit s.count 0).1 hne
    have hdivSq := hnum.div _ _ h.sumSq (hnum.lit s.count 0).1 hne
    exact ⟨_, _, _, h.weighs, hpos, hnum.nat s.count ▸ hdiv.2, hdivSq.1,
      hnum.nat s.count ▸ hdivSq.2⟩

omit [IsStrictOrderedRing K] in
/-- The mean square is not negative, and `Math.max(0, …)` leaves it. -/
theorem meanSquare_value (hnum : ExactNumbers value)
    (hfinite : Runtime.isFinite (s.mean s.areaSq s.sumSq) = true)
    (hpos : 0 ≤ value (s.mean s.areaSq s.sumSq)) :
    value s.meanSquare = value (s.mean s.areaSq s.sumSq) := by
  rw [Summary.meanSquare, (hnum.toOrderedNumbers.max (hnum.lit 0 0).1 hfinite).2, hnum.zero,
    max_eq_right hpos]

/-- The statistics of a series are consistent, in exact arithmetic: the mean lies between the
extremes, the last sample is a sample, and the root mean square is not below the mean nor above the
largest magnitude. -/
theorem summarizeSeries_consistent (hnum : ExactNumbers value)
    (sqrt : Runtime.Num → Runtime.Num) (nan : Runtime.Num) (s : DataSeries Runtime.Num)
    (analysisType : Option Text) (hsample : ∃ y, IsSample s.points y)
    (hsqrt : value (sqrt (Summary.of nan s.points).meanSquare) ^ 2 =
      value (Summary.of nan s.points).meanSquare) :
    ∃ raw, (summarizeSeries sqrt nan s analysisType).raw = some raw ∧
      value raw.min ≤ value raw.avg ∧ value raw.avg ≤ value raw.max ∧
      value raw.pp = value raw.max - value raw.min ∧ IsSample s.points raw.final ∧
      value raw.avg ^ 2 ≤ value raw.rms ^ 2 ∧
      value raw.rms ^ 2 ≤ max (value raw.min ^ 2) (value raw.max ^ 2) := by
  rcases of_tallied hnum nan s.points with h | ⟨lo, hi, h, htally⟩
  · obtain ⟨y, hy⟩ := hsample
    exact absurd hy (h.none y)
  · obtain ⟨w, a, q, hweighs, hw, havg, hfinite, hms⟩ := htally.means hnum h.count
    obtain ⟨hlower, hupper, hjensen, hlargest⟩ := hweighs.mean hw
    have hpos : 0 ≤ value ((Summary.of nan s.points).mean (Summary.of nan s.points).areaSq
        (Summary.of nan s.points).sumSq) := hms ▸ div_nonneg hweighs.squares hw.le
    rw [meanSquare_value hnum hfinite hpos, hms] at hsqrt
    refine ⟨_, by rw [summarizeSeries, h.rawStats sqrt nan],
      ?_, ?_, ?_, h.final_sample, ?_, ?_⟩
    · exact havg ▸ hlower
    · exact havg ▸ hupper
    · exact (hnum.sub _ _ h.hi_sample.1 h.lo_sample.1).2
    · rw [hsqrt, havg]
      exact hjensen
    · rw [hsqrt]
      exact hlargest

end

end

/-- A square wave, whose root mean square is rational. -/
def waveSeries : DataSeries Rat := { name := ['a'], points := [⟨0, 3⟩, ⟨1, -3⟩, ⟨3, 3⟩] }

/-- The root of nine. -/
def rootOfNine (a : Rat) : Rat := if a = 9 then 3 else a

theorem summarizeSeries_consistent_wave :
    ∃ raw, (summarizeSeries rootOfNine (0 : Rat) waveSeries none).raw = some raw ∧
      exactValue raw.min ≤ exactValue raw.avg ∧ exactValue raw.avg ≤ exactValue raw.max ∧
      exactValue raw.pp = exactValue raw.max - exactValue raw.min ∧
      IsSample waveSeries.points raw.final ∧ exactValue raw.avg ^ 2 ≤ exactValue raw.rms ^ 2 ∧
      exactValue raw.rms ^ 2 ≤ max (exactValue raw.min ^ 2) (exactValue raw.max ^ 2) :=
  summarizeSeries_consistent exactNumbers_exact rootOfNine (0 : Rat) waveSeries none
    ⟨(3 : Rat), rfl, ⟨(0 : Rat), (3 : Rat)⟩, List.mem_cons_self, rfl⟩ (by decide +kernel)

end CircuitForge
