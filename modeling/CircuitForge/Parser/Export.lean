/-
The exported table: `resultToCsv` of `parser/result-export.ts`.

The series are put side by side by the index of their points, and the first one that has a point
at an index gives the abscissa.  A sample that `parseCsv` left out of one series shifts the later
ones of that series against the others.
-/
import CircuitForge.Parser.Csv
import CircuitForge.Js.Exact

namespace CircuitForge

open Js

section

variable [Runtime]

/-- `num`. -/
def numCell (n : Runtime.Num) : Text := if Runtime.isFinite n then Runtime.toText n else []

/-- `csvField`. -/
def csvField (s delim : Text) : Text :=
  if includes s delim || s.contains '"' || s.contains '\n' || s.contains '\r' then
    '"' :: s.flatMap (fun c => if c = '"' then ['"', '"'] else [c]) ++ ['"']
  else s

/-- The cells of the row `i`. -/
def csvRow (series : List (DataSeries Runtime.Num)) (i : Nat) : List Text :=
  (pointAt series i).elim [] (fun p => numCell p.x) ::
    series.map fun s => s.points[i]?.elim [] fun p => numCell p.y

/-- The rows of the table, less the header. -/
def csvRows (series : List (DataSeries Runtime.Num)) : List (List Text) :=
  (List.range (rowCount series)).map (csvRow series)

/-- The cells of the header. -/
def csvHeader (result : SimulationResult Runtime.Num) : List Text :=
  (match truthy result.info.xUnit with
    | some unit => result.info.xLabel ++ " (".toList ++ unit ++ ")".toList
    | none => result.info.xLabel) :: result.series.map DataSeries.name

/-- `resultToCsv`. -/
def resultToCsv (result : SimulationResult Runtime.Num) (delim : Text := ",".toList)
    (eol : Text := "\n".toList) : Text :=
  join eol (join delim ((csvHeader result).map fun h => csvField h delim) ::
    (csvRows result.series).map (join delim)) ++ eol

/-! ## Alignment -/

/-- Every point of a series appears in its column on a row of its abscissa, and every number of a
column comes of such a point. -/
structure CsvFaithful (series : List (DataSeries Runtime.Num)) : Prop where
  appears : ∀ (j : Nat) (s : DataSeries Runtime.Num), series[j]? = some s → ∀ p ∈ s.points,
    ∃ row ∈ csvRows series, row[0]? = some (Runtime.toText p.x) ∧
      row[j + 1]? = some (Runtime.toText p.y)
  comes : ∀ row ∈ csvRows series, ∀ (j : Nat) (s : DataSeries Runtime.Num) (cell : Text),
    series[j]? = some s → row[j + 1]? = some cell → cell ≠ [] →
      ∃ p ∈ s.points, row[0]? = some (Runtime.toText p.x) ∧ cell = Runtime.toText p.y

/-- Every point stands on the row of its own index. -/
def OwnRows (series : List (DataSeries Runtime.Num)) : Prop :=
  ∀ (j : Nat) (s : DataSeries Runtime.Num), series[j]? = some s →
    ∀ (i : Nat) (p : DataPoint Runtime.Num), s.points[i]? = some p →
      ∃ row, (csvRows series)[i]? = some row ∧ row[0]? = some (Runtime.toText p.x) ∧
        row[j + 1]? = some (Runtime.toText p.y)

/-- Lists of points that are finite and agree, index by index, on the text of the abscissa. -/
def Aligned (lists : List (List (DataPoint Runtime.Num))) : Prop :=
  ∀ ps ∈ lists, ∀ (i : Nat) (p : DataPoint Runtime.Num), ps[i]? = some p →
    Runtime.isFinite p.x = true ∧ Runtime.isFinite p.y = true ∧
    ∀ qs ∈ lists, ∀ q : DataPoint Runtime.Num, qs[i]? = some q →
      Runtime.toText p.x = Runtime.toText q.x

section

variable {series : List (DataSeries Runtime.Num)}

theorem numCell_eq_toText {n : Runtime.Num} :
    numCell n = Runtime.toText n ↔ Runtime.isFinite n = true := by
  unfold numCell
  split_ifs with h
  · exact ⟨fun _ => h, fun _ => rfl⟩
  · exact ⟨fun he => absurd he.symm (Runtime.toText_ne_nil n), fun hf => absurd hf h⟩

/-- What prints like a finite number is finite. -/
theorem isFinite_of_toText_eq {m n : Runtime.Num} (h : Runtime.toText m = Runtime.toText n)
    (hm : Runtime.isFinite m = true) : Runtime.isFinite n = true := by
  rcases Runtime.toText_spec n with hn | ⟨-, hn⟩
  · exact hn.1
  · rcases Runtime.toText_spec m with hm' | hm'
    · have hall : ∀ t ∈ ["NaN".toList, "Infinity".toList, "-Infinity".toList],
          numeralRe.accepts t = false := by decide
      rw [← h] at hn
      rw [hall _ hn] at hm'
      exact absurd hm'.2 (by decide)
    · rw [hm] at hm'
      exact absurd hm'.1 (by decide)

/-- A cell is the text of a number only if it is finite and prints so. -/
theorem numCell_eq_iff {m n : Runtime.Num} :
    numCell m = Runtime.toText n ↔
      Runtime.isFinite n = true ∧ Runtime.toText n = Runtime.toText m := by
  constructor
  · intro h
    have hm : Runtime.isFinite m = true := by
      by_contra hm
      rw [numCell, if_neg hm] at h
      exact Runtime.toText_ne_nil n h.symm
    rw [numCell_eq_toText.mpr hm] at h
    exact ⟨isFinite_of_toText_eq h hm, h.symm⟩
  · rintro ⟨hn, h⟩
    rw [numCell_eq_toText.mpr (isFinite_of_toText_eq h hn), h]

theorem csvRows_getElem {i : Nat} (h : i < rowCount series) :
    (csvRows series)[i]? = some (csvRow series i) := by
  rw [csvRows, List.getElem?_map, List.getElem?_range h, Option.map_some]

theorem csvRow_cell {i j : Nat} {s : DataSeries Runtime.Num} (hs : series[j]? = some s) :
    (csvRow series i)[j + 1]? = some (s.points[i]?.elim [] fun p => numCell p.y) := by
  rw [csvRow, List.getElem?_cons_succ, List.getElem?_map, hs, Option.map_some]

/-- The row of a point: its cells hold the point when it is finite and prints the abscissa of the
first series. -/
theorem csvRow_holds_iff {i j : Nat} {s : DataSeries Runtime.Num} (hs : series[j]? = some s)
    {p q : DataPoint Runtime.Num} (hp : s.points[i]? = some p) (hq : pointAt series i = some q) :
    ((csvRow series i)[0]? = some (Runtime.toText p.x) ∧
      (csvRow series i)[j + 1]? = some (Runtime.toText p.y)) ↔
    Runtime.isFinite p.x = true ∧ Runtime.isFinite p.y = true ∧
      Runtime.toText p.x = Runtime.toText q.x := by
  rw [csvRow_cell hs, hp, csvRow, hq]
  simp only [List.getElem?_cons_zero, Option.elim_some, Option.some.injEq, numCell_eq_toText,
    numCell_eq_iff]
  exact ⟨fun h => ⟨h.1.1, h.2, h.1.2⟩, fun h => ⟨⟨h.1, h.2.2⟩, h.2.1⟩⟩

/-- The points of aligned series stand on the rows of their own indices, and no others do. -/
theorem ownRows_iff : OwnRows series ↔ Aligned (series.map DataSeries.points) := by
  have hrow : ∀ (i : Nat) (s : DataSeries Runtime.Num) (p : DataPoint Runtime.Num), s ∈ series →
      s.points[i]? = some p → (csvRows series)[i]? = some (csvRow series i) :=
    fun i s p hs hp => csvRows_getElem
      (lt_rowCount.mpr ⟨s, hs, (List.getElem?_eq_some_iff.mp hp).1⟩)
  constructor
  · intro h
    have hholds : ∀ s ∈ series, ∀ (i : Nat) (p q : DataPoint Runtime.Num),
        s.points[i]? = some p → pointAt series i = some q → Runtime.isFinite p.x = true ∧
          Runtime.isFinite p.y = true ∧ Runtime.toText p.x = Runtime.toText q.x := by
      intro s hs i p q hp hq
      obtain ⟨j, hj⟩ := List.mem_iff_getElem?.mp hs
      obtain ⟨row, hget, hcells⟩ := h j s hj i p hp
      rw [hrow i s p hs hp] at hget
      obtain rfl := Option.some.inj hget
      exact (csvRow_holds_iff hj hp hq).mp hcells
    rintro ps hps i p hp
    obtain ⟨s, hs, rfl⟩ := List.mem_map.mp hps
    obtain ⟨q, hq⟩ := exists_pointAt hs hp
    obtain ⟨hx, hy, heq⟩ := hholds s hs i p q hp hq
    refine ⟨hx, hy, fun qs hqs p' hp' => ?_⟩
    obtain ⟨s', hs', rfl⟩ := List.mem_map.mp hqs
    rw [heq, (hholds s' hs' i p' q hp' hq).2.2]
  · intro h j s hj i p hp
    have hs := List.mem_of_getElem? hj
    obtain ⟨q, hq⟩ := exists_pointAt hs hp
    obtain ⟨s', hs', hq'⟩ := pointAt_some hq
    obtain ⟨hx, hy, hsame⟩ := h _ (List.mem_map_of_mem hs) i p hp
    exact ⟨_, hrow i s p hs hp, (csvRow_holds_iff hj hp hq).mpr
      ⟨hx, hy, hsame _ (List.mem_map_of_mem hs') q hq'⟩⟩

/-- Series on the rows of their own indices are exported faithfully. -/
theorem csvFaithful_of_ownRows (h : OwnRows series) : CsvFaithful series where
  appears := fun j s hj p hp => by
    obtain ⟨i, hi⟩ := List.mem_iff_getElem?.mp hp
    obtain ⟨row, hrow, hx, hy⟩ := h j s hj i p hi
    exact ⟨row, List.mem_of_getElem? hrow, hx, hy⟩
  comes := fun row hrow j s cell hj hcell hne => by
    obtain ⟨i, hi, rfl⟩ := List.mem_map.mp hrow
    rw [csvRow_cell hj, Option.some.injEq] at hcell
    cases hp : s.points[i]? with
    | none =>
      rw [hp] at hcell
      exact absurd hcell.symm hne
    | some p =>
      obtain ⟨row, hget, hx, hy⟩ := h j s hj i p hp
      rw [csvRows_getElem (List.mem_range.mp hi)] at hget
      obtain rfl := Option.some.inj hget
      refine ⟨p, List.mem_of_getElem? hp, hx, ?_⟩
      rw [csvRow_cell hj, hp, Option.some.injEq] at hy
      rw [← hcell, hp]
      exact hy

end

/-! ## The series of a text -/

/-- The samples a text gives for its probes are finite, and those of one index, counted in each
series among the rows that give it a sample, print the same abscissa. -/
def CsvAligned (polar : Polar) (csvContent : Text) (probes : Nat) (analysisType : Text) : Prop :=
  Aligned ((List.range probes).map (magnitudes polar csvContent probes analysisType) ++
    (List.range probes).map (phases polar csvContent probes analysisType))

omit [Runtime] in
theorem zipIdx_map_snd {α β : Type} (f : Nat → β) (xs : List α) :
    (xs.zipIdx.map fun e => f e.2) = (List.range xs.length).map f := by
  have h := congrArg (List.map f) (List.zipIdx_map_snd 0 xs)
  rwa [List.map_map, ← List.range_eq_range'] at h

/-- Lists without points do not disturb an alignment. -/
theorem aligned_append_iff {lists empty : List (List (DataPoint Runtime.Num))}
    (h : ∀ ps ∈ empty, ps = []) : Aligned (lists ++ empty) ↔ Aligned lists := by
  have hno : ∀ ps ∈ empty, ∀ (i : Nat) (p : DataPoint Runtime.Num), ps[i]? ≠ some p := by
    intro ps hps i p hp
    rw [h ps hps] at hp
    cases hp
  constructor
  · intro hall ps hps i p hp
    obtain ⟨hx, hy, hsame⟩ := hall ps (List.mem_append_left _ hps) i p hp
    exact ⟨hx, hy, fun qs hqs => hsame qs (List.mem_append_left _ hqs)⟩
  · intro hall ps hps i p hp
    rcases List.mem_append.mp hps with hps | hps
    · obtain ⟨hx, hy, hsame⟩ := hall ps hps i p hp
      refine ⟨hx, hy, fun qs hqs q hq => ?_⟩
      rcases List.mem_append.mp hqs with hqs | hqs
      · exact hsame qs hqs q hq
      · exact absurd hq (hno qs hqs i q)
    · exact absurd hp (hno ps hps i p)

theorem parseCsv_aligned_iff (polar : Polar) (csvContent : Text) (probeNames : List Text)
    (analysisType : Text) :
    Aligned ((parseCsv polar csvContent probeNames analysisType).series.map DataSeries.points) ↔
      CsvAligned polar csvContent probeNames.length analysisType := by
  unfold parseCsv CsvAligned
  dsimp only
  split_ifs with hphase
  · rw [List.map_append, List.map_map, List.map_map, ← zipIdx_map_snd, ← zipIdx_map_snd]
    rfl
  · rw [aligned_append_iff, List.map_map, ← zipIdx_map_snd]
    · rfl
    · intro ps hps
      obtain ⟨i, hi, rfl⟩ := List.mem_map.mp hps
      by_contra hne
      refine hphase (List.any_eq_true.mpr ?_)
      have hi' : i < probeNames.length := List.mem_range.mp hi
      refine ⟨_, List.mem_map_of_mem (a := (probeNames[i], i)) ?_, ?_⟩
      · exact List.mem_zipIdx_iff_getElem?.mpr (List.getElem?_eq_getElem hi')
      · simpa using hne

end

/-- Two probes, the second without a number in the first row. -/
def gappedResult : SimulationResult Rat :=
  parseCsv (⟨fun re _ => re, fun re _ => re⟩ : Polar) "0 1 0 nan\n1 2 1 3".toList [['a'], ['b']]
    "tran".toList

end CircuitForge
