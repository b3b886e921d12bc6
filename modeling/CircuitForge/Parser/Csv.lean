/-
The table of `wrdata`: `parser/csv-parser.ts`.

A row of the output is blanks and numbers.  For each probe it gives a sample, at a place that
depends on the analysis and on the width of the row, and a sample that is not a number is left out
of its series.
-/
import CircuitForge.Types.Simulation
import CircuitForge.Js.Tokens
import CircuitForge.Js.Scan

namespace CircuitForge

open Js

section

variable [Runtime]

/-! ## Numbers -/

/-- The part of a token that `parseFloat` reads: a decimal literal or `Infinity`, with a sign. -/
def spanFloat (s : Text) : Option Text :=
  let (sign, r) := match s with
    | '+' :: r => (['+'], r)
    | '-' :: r => (['-'], r)
    | r => ([], r)
  if startsWith r "Infinity".toList then some (sign ++ "Infinity".toList)
  else
    let (whole, r) := spanDigits r
    let (point, fraction, r) := match r with
      | '.' :: r => (['.'], spanDigits r)
      | r => ([], [], r)
    if whole = [] ∧ fraction = [] then none
    else some (sign ++ whole ++ point ++ fraction ++ (spanExponent r).1)

/-- `parseFloat`; nothing is NaN. -/
def parseFloat (s : Text) : Option Runtime.Num := (spanFloat s).map Runtime.ofText

/-- `isNaN`. -/
def isNotNumber (v : Option Runtime.Num) : Bool := v.elim true Runtime.isNaN

/-! ## Rows -/

/-- The values of a line, unless it is empty, a comment or too short. -/
def rowValues (line : Text) : Option (List (Option Runtime.Num)) :=
  let trimmed := trim line
  if trimmed = [] ∨ startsWith trimmed ['#'] ∨ startsWith trimmed ['*'] then none
  else
    let values := (splitBlanks trimmed).map parseFloat
    if values.length < 2 then none else some values

/-- A point, when both coordinates are there and are numbers. -/
def csvPoint (x y : Option (Option Runtime.Num)) : Option (DataPoint Runtime.Num) :=
  match x, y with
  | some (some x), some (some y) =>
    if Runtime.isNaN x || Runtime.isNaN y then none else some { x := x, y := y }
  | _, _ => none

/-- `Math.hypot(re, im)`, where NaN may come in and out, and `(Math.atan2(im, re) * 180) / Math.PI`
of two numbers. -/
structure Polar where
  hypot : Option Runtime.Num → Option Runtime.Num → Option Runtime.Num
  degrees : Runtime.Num → Runtime.Num → Runtime.Num

/-- `acComplex`. -/
def acComplex (analysisType : Text) (probes : Nat) (values : List (Option Runtime.Num)) : Bool :=
  analysisType = "ac".toList && decide (3 * probes ≤ values.length)

/-- The sample of the probe `i` in a row. -/
def sampleOf (polar : Polar) (analysisType : Text) (probes i : Nat)
    (values : List (Option Runtime.Num)) : Option (DataPoint Runtime.Num) :=
  if acComplex analysisType probes values then
    csvPoint values[3 * i]? (values[3 * i + 1]?.bind fun re =>
      values[3 * i + 2]?.map fun im => polar.hypot re im)
  else if 2 * probes ≤ values.length then csvPoint values[2 * i]? values[2 * i + 1]?
  else csvPoint values[0]? values[i + 1]?

/-- The phase of the probe `i` in a row. -/
def phaseOf (polar : Polar) (analysisType : Text) (probes i : Nat)
    (values : List (Option Runtime.Num)) : Option (DataPoint Runtime.Num) :=
  if acComplex analysisType probes values then
    match values[3 * i]?, values[3 * i + 1]?, values[3 * i + 2]? with
    | some (some x), some (some re), some (some im) =>
      if Runtime.isNaN x || Runtime.isNaN re || Runtime.isNaN im then none
      else some { x := x, y := polar.degrees re im }
    | _, _, _ => none
  else none

/-! ## Series -/

/-- The rows of a text. -/
def csvValues (csvContent : Text) : List (List (Option Runtime.Num)) :=
  (splitLines (trim csvContent)).filterMap rowValues

/-- The points of the magnitude series of the probe `i`. -/
def magnitudes (polar : Polar) (csvContent : Text) (probes : Nat) (analysisType : Text) (i : Nat) :
    List (DataPoint Runtime.Num) :=
  (csvValues csvContent).filterMap (sampleOf polar analysisType probes i)

/-- The points of the phase series of the probe `i`. -/
def phases (polar : Polar) (csvContent : Text) (probes : Nat) (analysisType : Text) (i : Nat) :
    List (DataPoint Runtime.Num) :=
  (csvValues csvContent).filterMap (phaseOf polar analysisType probes i)

/-- `xLabel` and `xUnit` of an analysis. -/
def xAxis (analysisType : Text) : Text × Option Text :=
  if analysisType = "ac".toList then ("frequency".toList, some "Hz".toList)
  else if analysisType = "dc".toList then ("voltage".toList, some "V".toList)
  else if analysisType = "op".toList then ("point".toList, none)
  else ("time".toList, some "s".toList)

/-- `buildMeta`. -/
def buildMeta (analysisType : Text) (series : List (DataSeries Runtime.Num)) : ResultMeta where
  analysisType := analysisType
  xLabel := (xAxis analysisType).1
  xUnit := (xAxis analysisType).2
  pointsCount := series.head?.elim 0 fun s => s.points.length

/-- `parseCsv`. -/
def parseCsv (polar : Polar) (csvContent : Text) (probeNames : List Text)
    (analysisType : Text) : SimulationResult Runtime.Num :=
  let probes := probeNames.length
  let series : List (DataSeries Runtime.Num) := probeNames.zipIdx.map fun e =>
    { name := e.1, points := magnitudes polar csvContent probes analysisType e.2 }
  let phaseSeries : List (DataSeries Runtime.Num) := probeNames.zipIdx.map fun e =>
    { name := "phase(".toList ++ e.1 ++ ")".toList
      points := phases polar csvContent probes analysisType e.2 }
  let withPhase := if phaseSeries.any (fun p => !p.points.isEmpty) then series ++ phaseSeries
    else series
  { info := buildMeta analysisType withPhase, series := withPhase }

end

end CircuitForge
