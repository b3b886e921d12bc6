/-
Analysis requests and the card each becomes: `types/analysis.ts`.
-/
import CircuitForge.Js.Map
import CircuitForge.Utils.UnitParser

namespace CircuitForge

open Js

variable [Runtime]

open Js.Runtime (lit toText)

/-! ## Requests -/

inductive IntegrationMethod where
  | trap | gear
  deriving DecidableEq

structure SolverOptions where
  reltol : Option Text := none
  abstol : Option Text := none
  vntol : Option Text := none
  gmin : Option Text := none
  method : Option IntegrationMethod := none
  itl4 : Option Runtime.Num := none

inductive MeasureType where
  | max | min | pp | avg | rms | integ | when
  deriving DecidableEq

def MeasureType.name : MeasureType → Text
  | max => "max".toList
  | min => "min".toList
  | pp => "pp".toList
  | avg => "avg".toList
  | rms => "rms".toList
  | integ => "integ".toList
  | when => "when".toList

inductive Edge where
  | rise | fall | cross
  deriving DecidableEq

def Edge.name : Edge → Text
  | rise => "rise".toList
  | fall => "fall".toList
  | cross => "cross".toList

structure MeasureSpec where
  name : Text
  type : MeasureType
  probe : Text
  value : Option Runtime.Num := none
  edge : Option Edge := none

structure FourierRequest where
  fundamentalFreq : Text
  probes : List Text

structure TranAnalysis where
  stopTime : Text
  stepTime : Option Text := none
  startTime : Option Text := none
  maxStep : Option Text := none
  uic : Bool := false
  /-- The entries of the record, in the order `Object.entries` lists them. -/
  initialConditions : Option { m : Map Text Runtime.Num // m.Keyed } := none
  options : Option SolverOptions := none
  fourier : Option FourierRequest := none
  measurements : Option (List MeasureSpec) := none

inductive Variation where
  | dec | oct | lin
  deriving DecidableEq

def Variation.name : Variation → Text
  | dec => "dec".toList
  | oct => "oct".toList
  | lin => "lin".toList

/-- The frequency sweep of an `ac` or `noise` request. -/
structure Sweep where
  variation : Variation
  points : Runtime.Num
  startFreq : Text
  stopFreq : Text

structure AcAnalysis where
  sweep : Sweep
  options : Option SolverOptions := none

structure DcAnalysis where
  source : Text
  startVal : Text
  stopVal : Text
  increment : Text
  options : Option SolverOptions := none

structure TfRequest where
  output : Text
  inputSource : Text

structure OpAnalysis where
  options : Option SolverOptions := none
  tf : Option TfRequest := none

structure NoiseAnalysis where
  output : Text
  inputSource : Text
  sweep : Sweep
  options : Option SolverOptions := none

structure SensAnalysis where
  output : Text
  options : Option SolverOptions := none

inductive AnalysisConfig where
  | tran (a : TranAnalysis)
  | ac (a : AcAnalysis)
  | dc (a : DcAnalysis)
  | op (a : OpAnalysis)
  | noise (a : NoiseAnalysis)
  | sens (a : SensAnalysis)

/-- `analysis.options`. -/
def AnalysisConfig.options : AnalysisConfig → Option SolverOptions
  | tran a => a.options
  | ac a => a.options
  | dc a => a.options
  | op a => a.options
  | noise a => a.options
  | sens a => a.options

/-- `analysis.type`. -/
def analysisType : AnalysisConfig → Text
  | .tran _ => "tran".toList
  | .ac _ => "ac".toList
  | .dc _ => "dc".toList
  | .op _ => "op".toList
  | .noise _ => "noise".toList
  | .sens _ => "sens".toList

/-! ## Cards -/

/-- `MAX_SIM_POINTS`. -/
def maxSimPoints : Runtime.Num := lit 1000000 0

/-- `calculateDefaultStep`. -/
def calculateDefaultStep (stopTime : Text) : Text :=
  match parseSpiceValue stopTime with
  | some v =>
    if Runtime.lt (lit 0 0) v.value then formatSpiceValue (Runtime.div v.value (lit 1000 0))
    else stopTime
  | none => stopTime

/-- `clampStepToPointBudget`. -/
def clampStepToPointBudget (start stop step : Text) : Text :=
  match parseSpiceValue stop, parseSpiceValue start, parseSpiceValue step with
  | some pStop, some pStart, some pStep =>
    let span := Runtime.abs (Runtime.sub pStop.value pStart.value)
    let st := pStep.value
    if !Runtime.lt (lit 0 0) span || !Runtime.lt (lit 0 0) st then step
    else if Runtime.le (Runtime.div span st) maxSimPoints then step
    else formatSpiceValue (Runtime.div span maxSimPoints)
  | _, _, _ => step

def TranAnalysis.start (a : TranAnalysis) : Text := (truthy a.startTime).getD "0".toList

/-- The step a `tran` request is emitted with. -/
def TranAnalysis.emittedStep (a : TranAnalysis) : Text :=
  clampStepToPointBudget a.start a.stopTime
    ((truthy a.stepTime).getD (calculateDefaultStep a.stopTime))

/-- The blank-separated fields of the `.tran` card. -/
def TranAnalysis.fields (a : TranAnalysis) : List Text :=
  [".tran".toList, a.emittedStep, a.stopTime, a.start] ++ (truthy a.maxStep).toList ++
    (if a.uic then ["uic".toList] else [])

/-- Whether the sweep degenerates to one point. -/
def Sweep.samePoint (s : Sweep) : Bool :=
  s.startFreq = s.stopFreq ||
    match parseSpiceValue s.startFreq, parseSpiceValue s.stopFreq with
    | some pStart, some pStop => Runtime.eq pStart.value pStop.value
    | _, _ => false

/-- The point count a sweep is emitted with. -/
def Sweep.emittedPoints (s : Sweep) : Text := toText (Runtime.min s.points maxSimPoints)

def Sweep.fields (s : Sweep) : List Text :=
  [s.variation.name, s.emittedPoints, s.startFreq, s.stopFreq]

def AcAnalysis.fields (a : AcAnalysis) : List Text :=
  if a.sweep.samePoint then
    [".ac".toList, "lin".toList, "1".toList, a.sweep.startFreq, a.sweep.stopFreq]
  else ".ac".toList :: a.sweep.fields

def DcAnalysis.emittedIncrement (a : DcAnalysis) : Text :=
  clampStepToPointBudget a.startVal a.stopVal a.increment

def DcAnalysis.fields (a : DcAnalysis) : List Text :=
  [".dc".toList, a.source, a.startVal, a.stopVal, a.emittedIncrement]

def NoiseAnalysis.fields (a : NoiseAnalysis) : List Text :=
  [".noise".toList, a.output, a.inputSource] ++ a.sweep.fields

def SensAnalysis.fields (a : SensAnalysis) : List Text := [".sens".toList, a.output]

def AnalysisConfig.fields : AnalysisConfig → List Text
  | tran a => a.fields
  | ac a => a.fields
  | dc a => a.fields
  | op _ => [".op".toList]
  | noise a => a.fields
  | sens a => a.fields

/-- `analysisToSpice`: every card is its fields with one blank between them. -/
def analysisToSpice (a : AnalysisConfig) : Text := join " ".toList a.fields

end CircuitForge
