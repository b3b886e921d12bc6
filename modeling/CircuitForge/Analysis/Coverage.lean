/-
What criteria measure: the rest of `analysis/assertions.ts`.

A prompt that puts a number on a current, a frequency or a distortion requires a criterion that
measures it; and the listings of a run bring numbers that its series do not have.
-/
import CircuitForge.Analysis.Assertions
import CircuitForge.Js.Search

namespace CircuitForge

open Js Pattern

/-! ## Dimensions -/

inductive SpecDimension where
  | voltage | current | frequency | thd
  deriving DecidableEq

/-- `\d+(?:\.\d+)?`. -/
def magnitude : Pattern :=
  andThen (atLeastOne Char.isDigit) (maybe (andThen (one (· == '.')) (atLeastOne Char.isDigit)))

/-- `(?<![a-z0-9.])` and a number, with the blanks behind it. -/
def standaloneMagnitude : Pattern :=
  inOrder [look fun s => !s.before.any fun c => c.isAlphanum || c == '.', magnitude, many isSpace]

/-- The micro sign and the letters it is folded with. -/
def isMicro (c : Char) : Bool := c.toNat == 0xb5 || c.toNat == 0x3bc || c.toNat == 0x39c

/-- `CURRENT_MAGNITUDE_RE`. -/
def currentMagnitude : Pattern :=
  inOrder [standaloneMagnitude,
    maybe (one fun c => isMicro c || ['m', 'u', 'n', 'k', 'p'].any (sameLetter · c)), wordI "a",
    boundary]

/-- `CURRENT_WORD_RE`. -/
def currentWord : Pattern :=
  inOrder [standaloneMagnitude, maybe (anyOf (["milli", "micro", "nano", "kilo"].map wordI)),
    wordI "amp", maybe (wordI "ere"), maybe (wordI "s"), boundary]

/-- `FREQUENCY_MAGNITUDE_RE`. -/
def frequencyMagnitude : Pattern :=
  inOrder [standaloneMagnitude, maybe (anyOf (["k", "m", "g"].map wordI)), wordI "hz", boundary]

/-- `FREQUENCY_WORD_RE`. -/
def frequencyWord : Pattern :=
  inOrder [boundary,
    anyOf [wordI "cutoff",
      inOrder [wordI "corner", atLeastOne isSpace, wordI "frequenc",
        anyOf [wordI "y", wordI "ies"]],
      wordI "bandwidth",
      inOrder [maybe (wordI "-"), many isSpace, wordI "3", many isSpace, wordI "db"],
      wordI "passband", wordI "stopband",
      inOrder [wordI "resonant", atLeastOne isSpace, wordI "frequency"]],
    boundary]

/-- `THD_TERM`. -/
def thdTerm : Pattern :=
  anyOf [inOrder [boundary, wordI "thd", boundary],
    inOrder [boundary, maybe (andThen (wordI "total") (atLeastOne isSpace)), wordI "harmonic",
      atLeastOne isSpace, wordI "distortion", boundary]]

/-- `THD_BOUND`. -/
def thdBound : Pattern :=
  inOrder [magnitude, many isSpace,
    anyOf [wordI "%", andThen (wordI "percent") boundary,
      inOrder [wordI "db", maybe (wordI "c"), boundary]]]

/-- `THD_SPEC_RE`. -/
def thdSpec : Pattern :=
  let gap := upTo 24 (one fun c => c != '.' && c != '\n')
  either (inOrder [thdTerm, gap, thdBound]) (inOrder [thdBound, gap, thdTerm])

/-- `requiredDimensions`. -/
def requiredDimensions (prompt : Text) : List SpecDimension :=
  (if test currentMagnitude prompt || test currentWord prompt then [.current] else []) ++
    (if test frequencyMagnitude prompt || test frequencyWord prompt then [.frequency] else []) ++
    (if test thdSpec prompt then [.thd] else [])

/-! ## Probes -/

/-- `isDifferentialProbe`. -/
def isDifferentialProbe (probe : Text) : Bool :=
  (voltageArgument (normalizeProbe (trim probe))).any fun inner => inner.contains ','

section

variable [Runtime]

def extraProbesForCriteria (criteria : List AcceptanceCriterion) : List Text :=
  (criteria.filter fun c => isCurrentProbe c.probe || isDifferentialProbe c.probe).map
    AcceptanceCriterion.probe

/-! ## Coverage -/

/-- `criterionDimension`. -/
def criterionDimension (c : AcceptanceCriterion) : SpecDimension :=
  match c.metric with
  | .cutoff => .frequency
  | .thd => .thd
  | _ => if isCurrentProbe c.probe then .current else .voltage

/-- `uncoveredRequiredDimensions`. -/
def uncoveredRequiredDimensions (prompt : Text) (criteria : List AcceptanceCriterion) :
    List SpecDimension :=
  let required := requiredDimensions prompt
  let covered := criteria.map criterionDimension
  [.current, .frequency, .thd].filter fun d => required.contains d && !covered.contains d

theorem covered_of_uncovered_nil {prompt : Text} {criteria : List AcceptanceCriterion}
    (h : uncoveredRequiredDimensions prompt criteria = []) {d : SpecDimension}
    (hd : d ∈ requiredDimensions prompt) : ∃ c ∈ criteria, criterionDimension c = d := by
  have henforced : d ∈ [SpecDimension.current, .frequency, .thd] := by
    simp only [requiredDimensions, List.mem_append] at hd
    rcases hd with (hd | hd) | hd <;>
    · split at hd
      · rw [List.mem_singleton.mp hd]
        decide
      · exact absurd hd List.not_mem_nil
  have hd' := List.filter_eq_nil_iff.mp h d henforced
  simpa [hd] using hd'

/-! ## Listings -/

/-- `FourierResult`, its distortion. -/
structure FourierResult where
  probe : Text
  thd : Runtime.Num

/-- `TransferFunctionResult`, its gain. -/
structure TransferFunctionResult where
  gain : Runtime.Num
  outputNode : Text

/-- `attachFourierThd`. -/
def attachFourierThd (measurements : List SimMeasurement) (fourier : List FourierResult) :
    List SimMeasurement :=
  measurements.map fun m =>
    match fourier.find? fun f => nodeKey f.probe = nodeKey m.node with
    | some f => if Runtime.isFinite f.thd then { m with thd := some f.thd } else m
    | none => m

/-- The loop of `attachTransferFunction`: the first measurement of the node. -/
def attachGain (tf : TransferFunctionResult) : List SimMeasurement → List SimMeasurement
  | [] => []
  | m :: rest =>
    if nodeKey m.node = nodeKey tf.outputNode then { m with gain := some tf.gain } :: rest
    else m :: attachGain tf rest

/-- `attachTransferFunction`. -/
def attachTransferFunction (measurements : List SimMeasurement)
    (tf : Option TransferFunctionResult) : List SimMeasurement :=
  match tf with
  | some tf => if Runtime.isFinite tf.gain then attachGain tf measurements else measurements
  | none => measurements

end

example : requiredDimensions "drive the LED at 10mA".toList = [.current] := by decide +kernel

end CircuitForge
