/-
The power review: `generation/power-analysis.ts`.

A resistor dissipates the square of the voltage across it over its resistance.  The review looks
the two voltages up in the measurements, under a key it derives from the net id on one side and
from the column label on the other, and sets the dissipation against a rating.
-/
import CircuitForge.Analysis.Measurements
import CircuitForge.Netlist.Generator
import CircuitForge.Utils.UnitParser

namespace CircuitForge
namespace PowerReview

open Js

variable [Runtime]

open Js.Runtime (lit sub mul div lt le)

/-! ## Keys -/

/-- `/^v\(([^)]+)\)$/i`, group 1. -/
def voltageCall : Text → Option Text
  | c :: '(' :: rest =>
    let inner := rest.dropLast
    if sameLetter 'v' c && rest.getLast? == some ')' && inner ≠ [] && !inner.contains ')' then
      some inner
    else none
  | _ => none

/-- `nodeKey`. -/
def nodeKey (probeOrNet : Text) : Text :=
  let label := trim probeOrNet
  Runtime.lower (sanitizeNodeName ((voltageCall label).getD label))

/-- `sanitizeNodeName(netId).toLowerCase()`. -/
def netKey (netId : Text) : Text := Runtime.lower (sanitizeNodeName netId)

/-! ## Ratings -/

/-- Where a rating came from. -/
inductive RatingSource where
  | declared | footprint | default
  deriving DecidableEq

structure Rating where
  ratingW : Runtime.Num
  ratingSource : RatingSource

/-- `DEFAULT_RESISTOR_RATING_W`. -/
def defaultResistorRatingW : Runtime.Num := lit 25 (-2)

/-- `CHIP_RESISTOR_RATING_W`. -/
def chipResistorRatingW : Map Text Runtime.Num :=
  [("01005", lit 31 (-3)), ("0201", lit 5 (-2)), ("0402", lit 625 (-4)), ("0603", lit 1 (-1)),
   ("0805", lit 125 (-3)), ("1206", lit 25 (-2)), ("1210", lit 5 (-1)), ("2010", lit 75 (-2)),
   ("1218", lit 1 0), ("2512", lit 1 0)].map fun e => (e.1.toList, e.2)

omit [Runtime] in
/-- `/[0-9]{4,5}/` at the first place it matches. -/
def packageCode : Text → Option Text
  | [] => none
  | c :: rest =>
    let digits := (c :: rest).takeWhile Char.isDigit
    if 4 ≤ digits.length then some (digits.take 5) else packageCode rest

/-- `packageRatingW`. -/
def packageRatingW (footprint : Option Text) : Option Runtime.Num :=
  (footprint.bind packageCode).bind chipResistorRatingW.get?

omit [Runtime] in
/-- The radix a numeric string announces. -/
def radixOf (l : Char) : Option Nat :=
  if sameLetter 'x' l then some 16
  else if sameLetter 'o' l then some 8
  else if sameLetter 'b' l then some 2
  else none

omit [Runtime] in
/-- The digits after `0x`, `0o` or `0b`. -/
def radixValue : Text → Option Nat
  | '0' :: l :: d :: ds =>
    (radixOf l).bind fun radix =>
      (d :: ds).foldlM (fun v c =>
        ((List.range radix).find? fun k => Nat.digitChar k = c.toLower).map (radix * v + ·)) 0
  | _ => none

omit [Runtime] in
/-- A decimal literal of a numeric string. -/
def numericRe : Re :=
  .seq (.opt (.alt (.char '+') (.char '-'))) (.seq decimalRe exponentRe)

/-- `Number(s)`, absent when it is not finite. -/
def numericValue (s : Text) : Option Runtime.Num :=
  let t := trim s
  if t = [] then some (lit 0 0)
  else if numericRe.accepts t then some (Runtime.ofText t)
  else (radixValue t).map fun v => lit v 0

/-- The number of `properties?.powerRating`. -/
def declaredPower (properties : Option (Map Text PropValue)) : Option Runtime.Num :=
  (properties.bind fun p => p.get? "powerRating".toList).bind fun
    | .num n => some n
    | .str s => numericValue s
    | .other => none

/-- `ratingOf`. -/
def ratingOf (properties : Option (Map Text PropValue)) (footprint : Option Text) : Rating :=
  match (declaredPower properties).filter fun n => Runtime.isFinite n && lt (lit 0 0) n with
  | some n => ⟨n, .declared⟩
  | none =>
    match packageRatingW footprint with
    | some pkg => ⟨pkg, .footprint⟩
    | none => ⟨defaultResistorRatingW, .default⟩

/-! ## Findings -/

inductive PowerBasis where
  | operatingPoint | rms | lastTimestep
  deriving DecidableEq

/-- `PowerFinding`. -/
structure PowerFinding extends Rating where
  designator : Text
  dissipationW : Runtime.Num
  basis : PowerBasis
  overRating : Bool

/-- `PowerReport`. -/
structure PowerReport where
  basis : PowerBasis
  components : List PowerFinding
  anyOverRating : Bool

/-- `isGround`: some net of this id is flagged. -/
def isGroundNet (circuit : CircuitJson) (netId : Text) : Bool :=
  circuit.nets.any fun n => n.isGround && n.id == netId

/-- A statistic of the measurements under their keys: the last column of a key counts. -/
def byNode (stat : SimMeasurement → Runtime.Num) (measurements : List SimMeasurement) :
    Map Text Runtime.Num :=
  Map.fill (fun m => nodeKey m.node) stat measurements []

/-- `voltageOf` and `rmsOf`: zero at ground, else what is kept under the key of the net. -/
def statOf (stat : SimMeasurement → Runtime.Num) (circuit : CircuitJson)
    (measurements : List SimMeasurement) (netId : Text) : Option Runtime.Num :=
  if isGroundNet circuit netId then some (lit 0 0)
  else (byNode stat measurements).get? (netKey netId)

/-- `voltageOf`. -/
def voltageOf : CircuitJson → List SimMeasurement → Text → Option Runtime.Num :=
  statOf fun m => m.final

/-- `rmsOf`. -/
def rmsOf : CircuitJson → List SimMeasurement → Text → Option Runtime.Num :=
  statOf fun m => m.rms

/-- `(v1 - v2) ** 2 / R`. -/
def dropPower (v₁ v₂ r : Runtime.Num) : Runtime.Num := div (mul (sub v₁ v₂) (sub v₁ v₂)) r

/-- The value of a resistor the review can divide by. -/
def resistance (c : Component) : Option Runtime.Num :=
  ((parseSpiceValue (c.value.getD [])).map ParsedValue.value).filter fun r => !le r (lit 0 0)

/-- The dissipation of a resistor between two nets with these voltages, and what it rests on. -/
def dissipation (circuit : CircuitJson) (measurements : List SimMeasurement)
    (analysisType : Option Text) (n₁ n₂ : Text) (v₁ v₂ r : Runtime.Num) :
    Runtime.Num × PowerBasis :=
  let isTransient := analysisType = some "tran".toList
  if isTransient ∧ isGroundNet circuit n₁ ≠ isGroundNet circuit n₂ then
    match rmsOf circuit measurements (if isGroundNet circuit n₁ then n₂ else n₁) with
    | some vr => (div (mul vr vr) r, .rms)
    | none => (dropPower v₁ v₂ r, .lastTimestep)
  else if isTransient ∨ analysisType = some "ac".toList then (dropPower v₁ v₂ r, .lastTimestep)
  else (dropPower v₁ v₂ r, .operatingPoint)

/-- The finding of one resistor; none where the loop continues. -/
def resistorFinding (circuit : CircuitJson) (measurements : List SimMeasurement)
    (analysisType : Option Text) (c : Component) : Option PowerFinding :=
  match c.pins with
  | p₁ :: p₂ :: _ => do
    let v₁ ← voltageOf circuit measurements p₁.netId
    let v₂ ← voltageOf circuit measurements p₂.netId
    let r ← resistance c
    let (power, basis) := dissipation circuit measurements analysisType p₁.netId p₂.netId v₁ v₂ r
    let rating := ratingOf c.properties c.catalog.footprint
    return { rating with
      designator := c.designator
      dissipationW := round4 power
      basis := basis
      overRating := lt rating.ratingW power }
  | _ => none

/-- The resistors of a circuit. -/
def resistors (circuit : CircuitJson) : List Component :=
  circuit.components.filter fun c => c.type == .resistor

/-- `computeResistorPower`. -/
def computeResistorPower (circuit : CircuitJson) (measurements : List SimMeasurement)
    (analysisType : Option Text := none) : Option PowerReport :=
  match (resistors circuit).filterMap (resistorFinding circuit measurements analysisType) with
  | [] => none
  | components =>
    some { basis :=
             if analysisType = some "tran".toList ∨ analysisType = some "ac".toList then
               .lastTimestep
             else .operatingPoint
           components := components
           anyOverRating := components.any PowerFinding.overRating }

end PowerReview
end CircuitForge
