/-
SPICE values: `utils/unit-parser.ts`, and preferred values: `utils/eseries.ts`, for the series E24.
-/
import CircuitForge.Js.Map
import CircuitForge.Js.Scan

namespace CircuitForge

open Js

variable [Runtime]

open Js.Runtime (lit mul div lt le eq)

/-- `SPICE_SUFFIXES` at a single letter. -/
def spiceSuffix (c : Char) : Option Runtime.Num :=
  match c with
  | 'T' => some (lit 1 12)
  | 'G' => some (lit 1 9)
  | 'K' => some (lit 1 3)
  | 'M' => some (lit 1 (-3))
  | 'U' => some (lit 1 (-6))
  | 'N' => some (lit 1 (-9))
  | 'P' => some (lit 1 (-12))
  | 'F' => some (lit 1 (-15))
  | _ => none

/-- `UNIT_ABBREVS`. -/
def unitAbbrevs : Map Text Text :=
  [("OHM", "Ω"), ("OHMS", "Ω"), ("FARAD", "F"), ("HENRY", "H"), ("VOLT", "V"), ("VOLTS", "V"),
   ("AMP", "A"), ("AMPS", "A"), ("AMPERE", "A"), ("AMPERES", "A"), ("WATT", "W"), ("WATTS", "W"),
   ("HERTZ", "Hz"), ("HZ", "Hz"), ("SECOND", "s"), ("SECONDS", "s"), ("SEC", "s")].map
    fun e => (e.1.toList, e.2.toList)

/-- `UNIT_ABBREVS[s] || s`, absent when nothing is left. -/
def unitOf (s : Text) : Option Text :=
  if s = [] then none else some ((unitAbbrevs.get? s).getD s)

/-- The multiplier and the unit of a suffix in upper case. -/
def readSuffix (suffix : Text) : Runtime.Num × Option Text :=
  if startsWith suffix "MEG".toList then (lit 1 6, unitOf (suffix.drop 3))
  else if startsWith suffix "MIL".toList then (lit 254 (-7), unitOf (suffix.drop 3))
  else
    match suffix with
    | c :: rest =>
      match spiceSuffix c with
      | some m => (m, unitOf rest)
      | none => (lit 1 0, unitOf suffix)
    | [] => (lit 1 0, none)

/-- A `ParsedValue` with `isValid: true`. -/
structure ParsedValue where
  value : Runtime.Num
  unit : Option Text := none

/-- `parseSpiceValue`; `none` is `isValid: false`.  The pattern's number is the
longest number at the head and what follows is blanks and letters. -/
def parseSpiceValue (input : Text) : Option ParsedValue :=
  match spanNumber (trim input) with
  | none => none
  | some (n, rest) =>
    let suffix := trimStart rest
    if suffix.all Char.isAlpha then
      if suffix = [] then some { value := Runtime.ofText n }
      else
        let (multiplier, unit) := readSuffix (asciiUpper suffix)
        some { value := mul (Runtime.ofText n) multiplier, unit := unit }
    else none

/-- The band `formatSpiceValue` scales a magnitude to: its suffix and divisor. -/
def formatBand (a : Runtime.Num) : Text × Option Runtime.Num :=
  if le (lit 1 12) a then (['T'], some (lit 1 12))
  else if le (lit 1 9) a then (['G'], some (lit 1 9))
  else if le (lit 1 6) a then ("MEG".toList, some (lit 1 6))
  else if le (lit 1 3) a then (['K'], some (lit 1 3))
  else if le (lit 1 0) a then ([], none)
  else if le (lit 1 (-3)) a then (['m'], some (lit 1 (-3)))
  else if le (lit 1 (-6)) a then (['u'], some (lit 1 (-6)))
  else if le (lit 1 (-9)) a then (['n'], some (lit 1 (-9)))
  else if le (lit 1 (-12)) a then (['p'], some (lit 1 (-12)))
  else (['f'], some (lit 1 (-15)))

/-- `unit?.replace(/Ω/g, 'Ohm')`. -/
def safeUnit (unit : Option Text) : Text :=
  (unit.getD []).flatMap fun c => if c = 'Ω' then "Ohm".toList else [c]

/-- `formatSpiceValue`. -/
def formatSpiceValue (value : Runtime.Num) (unit : Option Text := none) : Text :=
  if eq value (lit 0 0) then "0".toList ++ safeUnit unit
  else
    let a := Runtime.abs value
    let (suffix, divisor) := formatBand a
    let scaled := divisor.elim a (div a)
    let formatted :=
      if Runtime.isInteger scaled then Runtime.toText scaled
      else Runtime.toText (Runtime.ofText (Runtime.toPrecision 4 scaled))
    (if lt value (lit 0 0) then ['-'] else []) ++ formatted ++ suffix ++ safeUnit unit

/-! ## Preferred values -/

open Js.Runtime (lit sub div lt le abs isFinite log10 floor exp10)

/-- The mantissas of E24. -/
def e24 : List Runtime.Num :=
  [10, 11, 12, 13, 15, 16, 18, 20, 22, 24, 27, 30, 33, 36, 39, 43, 47, 51, 56, 62, 68, 75, 82, 91].map
    fun m => lit m (-1)

/-- One turn of the loop of `nearestESeries`; the best error starts at infinity. -/
def nearerMantissa (targetLog : Runtime.Num) (best : Runtime.Num × Option Runtime.Num)
    (m : Runtime.Num) : Runtime.Num × Option Runtime.Num :=
  let err := abs (sub (log10 m) targetLog)
  if best.2.elim (isFinite err) (lt err) then (m, some err) else best

/-- `nearestESeries`. -/
def nearestESeries (value : Runtime.Num) : Runtime.Num :=
  if !isFinite value || le value (lit 0 0) then value
  else
    let base := exp10 (floor (log10 value))
    let candidates := e24 ++ [lit 10 0]
    let best := candidates.foldl (nearerMantissa (log10 (div value base))) (lit 1 0, none)
    Runtime.mul best.1 base

/-- `isESeriesValue`. -/
def isESeriesValue (value : Runtime.Num) : Bool :=
  if !isFinite value || le value (lit 0 0) then false
  else
    let nearest := nearestESeries value
    le (div (abs (sub value nearest)) nearest) (lit 1 (-3))

/-- `snapValueString`. -/
def snapValueString (spiceValue : Text) : Option Text :=
  match parseSpiceValue spiceValue with
  | some parsed =>
    if lt (lit 0 0) parsed.value then
      some (formatSpiceValue (nearestESeries parsed.value) parsed.unit)
    else none
  | none => none

end CircuitForge
