/-
Generic device models and model parameters: `models/library.ts`.
-/
import CircuitForge.Types.Circuit
import CircuitForge.Js.Scan
import CircuitForge.Netlist.SolverOptions

namespace CircuitForge

open Js

/-! ## Generic models -/

/-- One entry of `GENERIC_MODELS`. -/
def genericModel (name : String) (device : ModelDevice) (body : List String)
    (ports : Option (List String) := none) : ModelDef :=
  ⟨name.toList, device, join "\n".toList (body.map String.toList),
    ports.map (·.map String.toList)⟩

/-- `Object.values(GENERIC_MODELS)`. -/
def genericModels : List ModelDef :=
  [genericModel "QGENNPN" .bjt
    [".model QGENNPN NPN(IS=10f BF=200 VAF=100 IKF=0.3 ISE=1p NE=1.5 RB=10 RC=1 RE=0.5 CJE=8p " ++
      "CJC=4p TF=0.4n TR=50n)"],
   genericModel "QGENPNP" .bjt
    [".model QGENPNP PNP(IS=10f BF=180 VAF=100 IKF=0.2 ISE=1p NE=1.5 RB=10 RC=1 RE=0.5 CJE=10p " ++
      "CJC=6p TF=0.6n TR=80n)"],
   genericModel "MGENNMOS" .mosfet
    [".model MGENNMOS NMOS(LEVEL=1 VTO=2.0 KP=20u GAMMA=0 LAMBDA=0.02 CGSO=5p CGDO=2p)"],
   genericModel "MGENPMOS" .mosfet
    [".model MGENPMOS PMOS(LEVEL=1 VTO=-2.0 KP=10u GAMMA=0 LAMBDA=0.02 CGSO=5p CGDO=2p)"],
   genericModel "JGENNJF" .jfet
    [".model JGENNJF NJF(VTO=-2.0 BETA=1m LAMBDA=2m RD=10 RS=10 CGS=4p CGD=4p)"],
   genericModel "JGENPJF" .jfet
    [".model JGENPJF PJF(VTO=2.0 BETA=0.5m LAMBDA=2m RD=10 RS=10 CGS=4p CGD=4p)"],
   genericModel "SWGEN" .switch [".model SWGEN SW(VT=2.5 VH=0.5 RON=1 ROFF=1Meg)"],
   genericModel "LEDRED" .diode [".model LEDRED D(IS=1e-20 N=1.8 RS=2 CJO=10p)"],
   genericModel "LEDYEL" .diode [".model LEDYEL D(IS=1e-20 N=1.9 RS=2 CJO=10p)"],
   genericModel "LEDGRN" .diode [".model LEDGRN D(IS=1e-22 N=2.0 RS=2 CJO=10p)"],
   genericModel "LEDBLU" .diode [".model LEDBLU D(IS=1e-22 N=2.5 RS=3 CJO=10p)"],
   genericModel "OPAMPGEN" .subckt
    [".subckt OPAMPGEN out inp inn vcc vee",
     "Rin   inp inn 2Meg",
     "Gm    0 n2 inp inn 1e-3",
     "Rpole n2 0 1e8",
     "Cp    n2 0 16p",
     "Dhi   n2 vcc DCLMP",
     "Dlo   vee n2 DCLMP",
     "Ebuf  n3 0 n2 0 1",
     "Rout  n3 out 50",
     ".model DCLMP D(IS=1e-12 N=1)",
     ".ends"]
    (some ["out", "in+", "in-", "vcc", "vee"]),
   genericModel "SCRGEN" .subckt
    [".subckt SCRGEN anode gate cathode",
     "Dak   anode ai DSCR",
     "Sw    ai swk ctrl 0 SWSCR",
     "Rsense swk cathode 1",
     "Rgk   gate cathode 1meg",
     "Bctrl cl 0 V = ( (v(gate,cathode) > 0.8) || ((v(ctrl) > 0.5) && (v(swk,cathode) > 50u)) ) ? 5 : 0",
     "Rc    cl ctrl 1k",
     "Cc    ctrl 0 1n",
     ".model SWSCR SW(VT=0.5 VH=0.2 RON=0.5 ROFF=1meg)",
     ".model DSCR D(IS=1e-12 N=1)",
     ".ends"]
    (some ["anode", "gate", "cathode"]),
   genericModel "IGBTGEN" .subckt
    [".subckt IGBTGEN c g e",
     "M1 cm g e e MGIG",
     "D1 c cm DIG",
     "Rge g e 100meg",
     ".model MGIG NMOS(LEVEL=1 VTO=4.5 KP=0.99)",
     ".model DIG D(IS=1e-12 N=1)",
     ".ends"]
    (some ["c", "g", "e"])]

/-- `GENERIC_MODELS_BY_NAME[name]`. -/
def genericModelByName (name : Text) : Option ModelDef := genericModels.find? (·.name = name)

/-- The loop of `resolveGenericModels`. -/
def resolveFrom [Runtime] : List Text → List Component → List ModelDef
  | _, [] => []
  | present, c :: cs =>
    match (truthy c.model).bind genericModelByName with
    | some m =>
      if m.name ∈ present then resolveFrom present cs else m :: resolveFrom (m.name :: present) cs
    | none => resolveFrom present cs

/-- `resolveGenericModels`. -/
def resolveGenericModels [Runtime] (circuit : CircuitJson) : List ModelDef :=
  resolveFrom ((circuit.models.getD []).map ModelDef.name) circuit.components

/-- `attachGenericModels`. -/
def attachGenericModels [Runtime] (circuit : CircuitJson) : CircuitJson :=
  match resolveGenericModels circuit with
  | [] => circuit
  | extra => { circuit with models := some (circuit.models.getD [] ++ extra) }

/-! ## Number patterns -/

/-- `(\d+\.?\d*|\.\d+)`. -/
def decimalRe : Re :=
  .alt (.seq (.plus .digit) (.seq (.opt (.char '.')) (.star .digit)))
    (.seq (.char '.') (.plus .digit))

/-- `(meg|[tgkmunpf])?` under the `i` flag. -/
def scaleReI : Re :=
  .opt (.alt (.litI "meg".toList) (.cls fun c => "tgkmunpf".toList.contains c.toLower))

/-- `NUMERIC_TOKEN`. -/
def numericTokenRe : Re :=
  .seq (.opt (.alt (.char '+') (.char '-'))) <| .seq decimalRe <| .seq exponentRe scaleReI

/-- `[a-zΩµμ]` under the `i` flag, which folds the omegas and the three mus. -/
def isUnitChar (c : Char) : Bool :=
  c.isAlpha || [0x3a9, 0x3c9, 0xb5, 0x3bc, 0x39c].contains c.toNat

/-- The pattern of `isPositiveSpiceValue`. -/
def positiveValueRe : Re :=
  .seq (.opt (.char '+')) <| .seq decimalRe <| .seq exponentRe <| .seq scaleReI
    (.star (.cls isUnitChar))

variable [Runtime]

/-- `isPositiveSpiceValue`.  Group 1 is the run of digits and points behind the
sign. -/
def isPositiveSpiceValue (s : Text) : Bool :=
  let t := trim s
  let unsigned := match t with
    | '+' :: r => r
    | r => r
  positiveValueRe.accepts t &&
    Runtime.lt (Runtime.lit 0 0)
      (Runtime.ofText (unsigned.takeWhile fun c => c.isDigit || c == '.'))

/-- `s.replace(/^dc\s+/i, '')`. -/
def dropDc (s : Text) : Text :=
  if startsWithI s "dc".toList && (s.drop 2).head?.any isSpace then trimStart (s.drop 2) else s

/-- `normalizeControlledSourceGain`. -/
def normalizeControlledSourceGain (raw : Text) : Option Text :=
  let s := dropDc (trim raw)
  if numericTokenRe.accepts s then some s else none

/-- The reader `str` of the parameter functions. -/
def propText (props : Option (Map Text PropValue)) (key : String) : Option Text :=
  match props.bind (·.get? key.toList) with
  | some (.str s) => some (trim s)
  | some (.num n) => if Runtime.isFinite n then some (Runtime.toText n) else none
  | _ => none

structure TransformerParams where
  lp : Text
  ls : Text
  k : Text
  dcr : Option Text

/-- `^(\d+\.?\d*|\.\d+)([eE][+-]?\d+)?$`. -/
def couplingRe : Re := .seq decimalRe exponentRe

/-- The coupling factor of `parseTransformerParams`. -/
def parseCoupling (raw : Option Text) : Option Text :=
  match raw with
  | none => some "0.999".toList
  | some k =>
    let kv := Runtime.ofText k
    if couplingRe.accepts k && Runtime.isFinite kv && !Runtime.le kv (Runtime.lit 0 0) &&
        !Runtime.lt (Runtime.lit 1 0) kv then
      some k
    else none

/-- `parseTransformerParams`. -/
def parseTransformerParams (props : Option (Map Text PropValue)) : Option TransformerParams :=
  match truthy (propText props "primaryInductance"),
      truthy (propText props "secondaryInductance") with
  | some lp, some ls =>
    if isPositiveSpiceValue lp && isPositiveSpiceValue ls then
      match parseCoupling (propText props "coupling") with
      | none => none
      | some k =>
        let rawDcr := (propText props "windingResistance").or (propText props "dcr")
        some ⟨lp, ls, k, (truthy rawDcr).filter isPositiveSpiceValue⟩
    else none
  | _, _ => none

/-- The two forms of a lossless line: a delay, or a frequency with an optional
normalized length. -/
inductive LineLength where
  | td (td : Text)
  | f (f : Text) (nl : Option Text)

structure TransmissionLineParams where
  z0 : Text
  length : LineLength

/-- `parseTransmissionLineParams`. -/
def parseTransmissionLineParams (props : Option (Map Text PropValue)) :
    Option TransmissionLineParams :=
  match truthy ((propText props "z0").or (propText props "impedance")) with
  | none => none
  | some z0 =>
    if !isPositiveSpiceValue z0 then none
    else
      match truthy ((propText props "td").or (propText props "delay")) with
      | some td => if isPositiveSpiceValue td then some ⟨z0, .td td⟩ else none
      | none =>
        match truthy ((propText props "f").or (propText props "frequency")) with
        | some f =>
          if isPositiveSpiceValue f then
            some ⟨z0, .f f ((truthy (propText props "nl")).filter isPositiveSpiceValue)⟩
          else none
        | none => none

/-! ## Zener models -/

/-- `/^(\d+)[vV](\d+)$/`: both groups. -/
def vNotation (s : Text) : Option (Text × Text) :=
  match s.span Char.isDigit with
  | (whole, v :: frac) =>
    if whole ≠ [] ∧ (v = 'v' ∨ v = 'V') ∧ frac ≠ [] ∧ frac.all Char.isDigit then some (whole, frac)
    else none
  | (_, []) => none

/-- `s.replace(/\s*[vV]\s*$/, '')`. -/
def dropVoltUnit (s : Text) : Text :=
  match (trimEnd s).reverse with
  | v :: r => if v = 'v' ∨ v = 'V' then trimEnd r.reverse else s
  | [] => s

/-- `s.replace(',', '.')`. -/
def commaToPoint : Text → Text
  | [] => []
  | c :: s => if c = ',' then '.' :: s else c :: commaToPoint s

/-- `parseBreakdownVolts` of a string. -/
def parseBreakdownVolts (vz : Text) : Option Runtime.Num :=
  let s := commaToPoint (trim vz)
  let s := match vNotation s with
    | some (whole, frac) => whole ++ '.' :: frac
    | none => dropVoltUnit s
  if mantissaRe.accepts s then
    let v := Runtime.ofText s
    if Runtime.isFinite v && Runtime.lt (Runtime.lit 0 0) v then some v else none
  else none

/-- The model name of a breakdown voltage. -/
def zenerName (v : Runtime.Num) : Text :=
  "DZ".toList ++ (Runtime.toText v).map fun c => if c = '.' then 'P' else c

/-- `buildZenerModel`. -/
def buildZenerModel (vz : Text) : Option ModelDef :=
  (parseBreakdownVolts vz).map fun v =>
    ⟨zenerName v, .diode,
      ".model ".toList ++ zenerName v ++ " D(IS=1e-14 N=1 RS=1 BV=".toList ++ Runtime.toText v ++
        " IBV=5m)".toList, none⟩

end CircuitForge
