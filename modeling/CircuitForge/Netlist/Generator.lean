/-
The deck generator: `netlist/generator.ts`.

`generateDeck` builds the deck section by section and `Deck.lines` lists what the
source pushes; `generateNetlist` joins the lines.  The clock is a parameter.
-/
import CircuitForge.Models.Library
import CircuitForge.Netlist.ProbeMap

namespace CircuitForge

open Js

/-! ## Names -/

/-- `spiceInstanceName`. -/
def spiceInstanceName (designator : Text) (pre : Char) : Text :=
  let safe := safeDesignator designator
  if startsWithI safe [pre] then safe else pre :: safe

/-- `transformerMidNodes`. -/
def transformerMidNodes (designator : Text) : Text × Text :=
  (designator ++ "_wp".toList, designator ++ "_ws".toList)

/-- `Net not found` of the analog path. -/
def netNotFound (netId designator : Text) : Thrown :=
  .refusal ("Net not found: ".toList ++ netId ++ " for component ".toList ++ designator)

variable [Runtime]

/-! ## Nodes of a component -/

/-- One pin of `nodesForPinOrder`. -/
def nodeForPin (c : Component) (nodeMap : Map Text Text) (pinId : Text) : Except Thrown Text :=
  match c.pins.find? (·.pinId = pinId) with
  | none => .error (.refusal ("Component ".toList ++ c.designator ++ " (".toList ++ c.type.name ++
      ") is missing pin '".toList ++ pinId ++ "'".toList))
  | some pin =>
    match truthy (nodeMap.get? pin.netId) with
    | none => .error (netNotFound pin.netId c.designator)
    | some node => .ok node

/-- `nodesForPinOrder`. -/
def nodesForPinOrder (c : Component) (nodeMap : Map Text Text) (pinIds : List Text) :
    Except Thrown (List Text) := pinIds.mapM (nodeForPin c nodeMap)

/-- `orderedNodes`. -/
def orderedNodes (c : Component) (nodeMap : Map Text Text) : Except Thrown (List Text) :=
  nodesForPinOrder c nodeMap c.type.pins

/-- The nodes of the pins in authored order. -/
def authoredNodes (c : Component) (nodeMap : Map Text Text) : Except Thrown (List Text) :=
  c.pins.mapM fun pin =>
    match truthy (nodeMap.get? pin.netId) with
    | none => .error (netNotFound pin.netId c.designator)
    | some node => .ok node

/-! ## Behavioral expressions -/

/-- `/^[VI]\s*=\s*\S/i`. -/
def isExprHead : Text → Bool
  | c :: r =>
    (sameLetter 'v' c || sameLetter 'i' c) &&
      match trimStart r with
      | '=' :: e => !(trimStart e).isEmpty
      | _ => false
  | [] => false

/-- `/[\r\n]/.test(value) || !/^\s*[VI]\s*=\s*\S/i.test(value)`, negated. -/
def isSourceExpr (value : Text) : Bool := !value.any isLineBreak && isExprHead (trimStart value)

/-- The node of an expression reference; any other argument passes through. -/
def exprRef (lc : Map Text Text) (arg : Text) : Text :=
  (lc.get? (Runtime.lower (trim arg))).getD (trim arg)

/-- `rewriteExprNodeRefs`. -/
def rewriteExprNodeRefs (expr : Text) (nodeMap : Map Text Text) : Text :=
  let lc := Map.fill (fun e : Text × Text => Runtime.lower e.1) Prod.snd nodeMap []
  replaceCalls 'v' (fun _ => true)
    (fun _ args => "V(".toList ++ mapCommas (exprRef lc) args ++ ")".toList) expr

/-! ## Subcircuit headers -/

/-- A line terminator of the `m` flag. -/
def isTerminator (c : Char) : Bool := isLineBreak c || c.toNat == 0x2028 || c.toNat == 0x2029

/-- `/\s*\.subckt\s+\S+\s+(.+)/i` at the head, group 1. -/
def subcktHeaderAt (s : Text) : Option Text :=
  let t := trimStart s
  if startsWithI t ".subckt".toList && (t.drop 7).head?.any isSpace then
    let name := trimStart (t.drop 7)
    match trimStart (afterToken name) with
    | [] => none
    | c :: r => some ((c :: r).takeWhile (!isTerminator ·))
  else none

/-- The same pattern at the first line that has it; `atStart` says whether a line
begins here. -/
def subcktHeader : Bool → Text → Option Text
  | atStart, s =>
    let rest := match s with
      | [] => none
      | c :: r => subcktHeader (isTerminator c) r
    if atStart then (subcktHeaderAt s).or rest else rest

/-- The number of ports a `.subckt` header declares. -/
def headerPortCount (header : Text) : Nat :=
  ((splitBlanks (trim header)).filter fun tok =>
    tok ≠ [] ∧ '=' ∉ tok ∧ Runtime.lower tok ≠ "params:".toList).length

/-! ## Components -/

/-- The five cards and the bleeders of a transformer. -/
def transformerCards (designator pp pn sp sn : Text) (tp : TransformerParams) : List Card :=
  let lPri := 'L' :: (designator ++ ['P'])
  let lSec := 'L' :: (designator ++ ['S'])
  let rser := tp.dcr.getD "1m".toList
  let (pMid, sMid) := transformerMidNodes designator
  let zero := "0".toList
  [.element lPri [pp, pMid] tp.lp,
   .element ('R' :: (designator ++ ['P'])) [pMid, pn] rser,
   .element lSec [sp, sMid] tp.ls,
   .element ('R' :: (designator ++ ['S'])) [sMid, sn] rser,
   .coupling ('K' :: designator) lPri lSec tp.k] ++
  (if pp ≠ zero ∧ pn ≠ zero then
    [.element ('R' :: (designator ++ "PG".toList)) [pn, zero] "1G".toList] else []) ++
  (if sp ≠ zero ∧ sn ≠ zero then
    [.element ('R' :: (designator ++ "SG".toList)) [sn, zero] "1G".toList] else [])

/-- `Z0=… TD=…` or `Z0=… F=…`. -/
def lineSpec (tl : TransmissionLineParams) : Text :=
  "Z0=".toList ++ tl.z0 ++ ' ' ::
    match tl.length with
    | .td td => "TD=".toList ++ td
    | .f f nl => "F=".toList ++ f ++ (nl.elim [] fun nl => " NL=".toList ++ nl)

/-- The instance line of a subcircuit. -/
def subcktCard (c : Component) (nodeMap : Map Text Text) (modelMap : Map Text ModelDef)
    (model : Text) (nodes : List Text) : Except Thrown Card :=
  let inst := spiceInstanceName c.designator 'X'
  let authored : Except Thrown Card := .ok (.element inst nodes model)
  match modelMap.get? model with
  | none => authored
  | some m =>
    match m.ports with
    | some (p :: ps) =>
      (nodesForPinOrder c nodeMap (p :: ps)).map fun nodes => .element inst nodes model
    | _ =>
      let ports := ((subcktHeader true m.body).map headerPortCount).getD 0
      if 0 < ports ∧ ports ≠ nodes.length then
        .error (.refusal ("Subckt '".toList ++ model ++ "' (".toList ++ inst ++
          ") is wired with ".toList ++ Nat.toDigits 10 nodes.length ++
          " pin(s) but its .subckt body declares ".toList ++ Nat.toDigits 10 ports ++
          " port(s) — list exactly those ports, in the .subckt header order.".toList))
      else authored

/-- A one-card device with its pins in canonical order. -/
def orderedCard (c : Component) (nodeMap : Map Text Text) (pre : Char) (spec : Text) :
    Except Thrown (List Card) :=
  (orderedNodes c nodeMap).map fun nodes =>
    [.element (spiceInstanceName c.designator pre) nodes spec]

/-- The `switch` of `componentToSpice`, behind the pin check. -/
def prefixedCards (c : Component) (nodeMap : Map Text Text) (modelMap : Map Text ModelDef)
    (pre : Char) (nodes : List Text) : Except Thrown (List Card) :=
  match c.type with
  | .resistor | .capacitor | .inductor =>
    let v := (truthy (some ((c.value.getD []).filter (!isSpace ·)))).getD "0".toList
    .ok [.element (spiceInstanceName c.designator pre) nodes v]
  | .voltageSource | .currentSource =>
    orderedCard c nodeMap pre ((truthy c.value).getD "DC 0".toList)
  | .vcvs | .vccs =>
    match (truthy c.value).bind normalizeControlledSourceGain with
    | none => .ok []
    | some gain => orderedCard c nodeMap pre gain
  | .diode => orderedCard c nodeMap pre ((truthy c.model).getD "DDEFAULT".toList)
  | .zener =>
    match (truthy c.value).bind buildZenerModel with
    | none => .ok []
    | some zm => orderedCard c nodeMap pre zm.name
  | .bjt | .mosfet | .jfet | .switch =>
    match truthy c.model with
    | none => .ok []
    | some model => orderedCard c nodeMap pre model
  | .subckt =>
    match truthy c.model with
    | none => .ok []
    | some model => (subcktCard c nodeMap modelMap model nodes).map ([·])
  | _ => .ok []

/-- `componentToSpice`: no card is the source's `null`. -/
def componentToSpice (c : Component) (nodeMap : Map Text Text) (modelMap : Map Text ModelDef)
    (exprNodeMap : Map Text Text) : Except Thrown (List Card) :=
  match c.type with
  | .ground | .generic => .ok []
  | .transformer =>
    match parseTransformerParams c.properties with
    | none => .ok []
    | some tp => do
      match ← orderedNodes c nodeMap with
      | [pp, pn, sp, sn] => return transformerCards c.designator pp pn sp sn tp
      | _ => return []
  | .tline =>
    match parseTransmissionLineParams c.properties with
    | none => .ok []
    | some tl => orderedCard c nodeMap 'T' (lineSpec tl)
  | .bsource =>
    match (truthy c.value).filter isSourceExpr with
    | none => .ok []
    | some value => orderedCard c nodeMap 'B' (rewriteExprNodeRefs value exprNodeMap)
  | t =>
    match t.spicePrefix with
    | none => .ok []
    | some pre => do
      let nodes ← authoredNodes c nodeMap
      prefixedCards c nodeMap modelMap pre nodes

/-! ## Options and sections -/

/-- `NetlistOptions`, less `outputFormat`, which the generator does not read. -/
structure NetlistOptions where
  title : Option Text := none
  probes : Option (List Text) := none
  extraProbes : Option (List Text) := none
  includeFiles : Option (List Text) := none
  jobDir : Option Text := none
  logicVoltage : Option Runtime.Num := none
  temperatureC : Option Runtime.Num := none

/-- `new Date().toISOString()`. -/
structure Timestamp where
  iso : Text
  solid : Solid iso

/-- The deck, section by section. -/
structure Deck where
  title : Text
  generatedAt : Timestamp
  defaultDiode : Bool
  models : List Text
  zenerModels : List Text
  digitalModels : List Text
  includes : List Text
  components : List Card
  initialConditions : List Text
  optionTokens : List Text
  temperature : Option Text
  analysis : AnalysisConfig
  measures : List Text
  outputs : List Text

/-- `DEFAULT_DIODE_MODEL`. -/
def defaultDiodeModel : Text :=
  ".model DDEFAULT D(IS=1e-14 N=1.05 RS=10 BV=100 IBV=1e-10)".toList

/-- A headed block, absent when it has no lines. -/
def block (header : String) (body : List Text) : List Text :=
  if body = [] then [] else header.toList :: (body ++ [[]])

/-- The lines the generator pushes. -/
def Deck.lines (d : Deck) : List Text :=
  ["* ".toList ++ d.title, "* Generated by eda-core".toList, "* ".toList ++ d.generatedAt.iso, []] ++
  block "* Default diode model" (if d.defaultDiode then [defaultDiodeModel] else []) ++
  block "* Models" d.models ++
  block "* Zener models" d.zenerModels ++
  block "* Digital / bridge models" d.digitalModels ++
  block "* Include files" d.includes ++
  ["* Components".toList] ++ d.components.map Card.text ++ [[]] ++
  block "* Initial conditions" d.initialConditions ++
  block "* Options" (if d.optionTokens = [] then []
    else [".options ".toList ++ join " ".toList d.optionTokens]) ++
  block "* Temperature corner (ambient)" (d.temperature.toList.map (".temp ".toList ++ ·)) ++
  ["* Analysis".toList, analysisToSpice d.analysis] ++ d.measures ++ [[]] ++
  ["* Control block", ".control", "  set filetype=ascii", "  run"].map String.toList ++
  d.outputs ++ ["  quit", ".endc", "", ".end"].map String.toList

def Deck.text (d : Deck) : Text := join "\n".toList d.lines

/-! ## Node owners -/

/-- The guard over the nets: no two of them share a node but node 0. -/
def claimNodes : Map Text Text → Map Text Text → Except Thrown (Map Text Text)
  | owners, [] => .ok owners
  | owners, (netId, node) :: rest =>
    if node = "0".toList then claimNodes owners rest
    else
      match owners.get? (Runtime.lower node) with
      | some prev =>
        .error (.refusal ("Net node-name collision: nets '".toList ++ prev ++ "' and '".toList ++
          netId ++ "' both map to SPICE node '".toList ++ node ++
          ("' (ngspice node names are case-insensitive). Rename one so they don't differ only by " ++
            "case.").toList))
      | none => claimNodes (owners.set (Runtime.lower node) netId) rest

/-- The guard over the winding midpoints of one transformer. -/
def claimMidNodes (designator : Text) : Map Text Text → List Text → Except Thrown (Map Text Text)
  | owners, [] => .ok owners
  | owners, mid :: rest =>
    match owners.get? (Runtime.lower mid) with
    | some prev =>
      .error (.refusal ("Node-name collision: transformer '".toList ++ designator ++
        "' internal node '".toList ++ mid ++ "' clashes with net '".toList ++ prev ++
        ("' (ngspice node names are case-insensitive). Rename the net or the " ++
          "transformer.").toList))
    | none => claimMidNodes designator (owners.set (Runtime.lower mid) designator) rest

/-! ## Models -/

/-- Definitions emitted once each: an identical repetition is dropped, a
conflicting one refused. -/
def declareModels : Map Text Text → List (Text × Text) →
    Except Thrown (Map Text Text × List Text)
  | emitted, [] => .ok (emitted, [])
  | emitted, (name, body) :: rest =>
    match emitted.get? name with
    | some existing =>
      if existing ≠ body then
        .error (.refusal ("Conflicting definitions for model '".toList ++ name ++
          "': the same name is defined with two different bodies.".toList))
      else declareModels emitted rest
    | none => do
      let (emitted, lines) ← declareModels (emitted.set name body) rest
      return (emitted, body :: lines)

/-- `needsDiodeModel`. -/
def needsDiodeModel (circuit : CircuitJson) : Bool :=
  circuit.components.any fun c => c.type == .diode && (truthy c.model).isNone

/-- The models of the deck: declared and generic. -/
def deckModels (circuit : CircuitJson) : List ModelDef :=
  circuit.models.getD [] ++ resolveGenericModels circuit

/-- The zener models of the components. -/
def zenerModels (circuit : CircuitJson) : List ModelDef :=
  (circuit.components.filter (·.type == .zener)).filterMap fun c =>
    (truthy c.value).bind buildZenerModel

/-- `card.split(/\s+/)[1] ?? ''`. -/
def modelCardName (card : Text) : Text := (splitBlanks card)[1]?.getD []

/-- `modelMap`: the first definition of a name. -/
def modelMapOf (models : List ModelDef) : Map Text ModelDef :=
  models.foldl (fun m d => if m.has d.name then m else m.set d.name d) []

/-! ## The component loop -/

/-- `Unknown component type`, with the hint for a type reached as a subcircuit. -/
def unknownType (c : Component) : Thrown :=
  let t := Runtime.lower c.type.name
  let hint :=
    if t = "scr".toList ∨ t = "thyristor".toList then
      (" Use type:'subckt' with model:'SCRGEN' (ports anode,gate,cathode) for a " ++
        "thyristor.").toList
    else if t = "igbt".toList then
      " Use type:'subckt' with model:'IGBTGEN' (ports c,g,e) for an IGBT.".toList
    else []
  .refusal ("Unknown component type '".toList ++ c.type.name ++ "' for ".toList ++
    (truthy (some c.designator)).getD c.id ++
    (". Valid types are COMPONENT_TYPES; validate with safeValidateCircuitJson before " ++
      "generating.").toList ++ hint)

/-- What the loop over the components carries. -/
structure Emission where
  nodeOwner : Map Text Text
  designatorToInstance : Map Text Text := []
  digitalDeviceRefs : List Text := []
  cards : List Card := []

/-- The maps the loop reads. -/
structure EmitContext where
  nodeMap : Map Text Text
  plan : MixedSignalPlan
  modelMap : Map Text ModelDef
  exprNodeMap : Map Text Text

/-- The cards of one component. -/
def emitComponent (ctx : EmitContext) (c : Component) : Except Thrown (List Card) :=
  if !c.type.isKnown then .error (unknownType c)
  else if c.type.isDigital then
    (emitDigitalComponent c ctx.nodeMap ctx.plan).map Option.toList
  else componentToSpice c ctx.nodeMap ctx.modelMap ctx.exprNodeMap

/-- The reference maps after the cards of one component. -/
def noteNames (e : Emission) (c : Component) (emitted : List Card) : Emission :=
  match truthy (emitted.head?.map Card.name), truthy (some c.designator) with
  | some name, some designator =>
    if c.type.isDigital then
      { e with digitalDeviceRefs :=
        e.digitalDeviceRefs ++ [Runtime.lower designator, Runtime.lower name] }
    else
      { e with designatorToInstance :=
        e.designatorToInstance.set (Runtime.lower designator) name }
  | _, _ => e

/-- One turn of the loop. -/
def emitStep (ctx : EmitContext) (e : Emission) (c : Component) : Except Thrown Emission := do
  let emitted ← emitComponent ctx c
  let e := noteNames e c emitted
  let e := { e with cards := e.cards ++ emitted }
  if c.type = .transformer ∧ emitted ≠ [] ∧ c.designator ≠ [] then
    let (pMid, sMid) := transformerMidNodes c.designator
    let owners ← claimMidNodes c.designator e.nodeOwner [pMid, sMid]
    return { e with nodeOwner := owners }
  else return e

/-- The lower-cased names of the cards, refused when one repeats. -/
def checkDevices : List Text → List Card → Except Thrown (List Text)
  | seen, [] => .ok seen
  | seen, card :: rest =>
    if Runtime.lower card.name ∈ seen then
      .error (.refusal ("Duplicate device name '".toList ++ card.name ++
        ("' in the netlist — a designator or transformer sub-element collides with another " ++
          "component (ngspice device names are case-insensitive).").toList))
    else checkDevices (Runtime.lower card.name :: seen) rest

/-- `reservedDeviceNames`. -/
def reservedDeviceNames (circuit : CircuitJson) : List Text :=
  circuit.components.filterMap fun c =>
    if c.type = .ground ∨ !c.type.isSimulatable then none
    else
      let name :=
        if c.type.isDigital then some (aInstanceName c.designator)
        else c.type.spicePrefix.map (spiceInstanceName c.designator)
      (truthy name).map Runtime.lower

/-! ## Probes -/

/-- `rewriteProbeDeviceRefs`. -/
def rewriteProbeDeviceRefs (probe : Text) (map : Map Text Text) : Text :=
  replaceCalls 'i' (· ≠ []) (fun whole inner =>
    match truthy (map.get? (Runtime.lower (trim inner))) with
    | some mapped => "i(".toList ++ mapped ++ ")".toList
    | none => whole) probe

/-- `isDigitalCurrentProbe`. -/
def isDigitalCurrentProbe (probe : Text) (digitalRefs : List Text) : Bool :=
  (soleCall 'i' (trim probe)).any fun name => Runtime.lower name ∈ digitalRefs

/-- A current probe token and whether it needs `savecurrents`. -/
structure CurrentProbe where
  token : Text
  savecurrents : Bool := false

/-- `rewriteCurrentProbeVector`. -/
def rewriteCurrentProbeVector (probe : Text) (emitted : List Text) (isAc : Bool) : CurrentProbe :=
  match soleCall 'i' (trim probe) with
  | none => ⟨probe, false⟩
  | some name =>
    if Runtime.lower name ∉ emitted then ⟨[], false⟩
    else
      let letter := Runtime.upper (name.take 1)
      let vector := fun param : String =>
        if isAc then (⟨[], false⟩ : CurrentProbe)
        else ⟨'@' :: (name ++ '[' :: (param.toList ++ "]".toList)), true⟩
      if letter ∈ ["V", "L", "E", "H"].map String.toList then
        ⟨"i(".toList ++ name ++ ")".toList, false⟩
      else if letter ∈ ["R", "C"].map String.toList then vector "i"
      else if letter = "D".toList then vector "id"
      else ⟨[], false⟩

/-- `MAX_DEFAULT_PROBES`. -/
def maxDefaultProbes : Nat := 64

/-- `generateDefaultProbes`. -/
def generateDefaultProbes (circuit : CircuitJson) (nodeMap : Map Text Text)
    (plan : MixedSignalPlan) : List Text :=
  ((circuit.nets.filter (!·.isGround)).filterMap fun net =>
    (truthy ((plan.probeNodeForNet.get? net.id).or (nodeMap.get? net.id))).map fun node =>
      "v(".toList ++ node ++ ")".toList).take maxDefaultProbes

/-- The maps a probe is rewritten with. -/
structure ProbeContext where
  designatorToInstance : Map Text Text
  digitalDeviceRefs : List Text
  netRefToNode : Map Text Text
  seenDevices : List Text
  isAc : Bool

/-- A probe as the output line names it; empty when it is dropped. -/
def resolveProbe (ctx : ProbeContext) (probe : Text) : CurrentProbe :=
  let p := rewriteProbeNodeRefs
    (rewriteProbeDeviceRefs (normalizeProbe probe) ctx.designatorToInstance) ctx.netRefToNode
  if trim p = [] || isDigitalCurrentProbe p ctx.digitalDeviceRefs then ⟨[], false⟩
  else rewriteCurrentProbeVector p ctx.seenDevices ctx.isAc

/-- The probes of the deck before they are rewritten. -/
def rawProbes (options : NetlistOptions) (defaults : List Text) : List Text :=
  match options.probes with
  | some probes => probes
  | none =>
    match options.extraProbes with
    | some (p :: ps) => (defaults ++ p :: ps).eraseDups
    | _ => defaults

/-- The tokens of the output line. -/
def probeTokens (ctx : ProbeContext) (raw : List Text) : List Text :=
  (((raw.map (resolveProbe ctx)).map CurrentProbe.token).filter (trim · ≠ [])).eraseDups

def needSaveCurrents (ctx : ProbeContext) (raw : List Text) : Bool :=
  (raw.map (resolveProbe ctx)).any CurrentProbe.savecurrents

/-! ## Analysis commands -/

/-- A voltage or current reference of an analysis request. -/
def rewriteProbe (ctx : ProbeContext) (probe : Text) (keepGroundFirst : Bool := false) : Text :=
  trim (rewriteProbeNodeRefs (rewriteProbeDeviceRefs probe ctx.designatorToInstance)
    ctx.netRefToNode keepGroundFirst)

/-- The swept device under its emitted name, the output probe under its node. -/
def effectiveAnalysis (ctx : ProbeContext) : AnalysisConfig → AnalysisConfig
  | .dc a =>
    match (truthy (some a.source)).bind fun s =>
        truthy (ctx.designatorToInstance.get? (Runtime.lower s)) with
    | some mapped => .dc { a with source := mapped }
    | none => .dc a
  | .noise a =>
    .noise { a with output := (truthy (some (rewriteProbe ctx a.output true))).getD a.output }
  | .sens a =>
    .sens { a with output := (truthy (some (rewriteProbe ctx a.output true))).getD a.output }
  | a => a

/-- The `.ic` cards of a transient. -/
def initialConditionCards (nodeMap : Map Text Text) : AnalysisConfig → List Text
  | .tran a =>
    (a.initialConditions.elim [] Subtype.val).filterMap fun e =>
      match truthy (nodeMap.get? e.1) with
      | some node =>
        if node = "0".toList then none
        else some (".ic v(".toList ++ node ++ ")=".toList ++ Runtime.toText e.2)
      | none => none
  | _ => []

/-- One `.meas` card. -/
def measureCard (ctx : ProbeContext) (ms : MeasureSpec) : Option Text :=
  (truthy (some (rewriteProbe ctx ms.probe))).bind fun probe =>
    match ms.type with
    | .when =>
      (ms.value.filter Runtime.isFinite).map fun v =>
        ".meas tran ".toList ++ ms.name ++ " WHEN ".toList ++ probe ++ '=' :: Runtime.toText v ++
          ' ' :: asciiUpper (ms.edge.getD .cross).name ++ "=1".toList
    | t => some (".meas tran ".toList ++ ms.name ++ ' ' :: asciiUpper t.name ++ ' ' :: probe)

def measureCards (ctx : ProbeContext) : AnalysisConfig → List Text
  | .tran a => (a.measurements.getD []).filterMap (measureCard ctx)
  | _ => []

/-- `SpiceValueSchema`, also the pattern of the Fourier fundamental. -/
def spiceValueRe : Re :=
  .seq (.opt (.alt (.char '+') (.char '-'))) <| .seq mantissaRe <| .seq exponentRe <|
    .seq (.star .space) (.star .letter)

/-- The `fourier` commands of a transient. -/
def fourierCommands (ctx : ProbeContext) : AnalysisConfig → List Text
  | .tran a =>
    match a.fourier with
    | some f =>
      if spiceValueRe.accepts f.fundamentalFreq then
        (((f.probes.map (rewriteProbe ctx)).filter (startsWithI · "v(".toList)).eraseDups).map
          fun p => "  fourier ".toList ++ f.fundamentalFreq ++ ' ' :: p
      else []
    | none => []
  | _ => []

/-- `/^[A-Za-z][A-Za-z0-9]*[0-9]+$/`. -/
def sourceDesignatorRe : Re :=
  .seq .letter (.seq (.star (.cls Char.isAlphanum)) (.plus .digit))

/-- The `tf` commands of an operating point. -/
def tfCommands (ctx : ProbeContext) (circuit : CircuitJson) : AnalysisConfig → List Text
  | .op a =>
    match a.tf with
    | some tf =>
      let out := rewriteProbe ctx tf.output
      let srcExists := circuit.components.any fun c =>
        c.designator ≠ [] ∧ Runtime.upper c.designator = Runtime.upper tf.inputSource
      if out ≠ [] ∧ srcExists ∧ sourceDesignatorRe.accepts tf.inputSource then
        ["  tf ".toList ++ out ++ ' ' :: tf.inputSource,
         "  print transfer_function output_impedance_at_".toList ++ out ++
           ' ' :: Runtime.lower tf.inputSource ++ "#input_impedance".toList]
      else []
    | none => []
  | _ => []

/-- The output commands of the control block. -/
def outputCommands (ctx : ProbeContext) (circuit : CircuitJson) (probes : List Text) :
    AnalysisConfig → List Text
  | .noise _ =>
    ["  setplot noise1", "  wrdata output.csv onoise_spectrum inoise_spectrum",
     "  setplot noise2", "  print onoise_total inoise_total"].map String.toList
  | .sens _ => ["  print all".toList]
  | a =>
    (if probes = [] then [] else ["  wrdata output.csv ".toList ++ join " ".toList probes]) ++
      fourierCommands ctx a ++ tfCommands ctx circuit a

/-! ## The deck -/

/-- Whether a source declares an AC magnitude. -/
def hasAcSource (circuit : CircuitJson) : Bool :=
  circuit.components.any fun c =>
    (c.type == .voltageSource || c.type == .currentSource) &&
      c.value.any fun v => hasWordI "ac".toList false v

def AnalysisConfig.isAc : AnalysisConfig → Bool
  | .ac _ => true
  | _ => false

/-- What the explicit probes of a deck come to; refused when none is left. -/
def checkProbes (options : NetlistOptions) (probes : List Text) : Except Thrown Unit :=
  match options.probes with
  | some (p :: ps) =>
    if probes = [] then
      .error (.refusal ("None of the requested probes are observable in ngspice batch mode: ".toList ++
        join ", ".toList (p :: ps) ++
        (". A TRANSISTOR terminal current (i(Q…)/i(M…)) is ambiguous — a 3- or 4-terminal device has " ++
          "no single branch current, so probe a series resistor's current i(R…) instead. Diode " ++
          "currents (i(D…)) ARE available in op/dc/tran but not in ac. Ground v(0) has no vector — " ++
          "probe a non-ground node.").toList))
    else .ok ()
  | _ => .ok ()

/-- The include files, checked when a job directory is given. -/
def includeLines (options : NetlistOptions) : Except Thrown (List Text) :=
  let files := options.includeFiles.getD []
  let lines := files.map fun f => ".include \"".toList ++ f ++ "\"".toList
  match truthy options.jobDir with
  | none => .ok lines
  | some _ =>
    match validateIncludePaths files with
    | .ok () => .ok lines
    | .error e => .error (.security e)

/-- `planMixedSignal` as the generator calls it. -/
def deckPlan (circuit : CircuitJson) (options : NetlistOptions) : MixedSignalPlan :=
  planMixedSignal circuit (buildNodeMap circuit.nets) (reservedDeviceNames circuit)
    options.logicVoltage

/-- The maps of the component loop. -/
def emitContext (circuit : CircuitJson) (options : NetlistOptions) : EmitContext :=
  let nodeMap := buildNodeMap circuit.nets
  let plan := deckPlan circuit options
  { nodeMap := nodeMap
    plan := plan
    modelMap := modelMapOf (deckModels circuit)
    exprNodeMap := Map.fill Prod.fst Prod.snd plan.probeNodeForNet nodeMap }

/-- The probe maps after the component loop. -/
def probeContext (circuit : CircuitJson) (analysis : AnalysisConfig) (options : NetlistOptions)
    (e : Emission) (seenDevices : List Text) : ProbeContext :=
  let nodeMap := buildNodeMap circuit.nets
  { designatorToInstance := e.designatorToInstance
    digitalDeviceRefs := e.digitalDeviceRefs
    netRefToNode :=
      buildNetRefToNode circuit nodeMap (deckPlan circuit options).probeNodeForNet
    seenDevices := seenDevices
    isAc := analysis.isAc }

/-- What the sections of the deck are made of. -/
structure DeckParts where
  models : List Text
  zenerModels : List Text
  digitalModels : List Text
  includes : List Text
  loop : Emission
  seenDevices : List Text

/-- The probe maps of a deck. -/
def deckProbeContext (circuit : CircuitJson) (analysis : AnalysisConfig) (options : NetlistOptions)
    (parts : DeckParts) : ProbeContext :=
  probeContext circuit analysis options parts.loop parts.seenDevices

/-- The probes of a deck before they are rewritten. -/
def deckRawProbes (circuit : CircuitJson) (options : NetlistOptions) : List Text :=
  rawProbes options
    (generateDefaultProbes circuit (buildNodeMap circuit.nets) (deckPlan circuit options))

/-- The columns of the deck's output line. -/
def deckProbes (circuit : CircuitJson) (analysis : AnalysisConfig) (options : NetlistOptions)
    (parts : DeckParts) : List Text :=
  probeTokens (deckProbeContext circuit analysis options parts) (deckRawProbes circuit options)

/-- The sections in place. -/
def assembleDeck (now : Timestamp) (circuit : CircuitJson) (analysis : AnalysisConfig)
    (options : NetlistOptions) (parts : DeckParts) : Deck :=
  let ctx := deckProbeContext circuit analysis options parts
  { title := (truthy options.title).getD ((truthy circuit.metadataName).getD "Untitled Circuit".toList)
    generatedAt := now
    defaultDiode := needsDiodeModel circuit
    models := parts.models
    zenerModels := parts.zenerModels
    digitalModels := parts.digitalModels
    includes := parts.includes
    components := parts.loop.cards ++ (deckPlan circuit options).deviceLines
    initialConditions := initialConditionCards (buildNodeMap circuit.nets) analysis
    optionTokens := solverOptionTokens analysis.options ++
      (if needSaveCurrents ctx (deckRawProbes circuit options) then ["savecurrents".toList] else [])
    temperature := (options.temperatureC.filter Runtime.isFinite).map Runtime.toText
    analysis := effectiveAnalysis ctx analysis
    measures := measureCards ctx analysis
    outputs := outputCommands ctx circuit (deckProbes circuit analysis options parts) analysis }

/-- The definitions emitted in front of all others. -/
def defaultModels (circuit : CircuitJson) : Map Text Text :=
  if needsDiodeModel circuit then [("DDEFAULT".toList, defaultDiodeModel)] else []

/-- The guard of an AC analysis. -/
def checkAc (circuit : CircuitJson) (analysis : AnalysisConfig) : Except Thrown Unit :=
  if analysis.isAc && !hasAcSource circuit then
    .error (.refusal ("AC analysis requires at least one source with an AC magnitude (e.g. value " ++
      "\"AC 1\"); none found — every probe would be identically zero across the sweep.").toList)
  else .ok ()

/-- `generateNetlist`, up to the join of the lines. -/
def generateDeck (now : Timestamp) (circuit : CircuitJson) (analysis : AnalysisConfig)
    (options : NetlistOptions := {}) : Except Thrown Deck := do
  let owners ← claimNodes [] (buildNodeMap circuit.nets)
  checkAc circuit analysis
  let plan := deckPlan circuit options
  let (emitted, models) ←
    declareModels (defaultModels circuit) ((deckModels circuit).map fun m => (m.name, m.body))
  let (emitted, zeners) ←
    declareModels emitted ((zenerModels circuit).map fun m => (m.name, m.body))
  let (_, digitals) ←
    declareModels emitted (plan.modelCards.map fun card => (modelCardName card, card))
  let includes ← includeLines options
  let e ← circuit.components.foldlM (emitStep (emitContext circuit options)) { nodeOwner := owners }
  let seenDevices ← checkDevices [] (e.cards ++ plan.deviceLines)
  let parts : DeckParts := ⟨models, zeners, digitals, includes, e, seenDevices⟩
  checkProbes options (deckProbes circuit analysis options parts)
  return assembleDeck now circuit analysis options parts

/-- `generateNetlist`. -/
def generateNetlist (now : Timestamp) (circuit : CircuitJson) (analysis : AnalysisConfig)
    (options : NetlistOptions := {}) : Except Thrown Text :=
  (generateDeck now circuit analysis options).map Deck.text

/-- `validateDeck`: the message of the refusal, or none. -/
def validateDeck (now : Timestamp) (circuit : CircuitJson) (analysis : AnalysisConfig)
    (options : NetlistOptions := {}) : Except Thrown (Option Text) :=
  match generateNetlist now circuit analysis options with
  | .ok _ => .ok none
  | .error (.refusal message) => .ok (some message)
  | .error e => .error e

end CircuitForge
