/-
Mixed-signal planning and XSPICE devices: `netlist/digital.ts`.
-/
import CircuitForge.Js.FirstFree
import CircuitForge.Js.Scan
import CircuitForge.Js.Tokens
import CircuitForge.Netlist.Sanitizer
import CircuitForge.Netlist.SolverOptions
import CircuitForge.Types.Circuit
import Mathlib.Data.List.Sort

namespace CircuitForge

open Js

/-! ## Device cards -/

inductive Card where
  /-- An analog element: `name nodes… spec`. -/
  | element (name : Text) (nodes : List Text) (spec : Text)
  /-- The coupling of two inductors. -/
  | coupling (name first second factor : Text)
  /-- An XSPICE gate with a vector input: `name [inputs…] output model`. -/
  | gate (name : Text) (inputs : List Text) (output model : Text)
  /-- An XSPICE device with scalar ports: `name ports… model`. -/
  | event (name : Text) (ports : List Text) (model : Text)
  /-- An analog-to-digital bridge. -/
  | adc (name analog digital : Text)
  /-- A digital-to-analog bridge. -/
  | dac (name digital analog : Text)
  deriving DecidableEq

namespace Card

def text : Card → Text
  | element name nodes spec => name ++ ' ' :: (join " ".toList nodes ++ ' ' :: spec)
  | coupling name a b k => name ++ ' ' :: (a ++ ' ' :: (b ++ ' ' :: k))
  | gate name ins out model =>
    name ++ ' ' :: '[' :: (join " ".toList ins ++ ']' :: ' ' :: (out ++ ' ' :: model))
  | event name ports model => name ++ ' ' :: (join " ".toList ports ++ ' ' :: model)
  | adc name a d => name ++ ' ' :: '[' :: (a ++ ']' :: ' ' :: '[' :: (d ++ ']' :: " CFD_ADC".toList))
  | dac name d a => name ++ ' ' :: '[' :: (d ++ ']' :: ' ' :: '[' :: (a ++ ']' :: " CFD_DAC".toList))

/-- `line.split(/\s+/)[0]`. -/
def name (c : Card) : Text := (splitBlanks c.text).headD []

/-- The terminals in the analog domain. -/
def analogTerminals : Card → List Text
  | element _ nodes _ => nodes
  | adc _ a _ => [a]
  | dac _ _ a => [a]
  | coupling .. | gate .. | event .. => []

/-- The ports in the event domain. -/
def eventPorts : Card → List Text
  | gate _ ins out _ => ins ++ [out]
  | event _ ports _ => ports
  | adc _ _ d => [d]
  | dac _ d _ => [d]
  | element .. | coupling .. => []

def terminals (c : Card) : List Text := c.analogTerminals ++ c.eventPorts

end Card

/-! ## Refusals -/

/-- What the generator throws: a `DeckRefusal`, a `SecurityError` of an include
path, or a plain `Error`. -/
inductive Thrown where
  | refusal (message : Text)
  | security (e : SecurityError)
  | error (message : Text)
  deriving DecidableEq

/-! ## Instance names -/

/-- `designator.replace(/[^A-Za-z0-9_]/g, '')`. -/
def safeDesignator (designator : Text) : Text := designator.filter isWord

/-- `aInstanceName`. -/
def aInstanceName (designator : Text) : Text :=
  let safe := safeDesignator designator
  if startsWithI safe "a".toList then safe else 'A' :: safe

/-! ## Timing models -/

/-- `DIGITAL_DEVICE` and `DIGITAL_BASENAME`. -/
def digitalDevice : ComponentType → Option (Text × Text)
  | .logicAnd => some ("d_and".toList, "CFD_AND".toList)
  | .logicOr => some ("d_or".toList, "CFD_OR".toList)
  | .logicNand => some ("d_nand".toList, "CFD_NAND".toList)
  | .logicNor => some ("d_nor".toList, "CFD_NOR".toList)
  | .logicXor => some ("d_xor".toList, "CFD_XOR".toList)
  | .logicXnor => some ("d_xnor".toList, "CFD_XNOR".toList)
  | .logicNot => some ("d_inverter".toList, "CFD_NOT".toList)
  | .logicBuffer => some ("d_buffer".toList, "CFD_BUF".toList)
  | .dff => some ("d_dff".toList, "CFD_DFF".toList)
  | .jkff => some ("d_jkff".toList, "CFD_JKFF".toList)
  | .tff => some ("d_tff".toList, "CFD_TFF".toList)
  | .dlatch => some ("d_dlatch".toList, "CFD_DLATCH".toList)
  | .tristate => some ("d_tristate".toList, "CFD_TRI".toList)
  | _ => none

theorem digitalDevice_isSome (t : ComponentType) : (digitalDevice t).isSome = t.isDigital := by
  cases t <;> simp [digitalDevice, ComponentType.isDigital, ComponentType.isLogicGate,
    ComponentType.isSequential]

variable [Runtime]

/-- `digitalProp`. -/
def digitalProp (c : Component) (key : String) : Option Text :=
  match c.properties.bind (·.get? key.toList) with
  | some (.str s) => some s
  | some (.num n) => some (Runtime.toText n)
  | _ => none

/-- `validTime`. -/
def validTime (raw : Option Text) (fallback : String) : Text :=
  match truthy (raw.map trim) with
  | some t => if spiceNumRe.accepts t then t else fallback.toList
  | none => fallback.toList

/-- One parameter of a timing model: its ngspice key, its property and its
default. -/
structure TimingParam where
  key : String
  prop : String
  default : String

/-- The timing parameters of a type, in the order the model card lists them. -/
def timingParams : ComponentType → List TimingParam
  | .dff | .jkff | .tff =>
    [⟨"clk_delay", "clkDelay", "1n"⟩, ⟨"set_delay", "setDelay", "1n"⟩,
     ⟨"reset_delay", "resetDelay", "1n"⟩, ⟨"rise_delay", "riseDelay", "1n"⟩,
     ⟨"fall_delay", "fallDelay", "1n"⟩]
  | .dlatch =>
    [⟨"data_delay", "dataDelay", "1n"⟩, ⟨"enable_delay", "enableDelay", "1n"⟩,
     ⟨"set_delay", "setDelay", "1n"⟩, ⟨"reset_delay", "resetDelay", "1n"⟩,
     ⟨"rise_delay", "riseDelay", "1n"⟩, ⟨"fall_delay", "fallDelay", "1n"⟩]
  | .tristate => [⟨"delay", "delay", "1n"⟩]
  | _ =>
    [⟨"rise_delay", "riseDelay", "1n"⟩, ⟨"fall_delay", "fallDelay", "1n"⟩,
     ⟨"input_load", "inputLoad", "0.5p"⟩]

/-- `defaultParams`. -/
def defaultParams (t : ComponentType) : Text :=
  join " ".toList ((timingParams t).map fun p => p.key.toList ++ '=' :: p.default.toList)

/-- `digitalParams`: `gateParams`, `dffParams`, `dlatchParams` or
`tristateParams`.  Only the sequential types read `ic`. -/
def digitalParams (c : Component) : Text :=
  let base := join " ".toList ((timingParams c.type).map fun p =>
    p.key.toList ++ '=' :: validTime (digitalProp c p.prop) p.default)
  if c.type.isSequential ∧ digitalProp c "ic" = some "1".toList then base ++ " ic=1".toList
  else base

/-! ## The logic rail -/

/-- What `sourceHighLevel` and `sourceLowLevel` share: `pick` is the comparison of
levels, `swing` moves the offset by the amplitude. -/
def sourceLevel (pick swing : Runtime.Num → Runtime.Num → Runtime.Num) (value : Option Text) :
    Option Runtime.Num :=
  match truthy value with
  | none => none
  | some value =>
    let v := trim value
    let nums := ((numbers v).map Runtime.ofText).filter Runtime.isFinite
    let up := Runtime.upper v
    let is := fun k : String => startsWith up k.toList
    match nums with
    | [] => none
    | first :: rest =>
      if is "PULSE" || is "EXP" then
        match rest with
        | [] => some first
        | second :: _ => some (pick first second)
      else if is "SIN" || is "SFFM" then
        match rest with
        | [] => some first
        | second :: _ => some (swing first (Runtime.abs second))
      else if is "PWL" then
        -- the odd places of the time and level pairs
        match (nums.zipIdx.filter fun p => p.2 % 2 = 1).map Prod.fst with
        | [] => none
        | l :: ls => some (ls.foldl pick l)
      else some first

/-- `sourceHighLevel`. -/
def sourceHighLevel : Option Text → Option Runtime.Num := sourceLevel Runtime.max Runtime.add

/-- `sourceLowLevel`. -/
def sourceLowLevel : Option Text → Option Runtime.Num := sourceLevel Runtime.min Runtime.sub

/-- The tally of the pins on a net. -/
structure NetRoles where
  analog : Nat := 0
  digitalSource : Nat := 0
  digitalSink : Nat := 0
  deriving DecidableEq

/-- `/^\s*V\s*=/i`. -/
def isVoltageForm (s : Text) : Bool :=
  match trimStart s with
  | c :: r => sameLetter 'v' c && startsWith (trimStart r) "=".toList
  | [] => false

/-- A source with a statically known level. -/
def isVoltageDriver (c : Component) : Bool :=
  c.type == .voltageSource || (c.type == .bsource && isVoltageForm (c.value.getD []))

/-- Whether a component stands on a net with a digital pin. -/
def drivesDigital (roles : Map Text NetRoles) (c : Component) : Bool :=
  c.pins.any fun p => (roles.get? p.netId).any fun r => 0 < r.digitalSource + r.digitalSink

/-- One turn of the loop of `detectLogicHigh`. -/
def raiseLevel (roles : Map Text NetRoles) (high : Runtime.Num) (c : Component) : Runtime.Num :=
  if isVoltageDriver c && drivesDigital roles c then
    match sourceHighLevel c.value with
    | some lvl => if Runtime.lt high lvl then lvl else high
    | none => high
  else high

/-- `detectLogicHigh`. -/
def detectLogicHigh (circuit : CircuitJson) (roles : Map Text NetRoles)
    (override : Option Runtime.Num) : Runtime.Num :=
  match override.filter (Runtime.lt (Runtime.lit 0 0)) with
  | some v => v
  | none =>
    let high := circuit.components.foldl (raiseLevel roles) (Runtime.lit 0 0)
    if Runtime.lt (Runtime.lit 0 0) high then high else Runtime.lit 5 0

/-- `fmtVolts`. -/
def fmtVolts (v : Runtime.Num) : Text := Runtime.toText (Runtime.ofText (Runtime.toFixed 4 v))

/-- The bridge models of `makeBridgeModels`. -/
def adcModel (vdd : Runtime.Num) : Text :=
  ".model CFD_ADC adc_bridge(in_low=".toList ++ fmtVolts (Runtime.mul (Runtime.lit 3 (-1)) vdd) ++
    " in_high=".toList ++ fmtVolts (Runtime.mul (Runtime.lit 7 (-1)) vdd) ++ ")".toList

def dacModel (vdd : Runtime.Num) : Text :=
  ".model CFD_DAC dac_bridge(out_low=0 out_high=".toList ++ fmtVolts vdd ++ ")".toList

/-! ## The plan -/

structure MixedSignalPlan where
  active : Bool := false
  nodeOverride : Map Text Text := []
  lowRailNode : Option Text := none
  modelCards : List Text := []
  deviceLines : List Card := []
  probeNodeForNet : Map Text Text := []
  digitalModelName : Map Text Text := []

/-- `${componentId}:${pinId}`. -/
def pinKey (componentId pinId : Text) : Text := componentId ++ ':' :: pinId

/-- `bump`. -/
def bump (roles : Map Text NetRoles) (netId : Text) (f : NetRoles → NetRoles) :
    Map Text NetRoles :=
  roles.set netId (f ((roles.get? netId).getD {}))

/-- The tally of one pin of a component. -/
def bumpPin (t : ComponentType) (roles : Map Text NetRoles) (pin : PinConnection) :
    Map Text NetRoles :=
  if !t.isDigital then bump roles pin.netId fun r => { r with analog := r.analog + 1 }
  else if digitalPinRole t pin.pinId = some .source then
    bump roles pin.netId fun r => { r with digitalSource := r.digitalSource + 1 }
  else bump roles pin.netId fun r => { r with digitalSink := r.digitalSink + 1 }

def bumpComponent (roles : Map Text NetRoles) (c : Component) : Map Text NetRoles :=
  if c.type = .ground ∨ c.type = .generic then roles else c.pins.foldl (bumpPin c.type) roles

/-- The roles of every net. -/
def netRoles (circuit : CircuitJson) : Map Text NetRoles :=
  circuit.components.foldl bumpComponent []

/-- The names `base`, `base_1`, `base_2`, … that the uniquifiers try in turn. -/
def candidate (base : Text) (n : Nat) : Text :=
  if n = 0 then base else base ++ '_' :: Nat.toDigits 10 n

/-- `uniqueNode` and `uniqueDevice`, for the lower-cased names in use. -/
def uniqueName (used : List Text) (base : Text) : Text :=
  candidate base
    (FirstFree.search used (fun n => Runtime.lower (candidate base n)) used.length 0)

/-- The bookkeeping of `planMixedSignal`: the plan so far, the nodes of the nets
and those synthesized since, the lower-cased device names in use and the number
of the next synthesized device. -/
structure PlanState where
  plan : MixedSignalPlan
  netNodes : List Text
  synthesized : List Text := []
  usedDevices : List Text
  synthN : Nat := 0

namespace PlanState

/-- The set `usedNodes`. -/
def usedNodes (st : PlanState) : List Text :=
  (st.netNodes ++ st.synthesized).map Runtime.lower

/-- `addModel`. -/
def addModel (st : PlanState) (card : Text) : PlanState :=
  let cards := st.plan.modelCards
  { st with plan := { st.plan with modelCards := if card ∈ cards then cards else cards ++ [card] } }

/-- A fresh node for `base`, now in use. -/
def freshNode (st : PlanState) (base : Text) : Text := uniqueName st.usedNodes base

def useNode (st : PlanState) (node : Text) : PlanState :=
  { st with synthesized := st.synthesized ++ [node] }

/-- `dev` of a card with a fresh device name. -/
def addDevice (st : PlanState) (stem : String) (card : Text → Card) : PlanState :=
  let name := uniqueName st.usedDevices (stem.toList ++ Nat.toDigits 10 st.synthN)
  { st with
    usedDevices := Runtime.lower name :: st.usedDevices
    synthN := st.synthN + 1
    plan := { st.plan with deviceLines := st.plan.deviceLines ++ [card name] } }

end PlanState

/-- The digital pins of a net, as override keys. -/
def digitalPinKeys (circuit : CircuitJson) (netId : Text) : List Text :=
  (circuit.components.filter (·.type.isDigital)).flatMap fun c =>
    (c.pins.filter (·.netId = netId)).map fun pin => pinKey c.id pin.pinId

/-- A pure-digital net is bridged to an analog node for probing. -/
def bridgeDigitalNet (vdd : Runtime.Num) (st : PlanState) (netId node : Text) (r : NetRoles) :
    PlanState :=
  if 0 < r.digitalSource then
    let probe := st.freshNode (node ++ "_p".toList)
    let st := ((st.useNode probe).addModel (dacModel vdd)).addDevice "axsyn" (.dac · node probe)
    { st with plan := { st.plan with
      probeNodeForNet := st.plan.probeNodeForNet.set netId probe } }
  else st

/-- A mixed net is split: its digital pins move to a fresh event node. -/
def bridgeMixedNet (circuit : CircuitJson) (vdd : Runtime.Num) (st : PlanState)
    (netId node : Text) (r : NetRoles) : PlanState :=
  let digNode := st.freshNode (node ++ "_d".toList)
  let st := st.useNode digNode
  let st := { st with plan := { st.plan with
    nodeOverride :=
      Map.fill id (fun _ => digNode) (digitalPinKeys circuit netId) st.plan.nodeOverride } }
  if 0 < r.digitalSource then (st.addModel (dacModel vdd)).addDevice "axsyn" (.dac · digNode node)
  else (st.addModel (adcModel vdd)).addDevice "axsyn" (.adc · node digNode)

/-- One turn of the loop over the nets. -/
def bridgeNet (circuit : CircuitJson) (nodeMap : Map Text Text) (vdd : Runtime.Num)
    (st : PlanState) (e : Text × NetRoles) : PlanState :=
  if e.2.digitalSource + e.2.digitalSink = 0 then st
  else
    match truthy (nodeMap.get? e.1) with
    | none => st
    | some node =>
      if 0 < e.2.analog then bridgeMixedNet circuit vdd st e.1 node e.2
      else bridgeDigitalNet vdd st e.1 node e.2

/-- `needsLowRail`. -/
def needsLowRail (circuit : CircuitJson) : Bool :=
  circuit.components.any fun c => c.type.isSequential &&
    (!c.pins.any (·.pinId = "set".toList) || !c.pins.any (·.pinId = "rst".toList))

/-- The constant low rail. -/
def addLowRail (vdd : Runtime.Num) (st : PlanState) : PlanState :=
  let railAnalog := st.freshNode "dlogic_lo_a".toList
  let st := st.useNode railAnalog
  let railDigital := st.freshNode "dlogic_lo".toList
  let st := (st.useNode railDigital).addModel (adcModel vdd)
  let st := st.addDevice "vxsyn" (.element · [railAnalog, "0".toList] "DC 0".toList)
  let st := st.addDevice "axsyn" (.adc · railAnalog railDigital)
  { st with plan := { st.plan with lowRailNode := some railDigital } }

/-- The bookkeeping of the model names: name by base and parameters, and the
number of custom variants of a base. -/
structure ModelNames where
  nameByParamKey : Map Text Text := []
  variantCount : Map Text Nat := []

/-- One turn of the loop over the components. -/
def nameModel (acc : PlanState × ModelNames) (c : Component) : PlanState × ModelNames :=
  match digitalDevice c.type with
  | none => acc
  | some (device, base) =>
    let params := digitalParams c
    let key := base ++ '|' :: params
    let register := fun (st : PlanState) (name : Text) =>
      { st with plan := { st.plan with
        digitalModelName := st.plan.digitalModelName.set c.id name } }
    match truthy (acc.2.nameByParamKey.get? key) with
    | some name => (register acc.1 name, acc.2)
    | none =>
      let custom := params ≠ defaultParams c.type
      let n := (acc.2.variantCount.get? base).getD 0 + 1
      let name := if custom then base ++ '_' :: Nat.toDigits 10 n else base
      let card := ".model ".toList ++ name ++ ' ' :: device ++ '(' :: params ++ ")".toList
      (register (acc.1.addModel card) name,
        { nameByParamKey := acc.2.nameByParamKey.set key name
          variantCount := if custom then acc.2.variantCount.set base n else acc.2.variantCount })

/-- The bookkeeping at the end of `planMixedSignal`. -/
def planState (circuit : CircuitJson) (nodeMap : Map Text Text) (usedDeviceNames : List Text)
    (logicVoltage : Option Runtime.Num) : PlanState :=
  let roles := netRoles circuit
  let vdd := detectLogicHigh circuit roles logicVoltage
  let st : PlanState :=
    { plan := { active := true }
      netNodes := nodeMap.map Prod.snd
      usedDevices := usedDeviceNames }
  let st := (circuit.components.foldl nameModel (st, {})).1
  let st := roles.foldl (bridgeNet circuit nodeMap vdd) st
  if needsLowRail circuit then addLowRail vdd st else st

/-- `planMixedSignal`. -/
def planMixedSignal (circuit : CircuitJson) (nodeMap : Map Text Text)
    (usedDeviceNames : List Text) (logicVoltage : Option Runtime.Num) : MixedSignalPlan :=
  if circuit.components.any (·.type.isDigital) then
    (planState circuit nodeMap usedDeviceNames logicVoltage).plan
  else {}

/-! ## Digital devices -/

/-- `/^in\d+$/i`. -/
def isGateInput (pinId : Text) : Bool :=
  startsWithI pinId "in".toList && !(pinId.drop 2).isEmpty && (pinId.drop 2).all Char.isDigit

/-- `gateInputPins`. -/
def gateInputPins (c : Component) : List Text :=
  ((c.pins.map PinConnection.pinId).filter isGateInput).insertionSort fun a b =>
    !Runtime.lt (Runtime.ofText (b.drop 2)) (Runtime.ofText (a.drop 2))

/-- `nodeOf`: `none` is the source's `null`. -/
def digitalNodeOf (c : Component) (nodeMap : Map Text Text) (plan : MixedSignalPlan)
    (pinId : Text) : Except Thrown (Option Text) :=
  match truthy (plan.nodeOverride.get? (pinKey c.id pinId)) with
  | some node => .ok (some node)
  | none =>
    match c.pins.find? (·.pinId = pinId) with
    | none => .ok none
    | some pin =>
      match truthy (nodeMap.get? pin.netId) with
      | some node => .ok (some node)
      | none => .error (.error ("Net not found: ".toList ++ pin.netId ++ " for component ".toList ++
          c.designator ++ " (".toList ++ c.type.name ++ ")".toList))

/-- The required pins of a sequential type in front of `set`. -/
def sequentialInputs : ComponentType → List Text
  | .dff => ["d", "clk"].map String.toList
  | .jkff => ["j", "k", "clk"].map String.toList
  | .tff => ["t", "clk"].map String.toList
  | _ => ["d", "en"].map String.toList

/-- A logic gate. -/
def emitGate (c : Component) (nodeOf : Text → Except Thrown (Option Text)) (model : Text) :
    Except Thrown (Option Card) := do
  match ← nodeOf "out".toList with
  | none => return none
  | some out =>
    let inputs ← (gateInputPins c).mapM nodeOf
    match inputs.mapM id with
    | none => return none
    | some [] => return none
    | some (i :: is) =>
      if c.type.isSingleInputGate then
        return some (.event (aInstanceName c.designator) [i, out] model)
      else return some (.gate (aInstanceName c.designator) (i :: is) out model)

/-- A flip-flop or a latch. -/
def emitSequential (c : Component) (nodeOf : Text → Except Thrown (Option Text))
    (lowRail : Option Text) (model : Text) : Except Thrown (Option Card) := do
  let q ← nodeOf "q".toList
  let qb ← nodeOf "qb".toList
  match q, qb with
  | some q, some qb =>
    let set := (← nodeOf "set".toList).or lowRail
    let rst := (← nodeOf "rst".toList).or lowRail
    match set, rst with
    | some set, some rst =>
      let inputs ← (sequentialInputs c.type).mapM nodeOf
      match inputs.mapM id with
      | some inputs =>
        return some (.event (aInstanceName c.designator) (inputs ++ [set, rst, q, qb]) model)
      | none => return none
    | _, _ => return none
  | _, _ => return none

/-- A tristate buffer. -/
def emitTristate (c : Component) (nodeOf : Text → Except Thrown (Option Text)) (model : Text) :
    Except Thrown (Option Card) := do
  let inputs ← (["in1", "en", "out"].map String.toList).mapM nodeOf
  match inputs.mapM id with
  | some ports => return some (.event (aInstanceName c.designator) ports model)
  | none => return none

/-- `emitDigitalComponent`. -/
def emitDigitalComponent (c : Component) (nodeMap : Map Text Text) (plan : MixedSignalPlan) :
    Except Thrown (Option Card) :=
  match truthy (plan.digitalModelName.get? c.id) with
  | none => .ok none
  | some model =>
    let nodeOf := digitalNodeOf c nodeMap plan
    if c.type.isLogicGate then emitGate c nodeOf model
    else if c.type.isSequential then emitSequential c nodeOf plan.lowRailNode model
    else if c.type = .tristate then emitTristate c nodeOf model
    else .ok none

end CircuitForge
