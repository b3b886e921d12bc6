/-
The layout pipeline: `layoutCircuit` of `pcb-core/src/index.ts`.

The board is adapted, evaluated, placed and routed by tools that may throw, and by helpers that are
taken as they are: both are fields of a `Workshop`.  What is followed here is which board is kept
after each of them, what is reported, and where the pipeline asks whether it was cancelled.
-/
import CircuitForge.Js.Effects
import CircuitForge.Js.Text
import CircuitForge.Pcb.Parity
import Mathlib.Data.Rat.Defs

namespace CircuitForge.Layouts

open Js Effects

/-! ## Options and reports -/

inductive Placer where
  | grid | auto | rust
  deriving DecidableEq

/-- `LayoutOptions`, as far as the pipeline itself reads them; a tool is there or not. -/
structure LayoutOptions where
  placer : Option Placer := none
  /-- `router === 'quality'`. -/
  quality : Bool := false
  freeroute : Bool := false
  notaryDrc : Bool := false
  rustPlace : Bool := false
  isAborted : Bool := false
  routingMarginMm : Option Rat := none

/-- An entry of `diagnostics`. -/
structure LayoutNote where
  code : Text
  severity : Severity
  message : Text
  errorType : Option Text := none
  deriving DecidableEq

/-- What is thrown: the abort, a fault of a tool, or a fault with its place in the ladder. -/
inductive Thrown where
  | aborted
  | fault (text : Text)
  | ladder (cause : Thrown) (tried offered : Nat)
  deriving DecidableEq

/-- `String(e)`. -/
def Thrown.text : Thrown → Text
  | .aborted => "LayoutAbortedError: layout canceled".toList
  | .fault text => text
  | .ladder cause _ _ => "RouteLadderError: ".toList ++ cause.text

def faultText : Thrown → Text
  | .ladder cause _ _ => cause.text
  | e => e.text

def natText (n : Nat) : Text := Nat.toDigits 10 n

def ladderWhere : Thrown → Text
  | .ladder _ tried offered =>
    " on margin attempt ".toList ++ natText tried ++ " of ".toList ++ natText offered
  | _ => []

/-- `degradedCause`. -/
inductive DegradedCause where
  | notRequested | noRunner | boardRejected | toolFault
  deriving DecidableEq

/-- A question whether the layout is cancelled, before a placement rung or before a routing margin,
and the answer. -/
inductive Check where
  | rung (answer : Bool)
  | margin (answer : Bool)
  deriving DecidableEq

def Check.answer : Check → Bool
  | .rung answer => answer
  | .margin answer => answer

/-! ## The tools -/

/-- `AutoPlacementAttempt`; the code, the board and its parity come together. -/
structure AutoPlacementAttempt (Board Parity : Type) where
  adopted : Bool
  fatal : Bool := false
  diagnostics : List LayoutNote
  reason : Option Text := none
  placed : Option (Text × Board × Parity) := none

/-- The tools of one call, which answer or throw and change the world, and the helpers of the
package for its circuit and its options. -/
structure Workshop where
  World : Type
  PadCount : Type
  Layoutability : Type
  Adapted : Type
  Board : Type
  Parity : Type
  Widths : Type
  Dsn : Type
  Ses : Type
  Pcb : Type
  Gerbers : Type
  isAborted : World → Except Text Bool × World
  loadPadCountOracle : World → Except Text PadCount × World
  evaluateTscircuit : Text → World → Except Text Board × World
  attemptAutoPlacement : Layoutability → Adapted → Board → Option Rat → Bool → World →
    Except Text (AutoPlacementAttempt Board Parity) × World
  exportDsn : Board → Widths → World → Except Text Dsn × World
  freeroute : Dsn → World → Except Text Ses × World
  mergeSes : Board → Dsn → Ses → World → Except Text Board × World
  /-- `assembleKicadPcb`: the board file and what it has to report. -/
  assembleKicadPcb : Board → World → Except Text (Pcb × List LayoutNote) × World
  notaryDrc : Pcb → World → Except Text Bool × World
  generateGerbers : Board → World → Except Text Gerbers × World
  /-- What `resolveFabProfile` has to report, an unsupported layer count included. -/
  profileNotes : List LayoutNote
  /-- `classifyCircuit`: what it reports, and whether it is layoutable. -/
  classifyCircuit : PadCount → Layoutability × List LayoutNote × Bool
  /-- `generateTscircuitCode`: the emitted code and what it reports. -/
  generateTscircuitCode : Layoutability → Adapted × Text × List LayoutNote
  /-- The errors of an evaluated board, a layer count that was not ordered among them. -/
  boardErrors : Board → List LayoutNote
  checkConnectivityParity : Board → Adapted → Parity × List LayoutNote
  parityOk : Parity → Bool
  computeIpcWidths : Widths × List LayoutNote
  enlargeBoard : Board → Rat → Board
  stripRouting : Board → Board
  /-- `findFullyUnroutedNets(dsn, ses).length`. -/
  fullyUnroutedNets : Dsn → Ses → Nat
  /-- `shrinkBoardToContent`; nothing when the board is returned as it is. -/
  shrinkBoardToContent : Board → Rat → Option Board
  boardSize : Board → Text
  /-- The numbers of traces and vias. -/
  traces : Board → Nat × Nat
  /-- `verifyPerNetWidths`. -/
  verifyPerNetWidths : Board → Widths → List LayoutNote
  /-- `reportViaComplianceInto`. -/
  reportViaCompliance : Board → Bool → List LayoutNote
  /-- `String(n)` of a length in millimetres. -/
  mm : Rat → Text

/-- What a call works on: the world and its `diagnostics`. -/
structure Desk (w : Workshop) where
  world : w.World
  diagnostics : List LayoutNote

abbrev Pipeline (w : Workshop) (α : Type) := Proc Thrown (Desk w) Check α

section

variable (w : Workshop) (opts : LayoutOptions)

variable {w} in
/-- A call of a tool. -/
def outside {α : Type} (f : w.World → Except Text α × w.World) : Pipeline w α :=
  Proc.call fun d => ((f d.world).1.mapError .fault, { d with world := (f d.world).2 })

variable {w} in
/-- `diagnostics.push`. -/
def push (notes : List LayoutNote) : Pipeline w Unit :=
  Proc.modify fun d => { d with diagnostics := d.diagnostics ++ notes }

variable {w} in
/-- The diagnostics so far. -/
def reported : Pipeline w (List LayoutNote) := Proc.call fun d => (.ok d.diagnostics, d)

def throwIfAborted (place : Bool → Check) : Pipeline w Unit :=
  if opts.isAborted then do
    let aborted ← outside w.isAborted
    Proc.note (place aborted)
    if aborted then Proc.throw .aborted else Proc.done ()
  else Proc.done ()

/-! ## Routing -/

/-- `TrimOutcome`. -/
inductive TrimOutcome where
  | applied (clearanceMm : Rat) (before after : Text)
  | kept (reason : Text)

/-- `TRIM_CLEARANCES_MM`. -/
def trimClearances : List Rat := [1, 1 / 2]

/-- Whether the notary accepts a board, or why it could not judge it. -/
def judge (board : w.Board) : Pipeline w (Except Text Bool) :=
  Proc.catching
    (do
      let assembled ← outside (w.assembleKicadPcb board)
      let clean ← outside (w.notaryDrc assembled.1)
      Proc.done (.ok clean))
    fun e => Proc.done (.error e.text)

/-- `trimAccepted`. -/
def trimAccepted (routed : w.Board) : List Rat → Pipeline w (w.Board × TrimOutcome)
  | [] => Proc.done (routed, .kept ("no keep-out in ".toList ++
      join "/".toList (trimClearances.map w.mm) ++ "mm produced a DRC-clean outline".toList))
  | clearanceMm :: rest =>
    match w.shrinkBoardToContent routed clearanceMm with
    | none => Proc.done (routed, .kept "the outline was already tight".toList)
    | some trimmed => do
      match ← judge w trimmed with
      | .ok true =>
        Proc.done (trimmed, .applied clearanceMm (w.boardSize routed) (w.boardSize trimmed))
      | .ok false => trimAccepted routed rest
      | .error why => Proc.done (routed, .kept
          ("the DRC oracle could not judge the trimmed outline (".toList ++ why ++ ")".toList))

/-- One margin: the routed board, if the oracle accepts it. -/
def routeMargin (evaluated : w.Board) (widths : w.Widths) (marginMm : Rat) :
    Pipeline w (Option (w.Board × Option TrimOutcome)) := do
  let routingBase := w.enlargeBoard evaluated marginMm
  let dsn ← outside (w.exportDsn (w.stripRouting routingBase) widths)
  let ses ← outside (w.freeroute dsn)
  if opts.notaryDrc then do
    let routed ← outside (w.mergeSes routingBase dsn ses)
    let assembled ← outside (w.assembleKicadPcb routed)
    let clean ← outside (w.notaryDrc assembled.1)
    if clean then do
      let (board, trim) ← trimAccepted w routed trimClearances
      Proc.done (some (board, some trim))
    else Proc.done none
  else if w.fullyUnroutedNets dsn ses = 0 then do
    let routed ← outside (w.mergeSes routingBase dsn ses)
    Proc.done (some (routed, none))
  else Proc.done none

/-- What `routeBestMargin` returns: the accepted board with its margin, or nothing. -/
structure MarginRoute where
  accepted : Option (w.Board × Option TrimOutcome × Rat)
  tried : Nat
  offered : Nat

/-- The loop of `routeBestMargin`. -/
def routeMargins (evaluated : w.Board) (widths : w.Widths) (offered : Nat) :
    List Rat → Nat → Pipeline w (MarginRoute w)
  | [], tried => Proc.done { accepted := none, tried := tried, offered := offered }
  | marginMm :: rest, tried => do
    throwIfAborted w opts .margin
    let attempt ← Proc.catching (routeMargin w opts evaluated widths marginMm)
      fun e => Proc.throw (.ladder e (tried + 1) offered)
    match attempt with
    | some (board, trim) =>
      Proc.done { accepted := some (board, trim, marginMm), tried := tried + 1, offered := offered }
    | none => routeMargins evaluated widths offered rest (tried + 1)

/-- `margins`. -/
def routingMargins : List Rat :=
  match opts.routingMarginMm with
  | some marginMm => [marginMm]
  | none => [6, 4, 10, 2, 8, 12]

/-- `routeBestMargin`. -/
def routeBestMargin (evaluated : w.Board) (widths : w.Widths) : Pipeline w (MarginRoute w) :=
  routeMargins w opts evaluated widths (routingMargins opts).length (routingMargins opts) 0

structure QualityRouteOutcome where
  routedBoard : w.Board
  qualityApplied : Bool
  clean : Bool
  marginMm : Option Rat := none
  reason : Option Text := none
  toolFailed : Bool := false
  cause : Option DegradedCause := none
  /-- `marginsTried` and `marginsOffered`. -/
  margins : Option (Nat × Nat) := none

/-- What is reported of a trimmed outline. -/
def trimNotes : Option TrimOutcome → List LayoutNote
  | none => []
  | some (.applied clearanceMm before after) =>
    [{ code := "PCB052".toList, severity := .info
       message := "routing headroom returned — outline trimmed ".toList ++ before ++ " → ".toList ++
        after ++ " at a ".toList ++ w.mm clearanceMm ++
        "mm copper keep-out, re-certified by the notary.".toList }]
  | some (.kept reason) =>
    [{ code := "PCB052".toList, severity := .info
       message := "outline kept at the routing size — ".toList ++ reason ++ ".".toList }]

/-- The outcome of a ladder that ran to its end. -/
def marginOutcome (evaluated : w.Board) (best : MarginRoute w) :
    Pipeline w (QualityRouteOutcome w) :=
  match best.accepted with
  | none => do
    let why := "no ".toList ++ (if opts.notaryDrc then "DRC-clean" else "fully-routed").toList ++
      " quality route across ".toList ++ natText best.tried ++ " margin attempt(s)".toList
    push [{ code := "PCB036".toList, severity := .warning
            message := why ++ (" — using the fully-connected local route instead (the notary " ++
              "flags its via geometry, never an open net).").toList }]
    Proc.done
      { routedBoard := evaluated, qualityApplied := false, clean := false, reason := some why
        cause := some .boardRejected, margins := some (best.tried, best.offered) }
  | some (board, trim, marginMm) => do
    push (trimNotes w trim)
    push [{ code := "PCB030".toList, severity := .info
            message := "quality route (freerouting) applied — ".toList ++
              natText (w.traces board).1 ++ " trace(s), ".toList ++ natText (w.traces board).2 ++
              " via(s) at margin ".toList ++ w.mm marginMm ++ "mm".toList ++
              (if opts.notaryDrc then " — DRC-clean confirmed by the notary oracle."
                else "; the notary confirms full connectivity.").toList }]
    Proc.done
      { routedBoard := board, qualityApplied := true, clean := opts.notaryDrc
        marginMm := some marginMm }

/-- The outcome of a fault: the `catch` of `applyQualityRoute`. -/
def faultOutcome (evaluated : w.Board) (e : Thrown) : Pipeline w (QualityRouteOutcome w) := do
  push [{ code := "PCB035".toList, severity := .warning
          message := "the quality router or its DRC oracle FAILED".toList ++ ladderWhere e ++
            (" — it never judged this board. Falling back to the local fast route. This is an " ++
              "infrastructure fault, not a finding about the design (").toList ++
            (faultText e).take 160 ++ ").".toList }]
  Proc.done
    { routedBoard := evaluated, qualityApplied := false, clean := false
      reason := some ("the quality router failed before it could judge this board".toList ++
        ladderWhere e ++ ": ".toList ++ (faultText e).take 180)
      toolFailed := true, cause := some .toolFault
      margins := match e with
        | .ladder _ tried offered => some (tried, offered)
        | _ => none }

def applyQualityRoute (evaluated : w.Board) (widths : w.Widths) :
    Pipeline w (QualityRouteOutcome w) :=
  if !opts.quality then
    Proc.done
      { routedBoard := evaluated, qualityApplied := false, clean := false
        reason := some "router:'fast' was requested".toList, cause := some .notRequested }
  else if !opts.freeroute then do
    push [{ code := "PCB030".toList, severity := .info
            message := ("router:'quality' requested but no freeroute runner was injected — " ++
              "using the local fast route.").toList }]
    Proc.done
      { routedBoard := evaluated, qualityApplied := false, clean := false
        reason := some "no freerouting runner was injected".toList, cause := some .noRunner }
  else
    Proc.catching (routeBestMargin w opts evaluated widths >>= marginOutcome w opts evaluated)
      (faultOutcome w evaluated)

/-! ## The pipeline -/

/-- `delivery`. -/
structure Delivery where
  /-- Whether the tier is `quality`. -/
  quality : Bool
  drcCertified : Bool
  marginMm : Option Rat := none
  degradedReason : Option Text
  degradedCause : Option DegradedCause
  margins : Option (Nat × Nat) := none
  engine : Placer
  requested : Placer
  placementReason : Option Text

/-- `LayoutResult`, as far as it depends on the tools. -/
structure LayoutResult where
  ok : Bool
  diagnostics : List LayoutNote
  code : Text
  evaluated : Option w.Board
  parity : Option w.Parity
  outputs : Option (w.Gerbers × w.Pcb)
  delivery : Delivery

/-- `placementRequested`. -/
def LayoutOptions.requested : Placer := opts.placer.getD .grid

def undelivered (why : Text) : Delivery where
  quality := false
  drcCertified := false
  degradedReason := some why
  degradedCause := some .notRequested
  engine := .grid
  requested := opts.requested
  placementReason := if opts.requested = .grid then none else some why

/-- `failed`. -/
def failed : Pipeline w (LayoutResult w) := do
  let diagnostics ← reported
  Proc.done
    { ok := false, diagnostics := diagnostics, code := [], evaluated := none, parity := none
      outputs := none
      delivery := undelivered opts
        "the circuit was not layoutable — nothing was placed or routed".toList }

/-- A board with its code and its parity. -/
structure Drawn where
  code : Text
  evaluated : w.Board
  parity : w.Parity

/-- `pcb_courtyard_overlap_error`. -/
def courtyardOverlap : Text := "pcb_courtyard_overlap_error".toList

def LayoutNote.isError (n : LayoutNote) : Bool := n.severity = .error

/-- Every error is an overlap of courtyards, and there is one. -/
def onlyOverlaps (notes : List LayoutNote) : Bool :=
  notes.any LayoutNote.isError &&
    notes.all fun n => !n.isError || n.errorType = some courtyardOverlap

/-- The courtyard-overlap rescue: another placement in place of a grid that does not fit. -/
def rescueOverlaps (layout : w.Layoutability) (adapted : w.Adapted) (drawn : Drawn w) :
    Pipeline w (Drawn w) := do
  let notes ← reported
  if w.parityOk drawn.parity && onlyOverlaps notes then do
    let rescue ← outside (w.attemptAutoPlacement layout adapted drawn.evaluated none true)
    push rescue.diagnostics
    match rescue.adopted, rescue.placed with
    | true, some (code, evaluated, parity) => do
      Proc.modify fun d => { d with
        diagnostics := d.diagnostics.filter fun n => n.errorType ≠ some courtyardOverlap }
      Proc.done { code := code, evaluated := evaluated, parity := parity }
    | _, _ => Proc.done drawn
  else Proc.done drawn

/-- `advancedPlacement`. -/
def LayoutOptions.advanced : Bool := opts.placer = some .auto || opts.placer = some .rust

/-- `placementRunnerReady`. -/
def LayoutOptions.runnerReady : Bool := opts.placer ≠ some .rust || opts.rustPlace

def LayoutOptions.canLadder : Bool :=
  opts.advanced && opts.runnerReady && opts.quality && opts.freeroute && opts.notaryDrc

/-- The board that goes on: how it was placed, and its route when it has one. -/
structure Placed where
  drawn : Drawn w
  route : Option (QualityRouteOutcome w) := none
  adopted : Bool
  reason : Option Text

/-- What the placement starts from: the grid. -/
def onGrid (drawn : Drawn w) : Placed w where
  drawn := drawn
  adopted := !opts.advanced
  reason := if opts.advanced && !opts.runnerReady then
    some "the rust placement runner is not configured".toList else none

/-- The single attempt, when there is no routing oracle; nothing when it is fatal. -/
def placeOnce (layout : w.Layoutability) (adapted : w.Adapted) (grid : Placed w) :
    Pipeline w (Option (Placed w)) :=
  if opts.advanced && !opts.canLadder then do
    let auto ← outside (w.attemptAutoPlacement layout adapted grid.drawn.evaluated none false)
    push auto.diagnostics
    if auto.fatal then Proc.done none
    else
      let drawn := match auto.adopted, auto.placed with
        | true, some (code, evaluated, parity) =>
          { code := code, evaluated := evaluated, parity := parity }
        | _, _ => grid.drawn
      Proc.done (some
        { drawn := drawn, adopted := auto.adopted, reason := auto.reason.or grid.reason })
  else Proc.done (some grid)

/-- What is reported of a rung that did not route clean. -/
def rungNote (spacingMm : Option Rat) : LayoutNote where
  code := "PCB051".toList
  severity := if spacingMm = none then .info else .warning
  message := "auto-placement (channel ".toList ++ w.mm (spacingMm.getD (12 / 5)) ++
    "mm) did not route DRC-clean — ".toList ++
    (if spacingMm = none then "retrying with wider channels"
      else "reverting to the grid placement (floor guarantee)").toList ++ ".".toList

/-- The channel ladder; nothing when a rung is fatal. -/
def climbLadder (layout : w.Layoutability) (adapted : w.Adapted) (widths : w.Widths) :
    List (Option Rat) → Placed w → Pipeline w (Option (Placed w))
  | [], placed => Proc.done (some placed)
  | spacingMm :: rest, placed => do
    throwIfAborted w opts .rung
    let auto ← outside
      (w.attemptAutoPlacement layout adapted placed.drawn.evaluated spacingMm false)
    push auto.diagnostics
    if auto.fatal then Proc.done none
    else
      match auto.adopted, auto.placed with
      | true, some (code, evaluated, parity) => do
        let attempt ← applyQualityRoute w opts evaluated widths
        if attempt.clean then
          Proc.done (some
            { drawn := { code := code, evaluated := evaluated, parity := parity }
              route := some attempt, adopted := true, reason := none })
        else if attempt.toolFailed then
          Proc.done (some { placed with
            reason := some
              ("the quality router failed before it could judge the placement (".toList ++
                attempt.reason.getD "tool failure".toList ++ ")".toList) })
        else do
          push [rungNote w spacingMm]
          climbLadder layout adapted widths rest { placed with
            reason := some "the placed board did not route DRC-clean at any channel width".toList }
      | _, _ => Proc.done (some { placed with reason := auto.reason.or placed.reason })

/-- The delivered board's own account of how it was made. -/
def deliveryOf (placed : Placed w) (route : QualityRouteOutcome w) : Delivery where
  quality := route.qualityApplied
  drcCertified := route.clean
  marginMm := route.marginMm
  degradedReason := route.reason
  degradedCause := route.cause
  margins := route.margins
  engine := if placed.adopted then opts.requested else .grid
  requested := opts.requested
  placementReason := if placed.adopted then none else placed.reason

/-- The route of the placed board, which a rung may have brought along. -/
def finalRoute (widths : w.Widths) (placed : Placed w) : Pipeline w (QualityRouteOutcome w) :=
  match placed.route with
  | some route => Proc.done route
  | none => applyQualityRoute w opts placed.drawn.evaluated widths

/-- From the placed board to the delivered one. -/
def finish (widths : w.Widths) (placed : Placed w) : Pipeline w (LayoutResult w) := do
  let route ← finalRoute w opts widths placed
  push (if route.qualityApplied then w.verifyPerNetWidths route.routedBoard widths else [])
  push (w.reportViaCompliance route.routedBoard route.qualityApplied)
  let gerbers ← outside (w.generateGerbers route.routedBoard)
  let assembled ← outside (w.assembleKicadPcb route.routedBoard)
  push assembled.2
  let diagnostics ← reported
  Proc.done
    { ok := true, diagnostics := diagnostics, code := placed.drawn.code
      evaluated := some route.routedBoard, parity := some placed.drawn.parity
      outputs := some (gerbers, assembled.1), delivery := deliveryOf w opts placed route }

/-- From the valid grid board on. -/
def placeAndRoute (layout : w.Layoutability) (adapted : w.Adapted) (drawn : Drawn w) :
    Pipeline w (LayoutResult w) := do
  match ← placeOnce w opts layout adapted (onGrid w opts drawn) with
  | none => failed w opts
  | some placed => do
    push w.computeIpcWidths.2
    let spacings := if opts.canLadder then [none, some (18 / 5)] else []
    match ← climbLadder w opts layout adapted w.computeIpcWidths.1 spacings placed with
    | none => failed w opts
    | some placed => finish w opts w.computeIpcWidths.1 placed

/-- A board that failed parity or evaluation. -/
def rejected (drawn : Drawn w) (diagnostics : List LayoutNote) : LayoutResult w where
  ok := false
  diagnostics := diagnostics
  code := drawn.code
  evaluated := some drawn.evaluated
  parity := some drawn.parity
  outputs := none
  delivery := undelivered opts
    "the board failed connectivity parity or evaluation before routing".toList

/-- The grid board of a layoutable circuit, rescued where its courtyards overlap. -/
def drawGrid (layout : w.Layoutability) : Pipeline w (w.Adapted × Drawn w) := do
  let (adapted, code, notes) := w.generateTscircuitCode layout
  push notes
  let evaluated ← outside (w.evaluateTscircuit code)
  push (w.boardErrors evaluated)
  let (parity, notes) := w.checkConnectivityParity evaluated adapted
  push notes
  let drawn ← rescueOverlaps w layout adapted
    { code := code, evaluated := evaluated, parity := parity }
  Proc.done (adapted, drawn)

def layoutCircuit : Pipeline w (LayoutResult w) := do
  push w.profileNotes
  let padCount ← outside w.loadPadCountOracle
  let (layout, notes, layoutable) := w.classifyCircuit padCount
  push notes
  if !layoutable then failed w opts
  else do
    let (adapted, drawn) ← drawGrid w layout
    let diagnostics ← reported
    if w.parityOk drawn.parity && !diagnostics.any LayoutNote.isError then
      placeAndRoute w opts layout adapted drawn
    else Proc.done (rejected w opts drawn diagnostics)

end

end CircuitForge.Layouts
