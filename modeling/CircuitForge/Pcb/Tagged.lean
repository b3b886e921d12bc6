/-
The layout pipeline with a record of where its boards come from.

A board of the tagged workshop says whether it was drawn, merged from a session of the router, or
trimmed from a merged one, and the tape of the call keeps the sessions that were returned and the
judgements of the notary.  Taking the record away gives back the pipeline as it is.
-/
import CircuitForge.Pcb.Layout
import CircuitForge.Js.Effects

namespace CircuitForge.Layouts

open Js Effects

/-! ## The record -/

/-- Where a board comes from; sessions are counted in the order in which they were returned. -/
inductive Origin where
  | drawn
  | merged (session : Nat)
  | trimmed (session : Nat) (clearanceMm : Rat)
  deriving DecidableEq

namespace Origin

/-- The router session that was merged. -/
def session? : Origin → Option Nat
  | drawn => none
  | merged k => some k
  | trimmed k _ => some k

/-- The origin of a board whose outline is shrunk. -/
def trim (clearanceMm : Rat) : Origin → Origin
  | merged k => trimmed k clearanceMm
  | o => o

end Origin

variable {w : Workshop}

/-- What became of a board that was to be judged: the file that was passed to the notary, unless it
could not be assembled, and the answer. -/
structure Judgement (w : Workshop) where
  origin : Origin
  pcb : Option w.Pcb
  verdict : Except Text Bool

/-- The world of a call with its record. -/
structure Tape (w : Workshop) where
  world : w.World
  sessions : List w.Ses := []
  judgements : List (Judgement w) := []

namespace Tape

variable {α β : Type}

/-- A tool that is not recorded. -/
def lift (f : w.World → Except Text α × w.World) (tag : α → β) : Tape w → Except Text β × Tape w :=
  fun t => ((f t.world).1.map tag, { t with world := (f t.world).2 })

/-- `freeroute`, whose session is kept and numbered. -/
def freeroute (dsn : w.Dsn) : Tape w → Except Text (w.Ses × Nat) × Tape w := fun t =>
  ((w.freeroute dsn t.world).1.map fun ses => (ses, t.sessions.length),
    { t with
      world := (w.freeroute dsn t.world).2
      sessions := t.sessions ++ (w.freeroute dsn t.world).1.toOption.toList })

/-- `assembleKicadPcb`, whose faults are kept. -/
def assemble (board : w.Board × Origin) :
    Tape w → Except Text ((w.Pcb × Origin) × List LayoutNote) × Tape w := fun t =>
  ((w.assembleKicadPcb board.1 t.world).1.map fun a => ((a.1, board.2), a.2),
    { t with
      world := (w.assembleKicadPcb board.1 t.world).2
      judgements := t.judgements ++ match (w.assembleKicadPcb board.1 t.world).1 with
        | .ok _ => []
        | .error e => [{ origin := board.2, pcb := none, verdict := .error e }] })

/-- `notaryDrc`, whose answers are kept. -/
def notaryDrc (pcb : w.Pcb × Origin) : Tape w → Except Text Bool × Tape w := fun t =>
  ((w.notaryDrc pcb.1 t.world).1,
    { t with
      world := (w.notaryDrc pcb.1 t.world).2
      judgements := t.judgements ++
        [{ origin := pcb.2, pcb := some pcb.1, verdict := (w.notaryDrc pcb.1 t.world).1 }] })

end Tape

/-- A placement draws its board. -/
def AutoPlacementAttempt.tagged {Board Parity : Type} (a : AutoPlacementAttempt Board Parity) :
    AutoPlacementAttempt (Board × Origin) Parity where
  adopted := a.adopted
  fatal := a.fatal
  diagnostics := a.diagnostics
  reason := a.reason
  placed := a.placed.map fun p => (p.1, (p.2.1, .drawn), p.2.2)

/-- The workshop with its record. -/
abbrev Workshop.tagged (w : Workshop) : Workshop where
  World := Tape w
  PadCount := w.PadCount
  Layoutability := w.Layoutability
  Adapted := w.Adapted
  Board := w.Board × Origin
  Parity := w.Parity
  Widths := w.Widths
  Dsn := w.Dsn
  Ses := w.Ses × Nat
  Pcb := w.Pcb × Origin
  Gerbers := w.Gerbers
  isAborted := Tape.lift w.isAborted id
  loadPadCountOracle := Tape.lift w.loadPadCountOracle id
  evaluateTscircuit := fun code => Tape.lift (w.evaluateTscircuit code) fun board => (board, .drawn)
  attemptAutoPlacement := fun layout adapted board spacingMm adoptOnValidity =>
    Tape.lift (w.attemptAutoPlacement layout adapted board.1 spacingMm adoptOnValidity)
      AutoPlacementAttempt.tagged
  exportDsn := fun board widths => Tape.lift (w.exportDsn board.1 widths) id
  freeroute := Tape.freeroute
  mergeSes := fun board dsn ses =>
    Tape.lift (w.mergeSes board.1 dsn ses.1) fun routed => (routed, .merged ses.2)
  assembleKicadPcb := Tape.assemble
  notaryDrc := Tape.notaryDrc
  generateGerbers := fun board => Tape.lift (w.generateGerbers board.1) id
  profileNotes := w.profileNotes
  classifyCircuit := w.classifyCircuit
  generateTscircuitCode := w.generateTscircuitCode
  boardErrors := fun board => w.boardErrors board.1
  checkConnectivityParity := fun board => w.checkConnectivityParity board.1
  parityOk := w.parityOk
  computeIpcWidths := w.computeIpcWidths
  enlargeBoard := fun board marginMm => (w.enlargeBoard board.1 marginMm, board.2)
  stripRouting := fun board => (w.stripRouting board.1, board.2)
  fullyUnroutedNets := fun dsn ses => w.fullyUnroutedNets dsn ses.1
  shrinkBoardToContent := fun board clearanceMm =>
    (w.shrinkBoardToContent board.1 clearanceMm).map fun shrunk =>
      (shrunk, board.2.trim clearanceMm)
  boardSize := fun board => w.boardSize board.1
  traces := fun board => w.traces board.1
  verifyPerNetWidths := fun board => w.verifyPerNetWidths board.1
  reportViaCompliance := fun board => w.reportViaCompliance board.1
  mm := w.mm

/-! ## The record is taken away -/

def untagDesk (d : Desk w.tagged) : Desk w where
  world := d.world.world
  diagnostics := d.diagnostics

def QualityRouteOutcome.untag (o : QualityRouteOutcome w.tagged) : QualityRouteOutcome w where
  routedBoard := o.routedBoard.1
  qualityApplied := o.qualityApplied
  clean := o.clean
  marginMm := o.marginMm
  reason := o.reason
  toolFailed := o.toolFailed
  cause := o.cause
  margins := o.margins

def MarginRoute.untag (r : MarginRoute w.tagged) : MarginRoute w where
  accepted := r.accepted.map fun a => (a.1.1, a.2)
  tried := r.tried
  offered := r.offered

def Drawn.untag (d : Drawn w.tagged) : Drawn w where
  code := d.code
  evaluated := d.evaluated.1
  parity := d.parity

def Placed.untag (p : Placed w.tagged) : Placed w where
  drawn := p.drawn.untag
  route := p.route.map QualityRouteOutcome.untag
  adopted := p.adopted
  reason := p.reason

def LayoutResult.untag (r : LayoutResult w.tagged) : LayoutResult w where
  ok := r.ok
  diagnostics := r.diagnostics
  code := r.code
  evaluated := r.evaluated.map Prod.fst
  parity := r.parity
  outputs := r.outputs.map fun o => (o.1, o.2.1)
  delivery := r.delivery

variable {α α' : Type}

/-- `m'` is `m` with its record. -/
abbrev Records (f : α' → α) (m' : Pipeline w.tagged α') (m : Pipeline w α) : Prop :=
  Proc.Erases untagDesk f m' m

theorem records_outside {c' : Tape w → Except Text α' × Tape w}
    {c : w.World → Except Text α × w.World} {f : α' → α}
    (h : ∀ t : Tape w, c t.world = ((c' t).1.map f, (c' t).2.world)) :
    Records f (outside (w := w.tagged) c') (outside c) := by
  refine Proc.erases_call fun d => ?_
  have hd : c (untagDesk d).world = ((c' d.world).1.map f, (c' d.world).2.world) := h d.world
  rw [hd]
  unfold untagDesk
  cases (c' d.world).1 <;> rfl

theorem records_lift {β : Type} {c : w.World → Except Text α × w.World} {tag : α → β} {f : β → α}
    (h : ∀ a, f (tag a) = a) :
    Records f (outside (w := w.tagged) (Tape.lift c tag)) (outside c) := by
  refine records_outside fun t => ?_
  unfold Tape.lift
  rcases hc : c t.world with ⟨r, world⟩
  cases r with
  | error e => rfl
  | ok a => simp only [Except.map, h a]

theorem records_freeroute (dsn : w.Dsn) :
    Records Prod.fst (outside (w.tagged.freeroute dsn)) (outside (w.freeroute dsn)) := by
  refine records_outside fun t => ?_
  change _ = ((Tape.freeroute dsn t).1.map Prod.fst, (Tape.freeroute dsn t).2.world)
  unfold Tape.freeroute
  rcases w.freeroute dsn t.world with ⟨r, world⟩
  cases r <;> rfl

theorem records_assemble (board : w.tagged.Board) :
    Records (fun a => (a.1.1, a.2)) (outside (w.tagged.assembleKicadPcb board))
      (outside (w.assembleKicadPcb board.1)) := by
  refine records_outside fun t => ?_
  change _ = ((Tape.assemble board t).1.map fun a => (a.1.1, a.2), (Tape.assemble board t).2.world)
  unfold Tape.assemble
  rcases w.assembleKicadPcb board.1 t.world with ⟨r, world⟩
  cases r <;> rfl

theorem records_notaryDrc (pcb : w.tagged.Pcb) :
    Records id (outside (w.tagged.notaryDrc pcb)) (outside (w.notaryDrc pcb.1)) := by
  refine records_outside fun t => ?_
  change _ = ((Tape.notaryDrc pcb t).1.map id, (Tape.notaryDrc pcb t).2.world)
  unfold Tape.notaryDrc
  rcases w.notaryDrc pcb.1 t.world with ⟨r, world⟩
  cases r <;> rfl

theorem records_push (notes : List LayoutNote) :
    Records id (push (w := w.tagged) notes) (push notes) :=
  Proc.erases_modify fun _ => rfl

theorem records_reported : Records id (reported (w := w.tagged)) reported :=
  Proc.erases_call fun _ => rfl

/-! ## The stages -/

variable (opts : LayoutOptions)

theorem records_throwIfAborted (place : Bool → Check) :
    Records id (throwIfAborted w.tagged opts place) (throwIfAborted w opts place) := by
  unfold throwIfAborted
  split
  · refine Proc.Erases.andThen (f := id) (records_lift fun _ => rfl) fun aborted => ?_
    refine Proc.Erases.andThen (Proc.erases_note _) fun _ => ?_
    dsimp only [id]
    split
    · exact Proc.erases_throw _
    · exact Proc.erases_done _
  · exact Proc.erases_done _

theorem records_judge (board : w.tagged.Board) :
    Records id (judge w.tagged board) (judge w board.1) := by
  refine Proc.Erases.catching ?_ fun e => Proc.erases_done _
  refine Proc.Erases.andThen (records_assemble board) fun assembled => ?_
  exact Proc.Erases.andThen (records_notaryDrc assembled.1) fun clean => Proc.erases_done _

theorem records_trimAccepted (routed : w.tagged.Board) (clearances : List Rat) :
    Records (fun r => (r.1.1, r.2)) (trimAccepted w.tagged routed clearances)
      (trimAccepted w routed.1 clearances) := by
  induction clearances with
  | nil => exact Proc.erases_done (f := fun r : w.tagged.Board × TrimOutcome => (r.1.1, r.2)) _
  | cons clearanceMm rest ih =>
    unfold trimAccepted
    dsimp only
    cases w.shrinkBoardToContent routed.1 clearanceMm with
    | none => exact Proc.erases_done (f := fun r : w.tagged.Board × TrimOutcome => (r.1.1, r.2)) _
    | some trimmed =>
      dsimp only [Option.map_some]
      refine Proc.Erases.andThen (records_judge (trimmed, routed.2.trim clearanceMm))
        fun verdict => ?_
      match verdict with
      | .ok true =>
        exact Proc.erases_done (f := fun r : w.tagged.Board × TrimOutcome => (r.1.1, r.2)) _
      | .ok false => exact ih
      | .error why =>
        exact Proc.erases_done (f := fun r : w.tagged.Board × TrimOutcome => (r.1.1, r.2)) _

/-- What a margin leaves of its route. -/
def untagRoute (r : w.tagged.Board × Option TrimOutcome) : w.Board × Option TrimOutcome :=
  (r.1.1, r.2)

theorem records_routeMargin (evaluated : w.tagged.Board) (widths : w.Widths) (marginMm : Rat) :
    Records (Option.map untagRoute) (routeMargin w.tagged opts evaluated widths marginMm)
      (routeMargin w opts evaluated.1 widths marginMm) := by
  unfold routeMargin
  refine Proc.Erases.andThen (f := id) (records_lift fun _ => rfl) fun dsn => ?_
  refine Proc.Erases.andThen (records_freeroute (w := w) dsn) fun ses => ?_
  split
  · refine Proc.Erases.andThen (f := Prod.fst) (records_lift fun _ => rfl) fun routed => ?_
    refine Proc.Erases.andThen (records_assemble routed) fun assembled => ?_
    refine Proc.Erases.andThen (records_notaryDrc assembled.1) fun clean => ?_
    dsimp only [id]
    split
    · exact Proc.Erases.andThen (records_trimAccepted routed _) fun r => Proc.erases_done _
    · exact Proc.erases_done _
  · dsimp only [id]
    split
    · exact Proc.Erases.andThen (f := Prod.fst) (records_lift fun _ => rfl)
        fun routed => Proc.erases_done _
    · exact Proc.erases_done _

theorem records_routeMargins (evaluated : w.tagged.Board) (widths : w.Widths) (offered : Nat)
    (margins : List Rat) (tried : Nat) :
    Records MarginRoute.untag (routeMargins w.tagged opts evaluated widths offered margins tried)
      (routeMargins w opts evaluated.1 widths offered margins tried) := by
  induction margins generalizing tried with
  | nil => exact Proc.erases_done (f := MarginRoute.untag) _
  | cons marginMm rest ih =>
    unfold routeMargins
    refine Proc.Erases.andThen (records_throwIfAborted opts _) fun _ => ?_
    refine Proc.Erases.andThen (Proc.Erases.catching (records_routeMargin opts evaluated widths
      marginMm) fun e => Proc.erases_throw _) fun attempt => ?_
    match attempt with
    | none => exact ih _
    | some (board, trim) => exact Proc.erases_done (f := MarginRoute.untag) _

theorem records_marginOutcome (evaluated : w.tagged.Board) (best : MarginRoute w.tagged) :
    Records QualityRouteOutcome.untag (marginOutcome w.tagged opts evaluated best)
      (marginOutcome w opts evaluated.1 best.untag) := by
  obtain ⟨accepted, tried, offered⟩ := best
  unfold marginOutcome MarginRoute.untag
  match accepted with
  | none =>
    exact Proc.Erases.andThen (records_push _) fun _ =>
      Proc.erases_done (f := QualityRouteOutcome.untag) _
  | some (board, trim, marginMm) =>
    refine Proc.Erases.andThen (records_push _) fun _ => ?_
    exact Proc.Erases.andThen (records_push _) fun _ =>
      Proc.erases_done (f := QualityRouteOutcome.untag) _

theorem records_faultOutcome (evaluated : w.tagged.Board) (e : Thrown) :
    Records QualityRouteOutcome.untag (faultOutcome w.tagged evaluated e)
      (faultOutcome w evaluated.1 e) :=
  Proc.Erases.andThen (records_push _) fun _ =>
    Proc.erases_done (f := QualityRouteOutcome.untag) _

theorem records_applyQualityRoute (evaluated : w.tagged.Board) (widths : w.Widths) :
    Records QualityRouteOutcome.untag (applyQualityRoute w.tagged opts evaluated widths)
      (applyQualityRoute w opts evaluated.1 widths) := by
  unfold applyQualityRoute
  split
  · exact Proc.erases_done (f := QualityRouteOutcome.untag) _
  · split
    · exact Proc.Erases.andThen (records_push _) fun _ =>
        Proc.erases_done (f := QualityRouteOutcome.untag) _
    · refine Proc.Erases.catching ?_ (records_faultOutcome evaluated)
      exact Proc.Erases.andThen (records_routeMargins opts evaluated widths _ _ _)
        (records_marginOutcome opts evaluated)

theorem records_failed : Records LayoutResult.untag (failed w.tagged opts) (failed w opts) :=
  Proc.Erases.andThen records_reported fun _ => Proc.erases_done (f := LayoutResult.untag) _

theorem records_attempt (layout : w.Layoutability) (adapted : w.Adapted) (board : w.tagged.Board)
    (spacingMm : Option Rat) (adoptOnValidity : Bool) :
    Records (fun a : AutoPlacementAttempt w.tagged.Board w.Parity =>
        { a with placed := a.placed.map fun p => (p.1, p.2.1.1, p.2.2) })
      (outside (w.tagged.attemptAutoPlacement layout adapted board spacingMm adoptOnValidity))
      (outside (w.attemptAutoPlacement layout adapted board.1 spacingMm adoptOnValidity)) := by
  refine records_lift fun a => ?_
  obtain ⟨adopted, fatal, diagnostics, reason, placed⟩ := a
  cases placed <;> rfl

theorem records_rescueOverlaps (layout : w.Layoutability) (adapted : w.Adapted)
    (drawn : Drawn w.tagged) :
    Records Drawn.untag (rescueOverlaps w.tagged layout adapted drawn)
      (rescueOverlaps w layout adapted drawn.untag) := by
  refine Proc.Erases.andThen records_reported fun notes => ?_
  dsimp only [id, Drawn.untag]
  change Proc.Erases _ _ (if (w.parityOk drawn.parity && onlyOverlaps notes) = true then _ else _)
    (if (w.parityOk drawn.parity && onlyOverlaps notes) = true then _ else _)
  by_cases h : (w.parityOk drawn.parity && onlyOverlaps notes) = true
  · rw [if_pos h, if_pos h]
    refine Proc.Erases.andThen (records_attempt layout adapted drawn.evaluated none true)
      fun rescue => ?_
    obtain ⟨adopted, fatal, diagnostics, reason, placed⟩ := rescue
    refine Proc.Erases.andThen (records_push _) fun _ => ?_
    match adopted, placed with
    | true, some (code, evaluated, parity) =>
      exact Proc.Erases.andThen (Proc.erases_modify fun _ => rfl) fun _ =>
        Proc.erases_done (f := Drawn.untag) _
    | true, none => exact Proc.erases_done (f := Drawn.untag) _
    | false, none => exact Proc.erases_done (f := Drawn.untag) _
    | false, some _ => exact Proc.erases_done (f := Drawn.untag) _
  · rw [if_neg h, if_neg h]
    exact Proc.erases_done (f := Drawn.untag) _

theorem records_placeOnce (layout : w.Layoutability) (adapted : w.Adapted)
    (grid : Placed w.tagged) :
    Records (Option.map Placed.untag) (placeOnce w.tagged opts layout adapted grid)
      (placeOnce w opts layout adapted grid.untag) := by
  unfold placeOnce
  split
  · refine Proc.Erases.andThen (records_attempt layout adapted grid.drawn.evaluated none false)
      fun auto => ?_
    obtain ⟨adopted, fatal, diagnostics, reason, placed⟩ := auto
    refine Proc.Erases.andThen (records_push _) fun _ => ?_
    dsimp only
    split
    · exact Proc.erases_done (f := Option.map Placed.untag) _
    · match adopted, placed with
      | true, some (code, evaluated, parity) =>
        exact Proc.erases_done (f := Option.map Placed.untag) _
      | true, none => exact Proc.erases_done (f := Option.map Placed.untag) _
      | false, none => exact Proc.erases_done (f := Option.map Placed.untag) _
      | false, some _ => exact Proc.erases_done (f := Option.map Placed.untag) _
  · exact Proc.erases_done (f := Option.map Placed.untag) _

theorem records_climbLadder (layout : w.Layoutability) (adapted : w.Adapted) (widths : w.Widths)
    (spacings : List (Option Rat)) (placed : Placed w.tagged) :
    Records (Option.map Placed.untag) (climbLadder w.tagged opts layout adapted widths spacings
      placed) (climbLadder w opts layout adapted widths spacings placed.untag) := by
  induction spacings generalizing placed with
  | nil => exact Proc.erases_done (f := Option.map Placed.untag) _
  | cons spacingMm rest ih =>
    unfold climbLadder
    refine Proc.Erases.andThen (records_throwIfAborted opts _) fun _ => ?_
    refine Proc.Erases.andThen (records_attempt layout adapted placed.drawn.evaluated spacingMm
      false) fun auto => ?_
    obtain ⟨adopted, fatal, diagnostics, reason, drawn⟩ := auto
    refine Proc.Erases.andThen (records_push _) fun _ => ?_
    dsimp only
    split
    · exact Proc.erases_done (f := Option.map Placed.untag) _
    · match adopted, drawn with
      | true, some (code, evaluated, parity) =>
        refine Proc.Erases.andThen (records_applyQualityRoute opts evaluated widths)
          fun attempt => ?_
        dsimp only [QualityRouteOutcome.untag]
        split
        · exact Proc.erases_done (f := Option.map Placed.untag) _
        · split
          · exact Proc.erases_done (f := Option.map Placed.untag) _
          · exact Proc.Erases.andThen (records_push _) fun _ => ih _
      | true, none => exact Proc.erases_done (f := Option.map Placed.untag) _
      | false, none => exact Proc.erases_done (f := Option.map Placed.untag) _
      | false, some _ => exact Proc.erases_done (f := Option.map Placed.untag) _

theorem records_finalRoute (widths : w.Widths) (placed : Placed w.tagged) :
    Records QualityRouteOutcome.untag (finalRoute w.tagged opts widths placed)
      (finalRoute w opts widths placed.untag) := by
  obtain ⟨drawn, route, adopted, reason⟩ := placed
  unfold finalRoute Placed.untag
  cases route with
  | none => exact records_applyQualityRoute opts drawn.evaluated widths
  | some route => exact Proc.erases_done (f := QualityRouteOutcome.untag) route

theorem records_finish (widths : w.Widths) (placed : Placed w.tagged) :
    Records LayoutResult.untag (finish w.tagged opts widths placed)
      (finish w opts widths placed.untag) := by
  refine Proc.Erases.andThen (records_finalRoute opts widths placed) fun route => ?_
  refine Proc.Erases.andThen (records_push _) fun _ => ?_
  refine Proc.Erases.andThen (records_push _) fun _ => ?_
  refine Proc.Erases.andThen (f := id) (records_lift fun _ => rfl) fun gerbers => ?_
  refine Proc.Erases.andThen (records_assemble route.routedBoard) fun assembled => ?_
  refine Proc.Erases.andThen (records_push _) fun _ => ?_
  exact Proc.Erases.andThen records_reported fun diagnostics =>
    Proc.erases_done (f := LayoutResult.untag) _

theorem records_placeAndRoute (layout : w.Layoutability) (adapted : w.Adapted)
    (drawn : Drawn w.tagged) :
    Records LayoutResult.untag (placeAndRoute w.tagged opts layout adapted drawn)
      (placeAndRoute w opts layout adapted drawn.untag) := by
  refine Proc.Erases.andThen (records_placeOnce opts layout adapted (onGrid w.tagged opts drawn))
    fun placed => ?_
  match placed with
  | none => exact records_failed opts
  | some placed =>
    refine Proc.Erases.andThen (records_push _) fun _ => ?_
    refine Proc.Erases.andThen (records_climbLadder opts layout adapted _ _ placed) fun placed => ?_
    match placed with
    | none => exact records_failed opts
    | some placed => exact records_finish opts _ placed

theorem records_drawGrid (layout : w.Layoutability) :
    Records (fun r => (r.1, r.2.untag)) (drawGrid w.tagged layout) (drawGrid w layout) := by
  refine Proc.Erases.andThen (records_push _) fun _ => ?_
  refine Proc.Erases.andThen (f := Prod.fst) (records_lift fun _ => rfl) fun evaluated => ?_
  refine Proc.Erases.andThen (records_push _) fun _ => ?_
  refine Proc.Erases.andThen (records_push _) fun _ => ?_
  exact Proc.Erases.andThen (records_rescueOverlaps layout _ _) fun drawn =>
    Proc.erases_done (f := fun r : w.Adapted × Drawn w.tagged => (r.1, r.2.untag)) _

/-- The pipeline is the recorded one without its record. -/
theorem records_layoutCircuit :
    Records LayoutResult.untag (layoutCircuit w.tagged opts) (layoutCircuit w opts) := by
  refine Proc.Erases.andThen (records_push _) fun _ => ?_
  refine Proc.Erases.andThen (f := id) (records_lift fun _ => rfl) fun padCount => ?_
  refine Proc.Erases.andThen (records_push _) fun _ => ?_
  dsimp only [id]
  split
  · exact records_failed opts
  · refine Proc.Erases.andThen (records_drawGrid _) fun drawn => ?_
    refine Proc.Erases.andThen records_reported fun diagnostics => ?_
    dsimp only [id]
    change Proc.Erases _ _
      (if (w.parityOk drawn.2.parity && !diagnostics.any LayoutNote.isError) = true then _ else _)
      (if (w.parityOk drawn.2.parity && !diagnostics.any LayoutNote.isError) = true then _ else _)
    by_cases h : (w.parityOk drawn.2.parity && !diagnostics.any LayoutNote.isError) = true
    · rw [if_pos h, if_pos h]
      exact records_placeAndRoute opts _ _ drawn.2
    · rw [if_neg h, if_neg h]
      exact Proc.erases_done (f := LayoutResult.untag) _

end CircuitForge.Layouts
