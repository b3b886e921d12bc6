/-
What becomes of a cancellation.

A check before a placement rung ends the layout; a check before a routing margin is inside the `try`
of `applyQualityRoute`, whose handler takes the abort for a fault of the tools.
-/
import CircuitForge.Pcb.Layout

namespace CircuitForge.Layouts

open Js Effects

variable {α β : Type} {w : Workshop} {opts : LayoutOptions}

/-! ## Stages that do not abort -/

/-- Neither an answer nor a fault of the tools is an abort. -/
def NotAborted (r : Except Thrown α) : Prop := r ≠ .error .aborted

theorem notAborted_ok (a : α) : NotAborted (.ok a : Except Thrown α) := nofun

theorem notAborted_error {e : Thrown} (h : NotAborted (.error e : Except Thrown α)) :
    NotAborted (.error e : Except Thrown β) := by
  intro he
  rw [Except.error.inj he] at h
  exact h rfl

variable {p : Check → Prop}

/-- `m` makes checks of one kind only, and does not throw the abort. -/
def Steady (p : Check → Prop) (m : Pipeline w α) : Prop := m.Only p NotAborted

theorem Steady.andThen {m : Pipeline w α} {f : α → Pipeline w β} (h : Steady p m)
    (hnext : ∀ a, Steady p (f a)) : Steady p (m >>= f) :=
  Proc.Only.andThen h (fun _ => notAborted_error) fun a _ => hnext a

theorem Steady.adds {m : Pipeline w α} (h : Steady p m) :
    m.Adds fun new r => (∀ c ∈ new, p c) ∧ NotAborted r := h

/-- What makes no check adds nothing to the log. -/
theorem Steady.silent {m : Pipeline w α} (h : Steady (fun _ => False) m) :
    m.Adds fun new r => new = [] ∧ NotAborted r :=
  Proc.Only.addsNothing h

theorem Steady.catching {m : Pipeline w α} {handler : Thrown → Pipeline w α} (h : Steady p m)
    (hhandler : ∀ e, Steady p (handler e)) : Steady p (Proc.catching m handler) :=
  Proc.Only.catching h (fun _ ha => ha) fun e _ => hhandler e

theorem steady_done (a : α) : Steady p (Proc.done a : Pipeline w α) :=
  Proc.only_done (notAborted_ok a)

theorem steady_outside (f : w.World → Except Text α × w.World) : Steady p (outside f) := by
  refine Proc.only_call fun d => ?_
  cases h : (f d.world).1 with
  | ok a => exact notAborted_ok a
  | error text => nofun

theorem push_adds (notes : List LayoutNote) :
    (push notes : Pipeline w Unit).Adds fun new r => new = [] ∧ r = .ok () :=
  Proc.adds_modify ⟨rfl, rfl⟩

theorem steady_push (notes : List LayoutNote) : Steady p (push notes : Pipeline w Unit) :=
  Proc.only_modify (notAborted_ok ())

theorem steady_reported : Steady p (reported : Pipeline w (List LayoutNote)) :=
  Proc.only_call fun d => notAborted_ok d.diagnostics

theorem steady_judge (board : w.Board) : Steady p (judge w board) := by
  refine Steady.catching ?_ fun e => steady_done _
  refine (steady_outside _).andThen fun assembled => ?_
  exact (steady_outside _).andThen fun clean => steady_done _

theorem steady_trimAccepted (routed : w.Board) (clearances : List Rat) :
    Steady p (trimAccepted w routed clearances) := by
  induction clearances with
  | nil => exact steady_done _
  | cons clearanceMm rest ih =>
    unfold trimAccepted
    cases w.shrinkBoardToContent routed clearanceMm with
    | none => exact steady_done _
    | some trimmed =>
      refine (steady_judge trimmed).andThen fun verdict => ?_
      match verdict with
      | .ok true => exact steady_done _
      | .ok false => exact ih
      | .error why => exact steady_done _

theorem steady_routeMargin (evaluated : w.Board) (widths : w.Widths) (marginMm : Rat) :
    Steady p (routeMargin w opts evaluated widths marginMm) := by
  unfold routeMargin
  refine (steady_outside _).andThen fun dsn => (steady_outside _).andThen fun ses => ?_
  split
  · refine (steady_outside _).andThen fun routed => (steady_outside _).andThen fun assembled => ?_
    refine (steady_outside _).andThen fun clean => ?_
    split
    · exact (steady_trimAccepted _ _).andThen fun _ => steady_done _
    · exact steady_done _
  · split
    · exact (steady_outside _).andThen fun routed => steady_done _
    · exact steady_done _

theorem steady_marginOutcome (evaluated : w.Board) (best : MarginRoute w) :
    Steady p (marginOutcome w opts evaluated best) := by
  unfold marginOutcome
  split
  · exact (steady_push _).andThen fun _ => steady_done _
  · exact (steady_push _).andThen fun _ => (steady_push _).andThen fun _ => steady_done _

theorem steady_failed : Steady p (failed w opts) :=
  steady_reported.andThen fun _ => steady_done _

theorem steady_rescueOverlaps (layout : w.Layoutability) (adapted : w.Adapted) (drawn : Drawn w) :
    Steady p (rescueOverlaps w layout adapted drawn) := by
  refine steady_reported.andThen fun notes => ?_
  split
  · refine (steady_outside _).andThen fun rescue => (steady_push _).andThen fun _ => ?_
    split
    · exact Steady.andThen (Proc.only_modify (notAborted_ok ())) fun _ => steady_done _
    · exact steady_done _
  · exact steady_done _

theorem steady_drawGrid (layout : w.Layoutability) : Steady p (drawGrid w layout) := by
  refine (steady_push _).andThen fun _ => (steady_outside _).andThen fun evaluated => ?_
  refine (steady_push _).andThen fun _ => (steady_push _).andThen fun _ => ?_
  exact (steady_rescueOverlaps _ _ _).andThen fun drawn => steady_done _

theorem steady_placeOnce (layout : w.Layoutability) (adapted : w.Adapted) (grid : Placed w) :
    Steady p (placeOnce w opts layout adapted grid) := by
  unfold placeOnce
  split
  · refine (steady_outside _).andThen fun auto => (steady_push _).andThen fun _ => ?_
    split
    · exact steady_done _
    · exact steady_done _
  · exact steady_done _

/-! ## Checks before a margin -/

def Check.IsMargin (c : Check) : Prop := ∃ answer, c = .margin answer

/-- A check answers no, or is not made, and the layout goes on; or it answers yes. -/
theorem throwIfAborted_adds (place : Bool → Check) :
    (throwIfAborted w opts place).Adds fun new r =>
      ((new = [] ∨ new = [place false]) ∧ NotAborted r) ∨
        (new = [place true] ∧ r = .error .aborted) := by
  unfold throwIfAborted
  split
  · refine Proc.Adds.andThen (steady_outside w.isAborted).silent
      (fun new e h => Or.inl ⟨Or.inl h.1, notAborted_error h.2⟩) fun new aborted h => ?_
    obtain rfl := h.1
    have hnote : (Proc.note (place aborted) : Pipeline w Unit).Adds
        fun new r => new = [place aborted] ∧ r = .ok () := Proc.adds_note ⟨rfl, rfl⟩
    refine hnote.andThen (fun _ e h => nomatch h.2) fun new _ h => ?_
    obtain rfl := h.1
    cases aborted with
    | true => exact Proc.adds_throw (Or.inr ⟨rfl, rfl⟩)
    | false => exact Proc.adds_done (Or.inl ⟨Or.inr rfl, notAborted_ok ()⟩)
  · exact Proc.adds_done (Or.inl ⟨Or.inl rfl, notAborted_ok ()⟩)

/-- In the loop over the margins an observed abort is thrown. -/
def MarginAborts (new : List Check) (r : Except Thrown α) : Prop :=
  (∀ c ∈ new, c.IsMargin) ∧ (.margin true ∈ new → r = .error .aborted)

theorem marginAborts_append {new more : List Check} {r : Except Thrown α}
    (hnew : ∀ c ∈ new, c = .margin false) (hmore : MarginAborts more r) :
    MarginAborts (new ++ more) r := by
  refine ⟨fun c hc => ?_, fun htrue => ?_⟩
  · rcases List.mem_append.mp hc with hc | hc
    · exact ⟨false, hnew c hc⟩
    · exact hmore.1 c hc
  · rcases List.mem_append.mp htrue with htrue | htrue
    · exact nomatch hnew _ htrue
    · exact hmore.2 htrue

/-- What makes no check throws no abort of a margin. -/
theorem marginAborts_of_steady {m : Pipeline w α} (h : Steady (fun _ => False) m) :
    m.Adds MarginAborts :=
  h.silent.mono fun _ _ hr => by rw [hr.1]; exact ⟨nofun, nofun⟩

theorem routeMargins_adds (evaluated : w.Board) (widths : w.Widths) (offered : Nat)
    (margins : List Rat) (tried : Nat) :
    (routeMargins w opts evaluated widths offered margins tried).Adds MarginAborts := by
  induction margins generalizing tried with
  | nil => exact marginAborts_of_steady (steady_done _)
  | cons marginMm rest ih =>
    unfold routeMargins
    refine Proc.Adds.andThen (throwIfAborted_adds .margin) (fun new e h => ?_) fun new _ h => ?_
    · rcases h with ⟨rfl | rfl, -⟩ | ⟨rfl, he⟩
      · exact ⟨nofun, nofun⟩
      · exact ⟨fun c hc => ⟨false, List.mem_singleton.mp hc⟩, by simp⟩
      · exact ⟨fun c hc => ⟨true, List.mem_singleton.mp hc⟩, fun _ => by rw [Except.error.inj he]⟩
    · have hnew : ∀ c ∈ new, c = .margin false := by
        rcases h with ⟨rfl | rfl, -⟩ | ⟨-, hr⟩
        · exact nofun
        · exact fun c hc => List.mem_singleton.mp hc
        · exact nomatch hr
      have hattempt : Steady (fun _ => False) (Proc.catching
          (routeMargin w opts evaluated widths marginMm)
          fun e => Proc.throw (.ladder e (tried + 1) offered)) :=
        Steady.catching (steady_routeMargin _ _ _) fun e => Proc.only_throw nofun
      refine Proc.Adds.mono ?_ fun more r hmore => marginAborts_append hnew hmore
      refine hattempt.silent.andThen (fun more e h => ?_) fun more attempt h => ?_
      · rw [h.1]
        exact ⟨nofun, nofun⟩
      · obtain rfl := h.1
        match attempt with
        | some (board, trim) => exact marginAborts_of_steady (steady_done _)
        | none => exact ih (tried + 1)

theorem faultOutcome_adds (evaluated : w.Board) (e : Thrown) :
    (faultOutcome w evaluated e).Adds fun new r =>
      new = [] ∧ ∃ outcome, r = .ok outcome ∧ outcome.toolFailed = true := by
  refine (push_adds _).andThen (fun _ _ h => nomatch h.2) fun new _ h => ?_
  obtain rfl := h.1
  exact Proc.adds_done ⟨rfl, _, rfl, rfl⟩

/-- The quality route always has an outcome; an abort in front of a margin is a failed tool. -/
theorem applyQualityRoute_adds (evaluated : w.Board) (widths : w.Widths) :
    (applyQualityRoute w opts evaluated widths).Adds fun new r =>
      (∀ c ∈ new, c.IsMargin) ∧
        ∃ outcome, r = .ok outcome ∧ (.margin true ∈ new → outcome.toolFailed = true) := by
  unfold applyQualityRoute
  split
  · exact Proc.adds_done ⟨nofun, _, rfl, nofun⟩
  · split
    · refine (push_adds _).andThen (fun _ _ h => nomatch h.2) fun new _ h => ?_
      obtain rfl := h.1
      exact Proc.adds_done ⟨nofun, _, rfl, nofun⟩
    · have hbody : (routeBestMargin w opts evaluated widths >>=
          marginOutcome w opts evaluated).Adds MarginAborts := by
        refine Proc.Adds.andThen (routeMargins_adds _ _ _ _ _) (fun new e h => ?_)
          fun new best h => ?_
        · exact ⟨h.1, fun hc => congrArg Except.error (Except.error.inj (h.2 hc))⟩
        · refine (steady_marginOutcome evaluated best).silent.mono fun more r hr => ?_
          rw [hr.1, List.append_nil]
          exact ⟨h.1, fun hc => nomatch h.2 hc⟩
      refine Proc.Adds.catching hbody (fun new outcome h => ?_) fun new e h => ?_
      · exact ⟨h.1, outcome, rfl, fun hc => nomatch h.2 hc⟩
      · refine (faultOutcome_adds evaluated e).mono fun more r hr => ?_
        obtain ⟨rfl, outcome, rfl, hfailed⟩ := hr
        rw [List.append_nil]
        exact ⟨h.1, outcome, rfl, fun _ => hfailed⟩

/-! ## Checks before a rung -/

/-- The abort is thrown where a rung saw it, and no margin had seen it before. -/
def RungAborts (new : List Check) (r : Except Thrown α) : Prop :=
  (.rung true ∈ new ↔ r = .error .aborted) ∧ (.rung true ∈ new → .margin true ∉ new)

theorem rungAborts_append {new more : List Check} {r : Except Thrown α}
    (hnew : ∀ c ∈ new, c.answer = false) (hmore : RungAborts more r) :
    RungAborts (new ++ more) r := by
  have hmem : ∀ c : Check, c.answer = true → (c ∈ new ++ more ↔ c ∈ more) := by
    intro c hc
    rw [List.mem_append, or_iff_right]
    intro hin
    rw [hnew c hin] at hc
    exact nomatch hc
  unfold RungAborts
  rw [hmem _ rfl, hmem _ rfl]
  exact hmore

theorem rungAborts_of_margins {new : List Check} {r : Except Thrown α}
    (hnew : ∀ c ∈ new, c.IsMargin) (hr : NotAborted r) : RungAborts new r := by
  have hrung : Check.rung true ∉ new := fun h => nomatch hnew _ h
  exact ⟨⟨fun h => absurd h hrung, fun h => absurd h hr⟩, fun h => absurd h hrung⟩

theorem rungAborts_error {new : List Check} {e : Thrown}
    (h : RungAborts new (.error e : Except Thrown α)) :
    RungAborts new (.error e : Except Thrown β) := by
  refine ⟨h.1.trans ?_, h.2⟩
  rw [Except.error.injEq, Except.error.injEq]

theorem rungAborts_of_steady {m : Pipeline w α} (h : Steady Check.IsMargin m) :
    m.Adds RungAborts :=
  h.adds.mono fun _ _ hr => rungAborts_of_margins hr.1 hr.2

/-- A stage that makes no check in front of one that throws what its rungs see. -/
theorem Steady.before {m : Pipeline w α} {f : α → Pipeline w β} (h : Steady (fun _ => False) m)
    (hnext : ∀ a, (f a).Adds RungAborts) : (m >>= f).Adds RungAborts := by
  refine h.silent.andThen (fun new e hr => ?_) fun new a hr => ?_
  · rw [hr.1]
    exact rungAborts_of_margins nofun (notAborted_error hr.2)
  · obtain rfl := hr.1
    exact hnext a

/-- Behind the rungs only margins are checked. -/
theorem rungAborts_andThen {m : Pipeline w α} {f : α → Pipeline w β} (h : m.Adds RungAborts)
    (hnext : ∀ a, Steady Check.IsMargin (f a)) : (m >>= f).Adds RungAborts := by
  refine h.andThen (fun new e => rungAborts_error) fun new a hr => ?_
  refine (hnext a).adds.mono fun more r hmore => ?_
  have hnew : Check.rung true ∉ new := fun hc => nomatch hr.1.mp hc
  have hrung : Check.rung true ∉ new ++ more := by
    rw [List.mem_append, not_or]
    exact ⟨hnew, fun hc => nomatch hmore.1 _ hc⟩
  exact ⟨⟨fun hc => absurd hc hrung, fun hc => absurd hc hmore.2⟩, fun hc => absurd hc hrung⟩

theorem climbLadder_adds (layout : w.Layoutability) (adapted : w.Adapted) (widths : w.Widths)
    (spacings : List (Option Rat)) (placed : Placed w) :
    (climbLadder w opts layout adapted widths spacings placed).Adds RungAborts := by
  induction spacings generalizing placed with
  | nil => exact rungAborts_of_steady (steady_done _)
  | cons spacingMm rest ih =>
    unfold climbLadder
    refine (throwIfAborted_adds .rung).andThen (fun new e h => ?_) fun new _ h => ?_
    · rcases h with ⟨hnew, hr⟩ | ⟨rfl, hr⟩
      · have hcalm : Check.rung true ∉ new := by rcases hnew with rfl | rfl <;> simp
        exact ⟨⟨fun hc => absurd hc hcalm, fun he => absurd he (notAborted_error hr)⟩,
          fun hc => absurd hc hcalm⟩
      · rw [Except.error.inj hr]
        exact ⟨by simp, by simp⟩
    · have hcalm : ∀ c ∈ new, c.answer = false := by
        rcases h with ⟨rfl | rfl, -⟩ | ⟨-, hr⟩
        · exact nofun
        · exact fun c hc => by rw [List.mem_singleton.mp hc]; rfl
        · exact nomatch hr
      refine Proc.Adds.mono ?_ fun more r hmore => rungAborts_append hcalm hmore
      refine (steady_outside _).before fun auto => (steady_push _).before fun _ => ?_
      split
      · exact rungAborts_of_steady (steady_done _)
      · split
        · refine (applyQualityRoute_adds _ _).andThen (fun _ _ h => ?_) fun new attempt h => ?_
          · obtain ⟨-, _, hr, -⟩ := h
            exact nomatch hr
          · obtain ⟨hmargins, outcome, hr, hfailed⟩ := h
            obtain rfl := Except.ok.inj hr
            have hstop : ∀ placed : Placed w, (Proc.done (some placed) : Pipeline w _).Adds
                fun more r => RungAborts (new ++ more) r := fun placed =>
              Proc.adds_done (by
                rw [List.append_nil]
                exact rungAborts_of_margins hmargins (notAborted_ok _))
            split
            · exact hstop _
            · split
              · exact hstop _
              · -- The next rung is tried only where no margin has seen the abort.
                rename_i hgoesOn
                have hcalm : ∀ c ∈ new, c.answer = false := by
                  intro c hc
                  obtain ⟨answer, rfl⟩ := hmargins c hc
                  cases answer with
                  | false => rfl
                  | true => exact absurd (hfailed hc) hgoesOn
                refine Proc.Adds.mono ?_ fun more r hmore => rungAborts_append hcalm hmore
                exact (steady_push _).before fun _ => ih _
        · exact rungAborts_of_steady (steady_done _)

/-- The quality route is steady: what its margins see is not thrown. -/
theorem steady_applyQualityRoute (evaluated : w.Board) (widths : w.Widths) :
    Steady Check.IsMargin (applyQualityRoute w opts evaluated widths) := by
  unfold Steady Proc.Only
  refine (applyQualityRoute_adds evaluated widths).mono fun new r h => ⟨h.1, ?_⟩
  obtain ⟨-, outcome, rfl, -⟩ := h
  exact notAborted_ok outcome

theorem steady_finish (widths : w.Widths) (placed : Placed w) :
    Steady Check.IsMargin (finish w opts widths placed) := by
  have hroute : Steady Check.IsMargin (finalRoute w opts widths placed) := by
    unfold finalRoute
    split
    · exact steady_done _
    · exact steady_applyQualityRoute _ _
  refine hroute.andThen fun route => ?_
  refine (steady_push _).andThen fun _ => (steady_push _).andThen fun _ => ?_
  refine (steady_outside _).andThen fun gerbers => (steady_outside _).andThen fun assembled => ?_
  refine (steady_push _).andThen fun _ => steady_reported.andThen fun diagnostics => ?_
  exact steady_done _

theorem placeAndRoute_adds (layout : w.Layoutability) (adapted : w.Adapted) (drawn : Drawn w) :
    (placeAndRoute w opts layout adapted drawn).Adds RungAborts := by
  refine (steady_placeOnce _ _ _).before fun placed => ?_
  match placed with
  | none => exact rungAborts_of_steady steady_failed
  | some placed =>
    refine (steady_push _).before fun _ => ?_
    refine rungAborts_andThen (climbLadder_adds _ _ _ _ _) fun placed => ?_
    match placed with
    | none => exact steady_failed
    | some placed => exact steady_finish _ _

theorem layoutCircuit_adds : (layoutCircuit w opts).Adds RungAborts := by
  refine (steady_push _).before fun _ => (steady_outside _).before fun padCount => ?_
  refine (steady_push _).before fun _ => ?_
  split
  · exact rungAborts_of_steady steady_failed
  · refine (steady_drawGrid _).before fun grid => steady_reported.before fun diagnostics => ?_
    split
    · exact placeAndRoute_adds _ _ _
    · exact rungAborts_of_steady (steady_done _)

/-! ## Cancelled layouts -/

variable (w opts) in
/-- A call of `layoutCircuit`. -/
def runLayout (world : w.World) : Except Thrown (LayoutResult w) × Logged (Desk w) Check :=
  layoutCircuit w opts { state := { world := world, diagnostics := [] }, log := [] }

variable (w opts) in
/-- A layout that saw the cancellation ends by throwing it. -/
def Cancels (world : w.World) : Prop :=
  (∃ check ∈ (runLayout w opts world).2.log, check.answer = true) →
    (runLayout w opts world).1 = .error .aborted

/-- A cancellation is thrown if and only if no check before a routing margin saw it. -/
theorem cancels_iff (w : Workshop) (opts : LayoutOptions) (world : w.World) :
    Cancels w opts world ↔ Check.margin true ∉ (runLayout w opts world).2.log := by
  have hadds : (layoutCircuit w opts).Adds RungAborts := layoutCircuit_adds
  obtain ⟨new, hlog, hthrown, hmargin⟩ :=
    hadds { state := { world := world, diagnostics := [] }, log := [] }
  change (runLayout w opts world).2.log = [] ++ new at hlog
  change _ ↔ (runLayout w opts world).1 = _ at hthrown
  unfold Cancels
  rw [hlog, List.nil_append]
  constructor
  · intro h hmem
    exact hmargin (hthrown.mpr (h ⟨_, hmem, rfl⟩)) hmem
  · rintro hnone ⟨check, hmem, hanswer⟩
    cases check with
    | rung answer =>
      obtain rfl : answer = true := hanswer
      exact hthrown.mp hmem
    | margin answer =>
      obtain rfl : answer = true := hanswer
      exact absurd hmem hnone

/-- Tools that all answer, for a call that was cancelled before it began. -/
def cancelledShop : Workshop where
  World := Unit
  PadCount := Unit
  Layoutability := Unit
  Adapted := Unit
  Board := Unit
  Parity := Unit
  Widths := Unit
  Dsn := Unit
  Ses := Unit
  Pcb := Unit
  Gerbers := Unit
  isAborted := fun _ => (.ok true, ())
  loadPadCountOracle := fun _ => (.ok (), ())
  evaluateTscircuit := fun _ _ => (.ok (), ())
  attemptAutoPlacement := fun _ _ _ _ _ _ => (.ok { adopted := false, diagnostics := [] }, ())
  exportDsn := fun _ _ _ => (.ok (), ())
  freeroute := fun _ _ => (.ok (), ())
  mergeSes := fun _ _ _ _ => (.ok (), ())
  assembleKicadPcb := fun _ _ => (.ok ((), []), ())
  notaryDrc := fun _ _ => (.ok true, ())
  generateGerbers := fun _ _ => (.ok (), ())
  profileNotes := []
  classifyCircuit := fun _ => ((), [], true)
  generateTscircuitCode := fun _ => ((), "<board />".toList, [])
  boardErrors := fun _ => []
  checkConnectivityParity := fun _ _ => ((), [])
  parityOk := fun _ => true
  computeIpcWidths := ((), [])
  enlargeBoard := fun board _ => board
  stripRouting := fun board => board
  fullyUnroutedNets := fun _ _ => 0
  shrinkBoardToContent := fun _ _ => none
  boardSize := fun _ => []
  traces := fun _ => (1, 0)
  verifyPerNetWidths := fun _ _ => []
  reportViaCompliance := fun _ _ => []
  mm := fun _ => []

/-- The first margin sees the cancellation, and the board is delivered with a fault of the tools. -/
theorem cancelled_delivered :
    let run := runLayout cancelledShop
      { quality := true, freeroute := true, isAborted := true } ()
    (∀ world, (cancelledShop.isAborted world).1 = .ok true) ∧ run.2.log = [.margin true] ∧
      (∃ result, run.1 = .ok result ∧ result.ok = true ∧ result.outputs = some ((), ()) ∧
        result.delivery.degradedCause = some .toolFault ∧
        result.diagnostics.map LayoutNote.code = ["PCB035".toList]) ∧
      ¬ Cancels cancelledShop { quality := true, freeroute := true, isAborted := true } () := by
  intro run
  have hlog : run.2.log = [.margin true] := rfl
  refine ⟨fun _ => rfl, hlog, ⟨_, rfl, rfl, rfl, rfl, rfl⟩, fun h => ?_⟩
  exact nomatch h ⟨.margin true, by rw [show (runLayout _ _ _).2.log = _ from hlog]; simp, rfl⟩

end CircuitForge.Layouts
