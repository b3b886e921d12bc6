/-
The fab profile of an order: `pcb-core/src/fab-profile.ts`.

What a caller sends is untyped.  The resolver judges every field by the limits of the chosen tier,
keeps what it can and writes down what it does not take over.
-/
import CircuitForge.Js.Records
import Mathlib.Data.Rat.Defs
import Mathlib.Algebra.Order.Ring.Rat

namespace CircuitForge.Fab

open Js

/-! ## Untyped values -/

/-- A number of the runtime. -/
inductive JsNumber where
  | finite (q : ℚ)
  | infinite (negative : Bool)
  | nan
  deriving DecidableEq

/-- A value inside an object: a number, or the text it is written out as. -/
inductive Entry where
  | number (n : JsNumber)
  | other (json : Text)
  deriving DecidableEq

/-- A supplied value; `null` and arrays stand as the text they are written out as. -/
inductive Supplied where
  | number (n : JsNumber)
  | boolean (b : Bool)
  | text (s : Text)
  | object (entries : {m : Map Text Entry // m.Keyed})
  | other (json : Text)

/-- `isPositiveFinite`: the number, if it is one. -/
def positiveFinite : JsNumber → Option ℚ
  | .finite q => if 0 < q then some q else none
  | _ => none

def Supplied.positive : Supplied → Option ℚ
  | .number n => positiveFinite n
  | _ => none

def Entry.positive : Entry → Option ℚ
  | .number n => positiveFinite n
  | _ => none

/-- How the runtime writes values out: `String` of a number and `JSON.stringify` of a value. -/
structure Writing where
  number : ℚ → Text
  json : Supplied → Text

def Writing.entry (wr : Writing) : Entry → Text
  | .number n => wr.json (.number n)
  | .other json => json

/-! ## Fields -/

/-- `FLOOR_FIELDS`. -/
inductive FloorField where
  | minTraceWidthMm | minClearanceMm | viaDrillMm | viaAnnularMm
  deriving DecidableEq

/-- `PASSTHROUGH_FIELDS`. -/
inductive PassthroughField where
  | viaClearanceMm | viaClearanceGuardMm | copperOz | deltaTC | placementGridMm
  | placementMarginMm | minSilkWidthMm | minSilkTextHeightMm
  deriving DecidableEq

/-- The fields of `FabProfileInput`. -/
inductive FabField where
  | tier
  | floor (f : FloorField)
  | passthrough (f : PassthroughField)
  | layers | gndPour | perNetMinWidthMm

def floorFields : List FloorField := [.minTraceWidthMm, .minClearanceMm, .viaDrillMm, .viaAnnularMm]

def passthroughFields : List PassthroughField :=
  [.viaClearanceMm, .viaClearanceGuardMm, .copperOz, .deltaTC, .placementGridMm,
    .placementMarginMm, .minSilkWidthMm, .minSilkTextHeightMm]

def FloorField.name : FloorField → Text
  | minTraceWidthMm => "minTraceWidthMm".toList
  | minClearanceMm => "minClearanceMm".toList
  | viaDrillMm => "viaDrillMm".toList
  | viaAnnularMm => "viaAnnularMm".toList

def PassthroughField.name : PassthroughField → Text
  | viaClearanceMm => "viaClearanceMm".toList
  | viaClearanceGuardMm => "viaClearanceGuardMm".toList
  | copperOz => "copperOz".toList
  | deltaTC => "deltaTC".toList
  | placementGridMm => "placementGridMm".toList
  | placementMarginMm => "placementMarginMm".toList
  | minSilkWidthMm => "minSilkWidthMm".toList
  | minSilkTextHeightMm => "minSilkTextHeightMm".toList

/-- `perNetMinWidthMm.${net}`. -/
def perNetName (net : Text) : Text := "perNetMinWidthMm.".toList ++ net

/-- What an adjustment is about: a field, or the entry of a net. -/
inductive Subject where
  | field (f : FabField)
  | net (n : Text)

/-- The name it is written under. -/
def Subject.name : Subject → Text
  | field .tier => "tier".toList
  | field (.floor f) => f.name
  | field (.passthrough f) => f.name
  | field .layers => "layers".toList
  | field .gndPour => "gndPour".toList
  | field .perNetMinWidthMm => "perNetMinWidthMm".toList
  | net n => perNetName n

/-- An entry of `adjustments`, with what it is written about; the source keeps the text. -/
structure Adjustment where
  subject : Subject
  text : Text

/-- `${name}: ${what}`. -/
def noteOn (subject : Subject) (what : Text) : Adjustment where
  subject
  text := subject.name ++ ':' :: ' ' :: what

/-- `FabProfileInput`: what is supplied for a field; nothing for `undefined`. -/
abbrev FabProfileInput := FabField → Option Supplied

inductive LayerCount where
  | one | two | four
  deriving DecidableEq

def LayerCount.count : LayerCount → ℚ
  | one => 1
  | two => 2
  | four => 4

/-- `FabProfile`. -/
@[ext]
structure FabProfile where
  floor : FloorField → ℚ
  passthrough : PassthroughField → Option ℚ
  perNetMinWidthMm : Option {m : Map Text ℚ // m.Keyed} := none
  gndPour : Option Bool
  layers : Option LayerCount := none

/-! ## Tiers -/

/-- `FabTierName`. -/
inductive FabTier where
  | economy | standard | advanced
  deriving DecidableEq

def FabTier.name : FabTier → Text
  | economy => "economy".toList
  | standard => "standard".toList
  | advanced => "advanced".toList

/-- The published limits of a tier. -/
def FabTier.limit : FabTier → FloorField → ℚ
  | economy, .minTraceWidthMm => 2 / 10
  | economy, .minClearanceMm => 2 / 10
  | economy, .viaDrillMm => 3 / 10
  | economy, .viaAnnularMm => 15 / 100
  | standard, .minTraceWidthMm => 127 / 1000
  | standard, .minClearanceMm => 127 / 1000
  | standard, .viaDrillMm => 25 / 100
  | standard, .viaAnnularMm => 13 / 100
  | advanced, .minTraceWidthMm => 889 / 10000
  | advanced, .minClearanceMm => 889 / 10000
  | advanced, .viaDrillMm => 2 / 10
  | advanced, .viaAnnularMm => 1 / 10

/-- What every tier sets besides. -/
def tierDefault : PassthroughField → Option ℚ
  | .copperOz => some 1
  | .deltaTC => some 10
  | .minSilkWidthMm => some (15 / 100)
  | .minSilkTextHeightMm => some (8 / 10)
  | _ => none

/-- `FAB_TIERS`. -/
def fabTiers (tier : FabTier) : FabProfile where
  floor := tier.limit
  passthrough := tierDefault
  gndPour := some true

/-! ## Resolving -/

section

variable (wr : Writing)

/-- The chosen tier, and what is written down about it. -/
def resolveTier : Option Supplied → FabTier × List Adjustment
  | none => (.economy, [])
  | some v =>
    match [FabTier.economy, .standard, .advanced].find? fun tier =>
        match v with
        | .text s => tier.name = s
        | _ => false with
    | some tier => (tier, [])
    | none =>
      (.economy, [{ subject := .field .tier
                    text := "unknown fab tier ".toList ++ wr.json v ++
                      " — using \"economy\"".toList }])

def notPositive (subject : Subject) (json : Text) : Adjustment :=
  noteOn subject ("ignored ".toList ++ json ++ " (not a positive number)".toList)

/-- One of the floor fields. -/
def resolveFloor (tier : FabTier) (f : FloorField) : Option Supplied → ℚ × List Adjustment
  | none => (tier.limit f, [])
  | some v =>
    match v.positive with
    | none => (tier.limit f, [notPositive (.field (.floor f)) (wr.json v)])
    | some q =>
      if q < tier.limit f then
        (tier.limit f, [noteOn (.field (.floor f)) ("raised ".toList ++ wr.number q ++
          " to the ".toList ++ tier.name ++ " fab limit ".toList ++ wr.number (tier.limit f) ++
          " mm".toList)])
      else (q, [])

/-- One of the passthrough fields. -/
def resolvePassthrough (f : PassthroughField) : Option Supplied → Option ℚ × List Adjustment
  | none => (tierDefault f, [])
  | some v =>
    match v.positive with
    | none => (tierDefault f, [notPositive (.field (.passthrough f)) (wr.json v)])
    | some q => (some q, [])

/-- The layer count, what is written down about it, and the count that cannot be built. -/
def resolveLayers : Option Supplied → Option LayerCount × List Adjustment × Option JsNumber
  | none => (none, [], none)
  | some v =>
    let refused := noteOn (.field .layers) ("refused ".toList ++ wr.json v ++
      " — the board toolchain builds 1, 2 or 4 copper layers, and any other count ".toList ++
      "silently produces 2".toList)
    match v with
    | .number n =>
      if n = .finite 1 then (some .one, [], none)
      else if n = .finite 2 then (some .two, [], none)
      else if n = .finite 4 then (some .four, [], none)
      else (none, [refused], some n)
    | _ => (none, [refused], none)

def resolveGndPour : Option Supplied → Option Bool × List Adjustment
  | none => (some true, [])
  | some (.boolean b) => (some b, [])
  | some v =>
    (some true, [noteOn (.field .gndPour)
      ("ignored ".toList ++ wr.json v ++ " (not a boolean)".toList)])

/-- The width that is assigned to a net, and what is written down about it. -/
def resolveWidth (minimum : ℚ) (net : Text) (v : Entry) : Option ℚ × List Adjustment :=
  match v.positive with
  | none => (none, [notPositive (.net net) (wr.entry v)])
  | some w =>
    if w < minimum then
      (some minimum, [noteOn (.net net) ("raised ".toList ++ wr.number w ++
        " to the board minimum ".toList ++ wr.number minimum ++ " mm".toList)])
    else (some w, [])

/-- `kept[net] = w`. -/
def keepWidth (minimum : ℚ) (kept : Map Text ℚ) (e : Text × Entry) : Map Text ℚ :=
  match (resolveWidth wr minimum e.1 e.2).1 with
  | none => kept
  | some w => Record.put kept e.1 w

theorem keyed_keepWidths (minimum : ℚ) (entries : List (Text × Entry)) {kept : Map Text ℚ}
    (h : kept.Keyed) : (entries.foldl (keepWidth wr minimum) kept).Keyed := by
  induction entries generalizing kept with
  | nil => exact h
  | cons e entries ih =>
    refine ih ?_
    unfold keepWidth
    split
    case h_1 => exact h
    case h_2 w _ => exact Record.keyed_put h e.1 w

/-- `kept`. -/
def keptWidths (minimum : ℚ) (entries : List (Text × Entry)) : {m : Map Text ℚ // m.Keyed} :=
  ⟨entries.foldl (keepWidth wr minimum) [], keyed_keepWidths wr minimum entries Map.Keyed.nil⟩

def resolvePerNet (minimum : ℚ) :
    Option Supplied → Option {m : Map Text ℚ // m.Keyed} × List Adjustment
  | none => (none, [])
  | some (.object entries) =>
    let kept := keptWidths wr minimum entries.1
    (if kept.1 = [] then none else some kept,
      entries.1.flatMap fun e => (resolveWidth wr minimum e.1 e.2).2)
  | some _ =>
    (none, [noteOn (.field .perNetMinWidthMm)
      "ignored (expected an object of net name → width)".toList])

/-- `ResolvedFabProfile`. -/
@[ext]
structure ResolvedFabProfile where
  profile : FabProfile
  tier : FabTier
  adjustments : List Adjustment
  unsupportedLayers : Option JsNumber

/-- `resolveFabProfile`. -/
def resolveFabProfile (raw : FabProfileInput) : ResolvedFabProfile :=
  let tier := (resolveTier wr (raw .tier)).1
  let floor := fun f => resolveFloor wr tier f (raw (.floor f))
  let passthrough := fun f => resolvePassthrough wr f (raw (.passthrough f))
  let layers := resolveLayers wr (raw .layers)
  let gndPour := resolveGndPour wr (raw .gndPour)
  let perNet := resolvePerNet wr (floor .minTraceWidthMm).1 (raw .perNetMinWidthMm)
  { profile :=
      { floor := fun f => (floor f).1
        passthrough := fun f => (passthrough f).1
        perNetMinWidthMm := perNet.1
        gndPour := gndPour.1
        layers := layers.1 }
    tier
    adjustments := (resolveTier wr (raw .tier)).2 ++ floorFields.flatMap (fun f => (floor f).2) ++
      passthroughFields.flatMap (fun f => (passthrough f).2) ++ layers.2.1 ++ gndPour.2 ++ perNet.2
    unsupportedLayers := layers.2.2 }

end

end CircuitForge.Fab
