/-
The legend clamp: `silkscreen.ts`.

A board text is searched with patterns that begin with a parenthesis; the extent of a block comes
from a walk that knows string literals.  Arithmetic is exact.  Lengths of four decimals are kept in
ten-thousandths of a millimetre.
-/
import CircuitForge.Js.Anchors
import CircuitForge.Js.Decimal
import CircuitForge.Models.Library

namespace CircuitForge
namespace Legend

open Js

/-! ## Patterns, behind their parenthesis -/

/-- The keywords of `DRAWABLE`. -/
def drawableKeys : List Text :=
  ["fp_text", "gr_text", "fp_line", "fp_rect", "fp_circle", "fp_arc", "fp_poly", "gr_line",
   "gr_rect", "gr_circle", "gr_arc", "gr_poly"].map String.toList

/-- `DRAWABLE`. -/
def isDrawable (s : Text) : Bool :=
  drawableKeys.any fun key => startsWith s key && !(s.drop key.length).head?.any isWord

/-- A pattern that ends with a closing parenthesis and has no other: what it captures of the text in
front of the first one, and the length of the match. -/
def itemAt {β : Type} (parse : Text → Option β) (s : Text) : Option (β × Nat) :=
  if ')' ∈ s then
    let body := s.takeWhile (· != ')')
    (parse body).map fun v => (v, body.length + 1)
  else none

/-- A word, and what follows the blanks behind it. -/
def nextWord (s : Text) : Text × Text :=
  (s.takeWhile (!isSpace ·), trimStart (s.dropWhile (!isSpace ·)))

/-- `"?[FB]\.SilkS"?`. -/
def silkLayers : List Text :=
  ["F.SilkS", "\"F.SilkS", "F.SilkS\"", "\"F.SilkS\"", "B.SilkS", "\"B.SilkS", "B.SilkS\"",
   "\"B.SilkS\""].map String.toList

/-- `layer\s+"?[FB]\.SilkS"?`. -/
def parseSilk (body : Text) : Option Unit :=
  if (nextWord body).1 = "layer".toList ∧ (nextWord body).2 ∈ silkLayers then some () else none

/-- `SILK`. -/
def silkAt : Text → Option (Unit × Nat) := itemAt parseSilk

/-- `[0-9.]`. -/
def isNumberChar (c : Char) : Bool := c.isDigit || c == '.'

/-- `(width|thickness)\s+([0-9.]+)`. -/
def parseStroke (body : Text) : Option (Text × Text) :=
  let (key, n) := nextWord body
  if (key = "width".toList ∨ key = "thickness".toList) ∧ n ≠ [] ∧ n.all isNumberChar then
    some (key, n)
  else none

/-- `\((width|thickness)\s+([0-9.]+)\)`. -/
def strokeAt : Text → Option ((Text × Text) × Nat) := itemAt parseStroke

/-- `size\s+([0-9.]+)\s+([0-9.]+)`. -/
def parseSize (body : Text) : Option (Text × Text) :=
  let (key, axes) := nextWord body
  let (w, h) := nextWord axes
  if key = "size".toList ∧ w ≠ [] ∧ h ≠ [] ∧ w.all isNumberChar ∧ h.all isNumberChar then
    some (w, h)
  else none

/-- `\(size\s+([0-9.]+)\s+([0-9.]+)\)`. -/
def sizeAt : Text → Option ((Text × Text) × Nat) := itemAt parseSize

/-! ## Blocks -/

/-- Where the walk stands: `inString`, and behind a backslash of a string. -/
inductive Lexing where
  | code | literal | escaped
  deriving DecidableEq

def Lexing.next : Lexing → Char → Lexing
  | code, c => if c = '"' then literal else code
  | literal, c => if c = '\\' then escaped else if c = '"' then code else literal
  | escaped, _ => literal

/-- `depth`. -/
def depthAfter (lexing : Lexing) (depth : Nat) (c : Char) : Nat :=
  if lexing = .code ∧ c = '(' then depth + 1
  else if lexing = .code ∧ c = ')' then depth - 1
  else depth

/-- The text up to the parenthesis that closes depth one, and what follows it. -/
def blockFrom : Lexing → Nat → Text → Option (Text × Text)
  | _, _, [] => none
  | lexing, depth, c :: s =>
    if lexing = .code ∧ c = ')' ∧ depth = 1 then some ([c], s)
    else
      (blockFrom (lexing.next c) (depthAfter lexing depth c) s).map fun p => (c :: p.1, p.2)

/-- `blockAt`. -/
def blockAt (s : Text) : Option (Text × Text) := blockFrom .code 0 s

/-! ## Lengths -/

/-- A length in millimetres. -/
def mm (n : Nat) : Rat := n / 10000

/-- `${x}` of a length. -/
def printMm (n : Nat) : Text :=
  if n = 0 then ['0']
  else Exact.layout (Exact.stripZeros (Exact.digits n)) ((Exact.digits n).length - 4)

/-- `Number(s)` of digits and points, when it is a number. -/
def readMm (s : Text) : Option Rat :=
  if decimalRe.accepts s then some (Exact.readUnsigned s) else none

/-- `round4`. -/
def round4 (x : Rat) : Nat := (x * 10000 + 1 / 2).floor.toNat

/-- `SilkLimits`. -/
structure SilkLimits where
  minWidthMm : Nat
  minTextHeightMm : Nat

/-- `TEXT_STROKE_RATIO`. -/
def textStrokeRatio : Nat := 8

/-- `minTextHeightMm` of the clamp. -/
def minTextHeight (limits : SilkLimits) : Nat :=
  max limits.minTextHeightMm (limits.minWidthMm * textStrokeRatio)

/-! ## The clamp -/

/-- `SilkClampResult`. -/
structure SilkClampResult where
  kicadPcb : Text
  widthsClamped : Nat
  heightsClamped : Nat
  thinnestFoundMm : Option Rat
  smallestTextMm : Option Rat

/-- The callback of the stroke widths. -/
def clampStroke (limits : SilkLimits) (whole : Text) (stroke : Text × Text) : Text :=
  match readMm stroke.2 with
  | none => whole
  | some v =>
    if mm limits.minWidthMm ≤ v then whole
    else '(' :: (stroke.1 ++ ' ' :: (printMm limits.minWidthMm ++ [')']))

/-- `${round4(v * (floor / smaller))}`; a vanishing `smaller` makes the scale infinite. -/
def scaledAxis (floor : Nat) (smaller v : Rat) : Text :=
  if smaller = 0 then (if v = 0 then "NaN".toList else "Infinity".toList)
  else printMm (round4 (v * (mm floor / smaller)))

/-- The callback of the character sizes. -/
def clampSize (limits : SilkLimits) (whole : Text) (size : Text × Text) : Text :=
  match readMm size.1, readMm size.2 with
  | some w, some h =>
    let floor := minTextHeight limits
    let smaller := min w h
    if mm floor ≤ smaller then whole
    else
      "(size ".toList ++ scaledAxis floor smaller w ++ ' ' :: (scaledAxis floor smaller h ++ [')'])
  | _, _ => whole

/-- The smaller axis of a size, when both are numbers. -/
def smallerAxis (size : Text × Text) : Option Rat :=
  (readMm size.1).bind fun w => (readMm size.2).map fun h => min w h

/-- One block: the strokes first, then the sizes in what has become of it. -/
def clampBlock (limits : SilkLimits) (block : Text) : SilkClampResult :=
  let strokes := (Anchors.captures '(' strokeAt block).filterMap fun s => readMm s.2
  let text := Anchors.replaceAll '(' strokeAt (clampStroke limits) block
  let sizes := (Anchors.captures '(' sizeAt text).filterMap smallerAxis
  { kicadPcb := Anchors.replaceAll '(' sizeAt (clampSize limits) text
    widthsClamped := strokes.countP (· < mm limits.minWidthMm)
    heightsClamped := sizes.countP (· < mm (minTextHeight limits))
    thinnestFoundMm := strokes.min?
    smallestTextMm := sizes.min? }

/-- What the loop over the matches of `DRAWABLE` makes of the text: characters that stay, and the
blocks it clamps. -/
inductive Piece where
  | other (c : Char)
  | block (text : Text)

/-- The loop.  The first argument counts the characters up to `cursor`. -/
def cutFrom : Nat → Text → List Piece
  | _, [] => []
  | skip + 1, _ :: s => cutFrom skip s
  | 0, c :: s =>
    match if c = '(' ∧ isDrawable s then blockAt (c :: s) else none with
    | none => .other c :: cutFrom 0 s
    | some (block, _) =>
      if Anchors.captures '(' silkAt block = [] then .other c :: cutFrom 0 s
      else .block block :: cutFrom (block.length - 1) s

def Piece.text (limits : SilkLimits) : Piece → Text
  | other c => [c]
  | block b => (clampBlock limits b).kicadPcb

def Piece.clamped? (limits : SilkLimits) : Piece → Option SilkClampResult
  | other _ => none
  | block b => some (clampBlock limits b)

/-- `clampSilkscreen`. -/
def clampSilkscreen (kicadPcb : Text) (limits : SilkLimits) : SilkClampResult :=
  let pieces := cutFrom 0 kicadPcb
  let blocks := pieces.filterMap (Piece.clamped? limits)
  { kicadPcb := pieces.flatMap (Piece.text limits)
    widthsClamped := (blocks.map SilkClampResult.widthsClamped).sum
    heightsClamped := (blocks.map SilkClampResult.heightsClamped).sum
    thinnestFoundMm := (blocks.filterMap SilkClampResult.thinnestFoundMm).min?
    smallestTextMm := (blocks.filterMap SilkClampResult.smallestTextMm).min? }

end Legend
end CircuitForge
