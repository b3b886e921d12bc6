/-
The drawing: `UiJson` of `types/circuit.ts`, and the quarter turns of
`geometry/rotation.ts`.

A coordinate is an exact number: sums and products of coordinates carry no rounding, as
on the lattice of integers the editor draws on.
-/
import Mathlib.Algebra.Order.Ring.Rat
import CircuitForge.Editor.Nets

namespace CircuitForge

open Js

/-- `Point`. -/
@[ext]
structure XY where
  x : Rat
  y : Rat
  deriving DecidableEq

/-- `RotationString`. -/
inductive Turn where
  | deg0 | deg90 | deg180 | deg270
  deriving DecidableEq

/-- The axis of `mirror`. -/
inductive Axis where
  | x | y
  deriving DecidableEq

structure Position extends XY where
  rotation : Option Turn := none
  mirror : Option Axis := none
  deriving DecidableEq

/-- One drawn connection.  An end that is `null` or not recorded is `none`. -/
structure Wire where
  id : Option Text := none
  netId : Text
  points : List XY
  fromRef : Option PinRef := none
  toRef : Option PinRef := none
  deriving DecidableEq

/-- `UiJson`.  Without `wires` nobody owns the drawing yet. -/
structure UiJson where
  positions : Map Text Position := []
  wires : Option (List Wire) := none
  deriving DecidableEq

/-- `Side`, in the order of `SIDE_ORDER`. -/
inductive Side where
  | right | bottom | left | top
  deriving DecidableEq

/-- `rotatePoint`: clockwise on a screen whose `y` runs down. -/
def rotatePoint {K : Type} [Neg K] : Turn → K × K → K × K
  | .deg0, (x, y) => (x, y)
  | .deg90, (x, y) => (-y, x)
  | .deg180, (x, y) => (-x, -y)
  | .deg270, (x, y) => (y, -x)

/-- One quarter turn further in `SIDE_ORDER`. -/
def Side.next : Side → Side
  | .right => .bottom
  | .bottom => .left
  | .left => .top
  | .top => .right

/-- `rotateSide`. -/
def rotateSide : Turn → Side → Side
  | .deg0, side => side
  | .deg90, side => side.next
  | .deg180, side => side.next.next
  | .deg270, side => side.next.next.next

/-- `mirrorPoint`. -/
def mirrorPoint {K : Type} [Neg K] : Option Axis → K × K → K × K
  | some .x, (x, y) => (-x, y)
  | some .y, (x, y) => (x, -y)
  | none, p => p

/-- `mirrorSide`. -/
def mirrorSide : Option Axis → Side → Side
  | some .x, .left => .right
  | some .x, .right => .left
  | some .y, .top => .bottom
  | some .y, .bottom => .top
  | _, side => side

end CircuitForge
