import Toolpath.Geometry.Arc
import Toolpath.Geometry.Pose

/-!
# Motions

What a program asks for is a mode and four axis values; what an arm gets is a command. `plan` is the
way from the one to the other. It is a function of the tool's current pose, and asks no arm.

Axis words move the tool and never turn it: the target of every command is the current pose at the
position that the axes name.
-/

namespace Toolpath

/-! ## Axes -/

/-- The axes that a program sets: three coordinates, and the radius of an arc. -/
inductive Axis where
  | x
  | y
  | z
  | r
deriving Repr, DecidableEq

namespace Axis

/-- All axes in order. -/
def all : List Axis := [x, y, z, r]

/-- The letter of an axis. -/
def letter : Axis → Char
  | x => 'X'
  | y => 'Y'
  | z => 'Z'
  | r => 'R'

/-- The axis of a letter, in either case. -/
def ofLetter? (c : Char) : Option Axis :=
  match c.toUpper with
  | 'X' => some x
  | 'Y' => some y
  | 'Z' => some z
  | 'R' => some r
  | _ => none

end Axis

/-- The values last set for the axes: a target in millimetres and a radius. -/
@[ext]
structure AxisState (α : Type) where
  x : α
  y : α
  z : α
  r : α
deriving Repr, DecidableEq, Inhabited

namespace AxisState

variable {α : Type}

/-- Every axis at zero. -/
def zero [Scalar α] : AxisState α := ⟨0.0, 0.0, 0.0, 0.0⟩

/-- The value of one axis. -/
def get (s : AxisState α) : Axis → α
  | .x => s.x
  | .y => s.y
  | .z => s.z
  | .r => s.r

/-- One axis set to a value. -/
def set (s : AxisState α) (axis : Axis) (value : α) : AxisState α :=
  match axis with
  | .x => { s with x := value }
  | .y => { s with y := value }
  | .z => { s with z := value }
  | .r => { s with r := value }

/-- The coordinates at zero; the radius stays. -/
def home [Scalar α] (s : AxisState α) : AxisState α := { s with x := 0.0, y := 0.0, z := 0.0 }

/-- The position that the axes name. -/
def target (s : AxisState α) : Point α := ⟨s.x, s.y, s.z⟩

/-- The radius of an arc. -/
def radius (s : AxisState α) : α := s.r

/-- The values in the order of the axes. -/
def toList (s : AxisState α) : List α := [s.x, s.y, s.z, s.r]

/-- The axes as reports show them, to a thousandth. -/
def text (s : AxisState Float) : String :=
  " ".intercalate
    (Axis.all.map fun axis => axis.letter.toString ++ "=" ++ Decimal.fixed 3 (s.get axis))

theorem get_set_self (s : AxisState α) (axis : Axis) (value : α) :
    (s.set axis value).get axis = value := by
  cases axis <;> rfl

theorem get_set_of_ne (s : AxisState α) {axis other : Axis} (h : other ≠ axis) (value : α) :
    (s.set axis value).get other = s.get other := by
  cases axis <;> cases other <;> first | rfl | exact absurd rfl h

end AxisState

/-! ## Modes -/

/-- How a line moves the tool. A mode is chosen by each line anew. -/
inductive MotionMode where
  | rapid
  | linear
  | clockwiseArc
  | counterClockwiseArc
deriving Repr, DecidableEq

namespace MotionMode

/-- The number that sends the axes home. -/
def homeCode : Nat := 28

/-- The mode of a motion number. Going home is a rapid motion. -/
def ofCode? : Nat → Option MotionMode
  | 0 => some rapid
  | 1 => some linear
  | 2 => some clockwiseArc
  | 3 => some counterClockwiseArc
  | 28 => some rapid
  | _ => none

/-- Which way an arc mode turns; none for a straight motion. -/
def sense? : MotionMode → Option RotationSense
  | rapid | linear => none
  | clockwiseArc => some .clockwise
  | counterClockwiseArc => some .counterClockwise

/-- The mode draws an arc. -/
def isArc (mode : MotionMode) : Bool := mode.sense?.isSome

/-- The name of a mode. -/
def name : MotionMode → String
  | rapid => "Rapid"
  | linear => "Linear"
  | clockwiseArc => "ClockwiseArc"
  | counterClockwiseArc => "CounterClockwiseArc"

end MotionMode

/-! ## Commands -/

/-- What an arm is told to do. -/
inductive MotionCommand (α : Type) where
  | rapid (target : Pose α)
  | linear (target : Pose α)
  | circular (via target : Pose α)
deriving Repr, DecidableEq

namespace MotionCommand

variable {α : Type}

/-- Where a command ends. -/
def target : MotionCommand α → Pose α
  | rapid target | linear target | circular _ target => target

/-- The pose halfway along an arc. -/
def via? : MotionCommand α → Option (Pose α)
  | rapid _ | linear _ => none
  | circular via _ => some via

/-- A command as reports show it. -/
def text : MotionCommand Float → String
  | rapid target => "MoveRapid " ++ target.text
  | linear target => "MoveLinear " ++ target.text
  | circular via target => "MoveCircular via " ++ via.text ++ " to " ++ target.text

end MotionCommand

/-! ## Planning -/

/-- The arc command of a sense: through the arc's halfway point, with the current turn kept. -/
def planArc {α : Type} [Scalar α] (sense : RotationSense) (current : Pose α) (axes : AxisState α) :
    Except (GeometryError α) (MotionCommand α) := do
  let p ← Arc.via current.position axes.target axes.radius sense
  return .circular (current.withPosition p) (current.withPosition axes.target)

/-- The command of a mode, from the current pose to the position that the axes name. Only an arc can
be refused. -/
def MotionMode.plan {α : Type} [Scalar α] (mode : MotionMode) (current : Pose α)
    (axes : AxisState α) : Except (GeometryError α) (MotionCommand α) :=
  match mode with
  | .rapid => .ok (.rapid (current.withPosition axes.target))
  | .linear => .ok (.linear (current.withPosition axes.target))
  | .clockwiseArc => planArc .clockwise current axes
  | .counterClockwiseArc => planArc .counterClockwise current axes

end Toolpath
