import Toolpath.Scalar

/-!
# Tolerances

Every case that the geometry tells apart by a threshold (no rotation, half a turn, gimbal lock, a
chord without length) uses one of these absolute bounds.
-/

namespace Toolpath.Tolerance

variable {α : Type} [Scalar α]

/-- A rotation whose quaternion has a shorter vector part is none. -/
def identity : α := 1e-9

/-- A rotation whose cosine is within this of minus one counts as half a turn. -/
def halfTurn : α := 1e-7

/-- A sine of the second Euler angle within this of one is gimbal lock. -/
def gimbalLock : α := 1e-9

/-- The same for the roll, pitch and yaw convention, which is wider. -/
def pitchLock : α := 1e-6

/-- How far a given matrix may be from orthonormal, and its last row from the fixed one. -/
def orthonormal : α := 1e-6

/-- A chord whose shadow on the XY plane is shorter has no normal there. -/
def degenerateChord : α := 1e-9

/-- Below this angle the ratio of half-angle sine to angle is taken from its series. -/
def rotationVector : α := 1e-6

/-- A quaternion whose squared norm is below this has no direction. -/
def quaternionNorm : α := 1e-10

end Toolpath.Tolerance
