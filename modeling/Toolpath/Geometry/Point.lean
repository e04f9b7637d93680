import Toolpath.Scalar
import Toolpath.Decimal.Layout

/-!
# Points

A point of space, in millimetres, or the vector between two points. The operations work entry by
entry, and every sum is taken from left to right, which on machine numbers is part of its meaning.
-/

namespace Toolpath

/-- A point or a vector. -/
@[ext]
structure Point (α : Type) where
  x : α
  y : α
  z : α
deriving Repr, DecidableEq, Inhabited

namespace Point

open Scalar

variable {α : Type} [Scalar α]

/-- The origin. -/
def zero : Point α := ⟨0.0, 0.0, 0.0⟩

instance : Add (Point α) := ⟨fun p q => ⟨p.x + q.x, p.y + q.y, p.z + q.z⟩⟩
instance : Sub (Point α) := ⟨fun p q => ⟨p.x - q.x, p.y - q.y, p.z - q.z⟩⟩
instance : Neg (Point α) := ⟨fun p => ⟨-p.x, -p.y, -p.z⟩⟩
instance : HMul (Point α) α (Point α) := ⟨fun p s => ⟨p.x * s, p.y * s, p.z * s⟩⟩
instance : HDiv (Point α) α (Point α) := ⟨fun p s => ⟨p.x / s, p.y / s, p.z / s⟩⟩

/-- The scalar product. -/
def dot (p q : Point α) : α := p.x * q.x + p.y * q.y + p.z * q.z

/-- The vector product. -/
def cross (p q : Point α) : Point α where
  x := p.y * q.z - p.z * q.y
  y := p.z * q.x - p.x * q.z
  z := p.x * q.y - p.y * q.x

/-- The length of a vector, or the distance of a point from the origin. -/
def norm (p : Point α) : α := sqrt (p.x * p.x + p.y * p.y + p.z * p.z)

/-- The length of a vector's shadow on the XY plane. -/
def normXY (p : Point α) : α := hypot p.x p.y

/-- The distance of two points. -/
def distance (p q : Point α) : α := (p - q).norm

/-- All three coordinates are finite. -/
def isFinite (p : Point α) : Bool :=
  Scalar.isFinite p.x && Scalar.isFinite p.y && Scalar.isFinite p.z

/-- The same point, coordinate by coordinate as numbers. -/
def same (p q : Point α) : Bool := eq p.x q.x && eq p.y q.y && eq p.z q.z

/-- The three coordinates in order. -/
def toList (p : Point α) : List α := [p.x, p.y, p.z]

/-! ## Text -/

/-- A point as messages and reports show it, to a thousandth. -/
def text (p : Point Float) : String :=
  "(" ++ ", ".intercalate (p.toList.map (Decimal.fixed 3)) ++ ")"

end Point

end Toolpath
