/-!
# Scalars

The numbers that the geometry computes with. Every point, matrix, pose and arc of this library is
written over an arbitrary `Scalar`, so that one definition serves two readings: over `Float` it is
the program that runs, and over an exact field it is the formula that the program approximates.

A comparison answers a `Bool`, since a number that is not a number compares false with everything
and a decision on it still has to go one way. Nothing here says that a scalar obeys a law: `Float`
does not, and the laws of an exact reading come with that reading.
-/

namespace Toolpath

/-- The arithmetic, comparisons and functions that the geometry uses, and no others. -/
class Scalar (α : Type) extends Add α, Sub α, Mul α, Div α, Neg α, OfScientific α where
  /-- Strictly less. -/
  lt : α → α → Bool
  /-- Less or equal. -/
  le : α → α → Bool
  /-- Equal as numbers: both zeros are equal, and a number that is not a number equals none. -/
  eq : α → α → Bool
  /-- Neither infinite nor undefined. -/
  isFinite : α → Bool
  abs : α → α
  sqrt : α → α
  sin : α → α
  cos : α → α
  /-- The angle of the point whose ordinate comes first. -/
  atan2 : α → α → α
  /-- The length of the hypotenuse over two legs. -/
  hypot : α → α → α
  /-- Half of a straight angle, in radians. -/
  quarterTurn : α
  /-- What one degree measures in radians. -/
  radiansPerDegree : α
  /-- What one radian measures in degrees. -/
  degreesPerRadian : α

namespace Scalar

variable {α : Type} [Scalar α]

/-- An angle given in degrees, in radians. -/
def toRadians (x : α) : α := x * radiansPerDegree

/-- An angle given in radians, in degrees. -/
def toDegrees (x : α) : α := x * degreesPerRadian

/-- A negative argument, and one that is not a number, is raised to zero. -/
def atLeastZero (x : α) : α := if lt (0.0 : α) x then x else 0.0

/-- The nearest number between the two bounds; what is not a number stays as it is. -/
def clamp (low high x : α) : α := if lt x low then low else if lt high x then high else x

/-- The later of two numbers unless the earlier is at least as large, so that an undefined number
never outlives the next one. -/
def larger (x y : α) : α := if le y x then x else y

/-- The largest absolute value of a list, taken from its start; zero for the empty list. -/
def largestAbs : List α → α
  | [] => 0.0
  | x :: rest => rest.foldl (fun best y => larger best (abs y)) (abs x)

end Scalar

/-! ## Machine numbers -/

/-- The hypotenuse over two legs. Legs whose squares would leave the range are brought into it by a
power of two, which is exact, and the result is brought back. An infinite leg wins over an undefined
one. -/
def hypotenuse (x y : Float) : Float :=
  let a := x.abs
  let b := y.abs
  if a.isInf || b.isInf then 1.0 / 0.0
  else
    let top := if b <= a then a else b
    if top > 1e150 then
      let s := 2.409919865102884e-181
      let u := a * s
      let v := b * s
      (u * u + v * v).sqrt / s
    else if top < 1e-150 then
      let s := 4.149515568880993e180
      let u := a * s
      let v := b * s
      (u * u + v * v).sqrt / s
    else (a * a + b * b).sqrt

instance : Scalar Float where
  lt x y := decide (x < y)
  le x y := decide (x ≤ y)
  eq x y := x == y
  isFinite x := x.isFinite
  abs := Float.abs
  sqrt := Float.sqrt
  sin := Float.sin
  cos := Float.cos
  atan2 := Float.atan2
  hypot := hypotenuse
  quarterTurn := 1.5707963267948966
  radiansPerDegree := 3.141592653589793 / 180.0
  degreesPerRadian := 57.2957795130823208767981548141051703

end Toolpath
