import Toolpath.Geometry.Error
import Toolpath.Geometry.Tolerance

/-!
# Arcs

An arm moves along an arc through three points, while a program names only the two ends and a
radius. This module finds the third point, and the centre that goes with it.

The chord's middle and a normal in the XY plane span the arc. Clockwise turns the chord a quarter to
the left and counter-clockwise to the right, so the arc bulges to that side. With `c` half the chord
and `a` the distance from the middle to the centre, the arc reaches `r - a` beyond the middle. That
difference is written `c * (c / (r + a))`, and `a` in factors, so that a large radius neither
cancels nor overflows. A negative radius asks for the longer arc, which reaches `r + a`.

The normal is taken in the XY plane only: an arc lies level, and ends at different heights give a
slanted chord under a level normal.
-/

namespace Toolpath

/-- Which way an arc turns, seen from above. -/
inductive RotationSense where
  | clockwise
  | counterClockwise
deriving Repr, DecidableEq

/-- The two letters for a sense. -/
def RotationSense.text : RotationSense → String
  | clockwise => "CW"
  | counterClockwise => "CCW"

namespace Arc

open Scalar

variable {α : Type} [Scalar α]

/-- What the via point and the centre have in common. -/
structure Frame (α : Type) where
  midpoint : Point α
  normal : Point α
  halfChord : α
  /-- The distance from the midpoint to the centre. -/
  apothem : α

/-- The chord turned a quarter in the XY plane, to the side on which the arc lies. -/
def sideways (chord : Point α) : RotationSense → Point α
  | .clockwise => ⟨-chord.y, chord.x, 0.0⟩
  | .counterClockwise => ⟨chord.y, -chord.x, 0.0⟩

/-- The frame of an arc. The ends are judged before the chord, and the chord before the radius. -/
def frame (start target : Point α) (radius : α) (sense : RotationSense) :
    Except (GeometryError α) (Frame α) :=
  if !start.isFinite || !target.isFinite then .error (.degenerate .nonFiniteEnds)
  else
    let midpoint := (start + target) / (2.0 : α)
    let chord := target - start
    let normal := sideways chord sense
    let length := normal.norm
    if !le Tolerance.degenerateChord length then .error (.degenerate (.flatChord start target))
    else
      let halfChord := chord.norm / 2.0
      if !Scalar.isFinite radius || lt (abs radius) halfChord then
        .error (.invalidArcRadius radius halfChord)
      else
        let r := abs radius
        let k := halfChord / r
        let apothem := r * sqrt (atLeastZero ((1.0 - k) * (1.0 + k)))
        .ok ⟨midpoint, normal / length, halfChord, apothem⟩

/-- A point found, which has to be finite. -/
def finite (what : ArcPoint) (p : Point α) : Except (GeometryError α) (Point α) :=
  if p.isFinite then .ok p else .error (.degenerate (.nonFinite what p))

/-- The sagitta: how far beyond the midpoint an arc reaches. -/
def Frame.sagitta (f : Frame α) (radius : α) : α :=
  let r := abs radius
  if le 0.0 radius then f.halfChord * (f.halfChord / (r + f.apothem)) else r + f.apothem

/-- The point halfway along an arc. -/
def via (start target : Point α) (radius : α) (sense : RotationSense) :
    Except (GeometryError α) (Point α) := do
  let f ← frame start target radius sense
  finite .via (f.midpoint + f.normal * f.sagitta radius)

/-- The centre of an arc: behind the midpoint for the shorter arc, before it for the longer. -/
def center (start target : Point α) (radius : α) (sense : RotationSense) :
    Except (GeometryError α) (Point α) := do
  let f ← frame start target radius sense
  let side : α := if le 0.0 radius then -1.0 else 1.0
  finite .center (f.midpoint + f.normal * (side * f.apothem))

end Arc

end Toolpath
