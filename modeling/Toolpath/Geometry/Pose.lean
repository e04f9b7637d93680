import Toolpath.Geometry.Quaternion
import Toolpath.Geometry.Error

/-!
# Poses

A pose is where a tool is and how it is turned: a homogeneous 4×4 matrix, held as its rotation
block, its position and its last row. Poses made here have the last row 0 0 0 1 and a rotation
in the block. A matrix from outside is accepted if it comes close to that (`Pose.ofRows?`), and is
then kept as it is: nothing is mended, so a product carries its small deviations on.

Angles come in two conventions. `ofEuler` turns about X, then the new Y, then the new Z;
`ofRollPitchYaw` turns about Z, then Y, then X. The order is part of what every caller relies on.
At gimbal lock, where two of the three axes fall together, the first angle is taken as zero and the
last one carries the whole turn, and nothing is divided by a cosine near zero.
-/

namespace Toolpath

/-- A position in millimetres and three angles in degrees. Which turns the angles stand for is up to
the convention of the function that takes them. -/
@[ext]
structure EulerPose (α : Type) where
  x : α
  y : α
  z : α
  rx : α
  ry : α
  rz : α
deriving Repr, DecidableEq, Inhabited

namespace EulerPose

variable {α : Type}

/-- The six numbers in order. -/
def toList (e : EulerPose α) : List α := [e.x, e.y, e.z, e.rx, e.ry, e.rz]

/-- The position. -/
def position (e : EulerPose α) : Point α := ⟨e.x, e.y, e.z⟩

/-- The pose at the origin without a turn. -/
def zero [Scalar α] : EulerPose α := ⟨0.0, 0.0, 0.0, 0.0, 0.0, 0.0⟩

/-- Position and angles as reports show them, to a thousandth. -/
def text (e : EulerPose Float) : String :=
  let degrees (x : Float) : String := Decimal.fixed 3 x ++ "°"
  "[" ++ ", ".intercalate
    (e.position.toList.map (Decimal.fixed 3) ++ [e.rx, e.ry, e.rz].map degrees) ++ "]"

end EulerPose

/-- The last row of a homogeneous matrix. -/
@[ext]
structure LastRow (α : Type) where
  x : α
  y : α
  z : α
  w : α
deriving Repr, DecidableEq, Inhabited

/-- The last row of every homogeneous matrix that is exact. -/
def LastRow.fixed {α : Type} [Scalar α] : LastRow α := ⟨0.0, 0.0, 0.0, 1.0⟩

/-- No entry of a last row is further than the tolerance from the exact one. -/
def LastRow.accepted {α : Type} [Scalar α] (row : LastRow α) : Bool :=
  let off (x expected : α) : Bool := Scalar.lt Tolerance.orthonormal (Scalar.abs (x - expected))
  !(off row.x 0.0 || off row.y 0.0 || off row.z 0.0 || off row.w 1.0)

/-- A pose, as the blocks of its homogeneous matrix. -/
@[ext]
structure Pose (α : Type) where
  rotation : Matrix3 α
  position : Point α
  last : LastRow α
deriving Repr, DecidableEq, Inhabited

namespace Pose

open Scalar

variable {α : Type} [Scalar α]

/-- A pose with the exact last row. -/
def ofParts (rotation : Matrix3 α) (position : Point α) : Pose α :=
  ⟨rotation, position, LastRow.fixed⟩

/-- At the origin, without a turn. -/
def identity : Pose α := ofParts Matrix3.identity Point.zero

/-- The same pose with another position. -/
def withPosition (a : Pose α) (p : Point α) : Pose α := { a with position := p }

/-- At a place, without a turn. -/
def displacement (p : Point α) : Pose α := identity.withPosition p

/-- A turn about the X axis, in radians. -/
def rotX (angle : α) : Pose α :=
  let s := sin angle
  let c := cos angle
  ofParts ⟨1.0, 0.0, 0.0, 0.0, c, -s, 0.0, s, c⟩ Point.zero

/-- A turn about the Y axis, in radians. -/
def rotY (angle : α) : Pose α :=
  let s := sin angle
  let c := cos angle
  ofParts ⟨c, 0.0, s, 0.0, 1.0, 0.0, -s, 0.0, c⟩ Point.zero

/-- A turn about the Z axis, in radians. -/
def rotZ (angle : α) : Pose α :=
  let s := sin angle
  let c := cos angle
  ofParts ⟨c, -s, 0.0, s, c, 0.0, 0.0, 0.0, 1.0⟩ Point.zero

/-! ## The matrix as a whole -/

/-- The sixteen entries row by row. -/
def toRows (a : Pose α) : List α :=
  let r := a.rotation
  let p := a.position
  [r.m11, r.m12, r.m13, p.x, r.m21, r.m22, r.m23, p.y, r.m31, r.m32, r.m33, p.z,
    a.last.x, a.last.y, a.last.z, a.last.w]

/-- The sixteen entries column by column. -/
def toColumns (a : Pose α) : List α :=
  let r := a.rotation
  let p := a.position
  [r.m11, r.m21, r.m31, a.last.x, r.m12, r.m22, r.m32, a.last.y, r.m13, r.m23, r.m33, a.last.z,
    p.x, p.y, p.z, a.last.w]

/-- The same pose, entry by entry as numbers. -/
def same (a b : Pose α) : Bool := (a.toRows.zip b.toRows).all fun (x, y) => eq x y

/-- Exactly the identity. -/
def isIdentity (a : Pose α) : Bool := a.same identity

/-- No entry differs by more than the tolerance. -/
def approx (a b : Pose α) (tolerance : α) : Bool :=
  le (largestAbs ((a.toColumns.zip b.toColumns).map fun (x, y) => x - y)) tolerance

/-- How far the columns of a matrix are from orthonormal. -/
def deviation (r : Matrix3 α) : α := (r.transpose * r - Matrix3.identity).maxAbs

/-- The pose with the given matrix, if that is one: every entry finite, the last row and the
rotation block within tolerance, and no reflection. The checks come in this order. -/
def checked (a : Pose α) : Except (GeometryError α) (Pose α) :=
  if a.toRows.any fun x => !Scalar.isFinite x then .error (.malformedPose .nonFinite)
  else if !a.last.accepted then
    .error (.malformedPose (.bottomRow a.last.x a.last.y a.last.z a.last.w))
  else
    let deviation := deviation a.rotation
    if lt Tolerance.orthonormal deviation then
      .error (.malformedPose (.notOrthonormal deviation))
    else
      let det := a.rotation.det
      if le det 0.0 then .error (.malformedPose (.reflection det)) else .ok a

/-- The pose with the given entries, row by row, in the stated shape. The shape is judged before any
entry. -/
def ofRows? (rows columns : Nat) (entries : List α) : Except (GeometryError α) (Pose α) :=
  match rows, columns, entries with
  | 4, 4, [a, b, c, x, d, e, f, y, g, h, i, z, p, q, r, w] =>
    checked ⟨⟨a, b, c, d, e, f, g, h, i⟩, ⟨x, y, z⟩, ⟨p, q, r, w⟩⟩
  | rows, columns, _ => .error (.invalidPose rows columns)

/-- The pose that a grid shows. -/
def ofGrid? (g : Grid α) : Except (GeometryError α) (Pose α) :=
  match g.rows, g.columns, g.lines with
  | 4, 4, [[a, b, c, x], [d, e, f, y], [g, h, i, z], [p, q, r, w]] =>
    checked ⟨⟨a, b, c, d, e, f, g, h, i⟩, ⟨x, y, z⟩, ⟨p, q, r, w⟩⟩
  | rows, columns, _ => .error (.invalidPose rows columns)

/-! ## Composition -/

/-- One entry of the product of two homogeneous matrices: four products, summed from left to
right. -/
def dot4 (a₁ a₂ a₃ a₄ b₁ b₂ b₃ b₄ : α) : α := a₁ * b₁ + a₂ * b₂ + a₃ * b₃ + a₄ * b₄

/-- The product of the two homogeneous matrices: `b` seen from `a`. -/
def compose (a b : Pose α) : Pose α :=
  let r := a.rotation
  let s := b.rotation
  let p := a.position
  let q := b.position
  let k := a.last
  let l := b.last
  { rotation :=
      { m11 := dot4 r.m11 r.m12 r.m13 p.x s.m11 s.m21 s.m31 l.x
        m12 := dot4 r.m11 r.m12 r.m13 p.x s.m12 s.m22 s.m32 l.y
        m13 := dot4 r.m11 r.m12 r.m13 p.x s.m13 s.m23 s.m33 l.z
        m21 := dot4 r.m21 r.m22 r.m23 p.y s.m11 s.m21 s.m31 l.x
        m22 := dot4 r.m21 r.m22 r.m23 p.y s.m12 s.m22 s.m32 l.y
        m23 := dot4 r.m21 r.m22 r.m23 p.y s.m13 s.m23 s.m33 l.z
        m31 := dot4 r.m31 r.m32 r.m33 p.z s.m11 s.m21 s.m31 l.x
        m32 := dot4 r.m31 r.m32 r.m33 p.z s.m12 s.m22 s.m32 l.y
        m33 := dot4 r.m31 r.m32 r.m33 p.z s.m13 s.m23 s.m33 l.z }
    position :=
      { x := dot4 r.m11 r.m12 r.m13 p.x q.x q.y q.z l.w
        y := dot4 r.m21 r.m22 r.m23 p.y q.x q.y q.z l.w
        z := dot4 r.m31 r.m32 r.m33 p.z q.x q.y q.z l.w }
    last :=
      { x := dot4 k.x k.y k.z k.w s.m11 s.m21 s.m31 l.x
        y := dot4 k.x k.y k.z k.w s.m12 s.m22 s.m32 l.y
        z := dot4 k.x k.y k.z k.w s.m13 s.m23 s.m33 l.z
        w := dot4 k.x k.y k.z k.w q.x q.y q.z l.w } }

instance : Mul (Pose α) := ⟨compose⟩

/-- The inverse of a pose whose block is a rotation: the block transposed and the position turned
back. The last row is not looked at. -/
def inverse (a : Pose α) : Pose α :=
  let back := a.rotation.transpose
  ofParts back (-(back.apply a.position))

/-- Where a pose takes a point. The last row is not looked at. -/
def transform (a : Pose α) (p : Point α) : Point α := a.rotation.apply p + a.position

/-- The position alone. -/
def displacementPart (a : Pose α) : Pose α := displacement a.position

/-- The turn alone. -/
def rotationPart (a : Pose α) : Pose α := a.withPosition Point.zero

/-- The directions of the tool's axes. -/
def xAxis (a : Pose α) : Point α := a.rotation.column1

@[inherit_doc xAxis]
def yAxis (a : Pose α) : Point α := a.rotation.column2

@[inherit_doc xAxis]
def zAxis (a : Pose α) : Point α := a.rotation.column3

/-! ## Angles about X, Y and Z -/

/-- The rotation of three turns about X, Y and Z, given their sines and cosines. -/
def eulerRotation (sx cx sy cy sz cz : α) : Matrix3 α where
  m11 := cy * cz
  m12 := -cy * sz
  m13 := sy
  m21 := cx * sz + cz * sx * sy
  m22 := cx * cz - sx * sy * sz
  m23 := -cy * sx
  m31 := sx * sz - cx * cz * sy
  m32 := cz * sx + cx * sy * sz
  m33 := cx * cy

/-- The pose at a position, turned about X, then Y, then Z. -/
def ofEuler (e : EulerPose α) : Pose α :=
  let rx := toRadians e.rx
  let ry := toRadians e.ry
  let rz := toRadians e.rz
  ofParts (eulerRotation (sin rx) (cos rx) (sin ry) (cos ry) (sin rz) (cos rz)) e.position

/-- Position and angles in radians, with the angles in degrees. -/
def inDegrees (p : Point α) (rx ry rz : α) : EulerPose α :=
  ⟨p.x, p.y, p.z, toDegrees rx, toDegrees ry, toDegrees rz⟩

/-- The position and the angles about X, Y and Z; the second lies within a quarter turn. -/
def toEuler (a : Pose α) : EulerPose α :=
  let r := a.rotation
  if le (1.0 - Tolerance.gimbalLock) r.m13 then
    inDegrees a.position 0.0 quarterTurn (atan2 r.m21 r.m22)
  else if le r.m13 (-1.0 + Tolerance.gimbalLock) then
    inDegrees a.position 0.0 (-quarterTurn) (atan2 r.m21 r.m22)
  else
    inDegrees a.position (atan2 (-r.m23) r.m33) (atan2 r.m13 (hypot r.m11 r.m12))
      (atan2 (-r.m12) r.m11)

/-! ## Roll, pitch and yaw -/

/-- The rotation of three turns about Z, Y and X, given their sines and cosines. -/
def rollPitchYawRotation (sa ca sb cb sc cc : α) : Matrix3 α where
  m11 := cb * cc
  m12 := cc * sa * sb - ca * sc
  m13 := sa * sc + ca * cc * sb
  m21 := cb * sc
  m22 := ca * cc + sa * sb * sc
  m23 := ca * sb * sc - cc * sa
  m31 := -sb
  m32 := cb * sa
  m33 := ca * cb

/-- The pose at a position, turned about Z, then Y, then X. -/
def ofRollPitchYaw (e : EulerPose α) : Pose α :=
  let a := toRadians e.rx
  let b := toRadians e.ry
  let c := toRadians e.rz
  ofParts (rollPitchYawRotation (sin a) (cos a) (sin b) (cos b) (sin c) (cos c)) e.position

/-- The position and the roll, pitch and yaw; the pitch lies within a quarter turn. -/
def toRollPitchYaw (a : Pose α) : EulerPose α :=
  let r := a.rotation
  if lt (1.0 - Tolerance.pitchLock) r.m31 then
    inDegrees a.position 0.0 (-quarterTurn) (atan2 (-r.m23) r.m22)
  else if lt r.m31 (-1.0 + Tolerance.pitchLock) then
    inDegrees a.position 0.0 quarterTurn (atan2 r.m23 r.m22)
  else
    inDegrees a.position (atan2 r.m32 r.m33) (atan2 (-r.m31) (hypot r.m11 r.m21))
      (atan2 r.m21 r.m11)

/-! ## Quaternions and rotation vectors -/

/-- The pose at a position, turned as a quaternion says. -/
def ofQuaternion (p : Point α) (q : Quaternion α) : Pose α := ofParts q.toRotation p

/-- The quaternion of a pose's turn. -/
def toQuaternion (a : Pose α) : Quaternion α := Quaternion.ofRotation a.rotation

/-- The pose at a position, turned as a rotation vector says. -/
def ofRotationVector (p v : Point α) : Pose α :=
  ofQuaternion p (Quaternion.ofRotationVector v)

/-- The rotation vector of a pose's turn. -/
def toRotationVector (a : Pose α) : Point α := a.toQuaternion.toRotationVector

/-! ## Offsets -/

/-- A pose moved in its own frame. -/
def offsetInTool (a : Pose α) (offset : EulerPose α) : Pose α := a * ofEuler offset

/-- A pose moved in the frame that it is given in. -/
def offsetInBase (a : Pose α) (offset : EulerPose α) : Pose α := ofEuler offset * a

/-! ## Given matrices -/

/-- The inverse of the pose that a grid shows. -/
def invertGrid (g : Grid α) : Except (GeometryError α) (Pose α) := (ofGrid? g).map inverse

/-- Position and angles of the pose that a grid shows. -/
def eulerOfGrid (g : Grid α) : Except (GeometryError α) (EulerPose α) := (ofGrid? g).map toEuler

/-! ## Text -/

/-- A pose as reports show it: its position and angles. -/
def text (a : Pose Float) : String := a.toEuler.text

end Pose

end Toolpath
