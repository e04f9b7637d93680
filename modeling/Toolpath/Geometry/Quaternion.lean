import Toolpath.Geometry.Matrix
import Toolpath.Geometry.Tolerance

/-!
# Quaternions

A quaternion stands for a rotation, and its negative for the same one. It is the form through which
this library reads a rotation off a matrix, because no angle makes it divide by a number near zero:
near half a turn the axis comes from the largest diagonal entry, and elsewhere each entry is a
square root whose sign the antisymmetric part gives. Small rotations keep their digits, since no
rotation is recognised by the vector part and not by the cosine, which is flat there.
-/

namespace Toolpath

/-- A quaternion: a real part and a vector part. -/
@[ext]
structure Quaternion (α : Type) where
  w : α
  x : α
  y : α
  z : α
deriving Repr, DecidableEq, Inhabited

namespace Quaternion

open Scalar

variable {α : Type} [Scalar α]

/-- The quaternion of no rotation. -/
def identity : Quaternion α := ⟨1.0, 0.0, 0.0, 0.0⟩

/-- The same quaternion, entry by entry as numbers. -/
def same (p q : Quaternion α) : Bool := eq p.w q.w && eq p.x q.x && eq p.y q.y && eq p.z q.z

/-- The entries, real part first. -/
def toList (q : Quaternion α) : List α := [q.w, q.x, q.y, q.z]

/-- The vector part. -/
def vector (q : Quaternion α) : Point α := ⟨q.x, q.y, q.z⟩

/-- The sum of the squares of the entries. -/
def normSq (q : Quaternion α) : α := q.w * q.w + q.x * q.x + q.y * q.y + q.z * q.z

/-- The length. -/
def norm (q : Quaternion α) : α := sqrt q.normSq

/-- The quaternion of length one in the same direction. One too short to have a direction stands
for no rotation. -/
def normalize (q : Quaternion α) : Quaternion α :=
  if lt q.normSq Tolerance.quaternionNorm then identity
  else
    let n := sqrt q.normSq
    ⟨q.w / n, q.x / n, q.y / n, q.z / n⟩

/-- Of a quaternion and its negative, the one whose real part is not negative. -/
def canonical (q : Quaternion α) : Quaternion α :=
  if lt q.w 0.0 then ⟨-q.w, -q.x, -q.y, -q.z⟩ else q

/-! ## To and from matrices -/

/-- The rotation matrix of a quaternion's direction. -/
def toRotation (q : Quaternion α) : Matrix3 α :=
  let q := q.normalize
  { m11 := 1.0 - 2.0 * q.y * q.y - 2.0 * q.z * q.z
    m12 := 2.0 * q.x * q.y - 2.0 * q.z * q.w
    m13 := 2.0 * q.x * q.z + 2.0 * q.y * q.w
    m21 := 2.0 * q.x * q.y + 2.0 * q.z * q.w
    m22 := 1.0 - 2.0 * q.x * q.x - 2.0 * q.z * q.z
    m23 := 2.0 * q.y * q.z - 2.0 * q.x * q.w
    m31 := 2.0 * q.x * q.z - 2.0 * q.y * q.w
    m32 := 2.0 * q.y * q.z + 2.0 * q.x * q.w
    m33 := 1.0 - 2.0 * q.x * q.x - 2.0 * q.y * q.y }

/-- The quaternion of a rotation of about half a turn, seen from the axis `k` with the largest
diagonal entry `dₖ`; `i` and `j` are the two axes after it. `ki` and `kj` are sums of opposite
entries and `ji` a difference. Its entries are the real part and those at `k`, `i` and `j`; there is
none where the pivot is too small to divide by. -/
def aboutAxis? (dₖ dᵢ dⱼ ki kj ji : α) : Option (α × α × α × α) :=
  let s := sqrt (atLeastZero (1.0 + dₖ - dᵢ - dⱼ)) * 2.0
  if lt s Tolerance.quaternionNorm then none
  else some (ji / s, 0.25 * s, ki / s, kj / s)

/-- The quaternion of a rotation of about half a turn. -/
def ofHalfTurn (r : Matrix3 α) : Quaternion α :=
  let found : Option (Quaternion α) :=
    if le r.m22 r.m11 && le r.m33 r.m11 then
      (aboutAxis? r.m11 r.m22 r.m33 (r.m21 + r.m12) (r.m31 + r.m13) (r.m32 - r.m23)).map
        fun (w, k, i, j) => ⟨w, k, i, j⟩
    else if le r.m33 r.m22 then
      (aboutAxis? r.m22 r.m33 r.m11 (r.m32 + r.m23) (r.m12 + r.m21) (r.m13 - r.m31)).map
        fun (w, k, i, j) => ⟨w, j, k, i⟩
    else
      (aboutAxis? r.m33 r.m11 r.m22 (r.m13 + r.m31) (r.m23 + r.m32) (r.m21 - r.m12)).map
        fun (w, k, i, j) => ⟨w, i, j, k⟩
  match found with
  | some q => q.normalize
  | none => identity

/-- Minus one for a negative number and one otherwise. -/
def sign (x : α) : α := if lt x 0.0 then -1.0 else 1.0

/-- The quaternion of a rotation of less than about half a turn. -/
def ofDiagonal (r : Matrix3 α) : Quaternion α where
  w := sqrt (atLeastZero (r.m11 + r.m22 + r.m33 + 1.0)) / 2.0
  x := sign (r.m32 - r.m23) * sqrt (atLeastZero (r.m11 - r.m22 - r.m33 + 1.0)) / 2.0
  y := sign (r.m13 - r.m31) * sqrt (atLeastZero (-r.m11 + r.m22 - r.m33 + 1.0)) / 2.0
  z := sign (r.m21 - r.m12) * sqrt (atLeastZero (-r.m11 - r.m22 + r.m33 + 1.0)) / 2.0

/-- The cosine of the angle that a rotation matrix turns by. -/
def cosAngle (r : Matrix3 α) : α := clamp (-1.0) 1.0 ((r.trace - 1.0) * 0.5)

/-- The quaternion of a rotation matrix, with a real part that is not negative. -/
def ofRotation (r : Matrix3 α) : Quaternion α :=
  let q := if lt (cosAngle r) (-1.0 + Tolerance.halfTurn) then ofHalfTurn r else ofDiagonal r
  if lt (hypot (hypot q.x q.y) q.z) Tolerance.identity then identity else q.canonical

/-! ## To and from rotation vectors -/

/-- The quaternion of a rotation vector: the axis times the angle in radians. For small angles the
ratio of the half angle's sine to the angle is taken from its series. -/
def ofRotationVector (v : Point α) : Quaternion α :=
  let angle := v.norm
  let ratio :=
    if lt angle Tolerance.rotationVector then 0.5 - angle * angle / 48.0
    else sin (0.5 * angle) / angle
  ⟨cos (0.5 * angle), v.x * ratio, v.y * ratio, v.z * ratio⟩

/-- The angle of the rotation, from zero to half a turn, in radians. -/
def angle (q : Quaternion α) : α :=
  let q := q.normalize.canonical
  2.0 * atan2 (sqrt (q.x * q.x + q.y * q.y + q.z * q.z)) q.w

/-- The rotation vector of the rotation. -/
def toRotationVector (q : Quaternion α) : Point α :=
  let q := q.normalize.canonical
  let sinHalf := q.vector.norm
  if eq sinHalf 0.0 then Point.zero else q.vector * (q.angle / sinHalf)

/-! ## Text -/

/-- A quaternion as reports show it, to a millionth. -/
def text (q : Quaternion Float) : String :=
  "Q(" ++ ", ".intercalate (q.toList.map (Decimal.fixed 6)) ++ ")"

end Quaternion

end Toolpath
