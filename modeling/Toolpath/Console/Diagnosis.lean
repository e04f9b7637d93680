import Toolpath.Geometry.Pose
import Toolpath.Geometry.Arc
import Toolpath.Console.Failure

/-!
# Geometry on request

Three questions about geometry that need no interpreter: the matrix of a pose, the pose of a matrix
and the points of an arc. An answer is a list of lines.
-/

namespace Toolpath.Console.Diagnosis

/-- The matrix of a pose, row by row, and its quaternion. -/
def matrixOf (e : EulerPose Float) : List String :=
  let pose := Pose.ofEuler e
  let cell (x : Float) : String := Text.alignRight 12 (Decimal.fixed 6 x)
  let row (cells : List Float) : String := "  [" ++ ", ".intercalate (cells.map cell) ++ "]"
  ["📐 4×4 矩阵:"] ++ (pieces 4 4 pose.toRows).map row
    ++ ["🧭 四元数: " ++ pose.toQuaternion.text]

/-- The entries of a matrix by rows, as many to each. -/
def grid (rows : Nat) (entries : List Float) : Except Failure (Grid Float) :=
  if rows = 0 ∨ entries.length % rows ≠ 0 then .error (.raggedMatrix entries.length rows)
  else .ok (Grid.ofRows rows (entries.length / rows) entries)

/-- The pose of a matrix, its inverse and its quaternion. -/
def poseOf (rows : Nat) (entries : List Float) : Except Failure (List String) := do
  let matrix ← grid rows entries
  let euler ← (Pose.eulerOfGrid matrix).mapError .matrixRefused
  let inverse ← (Pose.invertGrid matrix).mapError .matrixNotInverted
  return ["📍 位置 + 欧拉角: " ++ euler.text,
    "🔄 逆位姿: " ++ inverse.text,
    "🧭 四元数: " ++ (Pose.ofEuler euler).toQuaternion.text]

/-- The points of an arc: its ends, the point halfway along it and its centre. -/
def arcOf (start target : Point Float) (radius : Float) (sense : RotationSense) :
    Except Failure (List String) := do
  let via ← (Arc.via start target radius sense).mapError .arcWithoutVia
  let center ← (Arc.center start target radius sense).mapError .arcWithoutCenter
  return ["⭕ " ++ sense.text ++ " 圆弧, 半径 " ++ Decimal.plain radius,
    "  起点:   " ++ start.text,
    "  中间点: " ++ via.text,
    "  终点:   " ++ target.text,
    "  圆心:   " ++ center.text]

end Toolpath.Console.Diagnosis
