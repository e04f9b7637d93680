import Toolpath.Proofs.RotationQuaternion
import Toolpath.Proofs.EulerAngles

/-!
# Products of rotations

Rotations are closed under products, and every formula of this library that makes a rotation block
makes one: the turns about one axis, the two conventions of three angles, and the matrix of a
quaternion.

The formulas for three angles are written out entry by entry. Each is a product of three turns about
one axis (`eulerRotation_eq`, `rollPitchYawRotation_eq`), in the order that the convention names,
and is a rotation for that reason. The matrix of a quaternion is one because the quaternion is
brought to length one first, also where it has no direction.
-/

namespace Toolpath

open Scalar

namespace Matrix3

/-! ## Products -/

theorem mul_real (a b : Matrix3 ℝ) : a * b =
    ⟨a.m11 * b.m11 + a.m12 * b.m21 + a.m13 * b.m31, a.m11 * b.m12 + a.m12 * b.m22 + a.m13 * b.m32,
      a.m11 * b.m13 + a.m12 * b.m23 + a.m13 * b.m33, a.m21 * b.m11 + a.m22 * b.m21 + a.m23 * b.m31,
      a.m21 * b.m12 + a.m22 * b.m22 + a.m23 * b.m32, a.m21 * b.m13 + a.m22 * b.m23 + a.m23 * b.m33,
      a.m31 * b.m11 + a.m32 * b.m21 + a.m33 * b.m31, a.m31 * b.m12 + a.m32 * b.m22 + a.m33 * b.m32,
      a.m31 * b.m13 + a.m32 * b.m23 + a.m33 * b.m33⟩ := rfl

protected theorem mul_assoc (a b c : Matrix3 ℝ) : a * b * c = a * (b * c) := by
  simp only [mul_real]
  ext <;> ring

theorem mul_identity (a : Matrix3 ℝ) : a * identity = a := by
  simp only [mul_real, identity_real, mul_zero, mul_one, add_zero, zero_add]

theorem transpose_mul (a b : Matrix3 ℝ) : (a * b).transpose = b.transpose * a.transpose := by
  simp only [mul_real, transpose]
  ext <;> ring

theorem det_mul (a b : Matrix3 ℝ) : (a * b).det = a.det * b.det := by
  simp only [mul_real, det_real]
  ring

/-- Rotations are closed under products: each factor's transpose cancels it, the inner one first. -/
theorem IsRotation.mul {a b : Matrix3 ℝ} (ha : a.IsRotation) (hb : b.IsRotation) :
    (a * b).IsRotation where
  orthonormal := calc
    (a * b).transpose * (a * b) = b.transpose * (a.transpose * a) * b := by
      simp only [transpose_mul, Matrix3.mul_assoc]
    _ = identity := by
      rw [ha.orthonormal, mul_identity, hb.orthonormal]
  det_eq_one := by
    rw [det_mul, ha.det_eq_one, hb.det_eq_one, mul_one]

/-! ## Turns about one axis -/

/-- The turn about the first axis, by its sine and cosine. -/
def aboutX (s c : ℝ) : Matrix3 ℝ := ⟨1, 0, 0, 0, c, -s, 0, s, c⟩

/-- The turn about the second axis is the first one's, with the axes renamed. -/
def aboutY (s c : ℝ) : Matrix3 ℝ := (aboutX s c).cycle.cycle

@[inherit_doc aboutY]
def aboutZ (s c : ℝ) : Matrix3 ℝ := (aboutX s c).cycle

theorem isRotation_aboutX {s c : ℝ} (unit : s ^ 2 + c ^ 2 = 1) : (aboutX s c).IsRotation where
  orthonormal := by
    rw [orthonormal_iff]
    simp only [aboutX]
    refine ⟨⟨?_, ?_, ?_⟩, ?_, ?_, ?_⟩
    · ring
    · linear_combination unit
    · linear_combination unit
    · ring
    · ring
    · ring
  det_eq_one := by
    rw [det_real]
    simp only [aboutX]
    linear_combination unit

theorem isRotation_aboutY {s c : ℝ} (unit : s ^ 2 + c ^ 2 = 1) : (aboutY s c).IsRotation :=
  (isRotation_aboutX unit).cycle.cycle

theorem isRotation_aboutZ {s c : ℝ} (unit : s ^ 2 + c ^ 2 = 1) : (aboutZ s c).IsRotation :=
  (isRotation_aboutX unit).cycle

end Matrix3

/-! ## Three angles -/

namespace Pose

open Matrix3

theorem rotX_real (t : ℝ) : rotX t = ofParts (aboutX (Real.sin t) (Real.cos t)) Point.zero := by
  simp only [rotX, aboutX, sin_real, cos_real, zero_real, one_real]

theorem rotY_real (t : ℝ) : rotY t = ofParts (aboutY (Real.sin t) (Real.cos t)) Point.zero := by
  simp only [rotY, aboutY, aboutX, cycle, sin_real, cos_real, zero_real, one_real]

theorem rotZ_real (t : ℝ) : rotZ t = ofParts (aboutZ (Real.sin t) (Real.cos t)) Point.zero := by
  simp only [rotZ, aboutZ, aboutX, cycle, sin_real, cos_real, zero_real, one_real]

/-- The angles about X, Y and Z are turned by in this order. -/
theorem eulerRotation_eq (sx cx sy cy sz cz : ℝ) :
    eulerRotation sx cx sy cy sz cz = aboutX sx cx * aboutY sy cy * aboutZ sz cz := by
  simp only [eulerRotation, aboutX, aboutY, aboutZ, cycle, mul_real]
  ext <;> ring

/-- Roll, pitch and yaw are turned by in the opposite order. -/
theorem rollPitchYawRotation_eq (sa ca sb cb sc cc : ℝ) :
    rollPitchYawRotation sa ca sb cb sc cc = aboutZ sc cc * aboutY sb cb * aboutX sa ca := by
  simp only [rollPitchYawRotation, aboutX, aboutY, aboutZ, cycle, mul_real]
  ext <;> ring

/-- Three angles turn by a rotation. -/
theorem isRotation_turned (rx ry rz : ℝ) : (turned rx ry rz).IsRotation := by
  unfold turned
  rw [eulerRotation_eq]
  exact ((isRotation_aboutX (Real.sin_sq_add_cos_sq rx)).mul
    (isRotation_aboutY (Real.sin_sq_add_cos_sq ry))).mul
      (isRotation_aboutZ (Real.sin_sq_add_cos_sq rz))

end Pose

/-! ## Quaternions -/

namespace Quaternion

/-- Every quaternion is brought to length one, also one too short to have a direction. -/
theorem normSq_normalize (q : Quaternion ℝ) : q.normalize.normSq = 1 := by
  have threshold : (0 : ℝ) < Tolerance.quaternionNorm := by
    change (0 : ℝ) < 1e-10
    norm_num
  unfold normalize
  rw [lt_real]
  by_cases short : q.normSq < Tolerance.quaternionNorm
  · rw [if_pos (decide_eq_true short), normSq_real]
    norm_num [identity]
  · rw [if_neg (by rwa [decide_eq_true_eq]), normSq_real]
    have long : 0 < q.normSq := threshold.trans_le (not_lt.mp short)
    have root : √q.normSq * √q.normSq = q.normSq := Real.mul_self_sqrt long.le
    simp only [sqrt_real, div_mul_div_comm, root, ← add_div]
    exact div_self long.ne'

/-- The matrix of a quaternion as it stands, to be read as one of length one. -/
def rotation {α : Type} [Scalar α] (q : Quaternion α) : Matrix3 α where
  m11 := 1.0 - 2.0 * q.y * q.y - 2.0 * q.z * q.z
  m12 := 2.0 * q.x * q.y - 2.0 * q.z * q.w
  m13 := 2.0 * q.x * q.z + 2.0 * q.y * q.w
  m21 := 2.0 * q.x * q.y + 2.0 * q.z * q.w
  m22 := 1.0 - 2.0 * q.x * q.x - 2.0 * q.z * q.z
  m23 := 2.0 * q.y * q.z - 2.0 * q.x * q.w
  m31 := 2.0 * q.x * q.z - 2.0 * q.y * q.w
  m32 := 2.0 * q.y * q.z + 2.0 * q.x * q.w
  m33 := 1.0 - 2.0 * q.x * q.x - 2.0 * q.y * q.y

/-- The matrix of a quaternion is that of the one brought to length one. -/
theorem toRotation_eq_rotation {α : Type} [Scalar α] (q : Quaternion α) :
    q.toRotation = q.normalize.rotation := rfl

theorem isRotation_of_unit {q : Quaternion ℝ} (unit : q.normSq = 1) : q.rotation.IsRotation := by
  rw [normSq_real] at unit
  constructor
  · rw [Matrix3.orthonormal_iff]
    simp only [rotation, one_real, two_real]
    refine ⟨⟨?_, ?_, ?_⟩, ?_, ?_, ?_⟩
    · linear_combination 4 * (q.y ^ 2 + q.z ^ 2) * unit
    · linear_combination 4 * (q.x ^ 2 + q.z ^ 2) * unit
    · linear_combination 4 * (q.x ^ 2 + q.y ^ 2) * unit
    · linear_combination -4 * q.x * q.y * unit
    · linear_combination -4 * q.y * q.z * unit
    · linear_combination -4 * q.z * q.x * unit
  · rw [Matrix3.det_real]
    simp only [rotation, one_real, two_real]
    linear_combination 4 * (q.x ^ 2 + q.y ^ 2 + q.z ^ 2) * unit

/-- The matrix of any quaternion is a rotation. -/
theorem isRotation_toRotation (q : Quaternion ℝ) : q.toRotation.IsRotation := by
  rw [toRotation_eq_rotation]
  exact isRotation_of_unit q.normSq_normalize

end Quaternion

end Toolpath
