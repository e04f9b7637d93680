import Toolpath.Proofs.Exact

/-!
# Rotation matrices

What a rotation block is in exact arithmetic: its columns are orthonormal and its determinant is
one. Everything else that the conversions to angles and to quaternions rely on follows here: each
column is the vector product of the other two, so every entry is its own cofactor, and from that the
rows are orthonormal as well.

The three axes are on one footing. `cycle` renames them in a circle, so that a fact about one axis
holds of each.
-/

namespace Toolpath

open Scalar

/-! ## Vectors -/

namespace Point

theorem dot_real (p q : Point ℝ) : p.dot q = p.x * q.x + p.y * q.y + p.z * q.z := rfl

theorem cross_real (p q : Point ℝ) :
    p.cross q = ⟨p.y * q.z - p.z * q.y, p.z * q.x - p.x * q.z, p.x * q.y - p.y * q.x⟩ := rfl

/-- Points whose difference has no length are one point. -/
theorem eq_of_dot_sub_eq_zero {p q : Point ℝ} (h : (p - q).dot (p - q) = 0) : p = q := by
  rw [dot_real, sub_real] at h
  have hx := mul_self_nonneg (p.x - q.x)
  have hy := mul_self_nonneg (p.y - q.y)
  have hz := mul_self_nonneg (p.z - q.z)
  ext
  · exact sub_eq_zero.mp (mul_self_eq_zero.mp (by linarith))
  · exact sub_eq_zero.mp (mul_self_eq_zero.mp (by linarith))
  · exact sub_eq_zero.mp (mul_self_eq_zero.mp (by linarith))

/-- Of three unit vectors that span the volume one, the third is the vector product of the first
two where these are orthogonal. -/
theorem cross_eq_of_orthonormal {a b c : Point ℝ} (ha : a.dot a = 1) (hb : b.dot b = 1)
    (hc : c.dot c = 1) (orthogonal : a.dot b = 0) (volume : (a.cross b).dot c = 1) :
    a.cross b = c := by
  apply eq_of_dot_sub_eq_zero
  have lagrange : (a.cross b).dot (a.cross b) = a.dot a * b.dot b - a.dot b * a.dot b := by
    simp only [dot_real, cross_real]
    ring
  calc
    (a.cross b - c).dot (a.cross b - c) =
        (a.cross b).dot (a.cross b) - 2 * (a.cross b).dot c + c.dot c := by
      simp only [dot_real, sub_real]
      ring
    _ = 0 := by
      rw [lagrange, ha, hb, hc, orthogonal, volume]
      norm_num

end Point

namespace Matrix3

theorem trace_real (r : Matrix3 ℝ) : r.trace = r.m11 + r.m22 + r.m33 := rfl

theorem det_real (r : Matrix3 ℝ) :
    r.det = r.m11 * (r.m22 * r.m33 - r.m32 * r.m23) - r.m12 * (r.m21 * r.m33 - r.m31 * r.m23) +
      r.m13 * (r.m21 * r.m32 - r.m31 * r.m22) := rfl

theorem identity_real : (identity : Matrix3 ℝ) = ⟨1, 0, 0, 0, 1, 0, 0, 0, 1⟩ := by
  simp only [identity, one_real, zero_real]

theorem apply_real (r : Matrix3 ℝ) (p : Point ℝ) :
    r.apply p = ⟨r.m11 * p.x + r.m12 * p.y + r.m13 * p.z, r.m21 * p.x + r.m22 * p.y + r.m23 * p.z,
      r.m31 * p.x + r.m32 * p.y + r.m33 * p.z⟩ := rfl

/-! ## Rotations -/

/-- A rotation: orthonormal columns, and no reflection. -/
structure IsRotation (r : Matrix3 ℝ) : Prop where
  orthonormal : r.transpose * r = identity
  det_eq_one : r.det = 1

/-- The axes renamed in a circle: the second takes the first's place. -/
def cycle (r : Matrix3 ℝ) : Matrix3 ℝ where
  m11 := r.m22
  m12 := r.m23
  m13 := r.m21
  m21 := r.m32
  m22 := r.m33
  m23 := r.m31
  m31 := r.m12
  m32 := r.m13
  m33 := r.m11

theorem trace_cycle (r : Matrix3 ℝ) : r.cycle.trace = r.trace := by
  simp only [trace_real, cycle]
  ring

/-- Orthonormal columns, entry by entry. -/
theorem orthonormal_iff {r : Matrix3 ℝ} : r.transpose * r = identity ↔
    (r.m11 * r.m11 + r.m21 * r.m21 + r.m31 * r.m31 = 1 ∧
      r.m12 * r.m12 + r.m22 * r.m22 + r.m32 * r.m32 = 1 ∧
      r.m13 * r.m13 + r.m23 * r.m23 + r.m33 * r.m33 = 1) ∧
    r.m11 * r.m12 + r.m21 * r.m22 + r.m31 * r.m32 = 0 ∧
    r.m12 * r.m13 + r.m22 * r.m23 + r.m32 * r.m33 = 0 ∧
    r.m13 * r.m11 + r.m23 * r.m21 + r.m33 * r.m31 = 0 := by
  rw [identity_real]
  constructor
  · intro h
    exact ⟨⟨congrArg m11 h, congrArg m22 h, congrArg m33 h⟩, congrArg m12 h, congrArg m23 h,
      congrArg m31 h⟩
  · rintro ⟨⟨h11, h22, h33⟩, h12, h23, h31⟩
    -- the product is symmetric, and only one half of it is given
    have mirrored {a b c d e f : ℝ} (h : a * b + c * d + e * f = 0) :
        b * a + d * c + f * e = 0 := by
      linarith
    ext
    · exact h11
    · exact h12
    · exact mirrored h31
    · exact mirrored h12
    · exact h22
    · exact h23
    · exact h31
    · exact mirrored h23
    · exact h33

theorem isRotation_identity : (identity : Matrix3 ℝ).IsRotation where
  orthonormal := orthonormal_iff.mpr (by norm_num [identity_real])
  det_eq_one := by norm_num [det_real, identity_real]

namespace IsRotation

variable {r : Matrix3 ℝ}

/-! ### Columns -/

/-- Each column is the vector product of the next two. -/
theorem columns_cross (h : r.IsRotation) :
    r.column1.cross r.column2 = r.column3 ∧ r.column2.cross r.column3 = r.column1 ∧
      r.column3.cross r.column1 = r.column2 := by
  obtain ⟨⟨h11, h22, h33⟩, h12, h23, h31⟩ := orthonormal_iff.mp h.orthonormal
  have volume := h.det_eq_one
  rw [det_real] at volume
  refine ⟨Point.cross_eq_of_orthonormal h11 h22 h33 h12 ?_,
    Point.cross_eq_of_orthonormal h22 h33 h11 h23 ?_,
    Point.cross_eq_of_orthonormal h33 h11 h22 h31 ?_⟩
  all_goals
    simp only [Point.dot_real, Point.cross_real, column1, column2, column3]
    linear_combination volume

end IsRotation

/-- Every entry of a matrix is its own cofactor. -/
structure SelfCofactor (r : Matrix3 ℝ) : Prop where
  m11 : r.m22 * r.m33 - r.m23 * r.m32 = r.m11
  m12 : r.m23 * r.m31 - r.m21 * r.m33 = r.m12
  m13 : r.m21 * r.m32 - r.m22 * r.m31 = r.m13
  m21 : r.m13 * r.m32 - r.m12 * r.m33 = r.m21
  m22 : r.m11 * r.m33 - r.m13 * r.m31 = r.m22
  m23 : r.m12 * r.m31 - r.m11 * r.m32 = r.m23
  m31 : r.m12 * r.m23 - r.m13 * r.m22 = r.m31
  m32 : r.m13 * r.m21 - r.m11 * r.m23 = r.m32
  m33 : r.m11 * r.m22 - r.m12 * r.m21 = r.m33

namespace IsRotation

variable {r : Matrix3 ℝ}

theorem selfCofactor (h : r.IsRotation) : r.SelfCofactor := by
  obtain ⟨third, first, second⟩ := h.columns_cross
  simp only [Point.cross_real, column1, column2, column3, Point.mk.injEq] at first second third
  obtain ⟨c11, c21, c31⟩ := first
  obtain ⟨c12, c22, c32⟩ := second
  obtain ⟨c13, c23, c33⟩ := third
  constructor <;> linarith

/-! ### Rows -/

/-- The rows are orthonormal too. Each product of rows is the expansion of a determinant along its
own row, or along another. -/
theorem transpose (h : r.IsRotation) : r.transpose.IsRotation := by
  obtain ⟨c11, c12, c13, c21, c22, c23, c31, c32, c33⟩ := h.selfCofactor
  have volume := h.det_eq_one
  rw [det_real] at volume
  constructor
  · rw [orthonormal_iff]
    simp only [Matrix3.transpose]
    refine ⟨⟨?_, ?_, ?_⟩, ?_, ?_, ?_⟩
    · linear_combination volume - r.m11 * c11 - r.m12 * c12 - r.m13 * c13
    · linear_combination volume - r.m21 * c21 - r.m22 * c22 - r.m23 * c23
    · linear_combination volume - r.m31 * c31 - r.m32 * c32 - r.m33 * c33
    · linear_combination -r.m21 * c11 - r.m22 * c12 - r.m23 * c13
    · linear_combination -r.m31 * c21 - r.m32 * c22 - r.m33 * c23
    · linear_combination -r.m11 * c31 - r.m12 * c32 - r.m13 * c33
  · rw [det_real]
    simp only [Matrix3.transpose]
    linear_combination volume

/-- Renaming the axes in a circle leaves a rotation a rotation. -/
theorem cycle (h : r.IsRotation) : r.cycle.IsRotation := by
  obtain ⟨⟨h11, h22, h33⟩, h12, h23, h31⟩ := orthonormal_iff.mp h.orthonormal
  have volume := h.det_eq_one
  rw [det_real] at volume
  constructor
  · rw [orthonormal_iff]
    simp only [Matrix3.cycle]
    refine ⟨⟨?_, ?_, ?_⟩, ?_, ?_, ?_⟩ <;> linarith
  · rw [det_real]
    simp only [Matrix3.cycle]
    linear_combination volume

end IsRotation

/-! ## Nearness -/

/-- No entry differs by more than a distance. -/
def Within (distance : ℝ) (a b : Matrix3 ℝ) : Prop :=
  List.Forall₂ (fun x y => |x - y| ≤ distance) a.toList b.toList

end Matrix3

/-! ## Poses -/

namespace Pose

/-- A pose as exact arithmetic knows it: a rotation, and the last row of a homogeneous matrix. -/
structure IsExact (a : Pose ℝ) : Prop where
  rotation : a.rotation.IsRotation
  last : a.last = LastRow.fixed

/-- No one of the sixteen entries differs by more than a distance. -/
def Within (distance : ℝ) (a b : Pose ℝ) : Prop :=
  List.Forall₂ (fun x y => |x - y| ≤ distance) a.toRows b.toRows

/-- Poses of which no entry differs at all are one. -/
theorem eq_of_within_zero {a b : Pose ℝ} (h : a.Within 0 b) : a = b := by
  simp only [Within, toRows, List.forall₂_cons, abs_nonpos_iff, sub_eq_zero] at h
  obtain ⟨h11, h12, h13, x, h21, h22, h23, y, h31, h32, h33, z, l1, l2, l3, l4, -⟩ := h
  exact Pose.ext (Matrix3.ext h11 h12 h13 h21 h22 h23 h31 h32 h33) (Point.ext x y z)
    (LastRow.ext l1 l2 l3 l4)

/-- Poses at one place are as near as their turns. -/
theorem within_of_rotation {distance : ℝ} {a b : Pose ℝ} (nonneg : 0 ≤ distance)
    (rotation : a.rotation.Within distance b.rotation) (position : a.position = b.position)
    (last : a.last = b.last) : a.Within distance b := by
  simp only [Matrix3.Within, Matrix3.toList, List.forall₂_cons] at rotation
  obtain ⟨h11, h12, h13, h21, h22, h23, h31, h32, h33, -⟩ := rotation
  simp only [Within, toRows, List.forall₂_cons, position, last, sub_self, abs_zero, nonneg,
    true_and, List.forall₂_nil_right_iff, and_true]
  exact ⟨h11, h12, h13, h21, h22, h23, h31, h32, h33⟩

end Pose

end Toolpath
