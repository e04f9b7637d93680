import Toolpath.Proofs.CheckedPoses
import Toolpath.Proofs.PoseGroup

/-!
# Blocks that are accepted are near rotations

The check of a matrix looks at the products of its columns and at the sign of its determinant, and
admits a deviation. This module finds the rotation behind such a block, and says how far off it is.

The rotation is found by making the columns orthonormal one after another: every block with a
positive determinant is a rotation times a triangular matrix with a positive diagonal
(`exists_rotation_mul_triangular`). The products of the columns are then those of the triangular
matrix, so that this is near the identity, and a rotation keeps distances. Distances are taken as
sums of squares over the entries; the nearest rotation would be nearer still, by about a fifth.
-/

namespace Toolpath

open Scalar

/-! ## Vectors -/

namespace Point

theorem dot_self_nonneg (p : Point ℝ) : 0 ≤ p.dot p :=
  add_nonneg (add_nonneg (mul_self_nonneg p.x) (mul_self_nonneg p.y)) (mul_self_nonneg p.z)

/-- Without a length, a vector has no product that is not zero. -/
theorem dot_self_pos {p q : Point ℝ} (product : p.dot q ≠ 0) : 0 < p.dot p := by
  refine p.dot_self_nonneg.lt_of_ne fun none => product ?_
  have difference : p - zero = p := by
    simp only [sub_real, zero_real, sub_zero]
  have origin : p = zero := eq_of_dot_sub_eq_zero (by rw [difference, ← none])
  simp only [origin, dot_real, zero_real, zero_mul, add_zero]

/-- A vector with a length is that many times one of length one. -/
theorem exists_unit {p : Point ℝ} (long : 0 < p.dot p) :
    ∃ (u : Point ℝ) (l : ℝ), 0 < l ∧ u.dot u = 1 ∧ p = u * l := by
  have positive : 0 < √(p.dot p) := Real.sqrt_pos.mpr long
  have square : √(p.dot p) * √(p.dot p) = p.dot p := Real.mul_self_sqrt long.le
  refine ⟨p / √(p.dot p), √(p.dot p), positive, ?_, ?_⟩
  · rw [div_real, dot_real]
    simp only [div_mul_div_comm, square, ← add_div]
    exact div_self long.ne'
  · simp only [mul_real, div_real, div_mul_cancel₀ _ positive.ne']

end Point

namespace Matrix3

/-! ## Distances -/

/-- The sum of the squares of the differences of the entries. -/
def distSq (a b : Matrix3 ℝ) : ℝ :=
  (a.m11 - b.m11) ^ 2 + (a.m12 - b.m12) ^ 2 + (a.m13 - b.m13) ^ 2 +
    ((a.m21 - b.m21) ^ 2 + (a.m22 - b.m22) ^ 2 + (a.m23 - b.m23) ^ 2) +
    ((a.m31 - b.m31) ^ 2 + (a.m32 - b.m32) ^ 2 + (a.m33 - b.m33) ^ 2)

theorem distSq_comm (a b : Matrix3 ℝ) : distSq a b = distSq b a := by
  unfold distSq
  ring

/-- No entry is further off than the whole. -/
theorem within_of_distSq_le {a b : Matrix3 ℝ} {d : ℝ} (nonneg : 0 ≤ d)
    (near : distSq a b ≤ d ^ 2) : a.Within d b := by
  unfold distSq at near
  have entry {x : ℝ} (part : x ^ 2 ≤ d ^ 2) : |x| ≤ d := abs_le_of_sq_le_sq part nonneg
  have h11 := sq_nonneg (a.m11 - b.m11)
  have h12 := sq_nonneg (a.m12 - b.m12)
  have h13 := sq_nonneg (a.m13 - b.m13)
  have h21 := sq_nonneg (a.m21 - b.m21)
  have h22 := sq_nonneg (a.m22 - b.m22)
  have h23 := sq_nonneg (a.m23 - b.m23)
  have h31 := sq_nonneg (a.m31 - b.m31)
  have h32 := sq_nonneg (a.m32 - b.m32)
  have h33 := sq_nonneg (a.m33 - b.m33)
  simp only [Within, toList, List.forall₂_cons, List.forall₂_nil_right_iff, and_true]
  refine ⟨entry ?_, entry ?_, entry ?_, entry ?_, entry ?_, entry ?_, entry ?_, entry ?_, entry ?_⟩
  all_goals linarith

theorem within_mono {a b : Matrix3 ℝ} {d e : ℝ} (less : d ≤ e) (near : a.Within d b) :
    a.Within e b :=
  near.imp fun _ _ entry => entry.trans less

theorem within_trans {a b c : Matrix3 ℝ} {d e : ℝ} (first : a.Within d b) (second : b.Within e c) :
    a.Within (d + e) c := by
  simp only [Within, toList, List.forall₂_cons, List.forall₂_nil_right_iff, and_true]
    at first second ⊢
  have entry {x y z : ℝ} (left : |x - y| ≤ d) (right : |y - z| ≤ e) : |x - z| ≤ d + e :=
    (abs_sub_le x y z).trans (add_le_add left right)
  obtain ⟨a11, a12, a13, a21, a22, a23, a31, a32, a33⟩ := first
  obtain ⟨b11, b12, b13, b21, b22, b23, b31, b32, b33⟩ := second
  exact ⟨entry a11 b11, entry a12 b12, entry a13 b13, entry a21 b21, entry a22 b22, entry a23 b23,
    entry a31 b31, entry a32 b32, entry a33 b33⟩

/-- A rotation keeps distances: each column of the difference keeps its length. -/
theorem IsRotation.distSq_mul {q : Matrix3 ℝ} (h : q.IsRotation) (a b : Matrix3 ℝ) :
    distSq (q * a) (q * b) = distSq a b := by
  obtain ⟨⟨h11, h22, h33⟩, h12, h23, h31⟩ := orthonormal_iff.mp h.orthonormal
  have column (x y z : ℝ) : (q.m11 * x + q.m12 * y + q.m13 * z) ^ 2 +
      (q.m21 * x + q.m22 * y + q.m23 * z) ^ 2 + (q.m31 * x + q.m32 * y + q.m33 * z) ^ 2 =
        x ^ 2 + y ^ 2 + z ^ 2 := by
    linear_combination x ^ 2 * h11 + y ^ 2 * h22 + z ^ 2 * h33 + 2 * x * y * h12 +
      2 * y * z * h23 + 2 * z * x * h31
  have first := column (a.m11 - b.m11) (a.m21 - b.m21) (a.m31 - b.m31)
  have second := column (a.m12 - b.m12) (a.m22 - b.m22) (a.m32 - b.m32)
  have third := column (a.m13 - b.m13) (a.m23 - b.m23) (a.m33 - b.m33)
  simp only [distSq, mul_real]
  linear_combination first + second + third

/-! ## A rotation and a triangle -/

/-- The matrix with these columns. -/
def ofColumns (u v w : Point ℝ) : Matrix3 ℝ := ⟨u.x, v.x, w.x, u.y, v.y, w.y, u.z, v.z, w.z⟩

/-- Two orthonormal columns and their vector product make a rotation. -/
theorem isRotation_ofColumns {u w : Point ℝ} (hu : u.dot u = 1) (hw : w.dot w = 1)
    (orthogonal : u.dot w = 0) : (ofColumns u (w.cross u) w).IsRotation := by
  rw [Point.dot_real] at hu hw orthogonal
  have cross : (w.cross u).dot (w.cross u) = 1 := by
    simp only [Point.dot_real, Point.cross_real]
    linear_combination hw * (u.x * u.x + u.y * u.y + u.z * u.z) + hu -
      (u.x * w.x + u.y * w.y + u.z * w.z) * orthogonal
  simp only [Point.dot_real, Point.cross_real] at cross
  constructor
  · rw [orthonormal_iff]
    simp only [ofColumns, Point.cross_real]
    refine ⟨⟨hu, cross, hw⟩, by ring, by ring, ?_⟩
    linear_combination orthogonal
  · rw [det_real]
    simp only [ofColumns, Point.cross_real]
    linear_combination cross

/-- An upper triangular matrix with a positive diagonal. -/
structure IsTriangular (u : Matrix3 ℝ) : Prop where
  m21 : u.m21 = 0
  m31 : u.m31 = 0
  m32 : u.m32 = 0
  first : 0 < u.m11
  second : 0 < u.m22
  third : 0 < u.m33

/-- **Every matrix with a positive determinant is a rotation times a triangular matrix** with a
positive diagonal. The first axis of the rotation is along the first column, and the third across
the first two. -/
theorem exists_rotation_mul_triangular {r : Matrix3 ℝ} (proper : 0 < r.det) :
    ∃ q u : Matrix3 ℝ, q.IsRotation ∧ u.IsTriangular ∧ r = q * u := by
  have volume : (r.column1.cross r.column2).dot r.column3 = r.det := by
    rw [det_real, Point.dot_real, Point.cross_real]
    simp only [column1, column2, column3]
    ring
  have swapped : r.column1.dot (r.column2.cross r.column3) = r.det := by
    rw [← volume]
    simp only [Point.dot_real, Point.cross_real]
    ring
  obtain ⟨u, l, l_pos, u_unit, along⟩ :=
    Point.exists_unit (Point.dot_self_pos (swapped ▸ proper.ne'))
  obtain ⟨w, k, k_pos, w_unit, across⟩ :=
    Point.exists_unit (Point.dot_self_pos (volume ▸ proper.ne'))
  rw [across] at volume
  simp only [column1, column2, Point.cross_real, Point.mul_real, Point.mk.injEq] at along across
  obtain ⟨m11, m21, m31⟩ := along
  obtain ⟨normal1, normal2, normal3⟩ := across
  rw [Point.dot_real] at w_unit
  have orthogonal : u.dot w = 0 := by
    have scaled : u.dot w * (l * k) = 0 := by
      rw [Point.dot_real]
      linear_combination -r.m11 * normal1 - r.m21 * normal2 - r.m31 * normal3 -
        w.x * k * m11 - w.y * k * m21 - w.z * k * m31
    exact (mul_eq_zero.mp scaled).resolve_right (mul_pos l_pos k_pos).ne'
  have rotation := isRotation_ofColumns u_unit w_unit orthogonal
  rw [Point.dot_real] at u_unit orthogonal
  rw [Point.dot_real, Point.mul_real] at volume
  simp only [column3] at volume
  refine ⟨_, (ofColumns u (w.cross u) w).transpose * r, rotation, ?_, ?_⟩
  · simp only [mul_real, transpose, ofColumns, Point.cross_real]
    constructor
    · simp only
      rw [m11, m21, m31]
      ring
    · simp only
      rw [m11, m21, m31]
      linear_combination l * orthogonal
    · refine (mul_eq_zero.mp (?_ : _ * k = 0)).resolve_right k_pos.ne'
      linear_combination -r.m12 * normal1 - r.m22 * normal2 - r.m32 * normal3
    · refine l_pos.trans_eq ?_
      simp only
      rw [m11, m21, m31]
      linear_combination -l * u_unit
    · refine (mul_pos_iff_of_pos_right l_pos).mp (k_pos.trans_eq ?_)
      linear_combination -k * w_unit - w.x * normal1 - w.y * normal2 - w.z * normal3 +
        (r.m22 * w.z - r.m32 * w.y) * m11 + (r.m32 * w.x - r.m12 * w.z) * m21 +
        (r.m12 * w.y - r.m22 * w.x) * m31
    · refine (mul_pos_iff_of_pos_right k_pos).mp (proper.trans_eq ?_)
      linear_combination -volume
  · rw [← Matrix3.mul_assoc, rotation.mul_transpose, identity_mul]

/-! ## The rotation behind a block -/

/-- The products of the columns, entry by entry. -/
theorem gram_of_within {r : Matrix3 ℝ} {e : ℝ} (near : (r.transpose * r).Within e identity) :
    (|r.m11 * r.m11 + r.m21 * r.m21 + r.m31 * r.m31 - 1| ≤ e ∧
      |r.m12 * r.m12 + r.m22 * r.m22 + r.m32 * r.m32 - 1| ≤ e ∧
      |r.m13 * r.m13 + r.m23 * r.m23 + r.m33 * r.m33 - 1| ≤ e) ∧
    |r.m11 * r.m12 + r.m21 * r.m22 + r.m31 * r.m32| ≤ e ∧
    |r.m12 * r.m13 + r.m22 * r.m23 + r.m32 * r.m33| ≤ e ∧
    |r.m11 * r.m13 + r.m21 * r.m23 + r.m31 * r.m33| ≤ e := by
  simp only [Within, toList, mul_real, transpose, identity_real, List.forall₂_cons, sub_zero]
    at near
  obtain ⟨h11, h12, h13, -, h22, h23, -, -, h33, -⟩ := near
  exact ⟨⟨h11, h22, h33⟩, h12, h23, h13⟩

/-- A number with a square near one is half as far from one. -/
theorem sq_sub_one_le {x : ℝ} (positive : 0 < x) (near : |x ^ 2 - 1| ≤ 1.001e-6) :
    (x - 1) ^ 2 ≤ 2.52e-13 := by
  obtain ⟨low, high⟩ := abs_le.mp near
  have least : 0.999 ≤ x := by
    by_contra less
    nlinarith
  have square : (x ^ 2 - 1) ^ 2 ≤ 1.001e-6 ^ 2 := sq_le_sq' low high
  have factored : (x ^ 2 - 1) ^ 2 = (x - 1) ^ 2 * (x + 1) ^ 2 := by ring
  have sum : 3.996 ≤ (x + 1) ^ 2 := by nlinarith
  have scaled : (x - 1) ^ 2 * 3.996 ≤ (x - 1) ^ 2 * (x + 1) ^ 2 :=
    mul_le_mul_of_nonneg_left sum (sq_nonneg _)
  rw [← factored] at scaled
  norm_num at square
  linarith

/-- A number is as small as its product with one that is near one. -/
theorem sq_le_of_mul {x y d : ℝ} (near : 0.999998 ≤ x ^ 2) (product : (x * y) ^ 2 ≤ d) :
    y ^ 2 ≤ 1.000003 * d := by
  have square : x ^ 2 * y ^ 2 ≤ d := by rwa [← mul_pow]
  have scaled : 0.999998 * y ^ 2 ≤ x ^ 2 * y ^ 2 :=
    mul_le_mul_of_nonneg_right near (sq_nonneg y)
  linarith [sq_nonneg y]

/-- A triangular matrix with nearly orthonormal columns is near the identity. -/
theorem IsTriangular.distSq_identity_le {u : Matrix3 ℝ} (h : u.IsTriangular)
    (near : (u.transpose * u).Within 1e-6 identity) : distSq u identity ≤ 3.8e-12 := by
  obtain ⟨m21, m31, m32, first, second, third⟩ := h
  obtain ⟨⟨c11, c22, c33⟩, c12, c23, c13⟩ := gram_of_within near
  simp only [m21, m31, m32, zero_mul, add_zero] at c11 c12 c13 c22 c23
  simp only [← sq] at c11 c22 c33
  unfold distSq
  rw [m21, m31, m32, identity_real]
  generalize u.m11 = a at *
  generalize u.m12 = b at *
  generalize u.m13 = c at *
  generalize u.m22 = d at *
  generalize u.m23 = f at *
  generalize u.m33 = g at *
  have square {x : ℝ} (small : |x| ≤ 1e-6) : x ^ 2 ≤ 1e-12 := by
    have squared := sq_le_sq' (abs_le.mp small).1 (abs_le.mp small).2
    norm_num at squared ⊢
    exact squared
  obtain ⟨a_low, a_high⟩ := abs_le.mp c11
  have b_small := sq_le_of_mul (by linarith) (square c12)
  have c_small := sq_le_of_mul (by linarith) (square c13)
  obtain ⟨d_low, d_high⟩ := abs_le.mp c22
  obtain ⟨g_low, g_high⟩ := abs_le.mp c33
  -- the third column has no more along the second than their product and what both have along the
  -- first
  have f_product : (d * f) ^ 2 ≤ 1.00001e-12 := by
    obtain ⟨low, high⟩ := abs_le.mp c23
    have both_high := two_mul_le_add_sq b c
    have both_low := two_mul_le_add_sq (-b) c
    rw [neg_sq] at both_low
    have bound : (d * f) ^ 2 ≤ 1.000002e-6 ^ 2 := sq_le_sq' (by linarith) (by linarith)
    norm_num at bound ⊢
    linarith
  have f_small := sq_le_of_mul (by linarith [sq_nonneg b]) f_product
  have a_near := sq_sub_one_le first (abs_le.mpr ⟨by linarith, by linarith⟩)
  have d_near := sq_sub_one_le second (abs_le.mpr ⟨by linarith, by linarith [sq_nonneg b]⟩)
  have g_near := sq_sub_one_le third
    (abs_le.mpr ⟨by linarith, by linarith [sq_nonneg c, sq_nonneg f]⟩)
  norm_num at *
  linarith

/-- **A block that is accepted is near a rotation.** -/
theorem exists_isRotation_near {r : Matrix3 ℝ}
    (near : (r.transpose * r).Within 1e-6 identity) (proper : 0 < r.det) :
    ∃ q : Matrix3 ℝ, q.IsRotation ∧ distSq r q ≤ 3.8e-12 := by
  obtain ⟨q, u, rotation, triangular, rfl⟩ := exists_rotation_mul_triangular proper
  have same : (q * u).transpose * (q * u) = u.transpose * u := by
    rw [transpose_mul, Matrix3.mul_assoc, ← Matrix3.mul_assoc q.transpose, rotation.orthonormal,
      identity_mul]
  rw [same] at near
  refine ⟨q, rotation, ?_⟩
  have moved := rotation.distSq_mul u identity
  rw [mul_identity] at moved
  rw [moved]
  exact triangular.distSq_identity_le near

end Matrix3

end Toolpath
