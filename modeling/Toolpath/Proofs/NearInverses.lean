import Toolpath.Proofs.ExactPoses
import Toolpath.Proofs.NearRotations
import Toolpath.Proofs.PoseGroup

/-!
# Given poses and their inverses

The check of a given block looks at the products of its columns and at the sign of its determinant.
Here is what follows for what it does not look at. The products of the columns have the square of the
determinant, so that this is near one (`abs_det_sub_one_le_of_gram`). The products of the rows are
near those of the rotation behind the block, since a row that is off by little changes its products
by little (`Point.abs_dot_sub_le`).

With its inverse on the right, a pose gives the products of its rows, for the inverse has the exact
last row. With its inverse on the left it gives those of its columns, and its own last row times the
position of the inverse on top (`tilt`): the inverse does not look at that row, and the product does.

The law (`given_near_rotation`) says all of this, and how much the last row may lean for the product
to be near the identity. An accepted row may lean by more over a position that is far off
(`leaning_inverse_mul`).
-/

namespace Toolpath

open Scalar

/-! ## Products that are off by little -/

namespace Point

/-- A scalar product is at most the product of the lengths. -/
theorem dot_sq_le (p q : Point ℝ) : p.dot q ^ 2 ≤ p.dot p * q.dot q := by
  have lagrange : p.dot p * q.dot q - p.dot q ^ 2 = (p.cross q).dot (p.cross q) := by
    simp only [dot_real, cross_real]
    ring
  linarith [(p.cross q).dot_self_nonneg]

theorem abs_dot_le {p q : Point ℝ} {d e : ℝ} (hd : 0 ≤ d) (he : 0 ≤ e) (hp : p.dot p ≤ d ^ 2)
    (hq : q.dot q ≤ e ^ 2) : |p.dot q| ≤ d * e := by
  refine abs_le_of_sq_le_sq ?_ (mul_nonneg hd he)
  calc p.dot q ^ 2 ≤ p.dot p * q.dot q := p.dot_sq_le q
    _ ≤ d ^ 2 * e ^ 2 := mul_le_mul hp hq q.dot_self_nonneg (sq_nonneg d)
    _ = (d * e) ^ 2 := (mul_pow d e 2).symm

/-- Vectors that are near unit vectors have a product that is near theirs. -/
theorem abs_dot_sub_le {p q u w : Point ℝ} {d : ℝ} (nonneg : 0 ≤ d) (hu : u.dot u = 1)
    (hw : w.dot w = 1) (hp : (p - u).dot (p - u) ≤ d ^ 2) (hq : (q - w).dot (q - w) ≤ d ^ 2) :
    |p.dot q - u.dot w| ≤ 2 * d + d ^ 2 := by
  have split : p.dot q - u.dot w = u.dot (q - w) + (p - u).dot w + (p - u).dot (q - w) := by
    simp only [dot_real, sub_real]
    ring
  have first := abs_dot_le zero_le_one nonneg (hu.trans (one_pow 2).symm).le hq
  have second := abs_dot_le nonneg zero_le_one hp (hw.trans (one_pow 2).symm).le
  have both := abs_dot_le nonneg nonneg hp hq
  rw [split]
  refine (abs_add_three _ _ _).trans ?_
  linarith

end Point

namespace Matrix3

/-! ## Determinants -/

theorem abs_mul_sub_one_le {x y a b : ℝ} (hx : |x - 1| ≤ a) (hy : |y - 1| ≤ b) :
    |x * y - 1| ≤ a * b + a + b := by
  have split : x * y - 1 = (x - 1) * (y - 1) + (x - 1) + (y - 1) := by ring
  have product := mul_le_mul hx hy (abs_nonneg _) ((abs_nonneg _).trans hx)
  rw [split]
  refine (abs_add_three _ _ _).trans ?_
  rw [abs_mul]
  linarith

/-- A matrix near the identity has a determinant near one. -/
theorem abs_det_sub_one_le {s : Matrix3 ℝ} {d : ℝ} (near : s.Within d identity)
    (small : d ≤ 1 / 10) : |s.det - 1| ≤ 4 * d := by
  simp only [Within, toList, identity_real, List.forall₂_cons, sub_zero] at near
  obtain ⟨h11, h12, h13, h21, h22, h23, h31, h32, h33, -⟩ := near
  have nonneg : 0 ≤ d := (abs_nonneg _).trans h12
  have diagonal {x : ℝ} (near : |x - 1| ≤ d) : |x| ≤ 1 + d := by
    have part := abs_sub_abs_le_abs_sub x 1
    rw [abs_one] at part
    linarith
  have product {x y e : ℝ} (hx : |x| ≤ d) (hy : |y| ≤ e) : |x * y| ≤ d * e := by
    rw [abs_mul]
    exact mul_le_mul hx hy (abs_nonneg _) nonneg
  -- each minor beside the diagonal has one small factor in both of its terms
  have minor {x y u w : ℝ} (hx : |x| ≤ d) (hy : |y| ≤ 1 + d) (hu : |u| ≤ d) (hw : |w| ≤ 1 + d) :
      |x * y - u * w| ≤ 2 * (d * (1 + d)) := by
    linarith [abs_sub (x * y) (u * w), product hx hy, product hu hw]
  have whole : |s.m22 * s.m33 - s.m32 * s.m23 - 1| ≤ 2 * d + 2 * d ^ 2 := by
    have triangle := abs_sub (s.m22 * s.m33 - 1) (s.m32 * s.m23)
    rw [sub_right_comm] at triangle
    linarith [abs_mul_sub_one_le h22 h33, product h32 h23]
  have first := abs_mul_sub_one_le h11 whole
  have second := product h12 (minor h21 (diagonal h33) h31 (h23.trans (by linarith)))
  have third := product h13 (minor h21 (h32.trans (by linarith)) h31 (diagonal h22))
  have split : s.det - 1 = s.m11 * (s.m22 * s.m33 - s.m32 * s.m23) - 1 +
      -(s.m12 * (s.m21 * s.m33 - s.m31 * s.m23)) + s.m13 * (s.m21 * s.m32 - s.m31 * s.m22) := by
    rw [det_real]
    ring
  have square : d ^ 2 ≤ 1 / 10 * d := by
    rw [sq]
    exact mul_le_mul_of_nonneg_right small nonneg
  have cube : d ^ 3 ≤ 1 / 10 * d ^ 2 := by
    rw [pow_succ' d 2]
    exact mul_le_mul_of_nonneg_right small (sq_nonneg d)
  rw [split]
  refine (abs_add_three _ _ _).trans ?_
  rw [abs_neg]
  linarith

/-- The products of the columns have the square of the determinant. -/
theorem det_gram (r : Matrix3 ℝ) : (r.transpose * r).det = r.det ^ 2 := by
  simp only [det_real, mul_real, transpose]
  ring

theorem abs_det_sub_one_le_of_gram {r : Matrix3 ℝ} {d : ℝ}
    (near : (r.transpose * r).Within d identity) (small : d ≤ 1 / 10) (proper : 0 < r.det) :
    |r.det - 1| ≤ 4 * d := by
  have square := abs_det_sub_one_le near small
  rw [det_gram] at square
  have factored : r.det ^ 2 - 1 = (r.det - 1) * (r.det + 1) := by ring
  rw [factored, abs_mul, abs_of_pos (by linarith : 0 < r.det + 1)] at square
  exact (le_mul_of_one_le_right (abs_nonneg _) (by linarith)).trans square

/-! ## Rows -/

theorem within_symm {a b : Matrix3 ℝ} {d : ℝ} (near : a.Within d b) : b.Within d a :=
  near.flip.imp fun x y entry => (abs_sub_comm x y).trans_le entry

theorem distSq_transpose (a b : Matrix3 ℝ) : distSq a.transpose b.transpose = distSq a b := by
  unfold distSq transpose
  ring

theorem gram_eq (r : Matrix3 ℝ) : r.transpose * r =
    ⟨r.column1.dot r.column1, r.column1.dot r.column2, r.column1.dot r.column3,
      r.column2.dot r.column1, r.column2.dot r.column2, r.column2.dot r.column3,
      r.column3.dot r.column1, r.column3.dot r.column2, r.column3.dot r.column3⟩ := rfl

/-- The columns of a matrix near a rotation have products near those of the axes. -/
theorem gram_within {r q : Matrix3 ℝ} {d : ℝ} (nonneg : 0 ≤ d) (rotation : q.IsRotation)
    (near : distSq r q ≤ d ^ 2) : (r.transpose * r).Within (2 * d + d ^ 2) identity := by
  have split : distSq r q = (r.column1 - q.column1).dot (r.column1 - q.column1) +
      (r.column2 - q.column2).dot (r.column2 - q.column2) +
      (r.column3 - q.column3).dot (r.column3 - q.column3) := by
    simp only [distSq, column1, column2, column3, Point.sub_real, Point.dot_real]
    ring
  have near1 : (r.column1 - q.column1).dot (r.column1 - q.column1) ≤ d ^ 2 := by
    linarith [(r.column2 - q.column2).dot_self_nonneg, (r.column3 - q.column3).dot_self_nonneg]
  have near2 : (r.column2 - q.column2).dot (r.column2 - q.column2) ≤ d ^ 2 := by
    linarith [(r.column1 - q.column1).dot_self_nonneg, (r.column3 - q.column3).dot_self_nonneg]
  have near3 : (r.column3 - q.column3).dot (r.column3 - q.column3) ≤ d ^ 2 := by
    linarith [(r.column1 - q.column1).dot_self_nonneg, (r.column2 - q.column2).dot_self_nonneg]
  have unit := rotation.orthonormal
  rw [gram_eq, identity_real] at unit
  have unit1 : q.column1.dot q.column1 = 1 := congrArg m11 unit
  have unit2 : q.column2.dot q.column2 = 1 := congrArg m22 unit
  have unit3 : q.column3.dot q.column3 = 1 := congrArg m33 unit
  have entry {p p' u u' : Point ℝ} {x : ℝ} (hu : u.dot u = 1) (hu' : u'.dot u' = 1)
      (hp : (p - u).dot (p - u) ≤ d ^ 2) (hp' : (p' - u').dot (p' - u') ≤ d ^ 2)
      (value : u.dot u' = x) : |p.dot p' - x| ≤ 2 * d + d ^ 2 :=
    value ▸ Point.abs_dot_sub_le nonneg hu hu' hp hp'
  simp only [gram_eq, Within, toList, identity_real, List.forall₂_cons,
    List.forall₂_nil_right_iff, and_true]
  exact ⟨entry unit1 unit1 near1 near1 unit1,
    entry unit1 unit2 near1 near2 (congrArg m12 unit),
    entry unit1 unit3 near1 near3 (congrArg m13 unit),
    entry unit2 unit1 near2 near1 (congrArg m21 unit),
    entry unit2 unit2 near2 near2 unit2,
    entry unit2 unit3 near2 near3 (congrArg m23 unit),
    entry unit3 unit1 near3 near1 (congrArg m31 unit),
    entry unit3 unit2 near3 near2 (congrArg m32 unit),
    entry unit3 unit3 near3 near3 unit3⟩

/-- The rows of an accepted block have products near those of the axes as well. -/
theorem rows_within {r : Matrix3 ℝ} (near : (r.transpose * r).Within 1e-6 identity)
    (proper : 0 < r.det) : (r * r.transpose).Within 1e-5 identity := by
  obtain ⟨q, rotation, close⟩ := exists_isRotation_near near proper
  have turned : distSq r.transpose q.transpose ≤ 1.95e-6 ^ 2 := by
    rw [distSq_transpose]
    exact close.trans (by norm_num)
  have rows := gram_within (by norm_num) rotation.transpose turned
  exact within_mono (by norm_num) rows

end Matrix3

namespace Pose

/-! ## Products with the inverse -/

/-- What the last row adds to the block of the product with the inverse on the left: the position of
the inverse times the row. -/
noncomputable def tilt (a : Pose ℝ) : Matrix3 ℝ :=
  let c := a.inverse.position
  let l := a.last
  ⟨c.x * l.x, c.x * l.y, c.x * l.z, c.y * l.x, c.y * l.y, c.y * l.z, c.z * l.x, c.z * l.y,
    c.z * l.z⟩

variable {a : Pose ℝ}

/-- With the inverse on the right the blocks alone are multiplied: the inverse has the exact row. -/
theorem mul_inverse_rotation (a : Pose ℝ) :
    (a * a.inverse).rotation = a.rotation * a.rotation.transpose := mul_rotation_of_fixed rfl a

/-- With the inverse on the left the tilt stands on top of the products of the columns. -/
theorem inverse_mul_within_iff {e : ℝ} :
    (a.inverse * a).rotation.Within e (a.rotation.transpose * a.rotation) ↔
      ∀ x ∈ a.tilt.toList, |x| ≤ e := by
  have entry {x t : ℝ} : |x + t - x| ≤ e ↔ |t| ≤ e := by rw [add_sub_cancel_left]
  simp only [Matrix3.Within, Matrix3.toList, List.forall₂_cons, List.forall₂_nil_right_iff,
    List.forall_mem_cons, List.not_mem_nil, false_implies, implies_true]
  exact and_congr entry (and_congr entry (and_congr entry (and_congr entry (and_congr entry
    (and_congr entry (and_congr entry (and_congr entry (and_congr entry Iff.rfl))))))))

/-! ## The law -/

/-- **A given block is near a rotation, from both sides.** Its determinant is near one and the
products of its rows are near those of the axes, though neither is looked at. So the pose times its
inverse has a block near the identity. The inverse times the pose has one where the tilt is small,
and nowhere else. -/
theorem given_near_rotation {a : Pose ℝ} (given : Given a) :
    |a.rotation.det - 1| ≤ 1e-5 ∧
    (a.rotation * a.rotation.transpose).Within 1e-5 Matrix3.identity ∧
    (a * a.inverse).rotation.Within 1e-5 Matrix3.identity ∧
    ((∀ x ∈ a.tilt.toList, |x| ≤ 9e-6) →
      (a.inverse * a).rotation.Within 1e-5 Matrix3.identity) ∧
    ((a.inverse * a).rotation.Within 1e-5 Matrix3.identity →
      ∀ x ∈ a.tilt.toList, |x| ≤ 1.1e-5) := by
  obtain ⟨-, near, proper, -⟩ := checked_eq_ok_iff.mp given.checked_eq
  have columns : (a.rotation.transpose * a.rotation).Within 1e-6 Matrix3.identity := near
  have rows := Matrix3.rows_within columns proper
  have det := Matrix3.abs_det_sub_one_le_of_gram columns (by norm_num) proper
  refine ⟨det.trans (by norm_num), rows, ?_, fun small => ?_, fun near => ?_⟩
  · rw [mul_inverse_rotation]
    exact rows
  · have near := Matrix3.within_trans (inverse_mul_within_iff.mpr small) columns
    exact Matrix3.within_mono (by norm_num) near
  · have back := Matrix3.within_trans near (Matrix3.within_symm columns)
    exact inverse_mul_within_iff.mp (Matrix3.within_mono (by norm_num) back)

/-- A quarter turn that stretches one axis, at half a hand's length, over a row that leans as far as
is accepted. -/
noncomputable def stretchedQuarter : Pose ℝ where
  rotation := ⟨0, -1, 0, 1 + 4e-7, 0, 0, 0, 0, 1⟩
  position := ⟨0, 5, 0⟩
  last := ⟨1e-6, 0, 0, 1⟩

theorem given_stretchedQuarter : Given stretchedQuarter := by
  have row : stretchedQuarter.last.accepted = true :=
    LastRow.accepted_of_leaning (by norm_num [abs_of_pos])
  have passed : checked stretchedQuarter = .ok stretchedQuarter := by
    refine checked_eq_ok_iff.mpr ⟨row, ?_, ?_, rfl⟩
    · change Matrix3.Within 1e-6 _ _
      simp only [Matrix3.Within, Matrix3.toList, Matrix3.identity_real, Matrix3.transpose,
        Matrix3.mul_real, List.forall₂_cons, List.forall₂_nil_right_iff, and_true, stretchedQuarter]
      norm_num [abs_le]
    · rw [Matrix3.det_real]
      norm_num [stretchedQuarter]
  exact .matrix passed

/-- Near the origin a stretched block and a row that leans stay within the bounds. -/
theorem given_near_rotation_stretched :
    Given stretchedQuarter ∧ (∀ x ∈ stretchedQuarter.tilt.toList, |x| ≤ 9e-6) ∧
    |stretchedQuarter.rotation.det - 1| ≤ 1e-5 ∧
    (stretchedQuarter * stretchedQuarter.inverse).rotation.Within 1e-5 Matrix3.identity ∧
    (stretchedQuarter.inverse * stretchedQuarter).rotation.Within 1e-5 Matrix3.identity := by
  have small : ∀ x ∈ stretchedQuarter.tilt.toList, |x| ≤ 9e-6 := by
    simp only [tilt, inverse, ofParts, Matrix3.apply_real, Matrix3.transpose, Matrix3.toList,
      Point.neg_real, stretchedQuarter, List.forall_mem_cons, List.not_mem_nil, false_implies,
      implies_true, and_true]
    norm_num [abs_le]
  obtain ⟨det, -, right, left, -⟩ := given_near_rotation given_stretchedQuarter
  exact ⟨given_stretchedQuarter, small, det, right, left small⟩

/-- **A row that leans is multiplied by the position.** A metre from the origin, without a turn and
over a row that is off by a millionth, a pose is accepted. The block of its inverse times itself is
off by a thousandth. -/
theorem leaning_inverse_mul :
    let a : Pose ℝ := ⟨Matrix3.identity, ⟨1024, 0, 0⟩, ⟨1 / 2 ^ 20, 0, 0, 1⟩⟩
    ofRows? 4 4 [1, 0, 0, 1024, 0, 1, 0, 0, 0, 0, 1, 0, 1 / 2 ^ 20, 0, 0, 1] = .ok a ∧
    (a.inverse * a).rotation.m11 = 1 - 1 / 2 ^ 10 ∧
    ¬ ∀ b : Pose ℝ, Given b → (b.inverse * b).rotation.Within 1e-5 Matrix3.identity := by
  intro a
  have given : ofRows? 4 4 [1, 0, 0, 1024, 0, 1, 0, 0, 0, 0, 1, 0, 1 / 2 ^ 20, 0, 0, 1] =
      .ok a := by
    have rows : a.toRows =
        [1, 0, 0, 1024, 0, 1, 0, 0, 0, 0, 1, 0, 1 / 2 ^ 20, 0, 0, (1 : ℝ)] := by
      simp only [a, toRows, Matrix3.identity_real]
    rw [← rows, ofRows?_toRows]
    exact checked_of_isRotation Matrix3.isRotation_identity
      (LastRow.accepted_of_leaning (by norm_num [abs_of_pos]))
  have off : (a.inverse * a).rotation.m11 = 1 - 1 / 2 ^ 10 := by
    change dot4 _ _ _ _ _ _ _ _ = _
    simp only [a, inverse, ofParts, Matrix3.apply_real, Matrix3.transpose, Matrix3.identity_real,
      Point.neg_real, dot4]
    norm_num
  refine ⟨given, off, fun all => ?_⟩
  have near := all a (.rows given)
  simp only [Matrix3.Within, Matrix3.toList, Matrix3.identity_real, List.forall₂_cons] at near
  obtain ⟨first, -⟩ := near
  rw [off] at first
  norm_num [abs_le] at first

end Pose

end Toolpath
