import Toolpath.Proofs.Rotation

/-!
# Quaternions of rotations

A unit quaternion stands for a rotation when each product of two of its entries is a quarter of a
sum of the matrix's entries (`StandsFor`). Four of these sums are squares, and any of them that is
not zero can be the pivot: its root is one entry, and the sums that share it are the others, up to
that root. That this always gives the remaining products is what makes the matrix a rotation: every
two by two minor of the table of sums vanishes.

Reading a quaternion off a matrix takes the real entry for the pivot, and near half a turn the
largest of the others. The law (`ofRotation_turn`): both ways lead to a unit quaternion that stands
for the matrix, for every rotation and on both sides of the threshold between them, and a rotation
by next to nothing is taken for none.
-/

namespace Toolpath

open Scalar

namespace Quaternion

/-- A quaternion stands for a matrix: four times the product of any two of its entries is the sum of
the matrix's entries that belongs to the two. -/
structure StandsFor (q : Quaternion ℝ) (r : Matrix3 ℝ) : Prop where
  ww : 4 * (q.w * q.w) = 1 + r.m11 + r.m22 + r.m33
  xx : 4 * (q.x * q.x) = 1 + r.m11 - r.m22 - r.m33
  yy : 4 * (q.y * q.y) = 1 + r.m22 - r.m33 - r.m11
  zz : 4 * (q.z * q.z) = 1 + r.m33 - r.m11 - r.m22
  wx : 4 * (q.w * q.x) = r.m32 - r.m23
  wy : 4 * (q.w * q.y) = r.m13 - r.m31
  wz : 4 * (q.w * q.z) = r.m21 - r.m12
  xy : 4 * (q.x * q.y) = r.m21 + r.m12
  yz : 4 * (q.y * q.z) = r.m32 + r.m23
  zx : 4 * (q.z * q.x) = r.m13 + r.m31

/-! ## What follows for the quaternion -/

theorem normSq_real (q : Quaternion ℝ) : q.normSq = q.w * q.w + q.x * q.x + q.y * q.y + q.z * q.z :=
  rfl

/-- A unit quaternion has a direction, its own. -/
theorem normalize_of_unit {q : Quaternion ℝ} (unit : q.normSq = 1) : q.normalize = q := by
  have long : ¬ (1 : ℝ) < Tolerance.quaternionNorm := by
    change ¬ (1 : ℝ) < 1e-10
    norm_num
  unfold normalize
  rw [unit, lt_real, if_neg (by rwa [decide_eq_true_eq]), sqrt_real, Real.sqrt_one]
  simp only [div_one]

theorem norm_of_unit {q : Quaternion ℝ} (unit : q.normSq = 1) : q.norm = 1 := by
  unfold norm
  rw [unit, sqrt_real, Real.sqrt_one]

/-- The vector part of a unit is as long as the real part leaves it. -/
theorem hypot_of_unit {q : Quaternion ℝ} (unit : q.normSq = 1) :
    hypot (hypot q.x q.y) q.z = √(1 - q.w ^ 2) := by
  rw [normSq_real] at unit
  show √(√(q.x ^ 2 + q.y ^ 2) ^ 2 + q.z ^ 2) = √(1 - q.w ^ 2)
  rw [Real.sq_sqrt (by positivity)]
  congr 1
  linarith

namespace StandsFor

variable {q : Quaternion ℝ} {r : Matrix3 ℝ}

theorem unit (h : q.StandsFor r) : q.normSq = 1 := by
  rw [normSq_real]
  linarith [h.ww, h.xx, h.yy, h.zz]

theorem norm_eq_one (h : q.StandsFor r) : q.norm = 1 := norm_of_unit h.unit

/-- The matrix of a quaternion is the one that it stands for. -/
theorem toRotation_eq (h : q.StandsFor r) : q.toRotation = r := by
  unfold toRotation
  rw [normalize_of_unit h.unit]
  obtain ⟨ww, xx, yy, zz, wx, wy, wz, xy, yz, zx⟩ := h
  simp only [one_real, two_real]
  ext <;> linarith

/-- A quaternion and its negative stand for the same matrix. -/
theorem canonical (h : q.StandsFor r) : q.canonical.StandsFor r := by
  unfold Quaternion.canonical
  split
  · obtain ⟨ww, xx, yy, zz, wx, wy, wz, xy, yz, zx⟩ := h
    constructor <;> linarith
  · exact h

end StandsFor

theorem canonical_w_nonneg (q : Quaternion ℝ) : 0 ≤ q.canonical.w := by
  unfold canonical
  rw [lt_real, zero_real]
  by_cases negative : q.w < 0
  · rw [if_pos (decide_eq_true negative)]
    exact neg_nonneg.mpr negative.le
  · rw [if_neg (by rwa [decide_eq_true_eq])]
    exact not_lt.mp negative

end Quaternion

/-! ## The minors of the table -/

namespace Matrix3.IsRotation

variable {r : Matrix3 ℝ}

theorem minor_wx (h : r.IsRotation) : (r.m32 - r.m23) * (r.m32 - r.m23) =
    (1 + r.m11 + r.m22 + r.m33) * (1 + r.m11 - r.m22 - r.m33) := by
  obtain ⟨⟨-, column2, column3⟩, -⟩ := orthonormal_iff.mp h.orthonormal
  obtain ⟨⟨row1, -, -⟩, -⟩ := orthonormal_iff.mp h.transpose.orthonormal
  simp only [Matrix3.transpose] at row1
  linear_combination column2 + column3 - row1 + 2 * h.selfCofactor.m11

theorem minor_xy (h : r.IsRotation) : (r.m21 + r.m12) * (r.m21 + r.m12) =
    (1 + r.m11 - r.m22 - r.m33) * (1 + r.m22 - r.m33 - r.m11) := by
  obtain ⟨⟨-, -, column3⟩, -⟩ := orthonormal_iff.mp h.orthonormal
  obtain ⟨⟨row1, row2, -⟩, -⟩ := orthonormal_iff.mp h.transpose.orthonormal
  simp only [Matrix3.transpose] at row1 row2
  linear_combination row1 + row2 - column3 - 2 * h.selfCofactor.m33

theorem minor_wxy (h : r.IsRotation) : (r.m32 - r.m23) * (r.m13 - r.m31) =
    (1 + r.m11 + r.m22 + r.m33) * (r.m21 + r.m12) := by
  obtain ⟨-, columns12, -, -⟩ := orthonormal_iff.mp h.orthonormal
  obtain ⟨-, rows12, -, -⟩ := orthonormal_iff.mp h.transpose.orthonormal
  simp only [Matrix3.transpose] at rows12
  linear_combination h.selfCofactor.m21 + h.selfCofactor.m12 - columns12 - rows12

theorem minor_xwy (h : r.IsRotation) : (r.m32 - r.m23) * (r.m21 + r.m12) =
    (1 + r.m11 - r.m22 - r.m33) * (r.m13 - r.m31) := by
  obtain ⟨-, -, -, columns31⟩ := orthonormal_iff.mp h.orthonormal
  obtain ⟨-, -, -, rows31⟩ := orthonormal_iff.mp h.transpose.orthonormal
  simp only [Matrix3.transpose] at rows31
  linear_combination h.selfCofactor.m13 - h.selfCofactor.m31 + rows31 - columns31

theorem minor_xwz (h : r.IsRotation) : (r.m32 - r.m23) * (r.m13 + r.m31) =
    (1 + r.m11 - r.m22 - r.m33) * (r.m21 - r.m12) := by
  obtain ⟨-, columns12, -, -⟩ := orthonormal_iff.mp h.orthonormal
  obtain ⟨-, rows12, -, -⟩ := orthonormal_iff.mp h.transpose.orthonormal
  simp only [Matrix3.transpose] at rows12
  linear_combination h.selfCofactor.m21 - h.selfCofactor.m12 + columns12 - rows12

theorem minor_xyz (h : r.IsRotation) : (r.m21 + r.m12) * (r.m13 + r.m31) =
    (1 + r.m11 - r.m22 - r.m33) * (r.m32 + r.m23) := by
  obtain ⟨-, -, columns23, -⟩ := orthonormal_iff.mp h.orthonormal
  obtain ⟨-, -, rows23, -⟩ := orthonormal_iff.mp h.transpose.orthonormal
  simp only [Matrix3.transpose] at rows23
  linear_combination h.selfCofactor.m32 + h.selfCofactor.m23 + rows23 + columns23

end Matrix3.IsRotation

/-! ## Pivots -/

namespace Quaternion

variable {r : Matrix3 ℝ}

/-- Two entries over one pivot: their product is a sum of the table where the minor vanishes. -/
theorem four_mul_div_mul_div {s u v k m : ℝ} (positive : 0 < s) (pivot : s * s = k)
    (minor : u * v = k * m) : 4 * (u / (2 * s) * (v / (2 * s))) = m := by
  calc
    4 * (u / (2 * s) * (v / (2 * s))) = u * v / (s * s) := by ring
    _ = m := by
      rw [minor, pivot]
      exact mul_div_cancel_left₀ m (pivot ▸ (mul_pos positive positive).ne')

/-- An entry over the pivot, and the pivot's own: half the root. -/
theorem four_mul_half_mul_div {s : ℝ} (u : ℝ) (positive : 0 < s) :
    4 * (s / 2 * (u / (2 * s))) = u := by
  calc
    4 * (s / 2 * (u / (2 * s))) = u * (s / s) := by ring
    _ = u := by rw [div_self positive.ne', mul_one]

/-- The real entry for the pivot. -/
theorem standsFor_of_real_pivot (h : r.IsRotation) {s : ℝ} (positive : 0 < s)
    (pivot : s * s = 1 + r.m11 + r.m22 + r.m33) :
    StandsFor ⟨s / 2, (r.m32 - r.m23) / (2 * s), (r.m13 - r.m31) / (2 * s),
      (r.m21 - r.m12) / (2 * s)⟩ r := by
  have wy := h.cycle.minor_wx
  have wz := h.cycle.cycle.minor_wx
  have wyz := h.cycle.minor_wxy
  have wzx := h.cycle.cycle.minor_wxy
  simp only [Matrix3.cycle] at wy wz wyz wzx
  exact {
    ww := by linear_combination pivot
    xx := four_mul_div_mul_div positive pivot h.minor_wx
    yy := four_mul_div_mul_div positive pivot (by linear_combination wy)
    zz := four_mul_div_mul_div positive pivot (by linear_combination wz)
    wx := four_mul_half_mul_div _ positive
    wy := four_mul_half_mul_div _ positive
    wz := four_mul_half_mul_div _ positive
    xy := four_mul_div_mul_div positive pivot h.minor_wxy
    yz := four_mul_div_mul_div positive pivot (by linear_combination wyz)
    zx := four_mul_div_mul_div positive pivot (by linear_combination wzx) }

/-- The first entry for the pivot. -/
theorem standsFor_of_first_pivot (h : r.IsRotation) {s : ℝ} (positive : 0 < s)
    (pivot : s * s = 1 + r.m11 - r.m22 - r.m33) :
    StandsFor ⟨(r.m32 - r.m23) / (2 * s), s / 2, (r.m21 + r.m12) / (2 * s),
      (r.m13 + r.m31) / (2 * s)⟩ r := by
  have wx := h.minor_wx
  have xy := h.minor_xy
  have zx := h.cycle.cycle.minor_xy
  simp only [Matrix3.cycle] at zx
  exact {
    ww := four_mul_div_mul_div positive pivot (by linear_combination wx)
    xx := by linear_combination pivot
    yy := four_mul_div_mul_div positive pivot (by linear_combination xy)
    zz := four_mul_div_mul_div positive pivot (by linear_combination zx)
    wx := by linear_combination four_mul_half_mul_div (r.m32 - r.m23) positive
    wy := four_mul_div_mul_div positive pivot h.minor_xwy
    wz := four_mul_div_mul_div positive pivot h.minor_xwz
    xy := four_mul_half_mul_div _ positive
    yz := four_mul_div_mul_div positive pivot h.minor_xyz
    zx := by linear_combination four_mul_half_mul_div (r.m13 + r.m31) positive }

/-- The entries of the vector part renamed in a circle. -/
def cycle (q : Quaternion ℝ) : Quaternion ℝ := ⟨q.w, q.z, q.x, q.y⟩

theorem normalize_cycle (q : Quaternion ℝ) : q.cycle.normalize = q.normalize.cycle := by
  have same : q.cycle.normSq = q.normSq := by
    simp only [normSq_real, cycle]
    ring
  unfold normalize
  rw [same]
  split
  · rfl
  · rfl

/-- Renaming the axes in a circle moves the entries of the vector part along. -/
theorem StandsFor.of_cycle {q : Quaternion ℝ} (h : q.StandsFor r.cycle) : q.cycle.StandsFor r := by
  obtain ⟨ww, xx, yy, zz, wx, wy, wz, xy, yz, zx⟩ := h
  simp only [Matrix3.cycle] at ww xx yy zz wx wy wz xy yz zx
  constructor <;> simp only [cycle] <;> linarith

/-! ## About half a turn -/

/-- Beside a large pivot the entries are what its root makes of them. -/
theorem aboutAxis?_real {k i j : ℝ} (ki kj ji : ℝ) (large : 1 ≤ 1 + k - i - j) :
    let s := √(1 + k - i - j)
    aboutAxis? k i j ki kj ji = some (ji / (2 * s), s / 2, ki / (2 * s), kj / (2 * s)) := by
  intro s
  have root : sqrt (atLeastZero (1.0 + k - i - j)) * 2.0 = 2 * s := by
    rw [atLeastZero_real, one_real, two_real, max_eq_left (by linarith), sqrt_real, mul_comm]
  have one_le : 1 ≤ s := Real.one_le_sqrt.mpr large
  have divides : ¬ 2 * s < Tolerance.quaternionNorm := by
    change ¬ 2 * s < 1e-10
    linarith
  have half : (0.25 : ℝ) * (2 * s) = s / 2 := by ring
  unfold aboutAxis?
  simp only [root, lt_real, decide_eq_true_eq]
  rw [if_neg divides, half]

/-- The quaternion read off with the first axis for the pivot. -/
noncomputable def aboutFirst? (r : Matrix3 ℝ) : Option (ℝ × ℝ × ℝ × ℝ) :=
  aboutAxis? r.m11 r.m22 r.m33 (r.m21 + r.m12) (r.m31 + r.m13) (r.m32 - r.m23)

/-- Of the three ways only the first has to be looked at: the others are the same with the axes
renamed, so that the first one has the largest diagonal entry. -/
theorem ofHalfTurn_of_first (given : Matrix3 ℝ → Prop) (reads : Quaternion ℝ → Matrix3 ℝ → Prop)
    (renamed : ∀ {r}, given r → given r.cycle)
    (back : ∀ {q r}, reads q r.cycle → reads q.cycle r)
    (first : ∀ {r}, given r → r.m22 ≤ r.m11 → r.m33 ≤ r.m11 →
      ∃ w k i j, aboutFirst? r = some (w, k, i, j) ∧ reads (normalize ⟨w, k, i, j⟩) r)
    (h : given r) : reads (ofHalfTurn r) r := by
  unfold ofHalfTurn
  simp only [le_real, Bool.and_eq_true, decide_eq_true_eq]
  by_cases largest : r.m22 ≤ r.m11 ∧ r.m33 ≤ r.m11
  · obtain ⟨w, k, i, j, read, holds⟩ := first h largest.1 largest.2
    have pivot : aboutAxis? r.m11 r.m22 r.m33 (r.m21 + r.m12) (r.m31 + r.m13) (r.m32 - r.m23) =
      some (w, k, i, j) := read
    rw [if_pos largest, pivot]
    exact holds
  · by_cases second : r.m33 ≤ r.m22
    · have m11_le : r.m11 ≤ r.m22 := by
        by_contra above
        exact largest ⟨(not_le.mp above).le, second.trans (not_le.mp above).le⟩
      obtain ⟨w, k, i, j, read, holds⟩ := first (renamed h) second m11_le
      have pivot : aboutAxis? r.m22 r.m33 r.m11 (r.m32 + r.m23) (r.m12 + r.m21) (r.m13 - r.m31) =
        some (w, k, i, j) := read
      rw [if_neg largest, if_pos second, pivot]
      have turned := back holds
      rwa [← normalize_cycle] at turned
    · have m11_le : r.m11 ≤ r.m33 := by
        by_contra above
        exact largest ⟨((not_le.mp second).trans (not_le.mp above)).le, (not_le.mp above).le⟩
      obtain ⟨w, k, i, j, read, holds⟩ :=
        first (renamed (renamed h)) m11_le (not_le.mp second).le
      have pivot : aboutAxis? r.m33 r.m11 r.m22 (r.m13 + r.m31) (r.m23 + r.m32) (r.m21 - r.m12) =
        some (w, k, i, j) := read
      rw [if_neg largest, if_neg second, pivot]
      have turned := back (back holds)
      rwa [← normalize_cycle, ← normalize_cycle] at turned

/-- The first axis can be the pivot where its diagonal entry is the largest and the trace is not
positive. -/
theorem exists_aboutFirst? (h : r.IsRotation) (trace : r.trace ≤ 0) (m22 : r.m22 ≤ r.m11)
    (m33 : r.m33 ≤ r.m11) :
    ∃ w k i j, aboutFirst? r = some (w, k, i, j) ∧ (normalize ⟨w, k, i, j⟩).StandsFor r := by
  rw [Matrix3.trace_real] at trace
  have large : 1 ≤ 1 + r.m11 - r.m22 - r.m33 := by linarith
  have positive : 0 < √(1 + r.m11 - r.m22 - r.m33) := Real.sqrt_pos.mpr (by linarith)
  refine ⟨_, _, _, _, aboutAxis?_real _ _ _ large, ?_⟩
  rw [add_comm r.m31 r.m13]
  have stands := standsFor_of_first_pivot h positive (Real.mul_self_sqrt (by linarith))
  rwa [normalize_of_unit stands.unit]

/-- The quaternion read off near half a turn stands for the matrix, whichever diagonal entry is the
largest. -/
theorem ofHalfTurn_standsFor (h : r.IsRotation) (trace : r.trace ≤ 0) :
    (ofHalfTurn r).StandsFor r := by
  refine ofHalfTurn_of_first (fun r => r.IsRotation ∧ r.trace ≤ 0) StandsFor
    ?renamed ?back ?first ⟨h, trace⟩
  case renamed =>
    rintro r ⟨rotation, trace⟩
    exact ⟨rotation.cycle, r.trace_cycle.trans_le trace⟩
  case back =>
    exact StandsFor.of_cycle
  case first =>
    rintro r ⟨rotation, trace⟩
    exact exists_aboutFirst? rotation trace

/-! ## Less than about half a turn -/

theorem sign_mul_abs (x : ℝ) : sign x * |x| = x := by
  unfold sign
  rw [lt_real, zero_real, one_real]
  by_cases negative : x < 0
  · rw [if_pos (decide_eq_true negative), abs_of_neg negative]
    ring
  · rw [if_neg (by rwa [decide_eq_true_eq]), abs_of_nonneg (not_lt.mp negative), one_mul]

/-- An entry read off as a root with a sign is the one that the pivot gives. -/
theorem signed_root {s u m : ℝ} (positive : 0 < s) (minor : u * u = s * s * m) :
    sign u * sqrt (atLeastZero m) / 2.0 = u / (2 * s) := by
  have m_nonneg : 0 ≤ m := by
    by_contra negative
    have := mul_neg_of_pos_of_neg (mul_pos positive positive) (not_le.mp negative)
    linarith [mul_self_nonneg u]
  have root : s * √m = |u| := by
    rw [← Real.sqrt_mul_self positive.le, ← Real.sqrt_mul (mul_self_nonneg s), ← minor,
      Real.sqrt_mul_self_eq_abs]
  rw [atLeastZero_real, max_eq_left m_nonneg, sqrt_real, two_real, div_eq_div_iff two_ne_zero
    (by positivity)]
  linear_combination 2 * sign u * root + 2 * sign_mul_abs u

/-- The quaternion read off the diagonal stands for the matrix where it has a real part. -/
theorem ofDiagonal_standsFor (h : r.IsRotation) (real : 0 < 1 + r.m11 + r.m22 + r.m33) :
    (ofDiagonal r).StandsFor r := by
  set s := √(1 + r.m11 + r.m22 + r.m33) with hs
  have positive : 0 < s := Real.sqrt_pos.mpr real
  have pivot : s * s = 1 + r.m11 + r.m22 + r.m33 := Real.mul_self_sqrt real.le
  have y := h.cycle.minor_wx
  have z := h.cycle.cycle.minor_wx
  simp only [Matrix3.cycle] at y z
  have read : ofDiagonal r = ⟨s / 2, (r.m32 - r.m23) / (2 * s), (r.m13 - r.m31) / (2 * s),
      (r.m21 - r.m12) / (2 * s)⟩ := by
    unfold ofDiagonal
    ext
    · have sum : r.m11 + r.m22 + r.m33 + 1 = 1 + r.m11 + r.m22 + r.m33 := by ring
      simp only [atLeastZero_real, one_real, two_real, sqrt_real, sum, max_eq_left real.le]
      rfl
    · refine signed_root positive ?_
      rw [pivot, h.minor_wx, one_real]
      ring
    · refine signed_root positive ?_
      rw [pivot, y, one_real]
      ring
    · refine signed_root positive ?_
      rw [pivot, z, one_real]
      ring
  rw [read]
  exact standsFor_of_real_pivot h positive pivot

/-! ## Both ways -/

/-- Bringing the cosine into its range moves it over no bound inside that range. -/
theorem cosAngle_lt_iff (r : Matrix3 ℝ) {bound : ℝ} (low : -1 < bound) (high : bound ≤ 1) :
    cosAngle r < bound ↔ (r.trace - 1) / 2 < bound := by
  have half : (r.trace - 1) * 0.5 = (r.trace - 1) / 2 := by ring
  unfold cosAngle clamp
  simp only [one_real, half, lt_real, decide_eq_true_eq]
  split_ifs with below above
  · exact ⟨fun _ => below.trans low, fun _ => low⟩
  · constructor <;> intro <;> linarith
  · exact Iff.rfl

/-- Every rotation has a quaternion that stands for it, and that is the one read off unless its
vector part is next to nothing. -/
theorem exists_standsFor (h : r.IsRotation) : ∃ q : Quaternion ℝ, q.StandsFor r ∧
    ofRotation r =
      if √(1 - q.w ^ 2) < Tolerance.identity then Quaternion.identity else q.canonical := by
  have tolerance : (Tolerance.halfTurn : ℝ) = 1e-7 := rfl
  have low : (-1 : ℝ) < -1 + Tolerance.halfTurn := by
    rw [tolerance]
    norm_num
  have high : -1 + Tolerance.halfTurn ≤ (1 : ℝ) := by
    rw [tolerance]
    norm_num
  have bound := cosAngle_lt_iff r low high
  rw [tolerance, Matrix3.trace_real] at bound
  have read (q : Quaternion ℝ) (stands : q.StandsFor r)
      (branch : (if lt (cosAngle r) (-1.0 + Tolerance.halfTurn) then ofHalfTurn r
        else ofDiagonal r) = q) : ofRotation r =
      if √(1 - q.w ^ 2) < Tolerance.identity then Quaternion.identity else q.canonical := by
    simp only [ofRotation, branch]
    rw [hypot_of_unit stands.unit, lt_real]
    simp only [decide_eq_true_eq]
  simp only [lt_real, one_real, decide_eq_true_eq, tolerance] at read
  by_cases near : cosAngle r < -1 + 1e-7
  · have stands : (ofHalfTurn r).StandsFor r := by
      refine ofHalfTurn_standsFor h ?_
      rw [Matrix3.trace_real]
      linarith [bound.mp near]
    exact ⟨_, stands, read _ stands (if_pos near)⟩
  · have stands : (ofDiagonal r).StandsFor r := by
      refine ofDiagonal_standsFor h ?_
      linarith [not_lt.mp (mt bound.mpr near)]
    exact ⟨_, stands, read _ stands (if_neg near)⟩

end Quaternion

/-! ## Axis and angle -/

/-- A turn about an axis, by an angle of up to half a turn: what lies along the axis stays, and what
lies across is turned by the angle. -/
structure Matrix3.TurnsAbout (r : Matrix3 ℝ) (axis : Point ℝ) (angle : ℝ) : Prop where
  unit : axis.norm = 1
  range : angle ∈ Set.Icc 0 Real.pi
  apply : ∀ p, r.apply p = p * Real.cos angle + axis.cross p * Real.sin angle +
    axis * (axis.dot p * (1 - Real.cos angle))

namespace Matrix3.TurnsAbout

variable {r : Matrix3 ℝ} {axis : Point ℝ} {angle : ℝ}

/-- The trace of a turn, from what becomes of the three axes. -/
theorem trace_eq (h : r.TurnsAbout axis angle) : r.trace = 1 + 2 * Real.cos angle := by
  have unit := axis.norm_sq
  rw [h.unit] at unit
  have alongX := congrArg Point.x (h.apply ⟨1, 0, 0⟩)
  have alongY := congrArg Point.y (h.apply ⟨0, 1, 0⟩)
  have alongZ := congrArg Point.z (h.apply ⟨0, 0, 1⟩)
  simp only [apply_real, Point.add_real, Point.mul_real, Point.cross_real, Point.dot_real]
    at alongX alongY alongZ
  rw [trace_real]
  linear_combination alongX + alongY + alongZ - (1 - Real.cos angle) * unit

/-- Half the angle, from the real part of a quaternion. -/
theorem sqrt_one_sub_sq (h : r.TurnsAbout axis angle) {q : Quaternion ℝ} (stands : q.StandsFor r) :
    √(1 - q.w ^ 2) = Real.sin (angle / 2) := by
  obtain ⟨nonneg, le_pi⟩ := h.range
  have half_nonneg : 0 ≤ Real.sin (angle / 2) :=
    Real.sin_nonneg_of_nonneg_of_le_pi (by linarith) (by linarith)
  have half := Real.sin_sq_eq_half_sub (angle / 2)
  rw [mul_div_cancel₀ angle two_ne_zero] at half
  have trace := h.trace_eq
  rw [trace_real] at trace
  have square : 1 - q.w ^ 2 = Real.sin (angle / 2) ^ 2 := by
    linarith [stands.ww]
  rw [square, Real.sqrt_sq half_nonneg]

end Matrix3.TurnsAbout

namespace Quaternion.StandsFor

variable {q : Quaternion ℝ} {r : Matrix3 ℝ}

/-- What the matrix does to a point, by the quaternion: twice a part along the vector part, twice a
part across it, and the rest in proportion. -/
theorem apply_eq (h : q.StandsFor r) (p : Point ℝ) :
    r.apply p = p * (2 * q.w ^ 2 - 1) + q.vector.cross p * (2 * q.w) +
      q.vector * (q.vector.dot p * 2) := by
  obtain ⟨ww, xx, yy, zz, wx, wy, wz, xy, yz, zx⟩ := h
  simp only [Matrix3.apply_real, Point.add_real, Point.mul_real, Point.cross_real, Point.dot_real,
    vector, Point.mk.injEq]
  refine ⟨?_, ?_, ?_⟩
  · linear_combination p.x * (-ww - xx) / 2 + p.y * (wz - xy) / 2 + p.z * (-wy - zx) / 2
  · linear_combination p.x * (-wz - xy) / 2 + p.y * (-ww - yy) / 2 + p.z * (wx - yz) / 2
  · linear_combination p.x * (wy - zx) / 2 + p.y * (-wx - yz) / 2 + p.z * (-ww - zz) / 2

/-- A quaternion with a vector part turns about it, and one without turns by nothing. -/
theorem exists_turnsAbout (h : q.StandsFor r) (nonneg : 0 ≤ q.w) :
    ∃ axis angle, r.TurnsAbout axis angle := by
  have unit := h.unit
  rw [normSq_real] at unit
  have square : q.vector.norm ^ 2 = 1 - q.w ^ 2 := by
    rw [Point.norm_sq]
    simp only [vector]
    linarith
  set l := q.vector.norm with hl
  have l_nonneg : 0 ≤ l := Real.sqrt_nonneg _
  have w_le : q.w ≤ 1 := (sq_le_one_iff₀ nonneg).mp (by linarith [sq_nonneg l])
  rcases l_nonneg.eq_or_lt with none | some
  · have vector_zero : q.vector = ⟨0, 0, 0⟩ := by
      have sum := q.vector.norm_sq
      rw [← hl, ← none] at sum
      apply Point.eq_of_dot_sub_eq_zero
      simp only [Point.dot_real, Point.sub_real]
      linarith
    have w_sq : q.w ^ 2 = 1 := by
      rw [← none] at square
      linarith
    refine ⟨⟨0, 0, 1⟩, 0, by simp [Point.norm_real], ⟨le_rfl, Real.pi_pos.le⟩, fun p => ?_⟩
    rw [h.apply_eq p, vector_zero, w_sq, Real.cos_zero, Real.sin_zero]
    simp only [Point.add_real, Point.mul_real, Point.cross_real, Point.dot_real, Point.mk.injEq]
    refine ⟨?_, ?_, ?_⟩ <;> ring
  · have angle_cos : Real.cos (2 * Real.arccos q.w) = 2 * q.w ^ 2 - 1 := by
      rw [Real.cos_two_mul, Real.cos_arccos (by linarith) w_le]
    have angle_sin : Real.sin (2 * Real.arccos q.w) = 2 * l * q.w := by
      rw [Real.sin_two_mul, Real.cos_arccos (by linarith) w_le, Real.sin_arccos, ← square,
        Real.sqrt_sq l_nonneg]
    obtain ⟨axis, direction⟩ : ∃ axis : Point ℝ, q.vector = axis * l :=
      ⟨q.vector / l, by simp only [Point.div_real, Point.mul_real, div_mul_cancel₀ _ some.ne']⟩
    have axis_sq : axis.x ^ 2 + axis.y ^ 2 + axis.z ^ 2 = 1 := by
      have sum := q.vector.norm_sq
      rw [← hl, direction] at sum
      simp only [Point.mul_real] at sum
      apply mul_left_cancel₀ (pow_ne_zero 2 some.ne')
      linarith
    refine ⟨axis, 2 * Real.arccos q.w, ?_, ⟨?_, ?_⟩, fun p => ?_⟩
    · rw [Point.norm_real, axis_sq, Real.sqrt_one]
    · linarith [Real.arccos_nonneg q.w]
    · linarith [Real.arccos_le_pi_div_two.mpr nonneg]
    · have w_sq : q.w ^ 2 = 1 - l ^ 2 := by linarith
      rw [h.apply_eq p, angle_cos, angle_sin, w_sq, direction]
      simp only [Point.add_real, Point.mul_real, Point.cross_real, Point.dot_real, Point.mk.injEq]
      refine ⟨?_, ?_, ?_⟩ <;> ring

end Quaternion.StandsFor

/-- Every rotation turns about some axis. -/
theorem Matrix3.IsRotation.exists_turnsAbout {r : Matrix3 ℝ} (h : r.IsRotation) :
    ∃ axis angle, r.TurnsAbout axis angle := by
  obtain ⟨q, stands, -⟩ := Quaternion.exists_standsFor h
  exact stands.canonical.exists_turnsAbout q.canonical_w_nonneg

namespace Quaternion

/-- **A rotation and its quaternion.** Every rotation turns about some axis by some angle. Unless
the sine of half the angle counts as nothing, the quaternion read off has a real part that is not
negative, is a unit, and is turned back into the very same matrix. If it does, the quaternion is
that of no rotation. -/
theorem ofRotation_turn {r : Matrix3 ℝ} (rotation : r.IsRotation) :
    (∃ axis angle, r.TurnsAbout axis angle) ∧
    ∀ axis angle, r.TurnsAbout axis angle →
      (Tolerance.identity ≤ Real.sin (angle / 2) →
        0 ≤ (ofRotation r).w ∧ (ofRotation r).norm = 1 ∧ (ofRotation r).toRotation = r) ∧
      (Real.sin (angle / 2) < Tolerance.identity → ofRotation r = Quaternion.identity) := by
  refine ⟨rotation.exists_turnsAbout, fun axis angle turns => ?_⟩
  obtain ⟨q, stands, read⟩ := exists_standsFor rotation
  rw [read, turns.sqrt_one_sub_sq stands]
  constructor
  · intro enough
    rw [if_neg (not_lt.mpr enough)]
    exact ⟨canonical_w_nonneg q, stands.canonical.norm_eq_one, stands.canonical.toRotation_eq⟩
  · exact fun little => if_pos little

/-- Half a turn about a slanted axis, where the real part is zero. -/
theorem ofRotation_turn_half :
    let r : Matrix3 ℝ := ⟨-7/9, 4/9, 4/9, 4/9, -1/9, 8/9, 4/9, 8/9, -1/9⟩
    r.IsRotation ∧ r.TurnsAbout ⟨1/3, 2/3, 2/3⟩ Real.pi ∧
      Tolerance.identity ≤ Real.sin (Real.pi / 2) ∧
      0 ≤ (ofRotation r).w ∧ (ofRotation r).norm = 1 ∧ (ofRotation r).toRotation = r := by
  intro r
  have rotation : r.IsRotation := by
    refine ⟨Matrix3.orthonormal_iff.mpr ?_, ?_⟩
    · norm_num [r]
    · rw [Matrix3.det_real]
      norm_num [r]
  have turns : r.TurnsAbout ⟨1/3, 2/3, 2/3⟩ Real.pi := by
    refine ⟨by norm_num [Point.norm_real], ⟨Real.pi_pos.le, le_rfl⟩, fun p => ?_⟩
    rw [Real.cos_pi, Real.sin_pi]
    simp only [r, Matrix3.apply_real, Point.add_real, Point.mul_real, Point.cross_real,
      Point.dot_real, Point.mk.injEq]
    refine ⟨?_, ?_, ?_⟩ <;> ring
  have enough : (Tolerance.identity : ℝ) ≤ Real.sin (Real.pi / 2) := by
    rw [Real.sin_pi_div_two]
    change (1e-9 : ℝ) ≤ 1
    norm_num
  exact ⟨rotation, turns, enough, ((ofRotation_turn rotation).2 _ _ turns).1 enough⟩

end Quaternion

end Toolpath
