import Toolpath.Proofs.Rotation

/-!
# Angles about X, Y and Z

A pose and its three angles determine each other, as far as they can. Away from gimbal lock the
second angle's cosine is positive, and each of the three angles is that of a point whose distance
from the origin is known; at lock the first angle is zero by convention and the last one is that of
a point on the unit circle.

The law (`euler_round_trip`): reading the angles and turning by them gives the pose back, exactly
away from lock and at exact lock, and within a bound in the sliver that counts as lock and is not;
and turning by angles in range and reading them gives the angles back.

It is a law of exact arithmetic. The bound in the sliver is what the reading gives away there by
design, and no rounding is in it.
-/

namespace Toolpath

open Scalar

/-! ## Angles -/

namespace Scalar

theorem sin_real (x : ℝ) : sin x = Real.sin x := rfl

theorem cos_real (x : ℝ) : cos x = Real.cos x := rfl

theorem hypot_real (x y : ℝ) : hypot x y = √(x ^ 2 + y ^ 2) := rfl

theorem quarterTurn_real : (quarterTurn : ℝ) = Real.pi / 2 := rfl

theorem toRadians_real (x : ℝ) : toRadians x = x * (Real.pi / 180) := rfl

theorem toDegrees_real (x : ℝ) : toDegrees x = x * (180 / Real.pi) := rfl

theorem toRadians_toDegrees (x : ℝ) : toRadians (toDegrees x) = x := by
  rw [toRadians_real, toDegrees_real]
  have := Real.pi_ne_zero
  field_simp

theorem toDegrees_toRadians (x : ℝ) : toDegrees (toRadians x) = x := by
  rw [toRadians_real, toDegrees_real]
  have := Real.pi_ne_zero
  field_simp

/-- The angle of a point whose distance from the origin is known. -/
theorem atan2_polar {x y d : ℝ} (positive : 0 < d) (distance : x ^ 2 + y ^ 2 = d ^ 2) :
    d * Real.cos (atan2 y x) = x ∧ d * Real.sin (atan2 y x) = y := by
  have norm_eq : ‖(⟨x, y⟩ : ℂ)‖ = d := by
    rw [Complex.norm_eq_sqrt_sq_add_sq, distance, Real.sqrt_sq positive.le]
  have nonzero : (⟨x, y⟩ : ℂ) ≠ 0 := by
    rw [← norm_pos_iff, norm_eq]
    exact positive
  constructor
  · show d * Real.cos (Complex.arg ⟨x, y⟩) = x
    rw [Complex.cos_arg nonzero, norm_eq]
    exact mul_div_cancel₀ x positive.ne'
  · show d * Real.sin (Complex.arg ⟨x, y⟩) = y
    rw [Complex.sin_arg, norm_eq]
    exact mul_div_cancel₀ y positive.ne'

/-- The angle of a point given by its distance and an angle in range is that angle. -/
theorem atan2_of_polar {d t : ℝ} (positive : 0 < d) (range : t ∈ Set.Ioc (-Real.pi) Real.pi) :
    atan2 (d * Real.sin t) (d * Real.cos t) = t := by
  have point : (⟨d * Real.cos t, d * Real.sin t⟩ : ℂ) =
      d * (Complex.cos t + Complex.sin t * Complex.I) := by
    apply Complex.ext
    · simp [Complex.cos_ofReal_re, Complex.sin_ofReal_im]
    · simp [Complex.cos_ofReal_im, Complex.sin_ofReal_re]
  show Complex.arg ⟨d * Real.cos t, d * Real.sin t⟩ = t
  rw [point, Complex.arg_mul_cos_add_sin_mul_I positive range]

/-- An angle within a quarter turn is that of its sine and of a length that is its cosine. -/
theorem atan2_sin_sqrt {x y t : ℝ} (range : |t| < Real.pi / 2)
    (square : x ^ 2 + y ^ 2 = Real.cos t ^ 2) : atan2 (Real.sin t) √(x ^ 2 + y ^ 2) = t := by
  have pi_pos := Real.pi_pos
  obtain ⟨low, high⟩ := abs_lt.mp range
  have cos_pos : 0 < Real.cos t := Real.cos_pos_of_mem_Ioo ⟨low, high⟩
  rw [square, Real.sqrt_sq cos_pos.le, ← one_mul (Real.sin t), ← one_mul (Real.cos t)]
  exact atan2_of_polar one_pos ⟨by linarith, by linarith⟩

/-- A point that is not to the left has an angle within a quarter turn. -/
theorem abs_atan2_le {x y : ℝ} (right : 0 ≤ x) : |atan2 y x| ≤ Real.pi / 2 :=
  Complex.abs_arg_le_pi_div_two_iff.mpr right

/-- Degrees are within 90 where radians are within a quarter turn. -/
theorem toDegrees_mem_Icc {x : ℝ} (bounded : |x| ≤ Real.pi / 2) :
    toDegrees x ∈ Set.Icc (-90 : ℝ) 90 := by
  have pi_pos := Real.pi_pos
  obtain ⟨low, high⟩ := abs_le.mp bounded
  rw [toDegrees_real, mul_div_assoc', Set.mem_Icc, le_div_iff₀ pi_pos, div_le_iff₀ pi_pos]
  constructor <;> linarith

end Scalar

/-! ## Turns about X, Y and Z -/

namespace Pose

theorem zero_lt_gimbalLock : (0 : ℝ) < Tolerance.gimbalLock := by
  change (0 : ℝ) < 1e-9
  norm_num

/-- The rotation of three angles in radians. -/
noncomputable def turned (rx ry rz : ℝ) : Matrix3 ℝ :=
  eulerRotation (Real.sin rx) (Real.cos rx) (Real.sin ry) (Real.cos ry) (Real.sin rz) (Real.cos rz)

/-- Angles given in degrees are turned by in radians. -/
theorem ofEuler_real (e : EulerPose ℝ) :
    ofEuler e = ofParts (turned (toRadians e.rx) (toRadians e.ry) (toRadians e.rz)) e.position :=
  rfl

theorem ofEuler_inDegrees (p : Point ℝ) (rx ry rz : ℝ) :
    ofEuler (inDegrees p rx ry rz) = ofParts (turned rx ry rz) p := by
  rw [ofEuler_real]
  simp only [inDegrees, toRadians_toDegrees]
  rfl

/-! ### Reading the angles -/

/-- Away from lock each angle is that of a point. -/
theorem toEuler_of_lt {a : Pose ℝ} (unlocked : |a.rotation.m13| < 1 - Tolerance.gimbalLock) :
    a.toEuler = inDegrees a.position (atan2 (-a.rotation.m23) a.rotation.m33)
      (atan2 a.rotation.m13 √(a.rotation.m11 ^ 2 + a.rotation.m12 ^ 2))
      (atan2 (-a.rotation.m12) a.rotation.m11) := by
  obtain ⟨low, high⟩ := abs_lt.mp unlocked
  unfold toEuler
  simp only [le_real, one_real]
  rw [if_neg (by rw [decide_eq_true_eq]; linarith), if_neg (by rw [decide_eq_true_eq]; linarith)]
  rfl

/-- A lock is to one side or the other. -/
theorem exists_side (x : ℝ) : ∃ side : ℝ, (side = 1 ∨ side = -1) ∧ side * x = |x| := by
  rcases abs_cases x with ⟨same, -⟩ | ⟨opposite, -⟩
  · exact ⟨1, .inl rfl, by rw [same, one_mul]⟩
  · exact ⟨-1, .inr rfl, by rw [opposite, neg_one_mul]⟩

/-- At lock the first angle is zero, and the second a quarter turn to the side of the lock. -/
theorem toEuler_of_le {a : Pose ℝ} {side : ℝ} (sides : side = 1 ∨ side = -1)
    (locked : 1 - Tolerance.gimbalLock ≤ side * a.rotation.m13) :
    a.toEuler = inDegrees a.position 0 (side * (Real.pi / 2))
      (atan2 a.rotation.m21 a.rotation.m22) := by
  have tolerance_lt : (Tolerance.gimbalLock : ℝ) < 1 := by
    change (1e-9 : ℝ) < 1
    norm_num
  unfold toEuler
  simp only [le_real, one_real, zero_real, quarterTurn_real]
  rcases sides with rfl | rfl
  · rw [if_pos (by rw [decide_eq_true_eq]; linarith), one_mul]
  · rw [if_neg (by rw [decide_eq_true_eq]; linarith),
      if_pos (by rw [decide_eq_true_eq]; linarith), neg_one_mul]

/-! ### Turning by the angles read -/

variable {r : Matrix3 ℝ}

/-- Away from lock the three angles turn to the matrix that they were read off. -/
theorem turned_read (rotation : r.IsRotation) (unlocked : |r.m13| < 1) :
    turned (atan2 (-r.m23) r.m33) (atan2 r.m13 √(r.m11 ^ 2 + r.m12 ^ 2)) (atan2 (-r.m12) r.m11) =
      r := by
  obtain ⟨⟨-, -, column3⟩, -, -, -⟩ := Matrix3.orthonormal_iff.mp rotation.orthonormal
  obtain ⟨⟨row1, -, -⟩, rows12, -, rows31⟩ :=
    Matrix3.orthonormal_iff.mp rotation.transpose.orthonormal
  obtain ⟨c11, c12, c13, c21, c22, c23, c31, c32, c33⟩ := rotation.selfCofactor
  simp only [Matrix3.transpose] at row1 rows12 rows31
  -- the cosine of the second angle, by which both other points lie off the origin
  set d := √(r.m11 ^ 2 + r.m12 ^ 2) with hd
  have square : d ^ 2 = r.m11 ^ 2 + r.m12 ^ 2 := Real.sq_sqrt (by positivity)
  have positive : 0 < d := by
    have := (sq_lt_one_iff_abs_lt_one r.m13).mpr unlocked
    exact Real.sqrt_pos.mpr (by linarith)
  obtain ⟨cx, sx⟩ := atan2_polar (x := r.m33) (y := -r.m23) positive (by linarith)
  obtain ⟨cy, sy⟩ := atan2_polar (x := d) (y := r.m13) one_pos (by linarith)
  obtain ⟨cz, sz⟩ := atan2_polar (x := r.m11) (y := -r.m12) positive (by linarith)
  rw [one_mul] at cy sy
  -- the entries that mix the angles are compared after both sides are multiplied by its square
  have cancel {u v : ℝ} (h : d ^ 2 * u = d ^ 2 * v) : u = v :=
    mul_left_cancel₀ (pow_ne_zero 2 positive.ne') h
  have product {u v p q : ℝ} (hu : d * u = p) (hv : d * v = q) : d ^ 2 * (u * v) = p * q := by
    rw [← hu, ← hv]
    ring
  unfold turned eulerRotation
  rw [cy, sy]
  ext
  · exact cz
  · linear_combination -sz
  · rfl
  · apply cancel
    linear_combination product cx sz + r.m13 * product cz sx + r.m12 * c33 - r.m11 * rows12 -
      r.m21 * square
  · apply cancel
    linear_combination product cx cz - r.m13 * product sx sz - r.m11 * c33 - r.m12 * rows12 -
      r.m22 * square
  · linear_combination -sx
  · apply cancel
    linear_combination product sx sz - r.m13 * product cx cz - r.m12 * c23 - r.m11 * rows31 -
      r.m31 * square
  · apply cancel
    linear_combination product cz sx + r.m13 * product cx sz + r.m11 * c23 - r.m12 * rows31 -
      r.m32 * square
  · linear_combination cx

/-- What is left of a rotation at lock: a turn about one axis, by the angle of a point on the unit
circle. -/
def lockedRotation (side c s : ℝ) : Matrix3 ℝ :=
  ⟨0, 0, side, s, c, 0, -(side * c), side * s, 0⟩

/-- At lock the angles turn to the locked rotation of the angle that is left. -/
theorem turned_locked {side : ℝ} (sides : side = 1 ∨ side = -1) (t : ℝ) :
    turned 0 (side * (Real.pi / 2)) t = lockedRotation side (Real.cos t) (Real.sin t) := by
  rcases sides with rfl | rfl
  · simp [turned, eulerRotation, lockedRotation]
  · simp [turned, eulerRotation, lockedRotation, Real.sin_neg, Real.cos_neg]

/-- A number in the unit interval, scaled by a factor just below one, is just below itself. -/
theorem abs_sub_mul_le {u k b : ℝ} (unit : |u| ≤ 1) (below : k ≤ 1) (near : 1 - b ≤ k) :
    |u - k * u| ≤ b := by
  have factored : u - k * u = u * (1 - k) := by ring
  rw [factored, abs_mul, abs_of_nonneg (sub_nonneg.mpr below)]
  calc
    |u| * (1 - k) ≤ 1 * (1 - k) := mul_le_mul_of_nonneg_right unit (sub_nonneg.mpr below)
    _ ≤ b := by linarith

/-- At lock four entries are small: those beside the second angle's sine, in its row and column. -/
theorem locked_entries {side e : ℝ} (rotation : r.IsRotation) (side_sq : side * side = 1)
    (locked : 1 - e ^ 2 / 2 ≤ side * r.m13) :
    side * r.m13 ≤ 1 ∧ (r.m11 ^ 2 ≤ e ^ 2 ∧ r.m12 ^ 2 ≤ e ^ 2) ∧
      r.m23 ^ 2 ≤ e ^ 2 ∧ r.m33 ^ 2 ≤ e ^ 2 := by
  obtain ⟨⟨-, -, column3⟩, -, -, -⟩ := Matrix3.orthonormal_iff.mp rotation.orthonormal
  obtain ⟨⟨row1, -, -⟩, -, -, -⟩ := Matrix3.orthonormal_iff.mp rotation.transpose.orthonormal
  simp only [Matrix3.transpose] at row1
  have h11 := sq_nonneg r.m11
  have h12 := sq_nonneg r.m12
  have h23 := sq_nonneg r.m23
  have h33 := sq_nonneg r.m33
  have square : (side * r.m13) * (side * r.m13) = r.m13 * r.m13 := by
    linear_combination r.m13 * r.m13 * side_sq
  have sine_le : side * r.m13 ≤ 1 :=
    (abs_le.mp (abs_le_one_iff_mul_self_le_one.mpr (by linarith))).2
  have sine_sq : 1 - e ^ 2 ≤ r.m13 * r.m13 := by
    have := sq_nonneg (1 - side * r.m13)
    linarith
  refine ⟨sine_le, ⟨?_, ?_⟩, ?_, ?_⟩ <;> linarith

/-- The closer the second angle's sine is to one, the nearer the locked rotation is to the whole.
The four entries that lock takes for zero are up to `e`; all others are nearer than that. -/
theorem turned_within {side e : ℝ} (rotation : r.IsRotation) (sides : side = 1 ∨ side = -1)
    (nonneg : 0 ≤ e) (small : e ≤ 2 / 5) (locked : 1 - e ^ 2 / 2 ≤ side * r.m13) :
    (turned 0 (side * (Real.pi / 2)) (atan2 r.m21 r.m22)).Within e r := by
  have side_sq : side * side = 1 := by rcases sides with rfl | rfl <;> norm_num
  have side_abs : |side| = 1 := by rcases sides with rfl | rfl <;> norm_num
  obtain ⟨sine_le, ⟨m11_sq, m12_sq⟩, m23_sq, m33_sq⟩ := locked_entries rotation side_sq locked
  obtain ⟨⟨-, row2, -⟩, -, -, -⟩ := Matrix3.orthonormal_iff.mp rotation.transpose.orthonormal
  obtain ⟨-, -, -, -, -, -, c31, c32, -⟩ := rotation.selfCofactor
  simp only [Matrix3.transpose] at row2
  have square_le : e ^ 2 ≤ 2 / 5 * e := by
    rw [sq]
    exact mul_le_mul_of_nonneg_right small nonneg
  have drop {x : ℝ} (hx : x ^ 2 ≤ e ^ 2) : |0 - x| ≤ e := by
    rw [zero_sub, abs_neg]
    exact abs_le_of_sq_le_sq hx nonneg
  have dropped {x y : ℝ} (hx : x ^ 2 ≤ e ^ 2) (hy : y ^ 2 ≤ e ^ 2) : |x * y| ≤ e ^ 2 := by
    rw [abs_mul, sq]
    exact mul_le_mul (abs_le_of_sq_le_sq hx nonneg) (abs_le_of_sq_le_sq hy nonneg) (abs_nonneg y)
      nonneg
  -- the point that the last angle is read off lies just inside the unit circle
  set h := √(r.m22 ^ 2 + r.m21 ^ 2) with hh
  have square : h ^ 2 = r.m22 ^ 2 + r.m21 ^ 2 := Real.sq_sqrt (by positivity)
  have h_pos : 0 < h := Real.sqrt_pos.mpr (by linarith)
  have h_le : h ≤ 1 := by
    have := sq_nonneg r.m23
    exact (sq_le_one_iff₀ h_pos.le).mp (by linarith)
  have le_h : 1 - e ^ 2 ≤ h := by
    have := mul_nonneg h_pos.le (sub_nonneg.mpr h_le)
    linarith
  obtain ⟨hcos, hsin⟩ := atan2_polar h_pos square.symm
  set t := atan2 r.m21 r.m22
  have cos_le := Real.abs_cos_le_one t
  have sin_le := Real.abs_sin_le_one t
  -- the two entries of the last row that are no zero differ by both effects
  have mixed {u p : ℝ} (unit : |u| ≤ 1) (hp : |p| ≤ e ^ 2) :
      |side * (u - side * r.m13 * h * u) + p| ≤ e := by
    have scaled : |u - side * r.m13 * h * u| ≤ 3 / 2 * e ^ 2 := by
      have product_le : side * r.m13 * (1 - h) ≤ 1 - h :=
        mul_le_of_le_one_left (sub_nonneg.mpr h_le) sine_le
      refine abs_sub_mul_le unit (mul_le_one₀ sine_le h_pos.le h_le) ?_
      linarith
    calc
      _ ≤ |side * (u - side * r.m13 * h * u)| + |p| := abs_add_le _ _
      _ = |u - side * r.m13 * h * u| + |p| := by rw [abs_mul, side_abs, one_mul]
      _ ≤ 3 / 2 * e ^ 2 + e ^ 2 := add_le_add scaled hp
      _ ≤ e := by linarith
  rw [turned_locked sides]
  simp only [Matrix3.Within, Matrix3.toList, lockedRotation, List.forall₂_cons]
  refine ⟨drop m11_sq, drop m12_sq, ?_, ?_, ?_, drop m23_sq, ?_, ?_, drop m33_sq, .nil⟩
  · have factored : side - r.m13 = side * (1 - side * r.m13) := by
      linear_combination r.m13 * side_sq
    rw [factored, abs_mul, side_abs, one_mul, abs_of_nonneg (sub_nonneg.mpr sine_le)]
    linarith
  · rw [← hsin]
    exact (abs_sub_mul_le sin_le h_le le_h).trans (by linarith)
  · rw [← hcos]
    exact (abs_sub_mul_le cos_le h_le le_h).trans (by linarith)
  · have split : -(side * Real.cos t) - r.m31 =
        side * (-Real.cos t - side * r.m13 * h * -Real.cos t) + -(r.m12 * r.m23) := by
      linear_combination c31 - r.m13 * hcos - r.m13 * h * Real.cos t * side_sq
    rw [split]
    exact mixed (by rwa [abs_neg]) (by rw [abs_neg]; exact dropped m12_sq m23_sq)
  · have split : side * Real.sin t - r.m32 =
        side * (Real.sin t - side * r.m13 * h * Real.sin t) + r.m11 * r.m23 := by
      linear_combination c32 + r.m13 * hsin + r.m13 * h * Real.sin t * side_sq
    rw [split]
    exact mixed sin_le (dropped m11_sq m23_sq)

/-! ### The round trip -/

variable {a : Pose ℝ}

/-- Turning by the angles of an exact pose gives a pose at its place. -/
theorem ofEuler_toEuler_of_rotation {rx ry rz : ℝ} (exact : a.IsExact)
    (read : a.toEuler = inDegrees a.position rx ry rz) (back : turned rx ry rz = a.rotation) :
    ofEuler a.toEuler = a := by
  rw [read, ofEuler_inDegrees, back]
  exact Pose.ext rfl rfl exact.last.symm

theorem ofEuler_toEuler_of_lt (exact : a.IsExact)
    (unlocked : |a.rotation.m13| < 1 - Tolerance.gimbalLock) : ofEuler a.toEuler = a := by
  refine ofEuler_toEuler_of_rotation exact (toEuler_of_lt unlocked) ?_
  exact turned_read exact.rotation (by linarith [zero_lt_gimbalLock])

/-- Where the second angle's sine counts as one, the pose comes back up to `e`. -/
theorem ofEuler_toEuler_within {e : ℝ} (exact : a.IsExact) (nonneg : 0 ≤ e) (small : e ≤ 2 / 5)
    (locked : 1 - Tolerance.gimbalLock ≤ |a.rotation.m13|)
    (near : 1 - e ^ 2 / 2 ≤ |a.rotation.m13|) :
    a.toEuler.rx = 0 ∧ (ofEuler a.toEuler).Within e a := by
  obtain ⟨side, sides, side_mul⟩ := exists_side a.rotation.m13
  rw [← side_mul] at locked near
  rw [toEuler_of_le sides locked, ofEuler_inDegrees]
  constructor
  · exact zero_mul (180 / Real.pi)
  · exact within_of_rotation nonneg (turned_within exact.rotation sides nonneg small near) rfl
      exact.last.symm

/-- At exact lock nothing is lost. -/
theorem ofEuler_toEuler_of_eq_one (exact : a.IsExact) (locked : |a.rotation.m13| = 1) :
    a.toEuler.rx = 0 ∧ ofEuler a.toEuler = a := by
  have counted : 1 - Tolerance.gimbalLock ≤ |a.rotation.m13| := by
    linarith [zero_lt_gimbalLock]
  obtain ⟨rx, within⟩ :=
    ofEuler_toEuler_within exact le_rfl (by norm_num) counted (by linarith)
  exact ⟨rx, eq_of_within_zero within⟩

/-- The second angle is within a quarter turn, whatever the matrix. -/
theorem toEuler_ry_mem (a : Pose ℝ) : a.toEuler.ry ∈ Set.Icc (-90 : ℝ) 90 := by
  have pi_pos := Real.pi_pos
  unfold toEuler
  simp only [quarterTurn_real]
  split_ifs
  · exact toDegrees_mem_Icc (by rw [abs_of_pos (by positivity)])
  · exact toDegrees_mem_Icc (by rw [abs_neg, abs_of_pos (by positivity)])
  · exact toDegrees_mem_Icc (abs_atan2_le (Real.sqrt_nonneg _))

/-- Degrees in range are radians in range. -/
theorem toRadians_mem_Ioc {x : ℝ} (range : x ∈ Set.Ioc (-180 : ℝ) 180) :
    toRadians x ∈ Set.Ioc (-Real.pi) Real.pi := by
  have pi_pos := Real.pi_pos
  obtain ⟨low, high⟩ := range
  rw [toRadians_real]
  constructor
  · calc
      -Real.pi = -180 * (Real.pi / 180) := by ring
      _ < x * (Real.pi / 180) := mul_lt_mul_of_pos_right low (by positivity)
  · calc
      x * (Real.pi / 180) ≤ 180 * (Real.pi / 180) := mul_le_mul_of_nonneg_right high (by positivity)
      _ = Real.pi := by ring

theorem abs_toRadians_lt {x : ℝ} (range : |x| < 90) : |toRadians x| < Real.pi / 2 := by
  have pi_pos := Real.pi_pos
  rw [toRadians_real, abs_mul, abs_of_pos (by positivity : 0 < Real.pi / 180)]
  calc
    |x| * (Real.pi / 180) < 90 * (Real.pi / 180) := mul_lt_mul_of_pos_right range (by positivity)
    _ = Real.pi / 2 := by ring

/-- Angles in range come back from the pose that they turn to. -/
theorem toEuler_ofEuler {e : EulerPose ℝ} (rx : e.rx ∈ Set.Ioc (-180 : ℝ) 180)
    (rz : e.rz ∈ Set.Ioc (-180 : ℝ) 180) (ry : |e.ry| < 90)
    (unlocked : |Real.sin (toRadians e.ry)| < 1 - Tolerance.gimbalLock) :
    toEuler (ofEuler e) = e := by
  have cos_pos : 0 < Real.cos (toRadians e.ry) :=
    Real.cos_pos_of_mem_Ioo (abs_lt.mp (abs_toRadians_lt ry))
  set c := Real.cos (toRadians e.ry)
  set s := Real.sin (toRadians e.ry)
  -- the points that the angles are read off, each by its distance and its angle
  have first : atan2 (-(-c * Real.sin (toRadians e.rx))) (Real.cos (toRadians e.rx) * c) =
      toRadians e.rx := by
    rw [neg_mul, neg_neg, mul_comm _ c]
    exact atan2_of_polar cos_pos (toRadians_mem_Ioc rx)
  have second : atan2 s √((c * Real.cos (toRadians e.rz)) ^ 2 +
      (-c * Real.sin (toRadians e.rz)) ^ 2) = toRadians e.ry := by
    refine atan2_sin_sqrt (abs_toRadians_lt ry) ?_
    linear_combination c ^ 2 * Real.cos_sq_add_sin_sq (toRadians e.rz)
  have third : atan2 (-(-c * Real.sin (toRadians e.rz))) (c * Real.cos (toRadians e.rz)) =
      toRadians e.rz := by
    rw [neg_mul, neg_neg]
    exact atan2_of_polar cos_pos (toRadians_mem_Ioc rz)
  calc
    toEuler (ofEuler e) =
        inDegrees e.position (toRadians e.rx) (toRadians e.ry) (toRadians e.rz) := by
      rw [toEuler_of_lt unlocked]
      exact congr (congrArg₂ (inDegrees e.position) first second) third
    _ = e := by
      simp only [inDegrees, toDegrees_toRadians]
      rfl

/-! ### The law -/

/-- **Angles and poses determine each other.** Turning by the angles read off an exact pose gives
that pose, away from gimbal lock and at exact lock; the second angle is within 90 degrees, and the
first is zero at lock. Where the second angle's sine is not one and counts as one, no entry is off
by more than a twenty-thousandth. The angles that turn to a pose away from lock are the ones read
off it, if they are in range. -/
theorem euler_round_trip :
    (∀ a : Pose ℝ, a.IsExact →
      |a.rotation.m13| < 1 - Tolerance.gimbalLock ∨ |a.rotation.m13| = 1 →
        ofEuler a.toEuler = a ∧ a.toEuler.ry ∈ Set.Icc (-90 : ℝ) 90 ∧
          (|a.rotation.m13| = 1 → a.toEuler.rx = 0)) ∧
    (∀ a : Pose ℝ, a.IsExact → 1 - Tolerance.gimbalLock ≤ |a.rotation.m13| →
      |a.rotation.m13| < 1 → (ofEuler a.toEuler).Within 5e-5 a) ∧
    ∀ e : EulerPose ℝ, e.rx ∈ Set.Ioc (-180 : ℝ) 180 → e.rz ∈ Set.Ioc (-180 : ℝ) 180 →
      |e.ry| < 90 → |Real.sin (toRadians e.ry)| < 1 - Tolerance.gimbalLock →
        toEuler (ofEuler e) = e := by
  refine ⟨?_, ?_, fun e rx rz ry unlocked => toEuler_ofEuler rx rz ry unlocked⟩
  · intro a exact cases
    refine ⟨?_, toEuler_ry_mem a, fun locked => (ofEuler_toEuler_of_eq_one exact locked).1⟩
    rcases cases with unlocked | locked
    · exact ofEuler_toEuler_of_lt exact unlocked
    · exact (ofEuler_toEuler_of_eq_one exact locked).2
  · intro a exact locked _
    have near : 1 - (5e-5 : ℝ) ^ 2 / 2 ≤ |a.rotation.m13| := by
      have tolerance : (Tolerance.gimbalLock : ℝ) = 1e-9 := rfl
      rw [tolerance] at locked
      exact le_trans (by norm_num) locked
    exact (ofEuler_toEuler_within exact (by norm_num) (by norm_num) locked near).2

/-- A turn about a diagonal, a turn just short of lock, and angles of which one is a half turn. -/
theorem euler_round_trip_tilted :
    let diagonal : Pose ℝ := ofParts ⟨2/3, -1/3, 2/3, 2/3, 2/3, -1/3, -1/3, 2/3, 2/3⟩ ⟨1, 2, 3⟩
    let c : ℝ := 200000 / 10000000001
    let s : ℝ := 9999999999 / 10000000001
    let almost : Pose ℝ := ofParts ⟨c, 0, s, 0, 1, 0, -s, 0, c⟩ ⟨1, 2, 3⟩
    let half : EulerPose ℝ := ⟨1, 2, 3, 180, 30, -90⟩
    (diagonal.IsExact ∧ ofEuler diagonal.toEuler = diagonal) ∧
    (almost.IsExact ∧ 1 - Tolerance.gimbalLock ≤ s ∧ s < 1 ∧
      (ofEuler almost.toEuler).Within 5e-5 almost) ∧
    toEuler (ofEuler half) = half := by
  intro diagonal c s almost half
  have tolerance : (Tolerance.gimbalLock : ℝ) = 1e-9 := rfl
  obtain ⟨exactly, nearly, back⟩ := euler_round_trip
  have diagonal_exact : diagonal.IsExact := by
    refine ⟨⟨Matrix3.orthonormal_iff.mpr ?_, ?_⟩, rfl⟩
    · norm_num [diagonal, ofParts]
    · rw [Matrix3.det_real]
      norm_num [diagonal, ofParts]
  have almost_exact : almost.IsExact := by
    refine ⟨⟨Matrix3.orthonormal_iff.mpr ?_, ?_⟩, rfl⟩
    · norm_num [almost, ofParts, c, s]
    · rw [Matrix3.det_real]
      norm_num [almost, ofParts, c, s]
  have locked : 1 - Tolerance.gimbalLock ≤ s := by
    rw [tolerance]
    norm_num [s]
  have s_lt : s < 1 := by norm_num [s]
  have s_abs : |s| = s := abs_of_pos (by norm_num [s])
  refine ⟨⟨diagonal_exact, (exactly diagonal diagonal_exact (.inl ?_)).1⟩,
    ⟨almost_exact, locked, s_lt, nearly almost almost_exact ?_ ?_⟩, back half ?_ ?_ ?_ ?_⟩
  · rw [tolerance]
    norm_num [diagonal, ofParts, abs_of_pos]
  · exact locked.trans_eq s_abs.symm
  · exact s_abs.trans_lt s_lt
  · norm_num [half]
  · norm_num [half]
  · norm_num [half, abs_of_pos]
  · have sixth : toRadians half.ry = Real.pi / 6 := by
      rw [toRadians_real]
      ring
    rw [sixth, Real.sin_pi_div_six, tolerance]
    norm_num [abs_of_pos]

end Pose

end Toolpath
