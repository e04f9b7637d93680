import Toolpath.Proofs.EulerAngles

/-!
# Roll, pitch and yaw

The second convention of three angles is the first one with the axes in reverse order. What roll,
pitch and yaw turn to is what the same angles about X, Y and Z turn to, the last one first and all
of them the other way round (`rolled_eq`). Reversing the axes makes no rotation less of one and
moves no entry further away, so turning by the angles read is taken over from the first convention,
away from lock and at lock alike.

What is not taken over is the reading itself. At lock it looks at other entries than the first
convention does, on each side with its own sign (`rolled_locked`), and the band that counts as lock
is a thousand times as wide, so that more is given away there.

The law (`rollPitchYaw_round_trip`) has the same three parts, in exact arithmetic.
-/

namespace Toolpath

open Scalar

/-! ## The axes in reverse order -/

namespace Matrix3

/-- The axes in reverse order: the first and the third change places. -/
def reversed (r : Matrix3 ℝ) : Matrix3 ℝ where
  m11 := r.m33
  m12 := r.m32
  m13 := r.m31
  m21 := r.m23
  m22 := r.m22
  m23 := r.m21
  m31 := r.m13
  m32 := r.m12
  m33 := r.m11

variable {a b r : Matrix3 ℝ}

/-- Reversing the axes leaves a rotation a rotation. -/
theorem IsRotation.reversed (h : r.IsRotation) : r.reversed.IsRotation := by
  obtain ⟨⟨h11, h22, h33⟩, h12, h23, h31⟩ := orthonormal_iff.mp h.orthonormal
  have volume := h.det_eq_one
  rw [det_real] at volume
  constructor
  · rw [orthonormal_iff]
    simp only [Matrix3.reversed]
    refine ⟨⟨?_, ?_, ?_⟩, ?_, ?_, ?_⟩ <;> linarith
  · rw [det_real]
    simp only [Matrix3.reversed]
    linear_combination volume

theorem Within.reversed {distance : ℝ} (h : a.Within distance b) :
    a.reversed.Within distance b.reversed := by
  simp only [Within, toList, List.forall₂_cons] at h
  obtain ⟨h11, h12, h13, h21, h22, h23, h31, h32, h33, -⟩ := h
  simp only [Within, toList, Matrix3.reversed, List.forall₂_cons]
  exact ⟨h33, h32, h31, h23, h22, h21, h13, h12, h11, .nil⟩

end Matrix3

/-! ## Angles of opposite ordinates -/

namespace Scalar

/-- A point below the axis instead of above it has the opposite angle, up to a full turn. -/
theorem coe_atan2_neg (y x : ℝ) :
    ((atan2 (-y) x : ℝ) : Real.Angle) = -((atan2 y x : ℝ) : Real.Angle) :=
  Complex.arg_conj_coe_angle ⟨x, y⟩

theorem cos_atan2_neg (y x : ℝ) : Real.cos (atan2 (-y) x) = Real.cos (atan2 y x) := by
  rw [← Real.Angle.cos_coe, coe_atan2_neg, Real.Angle.cos_neg, Real.Angle.cos_coe]

theorem sin_atan2_neg (y x : ℝ) : Real.sin (atan2 (-y) x) = -Real.sin (atan2 y x) := by
  rw [← Real.Angle.sin_coe, coe_atan2_neg, Real.Angle.sin_neg, Real.Angle.sin_coe]

end Scalar

namespace Pose

/-! ## Turns by roll, pitch and yaw -/

theorem zero_lt_pitchLock : (0 : ℝ) < Tolerance.pitchLock := by
  change (0 : ℝ) < 1e-6
  norm_num

/-- The rotation of roll, pitch and yaw in radians. -/
noncomputable def rolled (roll pitch yaw : ℝ) : Matrix3 ℝ :=
  rollPitchYawRotation (Real.sin roll) (Real.cos roll) (Real.sin pitch) (Real.cos pitch)
    (Real.sin yaw) (Real.cos yaw)

theorem ofRollPitchYaw_real (e : EulerPose ℝ) : ofRollPitchYaw e =
    ofParts (rolled (toRadians e.rx) (toRadians e.ry) (toRadians e.rz)) e.position :=
  rfl

theorem ofRollPitchYaw_inDegrees (p : Point ℝ) (roll pitch yaw : ℝ) :
    ofRollPitchYaw (inDegrees p roll pitch yaw) = ofParts (rolled roll pitch yaw) p := by
  rw [ofRollPitchYaw_real]
  simp only [inDegrees, toRadians_toDegrees]
  rfl

/-- **Roll, pitch and yaw are the angles about X, Y and Z seen from the other end.** -/
theorem rolled_eq (roll pitch yaw : ℝ) :
    rolled roll pitch yaw = (turned (-yaw) (-pitch) (-roll)).reversed := by
  simp only [rolled, rollPitchYawRotation, turned, eulerRotation, Matrix3.reversed, Real.sin_neg,
    Real.cos_neg]
  ext <;> ring

/-- The same for angles that are those of points: all three points change sides. -/
theorem rolled_atan2 (y₁ x₁ y₂ x₂ y₃ x₃ : ℝ) :
    rolled (atan2 y₁ x₁) (atan2 y₂ x₂) (atan2 y₃ x₃) =
      (turned (atan2 (-y₃) x₃) (atan2 (-y₂) x₂) (atan2 (-y₁) x₁)).reversed := by
  rw [rolled_eq]
  simp only [turned, Real.cos_neg, Real.sin_neg, cos_atan2_neg, sin_atan2_neg]

/-! ### Reading the angles -/

/-- Away from lock each angle is that of a point. -/
theorem toRollPitchYaw_of_le {a : Pose ℝ} (unlocked : |a.rotation.m31| ≤ 1 - Tolerance.pitchLock) :
    a.toRollPitchYaw = inDegrees a.position (atan2 a.rotation.m32 a.rotation.m33)
      (atan2 (-a.rotation.m31) √(a.rotation.m11 ^ 2 + a.rotation.m21 ^ 2))
      (atan2 a.rotation.m21 a.rotation.m11) := by
  obtain ⟨low, high⟩ := abs_le.mp unlocked
  unfold toRollPitchYaw
  simp only [lt_real, one_real]
  rw [if_neg (by rw [decide_eq_true_eq]; linarith), if_neg (by rw [decide_eq_true_eq]; linarith)]
  rfl

/-- At lock the roll is zero, and the pitch a quarter turn away from the side of the lock. -/
theorem toRollPitchYaw_of_lt {a : Pose ℝ} {side : ℝ} (sides : side = 1 ∨ side = -1)
    (locked : 1 - Tolerance.pitchLock < side * a.rotation.m31) :
    a.toRollPitchYaw = inDegrees a.position 0 (-(side * (Real.pi / 2)))
      (atan2 (-(side * a.rotation.m23)) a.rotation.m22) := by
  have tolerance_lt : (Tolerance.pitchLock : ℝ) < 1 := by
    change (1e-6 : ℝ) < 1
    norm_num
  unfold toRollPitchYaw
  simp only [lt_real, one_real, zero_real, quarterTurn_real]
  rcases sides with rfl | rfl
  · rw [if_pos (by rw [decide_eq_true_eq]; linarith), one_mul, one_mul]
  · rw [if_neg (by rw [decide_eq_true_eq]; linarith),
      if_pos (by rw [decide_eq_true_eq]; linarith), neg_one_mul, neg_one_mul, neg_neg, neg_neg]

/-! ### Turning by the angles read -/

variable {r : Matrix3 ℝ}

/-- Away from lock the angles turn to the matrix that they were read off. The two conventions take
the cosine of the middle angle from different entries, which make up the same length. -/
theorem rolled_read (rotation : r.IsRotation) (unlocked : |r.m31| < 1) :
    rolled (atan2 r.m32 r.m33) (atan2 (-r.m31) √(r.m11 ^ 2 + r.m21 ^ 2)) (atan2 r.m21 r.m11) =
      r := by
  obtain ⟨⟨column1, -, -⟩, -⟩ := Matrix3.orthonormal_iff.mp rotation.orthonormal
  obtain ⟨⟨-, -, row3⟩, -⟩ := Matrix3.orthonormal_iff.mp rotation.transpose.orthonormal
  simp only [Matrix3.transpose] at row3
  have length : r.m11 ^ 2 + r.m21 ^ 2 = r.m33 ^ 2 + r.m32 ^ 2 := by linarith
  have read := turned_read rotation.reversed unlocked
  rw [rolled_atan2, neg_neg, length]
  exact congrArg Matrix3.reversed read

/-- At lock the yaw that is left turns to what the last angle of the first convention turns to, on
either side. -/
theorem rolled_locked {side : ℝ} (sides : side = 1 ∨ side = -1) (y x : ℝ) :
    rolled 0 (-(side * (Real.pi / 2))) (atan2 (-(side * y)) x) =
      (turned 0 (side * (Real.pi / 2)) (atan2 y x)).reversed := by
  rw [turned_locked sides]
  rcases sides with rfl | rfl
  · simp [rolled, rollPitchYawRotation, lockedRotation, Matrix3.reversed, cos_atan2_neg,
      sin_atan2_neg]
  · simp [rolled, rollPitchYawRotation, lockedRotation, Matrix3.reversed]

/-! ### The round trip -/

variable {a : Pose ℝ}

/-- Turning by the angles of an exact pose gives a pose at its place. -/
theorem ofRollPitchYaw_toRollPitchYaw_of_le (exact : a.IsExact)
    (unlocked : |a.rotation.m31| ≤ 1 - Tolerance.pitchLock) :
    ofRollPitchYaw a.toRollPitchYaw = a := by
  rw [toRollPitchYaw_of_le unlocked, ofRollPitchYaw_inDegrees,
    rolled_read exact.rotation (by linarith [zero_lt_pitchLock])]
  exact Pose.ext rfl rfl exact.last.symm

/-- Where the pitch's sine counts as one, the pose comes back up to `e`. -/
theorem ofRollPitchYaw_toRollPitchYaw_within {e : ℝ} (exact : a.IsExact) (nonneg : 0 ≤ e)
    (small : e ≤ 2 / 5) (locked : 1 - Tolerance.pitchLock < |a.rotation.m31|)
    (near : 1 - e ^ 2 / 2 ≤ |a.rotation.m31|) :
    a.toRollPitchYaw.rx = 0 ∧ (ofRollPitchYaw a.toRollPitchYaw).Within e a := by
  obtain ⟨side, sides, side_mul⟩ := exists_side a.rotation.m31
  rw [← side_mul] at locked near
  rw [toRollPitchYaw_of_lt sides locked, ofRollPitchYaw_inDegrees, rolled_locked sides]
  have within := turned_within exact.rotation.reversed sides nonneg small near
  constructor
  · exact zero_mul (180 / Real.pi)
  · exact within_of_rotation nonneg within.reversed rfl exact.last.symm

/-- At exact lock nothing is lost. -/
theorem ofRollPitchYaw_toRollPitchYaw_of_eq_one (exact : a.IsExact)
    (locked : |a.rotation.m31| = 1) :
    a.toRollPitchYaw.rx = 0 ∧ ofRollPitchYaw a.toRollPitchYaw = a := by
  have counted : 1 - Tolerance.pitchLock < |a.rotation.m31| := by
    linarith [zero_lt_pitchLock]
  obtain ⟨rx, within⟩ :=
    ofRollPitchYaw_toRollPitchYaw_within exact le_rfl (by norm_num) counted (by linarith)
  exact ⟨rx, eq_of_within_zero within⟩

/-- The pitch is within a quarter turn, whatever the matrix. -/
theorem toRollPitchYaw_ry_mem (a : Pose ℝ) : a.toRollPitchYaw.ry ∈ Set.Icc (-90 : ℝ) 90 := by
  have pi_pos := Real.pi_pos
  unfold toRollPitchYaw
  simp only [quarterTurn_real]
  split_ifs
  · exact toDegrees_mem_Icc (by rw [abs_neg, abs_of_pos (by positivity)])
  · exact toDegrees_mem_Icc (by rw [abs_of_pos (by positivity)])
  · exact toDegrees_mem_Icc (abs_atan2_le (Real.sqrt_nonneg _))

/-- Angles in range come back from the pose that they turn to. -/
theorem toRollPitchYaw_ofRollPitchYaw {e : EulerPose ℝ} (rx : e.rx ∈ Set.Ioc (-180 : ℝ) 180)
    (rz : e.rz ∈ Set.Ioc (-180 : ℝ) 180) (ry : |e.ry| < 90)
    (unlocked : |Real.sin (toRadians e.ry)| ≤ 1 - Tolerance.pitchLock) :
    toRollPitchYaw (ofRollPitchYaw e) = e := by
  have cos_pos : 0 < Real.cos (toRadians e.ry) :=
    Real.cos_pos_of_mem_Ioo (abs_lt.mp (abs_toRadians_lt ry))
  set c := Real.cos (toRadians e.ry)
  set s := Real.sin (toRadians e.ry)
  have unlocked' : |-s| ≤ 1 - Tolerance.pitchLock := by rwa [abs_neg]
  -- the points that the angles are read off, each by its distance and its angle
  have roll : atan2 (c * Real.sin (toRadians e.rx)) (Real.cos (toRadians e.rx) * c) =
      toRadians e.rx := by
    rw [mul_comm _ c]
    exact atan2_of_polar cos_pos (toRadians_mem_Ioc rx)
  have pitch : atan2 (- -s) √((c * Real.cos (toRadians e.rz)) ^ 2 +
      (c * Real.sin (toRadians e.rz)) ^ 2) = toRadians e.ry := by
    rw [neg_neg]
    refine atan2_sin_sqrt (abs_toRadians_lt ry) ?_
    linear_combination c ^ 2 * Real.cos_sq_add_sin_sq (toRadians e.rz)
  have yaw : atan2 (c * Real.sin (toRadians e.rz)) (c * Real.cos (toRadians e.rz)) =
      toRadians e.rz :=
    atan2_of_polar cos_pos (toRadians_mem_Ioc rz)
  calc
    toRollPitchYaw (ofRollPitchYaw e) =
        inDegrees e.position (toRadians e.rx) (toRadians e.ry) (toRadians e.rz) := by
      rw [toRollPitchYaw_of_le unlocked']
      exact congr (congrArg₂ (inDegrees e.position) roll pitch) yaw
    _ = e := by
      simp only [inDegrees, toDegrees_toRadians]
      rfl

/-! ### The law -/

/-- **Roll, pitch and yaw and poses determine each other.** Turning by the angles read off an exact
pose gives that pose, away from lock and at exact lock; the pitch is within 90 degrees, and the roll
is zero at lock. Where the pitch's sine is not one and counts as one, no entry is off by more than
1.5 thousandths. The angles that turn to a pose away from lock are the ones read off it, if they are
in range. -/
theorem rollPitchYaw_round_trip :
    (∀ a : Pose ℝ, a.IsExact →
      |a.rotation.m31| ≤ 1 - Tolerance.pitchLock ∨ |a.rotation.m31| = 1 →
        ofRollPitchYaw a.toRollPitchYaw = a ∧ a.toRollPitchYaw.ry ∈ Set.Icc (-90 : ℝ) 90 ∧
          (|a.rotation.m31| = 1 → a.toRollPitchYaw.rx = 0)) ∧
    (∀ a : Pose ℝ, a.IsExact → 1 - Tolerance.pitchLock < |a.rotation.m31| →
      |a.rotation.m31| < 1 → (ofRollPitchYaw a.toRollPitchYaw).Within 1.5e-3 a) ∧
    ∀ e : EulerPose ℝ, e.rx ∈ Set.Ioc (-180 : ℝ) 180 → e.rz ∈ Set.Ioc (-180 : ℝ) 180 →
      |e.ry| < 90 → |Real.sin (toRadians e.ry)| ≤ 1 - Tolerance.pitchLock →
        toRollPitchYaw (ofRollPitchYaw e) = e := by
  refine ⟨?_, ?_, fun e rx rz ry unlocked => toRollPitchYaw_ofRollPitchYaw rx rz ry unlocked⟩
  · intro a exact cases
    refine ⟨?_, toRollPitchYaw_ry_mem a,
      fun locked => (ofRollPitchYaw_toRollPitchYaw_of_eq_one exact locked).1⟩
    rcases cases with unlocked | locked
    · exact ofRollPitchYaw_toRollPitchYaw_of_le exact unlocked
    · exact (ofRollPitchYaw_toRollPitchYaw_of_eq_one exact locked).2
  · intro a exact locked _
    have near : 1 - (1.5e-3 : ℝ) ^ 2 / 2 ≤ |a.rotation.m31| := by
      have tolerance : (Tolerance.pitchLock : ℝ) = 1e-6 := rfl
      rw [tolerance] at locked
      exact le_trans (by norm_num) locked.le
    exact (ofRollPitchYaw_toRollPitchYaw_within exact (by norm_num) (by norm_num) locked near).2

/-- A turn about a diagonal, a turn that lock takes for a quarter, and angles of which one is a half
turn. -/
theorem rollPitchYaw_round_trip_tilted :
    let diagonal : Pose ℝ := ofParts ⟨2/3, -1/3, 2/3, 2/3, 2/3, -1/3, -1/3, 2/3, 2/3⟩ ⟨1, 2, 3⟩
    let c : ℝ := 4000 / 4000001
    let s : ℝ := 3999999 / 4000001
    let almost : Pose ℝ := ofParts ⟨c, 0, s, 0, 1, 0, -s, 0, c⟩ ⟨1, 2, 3⟩
    let half : EulerPose ℝ := ⟨1, 2, 3, 180, 30, -90⟩
    (diagonal.IsExact ∧ ofRollPitchYaw diagonal.toRollPitchYaw = diagonal) ∧
    (almost.IsExact ∧ 1 - Tolerance.pitchLock < |-s| ∧ |-s| < 1 ∧
      (ofRollPitchYaw almost.toRollPitchYaw).Within 1.5e-3 almost) ∧
    toRollPitchYaw (ofRollPitchYaw half) = half := by
  intro diagonal c s almost half
  have tolerance : (Tolerance.pitchLock : ℝ) = 1e-6 := rfl
  obtain ⟨exactly, nearly, back⟩ := rollPitchYaw_round_trip
  have diagonal_exact : diagonal.IsExact := by
    refine ⟨⟨Matrix3.orthonormal_iff.mpr ?_, ?_⟩, rfl⟩
    · norm_num [diagonal, ofParts]
    · rw [Matrix3.det_real]
      norm_num [diagonal, ofParts]
  have almost_exact : almost.IsExact := by
    refine ⟨⟨Matrix3.orthonormal_iff.mpr ?_, ?_⟩, rfl⟩
    · norm_num [almost, ofParts, c, s]
    · rw [Matrix3.det_real]
      norm_num [almost, ofParts, c, s]
  have s_abs : |-s| = s := by
    rw [abs_neg]
    exact abs_of_pos (by norm_num [s])
  have locked : 1 - Tolerance.pitchLock < |-s| := by
    rw [s_abs, tolerance]
    norm_num [s]
  have s_lt : |-s| < 1 := by
    rw [s_abs]
    norm_num [s]
  refine ⟨⟨diagonal_exact, (exactly diagonal diagonal_exact (.inl ?_)).1⟩,
    ⟨almost_exact, locked, s_lt, nearly almost almost_exact locked s_lt⟩, back half ?_ ?_ ?_ ?_⟩
  · rw [tolerance]
    norm_num [diagonal, ofParts, abs_of_pos]
  · norm_num [half]
  · norm_num [half]
  · norm_num [half, abs_of_pos]
  · have sixth : toRadians half.ry = Real.pi / 6 := by
      rw [toRadians_real]
      ring
    rw [sixth, Real.sin_pi_div_six, tolerance]
    norm_num [abs_of_pos]

end Pose

end Toolpath
