import Mathlib.Analysis.Real.Pi.Bounds
import Mathlib.Analysis.SpecialFunctions.Trigonometric.Bounds
import Toolpath.Proofs.QuaternionDirections
import Toolpath.Proofs.LastRow

/-!
# Rotation vectors

A rotation vector and the unit quaternion of the same turn say the same: the quaternion turns by an
angle (`TurnsBy`) when its real part is the cosine of half of it and its vector part as long as the
sine, and the rotation vector is the vector part brought to the length of the angle. Both ways are
exact for every angle from the tolerance to half a turn (`ofRotationVector_toRotationVector`,
`toRotationVector_ofRotationVector`); below it the one way takes a series for the sine.

Between the quaternion and the matrix the sign is lost, and the real part decides on it. So a matrix
comes back from its rotation vector also at half a turn, where the vector may be either of two, and
a rotation vector comes back from its matrix where it is shorter than half a turn.

The law (`rotationVector_round_trip`) says this of poses. Neither way has a place for the last row:
what comes back has the exact one, so that it is the pose that was read only if that one had it too,
and a row that was accepted without being exact is lost (`leaning_rotationVector`). All of it is a
law of exact arithmetic.
-/

namespace Toolpath

open Scalar

namespace Scalar

theorem eq_real (x y : ℝ) : eq x y = decide (x = y) := rfl

end Scalar

namespace Point

/-- A vector times a number is as long as the two say. -/
theorem norm_mul (p : Point ℝ) (s : ℝ) : (p * s).norm = p.norm * |s| := by
  have square : (p.x * s) ^ 2 + (p.y * s) ^ 2 + (p.z * s) ^ 2 =
      (p.x ^ 2 + p.y ^ 2 + p.z ^ 2) * s ^ 2 := by ring
  rw [norm_real, norm_real, mul_real, square, Real.sqrt_mul (by positivity), Real.sqrt_sq_eq_abs]

/-- A vector brought to another length and back is the same vector. -/
theorem mul_div_mul_div {s t : ℝ} (p : Point ℝ) (hs : s ≠ 0) (ht : t ≠ 0) :
    p * (s / t) * (t / s) = p := by
  have cancel : s / t * (t / s) = 1 := by
    rw [← inv_div s t]
    exact mul_inv_cancel₀ (div_ne_zero hs ht)
  simp only [mul_real, mul_assoc, cancel, mul_one]

theorem norm_zero : (zero : Point ℝ).norm = 0 := by
  rw [zero_real, norm_real]
  norm_num

theorem eq_zero_of_norm {p : Point ℝ} (h : p.norm = 0) : p = zero := by
  apply eq_of_dot_sub_eq_zero
  have square := p.norm_sq
  rw [h] at square
  rw [zero_real, dot_real, sub_real]
  linarith

end Point

namespace Quaternion

/-! ## Half the angle -/

variable {q : Quaternion ℝ} {r : Matrix3 ℝ} {v axis : Point ℝ} {t : ℝ}

/-- A quaternion of length one turns by an angle of up to half a turn: its real part is the cosine
of half the angle, and its vector part as long as the sine. -/
structure TurnsBy (q : Quaternion ℝ) (angle : ℝ) : Prop where
  range : angle ∈ Set.Icc 0 Real.pi
  real : q.w = Real.cos (angle / 2)
  vector : q.vector.norm = Real.sin (angle / 2)

theorem sin_half_pos (positive : 0 < t) (le_pi : t ≤ Real.pi) : 0 < Real.sin (t / 2) :=
  Real.sin_pos_of_pos_of_lt_pi (by linarith) (by linarith)

theorem cos_half_nonneg (range : t ∈ Set.Icc 0 Real.pi) : 0 ≤ Real.cos (t / 2) :=
  Real.cos_nonneg_of_mem_Icc ⟨by linarith [range.1, Real.pi_pos], by linarith [range.2]⟩

/-- From the tolerance for rotation vectors on, the vector part of the quaternion is one that
counts. -/
theorem identity_le_sin_half (low : 1e-6 ≤ t) (le_pi : t ≤ Real.pi) :
    Tolerance.identity ≤ Real.sin (t / 2) := by
  have pi_pos := Real.pi_pos
  change (1e-9 : ℝ) ≤ Real.sin (t / 2)
  calc
    (1e-9 : ℝ) ≤ t / 4 := by linarith
    _ ≤ t / Real.pi := div_le_div_of_nonneg_left (by linarith) pi_pos Real.pi_le_four
    _ = 2 / Real.pi * (t / 2) := by ring
    _ ≤ Real.sin (t / 2) := Real.mul_le_sin (by linarith) (by linarith)

namespace TurnsBy

theorem unit (h : q.TurnsBy t) : q.normSq = 1 := by
  have square : q.normSq = q.w ^ 2 + q.vector.norm ^ 2 := by
    rw [normSq_real, Point.norm_sq, Quaternion.vector]
    ring
  rw [square, h.real, h.vector]
  exact Real.cos_sq_add_sin_sq (t / 2)

/-- Its length and its sign are already as they are read. -/
theorem normalize_canonical (h : q.TurnsBy t) : q.normalize.canonical = q := by
  have nonneg : ¬ q.w < 0 := by
    rw [h.real]
    exact not_lt.mpr (cos_half_nonneg h.range)
  rw [normalize_of_unit h.unit]
  unfold canonical
  rw [lt_real, zero_real, if_neg (by rwa [decide_eq_true_eq])]

/-- Without an angle it is the quaternion of no rotation. -/
theorem eq_identity (h : q.TurnsBy 0) : q = identity := by
  have real := h.real
  have vector := h.vector
  rw [zero_div, Real.cos_zero, ← one_real] at real
  rw [zero_div, Real.sin_zero] at vector
  have none := Point.eq_zero_of_norm vector
  exact Quaternion.ext real (congrArg Point.x none) (congrArg Point.y none) (congrArg Point.z none)

/-- The angle read off the quaternion is the one that it turns by. -/
theorem angle_eq (h : q.TurnsBy t) : q.angle = t := by
  obtain ⟨nonneg, le_pi⟩ := h.range
  have pi_pos := Real.pi_pos
  have half : atan2 q.vector.norm q.w = t / 2 := by
    rw [h.vector, h.real, ← one_mul (Real.sin _), ← one_mul (Real.cos _)]
    exact atan2_of_polar one_pos ⟨by linarith, by linarith⟩
  have read : q.angle = 2.0 * atan2 q.vector.norm q.w := by
    unfold angle
    rw [h.normalize_canonical]
    rfl
  rw [read, half, two_real]
  ring

/-- The rotation vector of a turn: the vector part, brought to the length of the angle. -/
theorem toRotationVector_eq (h : q.TurnsBy t) (positive : 0 < t) :
    q.toRotationVector = q.vector * (t / Real.sin (t / 2)) := by
  unfold toRotationVector
  simp only [h.normalize_canonical, h.angle_eq, h.vector, eq_real, decide_eq_true_eq, zero_real]
  rw [if_neg (sin_half_pos positive h.range.2).ne']

theorem toRotationVector_of_zero (h : q.TurnsBy 0) : q.toRotationVector = Point.zero := by
  unfold toRotationVector
  simp only [h.normalize_canonical, h.vector, zero_div, Real.sin_zero, eq_real, decide_true,
    zero_real, if_true]

/-- The rotation vector is as long as the angle. -/
theorem norm_toRotationVector (h : q.TurnsBy t) : q.toRotationVector.norm = t := by
  rcases h.range.1.eq_or_lt with rfl | positive
  · rw [h.toRotationVector_of_zero, Point.norm_zero]
  · have sin_pos := sin_half_pos positive h.range.2
    rw [h.toRotationVector_eq positive, Point.norm_mul, h.vector,
      abs_of_pos (div_pos positive sin_pos)]
    exact mul_div_cancel₀ t sin_pos.ne'

end TurnsBy

/-! ## From a rotation vector and back -/

/-- From the tolerance on, the ratio of the sine to the angle is not taken from its series. -/
theorem ofRotationVector_of_le (low : 1e-6 ≤ v.norm) : (ofRotationVector v).w =
      Real.cos (v.norm / 2) ∧
    (ofRotationVector v).vector = v * (Real.sin (v.norm / 2) / v.norm) := by
  have series : ¬ v.norm < Tolerance.rotationVector := not_lt.mpr low
  have half : (0.5 : ℝ) * v.norm = v.norm / 2 := by ring
  unfold ofRotationVector
  simp only [lt_real, decide_eq_true_eq, if_neg series, half]
  exact ⟨rfl, rfl⟩

theorem ofRotationVector_zero : ofRotationVector (Point.zero : Point ℝ) = identity := by
  unfold ofRotationVector
  simp only [Point.norm_zero, cos_real, mul_zero, Real.cos_zero]
  simp only [Point.zero, zero_real, zero_mul, identity, one_real]

/-- The quaternion of a rotation vector of up to half a turn turns by its length. -/
theorem turnsBy_ofRotationVector (low : 1e-6 ≤ v.norm) (le_pi : v.norm ≤ Real.pi) :
    (ofRotationVector v).TurnsBy v.norm := by
  have positive : 0 < v.norm := by linarith
  have sin_pos := sin_half_pos positive le_pi
  obtain ⟨real, vector⟩ := ofRotationVector_of_le low
  refine ⟨⟨positive.le, le_pi⟩, real, ?_⟩
  rw [vector, Point.norm_mul, abs_of_pos (div_pos sin_pos positive)]
  exact mul_div_cancel₀ _ positive.ne'

/-- A rotation vector comes back from its quaternion. -/
theorem toRotationVector_ofRotationVector (low : 1e-6 ≤ v.norm) (le_pi : v.norm ≤ Real.pi) :
    (ofRotationVector v).toRotationVector = v := by
  have positive : 0 < v.norm := by linarith
  have sin_pos := sin_half_pos positive le_pi
  rw [(turnsBy_ofRotationVector low le_pi).toRotationVector_eq positive,
    (ofRotationVector_of_le low).2]
  exact v.mul_div_mul_div sin_pos.ne' positive.ne'

/-- A quaternion comes back from its rotation vector. -/
theorem TurnsBy.ofRotationVector_toRotationVector (h : q.TurnsBy t) (seen : t = 0 ∨ 1e-6 ≤ t) :
    ofRotationVector q.toRotationVector = q := by
  rcases seen with rfl | low
  · rw [h.toRotationVector_of_zero, h.eq_identity, ofRotationVector_zero]
  · have positive : 0 < t := by linarith
    have sin_pos := sin_half_pos positive h.range.2
    have length := h.norm_toRotationVector
    obtain ⟨real, vector⟩ := ofRotationVector_of_le (low.trans_eq length.symm)
    rw [length] at real vector
    have cancelled : q.toRotationVector * (Real.sin (t / 2) / t) = q.vector := by
      rw [h.toRotationVector_eq positive]
      exact q.vector.mul_div_mul_div positive.ne' sin_pos.ne'
    rw [cancelled] at vector
    exact Quaternion.ext (real.trans h.real.symm) (congrArg Point.x vector)
      (congrArg Point.y vector) (congrArg Point.z vector)

/-! ## From a matrix and back -/

/-- The quaternion that stands for a turn about an axis turns by the same angle. -/
theorem StandsFor.turnsBy (h : q.StandsFor r) (nonneg : 0 ≤ q.w) (turns : r.TurnsAbout axis t) :
    q.TurnsBy t := by
  have trace := turns.trace_eq
  have half := Real.cos_sq (t / 2)
  rw [mul_div_cancel₀ t two_ne_zero] at half
  rw [Matrix3.trace_real] at trace
  have square : q.w ^ 2 = Real.cos (t / 2) ^ 2 := by linarith [h.ww]
  refine ⟨turns.range, (sq_eq_sq₀ nonneg (cos_half_nonneg turns.range)).mp square, ?_⟩
  rw [norm_vector_of_unit h.unit, turns.sqrt_one_sub_sq h]

/-- The quaternion read off a turn turns by its angle, if that is none or counts. -/
theorem ofRotation_turnsBy (rotation : r.IsRotation) (turns : r.TurnsAbout axis t)
    (seen : t = 0 ∨ 1e-6 ≤ t) : (ofRotation r).StandsFor r ∧ (ofRotation r).TurnsBy t := by
  obtain ⟨q, stands, -⟩ := exists_standsFor rotation
  have stands := stands.canonical
  have turned := stands.turnsBy q.canonical_w_nonneg turns
  rcases seen with rfl | low
  · have hidden : q.canonical.vector.norm < Tolerance.identity := by
      rw [turned.vector, zero_div, Real.sin_zero]
      change (0 : ℝ) < 1e-9
      norm_num
    rw [stands.ofRotation_of_hidden hidden, ← turned.eq_identity]
    exact ⟨stands, turned⟩
  · have visible : Tolerance.identity ≤ q.canonical.vector.norm := by
      rw [turned.vector]
      exact identity_le_sin_half low turns.range.2
    obtain ⟨read, nonneg⟩ := stands.ofRotation_of_visible visible
    exact ⟨read, read.turnsBy nonneg turns⟩

/-- Short of half a turn the quaternion of a rotation vector is the one read off its matrix. -/
theorem ofRotation_ofRotationVector (low : 1e-6 ≤ v.norm) (lt_pi : v.norm < Real.pi) :
    ofRotation (ofRotationVector v).toRotation = ofRotationVector v := by
  have turned := turnsBy_ofRotationVector low lt_pi.le
  have stands := (ofRotationVector v).standsFor_toRotation
  rw [normalize_of_unit turned.unit] at stands
  refine stands.ofRotation_of_pos ?_ ?_
  · rw [turned.vector]
    exact identity_le_sin_half low lt_pi.le
  · rw [turned.real]
    exact Real.cos_pos_of_mem_Ioo ⟨by linarith [Real.pi_pos], by linarith⟩

end Quaternion

namespace Pose

/-! ## Poses -/

/-- A pose whose turn is known is read and rebuilt up to its last row. -/
theorem ofRotationVector_toRotationVector {a : Pose ℝ} {axis : Point ℝ} {t : ℝ}
    (rotation : a.rotation.IsRotation) (turns : a.rotation.TurnsAbout axis t)
    (seen : t = 0 ∨ 1e-6 ≤ t) :
    ofRotationVector a.position a.toRotationVector = ofParts a.rotation a.position ∧
      a.toRotationVector.norm = t := by
  obtain ⟨stands, turned⟩ := Quaternion.ofRotation_turnsBy rotation turns seen
  constructor
  · unfold ofRotationVector toRotationVector toQuaternion ofQuaternion
    rw [turned.ofRotationVector_toRotationVector seen, stands.toRotation_eq]
  · exact turned.norm_toRotationVector

theorem ofParts_eq_iff (a : Pose ℝ) :
    ofParts a.rotation a.position = a ↔ a.last = LastRow.fixed := by
  constructor
  · intro same
    rw [← same]
    rfl
  · intro fixed
    exact Pose.ext rfl rfl fixed.symm

/-- **Rotation vectors and poses determine each other.** Every rotation block turns about some axis.
If the angle is none, or not below the tolerance, turning by the rotation vector that is read gives
back the block and the position with the exact last row, so the very pose if that row was its own;
the rotation vector is as long as the angle, at most half a turn. A rotation vector that is not
below the tolerance and shorter than half a turn is read off the pose that it turns to, at any
position. -/
theorem rotationVector_round_trip :
    (∀ a : Pose ℝ, a.rotation.IsRotation →
      (∃ axis t, a.rotation.TurnsAbout axis t) ∧
      ∀ axis t, a.rotation.TurnsAbout axis t → t = 0 ∨ 1e-6 ≤ t →
        ofRotationVector a.position a.toRotationVector = ofParts a.rotation a.position ∧
        (ofRotationVector a.position a.toRotationVector = a ↔ a.last = LastRow.fixed) ∧
        a.toRotationVector.norm = t ∧ t ≤ Real.pi) ∧
    ∀ p v : Point ℝ, 1e-6 ≤ v.norm → v.norm < Real.pi →
      (ofRotationVector p v).position = p ∧ (ofRotationVector p v).toRotationVector = v := by
  refine ⟨fun a rotation => ⟨rotation.exists_turnsAbout, fun axis t turns seen => ?_⟩,
    fun p v low lt_pi => ⟨rfl, ?_⟩⟩
  · obtain ⟨rebuilt, length⟩ := ofRotationVector_toRotationVector rotation turns seen
    refine ⟨rebuilt, ?_, length, turns.range.2⟩
    rw [rebuilt]
    exact a.ofParts_eq_iff
  · calc
      (ofRotationVector p v).toRotationVector =
          (Quaternion.ofRotation (Quaternion.ofRotationVector v).toRotation).toRotationVector := rfl
      _ = v := by
        rw [Quaternion.ofRotation_ofRotationVector low lt_pi,
          Quaternion.toRotationVector_ofRotationVector low lt_pi.le]

/-- Half a turn about a slanted axis, and a rotation vector just short of half a turn. -/
theorem rotationVector_round_trip_half :
    let a : Pose ℝ := ofParts ⟨-1, 0, 0, 0, -7/25, 24/25, 0, 24/25, 7/25⟩ ⟨1, 2, 3⟩
    (a.rotation.IsRotation ∧ a.rotation.TurnsAbout ⟨0, 3/5, 4/5⟩ Real.pi ∧
      ofRotationVector a.position a.toRotationVector = a ∧ a.toRotationVector.norm = Real.pi) ∧
    (ofRotationVector ⟨4, 5, 6⟩ ⟨1, -2, 2⟩ : Pose ℝ).toRotationVector = ⟨1, -2, 2⟩ := by
  intro a
  obtain ⟨rebuilt, read⟩ := rotationVector_round_trip
  have rotation : a.rotation.IsRotation := by
    refine ⟨Matrix3.orthonormal_iff.mpr ?_, ?_⟩
    · norm_num [a, ofParts]
    · rw [Matrix3.det_real]
      norm_num [a, ofParts]
  have turns : a.rotation.TurnsAbout ⟨0, 3/5, 4/5⟩ Real.pi := by
    refine ⟨by norm_num [Point.norm_real], ⟨Real.pi_pos.le, le_rfl⟩, fun p => ?_⟩
    rw [Real.cos_pi, Real.sin_pi]
    simp only [a, ofParts, Matrix3.apply_real, Point.add_real, Point.mul_real, Point.cross_real,
      Point.dot_real, Point.mk.injEq]
    refine ⟨?_, ?_, ?_⟩ <;> ring
  have far : (1e-6 : ℝ) ≤ Real.pi := by linarith [Real.pi_gt_three]
  have length : (⟨1, -2, 2⟩ : Point ℝ).norm = 3 := by
    rw [Point.norm_real, Real.sqrt_eq_iff_mul_self_eq_of_pos (by norm_num)]
    norm_num
  obtain ⟨-, same, norm, -⟩ := (rebuilt a rotation).2 _ _ turns (.inr far)
  refine ⟨⟨rotation, turns, same.mpr rfl, norm⟩, (read ⟨4, 5, 6⟩ ⟨1, -2, 2⟩ ?_ ?_).2⟩
  · rw [length]
    norm_num
  · rw [length]
    exact Real.pi_gt_three

/-- **The last row is not among what is read.** The leaning pose is accepted as it is given, and its
block is the exact rotation by nothing. It comes back from its rotation vector with the exact row,
and so as another pose. -/
theorem leaning_rotationVector :
    let a := leaning (1 / 2 ^ 20)
    Given a ∧ a.rotation.IsRotation ∧ a.rotation.TurnsAbout ⟨0, 0, 1⟩ 0 ∧
    ofRotationVector a.position a.toRotationVector = identity ∧ a ≠ identity ∧
    ¬ ∀ b : Pose ℝ, Given b → b.rotation.IsRotation →
      ∀ axis t, b.rotation.TurnsAbout axis t → t = 0 ∨ 1e-6 ≤ t →
        ofRotationVector b.position b.toRotationVector = b := by
  intro a
  have given : Given a := .matrix checked_leaning
  have rotation : a.rotation.IsRotation := Matrix3.isRotation_identity
  have turns : a.rotation.TurnsAbout ⟨0, 0, 1⟩ 0 := by
    refine ⟨by norm_num [Point.norm_real], ⟨le_rfl, Real.pi_pos.le⟩, fun p => ?_⟩
    rw [Real.cos_zero, Real.sin_zero]
    simp only [a, leaning, Matrix3.identity_real, Matrix3.apply_real, Point.add_real,
      Point.mul_real, Point.cross_real, Point.dot_real, Point.mk.injEq]
    refine ⟨?_, ?_, ?_⟩ <;> ring
  have rebuilt := (ofRotationVector_toRotationVector rotation turns (.inl rfl)).1
  have leans : a ≠ identity := by
    intro straight
    have first : (1 / 2 ^ 20 : ℝ) = 0.0 := congrArg (fun b => b.last.x) straight
    norm_num at first
  refine ⟨given, rotation, turns, rebuilt, leans, fun all => leans ?_⟩
  rw [← all a given rotation _ _ turns (.inl rfl)]
  exact rebuilt

end Pose

end Toolpath
