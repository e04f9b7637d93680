import Toolpath.Proofs.LastRow
import Toolpath.Proofs.RotationGroup

/-!
# Exact poses

What is made from numbers is made without a check, so that its block is a rotation rests on each
formula, and that it stays one rests on each operation. This module goes through both: one case per
way to make a pose (`Constructed.isExact`), one lemma per operation, and the induction over any
number of operations (`Reached.isExact`).

The law (`reached_isExact`): whatever is reached from numbers is exact, and passes the check for
given matrices unchanged. Products need no condition here, because every row that stands on the left
is exact. It is a law of exact arithmetic, with exact sines, cosines and roots.
-/

namespace Toolpath.Pose

open Scalar

/-! ## Making exact poses -/

theorem isExact_ofParts {r : Matrix3 ℝ} (rotation : r.IsRotation) (p : Point ℝ) :
    (ofParts r p).IsExact := ⟨rotation, rfl⟩

theorem isExact_ofEuler (e : EulerPose ℝ) : (ofEuler e).IsExact := by
  rw [ofEuler_real]
  exact isExact_ofParts (isRotation_turned _ _ _) e.position

theorem isExact_ofRollPitchYaw (e : EulerPose ℝ) : (ofRollPitchYaw e).IsExact := by
  refine isExact_ofParts ?_ e.position
  simp only [sin_real, cos_real, rollPitchYawRotation_eq]
  exact ((Matrix3.isRotation_aboutZ (Real.sin_sq_add_cos_sq _)).mul
    (Matrix3.isRotation_aboutY (Real.sin_sq_add_cos_sq _))).mul
      (Matrix3.isRotation_aboutX (Real.sin_sq_add_cos_sq _))

/-- Every way to make a pose from numbers makes an exact one. -/
theorem Constructed.isExact {a : Pose ℝ} (h : Constructed a) : a.IsExact := by
  cases h with
  | identity => exact isExact_ofParts Matrix3.isRotation_identity Point.zero
  | displacement p => exact isExact_ofParts Matrix3.isRotation_identity p
  | rotX angle =>
    rw [rotX_real]
    exact isExact_ofParts (Matrix3.isRotation_aboutX (Real.sin_sq_add_cos_sq angle)) _
  | rotY angle =>
    rw [rotY_real]
    exact isExact_ofParts (Matrix3.isRotation_aboutY (Real.sin_sq_add_cos_sq angle)) _
  | rotZ angle =>
    rw [rotZ_real]
    exact isExact_ofParts (Matrix3.isRotation_aboutZ (Real.sin_sq_add_cos_sq angle)) _
  | ofEuler e => exact isExact_ofEuler e
  | ofRollPitchYaw e => exact isExact_ofRollPitchYaw e
  | ofQuaternion p q => exact isExact_ofParts q.isRotation_toRotation p
  | ofRotationVector p v =>
    exact isExact_ofParts (Quaternion.ofRotationVector v).isRotation_toRotation p

/-! ## Operations on exact poses -/

/-- Before an exact row the blocks multiply, whatever the positions are. -/
theorem mul_rotation_of_fixed {b : Pose ℝ} (exact : b.last = LastRow.fixed) (a : Pose ℝ) :
    (a * b).rotation = a.rotation * b.rotation := by
  have dropped (u v w p x y z : ℝ) : dot4 u v w p x y z 0 = Matrix3.dot3 u v w x y z := by
    simp only [dot4, Matrix3.dot3, mul_zero, add_zero]
  change (compose a b).rotation = Matrix3.mul a.rotation b.rotation
  simp only [compose, Matrix3.mul, exact, LastRow.fixed_real, dropped]

namespace IsExact

variable {a b : Pose ℝ}

theorem mul (ha : a.IsExact) (hb : b.IsExact) : (a * b).IsExact where
  rotation := by
    rw [mul_rotation_of_fixed hb.last]
    exact ha.rotation.mul hb.rotation
  last := (mul_last_of_fixed ha.last b).trans hb.last

theorem inverse (h : a.IsExact) : a.inverse.IsExact := isExact_ofParts h.rotation.transpose _

theorem withPosition (h : a.IsExact) (p : Point ℝ) : (a.withPosition p).IsExact :=
  ⟨h.rotation, h.last⟩

end IsExact

variable {source left : Pose ℝ → Prop} {a : Pose ℝ}

/-- The operations make exact poses of exact poses. -/
theorem Reached.isExact (exact : ∀ s, source s → s.IsExact) (h : Reached source left a) :
    a.IsExact := by
  induction h with
  | source h => exact exact _ h
  | mul _ _ _ iha ihb => exact iha.mul ihb
  | inverse _ ih => exact ih.inverse
  | offsetInTool e _ _ ih => exact ih.mul (isExact_ofEuler e)
  | offsetInBase e _ ih => exact (isExact_ofEuler e).mul ih
  | withPosition _ _ ih => exact ih.withPosition _
  | displacementPart => exact isExact_ofParts Matrix3.isRotation_identity _
  | rotationPart _ ih => exact ih.withPosition Point.zero

/-! ## The law -/

/-- **Whatever is reached from numbers is an exact pose**: the columns of its block are orthonormal,
the determinant is one, and the last row is 0 0 0 1. Given as a matrix, in any form, it is accepted
and is the same pose. -/
theorem reached_isExact (a : Pose ℝ) (h : Reached Constructed (fun _ => True) a) :
    a.rotation.transpose * a.rotation = Matrix3.identity ∧ a.rotation.det = 1 ∧
      a.last = ⟨0, 0, 0, 1⟩ ∧ checked a = .ok a ∧ ofRows? 4 4 a.toRows = .ok a ∧
      ofGrid? (Grid.ofRows 4 4 a.toRows) = .ok a := by
  have exact : a.IsExact := h.isExact fun _ => Constructed.isExact
  have passes : checked a = .ok a := exact.checked_eq
  exact ⟨exact.rotation.orthonormal, exact.rotation.det_eq_one,
    exact.last.trans LastRow.fixed_real, passes, (ofRows?_toRows a).trans passes,
    (ofGrid?_toRows a).trans passes⟩

/-- A turn by a tiny rotation vector, moved in the tool's frame and turned back, after a turn by the
quaternion zero. -/
theorem reached_isExact_tiny :
    let tiny : Pose ℝ := ofRotationVector ⟨1, 2, 3⟩ ⟨1e-7, 0, 0⟩
    let zero : Pose ℝ := ofQuaternion ⟨5, 0, 0⟩ ⟨0, 0, 0, 0⟩
    let a := zero * (tiny.offsetInTool ⟨10, 20, 30, 90, 0, 45⟩).inverse
    Reached Constructed (fun _ => True) a ∧ a.rotation.det = 1 ∧ checked a = .ok a := by
  intro tiny zero a
  have reached : Reached Constructed (fun _ => True) a :=
    .mul (.source (.ofQuaternion _ _))
      (.inverse (.offsetInTool _ (.source (.ofRotationVector _ _)) trivial)) trivial
  obtain ⟨_, det, _, passes, _⟩ := reached_isExact a reached
  exact ⟨reached, det, passes⟩

end Toolpath.Pose
