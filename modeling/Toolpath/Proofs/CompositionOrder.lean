import Toolpath.Proofs.PoseGroup

/-!
# The order of composition

Which angle turns first is part of what every caller relies on, and the formulas for three angles
are written out entry by entry. This module holds them against the product that each stands for: a
displacement and three turns about one axis, multiplied as whole homogeneous matrices.

Nothing about sines and cosines is needed for that, so the order is stated of the exact numbers with
any two functions in their place (`Scalar.turningBy`); where the two were taken for each other, or
one of them with the wrong sign, some pair of functions would show it. What is multiplied are the
poses as they are made, and products of poses at the origin come down to products of their blocks
(`ofParts_mul_turn`).

The law (`composition_order`) covers both conventions and both offsets. It asks nothing of the pose
that is moved, since products of whole matrices are associative whatever the last row is.
-/

namespace Toolpath

open Scalar Matrix3

/-! ## Numbers that turn by other functions -/

/-- The real numbers as scalars, with any two functions for the sine and the cosine. -/
noncomputable abbrev Scalar.turningBy (sine cosine : ℝ → ℝ) : Scalar ℝ :=
  { Scalar.real with sin := sine, cos := cosine }

namespace Pose

/-! ## Poses at the origin -/

/-- A turn about the origin, as its block says. -/
noncomputable def turn (r : Matrix3 ℝ) : Pose ℝ := ofParts r Point.zero

/-- Before a turn about the origin only the blocks multiply. -/
theorem ofParts_mul_turn (r s : Matrix3 ℝ) (p : Point ℝ) :
    ofParts r p * turn s = ofParts (r * s) p := by
  have kept : (ofParts r p).transform Point.zero = p := by
    change r.apply Point.zero + p = p
    simp only [apply_real, Point.zero_real, Point.add_real, mul_zero, add_zero, zero_add]
  calc
    ofParts r p * turn s = ofParts (r * s) ((ofParts r p).transform Point.zero) :=
      mul_of_fixed rfl rfl
    _ = ofParts (r * s) p := by rw [kept]

/-- A displacement before three turns is the product of the turns at the place. -/
theorem displacement_mul_turns (p : Point ℝ) (r s t : Matrix3 ℝ) :
    displacement p * turn r * turn s * turn t = ofParts (r * s * t) p := by
  change ofParts Matrix3.identity p * turn r * turn s * turn t = ofParts (r * s * t) p
  rw [ofParts_mul_turn, ofParts_mul_turn, ofParts_mul_turn, Matrix3.identity_mul]

/-! ## What the formulas stand for -/

section AnyFunctions

variable (sine cosine : ℝ → ℝ)

theorem rotX_turningBy (t : ℝ) :
    @rotX ℝ (.turningBy sine cosine) t = turn (aboutX (sine t) (cosine t)) := by
  simp only [rotX, turn, aboutX, zero_real, one_real]
  rfl

theorem rotY_turningBy (t : ℝ) :
    @rotY ℝ (.turningBy sine cosine) t = turn (aboutY (sine t) (cosine t)) := by
  simp only [rotY, turn, aboutY, aboutX, cycle, zero_real, one_real]
  rfl

theorem rotZ_turningBy (t : ℝ) :
    @rotZ ℝ (.turningBy sine cosine) t = turn (aboutZ (sine t) (cosine t)) := by
  simp only [rotZ, turn, aboutZ, aboutX, cycle, zero_real, one_real]
  rfl

/-- Products do not depend on the two functions. -/
theorem mul_turningBy (a b : Pose ℝ) :
    @HMul.hMul _ _ _ (@instHMul _ (@instMul ℝ (.turningBy sine cosine))) a b = a * b := rfl

/-- The formula for the angles about X, Y and Z, as a product. -/
theorem ofEuler_turningBy (e : EulerPose ℝ) : @ofEuler ℝ (.turningBy sine cosine) e =
    displacement e.position * turn (aboutX (sine (toRadians e.rx)) (cosine (toRadians e.rx))) *
      turn (aboutY (sine (toRadians e.ry)) (cosine (toRadians e.ry))) *
      turn (aboutZ (sine (toRadians e.rz)) (cosine (toRadians e.rz))) := by
  rw [displacement_mul_turns, ← eulerRotation_eq]
  rfl

/-- And the one for roll, pitch and yaw. -/
theorem ofRollPitchYaw_turningBy (e : EulerPose ℝ) :
    @ofRollPitchYaw ℝ (.turningBy sine cosine) e =
      displacement e.position * turn (aboutZ (sine (toRadians e.rz)) (cosine (toRadians e.rz))) *
        turn (aboutY (sine (toRadians e.ry)) (cosine (toRadians e.ry))) *
        turn (aboutX (sine (toRadians e.rx)) (cosine (toRadians e.rx))) := by
  rw [displacement_mul_turns, ← rollPitchYawRotation_eq]
  rfl

end AnyFunctions

/-! ## The law -/

/-- **Three angles are turned by one after the other.** Whatever the sine and the cosine are, a pose
made from angles about X, Y and Z is its displacement before the turns about X, Y and Z, and one
made from roll, pitch and yaw its displacement before the turns about Z, Y and X. An offset in the
tool's frame is multiplied from the right in this order, and one in the base's frame from the
left. -/
theorem composition_order (sine cosine : ℝ → ℝ) :
    letI : Scalar ℝ := .turningBy sine cosine
    ∀ e : EulerPose ℝ,
      ofEuler e = displacement e.position * rotX (toRadians e.rx) * rotY (toRadians e.ry) *
        rotZ (toRadians e.rz) ∧
      ofRollPitchYaw e = displacement e.position * rotZ (toRadians e.rz) *
        rotY (toRadians e.ry) * rotX (toRadians e.rx) ∧
      ∀ a : Pose ℝ,
        a.offsetInTool e = a * displacement e.position * rotX (toRadians e.rx) *
          rotY (toRadians e.ry) * rotZ (toRadians e.rz) ∧
        a.offsetInBase e = displacement e.position * rotX (toRadians e.rx) *
          rotY (toRadians e.ry) * rotZ (toRadians e.rz) * a := by
  intro e
  have inTool (a : Pose ℝ) : @offsetInTool ℝ (.turningBy sine cosine) a e =
      a * @ofEuler ℝ (.turningBy sine cosine) e := rfl
  have inBase (a : Pose ℝ) : @offsetInBase ℝ (.turningBy sine cosine) a e =
      @ofEuler ℝ (.turningBy sine cosine) e * a := rfl
  have euler := ofEuler_turningBy sine cosine e
  have rollPitchYaw := ofRollPitchYaw_turningBy sine cosine e
  simp only [inTool, inBase, mul_turningBy, rotX_turningBy, rotY_turningBy, rotZ_turningBy, euler,
    rollPitchYaw]
  refine ⟨rfl, rfl, fun a => ⟨?_, rfl⟩⟩
  simp only [← Pose.mul_assoc]
  rfl

end Pose

end Toolpath
