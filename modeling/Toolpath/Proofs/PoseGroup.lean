import Toolpath.Proofs.ExactPoses

/-!
# The group of exact poses

A product multiplies two whole homogeneous matrices, the inverse is put together from a transposed
block and a position turned back, and a point is moved by the upper three rows alone. This module
says that the three agree. Behind an exact row a product turns by both blocks and takes the right
position where the left pose takes it (`mul_of_fixed`); a rotation is cancelled by its transpose on
either side; and so the exact poses are a group (`ExactPose`) that acts on the points.

Products are associative and the identity is neutral for every pose, whatever its block and row. The
rest needs exact poses: the inverse of a pose whose row is only accepted has the exact row, and does
not cancel it. All of it is a law of exact arithmetic.
-/

namespace Toolpath

open Scalar

namespace Point

theorem zero_real : (zero : Point ℝ) = ⟨0, 0, 0⟩ := by
  simp only [zero, Scalar.zero_real]

theorem neg_real (p : Point ℝ) : -p = ⟨-p.x, -p.y, -p.z⟩ := rfl

theorem origin_add (p : Point ℝ) : zero + p = p := by
  simp only [zero_real, add_real, zero_add]

theorem add_origin (p : Point ℝ) : p + zero = p := by
  simp only [zero_real, add_real, add_zero]

theorem add_neg_self (p : Point ℝ) : p + -p = zero := by
  simp only [zero_real, add_real, neg_real, add_neg_cancel]

theorem neg_add_self (p : Point ℝ) : -p + p = zero := by
  simp only [zero_real, add_real, neg_real, neg_add_cancel]

end Point

/-! ## Blocks -/

namespace Matrix3

theorem identity_mul (a : Matrix3 ℝ) : identity * a = a := by
  simp only [mul_real, identity_real, zero_mul, one_mul, add_zero, zero_add]

/-- The rows of a rotation are orthonormal too, so its transpose cancels it from the right. -/
theorem IsRotation.mul_transpose {r : Matrix3 ℝ} (h : r.IsRotation) :
    r * r.transpose = identity :=
  h.transpose.orthonormal

/-- A product turns a point by its right factor first. -/
theorem apply_mul (a b : Matrix3 ℝ) (p : Point ℝ) : (a * b).apply p = a.apply (b.apply p) := by
  simp only [mul_real, apply_real]
  ext <;> ring

theorem apply_identity (p : Point ℝ) : (identity : Matrix3 ℝ).apply p = p := by
  simp only [apply_real, identity_real, zero_mul, one_mul, add_zero, zero_add]

theorem apply_add (a : Matrix3 ℝ) (p q : Point ℝ) : a.apply (p + q) = a.apply p + a.apply q := by
  simp only [apply_real, Point.add_real]
  ext <;> ring

theorem apply_neg (a : Matrix3 ℝ) (p : Point ℝ) : a.apply (-p) = -a.apply p := by
  simp only [apply_real, Point.neg_real]
  ext <;> ring

end Matrix3

namespace Pose

variable {a b : Pose ℝ}

/-! ## Products -/

/-- Products of whole matrices are associative, whatever the blocks and rows are. -/
protected theorem mul_assoc (a b c : Pose ℝ) : a * b * c = a * (b * c) := by
  change compose (compose a b) c = compose a (compose b c)
  simp only [compose, dot4]
  ext <;> ring

/-- Between exact rows a product turns by both blocks, and takes the right position where the left
pose takes it. -/
theorem mul_of_fixed (ha : a.last = LastRow.fixed) (hb : b.last = LastRow.fixed) :
    a * b = ofParts (a.rotation * b.rotation) (a.transform b.position) := by
  refine Pose.ext (mul_rotation_of_fixed hb a) ?_ ((mul_last_of_fixed ha b).trans hb)
  change (compose a b).position = a.rotation.apply b.position + a.position
  simp only [compose, dot4, hb, LastRow.fixed_real, Matrix3.apply_real, Point.add_real, mul_one]

/-- The identity is neutral on the left, also before a row that is not exact. -/
protected theorem identity_mul (a : Pose ℝ) : identity * a = a := by
  change compose identity a = a
  simp only [compose, dot4, identity, ofParts, Matrix3.identity_real, Point.zero_real,
    LastRow.fixed_real]
  ext <;> ring

/-- And on the right. -/
protected theorem mul_identity (a : Pose ℝ) : a * identity = a := by
  change compose a identity = a
  simp only [compose, dot4, identity, ofParts, Matrix3.identity_real, Point.zero_real,
    LastRow.fixed_real]
  ext <;> ring

/-- Every pose with the exact row is a turn followed by a displacement. -/
theorem displacementPart_mul_rotationPart (h : a.last = LastRow.fixed) :
    a.displacementPart * a.rotationPart = a := by
  have turn : a.rotationPart.last = LastRow.fixed := h
  rw [mul_of_fixed rfl turn]
  change ofParts (Matrix3.identity * a.rotation)
    (Matrix3.identity.apply Point.zero + a.position) = a
  rw [Matrix3.identity_mul, Matrix3.apply_identity, Point.origin_add]
  exact Pose.ext rfl rfl h.symm

/-! ## Points -/

/-- A product moves a point by its right factor first. -/
theorem transform_mul (ha : a.last = LastRow.fixed) (hb : b.last = LastRow.fixed) (p : Point ℝ) :
    (a * b).transform p = a.transform (b.transform p) := by
  rw [mul_of_fixed ha hb]
  change (a.rotation * b.rotation).apply p + (a.rotation.apply b.position + a.position) =
    a.rotation.apply (b.rotation.apply p + b.position) + a.position
  rw [Matrix3.apply_mul, Matrix3.apply_add]
  simp only [Point.add_real, add_assoc]

theorem transform_identity (p : Point ℝ) : (identity : Pose ℝ).transform p = p := by
  change Matrix3.identity.apply p + Point.zero = p
  rw [Matrix3.apply_identity, Point.add_origin]

/-! ## Inverses -/

namespace IsExact

/-- The position turned back and forth is the position. -/
theorem mul_inverse (h : a.IsExact) : a * a.inverse = identity := by
  rw [mul_of_fixed h.last rfl]
  change ofParts (a.rotation * a.rotation.transpose)
    (a.rotation.apply (-a.rotation.transpose.apply a.position) + a.position) = identity
  rw [Matrix3.apply_neg, ← Matrix3.apply_mul, h.rotation.mul_transpose, Matrix3.apply_identity,
    Point.neg_add_self]
  rfl

theorem inverse_mul (h : a.IsExact) : a.inverse * a = identity := by
  rw [mul_of_fixed rfl h.last]
  change ofParts (a.rotation.transpose * a.rotation)
    (a.rotation.transpose.apply a.position + -a.rotation.transpose.apply a.position) = identity
  rw [h.rotation.orthonormal, Point.add_neg_self]
  rfl

end IsExact

end Pose

/-! ## The group -/

/-- A pose that is known to be exact. -/
def ExactPose : Type := { a : Pose ℝ // a.IsExact }

namespace ExactPose

theorem isExact_identity : (Pose.identity : Pose ℝ).IsExact :=
  Pose.isExact_ofParts Matrix3.isRotation_identity Point.zero

/-- Exact poses under composition. -/
noncomputable instance : Group ExactPose where
  mul a b := ⟨a.val * b.val, a.property.mul b.property⟩
  one := ⟨Pose.identity, isExact_identity⟩
  inv a := ⟨a.val.inverse, a.property.inverse⟩
  mul_assoc a b c := Subtype.ext (Pose.mul_assoc a.val b.val c.val)
  one_mul a := Subtype.ext (Pose.identity_mul a.val)
  mul_one a := Subtype.ext (Pose.mul_identity a.val)
  inv_mul_cancel a := Subtype.ext a.property.inverse_mul

/-- A pose moves the points. -/
noncomputable instance : MulAction ExactPose (Point ℝ) where
  smul a p := a.val.transform p
  one_smul := Pose.transform_identity
  mul_smul a b := Pose.transform_mul a.property.last b.property.last

end ExactPose

namespace Pose

/-- **Exact poses are a group that moves the points.** Composition is associative with the identity
neutral, the inverse cancels a pose on either side, inverts back and turns a product around, a
product moves a point by its factors one after the other, and the inverse moves it back. Every exact
pose is its turn followed by its displacement. -/
theorem exact_group_action {a b c : Pose ℝ} (ha : a.IsExact) (hb : b.IsExact) (hc : c.IsExact)
    (p : Point ℝ) :
    (a * b * c = a * (b * c) ∧ identity * a = a ∧ a * identity = a) ∧
    (a * a.inverse = identity ∧ a.inverse * a = identity) ∧
    a.inverse.inverse = a ∧ (a * b).inverse = b.inverse * a.inverse ∧
    (a * b).transform p = a.transform (b.transform p) ∧ a.inverse.transform (a.transform p) = p ∧
    a.displacementPart * a.rotationPart = a := by
  let f : ExactPose := ⟨a, ha⟩
  let g : ExactPose := ⟨b, hb⟩
  let h : ExactPose := ⟨c, hc⟩
  have associative : f * g * h = f * (g * h) := mul_assoc f g h
  have involutive : f⁻¹⁻¹ = f := inv_inv f
  have reversed : (f * g)⁻¹ = g⁻¹ * f⁻¹ := mul_inv_rev f g
  have product : (f * g) • p = f • g • p := mul_smul f g p
  have movedBack : f⁻¹ • f • p = p := inv_smul_smul f p
  exact ⟨⟨congrArg Subtype.val associative, Pose.identity_mul a, Pose.mul_identity a⟩,
    ⟨ha.mul_inverse, ha.inverse_mul⟩, congrArg Subtype.val involutive,
    congrArg Subtype.val reversed, product, movedBack, displacementPart_mul_rotationPart ha.last⟩

/-- Half a turn about a slanted axis, which moves the point, with poses from three angles and from a
rotation vector. -/
theorem exact_group_action_slanted :
    let a : Pose ℝ := ofParts ⟨-7/9, 4/9, 4/9, 4/9, -1/9, 8/9, 4/9, 8/9, -1/9⟩ ⟨1, 2, 3⟩
    let b : Pose ℝ := ofEuler ⟨10, 0, -5, 30, 45, 60⟩
    let c : Pose ℝ := ofRotationVector ⟨0, 1, 0⟩ ⟨1, 1, 1⟩
    let p : Point ℝ := ⟨4, 5, 6⟩
    (a.IsExact ∧ b.IsExact ∧ c.IsExact) ∧ a.transform p ≠ p ∧
      a * b * c = a * (b * c) ∧ (a * b).inverse = b.inverse * a.inverse ∧
      a.inverse.transform (a.transform p) = p := by
  intro a b c p
  have rotation : a.rotation.IsRotation := by
    refine ⟨Matrix3.orthonormal_iff.mpr ?_, ?_⟩
    · norm_num [a, ofParts]
    · rw [Matrix3.det_real]
      norm_num [a, ofParts]
  have ha : a.IsExact := isExact_ofParts rotation ⟨1, 2, 3⟩
  have hb : b.IsExact := isExact_ofEuler _
  have hc : c.IsExact := Constructed.isExact (.ofRotationVector _ _)
  have moves : a.transform p ≠ p := by
    intro same
    have first : -7/9 * 4 + 4/9 * 5 + 4/9 * 6 + 1 = (4 : ℝ) := congrArg Point.x same
    norm_num at first
  obtain ⟨⟨associative, _⟩, _, _, reversed, _, movedBack, _⟩ := exact_group_action ha hb hc p
  exact ⟨⟨ha, hb, hc⟩, moves, associative, reversed, movedBack⟩

end Pose

end Toolpath
