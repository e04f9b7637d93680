import Toolpath.Proofs.CheckedPoses

/-!
# The last row of a pose

Turning a pose back, moving a point with it and reading angles off it take the last row for
0 0 0 1 and do not look at it. This module says which poses have that row, and what becomes of rows
that were accepted without being it.

`Constructed` are the poses made from numbers, `Given` the ones accepted as matrices, and `Reached`
is what the operations make of a source, in any number and order. The operations other than products
keep a row or make it exact. A product takes the right factor's row where the left factor's is
exact. Where it is not, the row is multiplied by the position of the right factor, and nothing
bounds that.

The law (`reached_last`): what is made from numbers has the exact row throughout; accepted rows stay
accepted where every left factor has the exact row; and no other pose can stand on the left. So not
every pose that is reached passes the check again (`leaning_mul_displacement`). All of it is a law
of exact arithmetic.
-/

namespace Toolpath.Pose

open Scalar

/-! ## Making poses -/

section Reached

variable {α : Type} [Scalar α]

/-- The poses that are made from numbers: every way to a pose but that of a given matrix. -/
inductive Constructed : Pose α → Prop where
  | identity : Constructed identity
  | displacement (p : Point α) : Constructed (displacement p)
  | rotX (angle : α) : Constructed (rotX angle)
  | rotY (angle : α) : Constructed (rotY angle)
  | rotZ (angle : α) : Constructed (rotZ angle)
  | ofEuler (e : EulerPose α) : Constructed (ofEuler e)
  | ofRollPitchYaw (e : EulerPose α) : Constructed (ofRollPitchYaw e)
  | ofQuaternion (p : Point α) (q : Quaternion α) : Constructed (ofQuaternion p q)
  | ofRotationVector (p v : Point α) : Constructed (ofRotationVector p v)

/-- The poses that the operations make of a source's, in any number and order. A pose reached stands
on the left of a product only where `left` allows it; `fun _ => True` allows all. -/
inductive Reached (source left : Pose α → Prop) : Pose α → Prop where
  | source {a : Pose α} (h : source a) : Reached source left a
  | mul {a b : Pose α} (ha : Reached source left a) (hb : Reached source left b) (hl : left a) :
    Reached source left (a * b)
  | inverse {a : Pose α} (ha : Reached source left a) : Reached source left a.inverse
  | offsetInTool {a : Pose α} (e : EulerPose α) (ha : Reached source left a) (hl : left a) :
    Reached source left (a.offsetInTool e)
  | offsetInBase {a : Pose α} (e : EulerPose α) (ha : Reached source left a) :
    Reached source left (a.offsetInBase e)
  | withPosition {a : Pose α} {p : Point α} (ha : Reached source left a)
    (finite : p.isFinite = true) : Reached source left (a.withPosition p)
  | displacementPart {a : Pose α} (ha : Reached source left a) :
    Reached source left a.displacementPart
  | rotationPart {a : Pose α} (ha : Reached source left a) : Reached source left a.rotationPart

theorem Constructed.last_eq {a : Pose α} (h : Constructed a) : a.last = LastRow.fixed := by
  cases h <;> rfl

end Reached

/-! ## Rows of products -/

theorem mul_last (a b : Pose ℝ) : (a * b).last =
    ⟨a.last.x * b.rotation.m11 + a.last.y * b.rotation.m21 + a.last.z * b.rotation.m31 +
        a.last.w * b.last.x,
      a.last.x * b.rotation.m12 + a.last.y * b.rotation.m22 + a.last.z * b.rotation.m32 +
        a.last.w * b.last.y,
      a.last.x * b.rotation.m13 + a.last.y * b.rotation.m23 + a.last.z * b.rotation.m33 +
        a.last.w * b.last.z,
      a.last.x * b.position.x + a.last.y * b.position.y + a.last.z * b.position.z +
        a.last.w * b.last.w⟩ := rfl

/-- Behind an exact row stands the right factor's own. -/
theorem mul_last_of_fixed {a : Pose ℝ} (exact : a.last = LastRow.fixed) (b : Pose ℝ) :
    (a * b).last = b.last := by
  rw [mul_last, exact, LastRow.fixed_real]
  simp only [zero_mul, zero_add, one_mul]

variable {source left : Pose ℝ → Prop} {a : Pose ℝ}

/-- What is made of exact rows has the exact row, whatever is multiplied. -/
theorem Reached.last_eq (exact : ∀ s, source s → s.last = LastRow.fixed)
    (h : Reached source left a) : a.last = LastRow.fixed := by
  induction h with
  | source h => exact exact _ h
  | mul _ _ _ ihl ihr => exact (mul_last_of_fixed ihl _).trans ihr
  | inverse => rfl
  | offsetInTool e _ _ ih => exact mul_last_of_fixed ih (ofEuler e)
  | offsetInBase e _ ih => exact (mul_last_of_fixed rfl _).trans ih
  | withPosition _ _ ih => exact ih
  | displacementPart => rfl
  | rotationPart _ ih => exact ih

/-- Where only exact rows stand on the left, accepted rows stay accepted: each operation keeps the
row, makes it exact or takes the right factor's. -/
theorem Reached.last_accepted (accepted : ∀ s, source s → s.last.accepted = true)
    (h : Reached source (fun l => l.last = LastRow.fixed) a) : a.last.accepted = true := by
  induction h with
  | source h => exact accepted _ h
  | @mul l r _ _ exact _ ihr =>
    rw [mul_last_of_fixed exact]
    exact ihr
  | inverse => exact LastRow.accepted_fixed
  | @offsetInTool l e _ exact _ =>
    have kept : (l.offsetInTool e).last = LastRow.fixed := mul_last_of_fixed exact (ofEuler e)
    rw [kept]
    exact LastRow.accepted_fixed
  | @offsetInBase r e _ ih =>
    have kept : (r.offsetInBase e).last = r.last := mul_last_of_fixed rfl r
    rw [kept]
    exact ih
  | withPosition _ _ ih => exact ih
  | displacementPart => exact LastRow.accepted_fixed
  | rotationPart _ ih => exact ih

/-! ## Rows that are not exact -/

/-- A row is not accepted where its last entry alone is off. -/
theorem not_accepted_of_far {row : LastRow ℝ} (far : Tolerance.orthonormal < |row.w - 1|) :
    row.accepted = false := by
  rw [Bool.eq_false_iff]
  intro accepted
  exact absurd (LastRow.accepted_iff.mp accepted).2.2.2 (not_le.mpr far)

/-- A row that leans is driven out of the tolerance by a displacement along it. -/
theorem exists_displacement_not_accepted
    (leans : 0 < a.last.x ^ 2 + a.last.y ^ 2 + a.last.z ^ 2) :
    ∃ p, (a * displacement p).last.accepted = false := by
  set n := a.last.x ^ 2 + a.last.y ^ 2 + a.last.z ^ 2 with hn
  set s := (2 - a.last.w) / n with hs
  have reaches : n * s = 2 - a.last.w := mul_div_cancel₀ _ leans.ne'
  refine ⟨⟨a.last.x * s, a.last.y * s, a.last.z * s⟩, not_accepted_of_far ?_⟩
  have row : (a * displacement ⟨a.last.x * s, a.last.y * s, a.last.z * s⟩).last.w = 2 := by
    rw [mul_last]
    show a.last.x * (a.last.x * s) + a.last.y * (a.last.y * s) + a.last.z * (a.last.z * s) +
      a.last.w * 1.0 = 2
    rw [one_real]
    linear_combination reaches
  rw [row]
  norm_num
  exact Tolerance.orthonormal_lt_one

/-- The identity with another number at the end of its row. -/
noncomputable def scaled (w : ℝ) : Pose ℝ := ⟨Matrix3.identity, Point.zero, ⟨0, 0, 0, w⟩⟩

theorem given_scaled {w : ℝ} (near : |w - 1| ≤ Tolerance.orthonormal) : Given (scaled w) := by
  have row : (scaled w).last.accepted = true :=
    LastRow.accepted_iff.mpr ⟨by simp [scaled, Tolerance.orthonormal_pos.le],
      by simp [scaled, Tolerance.orthonormal_pos.le],
      by simp [scaled, Tolerance.orthonormal_pos.le], near⟩
  exact .matrix (checked_of_isRotation Matrix3.isRotation_identity row)

/-- A row that stands straight and is not exact is scaled out of the tolerance by an accepted one
that is off to the same side. -/
theorem exists_given_not_accepted (x : a.last.x = 0) (y : a.last.y = 0) (z : a.last.z = 0)
    (w : a.last.w ≠ 1) : ∃ b, Given b ∧ (a * b).last.accepted = false := by
  have pos := Tolerance.orthonormal_pos
  have row (u : ℝ) : (a * scaled u).last.w = a.last.w * u := by
    rw [mul_last, x, y, z]
    simp only [scaled]
    ring
  rcases w.lt_or_gt with below | above
  · refine ⟨scaled (1 - Tolerance.orthonormal), given_scaled ?_, not_accepted_of_far ?_⟩
    · rw [sub_sub_cancel_left, abs_neg, abs_of_pos pos]
    · have shrunk : a.last.w * (1 - Tolerance.orthonormal) < 1 * (1 - Tolerance.orthonormal) :=
        mul_lt_mul_of_pos_right below (by linarith [Tolerance.orthonormal_lt_one])
      rw [row]
      exact lt_abs.mpr (.inr (by linarith))
  · refine ⟨scaled (1 + Tolerance.orthonormal), given_scaled ?_, not_accepted_of_far ?_⟩
    · rw [add_sub_cancel_left, abs_of_pos pos]
    · have grown : 1 * (1 + Tolerance.orthonormal) < a.last.w * (1 + Tolerance.orthonormal) :=
        mul_lt_mul_of_pos_right above (by linarith)
      rw [row]
      exact lt_abs.mpr (.inl (by linarith))

/-- Every row that is not exact has a right factor, made or given, behind which it is not
accepted. -/
theorem exists_not_accepted (inexact : a.last ≠ LastRow.fixed) :
    ∃ b, (Constructed b ∨ Given b) ∧ (a * b).last.accepted = false := by
  by_cases straight : a.last.x = 0 ∧ a.last.y = 0 ∧ a.last.z = 0
  · obtain ⟨x, y, z⟩ := straight
    have w : a.last.w ≠ 1 := by
      intro w
      rw [LastRow.fixed_real] at inexact
      exact inexact (LastRow.ext x y z w)
    obtain ⟨b, given, out⟩ := exists_given_not_accepted x y z w
    exact ⟨b, .inr given, out⟩
  · have leans : 0 < a.last.x ^ 2 + a.last.y ^ 2 + a.last.z ^ 2 := by
      by_contra flat
      have hx := sq_nonneg a.last.x
      have hy := sq_nonneg a.last.y
      have hz := sq_nonneg a.last.z
      exact straight ⟨pow_eq_zero_iff two_ne_zero |>.mp (by linarith),
        pow_eq_zero_iff two_ne_zero |>.mp (by linarith),
        pow_eq_zero_iff two_ne_zero |>.mp (by linarith)⟩
    obtain ⟨p, out⟩ := exists_displacement_not_accepted leans
    exact ⟨displacement p, .inl (.displacement p), out⟩

/-! ## The law -/

/-- **The last row of what is reached.** Made from numbers alone, every pose has the exact row. With
accepted matrices among the sources, every row is accepted as long as each left factor has the exact
one. And no other pose can be let stand on the left: the exact row is what it takes for every
product with a pose made or given to have an accepted one. -/
theorem reached_last (a : Pose ℝ) :
    (Reached Constructed (fun _ => True) a → a.last = LastRow.fixed) ∧
    (Reached (fun s => Constructed s ∨ Given s) (fun l => l.last = LastRow.fixed) a →
      a.last.accepted = true) ∧
    (a.last = LastRow.fixed ↔
      ∀ b, Constructed b ∨ Given b → (a * b).last.accepted = true) := by
  have accepted : ∀ s : Pose ℝ, Constructed s ∨ Given s → s.last.accepted = true := by
    rintro s (constructed | given)
    · rw [constructed.last_eq]
      exact LastRow.accepted_fixed
    · exact (checked_eq_ok_iff.mp given.checked_eq).1
  refine ⟨fun h => h.last_eq fun _ => Constructed.last_eq, fun h => h.last_accepted accepted, ?_⟩
  constructor
  · intro exact b source
    rw [mul_last_of_fixed exact]
    exact accepted b source
  · intro all
    by_contra inexact
    obtain ⟨b, source, out⟩ := exists_not_accepted inexact
    rw [all b source] at out
    cases out

/-- The identity with a row that leans along the first axis. -/
noncomputable def leaning (x : ℝ) : Pose ℝ := ⟨Matrix3.identity, Point.zero, ⟨x, 0, 0, 1⟩⟩

theorem checked_leaning : checked (leaning (1 / 2 ^ 20)) = .ok (leaning (1 / 2 ^ 20)) :=
  checked_of_isRotation Matrix3.isRotation_identity
    (LastRow.accepted_of_leaning (by norm_num [abs_of_pos]))

/-- Behind an exact row the leaning one stays as it is, and on the left it does not. -/
theorem reached_last_leaning :
    let right := displacement ⟨1024, 0, 0⟩ * leaning (1 / 2 ^ 20)
    (Reached (fun s => Constructed s ∨ Given s) (fun l => l.last = LastRow.fixed) right ∧
      right.last.accepted = true) ∧
    ¬ ∀ b, Constructed b ∨ Given b → (leaning (1 / 2 ^ 20) * b).last.accepted = true := by
  intro right
  have reached : Reached (fun s => Constructed s ∨ Given s) (fun l => l.last = LastRow.fixed)
      right :=
    .mul (.source (.inl (.displacement _))) (.source (.inr (.matrix checked_leaning))) rfl
  refine ⟨⟨reached, (reached_last right).2.1 reached⟩, fun all => ?_⟩
  have exact := (reached_last (leaning (1 / 2 ^ 20))).2.2.mpr all
  have leans : (1 / 2 ^ 20 : ℝ) = 0 := by
    rw [LastRow.fixed_real] at exact
    exact congrArg LastRow.x exact
  norm_num at leans

/-- **One product is enough to leave the tolerance.** The leaning pose is accepted as it is given.
Moved by a metre in its own frame it has a last entry that is off by a thousandth, and is not
accepted again. -/
theorem leaning_mul_displacement :
    let moved := leaning (1 / 2 ^ 20) * displacement ⟨1024, 0, 0⟩
    ofRows? 4 4 [1, 0, 0, 0, 0, 1, 0, 0, 0, 0, 1, 0, 1 / 2 ^ 20, 0, 0, 1] =
      .ok (leaning (1 / 2 ^ 20)) ∧
    Reached (fun s => Constructed s ∨ Given s) (fun _ => True) moved ∧
    moved.last = ⟨1 / 2 ^ 20, 0, 0, 1 + 1 / 2 ^ 10⟩ ∧ moved.last.accepted = false ∧
    ¬ ∀ a : Pose ℝ, Reached (fun s => Constructed s ∨ Given s) (fun _ => True) a →
      a.last.accepted = true := by
  intro moved
  have given : ofRows? 4 4 [1, 0, 0, 0, 0, 1, 0, 0, 0, 0, 1, 0, 1 / 2 ^ 20, 0, 0, 1] =
      .ok (leaning (1 / 2 ^ 20)) := by
    have rows : (leaning (1 / 2 ^ 20)).toRows =
        [1, 0, 0, 0, 0, 1, 0, 0, 0, 0, 1, 0, 1 / 2 ^ 20, 0, 0, (1 : ℝ)] := by
      simp only [leaning, toRows, Matrix3.identity_real, Point.zero, zero_real]
    rw [← rows, ofRows?_toRows]
    exact checked_leaning
  have reached : Reached (fun s => Constructed s ∨ Given s) (fun _ => True) moved :=
    .mul (.source (.inr (.rows given))) (.source (.inl (.displacement _))) trivial
  have last : moved.last = ⟨1 / 2 ^ 20, 0, 0, 1 + 1 / 2 ^ 10⟩ := by
    rw [mul_last]
    simp only [leaning, displacement, withPosition, identity, ofParts, Matrix3.identity_real,
      LastRow.fixed_real]
    norm_num
  have out : moved.last.accepted = false := by
    refine not_accepted_of_far ?_
    rw [last]
    change (1e-6 : ℝ) < |1 + 1 / 2 ^ 10 - 1|
    norm_num [abs_of_pos]
  refine ⟨given, reached, last, out, fun all => ?_⟩
  rw [all moved reached] at out
  cases out

end Toolpath.Pose
