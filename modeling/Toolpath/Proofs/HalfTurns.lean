import Toolpath.Proofs.QuaternionDirections
import Toolpath.Proofs.RebuiltPoses

/-!
# Half turns read off any matrix

Near half a turn the quaternion is read off beside a pivot: twice the root of what is left of one,
plus the diagonal entry of the main axis, less the other two. The main axis is the one with the
largest diagonal entry, and for that reason alone the sum under the root is at least one less a third
of the trace, whatever the matrix (`one_sub_trace_le_halfTurnSum`). The trace is negative wherever
the cosine counts as that of half a turn, so that the pivot is no less than two there.

The law (`ofHalfTurn_conditioned`) needs no rotation. The guards of the reading, against a negative
sum, a pivot too small to divide by and a quaternion without direction, are idle for every matrix
that comes to them, and what is returned is a unit. What is not a rotation may still have a vector
part that counts as nothing beside the real part, and is then read as no rotation, a unit as well.
-/

namespace Toolpath

open Scalar

/-! ## The main axis -/

namespace Matrix3

section

variable {α : Type} [Scalar α]

/-- The diagonal entry at an axis. -/
def diagonal (r : Matrix3 α) : Fin 3 → α
  | 0 => r.m11
  | 1 => r.m22
  | 2 => r.m33

/-- The axis with the largest diagonal entry, the earliest of those that share it. -/
def mainAxis (r : Matrix3 α) : Fin 3 :=
  if le r.m22 r.m11 && le r.m33 r.m11 then 0 else if le r.m33 r.m22 then 1 else 2

end

theorem mainAxis_real (r : Matrix3 ℝ) : r.mainAxis =
    if r.m22 ≤ r.m11 ∧ r.m33 ≤ r.m11 then 0 else if r.m33 ≤ r.m22 then 1 else 2 := by
  unfold mainAxis
  simp only [le_real, Bool.and_eq_true, decide_eq_true_eq]

/-- No diagonal entry is larger than that of the main axis. -/
theorem diagonal_le_mainAxis (r : Matrix3 ℝ) (i : Fin 3) :
    r.diagonal i ≤ r.diagonal r.mainAxis := by
  have all {d : ℝ} (m11 : r.m11 ≤ d) (m22 : r.m22 ≤ d) (m33 : r.m33 ≤ d) : r.diagonal i ≤ d := by
    match i with
    | 0 => exact m11
    | 1 => exact m22
    | 2 => exact m33
  rw [mainAxis_real]
  split_ifs with first second
  · exact all le_rfl first.1 first.2
  · -- the first entry is not the largest, so it is below one of the others, and the second is that
    refine all ?_ le_rfl second
    by_contra above
    exact first ⟨(not_le.mp above).le, second.trans (not_le.mp above).le⟩
  · have third := (not_le.mp second).le
    refine all ?_ third le_rfl
    by_contra above
    exact first ⟨third.trans (not_le.mp above).le, (not_le.mp above).le⟩

/-- The trace, counted from any axis on. -/
theorem trace_eq_diagonal (r : Matrix3 ℝ) (k : Fin 3) :
    r.trace = r.diagonal k + r.diagonal (k + 1) + r.diagonal (k + 2) := by
  rw [trace_real]
  match k with
  | 0 => rfl
  | 1 =>
    change _ = r.m22 + r.m33 + r.m11
    ring
  | 2 =>
    change _ = r.m33 + r.m11 + r.m22
    ring

/-- The largest of three is at least their mean. -/
theorem trace_le_mainAxis (r : Matrix3 ℝ) : r.trace ≤ 3 * r.diagonal r.mainAxis := by
  have second := r.diagonal_le_mainAxis (r.mainAxis + 1)
  have third := r.diagonal_le_mainAxis (r.mainAxis + 2)
  rw [r.trace_eq_diagonal r.mainAxis]
  linarith

end Matrix3

namespace Quaternion

/-! ## The reading in its parts -/

section

variable {α : Type} [Scalar α]

/-- The sum of the diagonal whose root is half the pivot at an axis. -/
def halfTurnSum (r : Matrix3 α) (k : Fin 3) : α :=
  1.0 + r.diagonal k - r.diagonal (k + 1) - r.diagonal (k + 2)

/-- The number that the entries are read off beside when an axis is taken for the main one. -/
def halfTurnPivot (r : Matrix3 α) (k : Fin 3) : α := sqrt (atLeastZero (halfTurnSum r k)) * 2.0

/-- The quaternion read off beside a pivot, before it is brought to length one. -/
def besidePivot (r : Matrix3 α) (s : α) : Fin 3 → Quaternion α
  | 0 => ⟨(r.m32 - r.m23) / s, 0.25 * s, (r.m21 + r.m12) / s, (r.m31 + r.m13) / s⟩
  | 1 => ⟨(r.m13 - r.m31) / s, (r.m12 + r.m21) / s, 0.25 * s, (r.m32 + r.m23) / s⟩
  | 2 => ⟨(r.m21 - r.m12) / s, (r.m13 + r.m31) / s, (r.m23 + r.m32) / s, 0.25 * s⟩

/-- What is read off about one axis, wherever the entries then go. -/
theorem read_aboutAxis? (dₖ dᵢ dⱼ ki kj ji : α) (placed : α × α × α × α → Quaternion α) :
    let s := sqrt (atLeastZero (1.0 + dₖ - dᵢ - dⱼ)) * 2.0
    (match (aboutAxis? dₖ dᵢ dⱼ ki kj ji).map placed with
      | some q => q.normalize
      | none => identity) =
    if lt s Tolerance.quaternionNorm then identity
    else (placed (ji / s, 0.25 * s, ki / s, kj / s)).normalize := by
  intro s
  have found : aboutAxis? dₖ dᵢ dⱼ ki kj ji = if lt s Tolerance.quaternionNorm then none
    else some (ji / s, 0.25 * s, ki / s, kj / s) := rfl
  rw [found]
  cases lt s Tolerance.quaternionNorm with
  | true => rfl
  | false => rfl

/-- Of any scalars, the three ways to read are one way from three axes. -/
theorem ofHalfTurn_eq_besidePivot (r : Matrix3 α) :
    let s := halfTurnPivot r r.mainAxis
    ofHalfTurn r = if lt s Tolerance.quaternionNorm then identity
      else (besidePivot r s r.mainAxis).normalize := by
  unfold ofHalfTurn Matrix3.mainAxis
  cases le r.m22 r.m11 && le r.m33 r.m11 with
  | true =>
    exact read_aboutAxis? r.m11 r.m22 r.m33 (r.m21 + r.m12) (r.m31 + r.m13) (r.m32 - r.m23) _
  | false =>
    cases le r.m33 r.m22 with
    | true =>
      exact read_aboutAxis? r.m22 r.m33 r.m11 (r.m32 + r.m23) (r.m12 + r.m21) (r.m13 - r.m31) _
    | false =>
      exact read_aboutAxis? r.m33 r.m11 r.m22 (r.m13 + r.m31) (r.m23 + r.m32) (r.m21 - r.m12) _

end

/-! ## The size of the pivot -/

variable {r : Matrix3 ℝ}

/-- **The sum under the root is at least one less a third of the trace**, whatever the matrix. -/
theorem one_sub_trace_le_halfTurnSum (r : Matrix3 ℝ) :
    1 - r.trace / 3 ≤ halfTurnSum r r.mainAxis := by
  have largest := r.trace_le_mainAxis
  have trace := r.trace_eq_diagonal r.mainAxis
  unfold halfTurnSum
  rw [one_real]
  linarith

/-- No matrix that is taken for half a turn has a positive trace. -/
theorem trace_nonpos_of_turned (turned : lt (cosAngle r) (-1.0 + Tolerance.halfTurn)) :
    r.trace ≤ 0 := by
  rw [lt_real, decide_eq_true_eq, one_real, cosAngle_lt_halfTurn_iff] at turned
  linarith

theorem one_le_halfTurnSum (trace : r.trace ≤ 0) : 1 ≤ halfTurnSum r r.mainAxis := by
  linarith [one_sub_trace_le_halfTurnSum r]

/-- Raising the sum to zero does nothing to one that is positive. -/
theorem halfTurnPivot_eq {k : Fin 3} (positive : 0 < halfTurnSum r k) :
    halfTurnPivot r k = 2 * √(halfTurnSum r k) := by
  unfold halfTurnPivot
  rw [atLeastZero_real, max_eq_left positive.le, sqrt_real, two_real, mul_comm]

theorem two_le_halfTurnPivot (trace : r.trace ≤ 0) : 2 ≤ halfTurnPivot r r.mainAxis := by
  have sum := one_le_halfTurnSum trace
  have root : 1 ≤ √(halfTurnSum r r.mainAxis) := Real.one_le_sqrt.mpr sum
  rw [halfTurnPivot_eq (by linarith)]
  linarith

/-! ## The length of what is read -/

theorem sq_le_normSq (q : Quaternion ℝ) :
    q.x ^ 2 ≤ q.normSq ∧ q.y ^ 2 ≤ q.normSq ∧ q.z ^ 2 ≤ q.normSq := by
  have w := mul_self_nonneg q.w
  have x := mul_self_nonneg q.x
  have y := mul_self_nonneg q.y
  have z := mul_self_nonneg q.z
  rw [normSq_real]
  refine ⟨?_, ?_, ?_⟩ <;> linarith

/-- The entry at the axis is a quarter of the pivot, and the whole is no shorter. -/
theorem sq_le_normSq_besidePivot (r : Matrix3 ℝ) (s : ℝ) (k : Fin 3) :
    (0.25 * s) ^ 2 ≤ (besidePivot r s k).normSq := by
  have entries := (besidePivot r s k).sq_le_normSq
  match k with
  | 0 => exact entries.1
  | 1 => exact entries.2.1
  | 2 => exact entries.2.2

theorem quarter_le_normSq_besidePivot {s : ℝ} (large : 2 ≤ s) (r : Matrix3 ℝ) (k : Fin 3) :
    1 / 4 ≤ (besidePivot r s k).normSq := by
  have half : (1 / 2 : ℝ) ≤ 0.25 * s := by linarith
  calc (1 / 4 : ℝ) = (1 / 2) ^ 2 := by norm_num
    _ ≤ (0.25 * s) ^ 2 := pow_le_pow_left₀ (by norm_num) half 2
    _ ≤ (besidePivot r s k).normSq := sq_le_normSq_besidePivot r s k

theorem normSq_canonical (q : Quaternion ℝ) : q.canonical.normSq = q.normSq := by
  unfold canonical
  split
  · simp only [normSq_real, neg_mul_neg]
  · rfl

/-- Where half a turn is read, a unit is returned, whether or not its vector part counts. -/
theorem unit_ofRotation (turned : lt (cosAngle r) (-1.0 + Tolerance.halfTurn))
    (unit : (ofHalfTurn r).normSq = 1) : (ofRotation r).norm = 1 ∧ 0 ≤ (ofRotation r).w := by
  simp only [ofRotation, if_pos turned]
  split
  · refine ⟨norm_of_unit normSq_identity, ?_⟩
    norm_num [identity]
  · exact ⟨norm_of_unit ((normSq_canonical _).trans unit), canonical_w_nonneg _⟩

/-! ## The law -/

theorem quaternionNorm_le {x : ℝ} (large : 1 / 4 ≤ x) : Tolerance.quaternionNorm ≤ x := by
  change (1e-10 : ℝ) ≤ x
  linarith

theorem not_lt_of_le {x y : ℝ} (le : y ≤ x) : ¬ lt x y := by
  rw [lt_real, decide_eq_true_eq]
  exact not_lt.mpr le

/-- **Half a turn is read off well for every matrix that is taken for one.** The sum under the root
is positive and the pivot at least two, so that there is a quaternion to read; its squared length is
at least a quarter, so that it has a direction; and what is returned is a unit whose real part is not
negative. -/
theorem ofHalfTurn_conditioned (r : Matrix3 ℝ)
    (turned : lt (cosAngle r) (-1.0 + Tolerance.halfTurn)) :
    let sum := halfTurnSum r r.mainAxis
    let s := halfTurnPivot r r.mainAxis
    let q := besidePivot r s r.mainAxis
    (0 < sum ∧ s = 2 * √sum ∧ 2 ≤ s) ∧
    (¬ lt s Tolerance.quaternionNorm ∧ ofHalfTurn r = q.normalize) ∧
    (1 / 4 ≤ q.normSq ∧ ¬ lt q.normSq Tolerance.quaternionNorm ∧
      q.normalize = scaled (1 / q.norm) q) ∧
    (ofRotation r).norm = 1 ∧ 0 ≤ (ofRotation r).w := by
  intro sum s q
  have trace := trace_nonpos_of_turned turned
  have positive : 0 < sum := zero_lt_one.trans_le (one_le_halfTurnSum trace)
  have large : 2 ≤ s := two_le_halfTurnPivot trace
  have length : 1 / 4 ≤ q.normSq := quarter_le_normSq_besidePivot large r r.mainAxis
  have divides : ¬ lt s Tolerance.quaternionNorm :=
    not_lt_of_le (quaternionNorm_le (by linarith))
  have long : Tolerance.quaternionNorm ≤ q.normSq := quaternionNorm_le length
  have read : ofHalfTurn r = q.normalize := (ofHalfTurn_eq_besidePivot r).trans (if_neg divides)
  have unit : (ofHalfTurn r).normSq = 1 := by
    rw [read]
    exact q.normSq_normalize
  exact ⟨⟨positive, halfTurnPivot_eq positive, large⟩, ⟨divides, read⟩,
    ⟨length, not_lt_of_le long, normalize_eq_scaled long⟩, unit_ofRotation turned unit⟩

/-- A shear with one negative entry all along the diagonal is no rotation: the first of the three axes
is taken, and the pivot is twice the root of two. -/
theorem ofHalfTurn_conditioned_shear :
    let r : Matrix3 ℝ := ⟨-1, 4, 0, 0, -1, 3, 0, 0, -1⟩
    ¬ r.IsRotation ∧ lt (cosAngle r) (-1.0 + Tolerance.halfTurn) ∧ r.mainAxis = 0 ∧
    halfTurnPivot r 0 = 2 * √2 ∧ 2 ≤ halfTurnPivot r 0 ∧
    1 / 4 ≤ (besidePivot r (halfTurnPivot r 0) 0).normSq ∧
    (ofRotation r).norm = 1 ∧ 0 ≤ (ofRotation r).w := by
  intro r
  have turned : lt (cosAngle r) (-1.0 + Tolerance.halfTurn) := by
    rw [lt_real, decide_eq_true_eq, one_real, cosAngle_lt_halfTurn_iff, Matrix3.trace_real]
    norm_num [r]
  have mirrored : ¬ r.IsRotation := by
    intro rotation
    have volume := rotation.det_eq_one
    rw [Matrix3.det_real] at volume
    norm_num [r] at volume
  have axis : r.mainAxis = 0 := by
    rw [Matrix3.mainAxis_real]
    norm_num [r]
  have sum : halfTurnSum r 0 = 2 := by
    change (1.0 : ℝ) + -1 - -1 - -1 = 2
    norm_num
  obtain ⟨⟨-, root, large⟩, -, ⟨length, -, -⟩, unit⟩ := ofHalfTurn_conditioned r turned
  rw [axis] at root large length
  rw [sum] at root
  exact ⟨mirrored, turned, axis, root, large, length, unit⟩

end Quaternion

end Toolpath
