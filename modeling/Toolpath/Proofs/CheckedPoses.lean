import Toolpath.Proofs.Rotation

/-!
# Matrices accepted as poses

A matrix from outside is a pose if it passes four checks. This module says in one sentence what
passes in exact arithmetic (`checked_eq_ok_iff`): the last row and the product of the rotation block
with its transpose are within the tolerance of the exact ones, entry by entry, and the determinant
is positive. What passes is kept as it is. Every form in which a matrix can be given comes down to
this check (`Given.checked_eq`), and an exact pose passes it in every form (`IsExact.checked_eq`).
-/

namespace Toolpath

open Scalar

/-! ## The largest entry -/

namespace Scalar

theorem larger_real (x y : ℝ) : larger x y = max x y := by
  unfold larger
  rw [le_real]
  by_cases first : y ≤ x
  · rw [if_pos (decide_eq_true first), max_eq_left first]
  · rw [if_neg (by rwa [decide_eq_true_eq]), max_eq_right (not_le.mp first).le]

theorem foldl_larger_le_iff {first d : ℝ} {rest : List ℝ} :
    rest.foldl (fun best y => larger best (abs y)) first ≤ d ↔
      first ≤ d ∧ ∀ y ∈ rest, |y| ≤ d := by
  induction rest generalizing first with
  | nil => simp
  | cons y rest ih =>
    rw [List.foldl_cons, ih, larger_real, abs_real, max_le_iff, List.forall_mem_cons, and_assoc]

/-- The largest absolute value bounds every other, and is bounded where all are. -/
theorem largestAbs_le_iff {d : ℝ} (nonneg : 0 ≤ d) {xs : List ℝ} :
    largestAbs xs ≤ d ↔ ∀ x ∈ xs, |x| ≤ d := by
  cases xs with
  | nil => simp [largestAbs, zero_real, nonneg]
  | cons x rest => rw [largestAbs, foldl_larger_le_iff, abs_real, List.forall_mem_cons]

end Scalar

namespace Matrix3

/-- Matrices are as near as the largest entry of their difference says. -/
theorem maxAbs_sub_le_iff {d : ℝ} (nonneg : 0 ≤ d) {a b : Matrix3 ℝ} :
    (a - b).maxAbs ≤ d ↔ a.Within d b := by
  rw [maxAbs, largestAbs_le_iff nonneg]
  simp only [toList, transpose, Within, List.forall_mem_cons, List.forall₂_cons,
    List.forall₂_nil_right_iff]
  change (|a.m11 - b.m11| ≤ d ∧ |a.m21 - b.m21| ≤ d ∧ |a.m31 - b.m31| ≤ d ∧ |a.m12 - b.m12| ≤ d ∧
    |a.m22 - b.m22| ≤ d ∧ |a.m32 - b.m32| ≤ d ∧ |a.m13 - b.m13| ≤ d ∧ |a.m23 - b.m23| ≤ d ∧
    |a.m33 - b.m33| ≤ d ∧ _) ↔ _
  tauto

theorem within_refl {d : ℝ} (nonneg : 0 ≤ d) (a : Matrix3 ℝ) : a.Within d a := by
  simp only [Within, List.forall₂_same, sub_self, abs_zero]
  exact fun _ _ => nonneg

end Matrix3

/-! ## Accepted rows -/

namespace LastRow

theorem fixed_real : (fixed : LastRow ℝ) = ⟨0, 0, 0, 1⟩ := by
  simp only [fixed, zero_real, one_real]

/-- A row is accepted when no entry is further off than the tolerance. -/
theorem accepted_iff {row : LastRow ℝ} : row.accepted = true ↔
    |row.x| ≤ Tolerance.orthonormal ∧ |row.y| ≤ Tolerance.orthonormal ∧
      |row.z| ≤ Tolerance.orthonormal ∧ |row.w - 1| ≤ Tolerance.orthonormal := by
  simp only [accepted, lt_real, abs_real, zero_real, one_real, sub_zero, Bool.not_eq_true',
    Bool.or_eq_false_iff, decide_eq_false_iff_not, not_lt, and_assoc]

end LastRow

theorem Tolerance.orthonormal_pos : (0 : ℝ) < Tolerance.orthonormal := by
  change (0 : ℝ) < 1e-6
  norm_num

theorem Tolerance.orthonormal_lt_one : (Tolerance.orthonormal : ℝ) < 1 := by
  change (1e-6 : ℝ) < 1
  norm_num

theorem LastRow.accepted_fixed : (fixed : LastRow ℝ).accepted = true := by
  rw [fixed_real, accepted_iff]
  simp [Tolerance.orthonormal_pos.le]

/-- A row may lean along the first axis by as much as the tolerance. -/
theorem LastRow.accepted_of_leaning {x : ℝ} (small : |x| ≤ 1e-6) :
    (⟨x, 0, 0, 1⟩ : LastRow ℝ).accepted = true := by
  rw [accepted_iff]
  exact ⟨small, by simp [Tolerance.orthonormal_pos.le]⟩

namespace Pose

/-! ## What passes -/

/-- **A matrix passes if it comes close to a pose, and is then kept as it is.** -/
theorem checked_eq_ok_iff {a b : Pose ℝ} : checked a = .ok b ↔
    a.last.accepted = true ∧
      (a.rotation.transpose * a.rotation).Within Tolerance.orthonormal Matrix3.identity ∧
      0 < a.rotation.det ∧ a = b := by
  have finite : (a.toRows.any fun x => !Scalar.isFinite x) = false :=
    List.any_eq_false.mpr fun x _ => by simp [isFinite_real]
  have near : deviation a.rotation ≤ Tolerance.orthonormal ↔
      (a.rotation.transpose * a.rotation).Within Tolerance.orthonormal Matrix3.identity :=
    Matrix3.maxAbs_sub_le_iff Tolerance.orthonormal_pos.le
  unfold checked
  simp only [finite, lt_real, le_real, zero_real, ← near, ← not_lt (b := deviation a.rotation),
    ← not_le (b := (0 : ℝ))]
  cases row : a.last.accepted with
  | false => simp
  | true =>
    by_cases far : Tolerance.orthonormal < deviation a.rotation
    · simp [far]
    · by_cases reflected : a.rotation.det ≤ 0
      · simp [far, reflected]
      · simp [far, reflected]

section Given

variable {α : Type} [Scalar α]

/-- The poses that are given as a matrix, as a list of entries or as a grid, and accepted. -/
inductive Given : Pose α → Prop where
  | matrix {m a : Pose α} (accepted : checked m = .ok a) : Given a
  | rows {rows columns : Nat} {entries : List α} {a : Pose α}
    (accepted : ofRows? rows columns entries = .ok a) : Given a
  | grid {g : Grid α} {a : Pose α} (accepted : ofGrid? g = .ok a) : Given a

/-- Whatever its form, a given pose is one that passed the check. -/
theorem Given.exists_checked {a : Pose α} (h : Given a) : ∃ m, checked m = .ok a := by
  cases h with
  | matrix accepted => exact ⟨_, accepted⟩
  | rows accepted =>
    unfold ofRows? at accepted
    split at accepted
    · exact ⟨_, accepted⟩
    · cases accepted
  | grid accepted =>
    unfold ofGrid? at accepted
    split at accepted
    · exact ⟨_, accepted⟩
    · cases accepted

/-- The check is the same in every form. -/
theorem ofRows?_toRows (a : Pose α) : ofRows? 4 4 a.toRows = checked a := rfl

theorem ofGrid?_toRows (a : Pose α) : ofGrid? (Grid.ofRows 4 4 a.toRows) = checked a := rfl

end Given

variable {a : Pose ℝ}

/-- A given pose passes again. -/
theorem Given.checked_eq (h : Given a) : checked a = .ok a := by
  obtain ⟨m, passed⟩ := h.exists_checked
  obtain ⟨_, _, _, rfl⟩ := checked_eq_ok_iff.mp passed
  exact passed

/-- A pose with a rotation in its block passes where its last row does. -/
theorem checked_of_isRotation (rotation : a.rotation.IsRotation)
    (row : a.last.accepted = true) : checked a = .ok a := by
  refine checked_eq_ok_iff.mpr ⟨row, ?_, ?_, rfl⟩
  · rw [rotation.orthonormal]
    exact Matrix3.within_refl Tolerance.orthonormal_pos.le _
  · rw [rotation.det_eq_one]
    exact one_pos

theorem IsExact.checked_eq (h : a.IsExact) : checked a = .ok a := by
  refine checked_of_isRotation h.rotation ?_
  rw [h.last]
  exact LastRow.accepted_fixed

end Pose

end Toolpath
