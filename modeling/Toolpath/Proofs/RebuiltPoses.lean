import Toolpath.Proofs.NearReading
import Toolpath.Proofs.CheckedPoses
import Toolpath.Proofs.ExactPoses

/-!
# Poses rebuilt from their quaternion

A given pose is accepted when its block is orthonormal up to the tolerance, and its quaternion is
read off that block. The pose that is rebuilt from the quaternion is exact and at the same place;
how far its block is from the given one depends on the way of reading
(`ofQuaternion_toQuaternion_within`). Where the cosine is within its own tolerance of half a turn,
no more than ten times the admitted deviation. Outside, that holds only as long as no entry of the
quaternion is small, since each is a root of a sum that the deviation changes.

Between the two tolerances there is room for an accepted block that is read the second way although
its real part is next to nothing. The signs of the other entries are then those of differences that
are nothing but deviation, and the rebuilt pose turns about another axis (`tiltedSwap`).
-/

namespace Toolpath

open Scalar

namespace Quaternion

/-! ## Both ways -/

variable {r q : Matrix3 ℝ}

theorem cosAngle_lt_halfTurn_iff (r : Matrix3 ℝ) :
    cosAngle r < -1 + Tolerance.halfTurn ↔ r.trace < -1 + 2e-7 := by
  have bound := cosAngle_lt_iff r (show (-1 : ℝ) < -1 + 1e-7 by norm_num) (by norm_num)
  change cosAngle r < -1 + 1e-7 ↔ _
  rw [bound]
  constructor <;> intro less <;> norm_num at less ⊢ <;> linarith

/-- Near half a turn what is read is what the largest diagonal entry gives, up to the sign, since
its vector part is never next to nothing. -/
theorem ofRotation_of_lt (reads : ReadsHalfTurn (ofHalfTurn r) r)
    (turned : cosAngle r < -1 + Tolerance.halfTurn) : ofRotation r = (ofHalfTurn r).canonical := by
  have visible : Tolerance.identity ≤ √(1 - (ofHalfTurn r).w ^ 2) := by
    change (1e-9 : ℝ) ≤ √(1 - (ofHalfTurn r).w ^ 2)
    refine Real.le_sqrt_of_sq_le ?_
    linarith [reads.turned]
  unfold ofRotation
  simp only [lt_real, one_real, decide_eq_true_eq, if_pos turned]
  rw [hypot_of_unit reads.unit, if_neg (not_lt.mpr visible)]

/-- Elsewhere it is what the diagonal gives, whose real part is not negative. -/
theorem ofRotation_of_le (turned : -1 + Tolerance.halfTurn ≤ cosAngle r) : ofRotation r =
    if hypot (hypot (ofDiagonal r).x (ofDiagonal r).y) (ofDiagonal r).z < Tolerance.identity
    then identity else ofDiagonal r := by
  have nonneg : ¬ (ofDiagonal r).w < 0 := by
    rw [ofDiagonal_real]
    exact not_lt.mpr (signedHalf_zero_nonneg _)
  unfold ofRotation canonical
  simp only [lt_real, zero_real, one_real, decide_eq_true_eq, if_neg (not_lt.mpr turned),
    if_neg nonneg]

theorem abs_le_hypot (x y z : ℝ) : |x| ≤ hypot (hypot x y) z ∧ |y| ≤ hypot (hypot x y) z ∧
    |z| ≤ hypot (hypot x y) z := by
  have length : hypot (hypot x y) z = √(x ^ 2 + y ^ 2 + z ^ 2) := by
    rw [hypot_real, hypot_real, Real.sq_sqrt (by positivity)]
  rw [length]
  refine ⟨Real.abs_le_sqrt ?_, Real.abs_le_sqrt ?_, Real.abs_le_sqrt ?_⟩
  · linarith [sq_nonneg y, sq_nonneg z]
  · linarith [sq_nonneg x, sq_nonneg z]
  · linarith [sq_nonneg x, sq_nonneg y]

/-- A single entry of the vector part is enough to be seen. -/
theorem ofRotation_of_visible (turned : -1 + Tolerance.halfTurn ≤ cosAngle r)
    (visible : 1e-9 ≤ |(ofDiagonal r).x|) : ofRotation r = ofDiagonal r := by
  have seen : Tolerance.identity ≤
      hypot (hypot (ofDiagonal r).x (ofDiagonal r).y) (ofDiagonal r).z :=
    visible.trans (abs_le_hypot _ _ _).1
  rw [ofRotation_of_le turned, if_neg (not_lt.mpr seen)]

section Near

variable (rotation : q.IsRotation) (near : Matrix3.distSq r q ≤ 3.8e-12)

include rotation near

theorem ofRotation_within_of_lt (turned : cosAngle r < -1 + Tolerance.halfTurn) :
    (ofRotation r).toRotation.Within 6e-6 r := by
  have trace := (cosAngle_lt_halfTurn_iff r).mp turned
  have reads := ofHalfTurn_near rotation near (by linarith)
  rw [ofRotation_of_lt reads turned, toRotation_canonical, toRotation_eq_rotation,
    normalize_of_unit reads.unit]
  exact reads.near

theorem ofRotation_within_of_entries (turned : -1 + Tolerance.halfTurn ≤ cosAngle r) {c : ℝ}
    (least : 1 / 100 ≤ c) (w : c ≤ |(ofRotation r).w|) (x : c ≤ |(ofRotation r).x|)
    (y : c ≤ |(ofRotation r).y|) (z : c ≤ |(ofRotation r).z|) :
    (ofRotation r).toRotation.Within (1e-6 / c + 2e-6) r := by
  rw [ofRotation_of_le turned] at w x y z ⊢
  split at x
  · -- the quaternion of no rotation has no vector part
    rw [identity, zero_real, abs_zero] at x
    linarith
  · rename_i visible
    rw [if_neg visible] at w y z ⊢
    exact ofDiagonal_within rotation near least w x y z

theorem ofRotation_within_of_real (turned : -1 + Tolerance.halfTurn ≤ cosAngle r)
    (large : 1 / 100 ≤ (ofRotation r).w) : (ofRotation r).toRotation.Within 5e-3 r := by
  rw [ofRotation_of_le turned] at large ⊢
  by_cases hidden :
    hypot (hypot (ofDiagonal r).x (ofDiagonal r).y) (ofDiagonal r).z < Tolerance.identity
  · rw [if_pos hidden]
    have nothing : hypot (hypot (ofDiagonal r).x (ofDiagonal r).y) (ofDiagonal r).z ≤ 1e-9 :=
      hidden.le
    obtain ⟨x, y, z⟩ := abs_le_hypot (ofDiagonal r).x (ofDiagonal r).y (ofDiagonal r).z
    exact identity_within_of_hidden rotation near (x.trans nothing) (y.trans nothing)
      (z.trans nothing)
  · rw [if_neg hidden] at large ⊢
    exact ofDiagonal_within_of_real rotation near large

end Near

end Quaternion

namespace Pose

open Toolpath.Quaternion

/-- Behind the block of a given pose is a rotation. -/
theorem Given.exists_isRotation_near {a : Pose ℝ} (given : Given a) :
    ∃ q : Matrix3 ℝ, q.IsRotation ∧ Matrix3.distSq a.rotation q ≤ 3.8e-12 := by
  obtain ⟨-, near, proper, -⟩ := checked_eq_ok_iff.mp given.checked_eq
  exact Matrix3.exists_isRotation_near near proper

/-- A block passes where it comes close to a rotation. -/
theorem checked_of_near {r : Matrix3 ℝ} (p : Point ℝ)
    (near : (r.transpose * r).Within 1e-6 Matrix3.identity) (proper : 0 < r.det) :
    checked ⟨r, p, LastRow.fixed⟩ = .ok ⟨r, p, LastRow.fixed⟩ :=
  checked_eq_ok_iff.mpr ⟨LastRow.accepted_fixed, near, proper, rfl⟩

/-- **A given pose, rebuilt from its quaternion.** The rebuilt pose is exact and at the same place.
Its block is within ten times the admitted deviation where the cosine counts as that of half a
turn. Elsewhere that is so where no entry of the quaternion is below an eighth, and the bound grows
as the smallest entry shrinks; with a real part of at least a hundredth no entry of the block is
ever off by more than half a hundredth. -/
theorem ofQuaternion_toQuaternion_within (a : Pose ℝ) (given : Given a) :
    let q := a.toQuaternion
    let b := ofQuaternion a.position q
    b.IsExact ∧ b.position = a.position ∧
    (cosAngle a.rotation < -1 + Tolerance.halfTurn → b.rotation.Within 1e-5 a.rotation) ∧
    (-1 + Tolerance.halfTurn ≤ cosAngle a.rotation →
      (∀ c, 1 / 100 ≤ c → c ≤ |q.w| → c ≤ |q.x| → c ≤ |q.y| → c ≤ |q.z| →
        b.rotation.Within (1e-6 / c + 2e-6) a.rotation) ∧
      (1 / 100 ≤ q.w → b.rotation.Within 5e-3 a.rotation)) := by
  intro q b
  obtain ⟨p, rotation, near⟩ := given.exists_isRotation_near
  refine ⟨isExact_ofParts q.isRotation_toRotation a.position, rfl, fun turned => ?_,
    fun turned => ⟨fun c least w x y z => ?_, fun large => ?_⟩⟩
  · exact Matrix3.within_mono (by norm_num) (ofRotation_within_of_lt rotation near turned)
  · exact ofRotation_within_of_entries rotation near turned least w x y z
  · exact ofRotation_within_of_real rotation near turned large

/-- The axes renamed in a circle and stretched by nearly as much as is accepted. -/
noncomputable def stretchedCircle : Pose ℝ where
  rotation := ⟨0, 0, 1 + 4e-7, 1 + 4e-7, 0, 0, 0, 1 + 4e-7, 0⟩
  position := ⟨1, 0, 1⟩
  last := LastRow.fixed

theorem given_stretchedCircle : Given stretchedCircle := by
  refine .matrix (checked_of_near _ ?_ ?_)
  · simp only [Matrix3.Within, Matrix3.toList, Matrix3.identity_real, Matrix3.transpose,
      Matrix3.mul_real, List.forall₂_cons, List.forall₂_nil_right_iff, and_true]
    norm_num [abs_le]
  · rw [Matrix3.det_real]
    norm_num

/-- A turn by a third about the diagonal: no entry of its quaternion is small, and the stretched
pose comes back as the rotation that it was stretched from. -/
theorem ofQuaternion_toQuaternion_within_stretched :
    let b := ofQuaternion stretchedCircle.position stretchedCircle.toQuaternion
    Given stretchedCircle ∧ -1 + Tolerance.halfTurn ≤ cosAngle stretchedCircle.rotation ∧
    stretchedCircle.toQuaternion = ⟨1 / 2, 1 / 2, 1 / 2, 1 / 2⟩ ∧
    b.IsExact ∧ b.Within 1e-5 stretchedCircle := by
  intro b
  have turned : -1 + Tolerance.halfTurn ≤ cosAngle stretchedCircle.rotation := by
    rw [← not_lt, cosAngle_lt_halfTurn_iff, Matrix3.trace_real]
    norm_num [stretchedCircle]
  have read : stretchedCircle.toQuaternion = ⟨1 / 2, 1 / 2, 1 / 2, 1 / 2⟩ := by
    have diagonal : ofDiagonal stretchedCircle.rotation = ⟨1 / 2, 1 / 2, 1 / 2, 1 / 2⟩ := by
      rw [ofDiagonal_real]
      simp only [Matrix3.swirl, Matrix3.diagonalSums, stretchedCircle]
      rw [signedHalf_of_nonneg le_rfl, signedHalf_of_nonneg (by norm_num)]
      norm_num
    exact (ofRotation_of_visible turned (by norm_num [diagonal])).trans diagonal
  obtain ⟨exact, position, -, apart⟩ :=
    ofQuaternion_toQuaternion_within stretchedCircle given_stretchedCircle
  have near := (apart turned).1 (1 / 2) (by norm_num) (by norm_num [read]) (by norm_num [read])
    (by norm_num [read]) (by norm_num [read])
  exact ⟨given_stretchedCircle, turned, read, exact, within_of_rotation (by norm_num)
    (Matrix3.within_mono (by norm_num) near) position exact.last⟩

/-- Half a turn that swaps the first two axes, with a third row that leans by `d`. -/
noncomputable def tiltedSwap (d : ℝ) : Pose ℝ where
  rotation := ⟨0, 1, 0, 1, 0, 0, d, d, d - 1⟩
  position := Point.zero
  last := LastRow.fixed

section TiltedSwap

variable {d : ℝ}

/-- A third row that leans by little is accepted. -/
theorem checked_tiltedSwap (low : 0 ≤ d) (high : d ≤ 4e-7) :
    checked (tiltedSwap d) = .ok (tiltedSwap d) := by
  refine checked_of_near _ ?_ ?_
  · have small : d * d ≤ 4e-7 * d := mul_le_mul_of_nonneg_right high low
    have square : 0 ≤ d * d := mul_nonneg low low
    simp only [Matrix3.Within, Matrix3.toList, Matrix3.identity_real, Matrix3.transpose,
      Matrix3.mul_real, List.forall₂_cons, List.forall₂_nil_right_iff, and_true, abs_le]
    norm_num at high small ⊢
    refine ⟨⟨?_, ?_⟩, ⟨?_, ?_⟩, ⟨?_, ?_⟩, ⟨?_, ?_⟩, ⟨?_, ?_⟩, ⟨?_, ?_⟩⟩ <;> linarith
  · rw [Matrix3.det_real]
    norm_num at high ⊢
    linarith

/-- Where the lean is more than the tolerance for half a turn, the real part, which should be
nothing, is a root of it, and so is the entry of the third axis. The sign of the second axis is that
of the lean. -/
theorem toQuaternion_tiltedSwap (low : 2e-7 ≤ d) (high : d ≤ 1) : (tiltedSwap d).toQuaternion =
    ⟨√d / 2, √(2 - d) / 2, -(√(2 - d) / 2), √d / 2⟩ := by
  have turned : -1 + Tolerance.halfTurn ≤ cosAngle (tiltedSwap d).rotation := by
    rw [← not_lt, cosAngle_lt_halfTurn_iff, Matrix3.trace_real]
    simp only [tiltedSwap]
    linarith
  have positive : 0 < d := by linarith
  have diagonal : ofDiagonal (tiltedSwap d).rotation =
      ⟨√d / 2, √(2 - d) / 2, -(√(2 - d) / 2), √d / 2⟩ := by
    have small : max (1 + 0 + 0 + (d - 1)) 0 = d := by
      rw [max_eq_left (by linarith)]
      ring
    have first : max (1 + 0 - 0 - (d - 1)) 0 = 2 - d := by
      rw [max_eq_left (by linarith)]
      ring
    have second : max (1 + 0 - (d - 1) - 0) 0 = 2 - d := by
      rw [max_eq_left (by linarith)]
      ring
    have third : max (1 + (d - 1) - 0 - 0) 0 = d := by
      rw [max_eq_left (by linarith)]
      ring
    rw [ofDiagonal_real]
    simp only [Matrix3.swirl, Matrix3.diagonalSums, tiltedSwap]
    rw [signedHalf_of_nonneg le_rfl, signedHalf_of_nonneg (by linarith),
      signedHalf_of_neg (by linarith), signedHalf_of_nonneg (by linarith), small, first, second,
      third]
  have visible : 1e-9 ≤ |(ofDiagonal (tiltedSwap d).rotation).x| := by
    rw [diagonal]
    have one_le : 1 ≤ √(2 - d) := Real.one_le_sqrt.mpr (by linarith)
    rw [abs_of_pos (by positivity)]
    linarith
  exact (ofRotation_of_visible turned visible).trans diagonal

/-- The pose that is rebuilt swaps the axes with the opposite sign. -/
theorem rebuilt_tiltedSwap (low : 2e-7 ≤ d) (high : d ≤ 1) :
    (ofQuaternion (tiltedSwap d).position (tiltedSwap d).toQuaternion).rotation.m12 = -1 := by
  have square := Real.mul_self_sqrt (show 0 ≤ d by linarith)
  have rest := Real.mul_self_sqrt (show 0 ≤ 2 - d by linarith)
  have unit : (tiltedSwap d).toQuaternion.normSq = 1 := by
    rw [toQuaternion_tiltedSwap low high, normSq_real]
    linear_combination (square + rest) / 2
  show (tiltedSwap d).toQuaternion.toRotation.m12 = -1
  rw [toRotation_eq_rotation, normalize_of_unit unit, toQuaternion_tiltedSwap low high]
  simp only [Quaternion.rotation, two_real]
  linear_combination -(square + rest) / 2

end TiltedSwap

/-- **Just outside of what counts as half a turn, an accepted pose can come back as another.** The
leaning pose is accepted as it is given. Its cosine is that of half a turn up to a little more than
the tolerance, so that the signs are read off the deviation, and the rebuilt pose swaps the axes
with the opposite sign. -/
theorem tiltedSwap_rebuilt :
    ofRows? 4 4 [0, 1, 0, 0, 1, 0, 0, 0, 1 / 2 ^ 22, 1 / 2 ^ 22, 1 / 2 ^ 22 - 1, 0, 0, 0, 0, 1] =
      .ok (tiltedSwap (1 / 2 ^ 22)) ∧
    (tiltedSwap (1 / 2 ^ 22)).rotation.m12 = 1 ∧
    (ofQuaternion (tiltedSwap (1 / 2 ^ 22)).position
      (tiltedSwap (1 / 2 ^ 22)).toQuaternion).rotation.m12 = -1 ∧
    ¬ ∀ a : Pose ℝ, Given a →
      (ofQuaternion a.position a.toQuaternion).rotation.Within 1e-5 a.rotation := by
  have rows : (tiltedSwap (1 / 2 ^ 22)).toRows =
      [0, 1, 0, 0, 1, 0, 0, 0, 1 / 2 ^ 22, 1 / 2 ^ 22, 1 / 2 ^ 22 - 1, 0, 0, 0, 0, 1] := by
    simp only [tiltedSwap, toRows, LastRow.fixed_real, Point.zero, zero_real]
  have accepted : checked (tiltedSwap (1 / 2 ^ 22)) = .ok (tiltedSwap (1 / 2 ^ 22)) :=
    checked_tiltedSwap (by norm_num) (by norm_num)
  have swapped := rebuilt_tiltedSwap (d := 1 / 2 ^ 22) (by norm_num) (by norm_num)
  refine ⟨?_, rfl, swapped, fun all => ?_⟩
  · rw [← rows, ofRows?_toRows]
    exact accepted
  · have near := all (tiltedSwap (1 / 2 ^ 22)) (.matrix accepted)
    simp only [Matrix3.Within, Matrix3.toList, List.forall₂_cons] at near
    obtain ⟨-, m12, -⟩ := near
    rw [swapped] at m12
    norm_num [tiltedSwap, abs_le] at m12

end Pose

end Toolpath
