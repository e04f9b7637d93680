import Toolpath.Proofs.QuaternionDistance

/-!
# Quaternions read off near rotations

What is read off a block that is a rotation only up to rounding, and how far the matrix of the
reading is from the block. `r` is the block and `q` the rotation behind it (`NearTable`).

About half a turn the pivot is a sum of more than one, so that the row that belongs to it, the
quaternion times twice the pivot's root, carries the deviation over without enlarging it
(`ofHalfTurn_near`). Elsewhere every entry is a root of its own. A root near zero moves by more than
what it is taken of, and its sign comes from a difference that may be smaller than the deviation.
That leaves two bounds: where no entry is below `c`, the deviation grows by at most one over `c`
(`ofDiagonal_within`), and where only the real part is not small, the sizes of the entries are off
by a thousandth and a sign is wrong for next to nothing only (`ofDiagonal_within_of_real`).
-/

namespace Toolpath

open Scalar

/-! ## The table of sums -/

namespace Matrix3

/-- Four sums of the diagonal: for a rotation, four times the squares of the entries of its
quaternion. -/
def diagonalSums (r : Matrix3 ℝ) : Quaternion ℝ where
  w := 1 + r.m11 + r.m22 + r.m33
  x := 1 + r.m11 - r.m22 - r.m33
  y := 1 + r.m22 - r.m33 - r.m11
  z := 1 + r.m33 - r.m11 - r.m22

/-- The differences of opposite entries: for a rotation, four times the products of the real entry
of its quaternion with the others. -/
def swirl (r : Matrix3 ℝ) : Point ℝ := ⟨r.m32 - r.m23, r.m13 - r.m31, r.m21 - r.m12⟩

/-- The row of the table that belongs to the first axis. -/
def firstRow (r : Matrix3 ℝ) : Quaternion ℝ where
  w := r.m32 - r.m23
  x := 1 + r.m11 - r.m22 - r.m33
  y := r.m21 + r.m12
  z := r.m13 + r.m31

/-- The diagonal is no further off than the whole, nor is any pair of opposite entries. -/
theorem parts_le_distSq (a b : Matrix3 ℝ) :
    (a.m11 - b.m11) ^ 2 + (a.m22 - b.m22) ^ 2 + (a.m33 - b.m33) ^ 2 +
      ((a.m32 - b.m32) ^ 2 + (a.m23 - b.m23) ^ 2) + ((a.m13 - b.m13) ^ 2 + (a.m31 - b.m31) ^ 2) +
      ((a.m21 - b.m21) ^ 2 + (a.m12 - b.m12) ^ 2) = distSq a b := by
  unfold distSq
  ring

theorem add_sq_le_two (x y : ℝ) : (x + y) ^ 2 ≤ 2 * (x ^ 2 + y ^ 2) := by
  linarith [two_mul_le_add_sq x y, add_sq x y]

theorem add_sq_le_three (x y z : ℝ) : (x + y + z) ^ 2 ≤ 3 * (x ^ 2 + y ^ 2 + z ^ 2) := by
  have expand : 3 * (x ^ 2 + y ^ 2 + z ^ 2) - (x + y + z) ^ 2 =
      (x - y) ^ 2 + (y - z) ^ 2 + (z - x) ^ 2 := by ring
  rw [← sub_nonneg, expand]
  positivity

/-- The four sums together are at most twice as far off as the matrix. -/
theorem distSq_diagonalSums_le (a b : Matrix3 ℝ) :
    Quaternion.distSq a.diagonalSums b.diagonalSums ≤ 4 * distSq a b := by
  have diagonal : Quaternion.distSq a.diagonalSums b.diagonalSums =
      4 * ((a.m11 - b.m11) ^ 2 + (a.m22 - b.m22) ^ 2 + (a.m33 - b.m33) ^ 2) := by
    unfold Quaternion.distSq diagonalSums
    ring
  rw [diagonal, ← parts_le_distSq]
  refine mul_le_mul_of_nonneg_left ?_ zero_le_four
  have others : 0 ≤ (a.m32 - b.m32) ^ 2 + (a.m23 - b.m23) ^ 2 +
      ((a.m13 - b.m13) ^ 2 + (a.m31 - b.m31) ^ 2) +
      ((a.m21 - b.m21) ^ 2 + (a.m12 - b.m12) ^ 2) := by positivity
  linarith

theorem distSq_firstRow_le (a b : Matrix3 ℝ) :
    Quaternion.distSq a.firstRow b.firstRow ≤ 3 * distSq a b := by
  have w := add_sq_le_two (a.m32 - b.m32) (-(a.m23 - b.m23))
  have x := add_sq_le_three (a.m11 - b.m11) (-(a.m22 - b.m22)) (-(a.m33 - b.m33))
  have y := add_sq_le_two (a.m21 - b.m21) (a.m12 - b.m12)
  have z := add_sq_le_two (a.m13 - b.m13) (a.m31 - b.m31)
  have split : Quaternion.distSq a.firstRow b.firstRow =
      (a.m32 - b.m32 + -(a.m23 - b.m23)) ^ 2 +
        (a.m11 - b.m11 + -(a.m22 - b.m22) + -(a.m33 - b.m33)) ^ 2 +
        (a.m21 - b.m21 + (a.m12 - b.m12)) ^ 2 + (a.m13 - b.m13 + (a.m31 - b.m31)) ^ 2 := by
    unfold Quaternion.distSq firstRow
    ring
  have others : 0 ≤ (a.m32 - b.m32) ^ 2 + (a.m23 - b.m23) ^ 2 +
      ((a.m13 - b.m13) ^ 2 + (a.m31 - b.m31) ^ 2) +
      ((a.m21 - b.m21) ^ 2 + (a.m12 - b.m12) ^ 2) := by positivity
  rw [neg_sq] at w
  rw [neg_sq, neg_sq] at x
  rw [split, ← parts_le_distSq]
  linarith

/-- How near the table of a block is to that of the rotation behind it. -/
structure NearTable (r q : Matrix3 ℝ) : Prop where
  w : |r.diagonalSums.w - q.diagonalSums.w| ≤ 3.4e-6
  x : |r.diagonalSums.x - q.diagonalSums.x| ≤ 3.4e-6
  y : |r.diagonalSums.y - q.diagonalSums.y| ≤ 3.4e-6
  z : |r.diagonalSums.z - q.diagonalSums.z| ≤ 3.4e-6
  wx : |r.swirl.x - q.swirl.x| ≤ 2.8e-6
  wy : |r.swirl.y - q.swirl.y| ≤ 2.8e-6
  wz : |r.swirl.z - q.swirl.z| ≤ 2.8e-6

theorem nearTable_of_distSq_le {r q : Matrix3 ℝ} (near : distSq r q ≤ 3.8e-12) : NearTable r q := by
  rw [← parts_le_distSq] at near
  have d1 := sq_nonneg (r.m11 - q.m11)
  have d2 := sq_nonneg (r.m22 - q.m22)
  have d3 := sq_nonneg (r.m33 - q.m33)
  have h1 := sq_nonneg (r.m32 - q.m32)
  have l1 := sq_nonneg (r.m23 - q.m23)
  have h2 := sq_nonneg (r.m13 - q.m13)
  have l2 := sq_nonneg (r.m31 - q.m31)
  have h3 := sq_nonneg (r.m21 - q.m21)
  have l3 := sq_nonneg (r.m12 - q.m12)
  have three {u x y z : ℝ} (sum : u = x + y + z) (part : x ^ 2 + y ^ 2 + z ^ 2 ≤ 3.8e-12) :
      |u| ≤ 3.4e-6 := by
    refine abs_le_of_sq_le_sq ((sum ▸ add_sq_le_three x y z).trans ?_) (by norm_num)
    norm_num at part ⊢
    linarith
  have two {u x y : ℝ} (difference : u = x - y) (part : x ^ 2 + y ^ 2 ≤ 3.8e-12) :
      |u| ≤ 2.8e-6 := by
    have bound := add_sq_le_two x (-y)
    rw [neg_sq, ← sub_eq_add_neg, ← difference] at bound
    refine abs_le_of_sq_le_sq (bound.trans ?_) (by norm_num)
    norm_num at part ⊢
    linarith
  exact {
    w := three (x := r.m11 - q.m11) (y := r.m22 - q.m22) (z := r.m33 - q.m33)
      (by simp only [diagonalSums]; ring) (by linarith)
    x := three (x := r.m11 - q.m11) (y := -(r.m22 - q.m22)) (z := -(r.m33 - q.m33))
      (by simp only [diagonalSums]; ring) (by rw [neg_sq, neg_sq]; linarith)
    y := three (x := -(r.m11 - q.m11)) (y := r.m22 - q.m22) (z := -(r.m33 - q.m33))
      (by simp only [diagonalSums]; ring) (by rw [neg_sq, neg_sq]; linarith)
    z := three (x := -(r.m11 - q.m11)) (y := -(r.m22 - q.m22)) (z := r.m33 - q.m33)
      (by simp only [diagonalSums]; ring) (by rw [neg_sq, neg_sq]; linarith)
    wx := two (x := r.m32 - q.m32) (y := r.m23 - q.m23) (by simp only [swirl]; ring) (by linarith)
    wy := two (x := r.m13 - q.m13) (y := r.m31 - q.m31) (by simp only [swirl]; ring) (by linarith)
    wz := two (x := r.m21 - q.m21) (y := r.m12 - q.m12) (by simp only [swirl]; ring) (by linarith) }

/-- No entry of a block is further than its tolerance allows from the rotation behind it. -/
theorem within_of_near {r q : Matrix3 ℝ} (near : distSq r q ≤ 3.8e-12) : q.Within 2e-6 r := by
  refine within_of_distSq_le (by norm_num) ?_
  rw [distSq_comm]
  norm_num at near ⊢
  linarith

/-! ### Axes renamed -/

theorem distSq_cycle (a b : Matrix3 ℝ) : distSq a.cycle b.cycle = distSq a b := by
  simp only [distSq, cycle]
  ring

theorem within_cycle_iff {a b : Matrix3 ℝ} {d : ℝ} : a.cycle.Within d b.cycle ↔ a.Within d b := by
  simp only [Within, toList, cycle, List.forall₂_cons, List.forall₂_nil_right_iff, and_true]
  tauto

end Matrix3

namespace Quaternion

open Matrix3

/-- The matrix of a quaternion as it stands is the one that it stands for. -/
theorem StandsFor.rotation_eq {p : Quaternion ℝ} {q : Matrix3 ℝ} (stands : p.StandsFor q) :
    p.rotation = q := by
  rw [← stands.toRotation_eq, toRotation_eq_rotation, normalize_of_unit stands.unit]

/-- The squares of the entries, in the sums of the diagonal. -/
theorem StandsFor.squares {p : Quaternion ℝ} {q : Matrix3 ℝ} (stands : p.StandsFor q) :
    4 * p.w ^ 2 = q.diagonalSums.w ∧ 4 * p.x ^ 2 = q.diagonalSums.x ∧
      4 * p.y ^ 2 = q.diagonalSums.y ∧ 4 * p.z ^ 2 = q.diagonalSums.z := by
  simp only [sq]
  exact ⟨stands.ww, stands.xx, stands.yy, stands.zz⟩

/-! ## About half a turn -/

section HalfTurn

variable {r q : Matrix3 ℝ}

/-- What is known of the quaternion of a block of about half a turn: it is a unit whose vector part
is its larger part, and its matrix is near the block. -/
structure ReadsHalfTurn (u : Quaternion ℝ) (r : Matrix3 ℝ) : Prop where
  unit : u.normSq = 1
  turned : u.w ^ 2 ≤ 3 / 4
  near : u.rotation.Within 6e-6 r

/-- The row of the first axis is a multiple of the quaternion read off with that pivot. -/
theorem scaled_eq_firstRow {s : ℝ} (positive : 0 < s)
    (pivot : s * s = 1 + r.m11 - r.m22 - r.m33) :
    scaled (2 * s) ⟨(r.m32 - r.m23) / (2 * s), s / 2, (r.m21 + r.m12) / (2 * s),
      (r.m13 + r.m31) / (2 * s)⟩ = r.firstRow := by
  have divides : 2 * s ≠ 0 := by positivity
  simp only [scaled, firstRow, mul_div_cancel₀ _ divides, ← pivot]
  congr 1
  ring

/-- A pivot of more than one enlarges no deviation of its row. -/
theorem distSq_normalize_le {v p : Quaternion ℝ} {s t : ℝ} (unit : p.normSq = 1) (positive : 0 < s)
    (large : 1.333 ≤ s * s) (largeExact : 1.15 ≤ t) (pivot : (s / 2) ^ 2 ≤ v.normSq)
    (rows : distSq (scaled (2 * s) v) (scaled (2 * t) p) ≤ 3 * 3.8e-12) :
    distSq v.normalize p ≤ 1.95e-6 ^ 2 := by
  have long : (Tolerance.quaternionNorm : ℝ) ≤ v.normSq := by
    change (1e-10 : ℝ) ≤ v.normSq
    linarith
  have lengths : 3 ≤ 2 * s * √v.normSq * (2 * t) := by
    have first : 1.333 ≤ 2 * s * √v.normSq := by
      linarith [mul_le_mul_of_nonneg_left (Real.le_sqrt_of_sq_le pivot) positive.le]
    calc (3 : ℝ) ≤ 1.333 * (2 * 1.15) := by norm_num
      _ ≤ 2 * s * √v.normSq * (2 * t) := by gcongr
  have bound := distSq_normalize_mul_le unit long (2 * s) (2 * t)
  have scaled := mul_le_mul_of_nonneg_left lengths (distSq_nonneg v.normalize p)
  norm_num at rows ⊢
  linarith

/-- A unit next to the quaternion of the rotation behind the block is a good reading of it. -/
theorem readsHalfTurn_of_near {u p : Quaternion ℝ} (stands : p.StandsFor q)
    (near : Matrix3.distSq r q ≤ 3.8e-12) (trace : r.trace ≤ -0.999999) (unit : u.normSq = 1)
    (apart : distSq u p ≤ 1.95e-6 ^ 2) : ReadsHalfTurn u r := by
  refine ⟨unit, ?_, ?_⟩
  · obtain ⟨real, -⟩ := abs_le.mp (nearTable_of_distSq_le near).w
    rw [trace_real] at trace
    simp only [diagonalSums] at real
    have squares := add_sq_le_two (u.w - p.w) p.w
    rw [sub_add_cancel] at squares
    have part : (u.w - p.w) ^ 2 ≤ distSq u p := by
      unfold distSq
      linarith [sq_nonneg (u.x - p.x), sq_nonneg (u.y - p.y), sq_nonneg (u.z - p.z)]
    norm_num at apart
    linarith [stands.ww]
  · have matrices := rotation_within unit stands.unit (by norm_num) apart
    rw [stands.rotation_eq] at matrices
    exact within_mono (by norm_num) (within_trans matrices (within_of_near near))

/-- The first axis for the pivot: where its diagonal entry is the largest, its sum is more than
one. -/
theorem exists_aboutFirst?_near (rotation : q.IsRotation) (near : Matrix3.distSq r q ≤ 3.8e-12)
    (trace : r.trace ≤ -0.999999) (m22 : r.m22 ≤ r.m11) (m33 : r.m33 ≤ r.m11) :
    ∃ w k i j, aboutFirst? r = some (w, k, i, j) ∧ ReadsHalfTurn (normalize ⟨w, k, i, j⟩) r := by
  obtain ⟨low, high⟩ := abs_le.mp (nearTable_of_distSq_le near).x
  simp only [diagonalSums] at low high
  have large : 1.333 ≤ 1 + r.m11 - r.m22 - r.m33 := by
    rw [trace_real] at trace
    linarith
  refine ⟨_, _, _, _, aboutAxis?_real _ _ _ (by linarith), ?_⟩
  rw [add_comm r.m31 r.m13]
  have s_pos : 0 < √(1 + r.m11 - r.m22 - r.m33) := Real.sqrt_pos.mpr (by linarith)
  have t_large : 1.15 ≤ √(1 + q.m11 - q.m22 - q.m33) := Real.le_sqrt_of_sq_le (by linarith)
  have t_pos : 0 < √(1 + q.m11 - q.m22 - q.m33) := by linarith
  have s_sq := Real.mul_self_sqrt (show 0 ≤ 1 + r.m11 - r.m22 - r.m33 by linarith)
  have t_sq := Real.mul_self_sqrt (show 0 ≤ 1 + q.m11 - q.m22 - q.m33 by linarith)
  generalize √(1 + r.m11 - r.m22 - r.m33) = s at *
  generalize √(1 + q.m11 - q.m22 - q.m33) = t at *
  have stands := standsFor_of_first_pivot rotation t_pos t_sq
  refine readsHalfTurn_of_near stands near trace (normSq_normalize _)
    (distSq_normalize_le stands.unit s_pos (s_sq ▸ large) t_large ?pivot ?rows)
  case pivot =>
    rw [normSq_real]
    dsimp only
    linarith [mul_self_nonneg ((r.m32 - r.m23) / (2 * s)),
      mul_self_nonneg ((r.m21 + r.m12) / (2 * s)), mul_self_nonneg ((r.m13 + r.m31) / (2 * s))]
  case rows =>
    rw [scaled_eq_firstRow s_pos s_sq, scaled_eq_firstRow t_pos t_sq]
    exact (distSq_firstRow_le r q).trans (mul_le_mul_of_nonneg_left near zero_le_three)

/-- What is read off with the axes renamed is read off for the block itself. -/
theorem ReadsHalfTurn.of_cycle {u : Quaternion ℝ} (h : ReadsHalfTurn u r.cycle) :
    ReadsHalfTurn u.cycle r := by
  have unit : u.cycle.normSq = u.normSq := by
    simp only [normSq_real, cycle]
    ring
  have near := h.near
  rw [← rotation_cycle] at near
  exact ⟨unit.trans h.unit, h.turned, within_cycle_iff.mp near⟩

/-- Whichever diagonal entry is the largest, what is read off near half a turn is near the block. -/
theorem ofHalfTurn_near (rotation : q.IsRotation) (near : Matrix3.distSq r q ≤ 3.8e-12)
    (trace : r.trace ≤ -0.999999) : ReadsHalfTurn (ofHalfTurn r) r := by
  refine ofHalfTurn_of_first (fun r => (∃ q : Matrix3 ℝ, q.IsRotation ∧
    Matrix3.distSq r q ≤ 3.8e-12) ∧ r.trace ≤ -0.999999) ReadsHalfTurn ?renamed ?back ?first
    ⟨⟨q, rotation, near⟩, trace⟩
  case renamed =>
    rintro r ⟨⟨q, rotation, near⟩, trace⟩
    exact ⟨⟨q.cycle, rotation.cycle, (distSq_cycle r q).trans_le near⟩,
      r.trace_cycle.trans_le trace⟩
  case back =>
    exact ReadsHalfTurn.of_cycle
  case first =>
    rintro r ⟨⟨q, rotation, near⟩, trace⟩
    exact exists_aboutFirst?_near rotation near trace

end HalfTurn

/-! ## Less than about half a turn -/

section Entry

variable {s t exact sum real p v c : ℝ}

/-- An entry as it is read off the diagonal: half a root, with a sign. -/
noncomputable def signedHalf (s t : ℝ) : ℝ := sign s * sqrt (atLeastZero t) / 2.0

theorem sq_sign (s : ℝ) : sign s ^ 2 = 1 := by
  unfold sign
  rw [one_real]
  split
  · norm_num
  · norm_num

theorem sq_signedHalf (s t : ℝ) : 4 * signedHalf s t ^ 2 = max t 0 := by
  have root := Real.sq_sqrt (le_max_right t 0)
  unfold signedHalf
  rw [atLeastZero_real, sqrt_real, two_real]
  linear_combination root + √(max t 0) ^ 2 * sq_sign s

theorem signedHalf_of_nonneg (nonneg : 0 ≤ s) (t : ℝ) : signedHalf s t = √(max t 0) / 2 := by
  unfold signedHalf sign
  rw [lt_real, zero_real, one_real, two_real, if_neg (by rwa [decide_eq_true_eq, not_lt]), one_mul,
    atLeastZero_real, sqrt_real]

theorem signedHalf_of_neg (negative : s < 0) (t : ℝ) : signedHalf s t = -(√(max t 0) / 2) := by
  unfold signedHalf sign
  rw [lt_real, zero_real, one_real, two_real, if_pos (decide_eq_true negative), atLeastZero_real,
    sqrt_real]
  ring

theorem signedHalf_zero_nonneg (t : ℝ) : 0 ≤ signedHalf 0 t := by
  rw [signedHalf_of_nonneg le_rfl]
  positivity

/-- The sign of an entry is right where the difference that it is taken from is off by less than
its size. -/
theorem signedHalf_mul_nonneg (positive : 0 < real) (product : 4 * (real * p) = sum)
    (near : |s - sum| < |sum|) : 0 ≤ signedHalf s t * p := by
  have half : 0 ≤ √(max t 0) / 2 := by positivity
  by_cases negative : s < 0
  · rw [signedHalf_of_neg negative, neg_mul_comm]
    refine mul_nonneg half (neg_nonneg.mpr ?_)
    by_contra opposite
    have sum_pos : 0 < sum := by
      rw [← product]
      have := mul_pos positive (not_le.mp opposite)
      linarith
    rw [abs_of_neg (by linarith), abs_of_pos sum_pos] at near
    linarith
  · rw [signedHalf_of_nonneg (not_lt.mp negative)]
    refine mul_nonneg half ?_
    by_contra opposite
    have sum_neg : sum < 0 := by
      rw [← product]
      have := mul_neg_of_pos_of_neg positive (not_le.mp opposite)
      linarith
    rw [abs_of_pos (by linarith), abs_of_neg sum_neg] at near
    linarith

/-- An entry that is not small is half a root of more than nothing. -/
theorem le_of_le_abs (large : 1 / 100 ≤ |v|) (square : 4 * v ^ 2 = max t 0) : 4e-4 ≤ t := by
  have squares : (1 / 100 : ℝ) ^ 2 ≤ v ^ 2 := by
    rw [← sq_abs v]
    gcongr
  by_contra less
  have most : max t 0 < 4e-4 := max_lt (not_le.mp less) (by norm_num)
  linarith

/-- Away from zero, an entry of the rotation is as large as the one read off. -/
theorem le_abs_of_near (least : 1 / 100 ≤ c) (large : c ≤ |v|) (square : 4 * v ^ 2 = t)
    (squareExact : 4 * p ^ 2 = exact) (near : |t - exact| ≤ 3.4e-6) : 0.99 * c ≤ |p| := by
  have squares : c ^ 2 ≤ v ^ 2 := by
    rw [← sq_abs v]
    gcongr
  have small : (1 / 100 : ℝ) ^ 2 ≤ c ^ 2 := by gcongr
  obtain ⟨-, above⟩ := abs_le.mp near
  have squaresExact : (0.99 * c) ^ 2 ≤ p ^ 2 := by
    linarith
  exact (le_abs_self _).trans (sq_le_sq.mp squaresExact)

/-- Away from zero, the sign of an entry is right. -/
theorem signedHalf_mul_nonneg_of_le (least : 1 / 100 ≤ c) (large : 0.99 * c ≤ real)
    (largeExact : 0.99 * c ≤ |p|) (product : 4 * (real * p) = sum) (close : |s - sum| ≤ 2.8e-6) :
    0 ≤ signedHalf s t * p := by
  have positive : 0 < real := by linarith
  refine signedHalf_mul_nonneg positive product (close.trans_lt ?_)
  have factors : 0.0099 * 0.0099 ≤ real * |p| := by
    gcongr <;> linarith
  rw [← product, abs_mul, abs_mul, abs_of_pos positive, abs_of_pos (by norm_num : (0 : ℝ) < 4)]
  norm_num at factors ⊢
  linarith

/-- Away from zero, a root moves in proportion to what it is taken of. -/
theorem sq_sub_mul_le (nonneg : 0 ≤ c) (large : c ≤ |v|) (largeExact : 0.99 * c ≤ |p|)
    (agree : 0 ≤ v * p) : (v - p) ^ 2 * (62 * c ^ 2) ≤ (4 * v ^ 2 - 4 * p ^ 2) ^ 2 := by
  have product : c * (0.99 * c) ≤ v * p := by
    rw [← abs_of_nonneg agree, abs_mul]
    exact mul_le_mul large largeExact (by linarith) (abs_nonneg v)
  have first : c ^ 2 ≤ v ^ 2 := by
    rw [← sq_abs v]
    gcongr
  have second : (0.99 * c) ^ 2 ≤ p ^ 2 := by
    rw [← sq_abs p]
    gcongr
  have sum : 62 * c ^ 2 ≤ 16 * (v + p) ^ 2 := by nlinarith [sq_nonneg c]
  calc (v - p) ^ 2 * (62 * c ^ 2) ≤ (v - p) ^ 2 * (16 * (v + p) ^ 2) := by gcongr
    _ = (4 * v ^ 2 - 4 * p ^ 2) ^ 2 := by ring

/-- Away from zero, an entry of the vector part moves in proportion to what it is read off. -/
theorem sq_signedHalf_sub_mul_le (least : 1 / 100 ≤ c) (large : c ≤ |signedHalf s t|)
    (largeReal : 0.99 * c ≤ real) (squareExact : 4 * p ^ 2 = exact)
    (product : 4 * (real * p) = sum) (near : |t - exact| ≤ 3.4e-6) (close : |s - sum| ≤ 2.8e-6) :
    (signedHalf s t - p) ^ 2 * (62 * c ^ 2) ≤ (t - exact) ^ 2 := by
  have positive := le_of_le_abs (least.trans large) (sq_signedHalf s t)
  have square : 4 * signedHalf s t ^ 2 = t := by
    rw [sq_signedHalf, max_eq_left (by linarith)]
  have largeExact := le_abs_of_near least large square squareExact near
  have agree := signedHalf_mul_nonneg_of_le (t := t) least largeReal largeExact product close
  have moved := sq_sub_mul_le (by linarith) large largeExact agree
  rwa [square, squareExact] at moved

/-- So does the real part, which has no sign to get wrong. -/
theorem sq_signedHalf_zero_sub_mul_le (least : 1 / 100 ≤ c) (large : c ≤ |signedHalf 0 t|)
    (positive : 0 < p) (squareExact : 4 * p ^ 2 = exact) (near : |t - exact| ≤ 3.4e-6) :
    0.99 * c ≤ p ∧ (signedHalf 0 t - p) ^ 2 * (62 * c ^ 2) ≤ (t - exact) ^ 2 := by
  have above := le_of_le_abs (least.trans large) (sq_signedHalf 0 t)
  have square : 4 * signedHalf 0 t ^ 2 = t := by
    rw [sq_signedHalf, max_eq_left (by linarith)]
  have largeExact := le_abs_of_near least large square squareExact near
  have agree := mul_nonneg (signedHalf_zero_nonneg t) positive.le
  have moved := sq_sub_mul_le (by linarith) large largeExact agree
  rw [square, squareExact] at moved
  rw [abs_of_pos positive] at largeExact
  exact ⟨largeExact, moved⟩

/-- Everywhere, the size of a root moves by no more than the root of the move. -/
theorem abs_abs_sub_le (square : 4 * v ^ 2 = max t 0) (squareExact : 4 * p ^ 2 = exact)
    (near : |t - exact| ≤ 3.4e-6) : |(|v| - |p|)| ≤ 9.3e-4 := by
  have nonneg : 0 ≤ exact := by
    rw [← squareExact]
    positivity
  have moved : |4 * v ^ 2 - 4 * p ^ 2| ≤ 3.4e-6 := by
    rw [square, squareExact, ← max_eq_left nonneg]
    exact (abs_max_sub_max_le_abs t exact 0).trans near
  have factored : 4 * v ^ 2 - 4 * p ^ 2 = 4 * ((|v| - |p|) * (|v| + |p|)) := by
    rw [← sq_abs v, ← sq_abs p]
    ring
  have smaller : |(|v| - |p|)| ≤ |v| + |p| :=
    abs_le.mpr ⟨by linarith [abs_nonneg v], by linarith [abs_nonneg p]⟩
  rw [factored, abs_mul, abs_mul, abs_of_nonneg (by positivity : 0 ≤ |v| + |p|)] at moved
  have product := mul_le_mul_of_nonneg_left smaller (abs_nonneg (|v| - |p|))
  rw [abs_mul_abs_self, ← sq] at product
  refine abs_le_of_sq_le_sq ?_ (by norm_num)
  norm_num at moved ⊢
  linarith

/-- Of one sign, two numbers are as far apart as their sizes. -/
theorem abs_sub_of_mul_nonneg (agree : 0 ≤ v * p) : |v - p| = |(|v| - |p|)| := by
  have product : v * p = |v| * |p| := by rw [← abs_mul, abs_of_nonneg agree]
  have squares : (v - p) ^ 2 = (|v| - |p|) ^ 2 := by
    linear_combination -2 * product - sq_abs v - sq_abs p
  exact (sq_eq_sq_iff_abs_eq_abs _ _).mp squares

/-- An entry of the vector part is off by no more than a thousandth and a bit, as long as the real
part is not small: where the sign is wrong, the entry is next to nothing. -/
theorem abs_signedHalf_sub_le (large : 9e-3 ≤ real) (squareExact : 4 * p ^ 2 = exact)
    (product : 4 * (real * p) = sum) (near : |t - exact| ≤ 3.4e-6) (close : |s - sum| ≤ 2.8e-6) :
    |signedHalf s t - p| ≤ 1.1e-3 := by
  have sizes := abs_abs_sub_le (sq_signedHalf s t) squareExact near
  rcases lt_or_ge |s - sum| |sum| with right | wrong
  · have agree : 0 ≤ signedHalf s t * p := signedHalf_mul_nonneg (by linarith) product right
    rw [abs_sub_of_mul_nonneg agree]
    linarith
  · have small : |p| ≤ 7.8e-5 := by
      have size : |sum| = 4 * (real * |p|) := by
        rw [← product, abs_mul, abs_mul, abs_of_pos (by linarith : 0 < real)]
        norm_num
      have least := mul_le_mul_of_nonneg_right large (abs_nonneg p)
      linarith
    have apart := abs_sub (signedHalf s t) p
    have most := (abs_le.mp sizes).2
    linarith

end Entry

section Diagonal

variable {r q : Matrix3 ℝ}

theorem ofDiagonal_real (r : Matrix3 ℝ) : ofDiagonal r =
    ⟨signedHalf 0 r.diagonalSums.w, signedHalf r.swirl.x r.diagonalSums.x,
      signedHalf r.swirl.y r.diagonalSums.y, signedHalf r.swirl.z r.diagonalSums.z⟩ := by
  rw [signedHalf_of_nonneg le_rfl]
  unfold ofDiagonal signedHalf diagonalSums swirl
  simp only [atLeastZero_real, sqrt_real, one_real, two_real]
  congr 4 <;> ring_nf

/-- The squares of the entries read off sum up to one, or to more where a sum was raised to
zero. -/
theorem one_le_normSq_ofDiagonal (r : Matrix3 ℝ) : 1 ≤ (ofDiagonal r).normSq := by
  have w := sq_signedHalf 0 r.diagonalSums.w
  have x := sq_signedHalf r.swirl.x r.diagonalSums.x
  have y := sq_signedHalf r.swirl.y r.diagonalSums.y
  have z := sq_signedHalf r.swirl.z r.diagonalSums.z
  have four : r.diagonalSums.w + r.diagonalSums.x + r.diagonalSums.y + r.diagonalSums.z = 4 := by
    simp only [diagonalSums]
    ring
  rw [normSq_real, ofDiagonal_real]
  dsimp only
  linarith [le_max_left r.diagonalSums.w 0, le_max_left r.diagonalSums.x 0,
    le_max_left r.diagonalSums.y 0, le_max_left r.diagonalSums.z 0]

/-- An entry close to next to nothing is small. -/
theorem sq_le_of_near {v p : ℝ} (near : |v - p| ≤ 1.1e-3) (small : |v| ≤ 1e-9) :
    p ^ 2 ≤ 1.22e-6 := by
  obtain ⟨low, high⟩ := abs_le.mp near
  obtain ⟨below, above⟩ := abs_le.mp small
  have size : p ^ 2 ≤ 1.10001e-3 ^ 2 := sq_le_sq' (by linarith) (by linarith)
  norm_num at size ⊢
  linarith

theorem normSq_identity : (identity : Quaternion ℝ).normSq = 1 := by
  rw [normSq_real]
  unfold identity
  norm_num

/-- A unit with a positive real part is as near to no rotation as its vector part is short. -/
theorem distSq_identity_le {p : Quaternion ℝ} (unit : p.normSq = 1) (positive : 0 < p.w)
    (short : p.x ^ 2 + p.y ^ 2 + p.z ^ 2 ≤ 3.66e-6) : distSq identity p ≤ 2.2e-3 ^ 2 := by
  rw [normSq_real] at unit
  have gap : (1 - p.w) * (1 + p.w) = p.x ^ 2 + p.y ^ 2 + p.z ^ 2 := by
    linear_combination -unit
  have below : 0 ≤ 1 - p.w := by
    by_contra above
    have : (1 - p.w) * (1 + p.w) < 0 := mul_neg_of_neg_of_pos (not_le.mp above) (by linarith)
    linarith [sq_nonneg p.x, sq_nonneg p.y, sq_nonneg p.z]
  have less : 1 - p.w ≤ 3.66e-6 := by
    linarith [mul_nonneg below positive.le]
  have real : (1 - p.w) ^ 2 ≤ 3.66e-6 ^ 2 := pow_le_pow_left₀ below less 2
  have sum : distSq identity p = (1 - p.w) ^ 2 + (p.x ^ 2 + p.y ^ 2 + p.z ^ 2) := by
    unfold distSq identity
    rw [one_real, zero_real]
    ring
  rw [sum]
  norm_num at real short ⊢
  linarith

/-- A rotation with a real part has a quaternion with a positive one. -/
theorem exists_standsFor_pos (rotation : q.IsRotation) (real : 0 < q.diagonalSums.w) :
    ∃ p : Quaternion ℝ, p.StandsFor q ∧ 0 < p.w := by
  have positive : 0 < √q.diagonalSums.w := Real.sqrt_pos.mpr real
  exact ⟨_, standsFor_of_real_pivot rotation positive (Real.mul_self_sqrt real.le),
    half_pos positive⟩

/-- A quaternion at least as long as a unit is as near to it, in its matrix, as it is itself. -/
theorem StandsFor.toRotation_within {p v : Quaternion ℝ} (stands : p.StandsFor q)
    (near : Matrix3.distSq r q ≤ 3.8e-12) (long : 1 ≤ v.normSq) {d : ℝ} (nonneg : 0 ≤ d)
    (close : distSq v p ≤ d ^ 2) : v.toRotation.Within (2 * d + 2e-6) r := by
  have threshold : (Tolerance.quaternionNorm : ℝ) ≤ v.normSq := by
    change (1e-10 : ℝ) ≤ v.normSq
    linarith
  have shortened : distSq v.normalize p ≤ distSq v p := by
    have bound := distSq_normalize_mul_le stands.unit threshold 1 1
    have root : 1 ≤ √v.normSq := Real.one_le_sqrt.mpr long
    have scaled := le_mul_of_one_le_right (distSq_nonneg v.normalize p) root
    simp only [Quaternion.scaled, one_mul, mul_one] at bound
    linarith
  have matrices := rotation_within v.normSq_normalize stands.unit nonneg (shortened.trans close)
  rw [stands.rotation_eq] at matrices
  exact within_trans matrices (within_of_near near)

/-- **Where no entry is small, the quaternion that is read off the diagonal keeps the block**, up to
the deviation of the block over the smallest entry. -/
theorem ofDiagonal_within (rotation : q.IsRotation) (near : Matrix3.distSq r q ≤ 3.8e-12) {c : ℝ}
    (least : 1 / 100 ≤ c) (w : c ≤ |(ofDiagonal r).w|) (x : c ≤ |(ofDiagonal r).x|)
    (y : c ≤ |(ofDiagonal r).y|) (z : c ≤ |(ofDiagonal r).z|) :
    (ofDiagonal r).toRotation.Within (1e-6 / c + 2e-6) r := by
  have table := nearTable_of_distSq_le near
  have long := one_le_normSq_ofDiagonal r
  rw [ofDiagonal_real] at w x y z long ⊢
  dsimp only at w x y z
  have tw := le_of_le_abs (least.trans w) (sq_signedHalf _ _)
  obtain ⟨p, stands, positive⟩ :=
    exists_standsFor_pos rotation (by linarith [(abs_le.mp table.w).2])
  obtain ⟨ww, xx, yy, zz⟩ := stands.squares
  obtain ⟨real, gapW⟩ := sq_signedHalf_zero_sub_mul_le least w positive ww table.w
  have gapX := sq_signedHalf_sub_mul_le least x real xx stands.wx table.x table.wx
  have gapY := sq_signedHalf_sub_mul_le least y real yy stands.wy table.y table.wy
  have gapZ := sq_signedHalf_sub_mul_le least z real zz stands.wz table.z table.wz
  have c_pos : 0 < c := by linarith
  have twice : 2 * (0.5e-6 / c) = 1e-6 / c := by ring
  rw [← twice]
  refine stands.toRotation_within near long (by positivity) ?_
  have sums := distSq_diagonalSums_le r q
  rw [div_pow, le_div_iff₀ (by positivity)]
  unfold distSq at sums ⊢
  dsimp only
  norm_num at near ⊢
  linarith

/-- Where the real part is not small, no entry that is read off the diagonal is far from that of the
rotation behind the block. -/
theorem exists_standsFor_ofDiagonal (rotation : q.IsRotation)
    (near : Matrix3.distSq r q ≤ 3.8e-12) (large : 1 / 100 ≤ (ofDiagonal r).w) :
    ∃ p : Quaternion ℝ, p.StandsFor q ∧ 0 < p.w ∧ |(ofDiagonal r).w - p.w| ≤ 9.3e-4 ∧
      |(ofDiagonal r).x - p.x| ≤ 1.1e-3 ∧ |(ofDiagonal r).y - p.y| ≤ 1.1e-3 ∧
      |(ofDiagonal r).z - p.z| ≤ 1.1e-3 := by
  have table := nearTable_of_distSq_le near
  rw [ofDiagonal_real] at large ⊢
  dsimp only at large ⊢
  have tw := le_of_le_abs (large.trans (le_abs_self _)) (sq_signedHalf _ _)
  obtain ⟨p, stands, positive⟩ :=
    exists_standsFor_pos rotation (by linarith [(abs_le.mp table.w).2])
  obtain ⟨ww, xx, yy, zz⟩ := stands.squares
  have gap : |signedHalf 0 r.diagonalSums.w - p.w| ≤ 9.3e-4 := by
    rw [abs_sub_of_mul_nonneg (mul_nonneg (signedHalf_zero_nonneg _) positive.le)]
    exact abs_abs_sub_le (sq_signedHalf _ _) ww table.w
  have real : 9e-3 ≤ p.w := by linarith [(abs_le.mp gap).2]
  exact ⟨p, stands, positive, gap, abs_signedHalf_sub_le real xx stands.wx table.x table.wx,
    abs_signedHalf_sub_le real yy stands.wy table.y table.wy,
    abs_signedHalf_sub_le real zz stands.wz table.z table.wz⟩

/-- **Where the real part is not small, the quaternion that is read off the diagonal keeps the block
to within half a hundredth.** -/
theorem ofDiagonal_within_of_real (rotation : q.IsRotation) (near : Matrix3.distSq r q ≤ 3.8e-12)
    (large : 1 / 100 ≤ (ofDiagonal r).w) : (ofDiagonal r).toRotation.Within 5e-3 r := by
  obtain ⟨p, stands, -, gapW, gapX, gapY, gapZ⟩ := exists_standsFor_ofDiagonal rotation near large
  have w := sq_le_sq' (abs_le.mp gapW).1 (abs_le.mp gapW).2
  have x := sq_le_sq' (abs_le.mp gapX).1 (abs_le.mp gapX).2
  have y := sq_le_sq' (abs_le.mp gapY).1 (abs_le.mp gapY).2
  have z := sq_le_sq' (abs_le.mp gapZ).1 (abs_le.mp gapZ).2
  have close : distSq (ofDiagonal r) p ≤ 2.2e-3 ^ 2 := by
    unfold distSq
    norm_num at w x y z ⊢
    linarith
  exact within_mono (by norm_num)
    (stands.toRotation_within near (one_le_normSq_ofDiagonal r) (by norm_num) close)

/-- Where the vector part that is read off the diagonal is next to nothing, the real part is the
whole. -/
theorem le_w_of_hidden (x : |(ofDiagonal r).x| ≤ 1e-9) (y : |(ofDiagonal r).y| ≤ 1e-9)
    (z : |(ofDiagonal r).z| ≤ 1e-9) : 1 / 100 ≤ (ofDiagonal r).w := by
  have long := one_le_normSq_ofDiagonal r
  have nonneg : 0 ≤ (ofDiagonal r).w := by
    rw [ofDiagonal_real]
    exact signedHalf_zero_nonneg _
  have xx := sq_le_sq' (abs_le.mp x).1 (abs_le.mp x).2
  have yy := sq_le_sq' (abs_le.mp y).1 (abs_le.mp y).2
  have zz := sq_le_sq' (abs_le.mp z).1 (abs_le.mp z).2
  rw [normSq_real] at long
  refine le_of_sq_le_sq ?_ nonneg
  norm_num at xx yy zz ⊢
  linarith

/-- There the block is near no rotation at all. -/
theorem identity_within_of_hidden (rotation : q.IsRotation) (near : Matrix3.distSq r q ≤ 3.8e-12)
    (x : |(ofDiagonal r).x| ≤ 1e-9) (y : |(ofDiagonal r).y| ≤ 1e-9)
    (z : |(ofDiagonal r).z| ≤ 1e-9) : (identity : Quaternion ℝ).toRotation.Within 5e-3 r := by
  obtain ⟨p, stands, positive, -, gapX, gapY, gapZ⟩ :=
    exists_standsFor_ofDiagonal rotation near (le_w_of_hidden x y z)
  have short : p.x ^ 2 + p.y ^ 2 + p.z ^ 2 ≤ 3.66e-6 := by
    linarith [sq_le_of_near gapX x, sq_le_of_near gapY y, sq_le_of_near gapZ z]
  have close := distSq_identity_le stands.unit positive short
  exact within_mono (by norm_num)
    (stands.toRotation_within near normSq_identity.ge (by norm_num) close)

end Diagonal

end Quaternion

end Toolpath
