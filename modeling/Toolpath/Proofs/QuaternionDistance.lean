import Toolpath.Proofs.NearRotations

/-!
# Distances of quaternions

How far the matrices of two quaternions lie apart, by how far apart the quaternions are. Each entry
of the matrix of a unit quaternion is a square or a product of two combinations of its entries, so
that two matrices differ by a product of the sum and the difference of the quaternions
(`rotation_within`), and the sum is no longer than two.

Bringing a quaternion to length one does not bring it closer to a unit quaternion, but no further
away than in proportion to its length (`distSq_mul_le`). With that a bound for what is read off a
matrix passes through every step of the reading: the length, the sign and the order of the axes.
-/

namespace Toolpath.Quaternion

open Scalar

/-! ## Matrices -/

/-- The sum of the squares of the differences of the entries. -/
def distSq (p q : Quaternion ℝ) : ℝ :=
  (p.w - q.w) ^ 2 + (p.x - q.x) ^ 2 + (p.y - q.y) ^ 2 + (p.z - q.z) ^ 2

theorem distSq_nonneg (p q : Quaternion ℝ) : 0 ≤ distSq p q := by
  unfold distSq
  positivity

/-- A product of two vectors of four entries is no larger than their lengths allow. -/
theorem sq_dot_le (a b c d x y z t : ℝ) : (a * x + b * y + c * z + d * t) ^ 2 ≤
    (a ^ 2 + b ^ 2 + c ^ 2 + d ^ 2) * (x ^ 2 + y ^ 2 + z ^ 2 + t ^ 2) := by
  have lagrange : (a ^ 2 + b ^ 2 + c ^ 2 + d ^ 2) * (x ^ 2 + y ^ 2 + z ^ 2 + t ^ 2) -
      (a * x + b * y + c * z + d * t) ^ 2 =
        (a * y - b * x) ^ 2 + (a * z - c * x) ^ 2 + (a * t - d * x) ^ 2 +
          ((b * z - c * y) ^ 2 + (b * t - d * y) ^ 2 + (c * t - d * z) ^ 2) := by ring
  rw [← sub_nonneg, lagrange]
  positivity

/-- The sum of two units is no longer than two. -/
theorem sum_sq_le {p q : Quaternion ℝ} (hp : p.normSq = 1) (hq : q.normSq = 1) :
    (p.w + q.w) ^ 2 + (p.x + q.x) ^ 2 + (p.y + q.y) ^ 2 + (p.z + q.z) ^ 2 ≤ 4 := by
  have parallelogram : (p.w + q.w) ^ 2 + (p.x + q.x) ^ 2 + (p.y + q.y) ^ 2 + (p.z + q.z) ^ 2 +
      distSq p q = 2 * p.normSq + 2 * q.normSq := by
    rw [distSq, normSq_real, normSq_real]
    ring
  rw [hp, hq] at parallelogram
  linarith [distSq_nonneg p q]

/-- **The matrices of two units are at most twice as far apart, entry by entry, as the units.** -/
theorem rotation_within {p q : Quaternion ℝ} (hp : p.normSq = 1) (hq : q.normSq = 1) {d : ℝ}
    (nonneg : 0 ≤ d) (near : distSq p q ≤ d ^ 2) : p.rotation.Within (2 * d) q.rotation := by
  have long := sum_sq_le hp hq
  rw [normSq_real] at hp hq
  rw [distSq] at near
  -- each entry is the product of the difference with the sum, its entries in another order
  have entry {u a b c e : ℝ} (size : a ^ 2 + b ^ 2 + c ^ 2 + e ^ 2 =
        (p.w + q.w) ^ 2 + (p.x + q.x) ^ 2 + (p.y + q.y) ^ 2 + (p.z + q.z) ^ 2)
      (product : u = a * (p.w - q.w) + b * (p.x - q.x) + c * (p.y - q.y) + e * (p.z - q.z)) :
      |u| ≤ 2 * d := by
    refine abs_le_of_sq_le_sq ?_ (by linarith)
    calc u ^ 2 ≤ (a ^ 2 + b ^ 2 + c ^ 2 + e ^ 2) * ((p.w - q.w) ^ 2 + (p.x - q.x) ^ 2 +
          (p.y - q.y) ^ 2 + (p.z - q.z) ^ 2) := product ▸ sq_dot_le _ _ _ _ _ _ _ _
      _ ≤ 4 * d ^ 2 := by
        rw [size]
        gcongr
      _ = (2 * d) ^ 2 := by ring
  simp only [Matrix3.Within, Matrix3.toList, rotation, one_real, two_real, List.forall₂_cons,
    List.forall₂_nil_right_iff, and_true]
  refine ⟨?_, ?_, ?_, ?_, ?_, ?_, ?_, ?_, ?_⟩
  · exact entry (a := p.w + q.w) (b := p.x + q.x) (c := -(p.y + q.y)) (e := -(p.z + q.z)) (by ring)
      (by linear_combination hq - hp)
  · exact entry (a := -(p.z + q.z)) (b := p.y + q.y) (c := p.x + q.x) (e := -(p.w + q.w)) (by ring)
      (by ring)
  · exact entry (a := p.y + q.y) (b := p.z + q.z) (c := p.w + q.w) (e := p.x + q.x) (by ring)
      (by ring)
  · exact entry (a := p.z + q.z) (b := p.y + q.y) (c := p.x + q.x) (e := p.w + q.w) (by ring)
      (by ring)
  · exact entry (a := p.w + q.w) (b := -(p.x + q.x)) (c := p.y + q.y) (e := -(p.z + q.z)) (by ring)
      (by linear_combination hq - hp)
  · exact entry (a := -(p.x + q.x)) (b := -(p.w + q.w)) (c := p.z + q.z) (e := p.y + q.y) (by ring)
      (by ring)
  · exact entry (a := -(p.y + q.y)) (b := p.z + q.z) (c := -(p.w + q.w)) (e := p.x + q.x) (by ring)
      (by ring)
  · exact entry (a := p.x + q.x) (b := p.w + q.w) (c := p.z + q.z) (e := p.y + q.y) (by ring)
      (by ring)
  · exact entry (a := p.w + q.w) (b := -(p.x + q.x)) (c := -(p.y + q.y)) (e := p.z + q.z) (by ring)
      (by linear_combination hq - hp)

/-! ## Length -/

/-- A quaternion with every entry multiplied by a number. -/
def scaled (l : ℝ) (q : Quaternion ℝ) : Quaternion ℝ := ⟨l * q.w, l * q.x, l * q.y, l * q.z⟩

/-- Units are as far apart as their multiples, in proportion to the two lengths, or less: what
remains is the square of the difference of the lengths. -/
theorem distSq_mul_le {p q : Quaternion ℝ} (hp : p.normSq = 1) (hq : q.normSq = 1) (k l : ℝ) :
    distSq p q * (k * l) ≤ distSq (scaled k p) (scaled l q) := by
  have rest : distSq (scaled k p) (scaled l q) =
      distSq p q * (k * l) + (k - l) ^ 2 + (k * k - k * l) * (p.normSq - 1) +
        (l * l - k * l) * (q.normSq - 1) := by
    simp only [distSq, scaled, normSq_real]
    ring
  rw [rest, hp, hq]
  linarith [sq_nonneg (k - l)]

/-- A quaternion that is not too short is its length times the unit in its direction. -/
theorem scaled_normalize {q : Quaternion ℝ} (long : Tolerance.quaternionNorm ≤ q.normSq) :
    scaled √q.normSq q.normalize = q := by
  have threshold : (0 : ℝ) < Tolerance.quaternionNorm := by
    change (0 : ℝ) < 1e-10
    norm_num
  have root : √q.normSq ≠ 0 := (Real.sqrt_pos.mpr (threshold.trans_le long)).ne'
  unfold normalize scaled
  rw [lt_real, if_neg (by rwa [decide_eq_true_eq, not_lt])]
  simp only [sqrt_real, mul_div_cancel₀ _ root]

theorem scaled_scaled (k l : ℝ) (q : Quaternion ℝ) : scaled k (scaled l q) = scaled (k * l) q := by
  simp only [scaled, mul_assoc]

/-- A quaternion is brought as near to a unit as a multiple of it is to a multiple of the unit, in
proportion to the two lengths. -/
theorem distSq_normalize_mul_le {p q : Quaternion ℝ} (hq : q.normSq = 1)
    (long : Tolerance.quaternionNorm ≤ p.normSq) (k l : ℝ) :
    distSq p.normalize q * (k * √p.normSq * l) ≤ distSq (scaled k p) (scaled l q) := by
  have bound := distSq_mul_le p.normSq_normalize hq (k * √p.normSq) l
  rwa [← scaled_scaled, scaled_normalize long] at bound

/-! ## Sign and axes -/

/-- A quaternion and its negative have one matrix. -/
theorem toRotation_canonical (q : Quaternion ℝ) : q.canonical.toRotation = q.toRotation := by
  have opposite : (⟨-q.w, -q.x, -q.y, -q.z⟩ : Quaternion ℝ).normSq = q.normSq := by
    simp only [normSq_real, neg_mul_neg]
  unfold canonical
  split
  · rw [toRotation_eq_rotation, toRotation_eq_rotation]
    unfold normalize
    rw [opposite]
    split
    · rfl
    · simp only [rotation, one_real, two_real, neg_div]
      ext <;> ring
  · rfl

/-- A matrix with its axes renamed has the quaternion with its entries renamed. -/
theorem rotation_cycle (q : Quaternion ℝ) : q.cycle.rotation.cycle = q.rotation := by
  simp only [cycle, rotation, Matrix3.cycle, one_real, two_real]
  ext <;> ring

end Toolpath.Quaternion
