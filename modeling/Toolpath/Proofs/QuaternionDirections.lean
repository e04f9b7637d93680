import Toolpath.Proofs.QuaternionDistance

/-!
# Quaternions of one direction

The matrix of a quaternion says nothing of its length and sign, and all else of it. That it says no
less rests on the products of two entries, four times which are sums of the matrix's entries: two
units with the same products are one, or each other's negative (`StandsFor.eq_or_eq_scaled`), since
their scalar product is a sign and takes the entries of the one to those of the other.

The quaternion read off a matrix is one of these two. So what comes back from a quaternion's own
matrix is the quaternion at length one, up to the sign that makes its real part not negative; only a
vector part that counts as nothing is lost.

The law (`toRotation_direction`) is one of exact arithmetic, for the quaternions that have a
direction. A shorter one has the matrix of no rotation, as `normalize` says.
-/

namespace Toolpath.Quaternion

open Scalar

variable {p q : Quaternion ℝ} {r : Matrix3 ℝ}

/-! ## Units of one matrix -/

/-- A unit stands for its own matrix. -/
theorem standsFor_rotation (unit : q.normSq = 1) : q.StandsFor q.rotation := by
  rw [normSq_real] at unit
  constructor
  · simp only [rotation, one_real, two_real]
    linear_combination 4 * unit
  all_goals
    simp only [rotation, one_real, two_real]
    ring

theorem standsFor_toRotation (q : Quaternion ℝ) : q.normalize.StandsFor q.toRotation :=
  standsFor_rotation q.normSq_normalize

theorem norm_vector_of_unit (unit : q.normSq = 1) : q.vector.norm = √(1 - q.w ^ 2) := by
  rw [normSq_real] at unit
  rw [Point.norm_real, vector]
  congr 1
  linarith

theorem rotation_neg (q : Quaternion ℝ) : (scaled (-1) q).rotation = q.rotation := by
  simp only [scaled, rotation, one_real, two_real]
  ext <;> ring

theorem scaled_one (q : Quaternion ℝ) : scaled 1 q = q := by
  simp only [scaled, one_mul]

namespace StandsFor

/-- **Two quaternions that stand for one matrix are the same up to the sign.** -/
theorem eq_or_eq_scaled (hp : p.StandsFor r) (hq : q.StandsFor r) : p = q ∨ p = scaled (-1) q := by
  have unit := hq.unit
  rw [normSq_real] at unit
  -- their scalar product takes each entry of the one to that of the other, so it is a sign
  set d := q.w * p.w + q.x * p.x + q.y * p.y + q.z * p.z with hd
  have w : p.w * d = q.w := by
    linear_combination q.w / 4 * (hp.ww - hq.ww) + q.x / 4 * (hp.wx - hq.wx) +
      q.y / 4 * (hp.wy - hq.wy) + q.z / 4 * (hp.wz - hq.wz) + q.w * unit
  have x : p.x * d = q.x := by
    linear_combination q.w / 4 * (hp.wx - hq.wx) + q.x / 4 * (hp.xx - hq.xx) +
      q.y / 4 * (hp.xy - hq.xy) + q.z / 4 * (hp.zx - hq.zx) + q.x * unit
  have y : p.y * d = q.y := by
    linear_combination q.w / 4 * (hp.wy - hq.wy) + q.x / 4 * (hp.xy - hq.xy) +
      q.y / 4 * (hp.yy - hq.yy) + q.z / 4 * (hp.yz - hq.yz) + q.y * unit
  have z : p.z * d = q.z := by
    linear_combination q.w / 4 * (hp.wz - hq.wz) + q.x / 4 * (hp.zx - hq.zx) +
      q.y / 4 * (hp.yz - hq.yz) + q.z / 4 * (hp.zz - hq.zz) + q.z * unit
  have square : d * d = 1 := by
    linear_combination q.w * w + q.x * x + q.y * y + q.z * z + unit
  rcases mul_self_eq_one_iff.mp square with same | opposite
  · left
    rw [same, mul_one] at w x y z
    exact Quaternion.ext w x y z
  · right
    rw [opposite] at w x y z
    simp only [scaled]
    ext <;> linarith

theorem isRotation (h : q.StandsFor r) : r.IsRotation := by
  rw [← h.toRotation_eq]
  exact q.isRotation_toRotation

/-- What is read off the matrix that a quaternion stands for: nothing where the vector part counts
as nothing, and else a quaternion that stands for the same matrix. -/
theorem exists_ofRotation_eq (h : q.StandsFor r) : ∃ c : Quaternion ℝ, c.StandsFor r ∧ 0 ≤ c.w ∧
    ofRotation r = if q.vector.norm < Tolerance.identity then identity else c := by
  obtain ⟨c, stands, read⟩ := exists_standsFor h.isRotation
  have real : c.w ^ 2 = q.w ^ 2 := by linarith [stands.ww, h.ww]
  rw [real, ← norm_vector_of_unit h.unit] at read
  exact ⟨c.canonical, stands.canonical, c.canonical_w_nonneg, read⟩

theorem ofRotation_of_visible (h : q.StandsFor r)
    (visible : Tolerance.identity ≤ q.vector.norm) :
    (ofRotation r).StandsFor r ∧ 0 ≤ (ofRotation r).w := by
  obtain ⟨c, stands, nonneg, read⟩ := h.exists_ofRotation_eq
  rw [if_neg (not_lt.mpr visible)] at read
  rw [read]
  exact ⟨stands, nonneg⟩

theorem ofRotation_of_hidden (h : q.StandsFor r) (hidden : q.vector.norm < Tolerance.identity) :
    ofRotation r = identity := by
  obtain ⟨c, -, -, read⟩ := h.exists_ofRotation_eq
  rw [read, if_pos hidden]

/-- With a positive real part there is no choice of sign: the quaternion itself comes back. -/
theorem ofRotation_of_pos (h : q.StandsFor r) (visible : Tolerance.identity ≤ q.vector.norm)
    (positive : 0 < q.w) : ofRotation r = q := by
  obtain ⟨stands, nonneg⟩ := h.ofRotation_of_visible visible
  rcases stands.eq_or_eq_scaled h with same | opposite
  · exact same
  · rw [opposite, scaled] at nonneg
    linarith

end StandsFor

/-! ## Length -/

theorem normSq_scaled (k : ℝ) (q : Quaternion ℝ) : (scaled k q).normSq = k ^ 2 * q.normSq := by
  simp only [normSq_real, scaled]
  ring

theorem normalize_eq_scaled (long : Tolerance.quaternionNorm ≤ q.normSq) :
    q.normalize = scaled (1 / √q.normSq) q := by
  unfold normalize scaled
  rw [lt_real, if_neg (by rwa [decide_eq_true_eq, not_lt])]
  simp only [sqrt_real, one_div_mul_eq_div]

/-- A multiple is brought to the same unit, or to its negative. -/
theorem normalize_scaled {k : ℝ} (long : Tolerance.quaternionNorm ≤ q.normSq)
    (long' : Tolerance.quaternionNorm ≤ (scaled k q).normSq) :
    (scaled k q).normalize = scaled (k / |k|) q.normalize := by
  have root : √(scaled k q).normSq = |k| * √q.normSq := by
    rw [normSq_scaled, Real.sqrt_mul (sq_nonneg k), Real.sqrt_sq_eq_abs]
  rw [normalize_eq_scaled long', normalize_eq_scaled long, root, scaled_scaled, scaled_scaled]
  congr 1
  ring

/-- So a multiple has the same matrix. -/
theorem toRotation_scaled {k : ℝ} (long : Tolerance.quaternionNorm ≤ q.normSq)
    (long' : Tolerance.quaternionNorm ≤ (scaled k q).normSq) :
    (scaled k q).toRotation = q.toRotation := by
  have unit := (scaled k q).normSq_normalize
  rw [normalize_scaled long long', normSq_scaled, q.normSq_normalize, mul_one, sq] at unit
  rw [toRotation_eq_rotation, toRotation_eq_rotation, normalize_scaled long long']
  rcases mul_self_eq_one_iff.mp unit with same | opposite
  · rw [same, scaled_one]
  · rw [opposite, rotation_neg]

/-- Two quaternions with one matrix are multiples of each other: their units are the same up to the
sign, and each is its length times its unit. -/
theorem exists_scaled_of_toRotation_eq (hp : Tolerance.quaternionNorm ≤ p.normSq)
    (hq : Tolerance.quaternionNorm ≤ q.normSq) (same : p.toRotation = q.toRotation) :
    ∃ k, p = scaled k q := by
  have stands := p.standsFor_toRotation
  rw [same] at stands
  obtain ⟨sign, units⟩ : ∃ sign, p.normalize = scaled sign q.normalize := by
    rcases stands.eq_or_eq_scaled q.standsFor_toRotation with equal | opposite
    · exact ⟨1, by rw [equal, scaled_one]⟩
    · exact ⟨-1, opposite⟩
  refine ⟨√p.normSq * sign * (1 / √q.normSq), ?_⟩
  calc
    p = scaled √p.normSq p.normalize := (scaled_normalize hp).symm
    _ = scaled (√p.normSq * sign * (1 / √q.normSq)) q := by
      rw [units, normalize_eq_scaled hq, scaled_scaled, scaled_scaled, mul_assoc]

/-! ## The law -/

/-- **A quaternion and its matrix determine each other up to length and sign.** The matrix of a
quaternion that has a direction is a rotation, and the same for another one exactly if that is a
multiple, with a factor of either sign. The quaternion read off it is that of no rotation where the
vector part of the unit counts as nothing. Elsewhere it is the unit or its negative, and its real
part is not negative. -/
theorem toRotation_direction (q : Quaternion ℝ) (long : 1e-10 ≤ q.normSq) :
    q.toRotation.IsRotation ∧
    (∀ p : Quaternion ℝ, 1e-10 ≤ p.normSq →
      (p.toRotation = q.toRotation ↔ ∃ k, p = scaled k q)) ∧
    (q.normalize.vector.norm < Tolerance.identity → ofRotation q.toRotation = identity) ∧
    (Tolerance.identity ≤ q.normalize.vector.norm →
      0 ≤ (ofRotation q.toRotation).w ∧
      (ofRotation q.toRotation = q.normalize ∨
        ofRotation q.toRotation = scaled (-1) q.normalize)) := by
  have stands := q.standsFor_toRotation
  refine ⟨q.isRotation_toRotation, fun p long' => ⟨?_, ?_⟩, stands.ofRotation_of_hidden,
    fun visible => ?_⟩
  · exact exists_scaled_of_toRotation_eq long' long
  · rintro ⟨k, rfl⟩
    exact toRotation_scaled long long'
  · obtain ⟨read, nonneg⟩ := stands.ofRotation_of_visible visible
    exact ⟨nonneg, read.eq_or_eq_scaled stands⟩

/-- A quaternion of length five with a negative real part, and one twice as long on the other side:
they have one matrix, and what is read off it is the unit of the second. -/
theorem toRotation_direction_negative :
    let q : Quaternion ℝ := ⟨-1, 2, 2, 4⟩
    let p : Quaternion ℝ := ⟨2, -4, -4, -8⟩
    (1e-10 ≤ q.normSq ∧ 1e-10 ≤ p.normSq ∧ Tolerance.identity ≤ q.normalize.vector.norm) ∧
      p.toRotation = q.toRotation ∧ ofRotation q.toRotation = ⟨1/5, -2/5, -2/5, -4/5⟩ := by
  intro q p
  have q_normSq : q.normSq = 25 := by norm_num [normSq_real, q]
  have q_long : 1e-10 ≤ q.normSq := by
    rw [q_normSq]
    norm_num
  have p_long : 1e-10 ≤ p.normSq := by norm_num [normSq_real, p]
  have root : √(25 : ℝ) = 5 := by
    rw [show (25 : ℝ) = 5 ^ 2 by norm_num]
    exact Real.sqrt_sq (by norm_num)
  have unit : q.normalize = ⟨-1/5, 2/5, 2/5, 4/5⟩ := by
    rw [normalize_eq_scaled q_long, q_normSq, root]
    norm_num [scaled, q]
  have visible : Tolerance.identity ≤ q.normalize.vector.norm := by
    rw [norm_vector_of_unit q.normSq_normalize, unit]
    refine Real.le_sqrt_of_sq_le ?_
    change (1e-9 : ℝ) ^ 2 ≤ 1 - (-1/5) ^ 2
    norm_num
  obtain ⟨-, alike, -, back⟩ := toRotation_direction q q_long
  obtain ⟨nonneg, same | opposite⟩ := back visible
  · rw [same, unit] at nonneg
    norm_num at nonneg
  · have multiple : p = scaled (-2) q := by norm_num [scaled, p, q]
    refine ⟨⟨q_long, p_long, visible⟩, (alike p p_long).mpr ⟨-2, multiple⟩, ?_⟩
    rw [opposite, unit]
    norm_num [scaled]

end Toolpath.Quaternion
