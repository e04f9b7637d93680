import Mathlib.Analysis.SpecialFunctions.Complex.Arg
import Toolpath.Motion

/-!
# Exact scalars

The reading of the geometry in which nothing is rounded and nothing overflows: scalars are real
numbers, every one of them is finite, comparisons are decided, and roots and angles are the exact
ones. What the formulas say is proved of this reading; what machine numbers make of them is not.

The angle of a point is that of a complex number, so it lies above minus half a turn and at most at
half a turn, and the origin has the angle zero.

Beside the instance stand the equations that take the shared definitions to the real numbers' own
operations. After them no proof unfolds an operation on points at the real numbers.
-/

namespace Toolpath

/-- The real numbers as scalars. -/
noncomputable instance Scalar.real : Scalar ℝ where
  lt x y := decide (x < y)
  le x y := decide (x ≤ y)
  eq x y := decide (x = y)
  isFinite _ := true
  abs x := |x|
  sqrt := Real.sqrt
  sin := Real.sin
  cos := Real.cos
  atan2 y x := Complex.arg ⟨x, y⟩
  hypot x y := √(x ^ 2 + y ^ 2)
  quarterTurn := Real.pi / 2
  radiansPerDegree := Real.pi / 180
  degreesPerRadian := 180 / Real.pi

/-! ## Numbers -/

namespace Scalar

theorem lt_real (x y : ℝ) : lt x y = decide (x < y) := rfl

theorem le_real (x y : ℝ) : le x y = decide (x ≤ y) := rfl

theorem isFinite_real (x : ℝ) : isFinite x = true := rfl

theorem abs_real (x : ℝ) : abs x = |x| := rfl

theorem sqrt_real (x : ℝ) : sqrt x = √x := rfl

theorem zero_real : (0.0 : ℝ) = 0 := by norm_num

theorem one_real : (1.0 : ℝ) = 1 := by norm_num

theorem two_real : (2.0 : ℝ) = 2 := by norm_num

/-- A number is raised to zero where it is less. -/
theorem atLeastZero_real (x : ℝ) : atLeastZero x = max x 0 := by
  unfold atLeastZero
  rw [lt_real, zero_real]
  by_cases positive : 0 < x
  · rw [if_pos (decide_eq_true positive), max_eq_left positive.le]
  · rw [if_neg (by simpa using positive), max_eq_right (not_lt.mp positive)]

end Scalar

namespace Tolerance

theorem degenerateChord_pos : 0 < (degenerateChord : ℝ) := by
  change 0 < (1e-9 : ℝ)
  norm_num

end Tolerance

/-! ## Points -/

namespace Point

theorem add_real (p q : Point ℝ) : p + q = ⟨p.x + q.x, p.y + q.y, p.z + q.z⟩ := rfl

theorem sub_real (p q : Point ℝ) : p - q = ⟨p.x - q.x, p.y - q.y, p.z - q.z⟩ := rfl

theorem mul_real (p : Point ℝ) (s : ℝ) : p * s = ⟨p.x * s, p.y * s, p.z * s⟩ := rfl

theorem div_real (p : Point ℝ) (s : ℝ) : p / s = ⟨p.x / s, p.y / s, p.z / s⟩ := rfl

theorem isFinite_real (p : Point ℝ) : p.isFinite = true := rfl

theorem norm_real (p : Point ℝ) : p.norm = √(p.x ^ 2 + p.y ^ 2 + p.z ^ 2) := by
  rw [sq, sq, sq]
  rfl

theorem norm_sq (p : Point ℝ) : p.norm ^ 2 = p.x ^ 2 + p.y ^ 2 + p.z ^ 2 := by
  rw [norm_real, Real.sq_sqrt (by positivity)]

theorem normXY_real (p : Point ℝ) : p.normXY = √(p.x ^ 2 + p.y ^ 2) := rfl

theorem normXY_sq (p : Point ℝ) : p.normXY ^ 2 = p.x ^ 2 + p.y ^ 2 := by
  rw [normXY_real, Real.sq_sqrt (by positivity)]

/-- A vector is at least as long as its shadow. -/
theorem normXY_le_norm (p : Point ℝ) : p.normXY ≤ p.norm := by
  rw [normXY_real, norm_real]
  apply Real.sqrt_le_sqrt
  have := sq_nonneg p.z
  linarith

theorem cross_z_real (p q : Point ℝ) : (p.cross q).z = p.x * q.y - p.y * q.x := rfl

theorem distance_real (p q : Point ℝ) :
    p.distance q = √((p.x - q.x) ^ 2 + (p.y - q.y) ^ 2 + (p.z - q.z) ^ 2) :=
  norm_real (p - q)

end Point

end Toolpath
