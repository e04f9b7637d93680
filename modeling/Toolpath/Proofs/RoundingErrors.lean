import Toolpath.Proofs.DoubleLengths
import Toolpath.Proofs.Exact

/-!
# Errors of rounded lengths

A rounded number is off by a part of itself, or by half of the least double where it is too small
for that (`Rounds.error`). From step to step the two add up differently, so they are kept apart: a
length of doubles is near the exact one, up to a hundredth, once it is so long that half of the
least double is nothing against its square.

What is in range by a wide margin does not overflow (`isFinite_of_small`), and a root is far below
the end of the range (`sqrt_toReal_le`).

A shadow is not computed much longer than it is (`Point.shadow_upper`), and a vector is not much
longer than it is computed (`Point.norm_lower`). Both compare a vector whose coordinates were
rounded themselves (`Point.Nearly`) with the exact one.
-/

namespace Toolpath

namespace Decimal

theorem tiny_pos : 0 < tiny := by
  rw [tiny_eq]
  positivity

/-- Half of the least double stays small when it is multiplied by any length whose square is in
range. -/
theorem tiny_mul_le : tiny * 2 ^ 600 ≤ 1 / 10 ^ 60 := by
  have split : tiny * 2 ^ 600 = 1 / 2 ^ 475 := by
    rw [tiny_eq, ← zpow_natCast, ← zpow_natCast, ← zpow_add₀ two_ne_zero, one_div, ← zpow_neg]
    rfl
  rw [split]
  apply one_div_le_one_div_of_le (by positivity)
  calc (10 : ℝ) ^ 60 ≤ 2 ^ 200 := by norm_num
    _ ≤ 2 ^ 475 := pow_le_pow_right₀ one_le_two (by norm_num)

theorem tiny_le : tiny ≤ 1 / 10 ^ 60 :=
  (le_mul_of_one_le_right tiny_pos.le (one_le_pow₀ one_le_two)).trans tiny_mul_le

section Error

variable {q : ℝ} {x : Float} (h : Rounds q x) (finite : x.isFinite = true)

include h finite

/-- Rounding is off by the 2 to the 53rd part and half of the least double at most. -/
theorem Rounds.error : |q - toReal x| ≤ |q| / 2 ^ 53 + tiny :=
  (h.close finite).trans (max_le_add_of_nonneg (by positivity) tiny_pos.le)

theorem Rounds.upper (least : 0 ≤ q) : toReal x ≤ (1 + 1 / 10 ^ 6) * q + tiny := by
  have bounds := abs_le.mp (h.error finite)
  rw [abs_of_nonneg least] at bounds
  linarith [bounds.1]

theorem Rounds.lower (least : 0 ≤ q) : q ≤ (1 + 1 / 10 ^ 6) * toReal x + 2 * tiny := by
  have bounds := abs_le.mp (h.error finite)
  rw [abs_of_nonneg least] at bounds
  linarith [bounds.2, tiny_pos]

end Error

/-- What is near in absolute value has a near square. -/
theorem sq_le_of_abs_le {a b t : ℝ} (nonneg : 0 ≤ t) (small : t ≤ 1 / 10 ^ 6)
    (near : |a| ≤ (1 + 1 / 10 ^ 6) * |b| + t) : a ^ 2 ≤ (1 + 1 / 10 ^ 5) * b ^ 2 + 2 * t := by
  obtain ⟨c, scaled⟩ : ∃ c, (1 + 1 / 10 ^ 6) * |b| = c := ⟨_, rfl⟩
  have scaled_sq : c ^ 2 = (1 + 1 / 10 ^ 6) ^ 2 * b ^ 2 := by rw [← scaled, mul_pow, sq_abs]
  rw [scaled] at near
  have square : a ^ 2 ≤ (c + t) ^ 2 := by
    rw [← sq_abs a]
    exact pow_le_pow_left₀ (abs_nonneg a) near 2
  have mixed : 2 * c * t ≤ (1 + c ^ 2) * t :=
    mul_le_mul_of_nonneg_right (by linarith [sq_nonneg (c - 1)]) nonneg
  have part : c ^ 2 * t ≤ c ^ 2 * (1 / 10 ^ 6) := mul_le_mul_of_nonneg_left small (sq_nonneg c)
  have rest : t * t ≤ 1 / 10 ^ 6 * t := mul_le_mul_of_nonneg_right small nonneg
  have positive := sq_nonneg b
  calc a ^ 2 ≤ c ^ 2 + 2 * c * t + t * t := by linarith
    _ ≤ (1 + 1 / 10 ^ 6) * c ^ 2 + 2 * t := by linarith
    _ ≤ (1 + 1 / 10 ^ 5) * b ^ 2 + 2 * t := by
      rw [scaled_sq]
      linarith

/-- A length is not much more than the exact one if the sum under its root is not. -/
theorem root_upper {S L l : ℝ} (nonneg : 0 ≤ S) (squares : S ≤ (1 + 1 / 10 ^ 4) * L ^ 2 + 10 * tiny)
    (exact : 0 ≤ L) (root : l ≤ (1 + 1 / 10 ^ 6) * √S + tiny) (least : 1 / 10 ^ 9 ≤ l) :
    l ≤ 101 / 100 * L := by
  have small := tiny_le
  have long : 9 / 10 ^ 10 ≤ √S := by linarith
  have square : (9 / 10 ^ 10) ^ 2 ≤ S := by
    rw [← Real.sq_sqrt nonneg]
    exact pow_le_pow_left₀ (by norm_num) long 2
  have within : √S ≤ 1001 / 1000 * L := by
    rw [Real.sqrt_le_left (by positivity), mul_pow]
    linarith
  linarith

/-- A sum of squares is not much more than the square of a length computed from a like sum. -/
theorem root_lower {S V l : ℝ} (nonneg : 0 ≤ S) (squares : V ≤ (1 + 1 / 10 ^ 4) * S + 40 * tiny)
    (root : √S ≤ (1 + 1 / 10 ^ 6) * l + 2 * tiny) (least : 1 / 10 ^ 9 ≤ l) :
    V ≤ (21 / 20 * l) ^ 2 := by
  have small := tiny_le
  have within : √S ≤ 1001 / 1000 * l := by linarith
  have square : S ≤ (1001 / 1000 * l) ^ 2 := by
    rw [← Real.sq_sqrt nonneg]
    exact pow_le_pow_left₀ (Real.sqrt_nonneg S) within 2
  have whole : (1 / 10 ^ 9) ^ 2 ≤ l ^ 2 := pow_le_pow_left₀ (by norm_num) least 2
  rw [mul_pow] at square ⊢
  linarith

/-- Two numbers that are apart as a rounded one is from the exact one. -/
theorem abs_le_of_error {a b : ℝ} (error : |b - a| ≤ |b| / 2 ^ 53 + tiny) :
    |a| ≤ (1 + 1 / 10 ^ 6) * |b| + tiny ∧ |b| ≤ (1 + 1 / 10 ^ 6) * |a| + 2 * tiny := by
  have forth := abs_sub_abs_le_abs_sub b a
  have back := abs_sub_abs_le_abs_sub a b
  rw [abs_sub_comm] at back
  have small := tiny_pos
  have nonneg := abs_nonneg b
  constructor <;> linarith

/-- A quarter of where the doubles end. -/
noncomputable def quarter : ℝ := ((2 : Nat) : ℝ) ^ 1022

theorem quarter_eq : quarter = 2 ^ 1022 := by
  rw [quarter, Nat.cast_ofNat]

/-- A number that is in range by a wide margin is rounded to a finite double. -/
theorem isFinite_of_small {q : ℝ} {x : Float} (h : Rounds q x) (small : |q| ≤ 3 * quarter) :
    x.isFinite = true := by
  have double : IsDouble (3 * 2 ^ 51) 971 := ⟨by decide, by decide, le_rfl, .inl (by decide)⟩
  obtain ⟨y, parts⟩ := exists_ofFloat double
  refine h.isFinite (isFinite_of_parts parts) (small.trans (le_of_eq ?_))
  rw [quarter_eq]
  have value : toReal y = 3 * 2 ^ 1022 := by
    rw [toReal_of_parts parts, if_neg Bool.false_ne_true, one_mul]
    rw [Nat.cast_mul, Nat.cast_pow, Nat.cast_ofNat, Nat.cast_ofNat, mul_assoc, ← zpow_natCast,
      ← zpow_natCast, ← zpow_add₀ two_ne_zero]
    rfl
  rw [value, abs_of_pos (by positivity)]

/-- The root of a number in range is far below the end of the range. -/
theorem sqrt_toReal_le {x : Float} (finite : x.isFinite = true) : √(toReal x) ≤ 2 ^ 512 := by
  have top : (overflow : ℝ) ≤ (2 ^ 512) ^ 2 := by
    have whole : (2 : ℝ) ^ 53 * 2 ^ (971 : Int) = (2 ^ 512) ^ 2 := by
      rw [← pow_mul, ← zpow_natCast, ← zpow_natCast, ← zpow_add₀ two_ne_zero]
      rfl
    rw [overflow_eq, ← whole]
    gcongr
    linarith
  rw [Real.sqrt_le_left (by positivity)]
  exact (le_abs_self _).trans ((abs_toReal_lt_overflow finite).le.trans top)

end Decimal

/-! ## Vectors -/

namespace Point

open Decimal

theorem abs_coordinates_le (chord : Point ℝ) :
    |chord.x| ≤ chord.normXY ∧ |chord.y| ≤ chord.normXY :=
  ⟨Real.abs_le_sqrt (le_add_of_nonneg_right (sq_nonneg _)),
    Real.abs_le_sqrt (le_add_of_nonneg_left (sq_nonneg _))⟩

/-- A shadow is no longer than its coordinates together. -/
theorem normXY_le (chord : Point ℝ) : chord.normXY ≤ |chord.x| + |chord.y| := by
  have whole := add_nonneg (abs_nonneg chord.x) (abs_nonneg chord.y)
  refine le_of_sq_le_sq ?_ whole
  rw [chord.normXY_sq, add_sq, sq_abs, sq_abs]
  linarith [mul_nonneg (abs_nonneg chord.x) (abs_nonneg chord.y)]

/-- The point of space that a point of doubles is. -/
noncomputable def real (p : Point Float) : Point ℝ := ⟨toReal p.x, toReal p.y, toReal p.z⟩

/-- A vector of doubles whose coordinates are rounded ones. -/
structure Nearly (v : Point Float) (exact : Point ℝ) : Prop where
  x : |exact.x - toReal v.x| ≤ |exact.x| / 2 ^ 53 + tiny
  y : |exact.y - toReal v.y| ≤ |exact.y| / 2 ^ 53 + tiny
  z : |exact.z - toReal v.z| ≤ |exact.z| / 2 ^ 53 + tiny

/-- A difference of points, coordinate by coordinate. -/
theorem nearly_sub {p q : Point Float} (left : p.isFinite = true) (right : q.isFinite = true)
    (measured : (p - q).Measured) : (p - q).Nearly (p.real - q.real) := by
  obtain ⟨px, py, pz⟩ := p.isFinite_iff_coordinates.mp left
  obtain ⟨qx, qy, qz⟩ := q.isFinite_iff_coordinates.mp right
  exact ⟨(rounds_sub px qx).error measured.x, (rounds_sub py qy).error measured.y,
    (rounds_sub pz qz).error measured.z⟩

section Lengths

variable {v : Point Float} {V : Point ℝ} (measured : v.Measured) (near : v.Nearly V)

/-- A square, before and after it is rounded. -/
theorem square_bounds {x : Float} (finite : (x * x).isFinite = true) :
    toReal (x * x) ≤ (1 + 1 / 10 ^ 6) * toReal x ^ 2 + tiny ∧
      toReal x ^ 2 ≤ (1 + 1 / 10 ^ 6) * toReal (x * x) + 2 * tiny := by
  have factors := isFinite_of_mul finite
  have rounded := rounds_mul factors.1 factors.2
  rw [sq]
  exact ⟨rounded.upper finite (mul_self_nonneg _), rounded.lower finite (mul_self_nonneg _)⟩

/-- A sum of squares, before and after it is rounded. -/
theorem sum_bounds {a b : Float} (finite : (a + b).isFinite = true) (left : 0 ≤ toReal a)
    (right : 0 ≤ toReal b) :
    toReal (a + b) ≤ (1 + 1 / 10 ^ 6) * (toReal a + toReal b) + tiny ∧
      toReal a + toReal b ≤ (1 + 1 / 10 ^ 6) * toReal (a + b) + 2 * tiny := by
  have terms := isFinite_of_add finite
  have rounded := rounds_add terms.1 terms.2
  have least := add_nonneg left right
  exact ⟨rounded.upper finite least, rounded.lower finite least⟩

include measured near

/-- **A shadow is not computed much longer than it is.** -/
theorem shadow_upper (least : 1 / 10 ^ 9 ≤ toReal v.shadow.norm) :
    toReal v.shadow.norm ≤ 101 / 100 * V.normXY := by
  have squares := isFinite_of_add measured.level
  have a := (square_bounds squares.1).1
  have b := (square_bounds squares.2).1
  have sum := (sum_bounds measured.level (toReal_square_nonneg squares.1)
    (toReal_square_nonneg squares.2)).1
  have tiny_nonneg := tiny_pos.le
  have small : tiny ≤ 1 / 10 ^ 6 := tiny_le.trans (by norm_num)
  have x := sq_le_of_abs_le tiny_nonneg small (abs_le_of_error near.x).1
  have y := sq_le_of_abs_le tiny_nonneg small (abs_le_of_error near.y).1
  have root := measured.rounds_shadow.2.upper measured.rounds_shadow.1 (Real.sqrt_nonneg _)
  refine root_upper measured.level_nonneg ?_ (Real.sqrt_nonneg _) root least
  have shadow := V.normXY_sq
  change V.normXY ^ 2 = _ at shadow
  rw [shadow]
  linarith [sq_nonneg V.x, sq_nonneg V.y]

/-- **A vector is not much longer than it is computed.** -/
theorem norm_lower (least : 1 / 10 ^ 9 ≤ toReal v.norm) : V.norm ≤ 21 / 20 * toReal v.norm := by
  have terms := isFinite_of_add (x := v.x * v.x + v.y * v.y) measured.whole
  have squares := isFinite_of_add measured.level
  have a := (square_bounds squares.1).2
  have b := (square_bounds squares.2).2
  have c := (square_bounds terms.2).2
  have level := (sum_bounds measured.level (toReal_square_nonneg squares.1)
    (toReal_square_nonneg squares.2)).2
  have whole : toReal (v.x * v.x + v.y * v.y) + toReal (v.z * v.z) ≤
      (1 + 1 / 10 ^ 6) * toReal (v.dot v) + 2 * tiny :=
    (sum_bounds (a := v.x * v.x + v.y * v.y) (b := v.z * v.z) measured.whole
      measured.level_nonneg (toReal_square_nonneg terms.2)).2
  have double : 0 ≤ 2 * tiny := by linarith [tiny_pos]
  have small : 2 * tiny ≤ 1 / 10 ^ 6 := by linarith [tiny_le]
  have x := sq_le_of_abs_le double small (abs_le_of_error near.x).2
  have y := sq_le_of_abs_le double small (abs_le_of_error near.y).2
  have z := sq_le_of_abs_le double small (abs_le_of_error near.z).2
  have finite := isFinite_sqrt measured.whole measured.whole_nonneg
  have root := (rounds_sqrt measured.whole measured.whole_nonneg).lower finite (Real.sqrt_nonneg _)
  have square : V.norm ^ 2 ≤ (21 / 20 * toReal v.norm) ^ 2 := by
    refine root_lower measured.whole_nonneg ?_ root least
    rw [V.norm_sq]
    linarith [sq_nonneg V.x, sq_nonneg V.y, sq_nonneg V.z, measured.whole_nonneg]
  exact le_of_sq_le_sq square (by linarith)

omit near in
/-- No coordinate in the plane is much more than the shadow's length. -/
theorem coordinates_le (least : 1 / 10 ^ 9 ≤ toReal v.shadow.norm) :
    |toReal v.x| ≤ 21 / 20 * toReal v.shadow.norm ∧
      |toReal v.y| ≤ 21 / 20 * toReal v.shadow.norm := by
  have squares := isFinite_of_add measured.level
  have a := (square_bounds squares.1).2
  have b := (square_bounds squares.2).2
  have a_nonneg := toReal_square_nonneg squares.1
  have b_nonneg := toReal_square_nonneg squares.2
  have level := (sum_bounds measured.level a_nonneg b_nonneg).2
  have root := measured.rounds_shadow.2.lower measured.rounds_shadow.1 (Real.sqrt_nonneg _)
  have bounds {X : ℝ} (part : X ^ 2 ≤ (1 + 1 / 10 ^ 4) *
      toReal (v.x * v.x + v.y * v.y) + 40 * tiny) : |X| ≤ 21 / 20 * toReal v.shadow.norm := by
    have square := root_lower measured.level_nonneg part root least
    exact abs_le_of_sq_le_sq square (by linarith)
  have tiny_nonneg := tiny_pos.le
  have level_nonneg := measured.level_nonneg
  exact ⟨bounds (by linarith), bounds (by linarith)⟩

end Lengths

end Point

end Toolpath
