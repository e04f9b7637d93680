import Toolpath.Proofs.ArcRequests
import Toolpath.Proofs.RoundingErrors

/-!
# Radii that are refused

A radius is refused where it is less than half the chord, and the chord is a length of doubles: its
squares are rounded, and they may leave the range. So a radius can be refused that does reach over
half the chord. This module says by how much at most, and when.

Errors are counted in roundings (`RoundedUp`), each of which adds its 2 to the 53rd part. A length
takes five of them where it is finite (`Point.norm_upper`), and it is finite where the exact one is
short of 2 to the 512th by a few roundings (`Point.measured_of_short`), since everything on the way
to it is then in range.

The law (`invalidArcRadius_short`): a radius that is refused is less than half the exact chord, up to
its 2 to the 50th part, or the chord is so long that its square is out of range, and half of it is
reported as an infinity. Neither exception is empty: `invalidArcRadius_short_rounded` is a radius
that just reaches and is refused, and for `invalidArcRadius_of_long` the radius is the whole chord.
-/

namespace Toolpath

namespace Decimal

/-! ## Counting roundings -/

/-- A number that is above another by so many roundings at most, with so many halves of the least
double added before. -/
def RoundedUp (roundings halves : ℕ) (a b : ℝ) : Prop :=
  a ≤ (1 + 1 / ((2 : Nat) : ℝ) ^ 53) ^ roundings * (b + halves * tiny)

theorem roundedUp_iff {n k : ℕ} {a b : ℝ} :
    RoundedUp n k a b ↔ a ≤ (1 + 1 / 2 ^ 53) ^ n * (b + k * tiny) := by
  rw [RoundedUp, Nat.cast_ofNat]

theorem one_le_roundings (n : ℕ) : (1 : ℝ) ≤ (1 + 1 / 2 ^ 53) ^ n :=
  one_le_pow₀ (by norm_num)

namespace RoundedUp

variable {n k : ℕ} {a b : ℝ} (up : RoundedUp n k a b)

include up

theorem mono {m l : ℕ} (nonneg : 0 ≤ b) (roundings : n ≤ m) (halves : k ≤ l) :
    RoundedUp m l a b := by
  have positive := tiny_pos
  rw [roundedUp_iff] at up ⊢
  refine up.trans ?_
  gcongr
  norm_num

theorem add {l : ℕ} {c d : ℝ} (other : RoundedUp n l c d) : RoundedUp n (k + l) (a + c) (b + d) := by
  rw [roundedUp_iff] at up other ⊢
  push_cast
  linear_combination up + other

/-- To round once more is one rounding more. -/
theorem rounds {x : Float} (h : Rounds a x) (finite : x.isFinite = true) (least : 0 ≤ a) :
    RoundedUp (n + 1) (k + 1) (toReal x) b := by
  have error := (abs_le.mp (h.error finite)).1
  rw [abs_of_nonneg least] at error
  have more : tiny ≤ (1 + 1 / 2 ^ 53) ^ (n + 1) * tiny :=
    le_mul_of_one_le_left tiny_pos.le (one_le_roundings (n + 1))
  rw [roundedUp_iff] at up ⊢
  have scaled := mul_le_mul_of_nonneg_left up (by norm_num : (0 : ℝ) ≤ 1 + 1 / 2 ^ 53)
  push_cast
  calc toReal x ≤ (1 + 1 / 2 ^ 53) * a + tiny := by linarith
    _ ≤ (1 + 1 / 2 ^ 53) * ((1 + 1 / 2 ^ 53) ^ n * (b + k * tiny)) +
        (1 + 1 / 2 ^ 53) ^ (n + 1) * tiny := add_le_add scaled more
    _ = (1 + 1 / 2 ^ 53) ^ (n + 1) * (b + (k + 1) * tiny) := by ring

/-- What is in range before its roundings, by a few of them, is in range after. -/
theorem isFinite {x : Float} (h : Rounds a x) (least : 0 ≤ a) (nonneg : 0 ≤ b) (roundings : n ≤ 5)
    (halves : k ≤ 7) (short : b ≤ ((1 - 1 / 2 ^ 50) * 2 ^ 512) ^ 2) : x.isFinite = true := by
  refine h.isFinite_of_lt ?_
  have few := roundedUp_iff.mp (up.mono nonneg roundings halves)
  have top : (overflow : ℝ) = (1 - 1 / 2 ^ 54) * (2 ^ 512) ^ 2 := by
    have whole : (2 : ℝ) ^ 53 * 2 ^ (971 : Int) = (2 ^ 512) ^ 2 := by
      rw [← pow_mul, ← zpow_natCast, ← zpow_natCast, ← zpow_add₀ two_ne_zero]
      rfl
    rw [overflow_eq, ← whole]
    ring
  have small := tiny_le
  have some : (1 : ℝ) ≤ (2 ^ 512) ^ 2 := one_le_pow₀ (one_le_pow₀ one_le_two)
  rw [abs_of_nonneg least, top]
  rw [mul_pow] at short
  generalize ((2 : ℝ) ^ 512) ^ 2 = scale at *
  push_cast at few
  have inflated : (1 + 1 / 2 ^ 53) ^ 5 * (b + 7 * tiny) ≤
      (1 + 1 / 2 ^ 53) ^ 5 * (((1 - 1 / 2 ^ 50) ^ 2 + 7 / 10 ^ 60) * scale) := by
    gcongr
    linarith
  refine (few.trans inflated).trans_lt ?_
  rw [← mul_assoc]
  exact mul_lt_mul_of_pos_right (by norm_num) (by linarith)

end RoundedUp

/-- The square of a rounded number. -/
theorem roundedUp_square {x X : ℝ} (near : |X - x| ≤ |X| / 2 ^ 53 + tiny) :
    RoundedUp 3 1 (x * x) (X ^ 2) := by
  have positive := tiny_pos
  have small : tiny ≤ 1 / 2 ^ 53 := tiny_le.trans (by norm_num)
  have forth := abs_sub_abs_le_abs_sub x X
  rw [abs_sub_comm] at forth
  have short : |x| ≤ (1 + 1 / 2 ^ 53) * (|X| + tiny) := by linarith
  have square : x * x ≤ ((1 + 1 / 2 ^ 53) * (|X| + tiny)) ^ 2 := by
    rw [← sq, ← sq_abs x]
    exact pow_le_pow_left₀ (abs_nonneg x) short 2
  have mixed : 2 * |X| * tiny ≤ (X ^ 2 + 1) * tiny := by
    rw [← sq_abs X]
    exact mul_le_mul_of_nonneg_right (by linarith [sq_nonneg (|X| - 1)]) positive.le
  have part : X ^ 2 * tiny ≤ X ^ 2 * (1 / 2 ^ 53) := mul_le_mul_of_nonneg_left small (sq_nonneg X)
  have rest : tiny * tiny ≤ 1 / 2 ^ 53 * tiny := mul_le_mul_of_nonneg_right small positive.le
  have inner : (|X| + tiny) ^ 2 ≤ (1 + 1 / 2 ^ 53) * (X ^ 2 + tiny) := by
    rw [add_sq, sq_abs]
    linarith
  rw [roundedUp_iff]
  push_cast
  calc x * x ≤ (1 + 1 / 2 ^ 53) ^ 2 * (|X| + tiny) ^ 2 := by rwa [← mul_pow]
    _ ≤ (1 + 1 / 2 ^ 53) ^ 2 * ((1 + 1 / 2 ^ 53) * (X ^ 2 + tiny)) := by gcongr
    _ = (1 + 1 / 2 ^ 53) ^ 3 * (X ^ 2 + 1 * tiny) := by ring

/-- A root of rounded squares, rounded once more. -/
theorem root_up {W N l : ℝ} (nonneg : 0 ≤ N) (squares : RoundedUp 6 8 W (N ^ 2))
    (root : RoundedUp 1 1 l √W) (least : 1 / 10 ^ 9 ≤ l) : l ≤ (1 + 1 / 2 ^ 50) * N := by
  have small := tiny_le
  rw [roundedUp_iff] at squares root
  push_cast at squares root
  have root_ge : 9 / 10 ^ 10 ≤ √W := by linarith
  have whole : (9 / 10 ^ 10) ^ 2 ≤ W := by
    rw [← Real.sq_sqrt (Real.sqrt_pos.mp (root_ge.trans_lt' (by norm_num))).le]
    exact pow_le_pow_left₀ (by norm_num) root_ge 2
  have long : 8 / 10 ^ 10 ≤ N := le_of_sq_le_sq (by linarith) nonneg
  -- against a length that is long enough the halves of the least double are less than a rounding
  have square : W ≤ ((1 + 1 / 2 ^ 53) ^ 4 * N) ^ 2 := by
    have squared := pow_le_pow_left₀ (by norm_num) long 2
    rw [mul_pow]
    linarith
  have exact : √W ≤ (1 + 1 / 2 ^ 53) ^ 4 * N := (Real.sqrt_le_left (by positivity)).mpr square
  linarith

end Decimal

/-! ## Lengths -/

namespace Point

open Decimal

theorem square_up {x : Float} {X : ℝ} (near : |X - toReal x| ≤ |X| / 2 ^ 53 + tiny)
    (finite : (x * x).isFinite = true) : RoundedUp 4 2 (toReal (x * x)) (X ^ 2) := by
  have factors := isFinite_of_mul finite
  exact (roundedUp_square near).rounds (rounds_mul factors.1 factors.2) finite (mul_self_nonneg _)

theorem abs_le_norm (V : Point ℝ) : |V.x| ≤ V.norm ∧ |V.y| ≤ V.norm ∧ |V.z| ≤ V.norm := by
  have x := sq_nonneg V.x
  have y := sq_nonneg V.y
  have z := sq_nonneg V.z
  rw [V.norm_real]
  exact ⟨Real.abs_le_sqrt (by linarith), Real.abs_le_sqrt (by linarith),
    Real.abs_le_sqrt (by linarith)⟩

section Lengths

variable {v : Point Float} {V : Point ℝ} (near : v.Nearly V)

include near

theorem level_up (finite : (v.x * v.x + v.y * v.y).isFinite = true) :
    RoundedUp 5 5 (toReal (v.x * v.x + v.y * v.y)) (V.x ^ 2 + V.y ^ 2) := by
  have squares := isFinite_of_add finite
  exact ((square_up near.x squares.1).add (square_up near.y squares.2)).rounds
    (rounds_add squares.1 squares.2) finite
    (add_nonneg (toReal_square_nonneg squares.1) (toReal_square_nonneg squares.2))

/-- The sum of the squares before its last rounding. -/
theorem terms_up (level : (v.x * v.x + v.y * v.y).isFinite = true)
    (square : (v.z * v.z).isFinite = true) :
    RoundedUp 5 7 (toReal (v.x * v.x + v.y * v.y) + toReal (v.z * v.z)) (V.norm ^ 2) := by
  rw [V.norm_sq]
  exact (level_up near level).add
    ((square_up near.z square).mono (sq_nonneg V.z) (by norm_num) le_rfl)

/-- **A length is not computed much longer than it is.** -/
theorem norm_upper (measured : v.Measured) (least : 1 / 10 ^ 9 ≤ toReal v.norm) :
    toReal v.norm ≤ (1 + 1 / 2 ^ 50) * V.norm := by
  have terms := isFinite_of_add (x := v.x * v.x + v.y * v.y) measured.whole
  have whole : RoundedUp 6 8 (toReal (v.dot v)) (V.norm ^ 2) :=
    (terms_up near terms.1 terms.2).rounds (rounds_add terms.1 terms.2) measured.whole
      (add_nonneg measured.level_nonneg (toReal_square_nonneg terms.2))
  have exact : RoundedUp 0 0 √(toReal (v.dot v)) √(toReal (v.dot v)) := by
    simp [roundedUp_iff]
  have root : RoundedUp 1 1 (toReal v.norm) √(toReal (v.dot v)) :=
    exact.rounds (rounds_sqrt measured.whole measured.whole_nonneg)
      (isFinite_sqrt measured.whole measured.whole_nonneg) (Real.sqrt_nonneg _)
  exact root_up (Real.sqrt_nonneg _) whole root least

/-- **A length is finite where the exact one is in range** by a few roundings. -/
theorem measured_of_short (x : v.x.isFinite = true) (y : v.y.isFinite = true)
    (z : v.z.isFinite = true) (short : V.norm ≤ (1 - 1 / 2 ^ 50) * 2 ^ 512) : v.Measured := by
  have bound : V.norm ^ 2 ≤ ((1 - 1 / 2 ^ 50) * 2 ^ 512) ^ 2 :=
    pow_le_pow_left₀ (Real.sqrt_nonneg _) short 2
  have squares := V.norm_sq
  have hx := sq_nonneg V.x
  have hy := sq_nonneg V.y
  have hz := sq_nonneg V.z
  have square {c : Float} {C : ℝ} (near : |C - toReal c| ≤ |C| / 2 ^ 53 + tiny)
      (finite : c.isFinite = true) (part : C ^ 2 ≤ V.norm ^ 2) : (c * c).isFinite = true :=
    (roundedUp_square near).isFinite (rounds_mul finite finite) (mul_self_nonneg _) (sq_nonneg C)
      (by norm_num) (by norm_num) (part.trans bound)
  have xx := square near.x x (by linarith)
  have yy := square near.y y (by linarith)
  have zz := square near.z z (by linarith)
  have shadow : V.x ^ 2 + V.y ^ 2 ≤ V.norm ^ 2 := by linarith
  have level : (v.x * v.x + v.y * v.y).isFinite = true :=
    ((square_up near.x xx).add (square_up near.y yy)).isFinite (rounds_add xx yy)
      (add_nonneg (toReal_square_nonneg xx) (toReal_square_nonneg yy)) (by positivity)
      (by norm_num) (by norm_num) (shadow.trans bound)
  have level_nonneg : 0 ≤ toReal (v.x * v.x + v.y * v.y) :=
    (rounds_add xx yy).le_toReal level (y := 0.0) rfl
      (add_nonneg (toReal_square_nonneg xx) (toReal_square_nonneg yy))
  have whole : (v.dot v).isFinite = true :=
    (terms_up near level zz).isFinite (rounds_add level zz)
      (add_nonneg level_nonneg (toReal_square_nonneg zz)) (sq_nonneg _) le_rfl le_rfl bound
  exact ⟨x, y, z, level, whole⟩

end Lengths

/-- A difference of finite points whose distance is in range. -/
theorem measured_sub {p q : Point Float} (left : p.isFinite = true) (right : q.isFinite = true)
    (short : (p.real - q.real).norm ≤ (1 - 1 / 2 ^ 50) * 2 ^ 512) : (p - q).Measured := by
  obtain ⟨px, py, pz⟩ := p.isFinite_iff_coordinates.mp left
  obtain ⟨qx, qy, qz⟩ := q.isFinite_iff_coordinates.mp right
  have range : (p.real - q.real).norm ≤ 3 * quarter := by
    have low : (2 : ℝ) ^ 512 ≤ 2 ^ 1022 := pow_le_pow_right₀ one_le_two (by norm_num)
    have some : (0 : ℝ) < 2 ^ 512 := by positivity
    rw [quarter_eq]
    generalize (2 : ℝ) ^ 1022 = top at *
    generalize (2 : ℝ) ^ 512 = scale at *
    linarith
  obtain ⟨x, y, z⟩ := (p.real - q.real).abs_le_norm
  have finiteX := isFinite_of_small (rounds_sub px qx) (x.trans range)
  have finiteY := isFinite_of_small (rounds_sub py qy) (y.trans range)
  have finiteZ := isFinite_of_small (rounds_sub pz qz) (z.trans range)
  exact measured_of_short ⟨(rounds_sub px qx).error finiteX, (rounds_sub py qy).error finiteY,
    (rounds_sub pz qz).error finiteZ⟩ finiteX finiteY finiteZ short

end Point

/-! ## Refusals -/

namespace Arc

open Scalar Decimal

variable {start target : Point Float} {radius : Float} {sense : RotationSense}

/-- What is refused for its radius is judged so before any point is computed. -/
theorem refused_of_via {r half : Float}
    (refused : via start target radius sense = .error (.invalidArcRadius r half)) :
    Refused start target radius (.invalidArcRadius r half) := by
  have judgeable := judgeable_float start target radius
  rcases judgeable.total with accepted | ⟨e, reason⟩
  · obtain ⟨p, _, found, _⟩ := judgeable.points_of_accepted accepted sense
    rw [found] at refused
    unfold finite at refused
    split at refused <;> cases refused
  · rw [((judgeable.refused_iff sense e).mpr reason).1] at refused
    cases refused
    exact reason

/-- **A radius that is refused is too short, but for rounding, or its chord is out of range.** -/
theorem invalidArcRadius_short {r half : Float} (finite : radius.isFinite = true)
    (refused : via start target radius sense = .error (.invalidArcRadius r half)) :
    r = radius ∧
    (half.isFinite = true ∧
        |toReal radius| < (1 + 1 / 2 ^ 50) * (target.real.distance start.real / 2) ∨
      half.isFinite = false ∧ (1 - 1 / 2 ^ 50) * 2 ^ 512 < target.real.distance start.real) := by
  have reason := refused_of_via refused
  cases reason with
  | radius ends shadowed unreached =>
  refine ⟨rfl, ?_⟩
  have short : radius.abs < (target - start).norm / 2.0 := by
    rcases unreached with infinite | less
    · exact nomatch finite.symm.trans infinite
    · exact of_decide_eq_true less
  have reach : radius.abs.isFinite = true := (isFinite_abs radius).trans finite
  by_cases whole : ((target - start).norm / 2.0).isFinite = true
  · refine .inl ⟨whole, ?_⟩
    have length := isFinite_of_div whole
    have measured := Point.measured_of_isFinite_norm length
    have shadow := (le_iff rfl measured.rounds_shadow.1).mp (of_decide_eq_true shadowed)
    have upper := Point.norm_upper (Point.nearly_sub ends.2 ends.1 measured) measured
      (degenerateChord_ge.trans (shadow.trans measured.shadow_le.2))
    -- the radius is a double, so that it is less than half the length also before that is rounded
    have less : toReal radius.abs < toReal (target - start).norm / 2 := by
      by_contra reached
      have rounded := (rounds_half length).toReal_le whole reach (not_lt.mp reached)
      exact rounded.not_gt ((lt_iff reach whole).mp short)
    have distance : target.real.distance start.real = (target.real - start.real).norm := rfl
    rw [toReal_abs] at less
    rw [distance]
    linarith
  · refine .inr ⟨Bool.eq_false_of_not_eq_true whole, ?_⟩
    by_contra inRange
    have length := (Point.measured_sub ends.2 ends.1 (not_lt.mp inRange)).shadow_le.1
    refine whole ((rounds_half length).isFinite length ?_)
    rw [abs_div, abs_two]
    exact half_le_self (abs_nonneg _)

/-- A radius that reaches over half the exact chord, and not over half the rounded one. -/
theorem invalidArcRadius_short_rounded :
    let start : Point Float := ⟨0.0, 0.0, 0.0⟩
    let target : Point Float := ⟨4.1, 5.8, 0.0⟩
    let radius : Float := 3.5514081714159524
    via start target radius .clockwise = .error (.invalidArcRadius radius 3.551408171415953) ∧
      target.real.distance start.real / 2 < |toReal radius| ∧
      |toReal radius| < (1 + 1 / 2 ^ 50) * (target.real.distance start.real / 2) := by
  intro start target radius
  have refused : via start target radius .clockwise =
      .error (.invalidArcRadius radius 3.551408171415953) := by decide +kernel
  have x : toReal 4.1 = 4616189618054758 * 2 ^ (-50 : Int) := by
    have parts : Binary.ofFloat 4.1 = .finite false 4616189618054758 (-50) := rfl
    simp [toReal_of_parts parts]
  have y : toReal 5.8 = 6530219459687219 * 2 ^ (-50 : Int) := by
    have parts : Binary.ofFloat 5.8 = .finite false 6530219459687219 (-50) := rfl
    simp [toReal_of_parts parts]
  have r : toReal 3.5514081714159524 = 7997060258714709 * 2 ^ (-51 : Int) := by
    have parts : Binary.ofFloat 3.5514081714159524 = .finite false 7997060258714709 (-51) := rfl
    simp [toReal_of_parts parts]
  have reached : target.real.distance start.real / 2 < |toReal radius| := by
    rw [Point.distance_real, r, abs_of_pos (by positivity), div_lt_iff₀ two_pos,
      Real.sqrt_lt' (by positivity)]
    simp only [target, start, Point.real, x, y, toReal_zero]
    norm_num
  have finite : radius.isFinite = true := by decide +kernel
  obtain ⟨-, ⟨-, short⟩ | ⟨infinite, -⟩⟩ := invalidArcRadius_short finite refused
  · exact ⟨refused, reached, short⟩
  · cases infinite

/-- A chord whose square is out of range is refused for a radius as long as itself, and half of it
is reported to be infinite. -/
theorem invalidArcRadius_of_long :
    let start : Point Float := ⟨0.0, 0.0, 0.0⟩
    let target : Point Float := ⟨1e200, 0.0, 0.0⟩
    via start target 1e200 .clockwise = .error (.invalidArcRadius 1e200 (1.0 / 0.0)) ∧
      (1.0 / 0.0 : Float).isFinite = false ∧
      target.real.distance start.real / 2 < |toReal 1e200| := by
  intro start target
  refine ⟨by decide +kernel, rfl, ?_⟩
  have positive : 0 < toReal 1e200 := by
    have parts : Binary.ofFloat 1e200 = .finite false 5883593420661338 612 := by decide +kernel
    rw [toReal_of_parts parts, if_neg Bool.false_ne_true]
    positivity
  have distance : target.real.distance start.real = toReal 1e200 := by
    rw [Point.distance_real]
    simp [target, start, Point.real, toReal_zero, Real.sqrt_sq positive.le]
  rw [distance, abs_of_pos positive]
  exact half_lt_self positive

end Arc

end Toolpath
