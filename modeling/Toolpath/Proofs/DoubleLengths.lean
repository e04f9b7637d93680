import Toolpath.Proofs.DoubleArithmetic
import Toolpath.Proofs.ReachLimit

/-!
# Lengths of double vectors

The length of a vector of doubles is computed from sums of rounded squares. If it is finite, so is
everything on the way there (`Point.measured_of_isFinite_norm`), and a vector is no shorter than its
shadow on the XY plane (`Point.Measured.shadow_le`). If the coordinates are defined, so is the
length, which then may be infinite (`Point.norm_defined`).
-/

namespace Toolpath

open Scalar

/-! ## Comparisons -/

namespace Decimal

/-- Where two numbers are compared that are defined, one is less or the other is not more. -/
theorem lt_eq_not_le {x y : Float} (left : x.isNaN = false) (right : y.isNaN = false) :
    Scalar.lt x y = !Scalar.le y x := by
  have notLess := not_lt_iff left (y := y)
  rw [right, or_iff_left Bool.false_ne_true] at notLess
  show decide (x < y) = !decide (y ≤ x)
  by_cases less : x < y
  · have notMost : ¬y ≤ x := fun most => notLess.mpr most less
    rw [decide_eq_true less, decide_eq_false notMost]
    rfl
  · rw [decide_eq_false less, decide_eq_true (notLess.mp less)]
    rfl

/-- A comparison of finite doubles, from the numbers that they are. -/
theorem le_of_toReal {x y : Float} (left : x.isFinite = true) (right : y.isFinite = true)
    (le : toReal x ≤ toReal y) : Scalar.le x y = true := decide_eq_true ((le_iff left right).mpr le)

/-- What equals zero is worth nothing. -/
theorem toReal_eq_zero_of_eq {x : Float} (zero : Scalar.eq x 0.0 = true) : toReal x = 0 := by
  change x.toModel.unpack.beq (.zero .positive) = true at zero
  unfold toReal
  generalize x.toModel.unpack = u at zero
  cases u with
  | notANumber | infinity | zero => rfl
  | finite s => cases s <;> cases zero

end Decimal

/-! ## Lengths -/

/-- A vector's shadow on the XY plane. -/
def Point.shadow {α : Type} [Scalar α] (v : Point α) : Point α := ⟨v.x, v.y, 0.0⟩

namespace Point

open Decimal

theorem toReal_square_nonneg {x : Float} (finite : (x * x).isFinite = true) :
    0 ≤ toReal (x * x) := by
  have factors := isFinite_of_mul finite
  exact (rounds_mul factors.1 factors.2).le_toReal finite (y := 0.0) rfl (mul_self_nonneg _)

/-- A vector of finite length is finite, with the sums that its length is computed from. -/
structure Measured (v : Point Float) : Prop where
  x : v.x.isFinite = true
  y : v.y.isFinite = true
  z : v.z.isFinite = true
  level : (v.x * v.x + v.y * v.y).isFinite = true
  whole : (v.dot v).isFinite = true

theorem isFinite_iff_coordinates (p : Point Float) : p.isFinite = true ↔
    p.x.isFinite = true ∧ p.y.isFinite = true ∧ p.z.isFinite = true := by
  show (p.x.isFinite && p.y.isFinite && p.z.isFinite) = true ↔ _
  rw [Bool.and_eq_true_iff, Bool.and_eq_true_iff, and_assoc]

theorem norm_defined {p : Point Float} (x : p.x.isNaN = false) (y : p.y.isNaN = false)
    (z : p.z.isNaN = false) : p.norm.isNaN = false := by
  refine Bool.eq_false_of_not_eq_true fun undefined => ?_
  obtain ⟨c, present, nowhere⟩ := p.isNaN_norm_iff.mp undefined
  have coordinate : c = p.x ∨ c = p.y ∨ c = p.z := by simpa [Point.toList] using present
  rcases coordinate with rfl | rfl | rfl
  · exact absurd (x.symm.trans nowhere) Bool.false_ne_true
  · exact absurd (y.symm.trans nowhere) Bool.false_ne_true
  · exact absurd (z.symm.trans nowhere) Bool.false_ne_true

theorem sign?_norm_ne (p : Point Float) : sign? p.norm ≠ some .negative := by
  have squares (x : Float) : sign? (x * x) ≠ some .negative := sign?_mul_self_ne x
  have sum := sign?_add_ne (sign?_add_ne (squares p.x) (squares p.y)) (squares p.z)
  have root : sign? p.norm = sign? (p.x * p.x + p.y * p.y + p.z * p.z) := sign?_sqrt sum
  rwa [root]

variable {v : Point Float}

theorem measured_of_isFinite_norm (finite : v.norm.isFinite = true) : v.Measured := by
  have whole : (v.dot v).isFinite = true := isFinite_of_sqrt finite
  have terms := isFinite_of_add whole
  have level := isFinite_of_add terms.1
  exact ⟨(isFinite_of_mul level.1).1, (isFinite_of_mul level.2).1, (isFinite_of_mul terms.2).1,
    terms.1, whole⟩

theorem dot_shadow (v : Point Float) :
    v.shadow.dot v.shadow = v.x * v.x + v.y * v.y + 0.0 := by
  have none : (0.0 * 0.0 : Float) = 0.0 := rfl
  rw [← none]
  rfl

namespace Measured

variable (h : v.Measured)

include h

theorem level_nonneg : 0 ≤ toReal (v.x * v.x + v.y * v.y) := by
  have squares := isFinite_of_add h.level
  exact (rounds_add squares.1 squares.2).le_toReal h.level (y := 0.0) rfl
    (add_nonneg (toReal_square_nonneg squares.1) (toReal_square_nonneg squares.2))

/-- The squares of a vector add up to no less than those of its shadow. -/
theorem level_le_whole : toReal (v.x * v.x + v.y * v.y) ≤ toReal (v.dot v) := by
  have terms := isFinite_of_add (x := v.x * v.x + v.y * v.y) h.whole
  exact (rounds_add terms.1 terms.2).le_toReal h.whole h.level
    (le_add_of_nonneg_right (toReal_square_nonneg terms.2))

theorem whole_nonneg : 0 ≤ toReal (v.dot v) := h.level_nonneg.trans h.level_le_whole

theorem shadow_squares : (v.shadow.dot v.shadow).isFinite = true ∧
    toReal (v.shadow.dot v.shadow) = toReal (v.x * v.x + v.y * v.y) := by
  rw [dot_shadow]
  exact toReal_add_zero h.level

/-- The shadow's length is the root of the sum over two squares. -/
theorem rounds_shadow :
    v.shadow.norm.isFinite = true ∧ Rounds √(toReal (v.x * v.x + v.y * v.y)) v.shadow.norm := by
  obtain ⟨finite, same⟩ := h.shadow_squares
  have least := h.level_nonneg
  rw [← same] at least ⊢
  exact ⟨isFinite_sqrt finite least, rounds_sqrt finite least⟩

/-- **A vector is no shorter than its shadow**, also as computed. -/
theorem shadow_le : v.norm.isFinite = true ∧ toReal v.shadow.norm ≤ toReal v.norm := by
  obtain ⟨finite, shadow⟩ := h.rounds_shadow
  have long := isFinite_sqrt h.whole h.whole_nonneg
  exact ⟨long, shadow.mono (rounds_sqrt h.whole h.whole_nonneg) finite long
    (Real.sqrt_le_sqrt h.level_le_whole)⟩

end Measured

end Point

end Toolpath
