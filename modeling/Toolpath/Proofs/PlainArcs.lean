import Toolpath.Proofs.PlannedArc

/-!
# The plain formula for an arc

How far an arc reaches beyond its chord is a difference, `r - √(r² - c²)`, and for the longer arc the
sum of the same two. The program computes neither as it stands: the root is taken in factors and the
difference is a quotient, so that a large radius neither overflows nor cancels. This module states
the plain formula (`plainVia`) and says that in exact arithmetic the two are one.

The law (`via_eq_plain`): for every request the halfway point is the one of the plain formula, or is
refused for the same reason. The frame of an accepted request has the plain apothem and sagitta. The
sagitta of the shorter arc is half the chord for a half circle, and falls strictly from there as the
radius grows. The fall is what the quotient shows: its divisor grows with the radius.
-/

namespace Toolpath.Arc

open Scalar

/-! ## The formula -/

/-- How far an arc of a radius reaches beyond the middle of a chord, given half the chord. -/
noncomputable def plainSagitta (c radius : ℝ) : ℝ :=
  if 0 < radius then radius - √(radius ^ 2 - c ^ 2) else |radius| + √(radius ^ 2 - c ^ 2)

/-- The unit across the shadow of a chord, to the side of a sense. -/
noncomputable def plainNormal (chord : Point ℝ) (sense : RotationSense) : Point ℝ :=
  (⟨-(side sense * chord.y), side sense * chord.x, 0⟩ : Point ℝ) / √(chord.x ^ 2 + chord.y ^ 2)

/-- The halfway point by the plain formula: the middle of the chord, moved along the unit by the
sagitta. A chord has to have a shadow, and half of it may not be more than the radius. -/
noncomputable def plainVia (start target : Point ℝ) (radius : ℝ) (sense : RotationSense) :
    Except (GeometryError ℝ) (Point ℝ) :=
  let chord := target - start
  let c := √(chord.x ^ 2 + chord.y ^ 2 + chord.z ^ 2) / 2.0
  if √(chord.x ^ 2 + chord.y ^ 2) < Tolerance.degenerateChord then
    .error (.degenerate (.flatChord start target))
  else if |radius| < c then .error (.invalidArcRadius radius c)
  else .ok ((start + target) / (2.0 : ℝ) + plainNormal chord sense * plainSagitta c radius)

/-- What the plain formula says of the frame of an accepted request, and of the root and the
quotient in its place. -/
structure Frame.Plain (f : Frame ℝ) (start target : Point ℝ) (radius : ℝ) : Prop where
  halfChord : f.halfChord = target.distance start / 2
  factored : f.apothem =
    |radius| * √((1 - f.halfChord / |radius|) * (1 + f.halfChord / |radius|))
  apothem : f.apothem = √(radius ^ 2 - f.halfChord ^ 2)
  signed : radius ≠ 0
  shorter (positive : 0 < radius) :
    f.sagitta radius = radius - √(radius ^ 2 - f.halfChord ^ 2)
  longer (negative : radius < 0) :
    f.sagitta radius = |radius| + √(radius ^ 2 - f.halfChord ^ 2)
  halfCircle (half : radius = f.halfChord) : f.sagitta radius = f.halfChord

/-! ## The root and the quotient -/

section Frames

variable {f : Frame ℝ} {start target : Point ℝ} {radius : ℝ} {sense : RotationSense}

namespace Frame.Spans

variable (spans : f.Spans start target radius sense)

include spans

/-- The factored root is the plain one. -/
theorem apothem_eq : f.apothem = √(radius ^ 2 - f.halfChord ^ 2) := by
  rw [← sq_abs radius, ← spans.triangle, add_sub_cancel_right, Real.sqrt_sq spans.apothem_nonneg]

theorem radius_ne_zero : radius ≠ 0 := abs_pos.mp spans.radius_abs_pos

/-- The sagitta of either arc is the plain one. -/
theorem sagitta_eq : f.sagitta radius = plainSagitta f.halfChord radius := by
  unfold plainSagitta
  rw [← spans.apothem_eq]
  rcases spans.radius_ne_zero.lt_or_gt with negative | positive
  · rw [if_neg negative.not_gt, f.sagitta_of_neg negative]
  · rw [if_pos positive, spans.sagitta_of_nonneg positive.le, abs_of_pos positive]

/-- The sagitta of the shorter arc as a quotient over one sum. -/
theorem sagitta_eq_div (positive : 0 < radius) :
    f.sagitta radius = f.halfChord ^ 2 / (radius + f.apothem) := by
  have sum_pos : 0 < radius + f.apothem := by linarith [spans.apothem_nonneg]
  rw [spans.sagitta_of_nonneg positive.le, eq_div_iff sum_pos.ne', abs_of_pos positive]
  have triangle := spans.triangle
  rw [abs_of_pos positive] at triangle
  linear_combination -triangle

/-- A half circle reaches as far beyond its chord as along it. -/
theorem sagitta_halfCircle (half : radius = f.halfChord) : f.sagitta radius = f.halfChord := by
  have positive : 0 < radius := spans.halfChord_pos.trans_eq half.symm
  rw [spans.sagitta_eq_div positive, spans.apothem_eq, half, sub_self, Real.sqrt_zero, add_zero, sq,
    mul_div_cancel_right₀ _ spans.halfChord_pos.ne']

/-- **Over one chord, a larger radius reaches less far.** -/
theorem sagitta_lt {f' : Frame ℝ} {radius' : ℝ} (spans' : f'.Spans start target radius' sense)
    (positive : 0 < radius) (less : radius < radius') : f'.sagitta radius' < f.sagitta radius := by
  have same : f'.halfChord = f.halfChord := spans'.halfChord.trans spans.halfChord.symm
  have apothem_le : f.apothem ≤ f'.apothem := by
    rw [spans.apothem_eq, spans'.apothem_eq, same]
    exact Real.sqrt_le_sqrt (sub_le_sub_right (pow_le_pow_left₀ positive.le less.le 2) _)
  rw [spans.sagitta_eq_div positive, spans'.sagitta_eq_div (positive.trans less), same]
  exact div_lt_div_of_pos_left (pow_pos spans.halfChord_pos 2)
    (by linarith [spans.apothem_nonneg]) (add_lt_add_of_lt_of_le less apothem_le)

end Frame.Spans

theorem Drawable.plain (drawable : Drawable start target radius) :
    (spanned start target radius sense).Plain start target radius where
  halfChord := (drawable.spans sense).halfChord
  factored := by
    have spans := drawable.spans sense
    have ratio_le := (div_le_one spans.radius_abs_pos).mpr spans.halfChord_le
    have ratio_nonneg := div_nonneg spans.halfChord_pos.le spans.radius_abs_pos.le
    have unclamped := max_eq_left (mul_nonneg (sub_nonneg.mpr ratio_le)
      (add_nonneg zero_le_one ratio_nonneg))
    rw [← unclamped]
    rfl
  apothem := (drawable.spans sense).apothem_eq
  signed := (drawable.spans sense).radius_ne_zero
  shorter positive := by rw [(drawable.spans sense).sagitta_eq, plainSagitta, if_pos positive]
  longer negative := by
    rw [(drawable.spans sense).sagitta_eq, plainSagitta, if_neg negative.not_gt]
  halfCircle := (drawable.spans sense).sagitta_halfCircle

/-- A chord with a shadow takes a half circle. -/
theorem drawable_halfCircle (shadowed : Tolerance.degenerateChord ≤ (target - start).normXY) :
    Drawable start target ((target - start).norm / 2) where
  shadowed
  reached := le_abs_self _

theorem Drawable.of_lt {radius' : ℝ} (drawable : Drawable start target radius)
    (positive : 0 < radius) (less : radius < radius') : Drawable start target radius' where
  shadowed := drawable.shadowed
  reached := by
    have reached := drawable.reached
    rw [abs_of_pos positive] at reached
    exact (reached.trans less.le).trans (le_abs_self _)

end Frames

/-! ## The law -/

variable (start target : Point ℝ) (sense : RotationSense)

/-- The plain formula accepts what can be drawn. -/
theorem plainVia_eq (radius : ℝ) : plainVia start target radius sense =
    if Tolerance.degenerateChord ≤ (target - start).normXY then
      if (target - start).norm / 2 ≤ |radius| then
        .ok ((spanned start target radius sense).midpoint +
          (spanned start target radius sense).normal *
            plainSagitta (spanned start target radius sense).halfChord radius)
      else .error (.invalidArcRadius radius ((target - start).norm / 2))
    else .error (.degenerate (.flatChord start target)) := by
  unfold plainVia plainNormal
  simp only [← Point.norm_real, ← Point.normXY_real, spanned, sideways_real, two_real]
  by_cases shadowed : Tolerance.degenerateChord ≤ (target - start).normXY
  · by_cases reached : (target - start).norm / 2 ≤ |radius|
    · simp only [shadowed, shadowed.not_gt, reached, reached.not_gt, if_true, if_false]
    · simp only [shadowed, shadowed.not_gt, reached, not_le.mp reached, if_true, if_false]
  · simp only [shadowed, not_le.mp shadowed, if_true, if_false]

/-- **The factored formula is the plain one.** -/
theorem via_eq_plain :
    (∀ radius, via start target radius sense = plainVia start target radius sense) ∧
    (∀ radius f, frame start target radius sense = .ok f → f.Plain start target radius ∧
      via start target radius sense = .ok (f.along (f.sagitta radius))) ∧
    (Tolerance.degenerateChord ≤ (target - start).normXY →
      ∃ f, frame start target (target.distance start / 2) sense = .ok f ∧
        f.sagitta (target.distance start / 2) = target.distance start / 2) ∧
    ∀ radius radius' f, frame start target radius sense = .ok f → 0 < radius → radius < radius' →
      ∃ f', frame start target radius' sense = .ok f' ∧ f'.sagitta radius' < f.sagitta radius := by
  refine ⟨fun radius => ?_, fun radius f framed => ?_, fun shadowed => ?_, ?_⟩
  · rw [plainVia_eq, via, frame_real]
    split_ifs with shadowed reached
    · have spans := (Drawable.mk shadowed reached).spans sense
      rw [← spans.sagitta_eq]
      rfl
    · rfl
    · rfl
  · obtain ⟨drawable, rfl⟩ := frame_eq_ok.mp framed
    exact ⟨drawable.plain, via_eq_ok.mpr ⟨drawable, rfl⟩⟩
  · have drawable := drawable_halfCircle shadowed
    have spans := drawable.spans sense
    refine ⟨_, frame_eq_ok.mpr ⟨drawable, rfl⟩, ?_⟩
    exact (spans.sagitta_halfCircle spans.halfChord.symm).trans spans.halfChord
  · intro radius radius' f framed positive less
    obtain ⟨drawable, rfl⟩ := frame_eq_ok.mp framed
    have larger := drawable.of_lt positive less
    exact ⟨_, frame_eq_ok.mpr ⟨larger, rfl⟩,
      (drawable.spans sense).sagitta_lt (larger.spans sense) positive less⟩

/-- The longer arc over a climbing chord, and shorter ones from the half circle on. -/
theorem via_eq_plain_climbing :
    let start : Point ℝ := ⟨0, 0, 0⟩
    let target : Point ℝ := ⟨18, 24, 72⟩
    via start target (-65) .clockwise = plainVia start target (-65) .clockwise ∧
    (∃ f, frame start target (-65) .clockwise = .ok f ∧ f.apothem = √((-65) ^ 2 - 39 ^ 2) ∧
      f.sagitta (-65) = |-65| + √((-65) ^ 2 - 39 ^ 2)) ∧
    Tolerance.degenerateChord ≤ (target - start).normXY ∧
    ∃ f, frame start target 39 .clockwise = .ok f ∧ f.sagitta 39 = 39 ∧
      ∃ f', frame start target 65 .clockwise = .ok f' ∧ f'.sagitta 65 < 39 := by
  intro start target
  obtain ⟨same, plain, halfCircle, falls⟩ := via_eq_plain start target .clockwise
  have framed : frame start target (-65) .clockwise = .ok (spanned start target (-65) .clockwise) :=
    frame_eq_ok.mpr ⟨drawable_climbing, rfl⟩
  have half : target.distance start / 2 = 39 := by
    rw [show target.distance start = 78 from norm_climbing]
    norm_num
  have formula := (plain _ _ framed).1
  have apothem := formula.apothem
  have longer := formula.longer (by norm_num)
  rw [formula.halfChord, half] at apothem longer
  have shadowed := drawable_climbing.shadowed
  obtain ⟨f, accepted, reaches⟩ := halfCircle shadowed
  rw [half] at accepted reaches
  obtain ⟨f', larger, less⟩ := falls 39 65 f accepted (by norm_num) (by norm_num)
  exact ⟨same _, ⟨_, framed, apothem, longer⟩, shadowed, f, accepted, reaches, f', larger,
    less.trans_eq reaches⟩

end Toolpath.Arc
