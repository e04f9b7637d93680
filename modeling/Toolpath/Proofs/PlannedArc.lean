import Mathlib.Analysis.SpecialFunctions.Complex.Arg
import Toolpath.Proofs.ArcCircle
import Toolpath.Proofs.Dispatch

/-!
# Planned arcs

A circle through both ends holds four arcs of one radius: two senses, and for each a shorter and a
longer way. `plan_circular` says that a planned command goes the commanded one. The turn at the
halfway point, seen from above, has the sign of the sense, and the halfway point lies within half
the chord of the midpoint for a positive radius, and a radius or more beyond it for a negative one.

The turn is strict because the halfway point lies a positive sagitta off a chord that has a shadow.
-/

namespace Toolpath

namespace Arc

open Scalar

/-- How the way over three points turns, seen from above: the height of the cross product of its two
legs. -/
noncomputable def turn (start via target : Point ℝ) : ℝ := ((via - start).cross (target - via)).z

namespace Frame.Spans

variable {f : Frame ℝ} {start target : Point ℝ} {radius : ℝ} {sense : RotationSense}

/-- The way over a point on the normal turns with the side, the shadow and the way gone. -/
theorem turn_along (spans : f.Spans start target radius sense) (t : ℝ) :
    turn start (f.along t) target = -(side sense * ((target - start).normXY * t)) := by
  rw [turn, Point.cross_z_real]
  simp only [along, spans.midpoint, Point.add_real, Point.sub_real, Point.mul_real, Point.div_real]
  have turned := spans.turned
  simp only [Point.sub_real] at turned
  linear_combination -t * turned

theorem along_distance_midpoint (spans : f.Spans start target radius sense) (t : ℝ) :
    (f.along t).distance ((start + target) / (2 : ℝ)) = |t| := by
  have at_zero : f.along 0 = (start + target) / (2 : ℝ) := by
    simp [along, spans.midpoint, Point.add_real, Point.mul_real, Point.div_real]
  rw [← at_zero, spans.along_distance_along, sub_zero]

/-- The apothem of a drawn arc is shorter than its radius. -/
theorem apothem_lt (spans : f.Spans start target radius sense) : f.apothem < |radius| := by
  have halfChord_sq_pos := pow_pos spans.halfChord_pos 2
  exact lt_of_pow_lt_pow_left₀ 2 (abs_nonneg radius) (by linarith [spans.triangle])

/-- Either arc leaves the chord. -/
theorem sagitta_pos (spans : f.Spans start target radius sense) : 0 < f.sagitta radius := by
  by_cases nonneg : 0 ≤ radius
  · rw [spans.sagitta_of_nonneg nonneg]
    linarith [spans.apothem_lt]
  · rw [f.sagitta_of_neg (not_le.mp nonneg)]
    linarith [spans.apothem_nonneg, spans.radius_abs_pos]

/-- The shorter arc leaves it by half its length at most: as far as a half circle. -/
theorem sagitta_le_halfChord (spans : f.Spans start target radius sense) (nonneg : 0 ≤ radius) :
    f.sagitta radius ≤ f.halfChord := by
  rw [spans.sagitta_of_nonneg nonneg]
  have apothem_nonneg := spans.apothem_nonneg
  have halfChord_pos := spans.halfChord_pos
  -- A side of the triangle is at most the sum of the others.
  have hypotenuse_le : |radius| ≤ f.apothem + f.halfChord := by
    apply le_of_pow_le_pow_left₀ two_ne_zero (by linarith)
    have legs_nonneg := mul_nonneg apothem_nonneg halfChord_pos.le
    linarith [spans.triangle, add_sq f.apothem f.halfChord]
  linarith

/-- The longer arc leaves it by a radius or more. -/
theorem radius_le_sagitta (spans : f.Spans start target radius sense) (negative : radius < 0) :
    |radius| ≤ f.sagitta radius := by
  rw [f.sagitta_of_neg negative]
  linarith [spans.apothem_nonneg]

end Frame.Spans

/-- Over the halfway point the way turns with the sense, whatever the radius's sign. -/
theorem turn_via {start target p : Point ℝ} {radius : ℝ} {sense : RotationSense}
    (found : via start target radius sense = .ok p) :
    0 < -(side sense * turn start p target) := by
  obtain ⟨drawable, rfl⟩ := via_eq_ok.mp found
  have spans := drawable.spans sense
  rw [spans.turn_along]
  calc
    0 < (target - start).normXY * (spanned start target radius sense).sagitta radius :=
      mul_pos spans.shadow_pos spans.sagitta_pos
    _ = -(side sense * -(side sense *
          ((target - start).normXY * (spanned start target radius sense).sagitta radius))) := by
      linear_combination
        -((target - start).normXY * (spanned start target radius sense).sagitta radius) *
          side_sq sense

/-- How far the halfway point lies from the chord's midpoint. -/
theorem via_distance_midpoint {start target p : Point ℝ} {radius : ℝ} {sense : RotationSense}
    (found : via start target radius sense = .ok p) :
    (0 < radius → 0 < p.distance ((start + target) / (2 : ℝ)) ∧
      p.distance ((start + target) / (2 : ℝ)) ≤ target.distance start / 2) ∧
    (radius < 0 → |radius| ≤ p.distance ((start + target) / (2 : ℝ)) ∧
      target.distance start / 2 ≤ |radius|) := by
  obtain ⟨drawable, rfl⟩ := via_eq_ok.mp found
  have spans := drawable.spans sense
  have halfChord : target.distance start / 2 = (spanned start target radius sense).halfChord :=
    spans.halfChord.symm
  rw [spans.along_distance_midpoint, abs_of_pos spans.sagitta_pos, halfChord]
  constructor
  · intro positive
    exact ⟨spans.sagitta_pos, spans.sagitta_le_halfChord positive.le⟩
  · intro negative
    exact ⟨spans.radius_le_sagitta negative, spans.halfChord_le⟩

end Arc

namespace MotionMode

open Arc

/-- **A planned arc goes the commanded way.** At its halfway point it turns clockwise, seen from
above, for the one mode and counter-clockwise for the other. With a positive radius the halfway
point lies off the chord's midpoint by half the chord at most, so the arc is half a circle or less.
With a negative one it lies off by the radius at least, which is half the chord or more. -/
theorem plan_circular {mode : MotionMode} {current via target : Pose ℝ} {axes : AxisState ℝ}
    (planned : mode.plan current axes = .ok (.circular via target)) :
    (mode = .clockwiseArc ∧ turn current.position via.position target.position < 0 ∨
      mode = .counterClockwiseArc ∧ 0 < turn current.position via.position target.position) ∧
    (0 < axes.r →
      0 < via.position.distance ((current.position + target.position) / (2 : ℝ)) ∧
      via.position.distance ((current.position + target.position) / (2 : ℝ)) ≤
        target.position.distance current.position / 2) ∧
    (axes.r < 0 →
      |axes.r| ≤ via.position.distance ((current.position + target.position) / (2 : ℝ)) ∧
      target.position.distance current.position / 2 ≤ |axes.r|) := by
  cases mode with
  | rapid | linear => cases planned
  | clockwiseArc =>
    obtain ⟨p, found, command⟩ := planArc_eq_ok.mp planned
    cases command
    have turned := turn_via found
    refine ⟨.inl ⟨rfl, ?_⟩, via_distance_midpoint found⟩
    simpa [side, Pose.withPosition] using turned
  | counterClockwiseArc =>
    obtain ⟨p, found, command⟩ := planArc_eq_ok.mp planned
    cases command
    have turned := turn_via found
    refine ⟨.inr ⟨rfl, ?_⟩, via_distance_midpoint found⟩
    simpa [side, Pose.withPosition] using turned

/-- The longer way clockwise over a climbing chord. -/
theorem plan_circular_climbing :
    MotionMode.clockwiseArc.plan (Pose.displacement ⟨0, 0, 0⟩ : Pose ℝ) ⟨18, 24, 72, -65⟩ =
      .ok (.circular (Pose.displacement ⟨-84.6, 82.2, 36⟩) (Pose.displacement ⟨18, 24, 72⟩)) ∧
    turn ⟨0, 0, 0⟩ ⟨-84.6, 82.2, 36⟩ ⟨18, 24, 72⟩ < 0 ∧
    |-65| ≤ (⟨-84.6, 82.2, 36⟩ : Point ℝ).distance
      ((⟨0, 0, 0⟩ + ⟨18, 24, 72⟩ : Point ℝ) / (2 : ℝ)) := by
  have planned :
      MotionMode.clockwiseArc.plan (Pose.displacement ⟨0, 0, 0⟩ : Pose ℝ) ⟨18, 24, 72, -65⟩ =
        .ok (.circular (Pose.displacement ⟨-84.6, 82.2, 36⟩) (Pose.displacement ⟨18, 24, 72⟩)) :=
    planArc_eq_ok.mpr ⟨_, via_climbing, rfl⟩
  obtain ⟨turned, _, longer⟩ := plan_circular planned
  refine ⟨planned, ?_, (longer (by norm_num)).1⟩
  obtain ⟨_, clockwise⟩ | ⟨other, _⟩ := turned
  · exact clockwise
  · cases other

end MotionMode

end Toolpath
