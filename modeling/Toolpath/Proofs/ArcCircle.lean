import Mathlib.Analysis.SpecialFunctions.Complex.Arg
import Toolpath.Proofs.Exact

/-!
# Arcs lie on circles

An arc is found through its frame: the chord's midpoint, a level normal, half the chord and the
distance of the centre. Both points of an arc lie on the line through the midpoint along the normal,
so every distance between them and the ends is one of two kinds: across the chord, by Pythagoras, or
along the normal. `Frame.Spans` says what a frame is, in exact arithmetic, and everything here and
in the planning of arcs follows from it.

The law (`via_center_on_circle`): the halfway point and the centre are found for the same requests,
and then the ends and the halfway point lie on the circle of the radius about the centre, for either
sign of the radius, either sense and a slanted chord.
-/

namespace Toolpath.Arc

open Scalar

/-! ## Frames -/

/-- The side of the chord to which an arc of a sense bulges: one for its left. -/
def side : RotationSense → ℝ
  | .clockwise => 1
  | .counterClockwise => -1

theorem side_sq (sense : RotationSense) : side sense ^ 2 = 1 := by
  cases sense <;> norm_num [side]

/-- The side is all in which the senses differ. -/
theorem sideways_real (chord : Point ℝ) (sense : RotationSense) :
    sideways chord sense = ⟨-(side sense * chord.y), side sense * chord.x, 0⟩ := by
  cases sense <;> simp [sideways, side, zero_real]

/-- The chord turned a quarter to either side is as long as its shadow. -/
theorem norm_sideways (chord : Point ℝ) (sense : RotationSense) :
    (sideways chord sense).norm = chord.normXY := by
  rw [Point.norm_real, Point.normXY_real, sideways_real]
  congr 1
  linear_combination (chord.x ^ 2 + chord.y ^ 2) * side_sq sense

/-- What an arc can be drawn for: the chord has a shadow, and the radius reaches over half the
chord. -/
structure Drawable (start target : Point ℝ) (radius : ℝ) : Prop where
  shadowed : Tolerance.degenerateChord ≤ (target - start).normXY
  reached : (target - start).norm / 2 ≤ |radius|

/-- What a frame is: the midpoint, a level unit normal across the chord on the side of the sense,
half the chord, and with it and the radius a right triangle. -/
structure Frame.Spans (f : Frame ℝ) (start target : Point ℝ) (radius : ℝ) (sense : RotationSense) :
    Prop where
  midpoint : f.midpoint = (start + target) / (2 : ℝ)
  level : f.normal.z = 0
  unit : f.normal.x ^ 2 + f.normal.y ^ 2 = 1
  across : f.normal.x * (target.x - start.x) + f.normal.y * (target.y - start.y) = 0
  turned : (target.x - start.x) * f.normal.y - (target.y - start.y) * f.normal.x =
    side sense * (target - start).normXY
  shadow_pos : 0 < (target - start).normXY
  halfChord : f.halfChord = (target - start).norm / 2
  halfChord_pos : 0 < f.halfChord
  halfChord_le : f.halfChord ≤ |radius|
  apothem_nonneg : 0 ≤ f.apothem
  triangle : f.apothem ^ 2 + f.halfChord ^ 2 = |radius| ^ 2

/-- The factored root of the apothem is the root of a difference of squares. -/
theorem apothem_sq {r c : ℝ} (positive : 0 < r) (nonneg : 0 ≤ c) (reached : c ≤ r) :
    (r * √(max ((1 - c / r) * (1 + c / r)) 0)) ^ 2 + c ^ 2 = r ^ 2 := by
  have ratio_le : c / r ≤ 1 := (div_le_one positive).mpr reached
  have ratio_nonneg : 0 ≤ c / r := div_nonneg nonneg positive.le
  have product : 0 ≤ (1 - c / r) * (1 + c / r) :=
    mul_nonneg (by linarith) (by linarith)
  rw [max_eq_left product, mul_pow, Real.sq_sqrt product]
  field_simp
  ring

/-- The frame of an arc in the real numbers' own operations. -/
noncomputable def spanned (start target : Point ℝ) (radius : ℝ) (sense : RotationSense) :
    Frame ℝ where
  midpoint := (start + target) / (2.0 : ℝ)
  normal := sideways (target - start) sense / (target - start).normXY
  halfChord := (target - start).norm / 2.0
  apothem :=
    let k := (target - start).norm / 2.0 / |radius|
    |radius| * √(max ((1 - k) * (1 + k)) 0)

/-- An arc has a frame where it can be drawn. The chord is judged before the radius. -/
theorem frame_real (start target : Point ℝ) (radius : ℝ) (sense : RotationSense) :
    frame start target radius sense =
      if Tolerance.degenerateChord ≤ (target - start).normXY then
        if (target - start).norm / 2 ≤ |radius| then .ok (spanned start target radius sense)
        else .error (.invalidArcRadius radius ((target - start).norm / 2))
      else .error (.degenerate (.flatChord start target)) := by
  unfold frame spanned
  simp only [Point.isFinite_real, Scalar.isFinite_real, norm_sideways, le_real, lt_real, abs_real,
    sqrt_real, atLeastZero_real, one_real, two_real]
  by_cases shadowed : Tolerance.degenerateChord ≤ (target - start).normXY
  · by_cases reached : (target - start).norm / 2 ≤ |radius|
    · simp [shadowed, reached]
    · simp [shadowed, reached]
  · simp [shadowed]

/-- A frame is found just where the arc can be drawn. -/
theorem frame_eq_ok {start target : Point ℝ} {radius : ℝ} {sense : RotationSense} {f : Frame ℝ} :
    frame start target radius sense = .ok f ↔
      Drawable start target radius ∧ f = spanned start target radius sense := by
  rw [frame_real]
  constructor
  · intro framed
    split at framed
    case isFalse => cases framed
    case isTrue shadowed =>
      split at framed
      case isFalse => cases framed
      case isTrue reached =>
        cases framed
        exact ⟨⟨shadowed, reached⟩, rfl⟩
  · rintro ⟨⟨shadowed, reached⟩, rfl⟩
    rw [if_pos shadowed, if_pos reached]

theorem Drawable.shadow_pos {start target : Point ℝ} {radius : ℝ}
    (drawable : Drawable start target radius) : 0 < (target - start).normXY :=
  Tolerance.degenerateChord_pos.trans_le drawable.shadowed

/-- A frame that is found spans its arc. -/
theorem Drawable.spans {start target : Point ℝ} {radius : ℝ}
    (drawable : Drawable start target radius) (sense : RotationSense) :
    (spanned start target radius sense).Spans start target radius sense := by
  have shadow_pos := drawable.shadow_pos
  have shadow_sq := (target - start).normXY_sq
  have halfChord : (spanned start target radius sense).halfChord = (target - start).norm / 2 := by
    simp only [spanned, two_real]
  have halfChord_pos : 0 < (spanned start target radius sense).halfChord := by
    have shadow_le := (target - start).normXY_le_norm
    rw [halfChord]
    linarith
  have reached : (spanned start target radius sense).halfChord ≤ |radius| :=
    halfChord.trans_le drawable.reached
  exact {
    midpoint := by simp only [spanned, two_real]
    level := by simp [spanned, sideways_real, Point.div_real]
    unit := by
      simp only [spanned, sideways_real, Point.div_real]
      field_simp
      linear_combination
        ((target - start).x ^ 2 + (target - start).y ^ 2) * side_sq sense - shadow_sq
    across := by
      simp only [spanned, sideways_real, Point.div_real, Point.sub_real]
      ring
    turned := by
      simp only [spanned, sideways_real, Point.div_real]
      field_simp
      rw [shadow_sq]
      simp only [Point.sub_real]
      ring
    shadow_pos
    halfChord
    halfChord_pos
    halfChord_le := reached
    apothem_nonneg := mul_nonneg (abs_nonneg radius) (Real.sqrt_nonneg _)
    triangle := apothem_sq (halfChord_pos.trans_le reached) halfChord_pos.le reached }

/-! ## Points on the normal -/

/-- The point of a frame that lies so far along the normal from the midpoint. -/
noncomputable def Frame.along (f : Frame ℝ) (t : ℝ) : Point ℝ := f.midpoint + f.normal * t

/-- Where the centre lies on the normal: behind the midpoint for the shorter arc. -/
noncomputable def Frame.centerOffset (f : Frame ℝ) (radius : ℝ) : ℝ :=
  if 0 ≤ radius then -f.apothem else f.apothem

theorem Frame.sagitta_of_neg (f : Frame ℝ) {radius : ℝ} (negative : radius < 0) :
    f.sagitta radius = |radius| + f.apothem := by
  simp [sagitta, abs_real, le_real, zero_real, negative]

namespace Frame.Spans

variable {f : Frame ℝ} {start target : Point ℝ} {radius : ℝ} {sense : RotationSense}

/-- The frame's line lies level, halfway up the chord. -/
theorem along_z (spans : f.Spans start target radius sense) (t : ℝ) :
    (f.along t).z = (start.z + target.z) / 2 := by
  simp only [along, spans.midpoint, Point.add_real, Point.mul_real, Point.div_real, spans.level]
  ring

/-- Along the normal, which is a unit, distances are differences. -/
theorem along_distance_along (spans : f.Spans start target radius sense) (t u : ℝ) :
    (f.along t).distance (f.along u) = |t - u| := by
  rw [Point.distance_real, ← Real.sqrt_sq_eq_abs]
  congr 1
  simp only [along, Point.add_real, Point.mul_real, spans.level]
  linear_combination (t - u) ^ 2 * spans.unit

/-- Half the chord's square from its coordinates. -/
theorem halfChord_sq (spans : f.Spans start target radius sense) :
    f.halfChord ^ 2 = ((target.x - start.x) ^ 2 + (target.y - start.y) ^ 2 +
      (target.z - start.z) ^ 2) / 4 := by
  rw [spans.halfChord, div_pow, Point.norm_sq]
  simp only [Point.sub_real]
  ring

/-- A point on the normal is as far from the start as Pythagoras says. -/
theorem along_distance_start (spans : f.Spans start target radius sense) (t : ℝ) :
    (f.along t).distance start = √(f.halfChord ^ 2 + t ^ 2) := by
  rw [Point.distance_real, spans.halfChord_sq]
  congr 1
  simp only [along, spans.midpoint, Point.add_real, Point.mul_real, Point.div_real, spans.level]
  linear_combination t * spans.across + t ^ 2 * spans.unit

/-- It is as far from the target. -/
theorem along_distance_target (spans : f.Spans start target radius sense) (t : ℝ) :
    (f.along t).distance target = √(f.halfChord ^ 2 + t ^ 2) := by
  rw [Point.distance_real, spans.halfChord_sq]
  congr 1
  simp only [along, spans.midpoint, Point.add_real, Point.mul_real, Point.div_real, spans.level]
  linear_combination -t * spans.across + t ^ 2 * spans.unit

/-! ## The sagitta -/

theorem radius_abs_pos (spans : f.Spans start target radius sense) : 0 < |radius| :=
  spans.halfChord_pos.trans_le spans.halfChord_le

/-- The quotient for the sagitta of the shorter arc is a difference without cancellation. -/
theorem sagitta_of_nonneg (spans : f.Spans start target radius sense) (nonneg : 0 ≤ radius) :
    f.sagitta radius = |radius| - f.apothem := by
  have sum_pos : 0 < |radius| + f.apothem := by
    linarith [spans.radius_abs_pos, spans.apothem_nonneg]
  simp only [sagitta, abs_real, le_real, zero_real, decide_eq_true nonneg, if_true]
  field_simp
  linear_combination spans.triangle

/-- From the centre to the halfway point is a radius, whichever of them lies behind the chord. -/
theorem sagitta_sub_centerOffset (spans : f.Spans start target radius sense) :
    f.sagitta radius - f.centerOffset radius = |radius| := by
  by_cases nonneg : 0 ≤ radius
  · rw [spans.sagitta_of_nonneg nonneg, centerOffset, if_pos nonneg]
    ring
  · rw [f.sagitta_of_neg (not_le.mp nonneg), centerOffset, if_neg nonneg]
    ring

/-- From the centre to an end is a radius. -/
theorem sqrt_halfChord_centerOffset (spans : f.Spans start target radius sense) :
    √(f.halfChord ^ 2 + f.centerOffset radius ^ 2) = |radius| := by
  have square : f.halfChord ^ 2 + f.centerOffset radius ^ 2 = |radius| ^ 2 := by
    rw [← spans.triangle, centerOffset]
    split <;> ring
  rw [square, Real.sqrt_sq (abs_nonneg radius)]

end Frame.Spans

/-! ## The halfway point and the centre -/

variable {start target : Point ℝ} {radius : ℝ} {sense : RotationSense}

/-- A point read off the frame is found just where the arc can be drawn. -/
theorem read_eq_ok (what : ArcPoint) (read : Frame ℝ → Point ℝ) {p : Point ℝ} :
    (frame start target radius sense >>= fun f => finite what (read f)) = .ok p ↔
      Drawable start target radius ∧ p = read (spanned start target radius sense) := by
  have finite_real : ∀ q : Point ℝ, finite what q = .ok q := fun q => if_pos q.isFinite_real
  cases framed : frame start target radius sense with
  | error e =>
    have undrawn : ¬Drawable start target radius := fun drawable =>
      nomatch framed.symm.trans (frame_eq_ok.mpr ⟨drawable, rfl⟩)
    simp [bind, Except.bind, undrawn]
  | ok f =>
    obtain ⟨drawable, rfl⟩ := frame_eq_ok.mp framed
    simp [bind, Except.bind, finite_real, drawable, eq_comm]

/-- The halfway point lies a sagitta along the normal. -/
theorem via_eq_ok {p : Point ℝ} :
    via start target radius sense = .ok p ↔ Drawable start target radius ∧
      p = (spanned start target radius sense).along
        ((spanned start target radius sense).sagitta radius) :=
  read_eq_ok .via fun f => f.along (f.sagitta radius)

/-- The centre lies on the same line. -/
theorem center_eq_ok {c : Point ℝ} :
    center start target radius sense = .ok c ↔ Drawable start target radius ∧
      c = (spanned start target radius sense).along
        ((spanned start target radius sense).centerOffset radius) := by
  have offset (f : Frame ℝ) :
      (if le 0.0 radius then -1.0 else 1.0) * f.apothem = f.centerOffset radius := by
    by_cases nonneg : 0 ≤ radius <;>
      simp [Frame.centerOffset, le_real, zero_real, one_real, nonneg]
  simp only [← offset]
  exact read_eq_ok .center fun f => f.along ((if le 0.0 radius then -1.0 else 1.0) * f.apothem)

/-- The halfway point is found for each arc that can be drawn. -/
theorem exists_via :
    (∃ p, via start target radius sense = .ok p) ↔ Drawable start target radius := by
  simp only [via_eq_ok, exists_and_left, exists_eq, and_true]

/-- So is the centre. -/
theorem exists_center :
    (∃ c, center start target radius sense = .ok c) ↔ Drawable start target radius := by
  simp only [center_eq_ok, exists_and_left, exists_eq, and_true]

/-! ## A climbing chord

The arc by which the laws are shown to speak of something: its chord has a shadow of thirty
millimetres and climbs seventy-two. -/

theorem normXY_climbing : (⟨18, 24, 72⟩ - ⟨0, 0, 0⟩ : Point ℝ).normXY = 30 := by
  rw [Point.normXY_real, Real.sqrt_eq_iff_mul_self_eq_of_pos (by norm_num)]
  norm_num [Point.sub_real]

theorem norm_climbing : (⟨18, 24, 72⟩ - ⟨0, 0, 0⟩ : Point ℝ).norm = 78 := by
  rw [Point.norm_real, Real.sqrt_eq_iff_mul_self_eq_of_pos (by norm_num)]
  norm_num [Point.sub_real]

theorem drawable_climbing : Drawable ⟨0, 0, 0⟩ ⟨18, 24, 72⟩ (-65) where
  shadowed := by
    rw [normXY_climbing]
    norm_num [Tolerance.degenerateChord]
  reached := by
    rw [norm_climbing]
    norm_num

theorem spanned_climbing :
    spanned ⟨0, 0, 0⟩ ⟨18, 24, 72⟩ (-65) .clockwise =
      ⟨⟨9, 12, 36⟩, ⟨-0.8, 0.6, 0⟩, 39, 52⟩ := by
  have radius : |(-65 : ℝ)| = 65 := by norm_num
  have root : √(max ((1 - 78 / 2 / 65) * (1 + 78 / 2 / 65)) 0) = (0.8 : ℝ) := by
    rw [Real.sqrt_eq_iff_mul_self_eq_of_pos (by norm_num)]
    norm_num
  simp only [spanned, normXY_climbing, norm_climbing, two_real, radius, root]
  norm_num [sideways_real, side, Point.div_real, Point.add_real, Point.sub_real]

theorem via_climbing :
    via (⟨0, 0, 0⟩ : Point ℝ) ⟨18, 24, 72⟩ (-65) .clockwise = .ok ⟨-84.6, 82.2, 36⟩ := by
  refine via_eq_ok.mpr ⟨drawable_climbing, ?_⟩
  rw [spanned_climbing, Frame.sagitta_of_neg _ (by norm_num)]
  norm_num [Frame.along, Point.add_real, Point.mul_real]

/-! ## The circle -/

/-- **An arc lies on its circle.** The halfway point and the centre are found for the same requests.
Then the centre is a radius away from both ends and from the halfway point, the halfway point is as
far from the one end as from the other, and both lie halfway up the chord. -/
theorem via_center_on_circle (start target : Point ℝ) (radius : ℝ) (sense : RotationSense) :
    ((∃ p, via start target radius sense = .ok p) ↔
      ∃ c, center start target radius sense = .ok c) ∧
    ∀ p c, via start target radius sense = .ok p → center start target radius sense = .ok c →
      c.distance start = |radius| ∧ c.distance target = |radius| ∧ c.distance p = |radius| ∧
      p.distance start = p.distance target ∧
      p.z = (start.z + target.z) / 2 ∧ c.z = (start.z + target.z) / 2 := by
  refine ⟨exists_via.trans exists_center.symm, ?_⟩
  intro p c found centred
  obtain ⟨drawable, rfl⟩ := via_eq_ok.mp found
  obtain ⟨_, rfl⟩ := center_eq_ok.mp centred
  have spans := drawable.spans sense
  have end_radius := spans.sqrt_halfChord_centerOffset
  refine ⟨?_, ?_, ?_, ?_, spans.along_z _, spans.along_z _⟩
  · rw [spans.along_distance_start, end_radius]
  · rw [spans.along_distance_target, end_radius]
  · rw [spans.along_distance_along, abs_sub_comm, spans.sagitta_sub_centerOffset, abs_abs]
  · rw [spans.along_distance_start, spans.along_distance_target]

/-- The longer arc over a chord that climbs seventy-two millimetres. -/
theorem via_center_on_circle_climbing :
    via (⟨0, 0, 0⟩ : Point ℝ) ⟨18, 24, 72⟩ (-65) .clockwise = .ok ⟨-84.6, 82.2, 36⟩ ∧
    center (⟨0, 0, 0⟩ : Point ℝ) ⟨18, 24, 72⟩ (-65) .clockwise = .ok ⟨-32.6, 43.2, 36⟩ ∧
    (⟨-32.6, 43.2, 36⟩ : Point ℝ).distance ⟨18, 24, 72⟩ = |-65| ∧
    (⟨-32.6, 43.2, 36⟩ : Point ℝ).distance ⟨-84.6, 82.2, 36⟩ = |-65| := by
  have found := via_climbing
  have centred : center (⟨0, 0, 0⟩ : Point ℝ) ⟨18, 24, 72⟩ (-65) .clockwise =
      .ok ⟨-32.6, 43.2, 36⟩ := by
    refine center_eq_ok.mpr ⟨drawable_climbing, ?_⟩
    rw [spanned_climbing]
    norm_num [Frame.along, Frame.centerOffset, Point.add_real, Point.mul_real]
  have circle := (via_center_on_circle ⟨0, 0, 0⟩ ⟨18, 24, 72⟩ (-65) .clockwise).2 _ _ found centred
  exact ⟨found, centred, circle.2.1, circle.2.2.1⟩

end Toolpath.Arc
