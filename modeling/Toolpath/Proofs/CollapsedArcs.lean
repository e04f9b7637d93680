import Toolpath.Proofs.ArcRequests
import Toolpath.Proofs.RoundingErrors

/-!
# Arcs that collapse onto their chords

The halfway point of an arc is the middle of its chord moved along the normal by the sagitta. In
doubles it can fall back onto the chord in two ways. The sagitta is absorbed where the coordinates
of the middle are out of proportion to it, and it is computed as nothing where the radius and the
apothem add up to no finite double (`via_on_chord`). This module says that there is no third way.

The errors are bounded step by step. The normal is off by a millionth at most (`normal_error`), so
it leads away from the chord (`upright_drawn`). The sagitta that is computed is no less than a third
of the exact one (`rise_le`): here it counts that the shorter arc's is a quotient and no difference,
which a large radius would cancel. A coordinate of the halfway point strays by a quarter of the
sagitta at most (`stray_le`).

The law (`via_off_chord`): if no coordinate of the ends in the plane is more than 2 to the 47th
sagittas and the radius is in the lower quarter of the range, a halfway point that is found is not
the middle of the chord, and lies to the side of the sense.
-/

namespace Toolpath.Arc

open Scalar Decimal

variable {start target p : Point Float} {radius : Float} {sense : RotationSense}

/-- A halfway point that is found is that of the frame that is drawn, and finite. -/
theorem drawn_of_via (found : via start target radius sense = .ok p) :
    Accepted start target radius ∧ p.isFinite = true ∧
      p = (drawn start target radius sense).midpoint + (drawn start target radius sense).normal *
        (drawn start target radius sense).sagitta radius := by
  have judgeable := judgeable_float start target radius
  rcases judgeable.total with accepted | ⟨e, refused⟩
  · unfold via at found
    rw [judgeable.frame_of_accepted accepted sense] at found
    change finite .via _ = _ at found
    unfold finite at found
    split at found
    next whole =>
      cases found
      exact ⟨accepted, whole, rfl⟩
    next => cases found
  · have refused := ((judgeable.refused_iff sense e).mpr refused).1
    rw [found] at refused
    cases refused

/-! ## The normal -/

/-- The chord of an accepted request is near the exact one, and its shadow is not too short to
divide by. -/
theorem chord_of_accepted (accepted : Accepted start target radius) :
    (target - start).Measured ∧ (target - start).Nearly (target.real - start.real) ∧
      1 / 10 ^ 9 ≤ toReal (target - start).shadow.norm := by
  have measured := Point.measured_of_isFinite_norm (norm_finite_of_accepted accepted)
  have shadow := (le_iff rfl measured.rounds_shadow.1).mp (of_decide_eq_true accepted.shadowed)
  exact ⟨measured, Point.nearly_sub accepted.ends.2 accepted.ends.1 measured,
    degenerateChord_ge.trans shadow⟩

/-- A rounded coordinate divided by a length that is no shorter. -/
theorem quotient_error {a l : Float} {exact : ℝ} (left : a.isFinite = true)
    (right : l.isFinite = true) (error : |exact - toReal a| ≤ |exact| / 2 ^ 53 + tiny)
    (bound : |toReal a| ≤ 21 / 20 * toReal l) (least : 1 / 10 ^ 9 ≤ toReal l) :
    |toReal (a / l) - exact / toReal l| ≤ 1 / 10 ^ 6 := by
  have positive : 0 < toReal l := by linarith
  have small := tiny_le
  have ratio : |toReal a / toReal l| ≤ 21 / 20 := by
    rw [abs_div, abs_of_pos positive, div_le_iff₀ positive]
    exact bound
  have rounded := rounds_div left right positive.ne'
  have finite : (a / l).isFinite = true := by
    refine rounded.isFinite (y := 2.0) rfl ?_
    rw [toReal_two, abs_two]
    exact ratio.trans (by norm_num)
  have second := rounded.error finite
  have first : |exact / toReal l - toReal a / toReal l| ≤ 1 / 10 ^ 9 := by
    have size := (abs_le_of_error error).2
    rw [← sub_div, abs_div, abs_of_pos positive, div_le_iff₀ positive]
    linarith
  have triangle := abs_sub_le (toReal (a / l)) (toReal a / toReal l) (exact / toReal l)
  rw [abs_sub_comm] at first second
  linarith

/-- The normal in doubles, against the chord turned and divided by the length that was computed. -/
theorem normal_error (accepted : Accepted start target radius) (sense : RotationSense) :
    let chord := target.real - start.real
    let length := toReal (target - start).shadow.norm
    let normal := (drawn start target radius sense).normal
    |toReal normal.x - -(side sense * chord.y) / length| ≤ 1 / 10 ^ 6 ∧
      |toReal normal.y - side sense * chord.x / length| ≤ 1 / 10 ^ 6 := by
  intro chord length normal
  obtain ⟨measured, near, least⟩ := chord_of_accepted accepted
  obtain ⟨xBound, yBound⟩ := Point.coordinates_le measured least
  have finite := measured.rounds_shadow.1
  have plain {a : Float} {A : ℝ} (left : a.isFinite = true)
      (error : |A - toReal a| ≤ |A| / 2 ^ 53 + tiny) (bound : |toReal a| ≤ 21 / 20 * length) :
      |toReal (a / (target - start).shadow.norm) - A / length| ≤ 1 / 10 ^ 6 :=
    quotient_error left finite error bound least
  have turned {a : Float} {A : ℝ} (left : a.isFinite = true)
      (error : |A - toReal a| ≤ |A| / 2 ^ 53 + tiny) (bound : |toReal a| ≤ 21 / 20 * length) :
      |toReal (-a / (target - start).shadow.norm) - -A / length| ≤ 1 / 10 ^ 6 := by
    refine plain (by rwa [isFinite_neg]) ?_ (by rwa [toReal_neg, abs_neg])
    rwa [toReal_neg, abs_neg, ← neg_sub', abs_neg]
  have parts : normal = sideways (target - start) sense / (target - start).shadow.norm := by
    rw [← norm_sideways_float _ sense]
    rfl
  rw [parts]
  cases sense with
  | clockwise =>
    rw [side, one_mul, one_mul]
    exact ⟨turned measured.y near.y yBound, plain measured.x near.x xBound⟩
  | counterClockwise =>
    rw [side, neg_one_mul, neg_one_mul, neg_neg]
    exact ⟨plain measured.y near.y yBound, turned measured.x near.x xBound⟩

theorem shadow_pos (accepted : Accepted start target radius) :
    0 < (target.real - start.real).normXY := by
  obtain ⟨measured, near, least⟩ := chord_of_accepted accepted
  linarith [Point.shadow_upper measured near least]

/-- A vector in the plane that leads to the side of a sense from a chord, and is not much longer
than a unit. -/
structure Upright (normal chord : Point ℝ) (sense : RotationSense) : Prop where
  turned : 9 / 10 * chord.normXY ≤ side sense * (chord.x * normal.y - chord.y * normal.x)
  x : |normal.x| ≤ 11 / 10
  y : |normal.y| ≤ 11 / 10

theorem abs_side (sense : RotationSense) : |side sense| = 1 := by
  cases sense <;> norm_num [side]

/-- A chord across a small vector. -/
theorem abs_cross_le (chord : Point ℝ) {e f bound : ℝ} (x : |e| ≤ bound) (y : |f| ≤ bound) :
    |chord.x * f - chord.y * e| ≤ 2 * bound * chord.normXY := by
  obtain ⟨xShort, yShort⟩ := chord.abs_coordinates_le
  calc |chord.x * f - chord.y * e| ≤ |chord.x * f| + |chord.y * e| := abs_sub _ _
    _ = |chord.x| * |f| + |chord.y| * |e| := by rw [abs_mul, abs_mul]
    _ ≤ chord.normXY * bound + chord.normXY * bound := by
      have positive := (abs_nonneg chord.x).trans xShort
      gcongr
    _ = 2 * bound * chord.normXY := by ring

/-- A vector that is near the chord turned and made a unit is upright. -/
theorem upright_of_error {normal chord : Point ℝ} {length : ℝ} (positive : 0 < length)
    (short : length ≤ 101 / 100 * chord.normXY) (xBound : |chord.x| ≤ 107 / 100 * length)
    (yBound : |chord.y| ≤ 107 / 100 * length)
    (x : |normal.x - -(side sense * chord.y) / length| ≤ 1 / 10 ^ 6)
    (y : |normal.y - side sense * chord.x / length| ≤ 1 / 10 ^ 6) : Upright normal chord sense := by
  have part {c : ℝ} (bound : |c| ≤ 107 / 100 * length) : |side sense * c / length| ≤ 107 / 100 := by
    rw [abs_div, abs_mul, abs_side, one_mul, abs_of_pos positive, div_le_iff₀ positive]
    exact bound
  have exact : side sense * (chord.x * normal.y - chord.y * normal.x) =
      chord.normXY ^ 2 / length + side sense *
        (chord.x * (normal.y - side sense * chord.x / length) -
          chord.y * (normal.x - -(side sense * chord.y) / length)) := by
    rw [chord.normXY_sq]
    field_simp
    linear_combination (chord.x ^ 2 + chord.y ^ 2) * side_sq sense
  have errors : |side sense * (chord.x * (normal.y - side sense * chord.x / length) -
      chord.y * (normal.x - -(side sense * chord.y) / length))| ≤
        2 * (1 / 10 ^ 6) * chord.normXY := by
    rw [abs_mul, abs_side, one_mul]
    exact abs_cross_le chord x y
  have whole : 100 / 101 * chord.normXY ≤ chord.normXY ^ 2 / length := by
    rw [le_div_iff₀ positive]
    nlinarith
  have normal_le {n c : ℝ} (error : |n - c| ≤ 1 / 10 ^ 6) (bound : |c| ≤ 107 / 100) :
      |n| ≤ 11 / 10 := by
    have triangle := abs_sub_abs_le_abs_sub n c
    linarith
  refine ⟨?_, normal_le x ?_, normal_le y (part xBound)⟩
  · rw [exact]
    have lower := (abs_le.mp errors).1
    linarith
  · rw [neg_div, abs_neg]
    exact part yBound

/-- The normal in doubles is upright. -/
theorem upright_drawn (accepted : Accepted start target radius) (sense : RotationSense) :
    Upright (drawn start target radius sense).normal.real (target.real - start.real) sense := by
  obtain ⟨measured, near, least⟩ := chord_of_accepted accepted
  obtain ⟨xBound, yBound⟩ := Point.coordinates_le measured least
  have small := tiny_le
  have positive : 0 < toReal (target - start).shadow.norm := least.trans_lt' (by norm_num)
  have exact {A a : ℝ} (error : |A - a| ≤ |A| / 2 ^ 53 + tiny)
      (bound : |a| ≤ 21 / 20 * toReal (target - start).shadow.norm) :
      |A| ≤ 107 / 100 * toReal (target - start).shadow.norm := by
    have size := (abs_le_of_error error).2
    linarith
  obtain ⟨x, y⟩ := normal_error accepted sense
  exact upright_of_error positive (Point.shadow_upper measured near least) (exact near.x xBound)
    (exact near.y yBound) x y

/-! ## The sagitta -/

section Exact

variable (S T : Point ℝ) {R : ℝ} (sense : RotationSense)

theorem apothem_spanned_nonneg : 0 ≤ (spanned S T R sense).apothem :=
  mul_nonneg (abs_nonneg R) (Real.sqrt_nonneg _)

/-- The shorter arc reaches no further beyond its chord than to a right angle over it. -/
theorem sagitta_spanned_le (nonneg : 0 ≤ R) (some : R ≠ 0) :
    (spanned S T R sense).sagitta R ≤ ((T - S).norm / 2) ^ 2 / R := by
  have apothem := apothem_spanned_nonneg S T (R := R) sense
  have positive : 0 < R := lt_of_le_of_ne nonneg some.symm
  have shorter : (spanned S T R sense).sagitta R =
      (T - S).norm / 2 * ((T - S).norm / 2 / (R + (spanned S T R sense).apothem)) := by
    simp only [Frame.sagitta, abs_real, le_real, zero_real, decide_eq_true nonneg, if_true,
      abs_of_nonneg nonneg]
    rw [← two_real]
    rfl
  rw [shorter, ← mul_div_assoc, ← sq]
  gcongr
  linarith

/-- The longer arc reaches less than its whole width. -/
theorem sagitta_spanned_le_of_neg (negative : R < 0) :
    (spanned S T R sense).sagitta R ≤ 2 * |R| := by
  have longer := (spanned S T R sense).sagitta_of_neg negative
  have root : √(max ((1 - (T - S).norm / 2.0 / |R|) * (1 + (T - S).norm / 2.0 / |R|)) 0) ≤ 1 := by
    have small (k : ℝ) : (1 - k) * (1 + k) ≤ 1 := by linarith [sq_nonneg k]
    exact Real.sqrt_le_one.mpr (max_le (small _) zero_le_one)
  have apothem : (spanned S T R sense).apothem ≤ |R| :=
    mul_le_of_le_one_right (abs_nonneg R) root
  linarith

end Exact

/-- A radius that is not out of all proportion reaches a finite way beyond its chord. -/
theorem Frame.Reaches.reach {f : Frame Float} (h : f.Reaches radius)
    (apothem : f.apothem = radius.abs * (f.radicand radius).sqrt)
    (moderate : |toReal radius| ≤ quarter) : (radius.abs + f.apothem).isFinite = true ∧
      |toReal radius| ≤ toReal (radius.abs + f.apothem) ∧
        toReal (radius.abs + f.apothem) ≤ 13 / 5 * |toReal radius| := by
  obtain ⟨rootFinite, rootLeast, rootMost⟩ := h.root
  have least : 1 / 10 ^ 10 ≤ toReal radius.abs := by
    linarith [h.least, h.most, toReal_leastHalf, degenerateChord_ge]
  have small := tiny_le
  rw [← toReal_abs] at moderate ⊢
  have product := mul_le_mul_of_nonneg_left rootMost h.radius_pos.le
  have nonneg := mul_nonneg h.radius_pos.le rootLeast
  have rounded := rounds_mul h.finite rootFinite
  rw [← apothem] at rounded
  have apothemFinite : f.apothem.isFinite = true := by
    refine isFinite_of_small rounded ?_
    rw [abs_of_nonneg nonneg]
    linarith
  have apothemUpper := rounded.upper apothemFinite nonneg
  have apothemLeast : 0 ≤ toReal f.apothem :=
    rounded.le_toReal apothemFinite (y := 0.0) rfl nonneg
  have sum := rounds_add h.finite apothemFinite
  have sumFinite : (radius.abs + f.apothem).isFinite = true := by
    refine isFinite_of_small sum ?_
    rw [abs_of_nonneg (by linarith)]
    linarith
  have sumUpper := sum.upper sumFinite (by linarith)
  exact ⟨sumFinite, sum.le_toReal sumFinite h.finite (by linarith), by linarith⟩

section Half

variable (accepted : Accepted start target radius) {f : Frame Float}
  (halfChord : f.halfChord = (target - start).norm / 2.0)

include accepted halfChord

theorem rounds_halfChord : Rounds (toReal (target - start).norm / 2) f.halfChord := by
  rw [halfChord]
  exact rounds_half (norm_finite_of_accepted accepted)

/-- Half a chord is short enough that half of the least double, times it, is next to nothing. -/
theorem tiny_mul_half_le : tiny * toReal f.halfChord ≤ 1 / 10 ^ 60 := by
  have measured := Point.measured_of_isFinite_norm (norm_finite_of_accepted accepted)
  obtain ⟨finite, _⟩ := measured.shadow_le
  have rounded := rounds_sqrt measured.whole measured.whole_nonneg
  have long : toReal (target - start).norm ≤
      (1 + 1 / 10 ^ 6) * √(toReal ((target - start).dot (target - start))) + tiny :=
    rounded.upper finite (Real.sqrt_nonneg _)
  have nonneg : 0 ≤ toReal (target - start).norm :=
    rounded.le_toReal finite (y := 0.0) rfl (Real.sqrt_nonneg _)
  have upper := (rounds_halfChord accepted halfChord).upper (accepted.reaches halfChord).half
    (by linarith)
  have short : toReal f.halfChord ≤ 2 * 2 ^ 512 := by
    have bound := sqrt_toReal_le measured.whole
    have one : (1 : ℝ) ≤ 2 ^ 512 := one_le_pow₀ one_le_two
    have small := tiny_le
    generalize (2 : ℝ) ^ 512 = scale at *
    linarith
  have wide : (2 : ℝ) * 2 ^ 512 ≤ 2 ^ 600 := by
    rw [← pow_succ']
    exact pow_le_pow_right₀ one_le_two (by norm_num)
  exact (mul_le_mul_of_nonneg_left (short.trans wide) tiny_pos.le).trans tiny_mul_le

/-- Half the exact chord is not much more than what is computed for it. -/
theorem half_lower : (target.real - start.real).norm / 2 ≤ 1051 / 1000 * toReal f.halfChord := by
  obtain ⟨measured, near, least⟩ := chord_of_accepted accepted
  obtain ⟨_, shadow⟩ := measured.shadow_le
  have reaches := accepted.reaches halfChord
  have lower := (rounds_halfChord accepted halfChord).lower reaches.half (by linarith)
  have norm := Point.norm_lower measured near (least.trans shadow)
  have small := tiny_le
  linarith [reaches.least, toReal_leastHalf, degenerateChord_ge]

end Half

/-- A part of a part, before and after it is rounded twice. -/
theorem part_lower {c h : Float} (part : c.isFinite = true) (whole : h.isFinite = true)
    (positive : 0 < toReal c) (le : toReal c ≤ toReal h) (short : tiny * toReal c ≤ 1 / 10 ^ 60) :
    toReal c ^ 2 / toReal h ≤ 1001 / 1000 * toReal (c * (c / h)) + 1 / 10 ^ 50 := by
  obtain ⟨finite, least, most⟩ := ratio_bounds part whole positive.le (positive.trans_le le) le
  have ratio := (rounds_div part whole (positive.trans_le le).ne').lower finite
    (div_nonneg positive.le (positive.le.trans le))
  have rounded := rounds_mul part finite
  have nonneg := mul_nonneg positive.le least
  have productFinite : (c * (c / h)).isFinite = true := by
    refine rounded.isFinite part ?_
    rw [abs_of_nonneg nonneg, abs_of_pos positive]
    exact mul_le_of_le_one_right positive.le most
  have product := rounded.lower productFinite nonneg
  have scaled := mul_le_mul_of_nonneg_left ratio positive.le
  have small := tiny_le
  have split : toReal c ^ 2 / toReal h = toReal c * (toReal c / toReal h) := by ring
  rw [split]
  linarith

/-- What is a little more than its estimate, over what is not much less than its own. -/
theorem sagitta_quotient_le {C c R h : ℝ} (nonneg : 0 ≤ C) (half : C / 2 ≤ 1051 / 1000 * c)
    (positive : 0 < h) (most : h ≤ 13 / 5 * R) : (C / 2) ^ 2 / R ≤ 288 / 100 * (c ^ 2 / h) :=
  calc (C / 2) ^ 2 / R ≤ (1051 / 1000 * c) ^ 2 / (5 / 13 * h) := by
        gcongr
        linarith
    _ = (1051 / 1000) ^ 2 / (5 / 13) * (c ^ 2 / h) := by
        rw [mul_pow, mul_div_mul_comm]
    _ ≤ 288 / 100 * (c ^ 2 / h) :=
        mul_le_mul_of_nonneg_right (by norm_num) (div_nonneg (sq_nonneg c) positive.le)

/-- How far the arc of a request reaches beyond its chord, in exact arithmetic. -/
noncomputable def rise (start target : Point Float) (radius : Float) (sense : RotationSense) : ℝ :=
  (spanned start.real target.real (toReal radius) sense).sagitta (toReal radius)

/-- **The distance beyond the chord does not vanish.** What is computed for it is no less than a
third of it. -/
theorem rise_le (accepted : Accepted start target radius) (moderate : |toReal radius| ≤ quarter)
    (sense : RotationSense) (least : 1 / 10 ^ 30 ≤ rise start target radius sense) :
    rise start target radius sense ≤
      3 * toReal ((drawn start target radius sense).sagitta radius) := by
  obtain ⟨f, framed⟩ : ∃ f, drawn start target radius sense = f := ⟨_, rfl⟩
  have halfChord : f.halfChord = (target - start).norm / 2.0 := by rw [← framed]; rfl
  have reaches := accepted.reaches halfChord
  have apothem : f.apothem = radius.abs * (f.radicand radius).sqrt := by
    rw [← reaches.radicand.2.2.2, ← framed]
    rfl
  obtain ⟨finite, lower, upper⟩ := reaches.reach apothem moderate
  have half := half_lower accepted halfChord
  have positive := reaches.half_pos
  have within := reaches.most
  rw [toReal_abs] at within
  rw [framed]
  by_cases nonneg : 0 ≤ toReal radius
  · have short : f.sagitta radius = f.halfChord * (f.halfChord / (radius.abs + f.apothem)) :=
      if_pos (le_of_toReal (x := 0.0) rfl accepted.finite nonneg)
    have part := part_lower reaches.half finite positive (within.trans lower)
      (tiny_mul_half_le accepted halfChord)
    rw [← short] at part
    rw [abs_of_nonneg nonneg] at within lower upper
    have some : 0 < toReal radius := positive.trans_le within
    have exact := sagitta_spanned_le start.real target.real sense nonneg some.ne'
    have wider := sagitta_quotient_le (C := (target.real - start.real).norm) (Real.sqrt_nonneg _)
      half (some.trans_le lower) upper
    unfold rise at least ⊢
    linarith
  · have long : f.sagitta radius = radius.abs + f.apothem := by
      refine if_neg fun le => nonneg ?_
      exact (le_iff rfl accepted.finite).mp (of_decide_eq_true le)
    have bound := sagitta_spanned_le_of_neg start.real target.real sense (not_le.mp nonneg)
    rw [long]
    unfold rise
    linarith [abs_nonneg (toReal radius)]

/-! ## A coordinate -/

section Coordinate

variable {s t n g : Float} (finite : ((s + t) / 2.0 + n * g).isFinite = true) {bound : ℝ}
  (left : |toReal s| ≤ bound) (right : |toReal t| ≤ bound) (unit : |toReal n| ≤ 11 / 10)
  (nonneg : 0 ≤ toReal g)

include left right in
theorem half_sum_error (finite : ((s + t) / 2.0).isFinite = true) :
    |toReal ((s + t) / 2.0) - (toReal s + toReal t) / 2| ≤ 3 * bound / 2 ^ 53 + 3 * tiny := by
  have sumFinite := isFinite_of_div finite
  obtain ⟨sFinite, tFinite⟩ := isFinite_of_add sumFinite
  have sum := (rounds_add sFinite tFinite).error sumFinite
  have half := (rounds_half sumFinite).error finite
  rw [abs_div, abs_two] at half
  have size := (abs_le_of_error sum).1
  have terms := abs_add_le (toReal s) (toReal t)
  have small := tiny_pos
  have positive := (abs_nonneg _).trans left
  have first : |(toReal s + toReal t) / 2 - toReal (s + t) / 2| ≤ bound / 2 ^ 53 + tiny := by
    rw [← sub_div, abs_div, abs_two]
    linarith
  have triangle := abs_sub_le (toReal ((s + t) / 2.0)) (toReal (s + t) / 2)
    ((toReal s + toReal t) / 2)
  rw [abs_sub_comm] at first half
  linarith

include finite left right unit nonneg in
/-- A coordinate beside the middle of two others. -/
theorem beside_error :
    |toReal ((s + t) / 2.0 + n * g) - ((toReal s + toReal t) / 2 + toReal n * toReal g)| ≤
      (5 * bound + 4 * toReal g) / 2 ^ 53 + 8 * tiny := by
  obtain ⟨middleFinite, productFinite⟩ := isFinite_of_add finite
  obtain ⟨nFinite, gFinite⟩ := isFinite_of_mul productFinite
  have middle := half_sum_error left right middleFinite
  have product := (rounds_mul nFinite gFinite).error productFinite
  have whole := (rounds_add middleFinite productFinite).error finite
  have short : |toReal n * toReal g| ≤ 11 / 10 * toReal g := by
    rw [abs_mul, abs_of_nonneg nonneg]
    exact mul_le_mul_of_nonneg_right unit nonneg
  have size := (abs_le_of_error product).1
  have terms := abs_add_le (toReal ((s + t) / 2.0)) (toReal (n * g))
  have small := tiny_pos
  have positive := (abs_nonneg _).trans left
  have ends := abs_add_le (toReal s) (toReal t)
  have middleSize := abs_sub_abs_le_abs_sub (toReal ((s + t) / 2.0)) ((toReal s + toReal t) / 2)
  rw [abs_div, abs_two] at middleSize
  have split : toReal ((s + t) / 2.0 + n * g) - ((toReal s + toReal t) / 2 + toReal n * toReal g) =
      -(toReal ((s + t) / 2.0) + toReal (n * g) - toReal ((s + t) / 2.0 + n * g)) +
        (toReal ((s + t) / 2.0) - (toReal s + toReal t) / 2) +
          -(toReal n * toReal g - toReal (n * g)) := by
    ring
  rw [split]
  refine (abs_add_three _ _ _).trans ?_
  rw [abs_neg, abs_neg]
  linarith

include finite unit in
/-- A coordinate strays by little against what it should differ by, if that is not too small for the
others. -/
theorem stray_le {h : ℝ} (left : |toReal s| ≤ 2 ^ 47 * h) (right : |toReal t| ≤ 2 ^ 47 * h)
    (rises : h ≤ 3 * toReal g) (least : 1 / 10 ^ 30 ≤ h) :
    |toReal ((s + t) / 2.0 + n * g) - ((toReal s + toReal t) / 2 + toReal n * toReal g)| ≤
        1 / 4 * toReal g ∧
      ((s + t) / 2.0 + n * g = (s + t) / 2.0 → |toReal n| ≤ 2 / 5) := by
  have some : 0 < toReal g := by linarith
  have small := tiny_le
  have stray := beside_error finite left right unit some.le
  refine ⟨by linarith, fun middle => ?_⟩
  have error := half_sum_error left right (isFinite_of_add finite).1
  rw [middle, ← sub_sub] at stray
  have apart := abs_sub_abs_le_abs_sub (toReal n * toReal g)
    (toReal ((s + t) / 2.0) - (toReal s + toReal t) / 2)
  rw [abs_sub_comm (toReal n * toReal g), abs_mul, abs_of_pos some] at apart
  refine le_of_mul_le_mul_right ?_ some
  linarith

end Coordinate

/-! ## Beside the chord -/

namespace Upright

variable {normal : Point ℝ} {S T : Point ℝ} (h : Upright normal (T - S) sense)
  (positive : 0 < (T - S).normXY)

include h positive

/-- An upright vector is not small in both coordinates. -/
theorem not_small : ¬(|normal.x| ≤ 2 / 5 ∧ |normal.y| ≤ 2 / 5) := by
  rintro ⟨x, y⟩
  have short := abs_cross_le (T - S) x y
  have long := h.turned.trans (le_abs_self _)
  rw [abs_mul, abs_side, one_mul] at long
  linarith

/-- A point that is nearly on the normal lies to the side of the sense. -/
theorem beside {P : Point ℝ} {g : ℝ} (some : 0 < g)
    (x : |P.x - ((S.x + T.x) / 2 + normal.x * g)| ≤ 1 / 4 * g)
    (y : |P.y - ((S.y + T.y) / 2 + normal.y * g)| ≤ 1 / 4 * g) :
    0 < side sense * ((T - S).cross (P - S)).z := by
  have split : side sense * ((T - S).cross (P - S)).z =
      g * (side sense * ((T - S).x * normal.y - (T - S).y * normal.x)) +
        side sense * ((T - S).x * (P.y - ((S.y + T.y) / 2 + normal.y * g)) -
          (T - S).y * (P.x - ((S.x + T.x) / 2 + normal.x * g))) := by
    simp only [Point.cross, Point.sub_real]
    ring
  have error : |side sense * ((T - S).x * (P.y - ((S.y + T.y) / 2 + normal.y * g)) -
      (T - S).y * (P.x - ((S.x + T.x) / 2 + normal.x * g)))| ≤
        2 * (1 / 4 * g) * (T - S).normXY := by
    rw [abs_mul, abs_side, one_mul]
    exact abs_cross_le (T - S) x y
  have turned := mul_le_mul_of_nonneg_left h.turned some.le
  have area := mul_pos some positive
  rw [split]
  linarith [(abs_le.mp error).1]

end Upright

/-! ## The law -/

/-- An arc that rises far enough over its coordinates rises far enough over the least double. -/
theorem rise_least (accepted : Accepted start target radius)
    (near : ∀ c ∈ [start.x, start.y, target.x, target.y],
      |toReal c| ≤ 2 ^ 47 * rise start target radius sense) :
    1 / 10 ^ 30 ≤ rise start target radius sense := by
  obtain ⟨measured, nearly, least⟩ := chord_of_accepted accepted
  have upper := Point.shadow_upper measured nearly least
  have short := (target.real - start.real).normXY_le
  have x : |(target.real - start.real).x| ≤ |toReal target.x| + |toReal start.x| := abs_sub _ _
  have y : |(target.real - start.real).y| ≤ |toReal target.y| + |toReal start.y| := abs_sub _ _
  simp only [List.forall_mem_cons, List.not_mem_nil, false_imp_iff, implies_true, and_true] at near
  obtain ⟨startX, startY, targetX, targetY⟩ := near
  linarith

/-- **Arcs leave their chords** where they rise over the rounding. The halfway point that is found
is not the middle of the chord that is computed, and it lies beside the chord, to the side of the
sense: the three points of the move are not on one line. -/
theorem via_off_chord (found : via start target radius sense = .ok p)
    (moderate : |toReal radius| ≤ 2 ^ 1022)
    (near : ∀ c ∈ [start.x, start.y, target.x, target.y],
      |toReal c| ≤ 2 ^ 47 * rise start target radius sense) :
    p ≠ (start + target) / (2.0 : Float) ∧
      0 < side sense * ((target.real - start.real).cross (p.real - start.real)).z := by
  obtain ⟨accepted, finite, point⟩ := drawn_of_via found
  have least := rise_least accepted near
  have rises := rise_le accepted (moderate.trans_eq quarter_eq.symm) sense least
  have upright := upright_drawn accepted sense
  generalize (drawn start target radius sense).sagitta radius = g at point rises
  generalize (drawn start target radius sense).normal = n at point upright
  have px : p.x = (start.x + target.x) / 2.0 + n.x * g := congrArg Point.x point
  have py : p.y = (start.y + target.y) / 2.0 + n.y * g := congrArg Point.y point
  obtain ⟨xFinite, yFinite, _⟩ := p.isFinite_iff_coordinates.mp finite
  simp only [List.forall_mem_cons, List.not_mem_nil, false_imp_iff, implies_true, and_true] at near
  obtain ⟨startX, startY, targetX, targetY⟩ := near
  obtain ⟨x, xMiddle⟩ := stray_le (px ▸ xFinite) upright.x startX targetX rises least
  obtain ⟨y, yMiddle⟩ := stray_le (py ▸ yFinite) upright.y startY targetY rises least
  rw [← px] at x xMiddle
  rw [← py] at y yMiddle
  have some : 0 < toReal g := by linarith
  have positive := shadow_pos accepted
  refine ⟨fun middle => upright.not_small positive ⟨xMiddle ?_, yMiddle ?_⟩,
    upright.beside positive some x y⟩
  · rw [middle]
    rfl
  · rw [middle]
    rfl

/-- A long arc a kilometre out leaves its chord, although the chord is short. -/
theorem via_off_chord_far :
    let start : Point Float := ⟨1000000.0, 0.0, 3.0⟩
    let target : Point Float := ⟨1000006.0, 0.0, 11.0⟩
    let p : Point Float := ⟨1000003.0, -25.0, 7.0⟩
    via start target (-13.0) .counterClockwise = .ok p ∧ |toReal (-13.0)| ≤ 2 ^ 1022 ∧
      (∀ c ∈ [start.x, start.y, target.x, target.y],
        |toReal c| ≤ 2 ^ 47 * rise start target (-13.0) .counterClockwise) ∧
      p ≠ (start + target) / (2.0 : Float) ∧
      0 < side .counterClockwise * ((target.real - start.real).cross (p.real - start.real)).z := by
  intro start target p
  have found : via start target (-13.0) .counterClockwise = .ok p := by decide +kernel
  have radius : toReal (-13.0) = -13 := by
    have parts : Binary.ofFloat 13.0 = .finite false (13 * 2 ^ 49) (-49) := rfl
    rw [toReal_neg, toReal_of_parts parts]
    norm_num
  have moderate : |toReal (-13.0)| ≤ 2 ^ 1022 := by
    rw [radius, abs_neg, abs_of_pos (by norm_num)]
    calc (13 : ℝ) ≤ 2 ^ 4 := by norm_num
      _ ≤ 2 ^ 1022 := pow_le_pow_right₀ one_le_two (by norm_num)
  have rises : 13 ≤ rise start target (-13.0) .counterClockwise := by
    have apothem := apothem_spanned_nonneg start.real target.real (R := -13) .counterClockwise
    unfold rise
    rw [radius, Frame.sagitta_of_neg _ (by norm_num), abs_neg, abs_of_pos (by norm_num)]
    linarith
  have near : ∀ c ∈ [start.x, start.y, target.x, target.y],
      |toReal c| ≤ 2 ^ 47 * rise start target (-13.0) .counterClockwise := by
    have first : toReal 1000000.0 = 1000000 := by
      have parts : Binary.ofFloat 1000000.0 = .finite false (15625 * 2 ^ 39) (-33) := rfl
      rw [toReal_of_parts parts]
      norm_num
    have second : toReal 1000006.0 = 1000006 := by
      have parts : Binary.ofFloat 1000006.0 = .finite false (500003 * 2 ^ 34) (-33) := rfl
      rw [toReal_of_parts parts]
      norm_num
    generalize rise start target (-13.0) .counterClockwise = h at rises ⊢
    have some : 0 ≤ h := by linarith
    simp only [start, target, List.forall_mem_cons, first, second, toReal_zero]
    norm_num
    exact ⟨by linarith, some, by linarith, some⟩
  exact ⟨found, moderate, near, via_off_chord found moderate near⟩

/-- An arc whose radius and apothem add up to no finite double is not moderate: the halfway point is
the middle of its chord. -/
theorem via_on_chord :
    let start : Point Float := ⟨0.0, 0.0, 0.0⟩
    let target : Point Float := ⟨10.0, 0.0, 0.0⟩
    via start target 1.7e308 .clockwise = .ok ((start + target) / (2.0 : Float)) := by
  decide +kernel

end Toolpath.Arc
