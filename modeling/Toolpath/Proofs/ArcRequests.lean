import Toolpath.Proofs.ArcCircle
import Toolpath.Proofs.DoubleLengths

/-!
# How a request for an arc is judged

A request for an arc is two ends, a radius and a sense, of any scalars. `Refused` gives the reasons
for which it is refused, in the order in which they are judged, and `Accepted` is the rest. `Safe`
is what makes the computation for an accepted request safe: nothing is divided by zero, no number
under a root is negative, and the clamp before the root has nothing to do.

The law (`requests_judged`) says this of doubles, where an end may be infinite or undefined and a
chord may overflow, and of real numbers. In doubles it rests on rounding keeping the order: a chord
is no shorter than its shadow, half of it reaches the least half, and a part of a whole is at most
one, also as computed.

An accepted request can still fail in doubles, where a point that was computed is not finite. That
error names the point, and it is the only one left. In real numbers there is none.
-/

namespace Toolpath

open Scalar

namespace Arc

section Judging

variable {α : Type} [Scalar α]

/-- Both ends are finite. -/
def FiniteEnds (start target : Point α) : Prop := start.isFinite = true ∧ target.isFinite = true

/-- Why a request is refused. The ends are judged first, then the chord, whatever its height and the
radius, and then the radius. -/
inductive Refused (start target : Point α) (radius : α) : GeometryError α → Prop
  | ends (infinite : ¬FiniteEnds start target) :
    Refused start target radius (.degenerate .nonFiniteEnds)
  | chord (ends : FiniteEnds start target)
    (short : lt (target - start).shadow.norm Tolerance.degenerateChord = true) :
    Refused start target radius (.degenerate (.flatChord start target))
  | radius (ends : FiniteEnds start target)
    (shadowed : le Tolerance.degenerateChord (target - start).shadow.norm = true)
    (unreached : Scalar.isFinite radius = false ∨
      lt (abs radius) ((target - start).norm / 2.0) = true) :
    Refused start target radius (.invalidArcRadius radius ((target - start).norm / 2.0))

/-- The other requests: both ends and the radius are finite, the chord has a shadow, and the radius
reaches over half the chord. -/
structure Accepted (start target : Point α) (radius : α) : Prop where
  ends : FiniteEnds start target
  shadowed : le Tolerance.degenerateChord (target - start).shadow.norm = true
  finite : Scalar.isFinite radius = true
  reached : le ((target - start).norm / 2.0) (abs radius) = true

/-- The frame of a request that is accepted. -/
def drawn (start target : Point α) (radius : α) (sense : RotationSense) : Frame α :=
  let k := (target - start).norm / 2.0 / abs radius
  { midpoint := (start + target) / (2.0 : α)
    normal := sideways (target - start) sense / (sideways (target - start) sense).norm
    halfChord := (target - start).norm / 2.0
    apothem := abs radius * sqrt (atLeastZero ((1.0 - k) * (1.0 + k))) }

/-- The comparisons by which a request is judged go one way or the other, and to turn the shadow of
a chord does not change its length. -/
structure Judgeable (start target : Point α) (radius : α) : Prop where
  turned (sense : RotationSense) :
    (sideways (target - start) sense).norm = (target - start).shadow.norm
  chord (ends : FiniteEnds start target) :
    lt (target - start).shadow.norm Tolerance.degenerateChord =
      !le Tolerance.degenerateChord (target - start).shadow.norm
  radius (ends : FiniteEnds start target) (finite : Scalar.isFinite radius = true) :
    lt (abs radius) ((target - start).norm / 2.0) =
      !le ((target - start).norm / 2.0) (abs radius)

/-- What stands under the root for the apothem: one less the square of half the chord over the
radius, in factors. -/
def Frame.radicand (f : Frame α) (radius : α) : α :=
  (1.0 - f.halfChord / abs radius) * (1.0 + f.halfChord / abs radius)

/-- What a frame is computed from, and why that is safe: no divisor is zero, no number under a root
is negative, and so nothing is clamped. -/
structure Safe (start target : Point α) (radius : α) (sense : RotationSense) (f : Frame α) :
    Prop where
  normal : f.normal =
    sideways (target - start) sense / (sideways (target - start) sense).norm
  length : le Tolerance.degenerateChord (sideways (target - start) sense).norm = true
  halfChord : f.halfChord = (target - start).norm / 2.0
  least : le 5e-10 f.halfChord = true
  reached : le f.halfChord (abs radius) = true
  ratio_nonneg : le 0.0 (f.halfChord / abs radius) = true
  ratio_le_one : le (f.halfChord / abs radius) 1.0 = true
  apothem : f.apothem = abs radius * sqrt (f.radicand radius)
  radicand : le 0.0 (f.radicand radius) = true
  squares : le 0.0 ((target - start).dot (target - start)) = true
  turnedSquares : le 0.0 ((sideways (target - start) sense).dot (sideways (target - start) sense)) =
    true
  sum : lt 0.0 (abs radius + f.apothem) = true

variable {start target : Point α} {radius : α}

/-- A request is refused for one reason. -/
theorem Refused.unique {e e' : GeometryError α} (h : Judgeable start target radius)
    (refused : Refused start target radius e) (other : Refused start target radius e') :
    e' = e := by
  cases refused with
  | ends infinite =>
    cases other with
    | ends => rfl
    | chord ends | radius ends => exact absurd ends infinite
  | chord ends short =>
    rw [h.chord ends] at short
    cases other with
    | ends infinite => exact absurd ends infinite
    | chord => rfl
    | radius _ shadowed => simp [shadowed] at short
  | radius ends shadowed =>
    cases other with
    | ends infinite => exact absurd ends infinite
    | chord _ short => simp [h.chord ends, shadowed] at short
    | radius => rfl

theorem Refused.not_accepted {e : GeometryError α} (h : Judgeable start target radius)
    (refused : Refused start target radius e) : ¬Accepted start target radius := by
  intro accepted
  cases refused with
  | ends infinite => exact infinite accepted.ends
  | chord ends short => simp [h.chord ends, accepted.shadowed] at short
  | radius ends _ unreached =>
    simp [h.radius ends accepted.finite, accepted.finite, accepted.reached] at unreached

namespace Judgeable

variable (h : Judgeable start target radius)

include h

/-- A request is accepted or refused. -/
theorem total : Accepted start target radius ∨ ∃ e, Refused start target radius e := by
  by_cases ends : FiniteEnds start target
  case neg => exact .inr ⟨_, .ends ends⟩
  by_cases shadowed : le Tolerance.degenerateChord (target - start).shadow.norm = true
  case neg => exact .inr ⟨_, .chord ends (by simp [h.chord ends, shadowed])⟩
  by_cases finite : Scalar.isFinite radius = true
  case neg => exact .inr ⟨_, .radius ends shadowed (.inl (Bool.eq_false_of_not_eq_true finite))⟩
  by_cases reached : le ((target - start).norm / 2.0) (abs radius) = true
  case neg => exact .inr ⟨_, .radius ends shadowed (.inr (by simp [h.radius ends finite, reached]))⟩
  exact .inl ⟨ends, shadowed, finite, reached⟩

theorem frame_of_refused {e : GeometryError α} (refused : Refused start target radius e)
    (sense : RotationSense) : frame start target radius sense = .error e := by
  unfold frame
  simp only [h.turned]
  cases refused with
  | ends infinite =>
    have none : (!start.isFinite || !target.isFinite) = true := by
      simpa [FiniteEnds, imp_iff_not_or] using infinite
    rw [if_pos none]
  | chord ends short =>
    rw [h.chord ends] at short
    simp [ends.1, ends.2, short]
  | radius ends shadowed unreached =>
    rcases unreached with none | short
    · simp [ends.1, ends.2, shadowed, none]
    · simp [ends.1, ends.2, shadowed, short]

theorem frame_of_accepted (accepted : Accepted start target radius) (sense : RotationSense) :
    frame start target radius sense = .ok (drawn start target radius sense) := by
  have within : lt (abs radius) ((target - start).norm / 2.0) = false := by
    simp [h.radius accepted.ends accepted.finite, accepted.reached]
  unfold frame drawn
  simp [h.turned, accepted.ends.1, accepted.ends.2, accepted.shadowed, accepted.finite, within]

/-- Both points are looked for on the frame that is drawn, and each has to be finite. -/
theorem points_of_accepted (accepted : Accepted start target radius) (sense : RotationSense) :
    ∃ p c, via start target radius sense = finite .via p ∧
      center start target radius sense = finite .center c := by
  unfold via center
  rw [h.frame_of_accepted accepted sense]
  exact ⟨_, _, rfl, rfl⟩

/-- Both points are refused for the same reason where the request is, and only there: what fails
later names the point. -/
theorem refused_iff (sense : RotationSense) (e : GeometryError α) :
    via start target radius sense = .error e ∧ center start target radius sense = .error e ↔
      Refused start target radius e := by
  constructor
  · rintro ⟨noVia, noCenter⟩
    rcases h.total with accepted | ⟨e', refused⟩
    · obtain ⟨p, c, hp, hc⟩ := h.points_of_accepted accepted sense
      rw [noVia] at hp
      rw [noCenter] at hc
      unfold finite at hp hc
      split_ifs at hp hc
      cases hp
      cases hc
    · unfold via at noVia
      rw [h.frame_of_refused refused sense] at noVia
      cases noVia
      exact refused
  · intro refused
    unfold via center
    rw [h.frame_of_refused refused sense]
    exact ⟨rfl, rfl⟩

end Judgeable

end Judging

/-! ## Requests in doubles -/

open Decimal

/-- To turn the shadow of a chord does not change the squares of its length, also as computed. -/
theorem dot_sideways_float (chord : Point Float) (sense : RotationSense) :
    (sideways chord sense).dot (sideways chord sense) = chord.shadow.dot chord.shadow := by
  cases sense with
  | clockwise =>
    show -chord.y * -chord.y + chord.x * chord.x + 0.0 * 0.0 = _
    rw [neg_mul_neg_float, add_comm_float (chord.y * chord.y)]
    rfl
  | counterClockwise =>
    show chord.y * chord.y + -chord.x * -chord.x + 0.0 * 0.0 = _
    rw [neg_mul_neg_float, add_comm_float (chord.y * chord.y)]
    rfl

theorem norm_sideways_float (chord : Point Float) (sense : RotationSense) :
    (sideways chord sense).norm = chord.shadow.norm :=
  congrArg Float.sqrt (dot_sideways_float chord sense)

section Doubles

variable {start target : Point Float} {radius : Float}

/-- The chord between finite ends is defined, if it may be infinite. -/
theorem chord_defined (ends : FiniteEnds start target) :
    (target - start).norm.isNaN = false ∧ (target - start).shadow.norm.isNaN = false := by
  obtain ⟨sx, sy, sz⟩ := (start.isFinite_iff_coordinates).mp ends.1
  obtain ⟨tx, ty, tz⟩ := (target.isFinite_iff_coordinates).mp ends.2
  have x : (target - start).x.isNaN = false := (rounds_sub tx sx).isNaN_eq_false
  have y : (target - start).y.isNaN = false := (rounds_sub ty sy).isNaN_eq_false
  have z : (target - start).z.isNaN = false := (rounds_sub tz sz).isNaN_eq_false
  have zero : (0.0 : Float).isNaN = false := rfl
  exact ⟨Point.norm_defined x y z, Point.norm_defined (p := (target - start).shadow) x y zero⟩

theorem judgeable_float (start target : Point Float) (radius : Float) :
    Judgeable start target radius where
  turned := norm_sideways_float (target - start)
  chord ends := lt_eq_not_le (chord_defined ends).2 rfl
  radius ends finite := by
    refine lt_eq_not_le (isNaN_of_isFinite ?_) (half_defined (chord_defined ends).1)
    exact (isFinite_abs radius).trans finite

/-- An infinite chord is never accepted: half of it is more than a finite radius. -/
theorem norm_finite_of_accepted (accepted : Accepted start target radius) :
    (target - start).norm.isFinite = true := by
  by_contra infinite
  have finite : radius.abs.isFinite = true := (isFinite_abs radius).trans accepted.finite
  obtain ⟨s, unpacked⟩ := exists_infinity (chord_defined accepted.ends).1
    (Bool.eq_false_of_not_eq_true infinite)
  have half : Binary.ofFloat ((target - start).norm / 2.0) = .infinite false := by
    rw [div_eq, unpacked]
    cases s with
    | positive => rfl
    | negative =>
      have sign := (target - start).sign?_norm_ne
      unfold sign? at sign
      rw [unpacked] at sign
      exact absurd rfl sign
  have beyond := (judgeable_float start target radius).radius accepted.ends accepted.finite
  rw [accepted.reached] at beyond
  exact absurd (lt_infinity finite half) (of_decide_eq_false beyond)

/-- The least half chord that is accepted is half the least chord. -/
theorem toReal_leastHalf : toReal 5e-10 * 2 = toReal Tolerance.degenerateChord := by
  have half : Binary.ofFloat 5e-10 = .finite false 4835703278458517 (-83) := by decide
  have whole : Binary.ofFloat Tolerance.degenerateChord = .finite false 4835703278458517 (-82) := by
    decide
  rw [toReal_of_parts half, toReal_of_parts whole, mul_assoc, mul_assoc,
    ← zpow_add_one₀ two_ne_zero]
  rfl

theorem toReal_leastHalf_pos : 0 < toReal 5e-10 := by
  have half : Binary.ofFloat 5e-10 = .finite false 4835703278458517 (-83) := by decide
  rw [toReal_of_parts half, if_neg Bool.false_ne_true]
  positivity

theorem degenerateChord_ge : 1 / 10 ^ 9 ≤ toReal Tolerance.degenerateChord := by
  have parts : Binary.ofFloat Tolerance.degenerateChord = .finite false 4835703278458517 (-82) := by
    decide
  rw [toReal_of_parts parts, if_neg Bool.false_ne_true]
  norm_num

/-- What is known of the half chord of a request that is accepted. -/
theorem half_of_accepted (accepted : Accepted start target radius) :
    let half := (target - start).norm / 2.0
    half.isFinite = true ∧ toReal 5e-10 ≤ toReal half ∧ toReal half ≤ toReal radius.abs := by
  intro half
  have finite := norm_finite_of_accepted accepted
  have measured := Point.measured_of_isFinite_norm finite
  have reach : radius.abs.isFinite = true := (isFinite_abs radius).trans accepted.finite
  have rounded : Rounds (toReal (target - start).norm / 2) half := rounds_half finite
  have shadowed : toReal Tolerance.degenerateChord ≤ toReal (target - start).norm :=
    ((le_iff rfl measured.rounds_shadow.1).mp (of_decide_eq_true accepted.shadowed)).trans
      measured.shadow_le.2
  have least : toReal 5e-10 ≤ toReal (target - start).norm / 2 := by
    rw [le_div_iff₀ two_pos, toReal_leastHalf]
    exact shadowed
  have positive := toReal_leastHalf_pos
  have finiteHalf : half.isFinite = true := by
    refine rounded.isFinite finite ?_
    rw [abs_of_nonneg (by linarith), abs_of_nonneg (by linarith)]
    linarith
  exact ⟨finiteHalf, rounded.le_toReal finiteHalf rfl least,
    (le_iff finiteHalf reach).mp (of_decide_eq_true accepted.reached)⟩

/-- A part of a whole is between nothing and one. -/
theorem ratio_bounds {c r : Float} (part : c.isFinite = true) (whole : r.isFinite = true)
    (least : 0 ≤ toReal c) (positive : 0 < toReal r) (le : toReal c ≤ toReal r) :
    (c / r).isFinite = true ∧ 0 ≤ toReal (c / r) ∧ toReal (c / r) ≤ 1 := by
  have rounded := rounds_div part whole positive.ne'
  have low : 0 ≤ toReal c / toReal r := div_nonneg least positive.le
  have high : toReal c / toReal r ≤ 1 := (div_le_one positive).mpr le
  have finite : (c / r).isFinite = true := by
    refine rounded.isFinite (y := 1.0) rfl ?_
    rw [toReal_one, abs_one, abs_of_nonneg low]
    exact high
  refine ⟨finite, rounded.le_toReal finite (y := 0.0) rfl low, ?_⟩
  rw [← toReal_one]
  exact rounded.toReal_le finite rfl (high.trans_eq toReal_one.symm)

/-- One less a number between nothing and one, and one more. -/
theorem factor_bounds {k : Float} (finite : k.isFinite = true) (least : 0 ≤ toReal k)
    (most : toReal k ≤ 1) :
    ((1.0 - k).isFinite = true ∧ 0 ≤ toReal (1.0 - k) ∧ toReal (1.0 - k) ≤ 1) ∧
      ((1.0 + k).isFinite = true ∧ 1 ≤ toReal (1.0 + k) ∧ toReal (1.0 + k) ≤ 2) := by
  have less := rounds_sub (x := 1.0) rfl finite
  have more := rounds_add (x := 1.0) rfl finite
  rw [toReal_one] at less more
  have lessFinite : (1.0 - k).isFinite = true := by
    refine less.isFinite (y := 1.0) rfl ?_
    rw [toReal_one, abs_one, abs_of_nonneg (by linarith)]
    linarith
  have moreFinite : (1.0 + k).isFinite = true := by
    refine more.isFinite (y := 2.0) rfl ?_
    rw [toReal_two, abs_two, abs_of_nonneg (by linarith)]
    linarith
  have lessLeast : 0 ≤ toReal (1.0 - k) :=
    less.le_toReal lessFinite (y := 0.0) rfl (by rw [toReal_zero]; linarith)
  refine ⟨⟨lessFinite, lessLeast, ?_⟩, moreFinite, ?_, ?_⟩
  · rw [← toReal_one]
    exact less.toReal_le lessFinite rfl (by rw [toReal_one]; linarith)
  · rw [← toReal_one]
    exact more.le_toReal moreFinite rfl (by rw [toReal_one]; linarith)
  · rw [← toReal_two]
    exact more.toReal_le moreFinite rfl (by rw [toReal_two]; linarith)

/-- **The clamp before the root does nothing.** The product under the root is not negative, and it
is the zero that the clamp would put there where it is nothing. -/
theorem radicand_bounds {k : Float} (finite : k.isFinite = true) (least : 0 ≤ toReal k)
    (most : toReal k ≤ 1) :
    ((1.0 - k) * (1.0 + k)).isFinite = true ∧ 0 ≤ toReal ((1.0 - k) * (1.0 + k)) ∧
      toReal ((1.0 - k) * (1.0 + k)) ≤ 2 ∧
      atLeastZero ((1.0 - k) * (1.0 + k)) = (1.0 - k) * (1.0 + k) := by
  obtain ⟨⟨lessFinite, lessLeast, lessMost⟩, moreFinite, moreLeast, moreMost⟩ :=
    factor_bounds finite least most
  have rounded := rounds_mul lessFinite moreFinite
  have small : toReal (1.0 - k) * toReal (1.0 + k) ≤ toReal 2.0 := by
    rw [toReal_two]
    exact (mul_le_of_le_one_left (by linarith) lessMost).trans moreMost
  have productFinite : ((1.0 - k) * (1.0 + k)).isFinite = true := by
    refine rounded.isFinite (y := 2.0) rfl ?_
    rw [abs_of_nonneg (by positivity)]
    exact small.trans (le_abs_self _)
  refine ⟨productFinite, rounded.le_toReal productFinite (y := 0.0) rfl
    (mul_nonneg lessLeast (by linarith)),
    (rounded.toReal_le productFinite rfl small).trans_eq toReal_two, ?_⟩
  rcases most.eq_or_lt with full | below
  · have one : k = 1.0 :=
      eq_of_toReal_eq finite rfl (full.trans toReal_one.symm) (by rw [full]; exact one_ne_zero)
    rw [one]
    rfl
  · have some : 0 < toReal (1.0 - k) :=
      toReal_sub_pos finite rfl lessFinite (below.trans_eq toReal_one.symm)
    have product : toReal (1.0 - k) ≤ toReal ((1.0 - k) * (1.0 + k)) :=
      rounded.le_toReal productFinite lessFinite (le_mul_of_one_le_right some.le moreLeast)
    have positive : 0.0 < (1.0 - k) * (1.0 + k) :=
      (lt_iff rfl productFinite).mpr (some.trans_le product)
    exact if_pos (decide_eq_true positive)

/-- A finite radius and what reaches beyond it are more than nothing, if they overflow. -/
theorem sum_pos {r s : Float} (radius : r.isFinite = true) (root : s.isFinite = true)
    (positive : 0 < toReal r) (least : 0 ≤ toReal s) : 0.0 < r + r * s := by
  have product := rounds_mul radius root
  have reach : 0 ≤ toReal r * toReal s := mul_nonneg positive.le least
  by_cases finite : (r * s).isFinite = true
  · have apothem : 0 ≤ toReal (r * s) := product.le_toReal finite (y := 0.0) rfl reach
    exact (rounds_add radius finite).pos radius positive (by linarith)
  · exact lt_infinity rfl (add_infinity radius (product.infinite reach finite))

/-- What the numbers of a frame rest on: its half chord is finite and not too small, and a finite
radius reaches over it. -/
structure Frame.Reaches (f : Frame Float) (radius : Float) : Prop where
  finite : radius.abs.isFinite = true
  half : f.halfChord.isFinite = true
  least : toReal 5e-10 ≤ toReal f.halfChord
  most : toReal f.halfChord ≤ toReal radius.abs

theorem Accepted.reaches (accepted : Accepted start target radius) {f : Frame Float}
    (halfChord : f.halfChord = (target - start).norm / 2.0) : f.Reaches radius := by
  obtain ⟨finite, least, most⟩ := half_of_accepted accepted
  rw [← halfChord] at finite least most
  exact ⟨(isFinite_abs radius).trans accepted.finite, finite, least, most⟩

namespace Frame.Reaches

variable {f : Frame Float} (h : f.Reaches radius)

include h

theorem half_pos : 0 < toReal f.halfChord := toReal_leastHalf_pos.trans_le h.least

theorem radius_pos : 0 < toReal radius.abs := h.half_pos.trans_le h.most

theorem ratio : (f.halfChord / radius.abs).isFinite = true ∧
    0 ≤ toReal (f.halfChord / radius.abs) ∧ toReal (f.halfChord / radius.abs) ≤ 1 :=
  ratio_bounds h.half h.finite h.half_pos.le h.radius_pos h.most

theorem radicand : (f.radicand radius).isFinite = true ∧ 0 ≤ toReal (f.radicand radius) ∧
    toReal (f.radicand radius) ≤ 2 ∧ atLeastZero (f.radicand radius) = f.radicand radius :=
  radicand_bounds h.ratio.1 h.ratio.2.1 h.ratio.2.2

/-- The factor of the radius in the apothem. -/
theorem root : (f.radicand radius).sqrt.isFinite = true ∧ 0 ≤ toReal (f.radicand radius).sqrt ∧
    toReal (f.radicand radius).sqrt ≤ 3 / 2 := by
  obtain ⟨finite, least, most, _⟩ := h.radicand
  have rounded := rounds_sqrt finite least
  have rootFinite := isFinite_sqrt finite least
  have bound : toReal 1.5 = 3 / 2 := by
    have parts : Binary.ofFloat 1.5 = .finite false (3 * 2 ^ 51) (-52) := rfl
    rw [toReal_of_parts parts]
    norm_num
  refine ⟨rootFinite, rounded.le_toReal rootFinite (y := 0.0) rfl (Real.sqrt_nonneg _), ?_⟩
  rw [← bound]
  refine rounded.toReal_le rootFinite rfl ?_
  rw [bound, Real.sqrt_le_left (by norm_num)]
  linarith

end Frame.Reaches

/-- What an accepted request computes in doubles is safe. -/
theorem safe_float (accepted : Accepted start target radius) {sense : RotationSense}
    {f : Frame Float} (normal : f.normal =
      sideways (target - start) sense / (sideways (target - start) sense).norm)
    (halfChord : f.halfChord = (target - start).norm / 2.0)
    (apothem : f.apothem = radius.abs * (atLeastZero (f.radicand radius)).sqrt) :
    Safe start target radius sense f := by
  have measured := Point.measured_of_isFinite_norm (norm_finite_of_accepted accepted)
  have reaches := accepted.reaches halfChord
  have reached := accepted.reached
  rw [← halfChord] at reached
  obtain ⟨ratioFinite, ratioLeast, ratioMost⟩ := reaches.ratio
  obtain ⟨radicandFinite, radicandLeast, _, unclamped⟩ := reaches.radicand
  rw [unclamped] at apothem
  refine ⟨normal, ?_, halfChord, ?_, reached, ?_, ?_, apothem, ?_, ?_, ?_, ?_⟩
  · rw [norm_sideways_float]
    exact accepted.shadowed
  · exact le_of_toReal rfl reaches.half reaches.least
  · exact le_of_toReal rfl ratioFinite ratioLeast
  · exact le_of_toReal ratioFinite rfl (ratioMost.trans_eq toReal_one.symm)
  · exact le_of_toReal rfl radicandFinite radicandLeast
  · exact le_of_toReal rfl measured.whole measured.whole_nonneg
  · obtain ⟨finite, same⟩ := measured.shadow_squares
    rw [dot_sideways_float]
    exact le_of_toReal rfl finite (measured.level_nonneg.trans_eq same.symm)
  · rw [apothem]
    exact decide_eq_true
      (sum_pos reaches.finite reaches.root.1 reaches.radius_pos reaches.root.2.1)

/-- A radius of zero is never accepted. -/
theorem not_accepted_of_zero_float (zero : Scalar.eq radius 0.0 = true) :
    ¬Accepted start target radius := by
  intro accepted
  obtain ⟨_, halfLeast, halfMost⟩ := half_of_accepted accepted
  have positive := toReal_leastHalf_pos
  rw [toReal_abs, toReal_eq_zero_of_eq zero, abs_zero] at halfMost
  linarith

end Doubles

/-! ## Requests in real numbers -/

section Reals

variable {start target : Point ℝ} {radius : ℝ}

theorem norm_shadow_real (v : Point ℝ) : v.shadow.norm = v.normXY := by
  rw [Point.norm_real, Point.normXY_real]
  simp [Point.shadow, zero_real]

theorem judgeable_real (start target : Point ℝ) (radius : ℝ) : Judgeable start target radius where
  turned sense := (norm_sideways _ sense).trans (norm_shadow_real _).symm
  chord _ := by
    rw [lt_real, le_real, ← decide_not, decide_eq_decide, not_le]
  radius _ _ := by
    rw [lt_real, le_real, ← decide_not, decide_eq_decide, not_le]

theorem drawable_of_accepted (accepted : Accepted start target radius) :
    Drawable start target radius where
  shadowed := by
    have shadowed := of_decide_eq_true accepted.shadowed
    rwa [norm_shadow_real] at shadowed
  reached := by
    have reached := of_decide_eq_true accepted.reached
    rwa [two_real] at reached

theorem dot_real_nonneg (v : Point ℝ) : 0 ≤ v.dot v :=
  add_nonneg (add_nonneg (mul_self_nonneg v.x) (mul_self_nonneg v.y)) (mul_self_nonneg v.z)

/-- What an accepted request computes in real numbers is safe. -/
theorem safe_real (accepted : Accepted start target radius) {sense : RotationSense}
    {f : Frame ℝ} (normal : f.normal =
      sideways (target - start) sense / (sideways (target - start) sense).norm)
    (halfChord : f.halfChord = (target - start).norm / 2.0)
    (apothem : f.apothem = |radius| * √(atLeastZero (f.radicand radius))) :
    Safe start target radius sense f := by
  have drawable := drawable_of_accepted accepted
  have half : f.halfChord = (target - start).norm / 2 := halfChord.trans (by rw [two_real])
  have least : (5e-10 : ℝ) ≤ f.halfChord := by
    have chord_le := (target - start).normXY_le_norm
    have shadowed : (1e-9 : ℝ) ≤ (target - start).normXY := drawable.shadowed
    rw [half]
    norm_num at shadowed ⊢
    linarith
  have reached : f.halfChord ≤ |radius| := half.trans_le drawable.reached
  have positive : 0 < f.halfChord := by
    norm_num at least
    linarith
  have reach_pos : 0 < |radius| := positive.trans_le reached
  have ratio_nonneg : 0 ≤ f.halfChord / |radius| := div_nonneg positive.le reach_pos.le
  have ratio_le : f.halfChord / |radius| ≤ 1 := (div_le_one reach_pos).mpr reached
  have radicand_nonneg : 0 ≤ f.radicand radius := by
    have factors : f.radicand radius =
        (1.0 - f.halfChord / |radius|) * (1.0 + f.halfChord / |radius|) := rfl
    rw [factors, one_real]
    exact mul_nonneg (by linarith) (by linarith)
  rw [atLeastZero_real, max_eq_left radicand_nonneg] at apothem
  refine ⟨normal, ?_, halfChord, decide_eq_true least, decide_eq_true reached, ?_, ?_, apothem,
    ?_, ?_, ?_, ?_⟩
  · rw [(judgeable_real start target radius).turned]
    exact accepted.shadowed
  · exact decide_eq_true (zero_real.trans_le ratio_nonneg)
  · exact decide_eq_true (ratio_le.trans_eq one_real.symm)
  · exact decide_eq_true (zero_real.trans_le radicand_nonneg)
  · exact decide_eq_true (zero_real.trans_le (dot_real_nonneg _))
  · exact decide_eq_true (zero_real.trans_le (dot_real_nonneg _))
  · have sum : 0 < |radius| + f.apothem := by
      rw [apothem]
      positivity
    exact decide_eq_true (zero_real.trans_lt sum)

theorem not_accepted_of_zero_real (zero : Scalar.eq radius 0.0 = true) :
    ¬Accepted start target radius := by
  intro accepted
  have drawable := drawable_of_accepted accepted
  have positive := drawable.shadow_pos.trans_le (target - start).normXY_le_norm
  have reached := drawable.reached
  rw [of_decide_eq_true zero, zero_real, abs_zero] at reached
  linarith

end Reals

/-! ## The law -/

section Law

variable {α : Type} [Scalar α]

/-- How a request is judged, on some scalars. -/
structure Judged (start target : Point α) (radius : α) (sense : RotationSense) : Prop where
  /-- A request is accepted or refused. -/
  total : Accepted start target radius ∨ ∃ e, Refused start target radius e
  /-- It is not both, and it is refused for one reason. -/
  exclusive (e : GeometryError α) (refused : Refused start target radius e) :
    ¬Accepted start target radius ∧ ∀ e', Refused start target radius e' → e' = e
  /-- Both points are refused for the same reason, which is that of the request. -/
  refused (e : GeometryError α) :
    via start target radius sense = .error e ∧ center start target radius sense = .error e ↔
      Refused start target radius e
  /-- For an accepted request both points are computed, safely, and are then only asked to be
  finite. -/
  accepted (accepted : Accepted start target radius) :
    ∃ f p c, frame start target radius sense = .ok f ∧ Safe start target radius sense f ∧
      via start target radius sense = finite .via p ∧
      center start target radius sense = finite .center c
  /-- A radius of zero is refused. -/
  zero (zero : Scalar.eq radius 0.0 = true) : ∃ e, Refused start target radius e

/-- From the comparisons, and from what is safe. -/
theorem Judgeable.judged {start target : Point α} {radius : α} {sense : RotationSense}
    (h : Judgeable start target radius)
    (safe : Accepted start target radius →
      Safe start target radius sense (drawn start target radius sense))
    (zero : Scalar.eq radius 0.0 = true → ¬Accepted start target radius) :
    Judged start target radius sense where
  total := h.total
  exclusive _ refused := ⟨refused.not_accepted h, fun _ other => refused.unique h other⟩
  refused := h.refused_iff sense
  accepted accepted := by
    obtain ⟨p, c, found, centred⟩ := h.points_of_accepted accepted sense
    exact ⟨_, p, c, h.frame_of_accepted accepted sense, safe accepted, found, centred⟩
  zero none := h.total.resolve_left (zero none)

end Law

/-- **Every request for an arc is judged once, and what is computed for it is safe.** In doubles,
whatever the ends and the radius are, and in real numbers, where both points of an accepted request
are found. -/
theorem requests_judged :
    (∀ (start target : Point Float) (radius : Float) (sense : RotationSense),
      Judged start target radius sense) ∧
    ∀ (start target : Point ℝ) (radius : ℝ) (sense : RotationSense),
      Judged start target radius sense ∧
      (Accepted start target radius → ∃ p c, via start target radius sense = .ok p ∧
        center start target radius sense = .ok c) := by
  constructor
  · intro start target radius sense
    exact (judgeable_float start target radius).judged
      (fun accepted => safe_float accepted rfl rfl rfl) not_accepted_of_zero_float
  · intro start target radius sense
    refine ⟨(judgeable_real start target radius).judged
      (fun accepted => safe_real accepted rfl rfl rfl) not_accepted_of_zero_real, ?_⟩
    intro accepted
    have drawable := drawable_of_accepted accepted
    obtain ⟨p, found⟩ := exists_via.mpr drawable
    obtain ⟨c, centred⟩ := exists_center.mpr drawable
    exact ⟨p, c, found, centred⟩

/-- A chord that climbs forty millimetres is refused for a radius that is undefined, and accepted
for one that reaches just over its half. -/
theorem requests_judged_climbing :
    let start : Point Float := ⟨0.0, 0.0, 0.0⟩
    let target : Point Float := ⟨30.0, 0.0, 40.0⟩
    let undefined : Float := 0.0 / 0.0
    let e : GeometryError Float := .invalidArcRadius undefined 25.0
    Refused start target undefined e ∧
      via start target undefined .clockwise = .error e ∧
      center start target undefined .clockwise = .error e ∧
      Accepted start target 25.0 ∧
      ∃ f, frame start target 25.0 .clockwise = .ok f ∧ Safe start target 25.0 .clockwise f := by
  intro start target undefined e
  have ends : FiniteEnds start target := ⟨by decide, by decide⟩
  have shadowed : le Tolerance.degenerateChord (target - start).shadow.norm = true :=
    by decide +kernel
  have half : (target - start).norm / 2.0 = 25.0 := by decide +kernel
  have refused : Refused start target undefined e := by
    have unreached : Refused start target undefined _ :=
      .radius ends shadowed (.inl (by decide))
    rwa [half] at unreached
  have accepted : Accepted start target 25.0 := ⟨ends, shadowed, rfl, by rw [half]; decide⟩
  have judged := requests_judged.1 start target undefined .clockwise
  obtain ⟨noVia, noCenter⟩ := (judged.refused e).mpr refused
  obtain ⟨f, _, _, framed, safe, _⟩ :=
    (requests_judged.1 start target 25.0 .clockwise).accepted accepted
  exact ⟨refused, noVia, noCenter, accepted, f, framed, safe⟩

end Arc

end Toolpath
