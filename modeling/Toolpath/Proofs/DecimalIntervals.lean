import Toolpath.Decimal.Shortest
import Toolpath.Proofs.NearestDouble

/-!
# The interval of a double

The numbers that are rounded to a double form an interval, and the shortest decimal is looked for
there: the search walks decimal grids from coarse to fine until one has a point in the interval. It
ends at such a point (`holds_shortest`), because seventeen digits make a grid that is finer than the
interval is wide. And a point in the interval is rounded to the double (`nearest_of_holds`).

That no decimal with fewer digits would do, which is what gives the layout its name, is not shown
here.
-/

namespace Toolpath.Decimal

/-! ## Quotients -/

theorem lt_pow_digitCount (n : Nat) : n < 10 ^ digitCount n :=
  (Nat.length_toDigits_le_iff (by decide) Nat.length_toDigits_pos).mp le_rfl

theorem pow_digitCount_le {n : Nat} (positive : 0 < n) : 10 ^ (digitCount n - 1) ≤ n := by
  by_contra less
  rcases Nat.eq_zero_or_pos (digitCount n - 1) with single | more
  · rw [single] at less
    omega
  · have fewer : digitCount n ≤ digitCount n - 1 :=
      (Nat.length_toDigits_le_iff (by decide) more).mpr (not_le.mp less)
    omega

namespace Ratio

/-- The number that a quotient stands for. -/
noncomputable def value (r : Ratio) : ℝ := r.num / r.den

theorem value_ofBinary (m : Nat) (e : Int) : (ofBinary m e).value = m * 2 ^ e := by
  unfold ofBinary value
  split_ifs with whole
  · obtain ⟨n, rfl⟩ := Int.eq_ofNat_of_zero_le whole
    show ((m * 2 ^ n : Nat) : ℝ) / (1 : Nat) = m * 2 ^ (n : Int)
    rw [Nat.cast_one, div_one, zpow_natCast]
    push_cast
    rfl
  · obtain ⟨n, negative⟩ := Int.eq_ofNat_of_zero_le (a := -e) (by omega)
    obtain rfl : e = -(n : Int) := by omega
    show (m : ℝ) / ((2 ^ (- -(n : Int)).toNat : Nat) : ℝ) = m * 2 ^ (-(n : Int))
    rw [neg_neg, Int.toNat_natCast, zpow_neg, zpow_natCast, ← div_eq_mul_inv]
    push_cast
    rfl

theorem value_shift (r : Ratio) (place : Int) : (r.shift place).value = r.value / 10 ^ place := by
  unfold shift value
  split_ifs with whole
  · obtain ⟨n, rfl⟩ := Int.eq_ofNat_of_zero_le whole
    show (r.num : ℝ) / ((r.den * 10 ^ n : Nat) : ℝ) = r.num / r.den / 10 ^ (n : Int)
    rw [zpow_natCast, div_div]
    push_cast
    rfl
  · obtain ⟨n, negative⟩ := Int.eq_ofNat_of_zero_le (a := -place) (by omega)
    obtain rfl : place = -(n : Int) := by omega
    show ((r.num * 10 ^ (- -(n : Int)).toNat : Nat) : ℝ) / r.den = r.num / r.den / 10 ^ (-(n : Int))
    rw [neg_neg, Int.toNat_natCast, zpow_neg, zpow_natCast, div_inv_eq_mul, div_mul_eq_mul_div]
    push_cast
    rfl

theorem den_ofBinary_pos (m : Nat) (e : Int) : 0 < (ofBinary m e).den := by
  unfold ofBinary
  split_ifs
  · exact Nat.one_pos
  · exact Nat.pow_pos (by decide)

theorem den_shift_pos {r : Ratio} (positive : 0 < r.den) (place : Int) :
    0 < (r.shift place).den := by
  unfold shift
  split_ifs
  · exact Nat.mul_pos positive (Nat.pow_pos (by decide))
  · exact positive

/-- The denominator depends on the two exponents alone. -/
theorem den_shift_ofBinary (m n : Nat) (e place : Int) :
    ((ofBinary m e).shift place).den = ((ofBinary n e).shift place).den := by
  unfold ofBinary shift
  split_ifs <;> rfl

/-- The leading digit of a quotient is no smaller than its place says. -/
theorem pow_leadingPlace_le {r : Ratio} (num : 0 < r.num) (den : 0 < r.den) :
    (10 : ℝ) ^ r.leadingPlace ≤ r.value := by
  unfold leadingPlace
  dsimp only
  split_ifs with reached
  · have positive : (0 : ℝ) < (r.shift (digitCount r.num - digitCount r.den)).den := by
      exact_mod_cast den_shift_pos den _
    have cast : ((r.shift (digitCount r.num - digitCount r.den)).den : ℝ) ≤
        (r.shift (digitCount r.num - digitCount r.den)).num := by exact_mod_cast reached
    have atLeastOne := (one_le_div positive).mpr cast
    have shifted := value_shift r (digitCount r.num - digitCount r.den)
    rw [value] at shifted
    rw [shifted] at atLeastOne
    exact (one_le_div (by positivity)).mp atLeastOne
  · have lower : (10 : ℝ) ^ (digitCount r.num - 1) ≤ r.num := by
      exact_mod_cast pow_digitCount_le num
    have upper : (r.den : ℝ) ≤ 10 ^ digitCount r.den := by
      exact_mod_cast (lt_pow_digitCount r.den).le
    have digits : 0 < digitCount r.num := Nat.length_toDigits_pos
    have places : (digitCount r.num : Int) - digitCount r.den - 1 =
        (digitCount r.num - 1 : Nat) - (digitCount r.den : Nat) := by omega
    have positive : (0 : ℝ) < r.den := by exact_mod_cast den
    calc (10 : ℝ) ^ ((digitCount r.num : Int) - digitCount r.den - 1)
        = 10 ^ (digitCount r.num - 1) / 10 ^ digitCount r.den := by
          rw [places, zpow_sub₀ (by norm_num), zpow_natCast, zpow_natCast]
      _ ≤ r.num / r.den := by gcongr

end Ratio

/-! ## The interval of a double -/

/-- One number is below another, or level with it where that counts. -/
def Reaches (closed : Bool) (a b : ℝ) : Prop := a < b ∨ closed = true ∧ a = b

theorem Reaches.of_lt {closed : Bool} {a b : ℝ} (less : a < b) : Reaches closed a b := .inl less

theorem Reaches.le {closed : Bool} {a b : ℝ} (h : Reaches closed a b) : a ≤ b :=
  h.elim le_of_lt fun level => level.2.le

theorem Reaches.trans_le {closed : Bool} {a b c : ℝ} (h : Reaches closed a b) (more : b ≤ c) :
    Reaches closed a c := by
  rcases more.eq_or_lt with rfl | less
  · exact h
  · exact .inl (h.le.trans_lt less)

theorem Reaches.le_trans {closed : Bool} {a b c : ℝ} (h : Reaches closed b c) (less : a ≤ b) :
    Reaches closed a c := by
  rcases less.eq_or_lt with rfl | less
  · exact h
  · exact .inl (less.trans_le h.le)

/-- The comparison of integers is that of the quotients they are numerators of. -/
theorem reaches_iff {closed : Bool} {a b den : Nat} (positive : 0 < den) :
    reaches closed a b = true ↔ Reaches closed ((a : ℝ) / den) (b / den) := by
  have scale : (0 : ℝ) < den := by exact_mod_cast positive
  unfold reaches Reaches
  rw [Bool.or_eq_true, decide_eq_true_iff, Bool.and_eq_true, beq_iff_eq,
    div_lt_div_iff_of_pos_right scale, div_left_inj' scale.ne', Nat.cast_lt, Nat.cast_inj]

namespace Interval

variable {i : Interval} {place : Int}

/-- A number lies in an interval. -/
structure Holds (i : Interval) (q : ℝ) : Prop where
  lower : Reaches i.closed (i.low * 2 ^ i.exponent) q
  upper : Reaches i.closed q (i.high * 2 ^ i.exponent)

/-- The value of an interval lies between its ends. -/
structure Proper (i : Interval) : Prop where
  below : i.low < i.value
  above : i.value < i.high

/-- The point of a grid, taken to the interval's scale. -/
theorem div_den_ofBinary (m : Nat) (e place : Int) :
    (((Ratio.ofBinary m e).shift place).num : ℝ) / ((Ratio.ofBinary m e).shift place).den =
      m * 2 ^ e / 10 ^ place := by
  rw [← Ratio.value_ofBinary, ← Ratio.value_shift, Ratio.value]

/-- A point of a grid fits below: it is not under the lower end. -/
theorem lowerFits_iff (n : Nat) :
    reaches i.closed ((Ratio.ofBinary i.low i.exponent).shift place).num
        (n * ((Ratio.ofBinary i.value i.exponent).shift place).den) = true ↔
      Reaches i.closed (i.low * 2 ^ i.exponent) (n * 10 ^ place) := by
  have positive := Ratio.den_shift_pos (Ratio.den_ofBinary_pos i.low i.exponent) place
  have scale : (((Ratio.ofBinary i.low i.exponent).shift place).den : ℝ) ≠ 0 := by
    exact_mod_cast positive.ne'
  have power : (0 : ℝ) < 10 ^ place := by positivity
  rw [Ratio.den_shift_ofBinary i.value i.low, reaches_iff positive, div_den_ofBinary, Nat.cast_mul,
    mul_div_cancel_right₀ _ scale]
  unfold Reaches
  rw [div_lt_iff₀ power, div_eq_iff power.ne']

/-- A point of a grid fits above: it is not over the upper end. -/
theorem upperFits_iff (n : Nat) :
    reaches i.closed (n * ((Ratio.ofBinary i.value i.exponent).shift place).den)
        ((Ratio.ofBinary i.high i.exponent).shift place).num = true ↔
      Reaches i.closed (n * 10 ^ place) (i.high * 2 ^ i.exponent) := by
  have positive := Ratio.den_shift_pos (Ratio.den_ofBinary_pos i.high i.exponent) place
  have scale : (((Ratio.ofBinary i.high i.exponent).shift place).den : ℝ) ≠ 0 := by
    exact_mod_cast positive.ne'
  have power : (0 : ℝ) < 10 ^ place := by positivity
  rw [Ratio.den_shift_ofBinary i.value i.high, reaches_iff positive, div_den_ofBinary, Nat.cast_mul,
    mul_div_cancel_right₀ _ scale]
  unfold Reaches
  rw [lt_div_iff₀ power, eq_div_iff power.ne']

/-- The two neighbours of the value on a grid. -/
theorem neighbours (i : Interval) (place : Int) :
    let value := (Ratio.ofBinary i.value i.exponent).shift place
    ((value.num / value.den : Nat) : ℝ) * 10 ^ place ≤ i.value * 2 ^ i.exponent ∧
      i.value * 2 ^ i.exponent < ((value.num / value.den + 1 : Nat) : ℝ) * 10 ^ place := by
  intro value
  have positive : 0 < value.den := Ratio.den_shift_pos (Ratio.den_ofBinary_pos _ _) place
  have scale : (0 : ℝ) < value.den := by exact_mod_cast positive
  have power : (0 : ℝ) < 10 ^ place := by positivity
  have same : (value.num : ℝ) / value.den = i.value * 2 ^ i.exponent / 10 ^ place :=
    div_den_ofBinary i.value i.exponent place
  rw [← le_div_iff₀ power, ← div_lt_iff₀ power, ← same, le_div_iff₀ scale, div_lt_iff₀ scale]
  exact ⟨by exact_mod_cast Nat.div_mul_le_self _ _,
    by exact_mod_cast Nat.lt_mul_of_div_lt (Nat.lt_succ_self _) positive⟩

/-- The point of a grid that is chosen lies in the interval. -/
theorem holds_of_nearest? (proper : i.Proper) {n : Nat} (found : i.nearest? place = some n) :
    i.Holds (n * 10 ^ place) := by
  have power : (0 : ℝ) < 2 ^ i.exponent := by positivity
  have below : (i.low : ℝ) * 2 ^ i.exponent < i.value * 2 ^ i.exponent :=
    mul_lt_mul_of_pos_right (by exact_mod_cast proper.below) power
  have above : (i.value : ℝ) * 2 ^ i.exponent < i.high * 2 ^ i.exponent :=
    mul_lt_mul_of_pos_right (by exact_mod_cast proper.above) power
  obtain ⟨floor, ceiling⟩ := neighbours i place
  -- the neighbour below need only reach the lower end, and the one above the upper
  have lower (fits : _) := Holds.mk (i := i) ((lowerFits_iff _).mp fits)
    (.of_lt (floor.trans_lt above))
  have upper (fits : _) := Holds.mk (i := i) (.of_lt (below.trans ceiling))
    ((upperFits_iff _).mp fits)
  unfold nearest? at found
  dsimp only at found
  split at found
  next lowerFits upperFits =>
    split at found
    · cases found
      exact lower lowerFits
    · cases found
      exact upper upperFits
  next lowerFits _ =>
    cases found
    exact lower lowerFits
  next _ upperFits =>
    cases found
    exact upper upperFits
  next => cases found

/-- Where a grid has a point in the interval, one is found. -/
theorem nearest?_ne_none {n : Nat} (holds : i.Holds (n * 10 ^ place)) :
    i.nearest? place ≠ none := by
  have power : (0 : ℝ) ≤ 10 ^ place := by positivity
  intro missed
  unfold nearest? at missed
  dsimp only at missed
  split at missed
  next => cases missed
  next => cases missed
  next => cases missed
  next lowerMisses upperMisses =>
    generalize hbelow : ((Ratio.ofBinary i.value i.exponent).shift place).num /
      ((Ratio.ofBinary i.value i.exponent).shift place).den = below at *
    rcases Nat.lt_or_ge below n with above | atMost
    · have point : ((below + 1 : Nat) : ℝ) * 10 ^ place ≤ n * 10 ^ place := by
        gcongr
        exact above
      have fits := (upperFits_iff (below + 1)).mpr (holds.upper.le_trans point)
      rw [fits] at upperMisses
      cases upperMisses
    · have point : (n : ℝ) * 10 ^ place ≤ below * 10 ^ place := by gcongr
      have fits := (lowerFits_iff below).mpr (holds.lower.trans_le point)
      rw [fits] at lowerMisses
      cases lowerMisses

end Interval

/-- The number that a decimal stands for. -/
noncomputable def Digits.value (d : Digits) : ℝ := d.coefficient * ((10 : Nat) : ℝ) ^ d.exponent

theorem Digits.value_eq (d : Digits) : d.value = d.coefficient * 10 ^ d.exponent := by
  rw [Digits.value, Nat.cast_ofNat]

/-- The walk over the grids ends in the interval where one of them has a point there. -/
theorem Interval.holds_search {i : Interval} (proper : i.Proper) {fuel steps n : Nat} {place : Int}
    (within : steps < fuel) (point : i.Holds (n * 10 ^ (place - steps))) :
    i.Holds (i.search fuel place).value := by
  induction fuel generalizing steps place with
  | zero => exact absurd within (Nat.not_lt_zero _)
  | succ fuel ih =>
    unfold Interval.search
    cases found : i.nearest? place with
    | some n =>
      rw [Digits.value_eq]
      exact holds_of_nearest? proper found
    | none =>
      cases steps with
      | zero =>
        rw [Nat.cast_zero, sub_zero] at point
        exact absurd found (nearest?_ne_none point)
      | succ steps =>
        have next : place - (steps + 1 : Nat) = place - 1 - steps := by omega
        rw [next] at point
        exact ih (by omega) point

/-! ## Seventeen digits are enough -/

/-- An interval that is wider than a grid's step has a point of the grid inside. -/
theorem exists_step_between {low high step : ℝ} (positive : 0 < step) (nonneg : 0 ≤ low)
    (wide : step < high - low) : ∃ n : Nat, low < n * step ∧ n * step < high := by
  refine ⟨⌊low / step⌋₊ + 1, ?_, ?_⟩
  · have above := (div_lt_iff₀ positive).mp (Nat.lt_floor_add_one (low / step))
    exact_mod_cast above
  · have floor := (le_div_iff₀ positive).mp (Nat.floor_le (div_nonneg nonneg positive.le))
    push_cast
    linarith

section Double

variable {m : Nat} {e : Int}

theorem low_ofBinary (positive : 0 < m) :
    ((Interval.ofBinary m e).low : ℝ) * 2 ^ (Interval.ofBinary m e).exponent =
      (m - if m = firstNormalMantissa ∧ leastExponent < e then 1 / 4 else 1 / 2) * 2 ^ e := by
  have quarter : (2 : ℝ) ^ (e - 2) = 2 ^ e / 4 := by
    rw [zpow_sub₀ two_ne_zero]
    norm_num
  unfold Interval.ofBinary
  dsimp only
  rw [quarter]
  split_ifs
  · rw [Nat.cast_sub (by omega)]
    push_cast
    ring
  · rw [Nat.cast_sub (by omega)]
    push_cast
    ring

theorem value_ofBinary :
    ((Interval.ofBinary m e).value : ℝ) * 2 ^ (Interval.ofBinary m e).exponent = m * 2 ^ e := by
  unfold Interval.ofBinary
  dsimp only
  rw [zpow_sub₀ two_ne_zero]
  push_cast
  ring

theorem high_ofBinary :
    ((Interval.ofBinary m e).high : ℝ) * 2 ^ (Interval.ofBinary m e).exponent =
      (m + 1 / 2) * 2 ^ e := by
  unfold Interval.ofBinary
  dsimp only
  rw [zpow_sub₀ two_ne_zero]
  push_cast
  ring

theorem proper_ofBinary (positive : 0 < m) : (Interval.ofBinary m e).Proper := by
  unfold Interval.ofBinary
  refine ⟨?_, by dsimp only; omega⟩
  dsimp only
  split_ifs <;> omega

/-- The step of the seventeenth digit is smaller than the interval is wide: a mantissa has no more
than 53 binary digits, and where the interval is narrow on one side it has the least such
mantissa. -/
theorem step_lt_width (double : IsDouble m e) {top : Int}
    (leading : (10 : ℝ) ^ top ≤ m * 2 ^ e) :
    (10 : ℝ) ^ (top - (16 : Nat)) < (m + 1 / 2) * 2 ^ e -
      (m - if m = firstNormalMantissa ∧ leastExponent < e then 1 / 4 else 1 / 2) * 2 ^ e := by
  have power : (0 : ℝ) < 2 ^ e := by positivity
  have step : (10 : ℝ) ^ (top - (16 : Nat)) ≤ m / 10 ^ 16 * 2 ^ e := by
    rw [zpow_sub₀ (by norm_num), zpow_natCast, div_mul_eq_mul_div]
    gcongr
  refine step.trans_lt ?_
  rw [← sub_mul]
  refine mul_lt_mul_of_pos_right ?_ power
  split_ifs with narrow
  · rw [narrow.1, firstNormalMantissa_eq]
    norm_num
  · have bound : (m : ℝ) < 2 ^ 53 := by exact_mod_cast double.bound
    calc (m : ℝ) / 10 ^ 16 < 1 := (div_lt_one (by norm_num)).mpr (bound.trans (by norm_num))
      _ = m + 1 / 2 - (m - 1 / 2) := by ring

/-- The decimal that the walk ends at lies in the interval of the double. -/
theorem holds_search_ofBinary (double : IsDouble m e) (positive : 0 < m) :
    let i := Interval.ofBinary m e
    i.Holds (i.search mostDigits (Ratio.ofBinary i.value i.exponent).leadingPlace).value := by
  intro i
  have proper : i.Proper := proper_ofBinary positive
  have numerator : 0 < (Ratio.ofBinary i.value i.exponent).num := by
    have filled : 0 < i.value := (Nat.zero_le _).trans_lt proper.below
    unfold Ratio.ofBinary
    split_ifs
    · exact Nat.mul_pos filled (Nat.pow_pos (by decide))
    · exact filled
  have leading := Ratio.pow_leadingPlace_le numerator (Ratio.den_ofBinary_pos _ _)
  rw [Ratio.value_ofBinary, value_ofBinary] at leading
  have wide := step_lt_width double leading
  rw [← low_ofBinary positive, ← high_ofBinary] at wide
  obtain ⟨n, above, below⟩ := exists_step_between (by positivity) (by positivity) wide
  exact Interval.holds_search proper (by decide) ⟨.of_lt above, .of_lt below⟩

/-- Zeros at the end of a coefficient are worth what the exponent then says. -/
theorem Digits.value_trim (fuel : Nat) (d : Digits) : (d.trim fuel).value = d.value := by
  induction fuel generalizing d with
  | zero => rfl
  | succ fuel ih =>
    unfold Digits.trim
    split_ifs with ends
    · have tens : d.coefficient = d.coefficient / 10 * 10 := by omega
      rw [ih, Digits.value_eq, Digits.value_eq]
      dsimp only
      conv_rhs => rw [tens]
      rw [zpow_add_one₀ (by norm_num)]
      push_cast
      ring
    · rfl

/-- **The shortest decimal of a double lies in its interval.** -/
theorem holds_shortest (double : IsDouble m e) (positive : 0 < m) :
    (Interval.ofBinary m e).Holds (Digits.shortest m e).value := by
  unfold Digits.shortest
  rw [if_neg positive.ne']
  dsimp only
  rw [Digits.value_trim]
  exact holds_search_ofBinary double positive

/-! ## What lies in the interval is rounded to the double -/

/-- At the lower end of a binade the grid of the doubles below decides. -/
theorem onGrid_finer {q : ℝ} (above : leastExponent < e)
    (holds : (Interval.ofBinary firstNormalMantissa e).Holds q)
    (below : q < 2 ^ 52 * 2 ^ e) : OnGrid q (e - 1) (2 ^ 53) := by
  have lower := holds.lower.le
  rw [low_ofBinary (by decide), if_pos ⟨rfl, above⟩, firstNormalMantissa_eq] at lower
  have half : (2 : ℝ) ^ e = 2 * 2 ^ (e - 1) := by
    rw [zpow_sub_one₀ two_ne_zero]
    ring
  have positive : (0 : ℝ) < 2 ^ (e - 1) := by positivity
  rw [half] at lower below
  push_cast at lower
  refine ⟨by omega, le_rfl, .inr ⟨by decide, ?_⟩, ?_, fun _ => by decide⟩
  · linarith
  · push_cast
    rw [abs_le]
    constructor <;> linarith

/-- Elsewhere it is the grid of the double. -/
theorem onGrid_own {q : ℝ} (double : IsDouble m e) (positive : 0 < m)
    (holds : (Interval.ofBinary m e).Holds q)
    (reached : m = firstNormalMantissa → leastExponent < e → 2 ^ 52 * 2 ^ e ≤ q) :
    OnGrid q e m := by
  have power : (0 : ℝ) < 2 ^ e := by positivity
  obtain ⟨lower, upper⟩ := holds
  rw [low_ofBinary positive] at lower
  rw [high_ofBinary] at upper
  have half : (m - 1 / 2) * (2 : ℝ) ^ e ≤
      (m - if m = firstNormalMantissa ∧ leastExponent < e then 1 / 4 else 1 / 2) * 2 ^ e := by
    gcongr
    split_ifs <;> norm_num
  have near : |q - m * 2 ^ e| ≤ 2 ^ e / 2 := by
    have least := half.trans lower.le
    have most := upper.le
    rw [abs_le]
    constructor <;> linarith
  refine ⟨double.least, double.bound.le, ?_, near, fun tie => ?_⟩
  · rcases double.least.eq_or_lt with bottom | above
    · exact .inl bottom.symm
    · have hidden := double.hidden_of_lt above
      refine .inr ⟨hidden, ?_⟩
      rcases hidden.eq_or_lt with first | later
      · exact reached first.symm above
      · have mantissa : (2 ^ 52 : ℝ) + 1 ≤ m := by exact_mod_cast later
        have least := half.trans lower.le
        calc (2 : ℝ) ^ 52 * 2 ^ e ≤ (m - 1 / 2) * 2 ^ e := by
              gcongr
              linarith
          _ ≤ q := least
  · -- a tie is an end of the interval, which belongs to it for even mantissas only
    have even (closed : (Interval.ofBinary m e).closed = true) : m % 2 = 0 := beq_iff_eq.mp closed
    rcases (abs_eq (by positivity)).mp tie with up | down
    · rcases upper with less | ⟨closed, _⟩
      · linarith
      · exact even closed
    · rcases (lower.le_trans half) with less | ⟨closed, _⟩
      · linarith
      · exact even closed

/-- **A number in the interval of a double is rounded to it.** -/
theorem nearest_of_holds {x : Float} {q : ℝ} (parts : Binary.ofFloat x = .finite false m e)
    (positive : 0 < m) (holds : (Interval.ofBinary m e).Holds q) : Nearest q x := by
  have double := isDouble_of_ofFloat parts
  by_cases finer : m = firstNormalMantissa ∧ leastExponent < e ∧ q < 2 ^ 52 * 2 ^ e
  · obtain ⟨rfl, above, below⟩ := finer
    have grid := onGrid_finer above holds below
    refine grid.nearest_of_parts parts ?_ (fun _ => by decide)
      (grid.carry_lt_overflow (by have := double.most; omega))
    rw [zpow_sub_one₀ two_ne_zero, firstNormalMantissa_eq]
    push_cast
    ring
  · have grid := onGrid_own double positive holds fun first above =>
      not_lt.mp fun below => finer ⟨first, above, below⟩
    exact grid.nearest_of_parts parts rfl id (grid.lt_overflow double.bound double.most)

end Double

end Toolpath.Decimal
