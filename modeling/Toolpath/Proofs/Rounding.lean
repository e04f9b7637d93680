import Toolpath.Proofs.NearestDouble

/-!
# Rounding in the arithmetic of doubles

The arithmetic of `Float` keeps a result as an integer with two more bits, one for the half place and
one for everything below it, and rounds when it has dropped as many places as it has to. `Stands` is
what the integer and the two bits say about a number. Dropping a place keeps it, and from it follows
that what is packed in the end is the nearest double (`roundWithAccuracy_onGrid`).

Products, quotients and decimals go through that one function. A decimal takes a shorter way when
its coefficient and its power of ten are doubles themselves, as one product or one quotient of the
two. Both ways round once, so both give the nearest double (`nearest_ofScientific`).
-/

namespace Toolpath.Decimal

open Float.Model (Format UnpackedFloat totalExponent)
open Float.Model.UnpackedFloat

/-! ## The two bits below the last place -/

/-- What an integer and the two bits below it say about a number. -/
inductive Stands : ExtendedMantissa → ℝ → Prop where
  | exact {n : Nat} {x : ℝ} (same : x = n) : Stands ⟨n, false, false⟩ x
  | belowHalf {n : Nat} {x : ℝ} (low : n < x) (high : x < n + 1 / 2) : Stands ⟨n, false, true⟩ x
  | half {n : Nat} {x : ℝ} (same : x = n + 1 / 2) : Stands ⟨n, true, false⟩ x
  | aboveHalf {n : Nat} {x : ℝ} (low : n + 1 / 2 < x) (high : x < n + 1) : Stands ⟨n, true, true⟩ x

theorem shiftRightOne_even (k : Nat) (round sticky : Bool) :
    ExtendedMantissa.shiftRightOne ⟨2 * k, round, sticky⟩ = ⟨k, false, round || sticky⟩ := by
  have quotient : 2 * k / 2 = k := by omega
  have remainder : 2 * k % 2 = 0 := by omega
  unfold ExtendedMantissa.shiftRightOne
  rw [quotient, remainder]
  rfl

theorem shiftRightOne_odd (k : Nat) (round sticky : Bool) :
    ExtendedMantissa.shiftRightOne ⟨2 * k + 1, round, sticky⟩ = ⟨k, true, round || sticky⟩ := by
  have quotient : (2 * k + 1) / 2 = k := by omega
  have remainder : (2 * k + 1) % 2 = 1 := by omega
  unfold ExtendedMantissa.shiftRightOne
  rw [quotient, remainder]
  rfl

namespace Stands

variable {em : ExtendedMantissa} {x : ℝ}

theorem whole_le (h : Stands em x) : em.mantissa ≤ x := by
  cases h with
  | exact same => exact same.ge
  | belowHalf low high => exact low.le
  | half same => linarith
  | aboveHalf low high => linarith

theorem lt_next (h : Stands em x) : x < em.mantissa + 1 := by
  cases h with
  | exact same => linarith
  | belowHalf low high => linarith
  | half same => linarith
  | aboveHalf low high => exact high

/-- One place dropped: what stood for a number stands for half of it. -/
theorem shiftRightOne (h : Stands em x) : Stands em.shiftRightOne (x / 2) := by
  cases h with
  | @exact n _ same =>
    obtain ⟨k, rfl | rfl⟩ := n.even_or_odd' <;> push_cast at same
    · rw [shiftRightOne_even]
      exact .exact (by linarith)
    · rw [shiftRightOne_odd]
      exact .half (by linarith)
  | @belowHalf n _ low high =>
    obtain ⟨k, rfl | rfl⟩ := n.even_or_odd' <;> push_cast at low high
    · rw [shiftRightOne_even]
      exact .belowHalf (by linarith) (by linarith)
    · rw [shiftRightOne_odd]
      exact .aboveHalf (by linarith) (by linarith)
  | @half n _ same =>
    obtain ⟨k, rfl | rfl⟩ := n.even_or_odd' <;> push_cast at same
    · rw [shiftRightOne_even]
      exact .belowHalf (by linarith) (by linarith)
    · rw [shiftRightOne_odd]
      exact .aboveHalf (by linarith) (by linarith)
  | @aboveHalf n _ low high =>
    obtain ⟨k, rfl | rfl⟩ := n.even_or_odd' <;> push_cast at low high
    · rw [shiftRightOne_even]
      exact .belowHalf (by linarith) (by linarith)
    · rw [shiftRightOne_odd]
      exact .aboveHalf (by linarith) (by linarith)

/-- Any number of places dropped. -/
theorem shiftRight (h : Stands em x) (places : Nat) : Stands (em >>> places) (x / 2 ^ places) := by
  show Stands (places.repeat ExtendedMantissa.shiftRightOne em) _
  induction places with
  | zero =>
    rw [pow_zero, div_one]
    exact h
  | succ places ih =>
    rw [pow_succ, ← div_div]
    exact ih.shiftRightOne

/-- The rounded integer is nearest to the number, and of two equally near the even one. -/
theorem roundedMantissa (h : Stands em x) : |x - em.roundedMantissa| ≤ 1 / 2 ∧
    (|x - em.roundedMantissa| = 1 / 2 → em.roundedMantissa % 2 = 0) := by
  cases h with
  | @exact n _ same =>
    show |x - n| ≤ 1 / 2 ∧ (|x - n| = 1 / 2 → n % 2 = 0)
    rw [same, sub_self, abs_zero]
    norm_num
  | @belowHalf n _ low high =>
    show |x - n| ≤ 1 / 2 ∧ (|x - n| = 1 / 2 → n % 2 = 0)
    rw [abs_of_pos (by linarith)]
    exact ⟨by linarith, fun tie => by linarith⟩
  | @half n _ same =>
    show |x - (n + n % 2 : Nat)| ≤ 1 / 2 ∧ (_ → (n + n % 2) % 2 = 0)
    refine ⟨?_, fun _ => by omega⟩
    rcases Nat.mod_two_eq_zero_or_one n with even | odd
    · rw [even, same]
      norm_num
    · rw [odd, same]
      norm_num
  | @aboveHalf n _ low high =>
    show |x - (n + 1 : Nat)| ≤ 1 / 2 ∧ (|x - (n + 1 : Nat)| = 1 / 2 → (n + 1) % 2 = 0)
    push_cast
    rw [abs_of_neg (by linarith)]
    exact ⟨by linarith, fun tie => by linarith⟩

end Stands

open ExtendedMantissa in
/-- An integer that has been divided stands for the quotient, with its remainder as accuracy. -/
theorem stands_quotient (n : Nat) {d : Nat} (positive : 0 < d) :
    Stands (ofMantissaAndAccuracy (n / d) (accuracyOfFraction (n % d) d)) (n / d : ℝ) := by
  have divisor : (0 : ℝ) < d := by exact_mod_cast positive
  have split : (n : ℝ) / d = (n / d : Nat) + (n % d : Nat) / d := by
    have euclid : ((n % d + n / d * d : Nat) : ℝ) = n := by rw [Nat.mod_add_div']
    push_cast at euclid
    rw [← euclid, add_div, mul_div_cancel_right₀ _ divisor.ne', add_comm]
  have less : ((n % d : Nat) : ℝ) < d := by exact_mod_cast Nat.mod_lt n positive
  rw [split]
  generalize n / d = k at *
  generalize n % d = r at *
  unfold accuracyOfFraction
  split_ifs with none
  · rw [none]
    refine .exact ?_
    norm_num
  · have some : (0 : ℝ) < r := by exact_mod_cast Nat.pos_of_ne_zero none
    have above : 0 < (r : ℝ) / d := by positivity
    have below : (r : ℝ) / d < 1 := (div_lt_one divisor).mpr less
    rcases lt_trichotomy (2 * r) d with small | half | large
    · rw [Nat.compare_eq_lt.mpr small]
      have cast : (2 : ℝ) * r < d := by exact_mod_cast small
      have fraction : (r : ℝ) / d < 1 / 2 := (div_lt_iff₀ divisor).mpr (by linarith)
      exact .belowHalf (by linarith) (by linarith)
    · rw [Nat.compare_eq_eq.mpr half]
      have cast : (2 : ℝ) * r = d := by exact_mod_cast half
      have fraction : (r : ℝ) / d = 1 / 2 := (div_eq_iff divisor.ne').mpr (by linarith)
      exact .half (by linarith)
    · rw [Nat.compare_eq_gt.mpr large]
      have cast : (d : ℝ) < 2 * r := by exact_mod_cast large
      have fraction : 1 / 2 < (r : ℝ) / d := (lt_div_iff₀ divisor).mpr (by linarith)
      exact .aboveHalf (by linarith) (by linarith)

/-! ## Rounding to the places of a double -/

section Round

variable {q : ℝ} {m : Nat} {e : Int} {accuracy : Accuracy}

/-- The exponent of the last place that is kept of a number with this whole part. -/
def lastPlace (m : Nat) (e : Int) : Int := max (m.log2 + 1 + e - 53) leastExponent

theorem mantissa_ofMantissaAndAccuracy (m : Nat) (accuracy : Accuracy) :
    (ExtendedMantissa.ofMantissaAndAccuracy m accuracy).mantissa = m := by
  cases accuracy with
  | exact => rfl
  | inexact ordering => cases ordering <;> rfl

/-- A number takes up to 53 places from its last one. -/
theorem lt_lastPlace (stands : Stands (ExtendedMantissa.ofMantissaAndAccuracy m accuracy)
    (q / 2 ^ e)) : q / 2 ^ lastPlace m e < 2 ^ 53 := by
  have next := stands.lt_next
  rw [mantissa_ofMantissaAndAccuracy, div_lt_iff₀ (by positivity)] at next
  have places : (m : ℝ) + 1 ≤ 2 ^ (m.log2 + 1) := by exact_mod_cast Nat.lt_log2_self
  have kept : ((m.log2 + 1 : Nat) : Int) + e ≤ 53 + lastPlace m e := by
    unfold lastPlace
    push_cast
    omega
  rw [div_lt_iff₀ (by positivity)]
  calc q < (m + 1) * 2 ^ e := next
    _ ≤ 2 ^ (m.log2 + 1) * 2 ^ e := by gcongr
    _ = 2 ^ (((m.log2 + 1 : Nat) : Int) + e) := by rw [zpow_add₀ two_ne_zero, zpow_natCast]
    _ ≤ 2 ^ (53 + lastPlace m e) := zpow_le_zpow_right₀ one_le_two kept
    _ = 2 ^ 53 * 2 ^ lastPlace m e := by rw [zpow_add₀ two_ne_zero]; rfl

/-- Unless its last place is the least one, it takes 53 places. -/
theorem le_lastPlace (stands : Stands (ExtendedMantissa.ofMantissaAndAccuracy m accuracy)
    (q / 2 ^ e)) (fine : e ≤ lastPlace m e) (above : lastPlace m e ≠ leastExponent) :
    2 ^ 52 ≤ q / 2 ^ lastPlace m e := by
  have place : lastPlace m e + 52 = m.log2 + e := by
    unfold lastPlace at *
    omega
  have filled : m ≠ 0 := by
    rintro rfl
    rw [Nat.log2_zero] at place
    omega
  have whole := stands.whole_le
  rw [mantissa_ofMantissaAndAccuracy, le_div_iff₀ (by positivity)] at whole
  have places : (2 : ℝ) ^ m.log2 ≤ m := by exact_mod_cast Nat.log2_self_le filled
  rw [le_div_iff₀ (by positivity)]
  calc (2 : ℝ) ^ 52 * 2 ^ lastPlace m e = 2 ^ (lastPlace m e + 52) := by
        rw [zpow_add₀ two_ne_zero, mul_comm]
        rfl
    _ = 2 ^ m.log2 * 2 ^ e := by rw [place, zpow_add₀ two_ne_zero, zpow_natCast]
    _ ≤ m * 2 ^ e := by gcongr
    _ ≤ q := whole

/-- The integer that is left of a number when all places after its last one are dropped. -/
def kept (m : Nat) (e : Int) (accuracy : Accuracy) : ExtendedMantissa :=
  ExtendedMantissa.ofMantissaAndAccuracy m accuracy >>> (lastPlace m e - e).toNat

/-- Rounding to the last place rounds on the right grid. -/
theorem onGrid_of_stands (fine : e ≤ lastPlace m e)
    (stands : Stands (ExtendedMantissa.ofMantissaAndAccuracy m accuracy) (q / 2 ^ e)) :
    OnGrid q (lastPlace m e) (kept m e accuracy).roundedMantissa := by
  have shifted := stands.shiftRight (lastPlace m e - e).toNat
  have scale : q / 2 ^ e / 2 ^ (lastPlace m e - e).toNat = q / 2 ^ lastPlace m e := by
    rw [div_div, ← zpow_natCast, ← zpow_add₀ two_ne_zero, Int.toNat_of_nonneg (by omega)]
    congr 2
    omega
  rw [scale] at shifted
  obtain ⟨near, even⟩ := shifted.roundedMantissa
  exact .of_scaled (le_max_right _ _) (lt_lastPlace stands) (le_lastPlace stands fine) near even

/-- A rounded integer has one place more than a double at most, and that is a zero. -/
theorem lastPlace_rounded {g : Int} {r : Nat} (grid : OnGrid q g r) :
    lastPlace r g = if r = 2 ^ 53 then g + 1 else g := by
  have least := grid.least
  unfold lastPlace
  split_ifs with carry
  · rw [carry, Nat.log2_two_pow]
    omega
  · have bound : r < 2 ^ 53 := lt_of_le_of_ne grid.top carry
    have places : r.log2 < 53 := by
      rcases Nat.eq_zero_or_pos r with rfl | positive
      · decide
      · exact (Nat.log2_lt positive.ne').mpr bound
    rcases grid.normal with bottom | ⟨hidden, _⟩
    · omega
    · have : 52 ≤ r.log2 := (Nat.le_log2 (by omega)).mpr hidden
      omega

/-- The rounded integer without that place. -/
theorem shift_rounded {g : Int} {r : Nat} (grid : OnGrid q g r) :
    shiftToTargetExponent Format.binary64 r g .exact =
      if r = 2 ^ 53 then (⟨2 ^ 52, false, false⟩, g + 1) else (⟨r, false, false⟩, g) := by
  have places := lastPlace_rounded grid
  show (kept r g .exact, g + ((lastPlace r g - g).toNat : Int)) = _
  unfold kept
  rw [places]
  split_ifs with carry
  · rw [add_sub_cancel_left, carry]
    rfl
  · rw [sub_self, Int.toNat_zero, Int.ofNat_zero, add_zero]
    rfl

/-- The double of a mantissa that needs no rounding. -/
def unrounded (shifted : ExtendedMantissa × Int) : UnpackedFloat :=
  if none : shifted.1.mantissa = 0 then .zero .positive
  else .finite .positive shifted.1.mantissa shifted.2 (Nat.pos_of_ne_zero none)

/-- **Lean's rounding is rounding on the right grid.** -/
theorem roundWithAccuracy_onGrid (fine : e ≤ lastPlace m e)
    (stands : Stands (ExtendedMantissa.ofMantissaAndAccuracy m accuracy) (q / 2 ^ e)) :
    ∃ g r, OnGrid q g r ∧
      roundWithAccuracy Format.binary64 .positive m e accuracy = settled g r := by
  have grid := onGrid_of_stands fine stands
  refine ⟨_, _, grid, ?_⟩
  have place : e + (lastPlace m e - e).toNat = lastPlace m e := by omega
  have first : shiftToTargetExponent Format.binary64 m e accuracy =
      (kept m e accuracy, lastPlace m e) := Prod.ext rfl place
  have second : roundWithAccuracy Format.binary64 .positive m e accuracy =
      unrounded (shiftToTargetExponent Format.binary64 (kept m e accuracy).roundedMantissa
        (lastPlace m e) .exact) := by
    unfold roundWithAccuracy
    rw [first]
    rfl
  rw [second, shift_rounded grid]
  generalize (kept m e accuracy).roundedMantissa = r
  by_cases none : r = 0
  · rw [none]
    rfl
  · unfold settled
    rw [dif_neg none]
    split_ifs
    · rfl
    · exact dif_neg none

end Round

/-! ## Widening -/

/-- A mantissa with places added, of a double of the same value. -/
theorem shiftLeft_value (m k : Nat) (e : Int) :
    ((m <<< k : Nat) : ℝ) * 2 ^ (e - k) = m * 2 ^ e := by
  rw [Nat.shiftLeft_eq, zpow_sub₀ two_ne_zero, zpow_natCast]
  push_cast
  field_simp

theorem shiftLeft_pos (k : Nat) {m : Nat} (positive : 0 < m) : 0 < m <<< k := by
  rw [Nat.shiftLeft_eq]
  positivity

theorem log2_le_log2_div (m : Nat) {n : Nat} (hm : 0 < m) (hn : 0 < n) :
    m.log2 ≤ n.log2 + 1 + (m / n).log2 := by
  have divisor : n < 2 ^ (n.log2 + 1) := Nat.lt_log2_self
  have quotient : m / n + 1 ≤ 2 ^ ((m / n).log2 + 1) := Nat.lt_log2_self
  have whole : m < 2 ^ (n.log2 + 1 + (m / n).log2 + 1) := by
    calc m < n * (m / n + 1) := Nat.lt_mul_div_succ m hn
      _ ≤ 2 ^ (n.log2 + 1) * 2 ^ ((m / n).log2 + 1) := Nat.mul_le_mul divisor.le quotient
      _ = 2 ^ (n.log2 + 1 + (m / n).log2 + 1) := by
        rw [← pow_add]
        rfl
  exact Nat.lt_succ_iff.mp ((Nat.log2_lt hm.ne').mpr whole)

theorem log2_shiftLeft (k : Nat) {m : Nat} (hm : 0 < m) : (m <<< k).log2 = m.log2 + k := by
  have low := Nat.log2_self_le hm.ne'
  have high : m < 2 ^ (m.log2 + 1) := Nat.lt_log2_self
  rw [Nat.shiftLeft_eq, Nat.log2_eq_iff (by positivity), pow_add, add_right_comm, pow_add _ _ k]
  constructor
  · gcongr
  · gcongr

/-- A number that is widened first is rounded on the right grid. -/
theorem round_onGrid {m : Nat} {e : Int} (hm : 0 < m) : ∃ g r, OnGrid ((m : ℝ) * 2 ^ e) g r ∧
    UnpackedFloat.round Format.binary64 .positive m e = settled g r := by
  obtain ⟨k, widened⟩ : ∃ k, (e - lastPlace m e).toNat = k := ⟨_, rfl⟩
  have rounded : UnpackedFloat.round Format.binary64 .positive m e =
      roundWithAccuracy Format.binary64 .positive (m <<< k) (e - k) .exact := by
    rw [← widened]
    rfl
  have exact : (m : ℝ) * 2 ^ e / 2 ^ (e - k) = (m <<< k : Nat) := by
    rw [← shiftLeft_value m k e, mul_div_cancel_right₀ _ (by positivity)]
  rw [rounded]
  refine roundWithAccuracy_onGrid ?_ (.exact exact)
  unfold lastPlace at *
  rw [log2_shiftLeft k hm]
  omega

/-! ## Products and quotients -/

section Operations

variable {m n : Nat} {e f : Int} (hm : 0 < m) (hn : 0 < n)

/-- A product is rounded on the right grid if it has enough places to begin with. -/
theorem mul_onGrid (fine : e + f ≤ lastPlace (m * n) (e + f)) :
    ∃ g r, OnGrid ((m : ℝ) * 2 ^ e * (n * 2 ^ f)) g r ∧
      UnpackedFloat.mul Format.binary64 (.finite .positive m e hm) (.finite .positive n f hn) =
        settled g r := by
  have exact : (m : ℝ) * 2 ^ e * (n * 2 ^ f) / 2 ^ (e + f) = (m * n : Nat) := by
    rw [zpow_add₀ two_ne_zero]
    push_cast
    field_simp
  exact roundWithAccuracy_onGrid fine (.exact exact)

include hm hn in
/-- The product of the mantissas of two doubles has enough places. -/
theorem IsDouble.mul_fine (double : IsDouble m e) (other : IsDouble n f) :
    e + f ≤ lastPlace (m * n) (e + f) := by
  by_cases finest : e + f ≤ leastExponent
  · exact finest.trans (le_max_right _ _)
  · -- one of the two has its hidden bit, or both exponents were the least one
    have hidden : 2 ^ 52 ≤ m * n := by
      have first := firstNormalMantissa_eq
      have least := leastExponent_eq
      rcases double.hidden with normal | bottom
      · exact normal.trans (Nat.le_mul_of_pos_right m hn)
      · rcases other.hidden with normal | bottom'
        · exact normal.trans (Nat.le_mul_of_pos_left n hm)
        · omega
    have places := (Nat.le_log2 (by positivity)).mpr hidden
    unfold lastPlace
    omega

/-- A quotient is computed with enough places to begin with. -/
theorem div_onGrid : ∃ g r, OnGrid ((m : ℝ) * 2 ^ e / (n * 2 ^ f)) g r ∧
      UnpackedFloat.div Format.binary64 (.finite .positive m e hm) (.finite .positive n f hn) =
        settled g r := by
  have core : divCore Format.binary64 m e n f =
      let t := min (e - f) (max (m.log2 + 1 + e - (n.log2 + 1 + f) - 53) leastExponent)
      (m <<< (e - f - t).toNat / n, t, accuracyOfFraction (m <<< (e - f - t).toNat % n) n) := rfl
  show ∃ g r, _ ∧ (let (w, t, accuracy) := divCore Format.binary64 m e n f
    roundWithAccuracy Format.binary64 .positive w t accuracy) = settled g r
  rw [core]
  dsimp only
  have enough : min (e - f) (max (m.log2 + 1 + e - (n.log2 + 1 + f) - 53) leastExponent) ≤ e - f :=
    min_le_left _ _
  have least : min (e - f) (max (m.log2 + 1 + e - (n.log2 + 1 + f) - 53) leastExponent) ≤
    max (m.log2 + 1 + e - (n.log2 + 1 + f) - 53) leastExponent := min_le_right _ _
  generalize min (e - f) (max (m.log2 + 1 + e - (n.log2 + 1 + f) - 53) leastExponent) = t at *
  obtain ⟨k, shift⟩ : ∃ k, (e - f - t).toNat = k := ⟨_, rfl⟩
  rw [shift]
  refine roundWithAccuracy_onGrid ?_ ?_
  · have places := log2_le_log2_div (m <<< k) (shiftLeft_pos k hm) hn
    rw [log2_shiftLeft k hm] at places
    unfold lastPlace
    omega
  · have value : (m : ℝ) * 2 ^ e / (n * 2 ^ f) / 2 ^ t = (m <<< k : Nat) / n := by
      have power : (2 : ℝ) ^ e = 2 ^ k * 2 ^ f * 2 ^ t := by
        rw [← zpow_natCast, ← zpow_add₀ two_ne_zero, ← zpow_add₀ two_ne_zero]
        congr 1
        omega
      rw [Nat.shiftLeft_eq, power]
      push_cast
      field_simp
    rw [value]
    exact stands_quotient _ hn

variable {x y : Float}

/-- **The product of two doubles is the double nearest to the product.** -/
theorem nearest_mul (xParts : Binary.ofFloat x = .finite false m e)
    (yParts : Binary.ofFloat y = .finite false n f) (hm : 0 < m) (hn : 0 < n) :
    Nearest (m * 2 ^ e * (n * 2 ^ f)) (x * y) := by
  have fine := IsDouble.mul_fine hm hn (isDouble_of_ofFloat xParts) (isDouble_of_ofFloat yParts)
  obtain ⟨g, r, grid, product⟩ := mul_onGrid hm hn fine
  have computed : x * y = .ofModel (.pack (UnpackedFloat.mul Format.binary64 x.toModel.unpack
    y.toModel.unpack)) := rfl
  rw [computed, unpack_of_ofFloat xParts hm, unpack_of_ofFloat yParts hn, product]
  exact grid.nearest_settled

/-- **The quotient of two doubles is the double nearest to the quotient.** -/
theorem nearest_div (xParts : Binary.ofFloat x = .finite false m e)
    (yParts : Binary.ofFloat y = .finite false n f) (hm : 0 < m) (hn : 0 < n) :
    Nearest (m * 2 ^ e / (n * 2 ^ f)) (x / y) := by
  obtain ⟨g, r, grid, quotient⟩ := div_onGrid hm hn
  have computed : x / y = .ofModel (.pack (UnpackedFloat.div Format.binary64 x.toModel.unpack
    y.toModel.unpack)) := rfl
  rw [computed, unpack_of_ofFloat xParts hm, unpack_of_ofFloat yParts hn, quotient]
  exact grid.nearest_settled

end Operations

/-! ## Decimals -/

/-- A natural number with at most 53 places is a double. -/
theorem exists_isDouble_nat {n : Nat} (positive : 0 < n) (bound : n < 2 ^ 53) :
    ∃ m e, IsDouble m e ∧ (m : ℝ) * 2 ^ e = n := by
  have places : n.log2 < 53 := (Nat.log2_lt positive.ne').mpr bound
  obtain ⟨k, shift⟩ : ∃ k, k = 52 - n.log2 := ⟨_, rfl⟩
  have log : (n <<< k).log2 = 52 := by
    rw [log2_shiftLeft k positive]
    omega
  obtain ⟨hidden, top⟩ := (Nat.log2_eq_iff (shiftLeft_pos k positive).ne').mp log
  have least := leastExponent_eq
  refine ⟨n <<< k, 0 - k, ⟨top, by omega, by omega, .inl hidden⟩, ?_⟩
  rw [shiftLeft_value, zpow_zero, mul_one]

theorem nearest_toFloat {n : Nat} (positive : 0 < n) (bound : n < 2 ^ 64) :
    Nearest n n.toUInt64.toFloat := by
  have word : n.toUInt64.toNat = n := by
    rw [Nat.toUInt64_eq, UInt64.toNat_ofNat']
    omega
  have normalized : UnpackedFloat.ofUInt64 Format.binary64 n.toUInt64 =
      UnpackedFloat.round Format.binary64 .positive n 0 := by
    show UnpackedFloat.normalize Format.binary64 (n.toUInt64.toNat : Int) 0 .positive = _
    unfold UnpackedFloat.normalize
    rw [word, Int.compare_eq_gt.mpr (by omega)]
    rfl
  obtain ⟨g, r, grid, rounded⟩ := round_onGrid positive (e := 0)
  have computed : n.toUInt64.toFloat =
      .ofModel (.pack (UnpackedFloat.ofUInt64 Format.binary64 n.toUInt64)) := rfl
  rw [computed, normalized, rounded]
  rw [zpow_zero, mul_one] at grid
  exact grid.nearest_settled

/-- A natural number with at most 53 places is converted to itself. -/
theorem exists_ofFloat_toFloat {n : Nat} (positive : 0 < n) (bound : n < 2 ^ 53) :
    ∃ m e, Binary.ofFloat n.toUInt64.toFloat = .finite false m e ∧ (m : ℝ) * 2 ^ e = n := by
  obtain ⟨m, e, double, value⟩ := exists_isDouble_nat positive bound
  obtain ⟨x, parts⟩ := exists_ofFloat double
  have nearest := nearest_self parts
  rw [value] at nearest
  rw [(nearest_toFloat positive (by omega)).unique nearest]
  exact ⟨m, e, parts, value⟩

/-- The powers of ten that are doubles are tabulated as such: each is a power of five, which has at
most 53 places, times a power of two. -/
theorem ofFloat_powerOfTen : ∀ k : Fin Float.exactlyRepresentablePowersOfTen.size,
    Binary.ofFloat Float.exactlyRepresentablePowersOfTen[k] =
      .finite false (5 ^ k.val <<< (52 - (5 ^ k.val).log2)) (k.val - (52 - (5 ^ k.val).log2 : Nat)) := by
  decide +kernel

theorem value_powerOfTen (k : Nat) :
    ((5 ^ k <<< (52 - (5 ^ k).log2) : Nat) : ℝ) * 2 ^ ((k : Int) - (52 - (5 ^ k).log2 : Nat)) =
      10 ^ k := by
  have ten : (10 : ℝ) = 5 * 2 := by norm_num
  rw [shiftLeft_value, zpow_natCast, ten, mul_pow, Nat.cast_pow]
  rfl

section Scientific

variable {m : Nat} {k : Int}

/-- The long way: an integer of any size is multiplied or divided once. -/
theorem ofScientific_onGrid (positive : 0 < m) (high : k ≤ 2048) (low : -2048 ≤ k + m.log2) :
    ∃ g r, OnGrid ((m : ℝ) * 10 ^ k) g r ∧
      UnpackedFloat.ofScientific Format.binary64 m k = settled g r := by
  have notLarge : ¬ k > 2 ^ 11 := by omega
  have notSmall : ¬ k < -((2 ^ 11 : Int) + m.log2) := by omega
  unfold UnpackedFloat.ofScientific
  rw [dif_neg positive.ne', if_neg notLarge, if_neg notSmall]
  split_ifs with upwards
  · have power : (10 : ℝ) ^ k = 10 ^ k.toNat := by
      rw [← zpow_natCast, Int.toNat_of_nonneg upwards]
    have value : (m : ℝ) * (10 : ℝ) ^ k =
        ((m <<< 53 : Nat) : ℝ) * 2 ^ (-53 : Int) * ((10 ^ k.toNat : Nat) * 2 ^ (0 : Int)) := by
      have widened : ((m <<< 53 : Nat) : ℝ) * 2 ^ (-53 : Int) = m * 2 ^ (0 : Int) :=
        shiftLeft_value m 53 0
      rw [power, widened, zpow_zero, mul_one, mul_one, Nat.cast_pow]
      rfl
    rw [value]
    refine mul_onGrid _ _ ?_
    have wide : 2 ^ 53 ≤ m <<< 53 * 10 ^ k.toNat := by
      rw [Nat.shiftLeft_eq]
      calc 2 ^ 53 ≤ m * 2 ^ 53 := Nat.le_mul_of_pos_left _ positive
        _ ≤ m * 2 ^ 53 * 10 ^ k.toNat := Nat.le_mul_of_pos_right _ (by positivity)
    have places := (Nat.le_log2 (by omega)).mpr wide
    unfold lastPlace
    omega
  · have power : (10 : ℝ) ^ k = (10 ^ (-k).toNat)⁻¹ := by
      rw [← zpow_natCast, ← zpow_neg, Int.toNat_of_nonneg (by omega), neg_neg]
    have value : (m : ℝ) * 10 ^ k =
        (m : ℝ) * 2 ^ (0 : Int) / ((10 ^ (-k).toNat : Nat) * 2 ^ (0 : Int)) := by
      rw [power, zpow_zero, mul_one, mul_one, Nat.cast_pow, div_eq_mul_inv]
      rfl
    rw [value]
    exact div_onGrid _ _

/-- The short way: the coefficient and the power of ten are doubles. -/
theorem nearest_short (positive : 0 < m) (bound : m < 2 ^ 53)
    (small : k.natAbs < Float.exactlyRepresentablePowersOfTen.size) :
    Nearest (m * 10 ^ k) (if k < 0
      then m.toUInt64.toFloat / Float.exactlyRepresentablePowersOfTen[k.natAbs]
      else m.toUInt64.toFloat * Float.exactlyRepresentablePowersOfTen[k.natAbs]) := by
  obtain ⟨n, e, parts, value⟩ := exists_ofFloat_toFloat positive bound
  have filled : 0 < n := by
    rcases Nat.eq_zero_or_pos n with rfl | filled
    · rw [Nat.cast_zero, zero_mul] at value
      exact absurd value.symm (by positivity)
    · exact filled
  have powerParts := ofFloat_powerOfTen ⟨k.natAbs, small⟩
  have powerValue := value_powerOfTen k.natAbs
  have powerFilled : 0 < 5 ^ k.natAbs <<< (52 - (5 ^ k.natAbs).log2) :=
    shiftLeft_pos _ (by positivity)
  split_ifs with downwards
  · have power : (10 : ℝ) ^ k = (10 ^ k.natAbs)⁻¹ := by
      rw [← zpow_natCast, ← zpow_neg]
      congr 1
      omega
    have quotient := nearest_div parts powerParts filled powerFilled
    rw [value, powerValue] at quotient
    rw [power, ← div_eq_mul_inv]
    exact quotient
  · have power : (10 : ℝ) ^ k = 10 ^ k.natAbs := by
      rw [← zpow_natCast]
      congr 1
      omega
    have product := nearest_mul parts powerParts filled powerFilled
    rw [value, powerValue] at product
    rw [power]
    exact product

/-- **A decimal is read as the nearest double.** -/
theorem nearest_ofScientific (positive : 0 < m) (high : k ≤ 2048) (low : -2048 ≤ k + m.log2) :
    Nearest (m * 10 ^ k) (Float.ofScientific m (k < 0) k.natAbs) := by
  have size : Float.exactlyRepresentablePowersOfTen.size = 23 := rfl
  by_cases short : m < 2 ^ 53 ∧ k.natAbs ≤ 22
  · have read : Float.ofScientific m (k < 0) k.natAbs = if k < 0
        then m.toUInt64.toFloat / Float.exactlyRepresentablePowersOfTen[k.natAbs]
        else m.toUInt64.toFloat * Float.exactlyRepresentablePowersOfTen[k.natAbs] := by
      unfold Float.ofScientific
      rw [dif_pos short]
      simp only [decide_eq_true_eq]
    rw [read]
    exact nearest_short positive short.1 (by omega)
  · have exponent : (if decide (k < 0) = true then Int.negOfNat k.natAbs else Int.ofNat k.natAbs) =
        k := by
      split_ifs with downwards
      · have below := of_decide_eq_true downwards
        rw [Int.negOfNat_eq, Int.ofNat_eq_natCast]
        omega
      · have above := of_decide_eq_false (Bool.eq_false_of_not_eq_true downwards)
        rw [Int.ofNat_eq_natCast]
        omega
    obtain ⟨g, r, grid, rounded⟩ := ofScientific_onGrid positive high low
    have read : Float.ofScientific m (k < 0) k.natAbs = .ofModel (.pack (settled g r)) := by
      unfold Float.ofScientific
      rw [dif_neg short, exponent, ← rounded]
      rfl
    rw [read]
    exact grid.nearest_settled

end Scientific

end Toolpath.Decimal
