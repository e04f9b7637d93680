import Toolpath.Proofs.Doubles

/-!
# The nearest double

`Nearest q x` says that `x` is what a number `q` without a sign is rounded to: the nearest double, of
two equally near the one with the even mantissa, and an infinity from half a place beyond the largest
double on.

Whoever computes such a double does it on a grid, by rounding to the nearest multiple of a power of
two. `OnGrid` is that rounding with what makes the grid the right one, and `OnGrid.nearest_settled`
is the way from the grid to all doubles. A number has one nearest double (`Nearest.unique`), so the
relation names a function.

Signs are left to the caller: rounding to the nearest double is symmetric.
-/

namespace Toolpath.Decimal

open Float.Model (UnpackedFloat)

/-- The number from which on numbers are rounded to an infinity. -/
def overflow : Nat := 2 ^ 1024 - 2 ^ 970

/-- Half a place beyond the largest double, which is 2 to the 53 less one places. -/
theorem overflow_eq : (overflow : ℝ) = (2 ^ 53 - 1 / 2) * 2 ^ (971 : Int) := by
  have least : 2 ^ 970 ≤ 2 ^ 1024 := by gcongr <;> decide
  have top : (2 : ℝ) ^ 1024 = 2 ^ 54 * 2 ^ 970 := by rw [← pow_add]
  have power : (2 : ℝ) ^ (971 : Int) = 2 * 2 ^ 970 := by
    rw [← pow_succ']
    rfl
  unfold overflow
  rw [Nat.cast_sub least, Nat.cast_pow, Nat.cast_pow, Nat.cast_ofNat, top, power]
  generalize (2 : ℝ) ^ 970 = p
  ring

/-- A double is what a number that is not negative is rounded to. -/
inductive Nearest (q : ℝ) (x : Float) : Prop
  | finite {m : Nat} {e : Int} (parts : Binary.ofFloat x = .finite false m e) (below : q < overflow)
    (near : ∀ y n f, Binary.ofFloat y = .finite false n f → |q - m * 2 ^ e| ≤ |q - n * 2 ^ f|)
    (even : ∀ y n f, Binary.ofFloat y = .finite false n f → y ≠ x →
      |q - m * 2 ^ e| = |q - n * 2 ^ f| → m % 2 = 0)
  | infinite (parts : Binary.ofFloat x = .infinite false) (beyond : overflow ≤ q)

/-! ## Rounding on a grid -/

/-- A number is rounded to `r` steps of two to the `g`: to the nearest step and of two equally near
to the even one. The grid is no coarser than the doubles are where the number lies. -/
structure OnGrid (q : ℝ) (g : Int) (r : Nat) : Prop where
  least : leastExponent ≤ g
  top : r ≤ 2 ^ 53
  normal : g = leastExponent ∨ 2 ^ 52 ≤ r ∧ (2 : ℝ) ^ 52 * 2 ^ g ≤ q
  near : |q - r * 2 ^ g| ≤ 2 ^ g / 2
  even : |q - r * 2 ^ g| = 2 ^ g / 2 → r % 2 = 0

namespace OnGrid

variable {q : ℝ} {g : Int} {r : Nat}

/-- A grid on which the number takes up to 53 places, and all 53 unless the grid is the finest. -/
theorem of_scaled (least : leastExponent ≤ g) (upper : q / 2 ^ g < 2 ^ 53)
    (lower : g ≠ leastExponent → 2 ^ 52 ≤ q / 2 ^ g) (near : |q / 2 ^ g - r| ≤ 1 / 2)
    (even : |q / 2 ^ g - r| = 1 / 2 → r % 2 = 0) : OnGrid q g r := by
  have power : (0 : ℝ) < 2 ^ g := by positivity
  have distance : |q - r * 2 ^ g| = |q / 2 ^ g - r| * 2 ^ g := by
    rw [← abs_of_pos power, ← abs_mul, abs_of_pos power, sub_mul, div_mul_cancel₀ _ power.ne']
  have half : (2 : ℝ) ^ g / 2 = 1 / 2 * 2 ^ g := by ring
  have bounds := abs_le.mp near
  refine ⟨least, ?_, ?_, ?_, ?_⟩
  · have cast : (r : ℝ) < (2 ^ 53 + 1 : Nat) := by
      push_cast
      linarith
    have steps : r < 2 ^ 53 + 1 := by exact_mod_cast cast
    omega
  · by_cases bottom : g = leastExponent
    · exact .inl bottom
    · have hidden := lower bottom
      have cast : ((2 ^ 52 : Nat) : ℝ) < (r + 1 : Nat) := by
        push_cast
        linarith
      have steps : 2 ^ 52 < r + 1 := by exact_mod_cast cast
      exact .inr ⟨by omega, (le_div_iff₀ power).mp hidden⟩
  · rw [distance, half]
    gcongr
  · intro tie
    rw [distance, half] at tie
    exact even (mul_right_cancel₀ power.ne' tie)

/-- Any other step is half a step away at least. -/
theorem half_le (h : OnGrid q g r) {k : Nat} (other : k ≠ r) : 2 ^ g / 2 ≤ |q - k * 2 ^ g| := by
  have apart : (1 : ℝ) ≤ |(r : ℝ) - k| := by
    have integers : (1 : Int) ≤ |(r : Int) - k| := Int.one_le_abs (by omega)
    exact_mod_cast integers
  have step : (2 : ℝ) ^ g ≤ |(r : ℝ) * 2 ^ g - k * 2 ^ g| := by
    rw [← sub_mul, abs_mul, abs_of_pos (by positivity : (0 : ℝ) < 2 ^ g)]
    exact le_mul_of_one_le_left (by positivity) apart
  have triangle := abs_sub_le ((r : ℝ) * 2 ^ g) q (k * 2 ^ g)
  rw [abs_sub_comm ((r : ℝ) * 2 ^ g) q] at triangle
  linarith [h.near]

/-- No step is nearer. -/
theorem le_step (h : OnGrid q g r) (k : Nat) : |q - r * 2 ^ g| ≤ |q - k * 2 ^ g| := by
  by_cases same : k = r
  · rw [same]
  · exact h.near.trans (h.half_le same)

/-- A double off the grid is further away: it lies below the first double with a hidden bit, which
is a step. -/
theorem lt_of_finer (h : OnGrid q g r) {n : Nat} {f : Int} (double : IsDouble n f) (finer : f < g) :
    |q - r * 2 ^ g| < |q - n * 2 ^ f| := by
  obtain ⟨_, normal⟩ := h.normal.resolve_left (double.least.trans_lt finer).ne'
  have below := double.value_lt finer
  have step : ((2 ^ 52 : Nat) : ℝ) = 2 ^ 52 := by norm_num
  calc |q - r * 2 ^ g| ≤ |q - (2 ^ 52 : Nat) * 2 ^ g| := h.le_step _
    _ = q - 2 ^ 52 * 2 ^ g := by rw [step, abs_of_nonneg (sub_nonneg.mpr normal)]
    _ < q - n * 2 ^ f := sub_lt_sub_left below q
    _ ≤ |q - n * 2 ^ f| := le_abs_self _

/-- No double is nearer. -/
theorem le_double (h : OnGrid q g r) {n : Nat} {f : Int} (double : IsDouble n f) :
    |q - r * 2 ^ g| ≤ |q - n * 2 ^ f| := by
  rcases lt_or_ge f g with finer | coarser
  · exact (h.lt_of_finer double finer).le
  · rw [value_on_grid n coarser]
    exact h.le_step _

/-- Where another double is equally near, the number of steps is even. -/
theorem even_of_tie (h : OnGrid q g r) {n : Nat} {f : Int} (double : IsDouble n f)
    (other : (n : ℝ) * 2 ^ f ≠ r * 2 ^ g) (tie : |q - r * 2 ^ g| = |q - n * 2 ^ f|) :
    r % 2 = 0 := by
  rcases lt_or_ge f g with finer | coarser
  · exact absurd tie (h.lt_of_finer double finer).ne
  · rw [value_on_grid n coarser] at other tie
    have apart := h.half_le (k := n * 2 ^ (f - g).toNat) fun same => other (by rw [same])
    exact h.even (le_antisymm h.near (tie ▸ apart))

end OnGrid

/-- The double that stands for so many steps of a grid. -/
def settled (g : Int) (r : Nat) : UnpackedFloat :=
  if none : r = 0 then .zero .positive
  else if r = 2 ^ 53 then .finite .positive (2 ^ 52) (g + 1) (by decide)
  else .finite .positive r g (Nat.pos_of_ne_zero none)

namespace OnGrid

variable {q : ℝ} {g : Int} {r : Nat}

/-- A number that rounds to a double in range is rounded to it. -/
theorem nearest_of_parts (h : OnGrid q g r) {x : Float} {m : Nat} {e : Int}
    (parts : Binary.ofFloat x = .finite false m e) (value : (m : ℝ) * 2 ^ e = r * 2 ^ g)
    (parity : r % 2 = 0 → m % 2 = 0) (below : q < overflow) : Nearest q x := by
  refine .finite parts below ?_ ?_
  · intro y n f other
    rw [value]
    exact h.le_double (isDouble_of_ofFloat other)
  · intro y n f other distinct tie
    rw [value] at tie
    refine parity (h.even_of_tie (isDouble_of_ofFloat other) ?_ tie)
    intro same
    obtain ⟨rfl, rfl⟩ := (isDouble_of_ofFloat other).parts_eq (isDouble_of_ofFloat parts)
      (same.trans value.symm)
    exact distinct (eq_of_ofFloat (other.trans parts.symm) (by rw [other]; nofun))

theorem le_add_half (h : OnGrid q g r) : q ≤ (r + 1 / 2) * 2 ^ g := by
  have upper := (abs_le.mp h.near).2
  linarith

theorem sub_half_le (h : OnGrid q g r) : (r - 1 / 2) * 2 ^ g ≤ q := by
  have lower := (abs_le.mp h.near).1
  linarith

/-- Half a step beyond the largest odd number of steps is not rounded to it. -/
theorem lt_add_half (h : OnGrid q g r) (odd : r % 2 = 1) : q < (r + 1 / 2) * 2 ^ g := by
  refine lt_of_le_of_ne h.le_add_half fun tie => ?_
  have half : q - r * 2 ^ g = 2 ^ g / 2 := by
    rw [tie]
    ring
  have positive : (0 : ℝ) < 2 ^ g / 2 := by positivity
  have even := h.even (by rw [half, abs_of_pos positive])
  omega

/-- A number in the range of a grid of doubles is no number that is rounded to an infinity. -/
theorem lt_overflow (h : OnGrid q g r) (small : r < 2 ^ 53) (most : g ≤ 971) : q < overflow := by
  have power : (2 : ℝ) ^ g ≤ 2 ^ (971 : Int) := zpow_le_zpow_right₀ one_le_two most
  have positive : (0 : ℝ) < 2 ^ g := by positivity
  rw [overflow_eq]
  rcases Nat.lt_or_ge r (2 ^ 53 - 1) with smaller | largest
  · have steps : (r : ℝ) ≤ 2 ^ 53 - 2 := by
      have : r + 2 ≤ 2 ^ 53 := by omega
      have cast : ((r + 2 : Nat) : ℝ) ≤ (2 ^ 53 : Nat) := by exact_mod_cast this
      push_cast at cast
      linarith
    calc q ≤ (r + 1 / 2) * 2 ^ g := h.le_add_half
      _ < (2 ^ 53 - 1 / 2) * 2 ^ g := by
        apply mul_lt_mul_of_pos_right _ positive
        linarith
      _ ≤ (2 ^ 53 - 1 / 2) * 2 ^ (971 : Int) := by
        apply mul_le_mul_of_nonneg_left power
        norm_num
  · obtain rfl : r = 2 ^ 53 - 1 := by omega
    have steps : (((2 ^ 53 - 1 : Nat) : ℝ) + 1 / 2) = 2 ^ 53 - 1 / 2 := by norm_num
    calc q < (((2 ^ 53 - 1 : Nat) : ℝ) + 1 / 2) * 2 ^ g := h.lt_add_half (by decide)
      _ = (2 ^ 53 - 1 / 2) * 2 ^ g := by rw [steps]
      _ ≤ (2 ^ 53 - 1 / 2) * 2 ^ (971 : Int) := by
        apply mul_le_mul_of_nonneg_left power
        norm_num

/-- The same for a number that is rounded up out of its grid. -/
theorem carry_lt_overflow (h : OnGrid q g (2 ^ 53)) (most : g < 971) : q < overflow := by
  have power : (2 : ℝ) ^ (g + 1) ≤ 2 ^ (971 : Int) := zpow_le_zpow_right₀ one_le_two (by omega)
  rw [zpow_add_one₀ two_ne_zero] at power
  have positive : (0 : ℝ) < 2 ^ g := by positivity
  have upper := h.le_add_half
  rw [overflow_eq]
  generalize (2 : ℝ) ^ (971 : Int) = p at power ⊢
  push_cast at upper
  linarith

theorem overflow_le (h : OnGrid q g r) (large : 971 < g) : overflow ≤ q := by
  obtain ⟨_, normal⟩ := h.normal.resolve_left (by rw [leastExponent_eq]; omega)
  have power : (2 : ℝ) ^ (971 + 1 : Int) ≤ 2 ^ g := zpow_le_zpow_right₀ one_le_two (by omega)
  rw [zpow_add_one₀ two_ne_zero] at power
  have positive : (0 : ℝ) < 2 ^ (971 : Int) := by positivity
  rw [overflow_eq]
  generalize (2 : ℝ) ^ (971 : Int) = p at power positive ⊢
  linarith

theorem overflow_le_carry (h : OnGrid q g (2 ^ 53)) (large : 971 ≤ g) : overflow ≤ q := by
  have power : (2 : ℝ) ^ (971 : Int) ≤ 2 ^ g := zpow_le_zpow_right₀ one_le_two large
  have lower := h.sub_half_le
  rw [overflow_eq]
  push_cast at lower
  linarith

/-- **Rounding on the grid is rounding to the nearest double.** -/
theorem nearest_settled (h : OnGrid q g r) : Nearest q (.ofModel (.pack (settled g r))) := by
  unfold settled
  split_ifs with none carry
  · have least : g = leastExponent := h.normal.resolve_right fun normal => by
      rw [none] at normal
      exact absurd normal.1 (by decide)
    refine h.nearest_of_parts ofFloat_zero ?_ (fun _ => rfl) (h.lt_overflow (by omega) ?_)
    · rw [none, least]
    · rw [least]
      decide
  · subst carry
    have positive : 0 < 2 ^ 52 := by decide
    rcases lt_or_ge g 971 with small | large
    · have double : IsDouble (2 ^ 52) (g + 1) :=
        ⟨by decide, by have := h.least; omega, by omega, .inl le_rfl⟩
      refine h.nearest_of_parts (ofFloat_pack positive double) ?_ (fun _ => by decide)
        (h.carry_lt_overflow small)
      rw [zpow_add_one₀ two_ne_zero]
      push_cast
      ring
    · rw [pack_of_large positive (by omega)]
      exact .infinite ofFloat_infinity (h.overflow_le_carry large)
  · have positive := Nat.pos_of_ne_zero none
    have small : r < 2 ^ 53 := lt_of_le_of_ne h.top carry
    rcases le_or_gt g 971 with most | large
    · have double : IsDouble r g := ⟨small, h.least, most, (h.normal.symm.imp_left And.left)⟩
      exact h.nearest_of_parts (ofFloat_pack positive double) rfl id (h.lt_overflow small most)
    · rw [pack_of_large positive large]
      exact .infinite ofFloat_infinity (h.overflow_le large)

end OnGrid

/-! ## One nearest double -/

/-- After an even mantissa there is another double before the next even one. -/
theorem IsDouble.next {m : Nat} {e : Int} (double : IsDouble m e) (even : m % 2 = 0) :
    IsDouble (m + 1) e :=
  ⟨by have := double.bound; omega, double.least, double.most,
    double.hidden.imp_left fun hidden => by omega⟩

/-- Two doubles with even mantissas are never equally near with none between them. -/
theorem exists_nearer {q : ℝ} {m n : Nat} {e f : Int} (low : IsDouble m e) (high : IsDouble n f)
    (less : (m : ℝ) * 2 ^ e < n * 2 ^ f) (lowEven : m % 2 = 0) (highEven : n % 2 = 0)
    (tie : |q - m * 2 ^ e| = |q - n * 2 ^ f|) :
    |q - (m + 1 : Nat) * 2 ^ e| < |q - m * 2 ^ e| := by
  have coarser : e ≤ f := by
    by_contra finer
    exact absurd less (high.value_lt_of_lt low (not_le.mp finer)).not_gt
  rw [value_on_grid n coarser] at less tie
  have positive : (0 : ℝ) < 2 ^ e := by positivity
  have later : m < n * 2 ^ (f - e).toNat := by
    exact_mod_cast lt_of_mul_lt_mul_right less positive.le
  have even : n * 2 ^ (f - e).toNat % 2 = 0 := by rw [Nat.mul_mod, highEven, Nat.zero_mul]
  generalize n * 2 ^ (f - e).toNat = k at *
  have two : (m : ℝ) + 2 ≤ k := by
    have steps : m + 2 ≤ k := by omega
    exact_mod_cast steps
  have middle : q = (m + k) / 2 * 2 ^ e := by
    rcases abs_eq_abs.mp tie with same | opposite
    · linarith
    · linarith
  have gap : 0 ≤ (k - m - 2) * (2 : ℝ) ^ e := mul_nonneg (by linarith) positive.le
  have far : q - m * 2 ^ e = (k - m) / 2 * 2 ^ e := by
    rw [middle]
    ring
  have near : q - (m + 1 : Nat) * 2 ^ e = (k - m) / 2 * 2 ^ e - 2 ^ e := by
    rw [middle]
    push_cast
    ring
  rw [far, near, abs_of_nonneg (by linarith), abs_of_pos (by linarith)]
  linarith

namespace Nearest

variable {q : ℝ} {x y : Float}

/-- **A number is rounded to one double only.** -/
theorem unique (hx : Nearest q x) (hy : Nearest q y) : x = y := by
  cases hx with
  | infinite xParts xBeyond =>
    cases hy with
    | infinite yParts _ => exact eq_of_ofFloat (xParts.trans yParts.symm) (by rw [xParts]; nofun)
    | finite _ yBelow => exact absurd yBelow xBeyond.not_gt
  | @finite m e xParts xBelow xNear xEven =>
    cases hy with
    | infinite _ yBeyond => exact absurd xBelow yBeyond.not_gt
    | @finite n f yParts _ yNear yEven =>
      by_contra distinct
      have tie : |q - m * 2 ^ e| = |q - n * 2 ^ f| :=
        le_antisymm (xNear y n f yParts) (yNear x m e xParts)
      have mEven := xEven y n f yParts (Ne.symm distinct) tie
      have nEven := yEven x m e xParts distinct tie.symm
      have xDouble := isDouble_of_ofFloat xParts
      have yDouble := isDouble_of_ofFloat yParts
      rcases lt_trichotomy ((m : ℝ) * 2 ^ e) (n * 2 ^ f) with less | same | greater
      · obtain ⟨z, zParts⟩ := exists_ofFloat (xDouble.next mEven)
        exact absurd (exists_nearer xDouble yDouble less mEven nEven tie)
          (xNear z _ _ zParts).not_gt
      · obtain ⟨rfl, rfl⟩ := xDouble.parts_eq yDouble same
        exact distinct (eq_of_ofFloat (xParts.trans yParts.symm) (by rw [xParts]; nofun))
      · obtain ⟨z, zParts⟩ := exists_ofFloat (yDouble.next nEven)
        exact absurd (exists_nearer yDouble xDouble greater nEven mEven tie.symm)
          (yNear z _ _ zParts).not_gt

end Nearest

/-- The value of a double is no number that is rounded to an infinity. -/
theorem IsDouble.value_lt_overflow {m : Nat} {e : Int} (double : IsDouble m e) :
    (m : ℝ) * 2 ^ e < overflow := by
  have mantissa : (m : ℝ) ≤ 2 ^ 53 - 1 := by
    have bound : m + 1 ≤ 2 ^ 53 := double.bound
    have cast : ((m + 1 : Nat) : ℝ) ≤ (2 ^ 53 : Nat) := by exact_mod_cast bound
    push_cast at cast
    linarith
  have power : (2 : ℝ) ^ e ≤ 2 ^ (971 : Int) := zpow_le_zpow_right₀ one_le_two double.most
  have positive : (0 : ℝ) < 2 ^ (971 : Int) := by positivity
  rw [overflow_eq]
  calc (m : ℝ) * 2 ^ e ≤ m * 2 ^ (971 : Int) := by gcongr
    _ ≤ (2 ^ 53 - 1) * 2 ^ (971 : Int) := by gcongr
    _ < (2 ^ 53 - 1 / 2) * 2 ^ (971 : Int) := mul_lt_mul_of_pos_right (by norm_num) positive

/-- The value of a double is rounded to that double. -/
theorem nearest_self {x : Float} {m : Nat} {e : Int} (parts : Binary.ofFloat x = .finite false m e) :
    Nearest (m * 2 ^ e) x := by
  have double := isDouble_of_ofFloat parts
  refine .finite parts double.value_lt_overflow ?_ ?_
  · intro y n f _
    rw [sub_self, abs_zero]
    exact abs_nonneg _
  · intro y n f other distinct tie
    rw [sub_self, abs_zero] at tie
    have same := sub_eq_zero.mp (abs_eq_zero.mp tie.symm)
    obtain ⟨rfl, rfl⟩ := double.parts_eq (isDouble_of_ofFloat other) same
    exact absurd (eq_of_ofFloat (other.trans parts.symm) (by rw [other]; nofun)) distinct

end Toolpath.Decimal
