import Toolpath.Proofs.SignedRounding

/-!
# The arithmetic of doubles

A sum, a difference, a product, a quotient and a root of finite doubles are the exact one rounded
(`rounds_add`, `rounds_sub`, `rounds_mul`, `rounds_div`, `rounds_sqrt`). A negative and an absolute
value are exact (`toReal_neg`, `toReal_abs`).

The other way round, a result that is finite was computed from finite numbers, but for a quotient's
divisor. What overflows is an infinity, which is more than every finite double (`lt_infinity`), and
a difference that is not nothing is not rounded to nothing (`toReal_sub_pos`).
-/

namespace Toolpath.Decimal

open Float.Model (Format UnpackedFloat)
open Float.Model.UnpackedFloat

/-! ## Results that are packed -/

/-- What is rounded on a grid with either sign is rounded. -/
theorem rounds_signed (result : Sign → UnpackedFloat) {q : ℝ}
    (mirrored : result .negative = (result .positive).neg) (least : 0 ≤ q)
    (settles : ∃ g r, OnGrid q g r ∧ result .positive = settled g r) (s : Sign) :
    Rounds (factor s * q) (.ofModel (.pack (result s))) := by
  obtain ⟨g, r, grid, positive⟩ := settles
  have nearest : Nearest q (.ofModel (.pack (result .positive))) := by
    rw [positive]
    exact grid.nearest_settled
  cases s with
  | positive =>
    rw [factor_positive, one_mul]
    exact .nonneg least nearest
  | negative =>
    rw [factor_negative, neg_one_mul, mirrored, ofModel_pack_neg]
    exact .nonpos least nearest

/-- The value of a double is rounded to that double. -/
theorem rounds_self {x : Float} (finite : x.isFinite = true) : Rounds (toReal x) x := by
  obtain ⟨m, e, y, parts, ⟨rfl, value⟩ | ⟨rfl, value⟩⟩ := exists_abs_parts finite
  · rw [value]
    exact .nonneg (by positivity) (nearest_self parts)
  · rw [value]
    exact .nonpos (by positivity) (nearest_self parts)

theorem rounds_zero (s : Sign) : Rounds 0 (.ofModel (.pack (.zero s))) := by
  have finite : (Float.ofModel (.pack (.zero s))).isFinite = true := by cases s <;> rfl
  have value : toReal (.ofModel (.pack (.zero s))) = 0 := by cases s <;> rfl
  have zero := rounds_self finite
  rwa [value] at zero

theorem round_neg (s : Sign) (m : Nat) (e : Int) :
    UnpackedFloat.round Format.binary64 (-s) m e =
      (UnpackedFloat.round Format.binary64 s m e).neg :=
  roundWithAccuracy_neg s _ _ _

theorem rounds_round (s : Sign) {m : Nat} (e : Int) (positive : 0 < m) :
    Rounds (factor s * (m * 2 ^ e))
      (.ofModel (.pack (UnpackedFloat.round Format.binary64 s m e))) :=
  rounds_signed (fun s => UnpackedFloat.round Format.binary64 s m e)
    (round_neg .positive m e) (by positivity) (round_onGrid positive) s

/-- An integer of either sign times a power of two. -/
theorem rounds_normalize (k : Int) (e : Int) :
    Rounds (k * 2 ^ e) (.ofModel (.pack (normalize Format.binary64 k e .positive))) := by
  unfold UnpackedFloat.normalize
  rcases lt_trichotomy k 0 with below | rfl | above
  · rw [compare_lt_iff_lt.mpr below]
    have rounded := rounds_round .negative e (m := (-k).toNat) (by omega)
    have cast : (((-k).toNat : Nat) : ℝ) = -k := by exact_mod_cast Int.toNat_of_nonneg (by omega)
    rw [cast] at rounded
    convert rounded using 1
    simp
  · rw [compare_eq_iff_eq.mpr rfl]
    convert rounds_zero .positive using 1
    simp
  · rw [compare_gt_iff_gt.mpr above]
    have rounded := rounds_round .positive e (m := k.toNat) (by omega)
    have cast : ((k.toNat : Nat) : ℝ) = k := by exact_mod_cast Int.toNat_of_nonneg above.le
    rw [cast] at rounded
    convert rounded using 1
    simp

/-! ## The operations -/

theorem Unpacked.rounds {u : UnpackedFloat} (unpacked : Unpacked u) :
    Rounds (worth u) (.ofModel (.pack u)) := by
  have packed : (Float.ofModel (.pack u)).toModel.unpack = u := by
    cases unpacked with
    | zero s => cases s <;> rfl
    | finite s positive double => exact unpack_pack positive double
  have finite : (Float.ofModel (.pack u)).isFinite = true := by
    show (Float.ofModel (.pack u)).toModel.unpack.isFinite = true
    rw [packed]
    cases unpacked <;> rfl
  have rounded := rounds_self finite
  unfold toReal at rounded
  rwa [packed] at rounded

theorem Unpacked.neg {u : UnpackedFloat} (unpacked : Unpacked u) : Unpacked u.neg := by
  cases unpacked with
  | zero s => exact .zero (-s)
  | finite s positive double => exact .finite (-s) positive double

theorem rounds_add_unpacked {u v : UnpackedFloat} (left : Unpacked u) (right : Unpacked v) :
    Rounds (worth u + worth v) (.ofModel (.pack (add Format.binary64 u v))) := by
  cases left with
  | zero s =>
    cases right with
    | zero t =>
      have none : worth (.zero s) + worth (.zero t) = 0 := add_zero 0
      rw [none]
      cases s <;> cases t <;> exact rounds_zero _
    | finite t positive double =>
      have alone := (Unpacked.finite t positive double).rounds
      rwa [← zero_add (worth _)] at alone
  | @finite s m e positive double =>
    cases right with
    | zero t =>
      have alone := (Unpacked.finite s positive double).rounds
      rwa [← add_zero (worth _)] at alone
    | @finite t n f positive' double' =>
      -- both mantissas are brought to the smaller exponent, which loses nothing
      have aligned (k : Nat) (h : Int) (least : min e f ≤ h) :
          ((k <<< (h - min e f).toNat : Nat) : ℝ) * 2 ^ min e f = k * 2 ^ h := by
        have exponent : h - ((h - min e f).toNat : Int) = min e f := by omega
        have value := shiftLeft_value k (h - min e f).toNat h
        rwa [exponent] at value
      have sum := rounds_normalize (s.apply (m <<< (e - min e f).toNat : Nat) +
        t.apply (n <<< (f - min e f).toNat : Nat)) (min e f)
      rw [Int.cast_add, cast_apply, cast_apply, Int.cast_natCast, Int.cast_natCast, add_mul,
        mul_assoc, mul_assoc, aligned m e (min_le_left e f), aligned n f (min_le_right e f)] at sum
      exact sum

theorem rounds_mul_unpacked {u v : UnpackedFloat} (left : Unpacked u) (right : Unpacked v) :
    Rounds (worth u * worth v) (.ofModel (.pack (mul Format.binary64 u v))) := by
  cases left with
  | zero s =>
    have none : worth (.zero s) * worth v = 0 := zero_mul _
    rw [none]
    cases right with
    | zero t => exact rounds_zero _
    | finite t positive double => exact rounds_zero _
  | @finite s m e positive double =>
    cases right with
    | zero t =>
      have none : worth (.finite s m e positive) * worth (.zero t) = 0 := mul_zero _
      rw [none]
      exact rounds_zero _
    | @finite t n f positive' double' =>
      have product := rounds_signed
        (fun s => roundWithAccuracy Format.binary64 s (m * n) (e + f) .exact)
        (roundWithAccuracy_neg .positive _ _ _) (by positivity)
        (mul_onGrid positive positive' (IsDouble.mul_fine positive positive' double double'))
        (s * t)
      rw [factor_mul, mul_mul_mul_comm] at product
      exact product

theorem rounds_div_unpacked {u v : UnpackedFloat} (left : Unpacked u) (right : Unpacked v)
    (some : worth v ≠ 0) :
    Rounds (worth u / worth v) (.ofModel (.pack (div Format.binary64 u v))) := by
  cases right with
  | zero t => exact absurd rfl some
  | @finite t n f positive' double' =>
    cases left with
    | zero s =>
      have none : worth (.zero s) / worth (.finite t n f positive') = 0 := zero_div _
      rw [none]
      exact rounds_zero _
    | @finite s m e positive double =>
      have quotient := rounds_signed
        (fun s => let (w, place, accuracy) := divCore Format.binary64 m e n f
          roundWithAccuracy Format.binary64 s w place accuracy)
        (roundWithAccuracy_neg .positive _ _ _) (by positivity)
        (div_onGrid positive positive') (s / t)
      rw [factor_div, div_mul_div_comm] at quotient
      exact quotient

/-! ## Roots -/

/-- An integer's root stands for the exact one, with what is left of the integer as accuracy. -/
theorem stands_sqrt (n : Nat) : Stands (ExtendedMantissa.ofMantissaAndAccuracy n.sqrt
    (if n - n.sqrt * n.sqrt = 0 then .exact
      else .inexact (if n - n.sqrt * n.sqrt ≤ n.sqrt then .lt else .gt))) √n := by
  have low := n.sqrt_le
  have high := n.lt_succ_sqrt
  generalize n.sqrt = s at *
  have cast : (0 : ℝ) ≤ s := s.cast_nonneg
  split_ifs with none small
  · obtain rfl : n = s * s := by omega
    refine .exact ?_
    rw [Nat.cast_mul, Real.sqrt_mul_self cast]
  · have above : ((s * s : Nat) : ℝ) < n := by exact_mod_cast (by omega : s * s < n)
    have below : (n : ℝ) ≤ (s * s + s : Nat) := by exact_mod_cast (by omega : n ≤ s * s + s)
    push_cast at above below
    refine .belowHalf (Real.lt_sqrt_of_sq_lt (by linarith)) ?_
    rw [Real.sqrt_lt' (by linarith)]
    linarith
  · have above : ((s * s + s + 1 : Nat) : ℝ) ≤ n := by
      exact_mod_cast (by omega : s * s + s + 1 ≤ n)
    have below : (n : ℝ) < (s + 1) * (s + 1) := by exact_mod_cast high
    push_cast at above below
    refine .aboveHalf (Real.lt_sqrt_of_sq_lt (by linarith)) ?_
    rw [Real.sqrt_lt' (by linarith)]
    linarith

/-- A root is computed with enough places to begin with. -/
theorem sqrt_onGrid {m : Nat} {e : Int} (positive : 0 < m) : ∃ g r, OnGrid √(m * 2 ^ e) g r ∧
    UnpackedFloat.sqrt Format.binary64 (.finite .positive m e positive) = settled g r := by
  have core : sqrtCore Format.binary64 m e =
      let t := min (e / 2) (max ((m.log2 + 1 + e + 1) / 2 - 53) leastExponent)
      let n := m <<< (e - 2 * t).toNat
      (n.sqrt, t, if n - n.sqrt * n.sqrt = 0 then .exact
        else .inexact (if n - n.sqrt * n.sqrt ≤ n.sqrt then .lt else .gt)) := rfl
  show ∃ g r, _ ∧ (let (w, t, accuracy) := sqrtCore Format.binary64 m e
    roundWithAccuracy Format.binary64 .positive w t accuracy) = settled g r
  rw [core]
  dsimp only
  have enough : min (e / 2) (max ((m.log2 + 1 + e + 1) / 2 - 53) leastExponent) ≤ e / 2 :=
    min_le_left _ _
  have least : min (e / 2) (max ((m.log2 + 1 + e + 1) / 2 - 53) leastExponent) ≤
    max ((m.log2 + 1 + e + 1) / 2 - 53) leastExponent := min_le_right _ _
  generalize min (e / 2) (max ((m.log2 + 1 + e + 1) / 2 - 53) leastExponent) = t at *
  obtain ⟨k, shift⟩ : ∃ k, (e - 2 * t).toNat = k := ⟨_, rfl⟩
  have bits := log2_shiftLeft k positive
  have value : √((m : ℝ) * 2 ^ e) / 2 ^ t = √((m <<< k : Nat) : ℝ) := by
    have split : (m : ℝ) * 2 ^ e = (m <<< k : Nat) * (2 ^ t) ^ 2 := by
      have exponent : e - (k : Int) = t * (2 : Nat) := by push_cast; omega
      rw [← shiftLeft_value m k e, exponent, zpow_mul, zpow_natCast]
    rw [split, Real.sqrt_mul (by positivity), Real.sqrt_sq (by positivity),
      mul_div_cancel_right₀ _ (by positivity)]
  rw [shift]
  refine roundWithAccuracy_onGrid ?_ ?_
  · by_cases finest : t ≤ leastExponent
    · exact finest.trans (le_max_right _ _)
    · have wide : 2 ^ 104 ≤ m <<< k :=
        (Nat.le_log2 (shiftLeft_pos k positive).ne').mp (by omega)
      have root : 2 ^ 52 ≤ (m <<< k).sqrt := Nat.le_sqrt.mpr (wide.trans' (by decide))
      have places := (Nat.le_log2 (by omega)).mpr root
      unfold lastPlace
      omega
  · rw [value]
    exact stands_sqrt _

theorem rounds_sqrt_unpacked {u : UnpackedFloat} (unpacked : Unpacked u) (least : 0 ≤ worth u) :
    Rounds √(worth u) (.ofModel (.pack (UnpackedFloat.sqrt Format.binary64 u))) := by
  cases unpacked with
  | zero s =>
    have none : √(worth (.zero s)) = 0 := Real.sqrt_zero
    rw [none]
    exact rounds_zero s
  | @finite s m e positive double =>
    have value := value_pos e positive
    cases s with
    | negative =>
      rw [worth_finite, factor_negative] at least
      linarith
    | positive =>
      obtain ⟨g, r, grid, root⟩ := sqrt_onGrid (e := e) positive
      rw [worth_finite, factor_positive, one_mul, root]
      exact .nonneg (Real.sqrt_nonneg _) grid.nearest_settled

/-! ## Sums and products in another order -/

theorem sub_eq_add_neg_unpacked (u v : UnpackedFloat) :
    sub Format.binary64 u v = add Format.binary64 u v.neg := by
  rcases u with s | _ | s | ⟨s, m, e, _⟩
  all_goals rcases v with t | _ | t | ⟨t, n, f, _⟩
  case finite.finite =>
    show normalize Format.binary64 (s.apply _ - t.apply _) _ _ =
      normalize Format.binary64 (s.apply _ + (-t).apply _) _ _
    congr 1
    cases t with
    | negative => exact sub_neg_eq_add _ _
    | positive => exact sub_eq_add_neg _ _
  all_goals rfl

theorem add_comm_unpacked (u v : UnpackedFloat) :
    add Format.binary64 u v = add Format.binary64 v u := by
  rcases u with s | _ | s | ⟨s, m, e, _⟩
  all_goals rcases v with t | _ | t | ⟨t, n, f, _⟩
  case finite.finite =>
    unfold add
    dsimp only
    rw [min_comm, add_comm]
  case infinity.infinity | zero.zero => cases s <;> cases t <;> rfl
  all_goals rfl

theorem mul_neg_neg_unpacked (u v : UnpackedFloat) :
    mul Format.binary64 u.neg v.neg = mul Format.binary64 u v := by
  rcases u with (_ | _) | _ | (_ | _) | ⟨_ | _, m, e, _⟩
  all_goals rcases v with (_ | _) | _ | (_ | _) | ⟨_ | _, n, f, _⟩
  all_goals rfl

/-- What is finite cancels itself, and the zero that is left is the positive one. -/
theorem sub_self_unpacked {u : UnpackedFloat} (unpacked : Unpacked u) :
    sub Format.binary64 u u = .zero .positive := by
  cases unpacked with
  | zero s => cases s <;> rfl
  | finite s positive double =>
    show normalize Format.binary64 (s.apply _ - s.apply _) _ .positive = _
    rw [Int.sub_self]
    rfl

/-! ## Small numbers -/

theorem toReal_zero : toReal 0.0 = 0 := rfl

theorem toReal_one : toReal 1.0 = 1 := by
  have parts : Binary.ofFloat 1.0 = .finite false (2 ^ 52) (-52) := rfl
  rw [toReal_of_parts parts]
  norm_num

theorem toReal_two : toReal 2.0 = 2 := by
  have parts : Binary.ofFloat 2.0 = .finite false (2 ^ 52) (-51) := rfl
  rw [toReal_of_parts parts]
  norm_num

/-! ## Operations on doubles -/

section Operations

variable {x y : Float}

theorem add_eq (x y : Float) :
    x + y = .ofModel (.pack (add Format.binary64 x.toModel.unpack y.toModel.unpack)) := rfl

theorem sub_eq (x y : Float) :
    x - y = .ofModel (.pack (sub Format.binary64 x.toModel.unpack y.toModel.unpack)) := rfl

theorem mul_eq (x y : Float) :
    x * y = .ofModel (.pack (mul Format.binary64 x.toModel.unpack y.toModel.unpack)) := rfl

theorem div_eq (x y : Float) :
    x / y = .ofModel (.pack (div Format.binary64 x.toModel.unpack y.toModel.unpack)) := rfl

theorem add_comm_float (x y : Float) : x + y = y + x := by
  rw [add_eq, add_eq, add_comm_unpacked]

theorem sub_eq_add_neg_float (x y : Float) : x - y = x + -y := by
  rw [sub_eq, add_eq, unpack_neg, sub_eq_add_neg_unpacked]

theorem sub_self_float (finite : x.isFinite = true) : x - x = 0.0 := by
  rw [sub_eq, sub_self_unpacked (unpacked_of_isFinite finite)]
  rfl

theorem neg_mul_neg_float (x y : Float) : -x * -y = x * y := by
  rw [mul_eq, mul_eq, unpack_neg, unpack_neg, mul_neg_neg_unpacked]

/-- **A sum is the exact sum rounded.** -/
theorem rounds_add (left : x.isFinite = true) (right : y.isFinite = true) :
    Rounds (toReal x + toReal y) (x + y) :=
  rounds_add_unpacked (unpacked_of_isFinite left) (unpacked_of_isFinite right)

theorem rounds_sub (left : x.isFinite = true) (right : y.isFinite = true) :
    Rounds (toReal x - toReal y) (x - y) := by
  have sum := rounds_add left (y := -y) (by rwa [isFinite_neg])
  rwa [toReal_neg, ← sub_eq_add_neg, ← sub_eq_add_neg_float] at sum

theorem rounds_mul (left : x.isFinite = true) (right : y.isFinite = true) :
    Rounds (toReal x * toReal y) (x * y) :=
  rounds_mul_unpacked (unpacked_of_isFinite left) (unpacked_of_isFinite right)

theorem rounds_div (left : x.isFinite = true) (right : y.isFinite = true) (some : toReal y ≠ 0) :
    Rounds (toReal x / toReal y) (x / y) :=
  rounds_div_unpacked (unpacked_of_isFinite left) (unpacked_of_isFinite right) some

theorem rounds_half (finite : x.isFinite = true) : Rounds (toReal x / 2) (x / 2.0) := by
  have quotient := rounds_div finite (y := 2.0) rfl (by rw [toReal_two]; exact two_ne_zero)
  rwa [toReal_two] at quotient

theorem rounds_sqrt (finite : x.isFinite = true) (least : 0 ≤ toReal x) :
    Rounds √(toReal x) x.sqrt :=
  rounds_sqrt_unpacked (unpacked_of_isFinite finite) least

/-! ## Finite results -/

/-- What is not finite is packed so. -/
theorem isFinite_of_pack {u : UnpackedFloat}
    (finite : (Float.ofModel (.pack u)).isFinite = true) : u.isFinite = true := by
  cases u with
  | notANumber => cases finite
  | infinity s => cases s <;> cases finite
  | zero | finite => rfl

theorem isFinite_of_add_unpacked {u v : UnpackedFloat}
    (finite : (add Format.binary64 u v).isFinite = true) :
    u.isFinite = true ∧ v.isFinite = true := by
  cases u with
  | notANumber => cases finite
  | infinity s =>
    cases v with
    | infinity t => cases s <;> cases t <;> cases finite
    | notANumber | zero | finite => cases finite
  | zero | finite =>
    cases v with
    | notANumber | infinity => cases finite
    | zero | finite => exact ⟨rfl, rfl⟩

theorem isFinite_of_mul_unpacked {u v : UnpackedFloat}
    (finite : (mul Format.binary64 u v).isFinite = true) :
    u.isFinite = true ∧ v.isFinite = true := by
  cases u with
  | notANumber => cases finite
  | infinity s =>
    cases v with
    | infinity t => cases s <;> cases t <;> cases finite
    | notANumber | zero | finite => cases finite
  | zero | finite =>
    cases v with
    | notANumber | infinity => cases finite
    | zero | finite => exact ⟨rfl, rfl⟩

theorem isFinite_of_div_unpacked {u v : UnpackedFloat}
    (finite : (div Format.binary64 u v).isFinite = true) : u.isFinite = true := by
  cases u with
  | notANumber => cases finite
  | infinity s => cases v <;> cases finite
  | zero | finite => rfl

theorem isFinite_of_sqrt_unpacked {u : UnpackedFloat}
    (finite : (UnpackedFloat.sqrt Format.binary64 u).isFinite = true) : u.isFinite = true := by
  cases u with
  | notANumber => cases finite
  | infinity s => cases s <;> cases finite
  | zero | finite => rfl

/-- A finite sum has finite terms. -/
theorem isFinite_of_add (finite : (x + y).isFinite = true) :
    x.isFinite = true ∧ y.isFinite = true :=
  isFinite_of_add_unpacked (isFinite_of_pack finite)

/-- A finite product has finite factors. -/
theorem isFinite_of_mul (finite : (x * y).isFinite = true) :
    x.isFinite = true ∧ y.isFinite = true :=
  isFinite_of_mul_unpacked (isFinite_of_pack finite)

theorem isFinite_of_div (finite : (x / y).isFinite = true) : x.isFinite = true :=
  isFinite_of_div_unpacked (isFinite_of_pack finite)

theorem isFinite_of_sqrt (finite : x.sqrt.isFinite = true) : x.isFinite = true :=
  isFinite_of_sqrt_unpacked (isFinite_of_pack finite)

/-- The root of a finite double is finite. -/
theorem isFinite_sqrt (finite : x.isFinite = true) (least : 0 ≤ toReal x) :
    x.sqrt.isFinite = true := by
  have root := rounds_sqrt finite least
  by_cases small : toReal x ≤ 1
  · refine root.isFinite (y := 1.0) rfl ?_
    rw [toReal_one, abs_one, abs_of_nonneg (Real.sqrt_nonneg _)]
    exact Real.sqrt_le_one.mpr small
  · refine root.isFinite finite ?_
    rw [abs_of_nonneg (Real.sqrt_nonneg _), abs_of_nonneg least, Real.sqrt_le_left least]
    nlinarith

/-- Nothing is added by a zero. -/
theorem toReal_add_zero (finite : x.isFinite = true) :
    (x + 0.0).isFinite = true ∧ toReal (x + 0.0) = toReal x := by
  have sum := rounds_add finite (y := 0.0) rfl
  rw [toReal_zero, add_zero] at sum
  have whole := sum.isFinite finite le_rfl
  exact ⟨whole, sum.toReal_eq (rounds_self finite) whole finite⟩

/-! ## Absolute values -/

theorem abs_unpacked (u : UnpackedFloat) :
    u.abs = u ∧ 0 ≤ worth u ∨ u.abs = u.neg ∧ worth u ≤ 0 := by
  cases u with
  | notANumber => exact .inl ⟨rfl, le_rfl⟩
  | infinity s | zero s =>
    cases s with
    | positive => exact .inl ⟨rfl, le_rfl⟩
    | negative => exact .inr ⟨rfl, le_rfl⟩
  | finite s m e positive =>
    have value := (value_pos e positive).le
    cases s with
    | positive => exact .inl ⟨rfl, by simpa using value⟩
    | negative => exact .inr ⟨rfl, by simpa using value⟩

/-- The absolute value of a double is the double or its negative. -/
theorem abs_cases (x : Float) : x.abs = x ∧ 0 ≤ toReal x ∨ x.abs = -x ∧ toReal x ≤ 0 := by
  have absolute : x.abs = .ofModel (.pack x.toModel.unpack.abs) := rfl
  rcases abs_unpacked x.toModel.unpack with ⟨same, least⟩ | ⟨negated, most⟩
  · rw [absolute, same, ofModel_pack_unpack]
    exact .inl ⟨rfl, least⟩
  · rw [absolute, negated, ofModel_pack_neg, ofModel_pack_unpack]
    exact .inr ⟨rfl, most⟩

@[simp] theorem toReal_abs (x : Float) : toReal x.abs = |toReal x| := by
  rcases abs_cases x with ⟨same, least⟩ | ⟨negated, most⟩
  · rw [same, abs_of_nonneg least]
  · rw [negated, toReal_neg, abs_of_nonpos most]

theorem isFinite_abs (x : Float) : x.abs.isFinite = x.isFinite := by
  rcases abs_cases x with ⟨same, _⟩ | ⟨negated, _⟩
  · rw [same]
  · rw [negated, isFinite_neg]

end Operations

/-! ## Infinities and differences -/

/-- Every double is a whole number of least ones. -/
theorem exists_toReal_eq {x : Float} (finite : x.isFinite = true) :
    ∃ k : Int, toReal x = k * 2 ^ leastExponent := by
  obtain ⟨m, e, y, parts, ⟨_, value⟩ | ⟨_, value⟩⟩ := exists_abs_parts finite
  · rw [value, value_on_grid m (isDouble_of_ofFloat parts).least]
    exact ⟨(m * 2 ^ (e - leastExponent).toNat : Nat), by push_cast; rfl⟩
  · rw [value, value_on_grid m (isDouble_of_ofFloat parts).least]
    exact ⟨-(m * 2 ^ (e - leastExponent).toNat : Nat), by push_cast; ring⟩

section Bounds

variable {x y : Float}

/-- What is defined and not finite is an infinity. -/
theorem exists_infinity (defined : x.isNaN = false) (infinite : x.isFinite = false) :
    ∃ s, x.toModel.unpack = .infinity s := by
  change x.toModel.unpack.isNaN = false at defined
  change x.toModel.unpack.isFinite = false at infinite
  cases unpacked : x.toModel.unpack with
  | infinity s => exact ⟨s, rfl⟩
  | notANumber =>
    rw [unpacked] at defined
    cases defined
  | zero | finite =>
    rw [unpacked] at infinite
    cases infinite

theorem half_defined (defined : x.isNaN = false) : (x / 2.0).isNaN = false := by
  by_cases finite : x.isFinite = true
  · exact (rounds_half finite).isNaN_eq_false
  · obtain ⟨s, unpacked⟩ := exists_infinity defined (Bool.eq_false_of_not_eq_true finite)
    rw [div_eq, unpacked]
    cases s <;> rfl

theorem unpack_of_infinite (parts : Binary.ofFloat x = .infinite false) :
    x.toModel.unpack = .infinity .positive :=
  Binary.ofUnpacked_inj ((ofFloat_eq x).symm.trans parts) (by rw [← ofFloat_eq, parts]; nofun)

/-- Every finite double is less than an infinity. -/
theorem lt_infinity (left : x.isFinite = true) (right : Binary.ofFloat y = .infinite false) :
    x < y := by
  show decide (x.toModel.unpack.lt y.toModel.unpack = true) = true
  rw [unpack_of_infinite right, decide_eq_true_iff]
  have finite := unpacked_of_isFinite left
  generalize x.toModel.unpack = u at finite
  cases finite with
  | zero s => rfl
  | finite s => cases s <;> rfl

/-- An infinity stays one whatever is added. -/
theorem add_infinity (left : x.isFinite = true) (right : Binary.ofFloat y = .infinite false) :
    Binary.ofFloat (x + y) = .infinite false := by
  have finite := unpacked_of_isFinite left
  rw [add_eq, unpack_of_infinite right]
  generalize x.toModel.unpack = u at finite
  cases finite with
  | zero s | finite s => exact ofFloat_infinity

/-- A number above a positive double is rounded to something positive, if only to an infinity. -/
theorem Rounds.pos {q : ℝ} (h : Rounds q x) (other : y.isFinite = true) (some : 0 < toReal y)
    (le : toReal y ≤ q) : 0.0 < x := by
  by_cases finite : x.isFinite = true
  · rw [lt_iff rfl finite, toReal_zero]
    exact some.trans_le (h.le_toReal finite other le)
  · exact lt_infinity rfl (h.infinite (some.le.trans le) finite)

/-- **A difference that is not nothing is not rounded to nothing.** Both terms are whole numbers of
least doubles. -/
theorem toReal_sub_pos (left : x.isFinite = true) (right : y.isFinite = true)
    (finite : (y - x).isFinite = true) (less : toReal x < toReal y) : 0 < toReal (y - x) := by
  obtain ⟨z, parts⟩ := exists_ofFloat (m := 1) (e := leastExponent)
    ⟨by decide, le_rfl, by decide, .inr rfl⟩
  have step : toReal z = 2 ^ leastExponent := by simpa using toReal_of_parts parts
  have positive : (0 : ℝ) < 2 ^ leastExponent := by positivity
  obtain ⟨j, hx⟩ := exists_toReal_eq left
  obtain ⟨k, hy⟩ := exists_toReal_eq right
  have apart : (j : ℝ) + 1 ≤ k := by
    rw [hx, hy] at less
    exact_mod_cast lt_of_mul_lt_mul_right less positive.le
  have gap : toReal z ≤ toReal y - toReal x := by
    rw [step, hx, hy, ← sub_mul]
    exact le_mul_of_one_le_left positive.le (by linarith)
  have bound := (rounds_sub right left).le_toReal finite (isFinite_of_parts parts) gap
  exact (positive.trans_eq step.symm).trans_le bound

end Bounds

end Toolpath.Decimal
