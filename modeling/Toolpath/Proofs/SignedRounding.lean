import Toolpath.Proofs.Exact
import Toolpath.Proofs.Rounding
import Toolpath.Proofs.ShortestDecimals

/-!
# Rounding numbers of either sign

`toReal` is the number that a finite double is, and `Rounds` says that a double is what a number of
either sign is rounded to. Comparisons of finite doubles are those of their numbers (`lt_iff`,
`le_iff`).

Of rounding three things are proved. No finite double is nearer (`Rounds.near`). It keeps the order,
and with it every bound that is a double (`Rounds.mono`, `Rounds.toReal_le`, `Rounds.le_toReal`).
And it is off by the 2 to the 53rd part of the number at most, or by half of the least double
(`Rounds.close`).

An infinite or undefined double counts as nothing here: `toReal` is used of finite ones.
-/

namespace Toolpath.Decimal

open Float.Model (Format UnpackedFloat)
open Float.Model.UnpackedFloat

/-! ## Signs -/

/-- A sign as a factor. -/
def factor : Sign → ℝ
  | .positive => 1
  | .negative => -1

@[simp] theorem factor_positive : factor .positive = 1 := rfl

@[simp] theorem factor_negative : factor .negative = -1 := rfl

theorem factor_neg (s : Sign) : factor (-s) = -factor s := by
  cases s with
  | positive => rfl
  | negative => exact (neg_neg 1).symm

theorem factor_mul (s t : Sign) : factor (s * t) = factor s * factor t := by
  cases s <;> cases t <;> norm_num [factor]

theorem factor_div (s t : Sign) : factor (s / t) = factor s / factor t := by
  cases s <;> cases t <;> norm_num [factor] <;> rfl

theorem cast_apply (s : Sign) (n : Int) : ((s.apply n : Int) : ℝ) = factor s * n := by
  cases s with
  | positive => exact (one_mul _).symm
  | negative => simp [Sign.apply]

/-! ## Packing and signs -/

theorem eq_of_unpack {x y : Float} (same : x.toModel.unpack = y.toModel.unpack) : x = y := by
  have bits := (unpack_inj_of_valid x.toModel.valid y.toModel.valid).mp same
  exact Float.toBits_inj.mp (UInt64.toBitVec_inj.mp bits)

/-- A double is packed from what it is unpacked to. -/
theorem ofModel_pack_unpack (x : Float) : Float.ofModel (.pack x.toModel.unpack) = x := by
  have bits : (Float.Model.pack x.toModel.unpack).toBits = x.toModel.toBits :=
    UInt64.toBitVec_inj.mp (pack_unpack_of_valid x.toModel.valid)
  exact Float.toBits_inj.mp bits

theorem unpack_components_neg (s : Sign) (exponent : BitVec 11) (mantissa : BitVec 52) :
    UnpackedFloat.unpack Format.binary64 (packComponents Format.binary64 (-s) exponent mantissa) =
      (UnpackedFloat.unpack Format.binary64
        (packComponents Format.binary64 s exponent mantissa)).neg := by
  unfold UnpackedFloat.unpack
  simp only [unpackMantissa_packComponents, unpackExponent_packComponents,
    unpackSign_packComponents, Sign.ofBitVec_toBitVec]
  split_ifs <;> rfl

/-- Packing goes along with a change of sign, also where it makes an infinity. -/
theorem unpack_pack_neg (u : UnpackedFloat) :
    (Float.Model.pack u.neg).unpack = (Float.Model.pack u).unpack.neg := by
  cases u with
  | notANumber => rfl
  | infinity s | zero s => cases s <;> rfl
  | finite s m e positive =>
    show UnpackedFloat.unpack Format.binary64
      (UnpackedFloat.pack Format.binary64 (.finite (-s) m e positive)) =
      (UnpackedFloat.unpack Format.binary64
        (UnpackedFloat.pack Format.binary64 (.finite s m e positive))).neg
    rw [pack_finite, pack_finite]
    split_ifs
    · cases s <;> rfl
    · exact unpack_components_neg s _ _
    · exact unpack_components_neg s _ _

theorem unpack_neg (x : Float) : (-x).toModel.unpack = x.toModel.unpack.neg := by
  have packed := unpack_pack_neg x.toModel.unpack
  have whole := congrArg (fun y => y.toModel.unpack) (ofModel_pack_unpack x)
  exact packed.trans (congrArg UnpackedFloat.neg whole)

theorem ofModel_pack_neg (u : UnpackedFloat) :
    Float.ofModel (.pack u.neg) = -Float.ofModel (.pack u) :=
  eq_of_unpack ((unpack_pack_neg u).trans (unpack_neg _).symm)

theorem neg_neg_unpacked (u : UnpackedFloat) : u.neg.neg = u := by
  cases u with
  | notANumber => rfl
  | infinity s | zero s | finite s => cases s <;> rfl

theorem neg_neg_float (x : Float) : - -x = x :=
  eq_of_unpack (by rw [unpack_neg, unpack_neg, neg_neg_unpacked])

theorem roundWithAccuracy_neg (s : Sign) (m : Nat) (e : Int) (accuracy : Accuracy) :
    roundWithAccuracy Format.binary64 (-s) m e accuracy =
      (roundWithAccuracy Format.binary64 s m e accuracy).neg := by
  unfold roundWithAccuracy
  dsimp only
  split_ifs <;> rfl

/-! ## What doubles are worth -/

/-- What a double that has been unpacked is worth. -/
noncomputable def worth : UnpackedFloat → ℝ
  | .finite s m e _ => factor s * (m * ((2 : Nat) : ℝ) ^ e)
  | .zero _ | .infinity _ | .notANumber => 0

@[simp] theorem worth_finite (s : Sign) {m : Nat} (e : Int) (positive : 0 < m) :
    worth (.finite s m e positive) = factor s * (m * 2 ^ e) := by
  rw [worth, Nat.cast_ofNat]

@[simp] theorem worth_zero (s : Sign) : worth (.zero s) = 0 := rfl

/-- The number that a double is. An infinite or undefined one counts as nothing. -/
noncomputable def toReal (x : Float) : ℝ := worth x.toModel.unpack

theorem worth_neg (u : UnpackedFloat) : worth u.neg = -worth u := by
  cases u with
  | notANumber | infinity s | zero s => exact neg_zero.symm
  | finite s m e positive =>
    show factor (-s) * _ = -(factor s * _)
    rw [factor_neg, neg_mul]

@[simp] theorem toReal_neg (x : Float) : toReal (-x) = -toReal x := by
  unfold toReal
  rw [unpack_neg, worth_neg]

theorem isFinite_neg (x : Float) : (-x).isFinite = x.isFinite := by
  show (-x).toModel.unpack.isFinite = x.toModel.unpack.isFinite
  rw [unpack_neg]
  cases x.toModel.unpack <;> rfl

theorem isNaN_neg (x : Float) : (-x).isNaN = x.isNaN := by
  show (-x).toModel.unpack.isNaN = x.toModel.unpack.isNaN
  rw [unpack_neg]
  cases x.toModel.unpack <;> rfl

/-- What a double with a mantissa and an exponent is worth. -/
theorem toReal_of_parts {x : Float} {negative : Bool} {m : Nat} {e : Int}
    (parts : Binary.ofFloat x = .finite negative m e) :
    toReal x = (if negative then -1 else 1) * (m * 2 ^ e) := by
  rw [ofFloat_eq] at parts
  unfold toReal
  cases unpacked : x.toModel.unpack with
  | notANumber | infinity s =>
    rw [unpacked] at parts
    cases parts
  | zero s =>
    rw [unpacked] at parts
    injection parts with _ none _
    simp [← none]
  | finite s n f positive =>
    rw [unpacked] at parts
    injection parts with sign mantissa exponent
    subst mantissa exponent sign
    rw [worth_finite]
    cases s <;> rfl

/-- A finite double has been unpacked to a zero or to the parts of a double. -/
inductive Unpacked : UnpackedFloat → Prop
  | zero (s : Sign) : Unpacked (.zero s)
  | finite (s : Sign) {m : Nat} {e : Int} (positive : 0 < m) (double : IsDouble m e) :
    Unpacked (.finite s m e positive)

theorem unpacked_of_isFinite {x : Float} (finite : x.isFinite = true) :
    Unpacked x.toModel.unpack := by
  obtain ⟨negative, m, e, parts⟩ := exists_parts finite
  have double := isDouble_of_ofFloat parts
  rw [ofFloat_eq] at parts
  cases unpacked : x.toModel.unpack with
  | notANumber | infinity s =>
    rw [unpacked] at parts
    cases parts
  | zero s => exact .zero s
  | finite s n f positive =>
    rw [unpacked] at parts
    injection parts with _ mantissa exponent
    subst mantissa exponent
    exact .finite s positive double

/-! ## Comparisons -/

section Compare

variable {m n : Nat} {e f : Int}

/-- Parts of doubles are compared exponent first. -/
theorem compare_parts (double : IsDouble m e) (other : IsDouble n f) :
    (compare e f).then (compare m n) = .lt ↔ (m : ℝ) * 2 ^ e < n * 2 ^ f := by
  rcases lt_trichotomy e f with finer | rfl | coarser
  · rw [compare_lt_iff_lt.mpr finer]
    exact iff_of_true rfl (double.value_lt_of_lt other finer)
  · rw [compare_eq_iff_eq.mpr rfl, Ordering.eq_then, compare_lt_iff_lt,
      mul_lt_mul_iff_left₀ (by positivity), Nat.cast_lt]
  · rw [compare_gt_iff_gt.mpr coarser]
    exact iff_of_false nofun (other.value_lt_of_lt double coarser).not_gt

end Compare

theorem value_pos {m : Nat} (e : Int) (positive : 0 < m) : (0 : ℝ) < m * 2 ^ e :=
  mul_pos (Nat.cast_pos.mpr positive) (by positivity)

theorem lt_unpacked {u v : UnpackedFloat} (left : Unpacked u) (right : Unpacked v) :
    u.lt v = true ↔ worth u < worth v := by
  cases left with
  | zero s =>
    cases right with
    | zero t => exact iff_of_false Bool.false_ne_true (lt_irrefl 0)
    | @finite t n f positive double =>
      have value := value_pos f positive
      cases t with
      | positive => exact iff_of_true rfl (by simpa using value)
      | negative => exact iff_of_false Bool.false_ne_true (by simpa using value.le)
  | @finite s m e positive double =>
    have value := value_pos e positive
    cases right with
    | zero t =>
      cases s with
      | positive => exact iff_of_false Bool.false_ne_true (by simpa using value.le)
      | negative => exact iff_of_true rfl (by simpa using value)
    | @finite t n f positive' double' =>
      have value' := value_pos f positive'
      unfold UnpackedFloat.lt
      cases s with
      | positive =>
        cases t with
        | positive => simpa [UnpackedFloat.compare] using compare_parts double double'
        | negative => exact iff_of_false Bool.false_ne_true (by simp; linarith)
      | negative =>
        cases t with
        | positive => exact iff_of_true rfl (by simp; linarith)
        | negative =>
          have exponents : (compare e f).swap = compare f e := Std.OrientedCmp.eq_swap.symm
          have mantissas : (compare m n).swap = compare n m := Std.OrientedCmp.eq_swap.symm
          simpa [UnpackedFloat.compare, Ordering.swap_then, exponents, mantissas]
            using compare_parts double' double

theorem eq_of_worth_eq {u v : UnpackedFloat} (left : Unpacked u) (right : Unpacked v)
    (same : worth u = worth v) (some : worth u ≠ 0) : u = v := by
  cases left with
  | zero s => exact absurd rfl some
  | @finite s m e positive double =>
    cases right with
    | zero t => exact absurd same some
    | @finite t n f positive' double' =>
      have value := value_pos e positive
      have value' := value_pos f positive'
      have magnitude : (m : ℝ) * 2 ^ e = n * 2 ^ f ∧ s = t := by
        cases s <;> cases t <;> simp at same ⊢ <;> linarith
      obtain ⟨rfl, rfl⟩ := double.parts_eq double' magnitude.1
      rw [magnitude.2]

section Order

variable {x y : Float} (left : x.isFinite = true) (right : y.isFinite = true)

include left right

theorem lt_iff : x < y ↔ toReal x < toReal y := by
  show decide (x.toModel.unpack.lt y.toModel.unpack = true) = true ↔ _
  rw [decide_eq_true_iff]
  exact lt_unpacked (unpacked_of_isFinite left) (unpacked_of_isFinite right)

theorem le_iff : x ≤ y ↔ toReal x ≤ toReal y := by
  have notMore := not_lt_iff (x := y) (y := x) (isNaN_of_isFinite right)
  rw [isNaN_of_isFinite left, or_iff_left Bool.false_ne_true] at notMore
  rw [← notMore, lt_iff right left, not_lt]

/-- Two doubles of one value are the same unless they are zeros. -/
theorem eq_of_toReal_eq (same : toReal x = toReal y) (some : toReal x ≠ 0) : x = y :=
  eq_of_unpack
    (eq_of_worth_eq (unpacked_of_isFinite left) (unpacked_of_isFinite right) same some)

end Order

/-! ## How near the nearest double is -/

/-- Half of the least double. -/
noncomputable def tiny : ℝ := ((2 : Nat) : ℝ) ^ (-1075 : Int)

theorem tiny_eq : tiny = 2 ^ (-1075 : Int) := by
  rw [tiny, Nat.cast_ofNat]

/-- Every number that is not negative has a whole part and two bits below it. -/
theorem exists_stands {t : ℝ} (nonneg : 0 ≤ t) : ∃ em, Stands em t := by
  have low := Nat.floor_le nonneg
  have high := Nat.lt_floor_add_one t
  rcases low.eq_or_lt with same | above
  · exact ⟨_, .exact same.symm⟩
  · rcases lt_trichotomy t (⌊t⌋₊ + 1 / 2) with small | half | large
    · exact ⟨_, .belowHalf above small⟩
    · exact ⟨_, .half half⟩
    · exact ⟨_, .aboveHalf large high⟩

/-- Every number that is not negative is rounded on a grid. -/
theorem exists_onGrid {q : ℝ} (nonneg : 0 ≤ q) : ∃ g r, OnGrid q g r := by
  obtain ⟨g, least, upper, lower⟩ : ∃ g, leastExponent ≤ g ∧ q / 2 ^ g < 2 ^ 53 ∧
      (g ≠ leastExponent → 2 ^ 52 ≤ q / 2 ^ g) := by
    by_cases small : q / 2 ^ leastExponent < 2 ^ 53
    · exact ⟨_, le_rfl, small, fun other => absurd rfl other⟩
    · rw [not_lt, le_div_iff₀ (by positivity)] at small
      have positive : 0 < q := small.trans_lt' (by positivity)
      obtain ⟨k, low, high⟩ := exists_mem_Ico_zpow positive one_lt_two
      have split (n : Nat) : (2 : ℝ) ^ n * 2 ^ (k - 52) = 2 ^ (k - 52 + n) := by
        rw [zpow_add₀ two_ne_zero, zpow_natCast, mul_comm]
      have least : leastExponent ≤ k - 52 := by
        have bits : (2 : ℝ) ^ (53 : Nat) * 2 ^ leastExponent < 2 ^ (k + 1) := small.trans_lt high
        rw [← zpow_natCast, ← zpow_add₀ two_ne_zero] at bits
        have := (zpow_lt_zpow_iff_right₀ one_lt_two).mp bits
        push_cast at this
        omega
      refine ⟨k - 52, least, ?_, fun _ => ?_⟩
      · rw [div_lt_iff₀ (by positivity), split]
        convert high using 2
        push_cast
        ring
      · rw [le_div_iff₀ (by positivity), split]
        convert low using 2
        push_cast
        ring
  obtain ⟨em, stands⟩ := exists_stands (div_nonneg nonneg (by positivity : (0 : ℝ) ≤ 2 ^ g))
  obtain ⟨near, even⟩ := stands.roundedMantissa
  exact ⟨g, _, .of_scaled least upper lower near even⟩

/-- The double that stands for so many steps is worth that much if it is in range. -/
theorem OnGrid.value_settled {q : ℝ} {g : Int} {r : Nat} (h : OnGrid q g r) {m : Nat} {e : Int}
    (parts : Binary.ofFloat (.ofModel (.pack (settled g r))) = .finite false m e) :
    (m : ℝ) * 2 ^ e = r * 2 ^ g := by
  unfold settled at parts
  split_ifs at parts with none carry
  · rw [ofFloat_zero] at parts
    injection parts with _ mantissa _
    rw [← mantissa, none, Nat.cast_zero, zero_mul, zero_mul]
  · subst carry
    rcases lt_or_ge g 971 with small | large
    · have double : IsDouble (2 ^ 52) (g + 1) :=
        ⟨by decide, by have := h.least; omega, by omega, .inl le_rfl⟩
      rw [ofFloat_pack (by decide) double] at parts
      injection parts with _ mantissa exponent
      rw [← mantissa, ← exponent, zpow_add_one₀ two_ne_zero]
      push_cast
      ring
    · rw [pack_of_large (by decide) (by omega)] at parts
      cases parts
  · have positive := Nat.pos_of_ne_zero none
    rcases le_or_gt g 971 with most | large
    · have small : r < 2 ^ 53 := lt_of_le_of_ne h.top carry
      have double : IsDouble r g := ⟨small, h.least, most, h.normal.symm.imp_left And.left⟩
      rw [ofFloat_pack positive double] at parts
      injection parts with _ mantissa exponent
      rw [← mantissa, ← exponent]
    · rw [pack_of_large positive large] at parts
      cases parts

/-- **The nearest double is near.** -/
theorem Nearest.close {q : ℝ} {x : Float} (nonneg : 0 ≤ q) (nearest : Nearest q x) {m : Nat}
    {e : Int} (parts : Binary.ofFloat x = .finite false m e) :
    |q - m * 2 ^ e| ≤ max (|q| / 2 ^ 53) tiny := by
  obtain ⟨g, r, grid⟩ := exists_onGrid nonneg
  rw [nearest.unique grid.nearest_settled] at parts
  rw [grid.value_settled parts]
  refine grid.near.trans ?_
  rcases grid.normal with bottom | ⟨_, normal⟩
  · have half : (2 : ℝ) ^ leastExponent / 2 = tiny := by
      rw [tiny_eq, div_eq_mul_inv, ← zpow_sub_one₀ (two_ne_zero' ℝ)]
      rfl
    rw [bottom, half]
    exact le_max_right _ _
  · refine le_trans ?_ (le_max_left _ _)
    rw [abs_of_nonneg nonneg, le_div_iff₀ (by positivity)]
    linarith

/-! ## Rounding a number of either sign -/

/-- A double is what a number is rounded to. -/
inductive Rounds : ℝ → Float → Prop
  | nonneg {q : ℝ} {x : Float} (least : 0 ≤ q) (nearest : Nearest q x) : Rounds q x
  | nonpos {q : ℝ} {x : Float} (least : 0 ≤ q) (nearest : Nearest q x) : Rounds (-q) (-x)

/-- A finite double is a mantissa with an exponent, or the negative of one. -/
theorem exists_abs_parts {x : Float} (finite : x.isFinite = true) :
    ∃ m e y, Binary.ofFloat y = .finite false m e ∧
      (x = y ∧ toReal x = m * 2 ^ e ∨ x = -y ∧ toReal x = -(m * 2 ^ e)) := by
  obtain ⟨negative, m, e, parts⟩ := exists_parts finite
  obtain ⟨y, unsigned⟩ := exists_ofFloat (isDouble_of_ofFloat parts)
  refine ⟨m, e, y, unsigned, ?_⟩
  have value := toReal_of_parts parts
  cases negative with
  | false =>
    have same : x = y := eq_of_ofFloat (parts.trans unsigned.symm) (by rw [parts]; nofun)
    exact .inl ⟨same, by simpa using value⟩
  | true =>
    have same : x = -y :=
      eq_of_ofFloat (parts.trans (ofFloat_neg unsigned).symm) (by rw [parts]; nofun)
    exact .inr ⟨same, by simpa using value⟩

theorem abs_toReal_lt_overflow {x : Float} (finite : x.isFinite = true) :
    |toReal x| < overflow := by
  obtain ⟨m, e, y, parts, ⟨_, value⟩ | ⟨_, value⟩⟩ := exists_abs_parts finite
  · rw [value, abs_of_nonneg (by positivity)]
    exact (isDouble_of_ofFloat parts).value_lt_overflow
  · rw [value, abs_neg, abs_of_nonneg (by positivity)]
    exact (isDouble_of_ofFloat parts).value_lt_overflow

namespace Nearest

variable {q : ℝ} {x : Float} (nearest : Nearest q x)

include nearest

/-- What a number is rounded to is finite, or the infinity of a number out of range. -/
theorem finite_or : (∃ m e, Binary.ofFloat x = .finite false m e ∧ toReal x = m * 2 ^ e) ∨
    Binary.ofFloat x = .infinite false ∧ overflow ≤ q := by
  cases nearest with
  | infinite parts beyond => exact .inr ⟨parts, beyond⟩
  | @finite m e parts _ _ _ =>
    have value := toReal_of_parts parts
    exact .inl ⟨m, e, parts, by simpa using value⟩

theorem exists_finite_parts (finite : x.isFinite = true) :
    ∃ m e, Binary.ofFloat x = .finite false m e ∧ toReal x = m * 2 ^ e := by
  rcases nearest.finite_or with found | ⟨parts, _⟩
  · exact found
  · obtain ⟨_, _, _, found⟩ := exists_parts finite
    rw [parts] at found
    cases found

/-- Of a number that is not negative no double is nearer, also none below zero. -/
theorem toReal_near (least : 0 ≤ q) (finite : x.isFinite = true) {y : Float}
    (other : y.isFinite = true) : |q - toReal x| ≤ |q - toReal y| := by
  have mirrored (v : ℝ) (positive : 0 ≤ v) : |q - v| ≤ q + v :=
    abs_le.mpr ⟨by linarith, by linarith⟩
  obtain ⟨m, e, parts, value⟩ := nearest.exists_finite_parts finite
  cases nearest with
  | infinite beyond =>
    rw [parts] at beyond
    cases beyond
  | @finite n f same _ near _ =>
    obtain ⟨rfl, rfl⟩ : m = n ∧ e = f := by
      rw [parts] at same
      injection same with _ mantissa exponent
      exact ⟨mantissa, exponent⟩
    rw [value]
    obtain ⟨k, g, z, unsigned, ⟨_, value'⟩ | ⟨_, value'⟩⟩ := exists_abs_parts other
    · rw [value']
      exact near z k g unsigned
    · have positive : (0 : ℝ) ≤ k * 2 ^ g :=
        mul_nonneg k.cast_nonneg (zpow_nonneg zero_le_two g)
      rw [value', sub_neg_eq_add, abs_of_nonneg (add_nonneg least positive)]
      exact (near z k g unsigned).trans (mirrored _ positive)

end Nearest

namespace Rounds

variable {p q : ℝ} {x y : Float}

theorem neg (h : Rounds q x) : Rounds (-q) (-x) := by
  cases h with
  | nonneg least nearest => exact .nonpos least nearest
  | nonpos least nearest =>
    rw [neg_neg, neg_neg_float]
    exact .nonneg least nearest

/-- No finite double is nearer. -/
theorem near (h : Rounds q x) (finite : x.isFinite = true) (other : y.isFinite = true) :
    |q - toReal x| ≤ |q - toReal y| := by
  cases h with
  | nonneg least nearest => exact nearest.toReal_near least finite other
  | @nonpos q x least nearest =>
    rw [isFinite_neg] at finite
    have mirrored := nearest.toReal_near least finite (y := -y) (by rwa [isFinite_neg])
    rw [toReal_neg] at mirrored ⊢
    rw [← abs_neg (-q - -toReal x), ← abs_neg (-q - toReal y)]
    convert mirrored using 2 <;> ring

/-- **Rounding is off by little.** -/
theorem close (h : Rounds q x) (finite : x.isFinite = true) :
    |q - toReal x| ≤ max (|q| / 2 ^ 53) tiny := by
  cases h with
  | nonneg least nearest =>
    obtain ⟨m, e, parts, value⟩ := nearest.exists_finite_parts finite
    rw [value]
    exact nearest.close least parts
  | @nonpos q x least nearest =>
    rw [isFinite_neg] at finite
    obtain ⟨m, e, parts, value⟩ := nearest.exists_finite_parts finite
    have error := nearest.close least parts
    rw [toReal_neg, value, ← abs_neg]
    rw [abs_neg q]
    convert error using 2
    ring

/-- A number in range is rounded to a finite double. -/
theorem isFinite_of_lt (h : Rounds q x) (below : |q| < overflow) : x.isFinite = true := by
  cases h with
  | nonneg least nearest =>
    rcases nearest.finite_or with ⟨m, e, parts, _⟩ | ⟨_, beyond⟩
    · exact isFinite_of_parts parts
    · rw [abs_of_nonneg least] at below
      exact absurd beyond below.not_ge
  | nonpos least nearest =>
    rw [isFinite_neg]
    rcases nearest.finite_or with ⟨m, e, parts, _⟩ | ⟨_, beyond⟩
    · exact isFinite_of_parts parts
    · rw [abs_neg, abs_of_nonneg least] at below
      exact absurd beyond below.not_ge

/-- A number in the range of the finite doubles is rounded to one of them. -/
theorem isFinite (h : Rounds q x) (other : y.isFinite = true) (within : |q| ≤ |toReal y|) :
    x.isFinite = true :=
  h.isFinite_of_lt (within.trans_lt (abs_toReal_lt_overflow other))

/-- A bound that is a double holds of the rounded number. -/
theorem toReal_le (h : Rounds q x) (finite : x.isFinite = true) (other : y.isFinite = true)
    (le : q ≤ toReal y) : toReal x ≤ toReal y := by
  by_contra more
  have near := h.near finite other
  rw [abs_of_nonpos (by linarith), abs_of_nonpos (by linarith)] at near
  linarith

theorem le_toReal (h : Rounds q x) (finite : x.isFinite = true) (other : y.isFinite = true)
    (le : toReal y ≤ q) : toReal y ≤ toReal x := by
  by_contra less
  have near := h.near finite other
  rw [abs_of_nonneg (by linarith), abs_of_nonneg (by linarith)] at near
  linarith

/-- A number that is not negative overflows to the infinity without a sign. -/
theorem infinite (h : Rounds q x) (least : 0 ≤ q) (beyond : ¬x.isFinite = true) :
    Binary.ofFloat x = .infinite false := by
  cases h with
  | nonneg _ nearest =>
    rcases nearest.finite_or with ⟨m, e, parts, _⟩ | ⟨parts, _⟩
    · exact absurd (isFinite_of_parts parts) beyond
    · exact parts
  | nonpos _ nearest =>
    rw [isFinite_neg] at beyond
    rcases nearest.finite_or with ⟨m, e, parts, _⟩ | ⟨_, large⟩
    · exact absurd (isFinite_of_parts parts) beyond
    · have positive := (abs_nonneg _).trans_lt (abs_toReal_lt_overflow (x := 0.0) rfl)
      linarith

/-- A number above zero is rounded to the nearest double without a sign. -/
theorem nearest (h : Rounds q x) (above : 0 < q) : Nearest q x := by
  cases h with
  | nonneg least nearest => exact nearest
  | nonpos least nearest => linarith

/-- A number is rounded to doubles of one value. -/
theorem toReal_eq (hx : Rounds q x) (hy : Rounds q y) (left : x.isFinite = true)
    (right : y.isFinite = true) : toReal x = toReal y := by
  rcases lt_trichotomy q 0 with below | rfl | above
  · have above := neg_pos.mpr below
    have mirrored := (hx.neg.nearest above).unique (hy.neg.nearest above)
    rw [← neg_neg_float x, mirrored, neg_neg_float]
  · have zero {z : Float} (h : Rounds 0 z) (finite : z.isFinite = true) : toReal z = 0 := by
      have near := h.near finite (y := 0.0) rfl
      change |0 - toReal z| ≤ |0 - 0| at near
      simpa using near
    rw [zero hx left, zero hy right]
  · rw [(hx.nearest above).unique (hy.nearest above)]

/-- **Rounding keeps the order.** -/
theorem mono (hx : Rounds p x) (hy : Rounds q y) (left : x.isFinite = true)
    (right : y.isFinite = true) (le : p ≤ q) : toReal x ≤ toReal y := by
  rcases le.eq_or_lt with rfl | less
  · exact (hx.toReal_eq hy left right).le
  by_contra more
  have near := sq_le_sq.mpr (hx.near left right)
  have near' := sq_le_sq.mpr (hy.near right left)
  have crossed := mul_pos (sub_pos.mpr (not_le.mp more)) (sub_pos.mpr less)
  linarith

/-- What a number is rounded to is defined. -/
theorem isNaN_eq_false (h : Rounds q x) : x.isNaN = false := by
  have defined {q : ℝ} {x : Float} (nearest : Nearest q x) : x.isNaN = false := by
    rcases nearest.finite_or with ⟨m, e, parts, _⟩ | ⟨parts, _⟩
    · exact isNaN_of_isFinite (isFinite_of_parts parts)
    · exact Bool.eq_false_of_not_eq_true fun undefined => by
        rw [isNaN_iff, parts] at undefined
        cases undefined
  cases h with
  | nonneg least nearest => exact defined nearest
  | nonpos least nearest =>
    rw [isNaN_neg]
    exact defined nearest

end Rounds

end Toolpath.Decimal
