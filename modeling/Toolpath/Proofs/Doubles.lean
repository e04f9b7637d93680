import Mathlib
import Toolpath.Decimal.Numeral

/-!
# Doubles as numbers

A double is read in two ways here. `Binary.ofFloat` takes its bits apart by division, and the
arithmetic of `Float` unpacks them. This module says that the two agree (`ofFloat_eq`), that packing
a mantissa and an exponent in range loses nothing (`unpack_pack`), and that a double is determined
by its parts (`eq_of_ofFloat`).

`IsDouble` names the mantissas and exponents that occur. What is needed of their values is in the
last section: two doubles of one value have one mantissa and one exponent, and a double with a
smaller exponent lies below every double with a hidden bit and a larger one.

Of the undefined numbers it says that they have no parts, and that they compare with nothing
(`not_lt_iff`).
-/

namespace Toolpath.Decimal

open Float.Model (Format UnpackedFloat)
open Float.Model.UnpackedFloat

theorem firstNormalMantissa_eq : firstNormalMantissa = 2 ^ 52 := rfl

theorem leastExponent_eq : leastExponent = -1074 := rfl

/-! ## The fields of the bits -/

section Fields

variable (b : BitVec Format.binary64.numBits)

theorem toNat_unpackMantissa : (unpackMantissa b).toNat = b.toNat % 2 ^ 52 := by
  rw [unpackMantissa_def, BitVec.extractLsb'_toNat, Nat.shiftRight_zero]

theorem toNat_unpackExponent : (unpackExponent b).toNat = b.toNat / 2 ^ 52 % 2 ^ 11 := by
  rw [unpackExponent_def, BitVec.extractLsb'_toNat, Nat.shiftRight_eq_div_pow]

theorem toNat_unpackSign : (unpackSign b).toNat = b.toNat / 2 ^ 63 := by
  have bound : b.toNat < 2 ^ 64 := b.isLt
  rw [unpackSign_def, BitVec.extractLsb'_toNat, Nat.shiftRight_eq_div_pow]
  show b.toNat / 2 ^ 63 % 2 ^ 1 = b.toNat / 2 ^ 63
  omega

end Fields

theorem ofBitVec_negative (b : BitVec 1) : (Sign.ofBitVec b == .negative) = (b.toNat == 1) := by
  revert b
  decide

theorem toNat_hidden (fraction : BitVec 52) :
    (1#1 ++ fraction).toNat = 2 ^ 52 + fraction.toNat := by
  rw [BitVec.toNat_append, ← Nat.shiftLeft_add_eq_or_of_lt fraction.isLt]
  rfl

/-! ## Parts -/

/-- The parts of a double that has been unpacked. -/
def Binary.ofUnpacked : UnpackedFloat → Binary
  | .notANumber => .undefined
  | .infinity sign => .infinite (sign == .negative)
  | .zero sign => .finite (sign == .negative) 0 leastExponent
  | .finite sign mantissa exponent _ => .finite (sign == .negative) mantissa exponent

/-- **The two readings of a double agree.** -/
theorem ofFloat_eq (x : Float) : Binary.ofFloat x = Binary.ofUnpacked x.toModel.unpack := by
  obtain ⟨b, bits⟩ : ∃ b : BitVec Format.binary64.numBits, x.toModel.toBits.toBitVec = b :=
    ⟨_, rfl⟩
  have number : x.toBits.toNat = b.toNat := congrArg BitVec.toNat bits
  have sign : (Sign.ofBitVec (unpackSign b) == .negative) = (b.toNat / Nat.pow 2 63 == 1) := by
    rw [ofBitVec_negative, toNat_unpackSign]
    rfl
  have largest : unpackExponent b = -1#_ ↔ b.toNat / Nat.pow 2 52 % Nat.pow 2 11 = 2047 := by
    rw [← BitVec.toNat_inj, toNat_unpackExponent]
    rfl
  have smallest : unpackExponent b = 0#_ ↔ b.toNat / Nat.pow 2 52 % Nat.pow 2 11 = 0 := by
    rw [← BitVec.toNat_inj, toNat_unpackExponent]
    rfl
  have none : unpackMantissa b = 0#_ ↔ b.toNat % Nat.pow 2 52 = 0 := by
    rw [← BitVec.toNat_inj, toNat_unpackMantissa]
    rfl
  have bias : (Format.binary64.exponentBias : Int) = 1023 := rfl
  have biased := toNat_unpackExponent b
  unfold Binary.ofFloat Float.Model.unpack UnpackedFloat.unpack
  rw [bits, number]
  simp only [largest, smallest, none]
  split_ifs with top empty bottom empty
  · rw [Binary.ofUnpacked, sign]
  · rfl
  · rw [Binary.ofUnpacked, sign, empty]
  · rw [Binary.ofUnpacked, sign, toNat_unpackMantissa, biased.trans bottom, bias]
    rfl
  · rw [Binary.ofUnpacked, sign, toNat_hidden, toNat_unpackMantissa]
    congr 1
    rw [leastExponent_eq, biased, bias]
    change ¬ b.toNat / 2 ^ 52 % 2 ^ 11 = 0 at bottom
    change (-1074 : Int) + ((b.toNat / 2 ^ 52 % 2 ^ 11 - 1 : Nat) : Int) =
      ((b.toNat / 2 ^ 52 % 2 ^ 11 : Nat) : Int) - (1023 + 52)
    omega

/-- The mantissas and exponents of finite doubles: a mantissa without its hidden bit goes with the
least exponent only. -/
structure IsDouble (mantissa : Nat) (exponent : Int) : Prop where
  bound : mantissa < 2 ^ 53
  least : leastExponent ≤ exponent
  most : exponent ≤ 971
  hidden : firstNormalMantissa ≤ mantissa ∨ exponent = leastExponent

theorem isDouble_of_ofFloat {x : Float} {negative : Bool} {m : Nat} {e : Int}
    (parts : Binary.ofFloat x = .finite negative m e) : IsDouble m e := by
  unfold Binary.ofFloat at parts
  dsimp only at parts
  generalize x.toBits.toNat = b at parts
  have fraction : b % Nat.pow 2 52 < 2 ^ 52 := Nat.mod_lt b (by decide)
  have biased : b / Nat.pow 2 52 % Nat.pow 2 11 < 2 ^ 11 := Nat.mod_lt _ (by decide)
  have first := firstNormalMantissa_eq
  have least := leastExponent_eq
  split_ifs at parts with top empty bottom
  · injection parts with _ mantissa exponent
    exact ⟨by omega, by omega, by omega, .inr exponent.symm⟩
  · injection parts with _ mantissa exponent
    exact ⟨by omega, by omega, by omega, .inl (by omega)⟩

/-- What is unpacked to the same parts is the same, unless it is undefined. -/
theorem Binary.ofUnpacked_inj {u v : UnpackedFloat} (same : ofUnpacked u = ofUnpacked v)
    (defined : ofUnpacked u ≠ .undefined) : u = v := by
  have sign_inj {s t : Sign} (negative : (s == .negative) = (t == .negative)) : s = t := by
    cases s with
    | positive =>
      cases t with
      | positive => rfl
      | negative => cases negative
    | negative =>
      cases t with
      | positive => cases negative
      | negative => rfl
  cases u with
  | notANumber => exact absurd rfl defined
  | infinity s =>
    cases v with
    | infinity t =>
      injection same with negative
      rw [sign_inj negative]
    | notANumber | zero | finite => cases same
  | zero s =>
    cases v with
    | zero t =>
      injection same with negative
      rw [sign_inj negative]
    | finite t m e positive =>
      injection same with _ none
      omega
    | notANumber | infinity => cases same
  | finite s m e positive =>
    cases v with
    | finite t n f _ =>
      injection same with negative mantissa exponent
      subst mantissa exponent
      rw [sign_inj negative]
    | zero t =>
      injection same with _ none
      omega
    | notANumber | infinity => cases same

/-- A double that has parts is determined by them. -/
theorem eq_of_ofFloat {x y : Float} (same : Binary.ofFloat x = Binary.ofFloat y)
    (defined : Binary.ofFloat x ≠ .undefined) : x = y := by
  rw [ofFloat_eq x, ofFloat_eq y] at same
  rw [ofFloat_eq x] at defined
  have unpacked := Binary.ofUnpacked_inj same defined
  have bits := (unpack_inj_of_valid x.toModel.valid y.toModel.valid).mp unpacked
  exact Float.toBits_inj.mp (UInt64.toBitVec_inj.mp bits)

theorem isNaN_iff {x : Float} : x.isNaN = true ↔ Binary.ofFloat x = .undefined := by
  show x.toModel.unpack.isNaN = true ↔ _
  rw [ofFloat_eq]
  cases x.toModel.unpack with
  | notANumber => exact ⟨fun _ => rfl, fun _ => rfl⟩
  | infinity | zero | finite => exact ⟨nofun, nofun⟩

theorem isFinite_of_parts {x : Float} {negative : Bool} {m : Nat} {e : Int}
    (parts : Binary.ofFloat x = .finite negative m e) : x.isFinite = true := by
  show x.toModel.unpack.isFinite = true
  rw [ofFloat_eq] at parts
  cases unpacked : x.toModel.unpack with
  | notANumber | infinity =>
    rw [unpacked] at parts
    cases parts
  | zero | finite => rfl

/-- There is one undefined double. -/
theorem eq_of_undefined {x y : Float} (undefined : Binary.ofFloat x = .undefined)
    (other : Binary.ofFloat y = .undefined) : x = y := by
  have unpacked {z : Float} (none : Binary.ofFloat z = .undefined) :
      z.toModel.unpack = .notANumber := by
    rw [ofFloat_eq] at none
    cases found : z.toModel.unpack with
    | notANumber => rfl
    | infinity | zero | finite =>
      rw [found] at none
      cases none
  have same := (unpacked undefined).trans (unpacked other).symm
  have bits := (unpack_inj_of_valid x.toModel.valid y.toModel.valid).mp same
  exact Float.toBits_inj.mp (UInt64.toBitVec_inj.mp bits)

/-! ## Packing -/

section Packing

variable {s : Sign} {m : Nat} {e : Int} (positive : 0 < m)

theorem pack_finite : UnpackedFloat.pack Format.binary64 (.finite s m e positive) =
    if 2 ^ 11 ≤ (e + 1023 + 52).toNat + 1 then packedInfinity Format.binary64 s
    else if m.log2 + 1 = 53 then
      packComponents Format.binary64 s (BitVec.ofNat 11 (e + 1023 + 52).toNat) (BitVec.ofNat 52 m)
    else packComponents Format.binary64 s 0#11 (BitVec.ofNat 52 m) :=
  rfl

theorem unpack_pack_normal (bound : m < 2 ^ 53) (hidden : 2 ^ 52 ≤ m) (least : -1074 ≤ e)
    (most : e ≤ 971) : UnpackedFloat.unpack Format.binary64
      (UnpackedFloat.pack Format.binary64 (.finite s m e positive)) = .finite s m e positive := by
  have bits : m.log2 = 52 := (Nat.log2_eq_iff (by omega)).mpr ⟨hidden, bound⟩
  have biased : (BitVec.ofNat 11 (e + 1023 + 52).toNat).toNat = (e + 1023 + 52).toNat := by
    rw [BitVec.toNat_ofNat]
    omega
  have mantissa : (1#1 ++ BitVec.ofNat 52 m).toNat = m := by
    rw [toNat_hidden, BitVec.toNat_ofNat]
    omega
  have notTop : BitVec.ofNat 11 (e + 1023 + 52).toNat ≠ -1#11 := by
    rw [Ne, ← BitVec.toNat_inj, biased]
    show ¬ _ = 2047
    omega
  have notBottom : BitVec.ofNat 11 (e + 1023 + 52).toNat ≠ 0#11 := by
    rw [Ne, ← BitVec.toNat_inj, biased]
    show ¬ _ = 0
    omega
  rw [pack_finite, if_neg (by omega), if_pos (by omega)]
  unfold UnpackedFloat.unpack
  simp only [unpackMantissa_packComponents, unpackExponent_packComponents,
    unpackSign_packComponents, Sign.ofBitVec_toBitVec, if_neg notTop, if_neg notBottom, mantissa, biased]
  congr 1
  show ((e + 1023 + 52).toNat : Int) - (1023 + 52) = e
  omega

theorem unpack_pack_subnormal (bound : m < 2 ^ 52) : UnpackedFloat.unpack Format.binary64
    (UnpackedFloat.pack Format.binary64 (.finite s m leastExponent positive)) =
      .finite s m leastExponent positive := by
  have bits : m.log2 < 52 := (Nat.log2_lt positive.ne').mpr bound
  have mantissa : (BitVec.ofNat 52 m).toNat = m := by
    rw [BitVec.toNat_ofNat]
    omega
  have filled : BitVec.ofNat 52 m ≠ 0#52 := by
    rw [Ne, ← BitVec.toNat_inj, mantissa]
    exact positive.ne'
  have notTop : 0#11 ≠ -1#11 := by decide
  rw [pack_finite, if_neg (by decide), if_neg (by omega)]
  unfold UnpackedFloat.unpack
  simp only [unpackMantissa_packComponents, unpackExponent_packComponents,
    unpackSign_packComponents, Sign.ofBitVec_toBitVec, if_neg notTop, dif_neg filled, mantissa, if_true]
  rfl

/-- **Packing a mantissa and an exponent in range loses nothing.** -/
theorem unpack_pack (double : IsDouble m e) :
    (Float.Model.pack (.finite s m e positive)).unpack = .finite s m e positive := by
  obtain ⟨bound, least, most, hidden⟩ := double
  by_cases normal : 2 ^ 52 ≤ m
  · exact unpack_pack_normal positive bound normal least most
  · obtain rfl : e = leastExponent := hidden.resolve_left normal
    exact unpack_pack_subnormal positive (by omega)

theorem ofFloat_pack (double : IsDouble m e) :
    Binary.ofFloat (.ofModel (.pack (.finite .positive m e positive))) = .finite false m e := by
  rw [ofFloat_eq, unpack_pack positive double]
  rfl

/-- An exponent beyond the range is packed as an infinity. -/
theorem pack_of_large (large : 971 < e) :
    Float.Model.pack (.finite s m e positive) = Float.Model.pack (.infinity s) := by
  have packed : UnpackedFloat.pack Format.binary64 (.finite s m e positive) =
      packedInfinity Format.binary64 s := by
    rw [pack_finite, if_pos (by omega)]
  unfold Float.Model.pack
  simp only [packed]
  rfl

end Packing

theorem ofFloat_zero : Binary.ofFloat (.ofModel (.pack (.zero .positive))) =
    .finite false 0 leastExponent := rfl

theorem ofFloat_infinity : Binary.ofFloat (.ofModel (.pack (.infinity .positive))) =
    .infinite false := rfl

/-- Every mantissa and exponent in range are those of a double. -/
theorem exists_ofFloat {m : Nat} {e : Int} (double : IsDouble m e) :
    ∃ x, Binary.ofFloat x = .finite false m e := by
  rcases Nat.eq_zero_or_pos m with rfl | positive
  · obtain rfl : e = leastExponent := double.hidden.resolve_left (by decide)
    exact ⟨_, ofFloat_zero⟩
  · exact ⟨_, ofFloat_pack positive double⟩

/-- A double with a mantissa is unpacked as that. -/
theorem unpack_of_ofFloat {x : Float} {m : Nat} {e : Int}
    (parts : Binary.ofFloat x = .finite false m e) (positive : 0 < m) :
    x.toModel.unpack = .finite .positive m e positive := by
  rw [ofFloat_eq] at parts
  cases unpacked : x.toModel.unpack with
  | notANumber | infinity sign =>
    rw [unpacked] at parts
    cases parts
  | zero sign =>
    rw [unpacked] at parts
    injection parts with _ none
    omega
  | finite sign mantissa exponent _ =>
    rw [unpacked] at parts
    injection parts with unsigned mantissa exponent
    subst mantissa exponent
    cases sign with
    | negative => cases unsigned
    | positive => rfl

/-! ## Comparisons -/

theorem compare_swap (u v : UnpackedFloat) : v.compare u = (u.compare v).map Ordering.swap := by
  have nat (a b : Nat) : compare a b = (compare b a).swap := Std.OrientedCmp.eq_swap
  have int (a b : Int) : compare a b = (compare b a).swap := Std.OrientedCmp.eq_swap
  rcases u with (_ | _) | _ | (_ | _) | ⟨_ | _, m, e, _⟩
  all_goals rcases v with (_ | _) | _ | (_ | _) | ⟨_ | _, n, f, _⟩
  -- Only finite numbers of one sign are compared by their parts.
  case finite.negative.finite.negative | finite.positive.finite.positive =>
    simp only [UnpackedFloat.compare, Option.map_some, Ordering.swap_then, ← nat, ← int]
  all_goals rfl

theorem compare_eq_none_iff {u v : UnpackedFloat} :
    u.compare v = none ↔ u.isNaN = true ∨ v.isNaN = true := by
  rcases u with (_ | _) | _ | (_ | _) | ⟨_ | _, m, e, _⟩
  all_goals
    rcases v with (_ | _) | _ | (_ | _) | ⟨_ | _, n, f, _⟩ <;>
      simp [UnpackedFloat.compare, UnpackedFloat.isNaN]

/-- **What is not more than a defined number is at most that number, or undefined.** -/
theorem not_lt_iff {x y : Float} (defined : x.isNaN = false) :
    ¬ x < y ↔ y ≤ x ∨ y.isNaN = true := by
  show ¬ decide (x.toModel.unpack.lt y.toModel.unpack = true) = true ↔
    decide (y.toModel.unpack.le x.toModel.unpack = true) = true ∨ y.toModel.unpack.isNaN = true
  unfold UnpackedFloat.lt UnpackedFloat.le
  rw [compare_swap x.toModel.unpack y.toModel.unpack]
  cases compared : x.toModel.unpack.compare y.toModel.unpack with
  | none =>
    have undefined : y.toModel.unpack.isNaN = true :=
      (compare_eq_none_iff.mp compared).resolve_left (Bool.eq_false_iff.mp defined)
    rw [undefined]
    decide
  | some order =>
    have number : y.toModel.unpack.isNaN = false := by
      rw [← Bool.not_eq_true]
      intro undefined
      rw [compare_eq_none_iff.mpr (.inr undefined)] at compared
      cases compared
    rw [number]
    cases order <;> decide

theorem isNaN_of_isFinite {x : Float} (finite : x.isFinite = true) : x.isNaN = false := by
  change x.toModel.unpack.isFinite = true at finite
  show x.toModel.unpack.isNaN = false
  cases unpacked : x.toModel.unpack with
  | notANumber =>
    rw [unpacked] at finite
    cases finite
  | infinity | zero | finite => rfl

/-- A finite double is more than zero where it is not at most zero, and nowhere else. -/
theorem not_le_zero_iff {x : Float} (finite : x.isFinite = true) : ¬ x ≤ 0.0 ↔ 0.0 < x := by
  have notMore : ¬ 0.0 < x ↔ x ≤ 0.0 ∨ x.isNaN = true := not_lt_iff rfl
  rw [isNaN_of_isFinite finite, or_iff_left Bool.false_ne_true] at notMore
  exact not_iff_comm.mp notMore

/-! ## Values -/

/-- A double on a grid that is as fine as its own or finer. -/
theorem value_on_grid (m : Nat) {e g : Int} (fine : g ≤ e) :
    (m : ℝ) * 2 ^ e = ((m * 2 ^ (e - g).toNat : Nat) : ℝ) * 2 ^ g := by
  have split : (2 : ℝ) ^ e = 2 ^ (e - g).toNat * 2 ^ g := by
    rw [← zpow_natCast, ← zpow_add₀ two_ne_zero]
    congr 1
    omega
  rw [split]
  push_cast
  ring

namespace IsDouble

variable {m n : Nat} {e f : Int}

/-- A double with a smaller exponent lies below the doubles with a hidden bit and a larger one. -/
theorem value_lt (double : IsDouble m e) (finer : e < f) : (m : ℝ) * 2 ^ e < 2 ^ 52 * 2 ^ f := by
  have mantissa : (m : ℝ) < 2 ^ 53 := by exact_mod_cast double.bound
  have power : (2 : ℝ) ^ (53 : Nat) * 2 ^ e = 2 ^ (52 : Nat) * 2 ^ (e + 1) := by
    rw [zpow_add_one₀ two_ne_zero]
    ring
  have coarser : (2 : ℝ) ^ (e + 1) ≤ 2 ^ f := zpow_le_zpow_right₀ one_le_two (by omega)
  calc (m : ℝ) * 2 ^ e < 2 ^ 53 * 2 ^ e := by gcongr
    _ = 2 ^ 52 * 2 ^ (e + 1) := power
    _ ≤ 2 ^ 52 * 2 ^ f := by gcongr

theorem hidden_of_lt (double : IsDouble m e) (above : leastExponent < e) : 2 ^ 52 ≤ m :=
  double.hidden.resolve_right above.ne'

/-- A larger exponent goes with a larger value. -/
theorem value_lt_of_lt (fine : IsDouble m e) (coarse : IsDouble n f) (finer : e < f) :
    (m : ℝ) * 2 ^ e < n * 2 ^ f := by
  have hidden : (2 ^ 52 : ℝ) ≤ n := by
    exact_mod_cast coarse.hidden_of_lt (fine.least.trans_lt finer)
  calc (m : ℝ) * 2 ^ e < 2 ^ 52 * 2 ^ f := fine.value_lt finer
    _ ≤ n * 2 ^ f := by gcongr

/-- Two doubles of one value have the same parts. -/
theorem parts_eq (double : IsDouble m e) (other : IsDouble n f)
    (same : (m : ℝ) * 2 ^ e = n * 2 ^ f) : m = n ∧ e = f := by
  rcases lt_trichotomy e f with finer | rfl | coarser
  · exact absurd same (double.value_lt_of_lt other finer).ne
  · have power : (2 : ℝ) ^ e ≠ 0 := by positivity
    exact ⟨by exact_mod_cast mul_right_cancel₀ power same, rfl⟩
  · exact absurd same (other.value_lt_of_lt double coarser).ne'

end IsDouble

end Toolpath.Decimal
