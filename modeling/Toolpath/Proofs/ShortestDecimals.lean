import Toolpath.Decimal.Layout
import Toolpath.Proofs.DecimalIntervals
import Toolpath.Proofs.Numerals

/-!
# The shortest decimal is read back

The shortest decimal of a finite double is a text that stands for that double and for no other
(`read?_plain`). The printer and the reader have no code in common: the printer looks for a point in
the interval of the double, and the reader rounds. What joins them is the interval itself, and the
digits in their positions, which are a numeral with the point's value (`isPositional_positional`).
-/

namespace Toolpath.Decimal

/-! ## Digits in their positions -/

theorem digitsValue_digitsOf (n : Nat) : digitsValue (digitsOf n) = n :=
  Nat.ofDigitChars_ten_toDigits

theorem allDigits_digitsOf (n : Nat) : AllDigits (digitsOf n) := fun _ present =>
  Nat.isDigit_of_mem_toDigits (by decide) (by decide) present

theorem digitsOf_ne_nil (n : Nat) : digitsOf n ≠ [] := Nat.toDigits_ne_nil

theorem allDigits_zeros (n : Nat) : AllDigits (zeros n) := by
  intro d present
  rw [List.eq_of_mem_replicate present]
  rfl

theorem AllDigits.append {ds es : List Char} (front : AllDigits ds) (back : AllDigits es) :
    AllDigits (ds ++ es) := by
  intro d present
  exact (List.mem_append.mp present).elim (front d) (back d)

/-- Zeros in front of digits are worth nothing. -/
theorem digitsValue_zeros_append (k : Nat) (ds : List Char) :
    digitsValue (zeros k ++ ds) = digitsValue ds := by
  show Nat.ofDigitChars 10 (zeros k ++ ds) 0 = Nat.ofDigitChars 10 ds 0
  rw [Nat.ofDigitChars_append, zeros, Nat.ofDigitChars_replicate_zero, Nat.mul_zero]

/-- Zeros after digits multiply by ten. -/
theorem digitsValue_append_zeros (ds : List Char) (k : Nat) :
    digitsValue (ds ++ zeros k) = 10 ^ k * digitsValue ds := by
  show Nat.ofDigitChars 10 (ds ++ zeros k) 0 = 10 ^ k * Nat.ofDigitChars 10 ds 0
  rw [Nat.ofDigitChars_append, zeros, Nat.ofDigitChars_replicate_zero]

/-- Digits with at most one point that write a number in positions, with no exponent. -/
inductive IsPositional : List Char → ℝ → Prop where
  | of {cs w f : List Char} {q : ℝ} (written : IsCoefficient cs w f) (filled : w ++ f ≠ [])
    (worth : digitsValue (w ++ f) * 10 ^ (-(f.length : Int)) = q) : IsPositional cs q

/-- Digits without a point write their value. -/
theorem IsPositional.whole {w : List Char} (digits : AllDigits w) (filled : w ≠ []) :
    IsPositional w (digitsValue w) := by
  refine .of (.whole digits) (by rwa [List.append_nil]) ?_
  rw [List.append_nil, List.length_nil, Nat.cast_zero, neg_zero, zpow_zero, mul_one]

theorem IsPositional.isNumeral {cs : List Char} {q : ℝ} (h : IsPositional cs q) :
    ∃ numeral, IsNumeral cs numeral ∧ numeral.value = q := by
  obtain ⟨written, filled, worth⟩ := h
  have numeral := IsNumeral.of written filled .none
  rw [List.append_nil, zero_sub] at numeral
  exact ⟨_, numeral, worth⟩

/-- Nothing but digits and the point is written. -/
theorem IsPositional.mem {cs : List Char} {q : ℝ} (h : IsPositional cs q) {c : Char}
    (present : c ∈ cs) : c.isDigit = true ∨ c = '.' := by
  obtain ⟨written, _, _⟩ := h
  cases written with
  | whole digits => exact .inl (digits c present)
  | point before after =>
    rcases List.mem_append.mp present with front | back
    · exact .inl (before c front)
    · rcases List.mem_cons.mp back with point | back
      · exact .inr point
      · exact .inl (after c back)

/-- An integer with a point: so many digits after it, and the others, filled up with zeros to one at
least, before it. -/
theorem withPoint_eq (n : Nat) {places : Nat} (some : places ≠ 0) :
    ∃ w f, withPoint n places = w ++ '.' :: f ∧ f.length = places ∧
      w ++ f = zeros (places + 1 - (digitsOf n).length) ++ digitsOf n := by
  unfold withPoint
  rw [if_neg some]
  dsimp only
  generalize fill : zeros (places + 1 - (digitsOf n).length) = front
  have long : places < (front ++ digitsOf n).length := by
    rw [← fill, zeros, List.length_append, List.length_replicate]
    omega
  generalize front ++ digitsOf n = padded at *
  refine ⟨_, _, rfl, ?_, List.take_append_drop (padded.length - places) padded⟩
  rw [List.length_drop]
  omega

/-- An integer with a point is worth so many powers of ten less. -/
theorem isPositional_withPoint (n places : Nat) :
    IsPositional (withPoint n places) (n * 10 ^ (-(places : Int))) := by
  by_cases whole : places = 0
  · have digits := IsPositional.whole (allDigits_digitsOf n) (digitsOf_ne_nil n)
    rw [digitsValue_digitsOf] at digits
    rw [whole, Nat.cast_zero, neg_zero, zpow_zero, mul_one]
    exact digits
  · obtain ⟨w, f, written, fraction, padded⟩ := withPoint_eq n whole
    have digits : AllDigits (w ++ f) :=
      padded ▸ (allDigits_zeros _).append (allDigits_digitsOf n)
    rw [written]
    refine .of (.point (fun d present => digits d (List.mem_append_left f present))
      (fun d present => digits d (List.mem_append_right w present))) ?_ ?_
    · rw [padded]
      exact List.append_ne_nil_of_right_ne_nil _ (digitsOf_ne_nil n)
    · rw [padded, digitsValue_zeros_append, digitsValue_digitsOf, fraction]

/-- A decimal without a fraction is written in digits, which are worth what it is. -/
theorem positional_of_nonneg {d : Digits} (whole : 0 ≤ d.exponent) :
    AllDigits d.positional ∧ d.positional ≠ [] ∧ (digitsValue d.positional : ℝ) = d.value := by
  unfold Digits.positional
  rw [Digits.value_eq, if_pos whole]
  split_ifs with none
  · rw [none, Nat.cast_zero, zero_mul]
    exact ⟨allDigits_zeros 1, List.cons_ne_nil _ _, Nat.cast_zero⟩
  · obtain ⟨n, exponent⟩ := Int.eq_ofNat_of_zero_le whole
    refine ⟨(allDigits_digitsOf _).append (allDigits_zeros _),
      List.append_ne_nil_of_left_ne_nil (digitsOf_ne_nil _) _, ?_⟩
    rw [digitsValue_append_zeros, digitsValue_digitsOf, exponent, Int.toNat_natCast, mul_comm,
      Nat.cast_mul, Nat.cast_pow, Nat.cast_ofNat, zpow_natCast]

/-- A decimal in positions is worth what the decimal is. -/
theorem isPositional_positional (d : Digits) : IsPositional d.positional d.value := by
  by_cases whole : 0 ≤ d.exponent
  · obtain ⟨digits, filled, worth⟩ := positional_of_nonneg whole
    exact worth ▸ .whole digits filled
  · have point := isPositional_withPoint d.coefficient (-d.exponent).toNat
    rw [Int.toNat_of_nonneg (by omega), neg_neg] at point
    unfold Digits.positional
    rw [Digits.value_eq, if_neg whole]
    exact point

/-! ## Every finite double -/

/-- The parts of a double without its sign. -/
theorem ofFloat_neg {x : Float} {m : Nat} {e : Int} (parts : Binary.ofFloat x = .finite false m e) :
    Binary.ofFloat (-x) = .finite true m e := by
  rcases Nat.eq_zero_or_pos m with rfl | positive
  · have double := isDouble_of_ofFloat parts
    obtain rfl : e = leastExponent := double.hidden.resolve_left (by decide)
    obtain rfl : x = .ofModel (.pack (.zero .positive)) :=
      eq_of_ofFloat (parts.trans ofFloat_zero.symm) (by rw [parts]; nofun)
    rfl
  · have unpacked := unpack_of_ofFloat parts positive
    have negated : (-x).toModel = .pack (.finite .negative m e positive) := by
      show Float.Model.pack x.toModel.unpack.neg = _
      rw [unpacked]
      rfl
    rw [ofFloat_eq, negated, unpack_pack positive (isDouble_of_ofFloat parts)]
    rfl

/-- A finite double has a mantissa and an exponent. -/
theorem exists_parts {x : Float} (finite : x.isFinite = true) :
    ∃ negative m e, Binary.ofFloat x = .finite negative m e := by
  change x.toModel.unpack.isFinite = true at finite
  rw [ofFloat_eq]
  cases unpacked : x.toModel.unpack with
  | notANumber | infinity sign =>
    rw [unpacked] at finite
    cases finite
  | zero sign => exact ⟨_, _, _, rfl⟩
  | finite sign m e positive => exact ⟨_, _, _, rfl⟩

/-- The shortest decimal of a double without its sign is rounded to it. -/
theorem nearest_shortest {x : Float} {m : Nat} {e : Int}
    (parts : Binary.ofFloat x = .finite false m e) : Nearest (Digits.shortest m e).value x := by
  rcases Nat.eq_zero_or_pos m with rfl | positive
  · have zero := nearest_self parts
    rw [Nat.cast_zero, zero_mul] at zero
    have none : (Digits.shortest 0 e).value = 0 := mul_eq_zero_of_left Nat.cast_zero _
    rw [none]
    exact zero
  · exact nearest_of_holds parts positive (holds_shortest (isDouble_of_ofFloat parts) positive)

/-- The shortest decimal of a double is a sign and its digits in positions. -/
theorem plain_eq {x : Float} {negative : Bool} {m : Nat} {e : Int}
    (parts : Binary.ofFloat x = .finite negative m e) :
    (plain x).toList = (if negative then ['-'] else []) ++ (Digits.shortest m e).positional := by
  unfold plain layout
  rw [parts]
  dsimp only
  rw [String.toList_ofList]
  cases negative with
  | true => rfl
  | false => rfl

/-- **The shortest decimal of a finite double is a number, and its double is that double.** -/
theorem isNumber_plain {x : Float} (finite : x.isFinite = true) : IsNumber (plain x).toList x := by
  obtain ⟨negative, m, e, parts⟩ := exists_parts finite
  obtain ⟨y, unsigned⟩ := exists_ofFloat (isDouble_of_ofFloat parts)
  obtain ⟨numeral, written, worth⟩ := (isPositional_positional (Digits.shortest m e)).isNumeral
  have magnitude : IsMagnitude (Digits.shortest m e).positional y :=
    .numeral written (worth ▸ nearest_shortest unsigned)
  rw [plain_eq parts]
  cases negative with
  | true =>
    have same : x = -y :=
      eq_of_ofFloat (parts.trans (ofFloat_neg unsigned).symm) (by rw [parts]; nofun)
    rw [same]
    exact IsNumber.of .minus magnitude
  | false =>
    have same : x = y := eq_of_ofFloat (parts.trans unsigned.symm) (by rw [parts]; nofun)
    rw [same]
    exact IsNumber.of .none magnitude

/-- **The shortest decimal of a finite double is read back as that double**, bit for bit. -/
theorem read?_plain {x : Float} (finite : x.isFinite = true) : read? (plain x).toList = some x :=
  read?_eq_some.mpr (isNumber_plain finite)

/-- The sign of a zero is kept. -/
example : read? (plain (-0.0)).toList = some (-0.0) := read?_plain rfl

/-- Nothing but digits, the point and the sign is written. -/
theorem mem_plain {x : Float} (finite : x.isFinite = true) {c : Char}
    (present : c ∈ (plain x).toList) : c.isDigit = true ∨ c = '.' ∨ c = '-' := by
  obtain ⟨negative, m, e, parts⟩ := exists_parts finite
  rw [plain_eq parts] at present
  rcases List.mem_append.mp present with sign | digits
  · cases negative with
    | true => exact .inr (.inr (List.mem_singleton.mp sign))
    | false => cases sign
  · exact (isPositional_positional _).mem digits |>.imp_right .inl

end Toolpath.Decimal
