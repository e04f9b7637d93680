import Toolpath.Proofs.DecimalIntervals
import Toolpath.Proofs.Rounding
import Toolpath.Proofs.Runs

/-!
# What a numeral says

Which texts are numbers, and which double each of them stands for. The grammar is given as relations
between a text and what it says: an optional sign, and then a name, or digits with at most one point
and an optional exponent. The double of a numeral is the nearest one to the number written.

The reader agrees with the grammar in both directions (`read?_eq_some`): it accepts no other text,
refuses none, and gives no other double. It decides magnitudes far out of range by the place of the
leading digit alone, and this too is shown to be rounding.
-/

namespace Toolpath.Decimal

open Text

/-! ## The grammar -/

/-- A sign, or none. -/
inductive IsSign : List Char → Bool → Prop where
  | none : IsSign [] false
  | plus : IsSign ['+'] false
  | minus : IsSign ['-'] true

/-- Digits only. -/
def AllDigits (ds : List Char) : Prop := ∀ d ∈ ds, d.isDigit = true

/-- Digits with at most one point: those before it and those after it. -/
inductive IsCoefficient : List Char → List Char → List Char → Prop where
  | whole {w : List Char} (digits : AllDigits w) : IsCoefficient w w []
  | point {w f : List Char} (before : AllDigits w) (after : AllDigits f) :
    IsCoefficient (w ++ '.' :: f) w f

/-- An exponent, or none. -/
inductive IsExponent : List Char → Int → Prop where
  | none : IsExponent [] 0
  | some {letter : Char} {sign ds : List Char} {negative : Bool}
    (marked : letter = 'e' ∨ letter = 'E') (signed : IsSign sign negative) (digits : AllDigits ds)
    (filled : ds ≠ []) :
    IsExponent (letter :: (sign ++ ds)) (if negative then -(digitsValue ds : Int) else digitsValue ds)

/-- A numeral: a coefficient with a digit, and an exponent. A digit after the point is worth a power
of ten less. -/
inductive IsNumeral : List Char → Numeral → Prop where
  | of {coefficient w f exponent : List Char} {e : Int} (written : IsCoefficient coefficient w f)
    (filled : w ++ f ≠ []) (scaled : IsExponent exponent e) :
    IsNumeral (coefficient ++ exponent) ⟨w ++ f, e - f.length⟩

/-- The number that a numeral writes. -/
noncomputable def Numeral.value (n : Numeral) : ℝ := digitsValue n.digits * 10 ^ n.exponent

/-- A name in any case. -/
def IsName (name : String) (cs : List Char) : Prop := cs.map Char.toLower = name.toList

/-- A number without its sign, and its double. -/
inductive IsMagnitude : List Char → Float → Prop where
  | infinite {cs : List Char} (named : IsName "inf" cs ∨ IsName "infinity" cs) :
    IsMagnitude cs (1.0 / 0.0)
  | undefined {cs : List Char} (named : IsName "nan" cs) : IsMagnitude cs (0.0 / 0.0)
  | numeral {cs : List Char} {n : Numeral} {x : Float} (written : IsNumeral cs n)
    (nearest : Nearest n.value x) : IsMagnitude cs x

/-- A number, and its double. -/
inductive IsNumber : List Char → Float → Prop where
  | of {sign cs : List Char} {negative : Bool} {x : Float} (signed : IsSign sign negative)
    (magnitude : IsMagnitude cs x) : IsNumber (sign ++ cs) (if negative then -x else x)

/-! ## The number of digits -/

/-- A number has no more decimal than binary digits. -/
theorem digitCount_le_log2 (n : Nat) : digitCount n ≤ n.log2 + 1 := by
  refine (Nat.length_toDigits_le_iff (by decide) (Nat.succ_pos _)).mpr ?_
  calc n < 2 ^ (n.log2 + 1) := Nat.lt_log2_self
    _ ≤ 10 ^ (n.log2 + 1) := Nat.pow_le_pow_left (by decide) _

/-! ## The double of a numeral -/

theorem overflow_le_pow_ten : (overflow : ℝ) ≤ 10 ^ (310 : Int) := by
  have base : (2 : ℝ) ^ 205 ≤ 10 ^ 62 := by norm_num
  have top : (2 : ℝ) ^ 1024 ≤ 10 ^ (310 : Int) := by
    calc (2 : ℝ) ^ 1024 ≤ 2 ^ (205 * 5) := pow_le_pow_right₀ one_le_two (by decide)
      _ = (2 ^ 205) ^ 5 := pow_mul _ _ _
      _ ≤ (10 ^ 62) ^ 5 := by gcongr
      _ = 10 ^ (62 * 5) := (pow_mul _ _ _).symm
      _ = 10 ^ (310 : Int) := rfl
  calc (overflow : ℝ) ≤ (2 ^ 1024 : Nat) := Nat.cast_le.mpr (Nat.sub_le _ _)
    _ = 2 ^ 1024 := by rw [Nat.cast_pow, Nat.cast_ofNat]
    _ ≤ 10 ^ (310 : Int) := top

theorem pow_ten_le_half_place : (10 : ℝ) ^ (-330 : Int) ≤ 2 ^ (leastExponent - 1) := by
  have base : (2 : ℝ) ^ 215 ≤ 10 ^ 66 := by norm_num
  have place : leastExponent - 1 = -((215 * 5 : Nat) : Int) := rfl
  have half : (2 : ℝ) ^ (leastExponent - 1) = (2 ^ (215 * 5))⁻¹ := by
    rw [place, zpow_neg, zpow_natCast]
  have power : (10 : ℝ) ^ (-330 : Int) = (10 ^ (66 * 5))⁻¹ := zpow_neg _ _
  rw [half, power, pow_mul, pow_mul]
  gcongr

/-- A number below half a place of the smallest doubles is rounded to zero. -/
theorem nearest_zero {q : ℝ} (nonneg : 0 ≤ q) (small : q < 2 ^ (leastExponent - 1)) :
    Nearest q 0.0 := by
  have power : (0 : ℝ) < 2 ^ leastExponent := by positivity
  rw [zpow_sub_one₀ two_ne_zero, mul_comm, inv_eq_one_div] at small
  have below : q / 2 ^ leastExponent < 1 / 2 := (div_lt_iff₀ power).mpr small
  have above : 0 ≤ q / 2 ^ leastExponent := by positivity
  have near : |q / 2 ^ leastExponent - (0 : Nat)| ≤ 1 / 2 := by
    rw [Nat.cast_zero, sub_zero, abs_of_nonneg above]
    exact below.le
  have grid : OnGrid q leastExponent 0 :=
    .of_scaled le_rfl (by linarith) (fun other => absurd rfl other) near (fun _ => rfl)
  exact grid.nearest_settled

/-- **The double of a numeral is the nearest one.** -/
theorem Numeral.nearest_toFloat (n : Numeral) : Nearest n.value n.toFloat := by
  unfold Numeral.toFloat Numeral.value
  dsimp only
  generalize digitsValue n.digits = c
  generalize n.exponent = k
  rcases Nat.eq_zero_or_pos c with rfl | positive
  · rw [Nat.cast_zero, zero_mul]
    exact nearest_zero le_rfl (by positivity)
  have upper : (c : ℝ) < 10 ^ digitCount c := by exact_mod_cast lt_pow_digitCount c
  have lower : (10 : ℝ) ^ (digitCount c - 1) ≤ c := by exact_mod_cast pow_digitCount_le positive
  have digits : 0 < digitCount c := Nat.length_toDigits_pos
  rw [if_neg positive.ne']
  split_ifs with large small
  · refine .infinite rfl ?_
    calc (overflow : ℝ) ≤ 10 ^ (310 : Int) := overflow_le_pow_ten
      _ ≤ 10 ^ (((digitCount c - 1 : Nat) : Int) + k) :=
        zpow_le_zpow_right₀ (by norm_num) (by omega)
      _ = 10 ^ (digitCount c - 1) * 10 ^ k := by
        rw [zpow_add₀ (by norm_num), zpow_natCast]
      _ ≤ c * 10 ^ k := by gcongr
  · refine nearest_zero (by positivity) ?_
    calc (c : ℝ) * 10 ^ k < 10 ^ digitCount c * 10 ^ k := by gcongr
      _ = 10 ^ ((digitCount c : Int) + k) := by rw [zpow_add₀ (by norm_num), zpow_natCast]
      _ ≤ 10 ^ (-330 : Int) := zpow_le_zpow_right₀ (by norm_num) (by omega)
      _ ≤ 2 ^ (leastExponent - 1) := pow_ten_le_half_place
  · have places := digitCount_le_log2 c
    exact nearest_ofScientific positive (by omega) (by omega)

/-! ## The reader and the grammar -/

theorem allDigits_takeWhile (cs : List Char) : AllDigits (cs.takeWhile Char.isDigit) :=
  List.all_eq_true.mp List.all_takeWhile

/-- What is split off as a sign is one. -/
theorem isSign_of_splitSign {cs rest : List Char} {negative : Bool}
    (split : splitSign cs = (negative, rest)) :
    ∃ sign, IsSign sign negative ∧ cs = sign ++ rest := by
  unfold splitSign at split
  split at split
  · cases split
    exact ⟨['-'], .minus, rfl⟩
  · cases split
    exact ⟨['+'], .plus, rfl⟩
  · cases split
    exact ⟨[], .none, rfl⟩

/-- A character that a sign may be. -/
def isSignChar (c : Char) : Bool := c == '-' || c == '+'

/-- Where no sign follows a sign, all of it is split off. -/
theorem splitSign_append {sign rest : List Char} {negative : Bool} (signed : IsSign sign negative)
    (stops : Stops isSignChar rest) : splitSign (sign ++ rest) = (negative, rest) := by
  cases signed with
  | plus | minus => rfl
  | none =>
    rw [List.nil_append]
    unfold splitSign
    split
    · exact absurd (stops '-' rfl) (by decide)
    · exact absurd (stops '+' rfl) (by decide)
    · rfl

theorem isSignChar_of_isDigit {c : Char} (digit : c.isDigit = true) : isSignChar c = false := by
  have minus : c ≠ '-' := by
    rintro rfl
    exact absurd digit (by decide)
  have plus : c ≠ '+' := by
    rintro rfl
    exact absurd digit (by decide)
  exact Bool.or_eq_false_iff.mpr ⟨beq_eq_false_iff_ne.mpr minus, beq_eq_false_iff_ne.mpr plus⟩

theorem exponent?_eq_some {cs : List Char} {e : Int} : exponent? cs = some e ↔ IsExponent cs e := by
  constructor
  · intro read
    unfold exponent? at read
    split at read
    · cases read
      exact .none
    next letter rest =>
      split at read
      next marked =>
        rcases split : splitSign rest with ⟨negative, ds⟩
        rw [split] at read
        obtain ⟨sign, signed, rfl⟩ := isSign_of_splitSign split
        dsimp only at read
        split at read
        next digits =>
          cases read
          exact .some marked signed (List.all_eq_true.mp digits.2) digits.1
        next => cases read
      next => cases read
  · rintro (_ | @⟨letter, sign, ds, negative, marked, signed, digits, filled⟩)
    · rfl
    · have stops : Stops isSignChar ds := fun c present =>
        isSignChar_of_isDigit (digits c (List.mem_of_mem_head? present))
      unfold exponent?
      dsimp only
      rw [if_pos marked, splitSign_append signed stops]
      exact if_pos ⟨filled, List.all_eq_true.mpr digits⟩

/-- An exponent does not go on with a digit or a point. -/
theorem IsExponent.stops {cs : List Char} {e : Int} (scaled : IsExponent cs e) :
    Stops Char.isDigit cs ∧ Stops (· == '.') cs := by
  cases scaled with
  | none => exact ⟨stops_nil, stops_nil⟩
  | some marked _ _ _ =>
    rcases marked with rfl | rfl
    · exact ⟨stops_cons rfl, stops_cons rfl⟩
    · exact ⟨stops_cons rfl, stops_cons rfl⟩

/-- The digits before the point, and what follows them, split into the digits after it and the
rest. -/
theorem isCoefficient_of_split {w rest fraction after : List Char} (digits : AllDigits w)
    (split : splitFraction rest = (fraction, after)) :
    ∃ coefficient, IsCoefficient coefficient w fraction ∧ w ++ rest = coefficient ++ after := by
  unfold splitFraction at split
  split at split
  next rest =>
    cases split
    refine ⟨w ++ '.' :: rest.takeWhile Char.isDigit, .point digits (allDigits_takeWhile rest), ?_⟩
    rw [List.append_assoc, List.cons_append, List.takeWhile_append_dropWhile]
  next =>
    cases split
    exact ⟨w, .whole digits, rfl⟩

/-- A coefficient is split at its point where no digit and no point follow it. -/
theorem split_of_isCoefficient {coefficient w f rest : List Char}
    (written : IsCoefficient coefficient w f) (digits : Stops Char.isDigit rest)
    (point : Stops (· == '.') rest) : (coefficient ++ rest).takeWhile Char.isDigit = w ∧
      splitFraction ((coefficient ++ rest).dropWhile Char.isDigit) = (f, rest) := by
  cases written with
  | whole all =>
    refine ⟨takeWhile_run all digits, ?_⟩
    rw [dropWhile_run all digits]
    unfold splitFraction
    split
    · exact absurd (point '.' rfl) (by decide)
    · rfl
  | point before after =>
    have stops : Stops Char.isDigit ('.' :: (f ++ rest)) := stops_cons rfl
    rw [List.append_assoc, List.cons_append]
    refine ⟨takeWhile_run before stops, ?_⟩
    rw [dropWhile_run before stops]
    show ((f ++ rest).takeWhile Char.isDigit, (f ++ rest).dropWhile Char.isDigit) = (f, rest)
    rw [takeWhile_run after digits, dropWhile_run after digits]

theorem Numeral.read?_eq_some {cs : List Char} {n : Numeral} :
    Numeral.read? cs = some n ↔ IsNumeral cs n := by
  constructor
  · intro read
    have digits := allDigits_takeWhile cs
    have whole := List.takeWhile_append_dropWhile (p := Char.isDigit) (l := cs)
    unfold Numeral.read? at read
    dsimp only at read
    generalize cs.takeWhile Char.isDigit = w at *
    generalize cs.dropWhile Char.isDigit = rest at *
    rcases split : splitFraction rest with ⟨fraction, after⟩
    obtain ⟨coefficient, written, same⟩ := isCoefficient_of_split digits split
    rw [split] at read
    dsimp only at read
    split at read
    next => cases read
    next filled =>
      obtain ⟨e, scaled, rfl⟩ := Option.map_eq_some_iff.mp read
      rw [← whole, same]
      exact .of written filled (exponent?_eq_some.mp scaled)
  · rintro @⟨coefficient, w, f, exponent, e, written, filled, scaled⟩
    obtain ⟨digits, point⟩ := scaled.stops
    obtain ⟨whole, fraction⟩ := split_of_isCoefficient written digits point
    unfold Numeral.read?
    dsimp only
    rw [whole, fraction]
    dsimp only
    rw [if_neg filled, exponent?_eq_some.mpr scaled]
    rfl

/-! ### Names -/

/-- A numeral starts with a digit or a point. -/
theorem IsNumeral.starts {cs : List Char} {n : Numeral} (written : IsNumeral cs n) :
    ∃ c rest, cs = c :: rest ∧ (c.isDigit = true ∨ c = '.') := by
  obtain @⟨_, w, f, exponent, _, coefficient, filled, _⟩ := written
  cases w with
  | cons c w =>
    cases coefficient with
    | whole digits => exact ⟨c, _, rfl, .inl (digits c List.mem_cons_self)⟩
    | point digits _ => exact ⟨c, _, rfl, .inl (digits c List.mem_cons_self)⟩
  | nil =>
    cases coefficient with
    | whole _ => exact absurd rfl filled
    | point _ _ => exact ⟨'.', _, rfl, .inr rfl⟩

theorem toLower_eq_self {c : Char} (low : c.toNat < 65) : c.toLower = c := by
  refine dif_neg fun upper => ?_
  have least : 65 ≤ c.toNat := upper.1
  omega

/-- No numeral is a name. -/
theorem IsNumeral.not_name {cs : List Char} {n : Numeral} (written : IsNumeral cs n) {name : String}
    {letter : Char} {rest : List Char} (spelled : name.toList = letter :: rest)
    (high : 65 ≤ letter.toNat) : ¬ IsName name cs := by
  obtain ⟨c, tail, rfl, starts⟩ := written.starts
  have low : c.toNat < 65 := by
    rcases starts with digit | rfl
    · have bounds := Bool.and_eq_true_iff.mp digit
      have most : c.toNat ≤ 57 := of_decide_eq_true bounds.2
      omega
    · decide
  intro named
  unfold IsName at named
  rw [spelled, List.map_cons, toLower_eq_self low] at named
  injection named with same
  rw [same] at low
  omega

theorem named?_of_isNumeral {cs : List Char} {n : Numeral} (written : IsNumeral cs n) :
    named? cs = none := by
  have inf : ¬ IsName "inf" cs := written.not_name rfl (by decide)
  have infinity : ¬ IsName "infinity" cs := written.not_name rfl (by decide)
  have nan : ¬ IsName "nan" cs := written.not_name rfl (by decide)
  exact (if_neg (not_or.mpr ⟨inf, infinity⟩)).trans (if_neg nan)

theorem isMagnitude_iff {cs : List Char} {x : Float} :
    (named? cs).or ((Numeral.read? cs).map Numeral.toFloat) = some x ↔ IsMagnitude cs x := by
  constructor
  · intro read
    rcases Option.or_eq_some_iff.mp read with named | ⟨_, numeral⟩
    · unfold named? at named
      dsimp only at named
      split_ifs at named with infinite undefined
      · cases named
        exact .infinite infinite
      · cases named
        exact .undefined undefined
    · obtain ⟨n, written, rfl⟩ := Option.map_eq_some_iff.mp numeral
      exact .numeral (Numeral.read?_eq_some.mp written) n.nearest_toFloat
  · rintro (infinite | undefined | ⟨written, nearest⟩)
    · have named : named? cs = some (1.0 / 0.0) := if_pos infinite
      rw [named]
      rfl
    · have named : named? cs = some (0.0 / 0.0) := by
        have finite : ¬ (IsName "inf" cs ∨ IsName "infinity" cs) := by
          unfold IsName at *
          rw [undefined]
          decide
        exact (if_neg finite).trans (if_pos undefined)
      rw [named]
      rfl
    · rw [named?_of_isNumeral written, Numeral.read?_eq_some.mpr written]
      exact congrArg some (nearest.unique (Numeral.nearest_toFloat _)).symm

theorem IsName.stops {name : String} {cs : List Char} (named : IsName name cs)
    (letters : Stops isSignChar name.toList) : Stops isSignChar cs := by
  unfold IsName at named
  rw [← named] at letters
  cases cs with
  | nil => exact stops_nil
  | cons c cs =>
    refine stops_cons (Bool.eq_false_iff.mpr fun sign => ?_)
    have lower : isSignChar c.toLower = false := letters c.toLower rfl
    rcases Bool.or_eq_true_iff.mp sign with minus | plus
    · rw [beq_iff_eq.mp minus] at lower
      exact absurd lower (by decide)
    · rw [beq_iff_eq.mp plus] at lower
      exact absurd lower (by decide)

/-- A magnitude starts with no sign. -/
theorem IsMagnitude.stops {cs : List Char} {x : Float} (magnitude : IsMagnitude cs x) :
    Stops isSignChar cs := by
  cases magnitude with
  | infinite named =>
    rcases named with named | named
    · exact named.stops (stops_cons rfl)
    · exact named.stops (stops_cons rfl)
  | undefined named => exact named.stops (stops_cons rfl)
  | numeral written _ =>
    obtain ⟨c, rest, rfl, digit | rfl⟩ := written.starts
    · exact stops_cons (isSignChar_of_isDigit digit)
    · exact stops_cons rfl

/-- **The reader accepts the numbers of the grammar and nothing else, and gives the double of
each.** -/
theorem read?_eq_some {cs : List Char} {x : Float} : read? cs = some x ↔ IsNumber cs x := by
  constructor
  · intro read
    rcases split : splitSign cs with ⟨negative, rest⟩
    obtain ⟨sign, signed, rfl⟩ := isSign_of_splitSign split
    unfold read? at read
    rw [split] at read
    obtain ⟨y, magnitude, rfl⟩ := Option.map_eq_some_iff.mp read
    exact .of signed (isMagnitude_iff.mp magnitude)
  · rintro ⟨signed, magnitude⟩
    unfold read?
    rw [splitSign_append signed magnitude.stops]
    dsimp only
    rw [isMagnitude_iff.mpr magnitude]
    rfl

end Toolpath.Decimal
