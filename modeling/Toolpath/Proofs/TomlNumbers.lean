import Toolpath.Proofs.ShortestDecimals
import Toolpath.Toml.Word
import Toolpath.Toml.Writer

/-!
# Numbers in TOML

The number that a setting writes is a word of TOML, and reads back as that number and as nothing
else: not as an integer, since there is always a point or a name, and not as a date.

The reader of TOML is not the reader of programs. It wants digits on both sides of a point, no zero
before other digits, and no value beyond the largest double. `IsFractional` is the form that meets
all of this, and the printer keeps to it (`isFractional_fractional`). The law
(`wordValue?_realText`) holds of every double: of both zeros, of the smallest and the largest ones,
and of those without digits. There is one undefined double here, so that it comes back as itself.
-/

namespace Toolpath.Decimal

/-! ## Digits with a fraction -/

/-- Digits as an integer is written: at least one, and no zero before others. -/
structure IsWhole (w : List Char) : Prop where
  digits : AllDigits w
  filled : w ≠ []
  led : w.head? = some '0' → w.length = 1

/-- Digits, a point and digits, with the number that they write. -/
inductive IsFractional : List Char → ℝ → Prop where
  | of {w f : List Char} {q : ℝ} (whole : IsWhole w) (digits : AllDigits f) (filled : f ≠ [])
    (worth : digitsValue (w ++ f) * 10 ^ (-(f.length : Int)) = q) : IsFractional (w ++ '.' :: f) q

theorem head?_digitsOf {n : Nat} (positive : 0 < n) : (digitsOf n).head? ≠ some '0' := by
  induction n using Nat.strongRecOn with
  | ind n ih =>
    unfold digitsOf
    by_cases small : n < 10
    · rw [Nat.toDigits_of_lt_base small]
      interval_cases n <;> decide
    · have tenth : 0 < n / 10 := Nat.div_pos (not_lt.mp small) (by decide)
      rw [Nat.toDigits_of_base_le (by decide) (not_lt.mp small),
        List.head?_append_of_ne_nil _ (Nat.toDigits_ne_nil (n := n / 10))]
      exact ih (n / 10) (Nat.div_lt_self positive (by decide)) tenth

theorem isWhole_zero : IsWhole ['0'] := ⟨by simp [AllDigits], List.cons_ne_nil _ _, fun _ => rfl⟩

/-- A text whose digits start as those of a positive integer do. -/
theorem IsWhole.of_head? {w : List Char} {n : Nat} (digits : AllDigits w) (positive : 0 < n)
    (head : w.head? = (digitsOf n).head?) : IsWhole w := by
  refine ⟨digits, ?_, fun zero => absurd (head.symm.trans zero) (head?_digitsOf positive)⟩
  rintro rfl
  exact digitsOf_ne_nil n (List.head?_eq_none_iff.mp head.symm)

/-- A decimal without a fraction is written as an integer is. -/
theorem isWhole_positional {d : Digits} (whole : 0 ≤ d.exponent) : IsWhole d.positional := by
  obtain ⟨digits, _, _⟩ := positional_of_nonneg whole
  by_cases none : d.coefficient = 0
  · have zero : d.positional = ['0'] := by
      unfold Digits.positional
      rw [if_pos whole, if_pos none]
    exact zero ▸ isWhole_zero
  · refine .of_head? digits (Nat.pos_of_ne_zero none) ?_
    unfold Digits.positional
    rw [if_pos whole, if_neg none]
    exact List.head?_append_of_ne_nil _ (digitsOf_ne_nil _)

/-- What stands before the point of an integer with a point is written as an integer is. -/
theorem isFractional_withPoint (n : Nat) {places : Nat} (some : places ≠ 0) :
    IsFractional (withPoint n places) (n * 10 ^ (-(places : Int))) := by
  obtain ⟨w, f, written, fraction, padded⟩ := withPoint_eq n some
  have digits : AllDigits (w ++ f) := padded ▸ (allDigits_zeros _).append (allDigits_digitsOf n)
  have front : AllDigits w := fun d present => digits d (List.mem_append_left f present)
  have length := congrArg List.length padded
  rw [zeros, List.length_append, List.length_append, List.length_replicate, fraction] at length
  have filled : w ≠ [] := by
    rintro rfl
    rw [List.length_nil] at length
    omega
  have whole : IsWhole w := by
    by_cases short : (digitsOf n).length ≤ places
    · refine ⟨front, filled, fun _ => ?_⟩
      omega
    · -- no zeros are filled up, and there are two digits at least
      have none : places + 1 - (digitsOf n).length = 0 := by omega
      rw [none] at padded
      have positive : 0 < n := by
        refine Nat.pos_of_ne_zero ?_
        rintro rfl
        have single : (digitsOf 0).length = 1 := rfl
        omega
      refine .of_head? front positive ?_
      rw [← List.head?_append_of_ne_nil w filled, padded]
      rfl
  rw [written]
  refine .of whole (fun d present => digits d (List.mem_append_right w present)) ?_ ?_
  · rintro rfl
    exact some fraction.symm
  · rw [padded, digitsValue_zeros_append, digitsValue_digitsOf, fraction]

/-- **A decimal with a fraction has digits on both sides of its point.** -/
theorem isFractional_fractional (d : Digits) : IsFractional d.fractional d.value := by
  unfold Digits.fractional
  by_cases whole : 0 ≤ d.exponent
  · obtain ⟨_, _, worth⟩ := positional_of_nonneg whole
    rw [if_pos whole]
    refine .of (isWhole_positional whole) isWhole_zero.digits isWhole_zero.filled ?_
    have tenfold : digitsValue (d.positional ++ ['0']) = 10 ^ 1 * digitsValue d.positional :=
      digitsValue_append_zeros d.positional 1
    rw [tenfold, ← worth, List.length_singleton]
    push_cast
    ring
  · have some : (-d.exponent).toNat ≠ 0 := by omega
    have point := isFractional_withPoint d.coefficient some
    rw [Int.toNat_of_nonneg (by omega), neg_neg] at point
    rw [if_neg whole, Digits.value_eq]
    unfold Digits.positional
    rw [if_neg whole]
    exact point

end Toolpath.Decimal

namespace Toolpath.Toml

open Decimal
open Text (Stops stops_nil stops_cons takeWhile_run dropWhile_run)

/-! ## Words that are numbers -/

/-- Digits that are not grouped are taken as they are. -/
theorem ungroup?_digits {ds : List Char} (digits : AllDigits ds) (filled : ds ≠ []) :
    ungroup? Char.isDigit ds = some ds := by
  induction ds with
  | nil => exact absurd rfl filled
  | cons d rest ih =>
    obtain ⟨first, others⟩ := List.forall_mem_cons.mp digits
    cases rest with
    | nil => exact if_pos first
    | cons e rest =>
      have second : e.isDigit = true := others e List.mem_cons_self
      have plain : e ≠ '_' := by
        rintro rfl
        cases second
      rw [ungroup?.eq_4 _ _ _ (by simp) (by simp [plain]), if_pos first,
        ih others (List.cons_ne_nil _ _)]
      rfl

/-- Only digits, grouped or not, are taken. -/
theorem mem_of_ungroup? {cs ds : List Char} (taken : ungroup? Char.isDigit cs = some ds) :
    ∀ c ∈ cs, c.isDigit = true ∨ c = '_' := by
  fun_induction ungroup? Char.isDigit cs generalizing ds with
  | case1 => cases taken
  | case2 c digit => exact List.forall_mem_singleton.mpr (.inl digit)
  | case3 => cases taken
  | case4 c rest digit ih =>
    obtain ⟨others, found, _⟩ := Option.map_eq_some_iff.mp taken
    exact List.forall_mem_cons.mpr ⟨.inl digit, List.forall_mem_cons.mpr ⟨.inr rfl, ih found⟩⟩
  | case5 => cases taken
  | case6 c rest _ _ digit ih =>
    obtain ⟨others, found, _⟩ := Option.map_eq_some_iff.mp taken
    exact List.forall_mem_cons.mpr ⟨.inl digit, ih found⟩
  | case7 => cases taken

theorem decimal?_of_isWhole {w : List Char} (whole : IsWhole w) : decimal? w = some w := by
  have led : ¬ (1 < w.length ∧ w.head? = some '0') := by
    rintro ⟨long, zero⟩
    exact absurd (whole.led zero) long.ne'
  unfold decimal?
  rw [if_neg led, ungroup?_digits whole.digits whole.filled]

/-- What is no digit stands in no integer. -/
theorem decimal?_eq_none {cs : List Char} {c : Char} (present : c ∈ cs) (plain : c.isDigit = false)
    (ungrouped : c ≠ '_') : decimal? cs = none := by
  rw [Option.eq_none_iff_forall_ne_some]
  intro ds taken
  unfold decimal? at taken
  split_ifs at taken
  rcases mem_of_ungroup? taken c present with digit | group
  · rw [plain] at digit
    cases digit
  · exact ungrouped group

/-- A number with a fraction is read as the double that it is rounded to. -/
theorem magnitude?_of_isFractional {cs : List Char} {q : ℝ} {x : Float}
    (written : IsFractional cs q) (nearest : Nearest q x) : magnitude? cs = some x := by
  obtain @⟨w, f, _, whole, digits, filled, rfl⟩ := written
  obtain ⟨isPart, parts⟩ : ∃ p : Char → Bool, (fun c => c != '.' && c != 'e' && c != 'E') = p :=
    ⟨_, rfl⟩
  have part {ds : List Char} (all : AllDigits ds) : ∀ d ∈ ds, isPart d = true := by
    intro d present
    have digit := all d present
    rw [← parts, Bool.and_eq_true_iff, Bool.and_eq_true_iff, bne_iff_ne, bne_iff_ne, bne_iff_ne]
    refine ⟨⟨?_, ?_⟩, ?_⟩ <;> rintro rfl <;> cases digit
  have point : Stops isPart ('.' :: f) := stops_cons (parts ▸ rfl)
  have fraction : f.takeWhile isPart = f ∧ f.dropWhile isPart = [] :=
    ⟨List.takeWhile_eq_self_iff.mpr (part digits), List.dropWhile_eq_nil_iff.mpr (part digits)⟩
  have value : Numeral.value ⟨w ++ f, 0 - f.length⟩ =
      digitsValue (w ++ f) * 10 ^ (-(f.length : Int)) := by
    unfold Numeral.value
    rw [zero_sub]
  have rounded := Numeral.nearest_toFloat ⟨w ++ f, 0 - f.length⟩
  rw [value] at rounded
  unfold magnitude?
  dsimp only
  rw [parts, takeWhile_run (part whole.digits) point, dropWhile_run (part whole.digits) point,
    decimal?_of_isWhole whole]
  show (ungroup? Char.isDigit (f.takeWhile isPart)).bind (fun fraction =>
    (floatExponent? (f.dropWhile isPart)).bind fun e =>
      some (Numeral.toFloat ⟨w ++ fraction, e - fraction.length⟩)) = some x
  rw [fraction.1, fraction.2, ungroup?_digits digits filled]
  exact congrArg some (rounded.unique nearest)

/-! ## The number of a setting -/

section Signed

variable {sign rest : List Char} {negative : Bool} {q : ℝ} {x : Float}

/-- A number with a fraction is made of digits and a point. -/
theorem mem_of_isFractional (written : IsFractional rest q) :
    '.' ∈ rest ∧ ∀ c ∈ rest, c.isDigit = true ∨ c = '.' := by
  obtain @⟨w, f, _, whole, digits, _, _⟩ := written
  refine ⟨List.mem_append_right w List.mem_cons_self, fun c present => ?_⟩
  rcases List.mem_append.mp present with front | back
  · exact .inl (whole.digits c front)
  · rcases List.mem_cons.mp back with point | digit
    · exact .inr point
    · exact .inl (digits c digit)

theorem stops_of_isFractional (written : IsFractional rest q) : Stops isSignChar rest := by
  intro c present
  rcases (mem_of_isFractional written).2 c (List.mem_of_mem_head? present) with digit | rfl
  · exact isSignChar_of_isDigit digit
  · rfl

/-- A signed number with a fraction is made of digits, a point and perhaps a minus or a plus. -/
theorem mem_of_isSign_append (signed : IsSign sign negative) (written : IsFractional rest q) :
    ∀ c ∈ sign ++ rest, c.isDigit = true ∨ c = '.' ∨ c = '-' ∨ c = '+' := by
  intro c present
  rcases List.mem_append.mp present with inSign | inRest
  · cases signed with
    | none => cases inSign
    | plus => exact .inr (.inr (.inr (List.mem_singleton.mp inSign)))
    | minus => exact .inr (.inr (.inl (List.mem_singleton.mp inSign)))
  · rcases (mem_of_isFractional written).2 c inRest with digit | point
    · exact .inl digit
    · exact .inr (.inl point)

/-- No letter stands in it. -/
theorem not_mem_of_isSign_append (signed : IsSign sign negative) (written : IsFractional rest q)
    {c : Char} (letter : 65 ≤ c.toNat) : c ∉ sign ++ rest := by
  intro present
  rcases mem_of_isSign_append signed written c present with digit | rfl | rfl | rfl
  · have most : c.toNat ≤ 57 := of_decide_eq_true (Bool.and_eq_true_iff.mp digit).2
    omega
  all_goals exact absurd letter (by decide)

/-- It is no name. -/
theorem ne_name_of_isSign_append (signed : IsSign sign negative) (written : IsFractional rest q)
    {name : String} {c : Char} (named : c ∈ name.toList) (letter : 65 ≤ c.toNat) :
    sign ++ rest ≠ name.toList :=
  fun same => not_mem_of_isSign_append signed written letter (same ▸ named)

/-- It is no integer. -/
theorem integer?_eq_none (signed : IsSign sign negative) (written : IsFractional rest q) :
    integer? (sign ++ rest) = none := by
  have absent {c : Char} (letter : 65 ≤ c.toNat) : c ∉ sign ++ rest :=
    not_mem_of_isSign_append signed written letter
  have decimal : decimal? rest = none :=
    decimal?_eq_none (mem_of_isFractional written).1 rfl (by decide)
  have split := splitSign_append signed (stops_of_isFractional written)
  generalize sign ++ rest = cs at *
  unfold integer?
  -- the letter of another base is no part of the text
  split
  · exact absurd (by simp) (absent (c := 'x') (by decide))
  · exact absurd (by simp) (absent (c := 'o') (by decide))
  · exact absurd (by simp) (absent (c := 'b') (by decide))
  · rw [split]
    dsimp only
    rw [decimal]
    rfl

/-- It is a float. -/
theorem float?_of_isFractional (signed : IsSign sign negative) (written : IsFractional rest q)
    (nearest : Nearest q x) (finite : x.isFinite = true) :
    float? (sign ++ rest) = some (if negative then -x else x) := by
  have infinite : rest ≠ "inf".toList :=
    ne_name_of_isSign_append .none written (c := 'i') (by decide) (by decide)
  have undefined : rest ≠ "nan".toList :=
    ne_name_of_isSign_append .none written (c := 'n') (by decide) (by decide)
  unfold float?
  rw [splitSign_append signed (stops_of_isFractional written)]
  dsimp only
  rw [if_neg infinite, if_neg undefined, magnitude?_of_isFractional written nearest,
    Option.filter_some, if_pos finite]
  rfl

/-- A signed number with a fraction is a word, and its value is that number. -/
theorem wordValue?_of_isFractional (signed : IsSign sign negative)
    (written : IsFractional rest q) (nearest : Nearest q x) (finite : x.isFinite = true) :
    wordValue? (sign ++ rest) = some (.real (if negative then -x else x)) := by
  have isTrue : sign ++ rest ≠ "true".toList :=
    ne_name_of_isSign_append signed written (c := 't') (by decide) (by decide)
  have isFalse : sign ++ rest ≠ "false".toList :=
    ne_name_of_isSign_append signed written (c := 'f') (by decide) (by decide)
  unfold wordValue?
  rw [if_neg isTrue, if_neg isFalse, integer?_eq_none signed written,
    float?_of_isFractional signed written nearest finite]
  rfl

end Signed

/-- The text of a finite number is a sign, and digits with a fraction. -/
theorem realText_of_parts {x : Float} {negative : Bool} {m : Nat} {e : Int}
    (parts : Binary.ofFloat x = .finite negative m e) :
    (realText x).toList = (if negative then ['-'] else []) ++ (Digits.shortest m e).fractional := by
  have defined : ¬ x.isNaN = true := by
    rw [isNaN_iff, parts]
    nofun
  unfold realText layout
  rw [if_neg defined, parts]
  dsimp only
  rw [String.toList_ofList]
  cases negative with
  | true => rfl
  | false => rfl

theorem realText_of_undefined {x : Float} (undefined : Binary.ofFloat x = .undefined) :
    realText x = "nan" :=
  if_pos (isNaN_iff.mpr undefined)

theorem realText_of_infinite {x : Float} {negative : Bool}
    (infinite : Binary.ofFloat x = .infinite negative) :
    realText x = if negative then "-inf" else "inf" := by
  have defined : ¬ x.isNaN = true := by
    rw [isNaN_iff, infinite]
    nofun
  unfold realText layout
  rw [if_neg defined, infinite]

theorem isSign_minus (negative : Bool) : IsSign (if negative then ['-'] else []) negative := by
  cases negative with
  | true => exact .minus
  | false => exact .none

/-- The text of a number is of the characters of a word. -/
theorem isWordChar_of_mem_realText (x : Float) :
    ∀ c ∈ (realText x).toList, isWordChar c = true := by
  cases parts : Binary.ofFloat x with
  | undefined =>
    rw [realText_of_undefined parts]
    exact List.all_eq_true.mp rfl
  | infinite negative =>
    rw [realText_of_infinite parts]
    cases negative with
    | true => exact List.all_eq_true.mp rfl
    | false => exact List.all_eq_true.mp rfl
  | finite negative m e =>
    rw [realText_of_parts parts]
    intro c present
    rcases mem_of_isSign_append (isSign_minus negative)
      (isFractional_fractional (Digits.shortest m e)) c present with digit | rfl | rfl | rfl
    · unfold isWordChar Char.isAlphanum
      rw [digit, Bool.or_true]
      rfl
    all_goals rfl

/-- **The number of a setting is read back as that number.** -/
theorem wordValue?_realText (x : Float) : wordValue? (realText x).toList = some (.real x) := by
  cases parts : Binary.ofFloat x with
  | undefined =>
    rw [realText_of_undefined parts, eq_of_undefined parts (y := 0.0 / 0.0) (by decide +kernel)]
    rfl
  | infinite negative =>
    rw [realText_of_infinite parts]
    cases negative with
    | true =>
      rw [eq_of_ofFloat (y := -(1.0 / 0.0)) (parts.trans (by decide +kernel))
        (by rw [parts]; nofun)]
      rfl
    | false =>
      rw [eq_of_ofFloat (y := 1.0 / 0.0) (parts.trans (by decide +kernel)) (by rw [parts]; nofun)]
      rfl
  | finite negative m e =>
    obtain ⟨y, unsigned⟩ := exists_ofFloat (isDouble_of_ofFloat parts)
    have written := isFractional_fractional (Digits.shortest m e)
    have same : x = if negative then -y else y := by
      refine eq_of_ofFloat (parts.trans ?_) (by rw [parts]; nofun)
      cases negative with
      | true => exact (ofFloat_neg unsigned).symm
      | false => exact unsigned.symm
    rw [realText_of_parts parts, same]
    exact wordValue?_of_isFractional (isSign_minus negative) written (nearest_shortest unsigned)
      (isFinite_of_parts unsigned)

end Toolpath.Toml
