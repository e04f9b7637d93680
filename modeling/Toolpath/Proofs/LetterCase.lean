import Toolpath.Proofs.LineGrammar

/-!
# Letters in either case

Letters are read alike in either case: the first letter of a word, the letter of an exponent and the
names of numbers without digits. Each of these is read by a test of its own, so this module says of
each reader that a text in capitals is read as the text is, and ends with words
(`Word.read_capitals`): only the text of an unsupported word shows the difference.

Case is that of the 26 letters of the basic alphabet. No other character has a capital here, so no
character is taken for a letter, a digit, a sign or a blank that was none.
-/

namespace Toolpath

namespace Text

/-! ## Characters -/

/-- A text in capitals. -/
def capitals (cs : List Char) : List Char := cs.map Char.toUpper

/-- A character that is no letter is the capital of itself only. -/
theorem toUpper_eq_iff {c d : Char} (notUpper : ¬ (65 ≤ d.toNat ∧ d.toNat ≤ 90))
    (notLower : ¬ (97 ≤ d.toNat ∧ d.toNat ≤ 122)) : c.toUpper = d ↔ c = d := by
  rw [← Char.toNat_inj, ← Char.toNat_inj, Word.toNat_toUpper]
  split_ifs <;> omega

theorem toUpper_toUpper (c : Char) : c.toUpper.toUpper = c.toUpper := by
  rw [← Char.toNat_inj, Word.toNat_toUpper, Word.toNat_toUpper]
  split_ifs <;> omega

theorem toNat_toLower (c : Char) :
    c.toLower.toNat = if 65 ≤ c.toNat ∧ c.toNat ≤ 90 then c.toNat + 32 else c.toNat := by
  unfold Char.toLower
  by_cases upper : 'A'.val ≤ c.val ∧ c.val ≤ 'Z'.val
  · have bounds : 65 ≤ c.val.toNat ∧ c.val.toNat ≤ 90 := upper
    have shift : ('a'.val - 'A'.val).toNat = 32 := rfl
    rw [dif_pos upper]
    show (c.val + ('a'.val - 'A'.val)).toNat =
      if 65 ≤ c.val.toNat ∧ c.val.toNat ≤ 90 then c.val.toNat + 32 else _
    rw [if_pos bounds, UInt32.toNat_add, shift]
    omega
  · have bounds : ¬ (65 ≤ c.toNat ∧ c.toNat ≤ 90) := upper
    rw [dif_neg upper, if_neg bounds]

/-- A letter has one small form in either case. -/
theorem toLower_toUpper (c : Char) : c.toUpper.toLower = c.toLower := by
  rw [← Char.toNat_inj, toNat_toLower, toNat_toLower, Word.toNat_toUpper]
  split_ifs <;> omega

theorem isBlank_toUpper (c : Char) : isBlank c.toUpper = isBlank c := by
  unfold isBlank
  rw [Word.toNat_toUpper]
  dsimp only
  split_ifs with lower
  · generalize c.toNat = n at *
    obtain ⟨least, most⟩ := lower
    interval_cases n <;> rfl
  · rfl

theorem isDigit_toUpper (c : Char) : c.toUpper.isDigit = c.isDigit := by
  have digit (d : Char) : d.isDigit = decide (48 ≤ d.toNat ∧ d.toNat ≤ 57) := by
    unfold Char.isDigit
    rw [Bool.decide_and]
    rfl
  rw [digit, digit, Word.toNat_toUpper, decide_eq_decide]
  split_ifs <;> omega

/-! ## Runs and words -/

section Run

variable {p : Char → Bool} (kind : ∀ c, p c.toUpper = p c)
include kind

theorem takeWhile_capitals (cs : List Char) :
    (capitals cs).takeWhile p = capitals (cs.takeWhile p) := by
  have same : p ∘ Char.toUpper = p := funext kind
  unfold capitals
  rw [List.takeWhile_map, same]

theorem dropWhile_capitals (cs : List Char) :
    (capitals cs).dropWhile p = capitals (cs.dropWhile p) := by
  have same : p ∘ Char.toUpper = p := funext kind
  unfold capitals
  rw [List.dropWhile_map, same]

theorem stops_capitals {rest : List Char} (stops : Stops p rest) : Stops p (capitals rest) := by
  cases rest with
  | nil => exact stops_nil
  | cons c rest => exact stops_cons (by rw [kind, stops c rfl])

end Run

theorem capitals_append (cs ds : List Char) :
    capitals (cs ++ ds) = capitals cs ++ capitals ds := List.map_append

theorem allBlank_capitals {gap : List Char} (blank : AllBlank gap) : AllBlank (capitals gap) :=
  List.forall_mem_map.mpr fun c present => by rw [isBlank_toUpper, blank c present]

/-- The words of a text in capitals are those of the text. -/
theorem Spaced.capitals {ws : List (List Char)} {cs : List Char} (spaced : Spaced ws cs) :
    Spaced (ws.map Text.capitals) (Text.capitals cs) := by
  induction spaced with
  | none blank => exact .none (allBlank_capitals blank)
  | word blank filled unbroken ends _ ih =>
    rw [capitals_append, capitals_append]
    refine .word (allBlank_capitals blank) (fun empty => filled (List.map_eq_nil_iff.mp empty)) ?_
      (stops_capitals (fun c => by rw [isBlank_toUpper]) ends) ih
    exact List.forall_mem_map.mpr fun c inside => by rw [isBlank_toUpper, unbroken c inside]

theorem words_capitals (cs : List Char) : words (capitals cs) = (words cs).map capitals :=
  (words_eq_iff.mp (Eq.refl (words cs))).capitals.words_eq

end Text

/-! ## Numbers -/

namespace Decimal

open Text

theorem isSignChar_toUpper (c : Char) : isSignChar c.toUpper = isSignChar c := by
  have minus : c.toUpper = '-' ↔ c = '-' := toUpper_eq_iff (by decide) (by decide)
  have plus : c.toUpper = '+' ↔ c = '+' := toUpper_eq_iff (by decide) (by decide)
  rw [Bool.eq_iff_iff]
  unfold isSignChar
  rw [Bool.or_eq_true_iff, Bool.or_eq_true_iff, beq_iff_eq, beq_iff_eq, beq_iff_eq, beq_iff_eq,
    minus, plus]

theorem splitSign_capitals (cs : List Char) :
    splitSign (capitals cs) = ((splitSign cs).1, capitals (splitSign cs).2) := by
  cases cs with
  | nil => rfl
  | cons c cs =>
    cases kind : isSignChar c with
    | true =>
      rcases Bool.or_eq_true_iff.mp kind with minus | plus
      · rw [beq_iff_eq.mp minus]
        rfl
      · rw [beq_iff_eq.mp plus]
        rfl
    | false =>
      have stops : Stops isSignChar (c :: cs) := stops_cons kind
      have plain : splitSign (c :: cs) = (false, c :: cs) := splitSign_append .none stops
      have capital : splitSign (capitals (c :: cs)) = (false, capitals (c :: cs)) :=
        splitSign_append .none (stops_capitals isSignChar_toUpper stops)
      rw [plain, capital]

/-- Digits are no letters. -/
theorem AllDigits.capitals_eq {ds : List Char} (digits : AllDigits ds) : capitals ds = ds := by
  refine (List.map_congr_left fun d present => ?_).trans (List.map_id ds)
  have bounds := Bool.and_eq_true_iff.mp (digits d present)
  have most : d.toNat ≤ 57 := of_decide_eq_true bounds.2
  have plain : d.toUpper = d := (toUpper_eq_iff (by omega) (by omega)).mpr rfl
  exact plain

theorem filled_digits_capitals {ds : List Char} :
    (capitals ds ≠ [] ∧ (capitals ds).all Char.isDigit = true) ↔
      (ds ≠ [] ∧ ds.all Char.isDigit = true) := by
  have same : Char.isDigit ∘ Char.toUpper = Char.isDigit := funext isDigit_toUpper
  unfold capitals
  rw [Ne, List.map_eq_nil_iff, List.all_map, same]

theorem exponent?_capitals (cs : List Char) : exponent? (capitals cs) = exponent? cs := by
  cases cs with
  | nil => rfl
  | cons c rest =>
    have marked : (c.toUpper = 'e' ∨ c.toUpper = 'E') ↔ (c = 'e' ∨ c = 'E') := by
      rw [← Char.toNat_inj, ← Char.toNat_inj, ← Char.toNat_inj, ← Char.toNat_inj,
        Word.toNat_toUpper]
      have small : 'e'.toNat = 101 := rfl
      have large : 'E'.toNat = 69 := rfl
      rw [small, large]
      split_ifs <;> omega
    rcases split : splitSign rest with ⟨negative, ds⟩
    have capital : splitSign (capitals rest) = (negative, capitals ds) := by
      rw [splitSign_capitals, split]
    show exponent? (c.toUpper :: capitals rest) = exponent? (c :: rest)
    unfold exponent?
    dsimp only
    rw [capital, split]
    dsimp only
    by_cases digits : ds ≠ [] ∧ ds.all Char.isDigit = true
    · rw [AllDigits.capitals_eq (List.all_eq_true.mp digits.2)]
      simp only [marked]
    · have none : ¬ (capitals ds ≠ [] ∧ (capitals ds).all Char.isDigit = true) :=
        fun capital => digits (filled_digits_capitals.mp capital)
      simp only [marked, if_neg digits, if_neg none]

/-- Nothing is split off where no point stands. -/
theorem splitFraction_of_stops {cs : List Char} (stops : Stops (· == '.') cs) :
    splitFraction cs = ([], cs) := by
  unfold splitFraction
  split
  · exact absurd (stops '.' rfl) (by decide)
  · rfl

theorem splitFraction_capitals (cs : List Char) :
    splitFraction (capitals cs) = ((splitFraction cs).1, capitals (splitFraction cs).2) := by
  have kind (c : Char) : (c.toUpper == '.') = (c == '.') := by
    rw [Bool.eq_iff_iff, beq_iff_eq, beq_iff_eq]
    exact toUpper_eq_iff (by decide) (by decide)
  cases cs with
  | nil => rfl
  | cons c rest =>
    by_cases point : c = '.'
    · subst point
      have digits := takeWhile_capitals isDigit_toUpper rest
      rw [AllDigits.capitals_eq (allDigits_takeWhile rest)] at digits
      exact Prod.ext digits (dropWhile_capitals isDigit_toUpper rest)
    · have stops : Stops (· == '.') (c :: rest) := stops_cons (beq_eq_false_iff_ne.mpr point)
      rw [splitFraction_of_stops stops, splitFraction_of_stops (stops_capitals kind stops)]

theorem Numeral.read?_capitals (cs : List Char) :
    Numeral.read? (capitals cs) = Numeral.read? cs := by
  have whole := takeWhile_capitals isDigit_toUpper cs
  rw [AllDigits.capitals_eq (allDigits_takeWhile cs)] at whole
  unfold Numeral.read?
  dsimp only
  rw [whole, dropWhile_capitals isDigit_toUpper, splitFraction_capitals]
  dsimp only
  rw [exponent?_capitals]

theorem named?_capitals (cs : List Char) : named? (capitals cs) = named? cs := by
  have name : (capitals cs).map Char.toLower = cs.map Char.toLower := by
    unfold capitals
    rw [List.map_map]
    exact List.map_congr_left fun c _ => toLower_toUpper c
  unfold named?
  rw [name]

/-- **Numbers are read alike in either case.** -/
theorem read?_capitals (cs : List Char) : read? (capitals cs) = read? cs := by
  unfold read?
  rw [splitSign_capitals]
  dsimp only
  rw [named?_capitals, Numeral.read?_capitals]

theorem readBelow?_capitals (bound : Nat) (cs : List Char) :
    readBelow? bound (capitals cs) = readBelow? bound cs := by
  unfold readBelow?
  by_cases digits : cs ≠ [] ∧ cs.all Char.isDigit = true
  · rw [AllDigits.capitals_eq (List.all_eq_true.mp digits.2)]
  · rw [if_neg digits, if_neg fun capital => digits (filled_digits_capitals.mp capital)]

end Decimal

/-! ## Words -/

namespace Word

open Text (capitals)

/-- A word with its text in capitals, where it has one. -/
def capital : Word → Word
  | unsupported text => unsupported (String.ofList (capitals text.toList))
  | w => w

/-- **A word in capitals is read as the word is**, in capitals, and refused for what it is. -/
theorem read_capitals (raw : List Char) : read (capitals raw) = (read raw).map capital := by
  cases raw with
  | nil => rfl
  | cons letter rest =>
    have code : code? (capitals rest) = code? rest := Decimal.readBelow?_capitals codeBound rest
    have real : real? (capitals rest) = real? rest := by
      unfold real?
      rw [Decimal.read?_capitals]
    have axis : Axis.ofLetter? letter.toUpper = Axis.ofLetter? letter := by
      unfold Axis.ofLetter?
      rw [Text.toUpper_toUpper]
    have text : unsupported (String.ofList (letter.toUpper :: capitals rest)) =
        capital (unsupported (String.ofList (letter :: rest))) := by
      unfold capital
      dsimp only
      rw [String.toList_ofList]
      rfl
    show read (letter.toUpper :: capitals rest) = _
    unfold read
    dsimp only
    rw [Text.toUpper_toUpper, code, real, axis, text]
    split
    · cases code? rest with
      | none => rfl
      | some code =>
        dsimp only
        cases MotionMode.ofCode? code with
        | none => rfl
        | some mode => rfl
    · -- the numbers up to the last that is known, and the others
      cases code? rest with
      | none => rfl
      | some code => rcases code with _ | _ | _ | _ | _ | _ | code <;> rfl
    · cases real? rest with
      | none => rfl
      | some rate =>
        dsimp only
        split_ifs
        · rfl
        · rfl
    · cases Axis.ofLetter? letter with
      | none => rfl
      | some which =>
        cases real? rest with
        | none => rfl
        | some x => rfl

end Word

end Toolpath
