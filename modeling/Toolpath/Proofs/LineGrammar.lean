import Toolpath.Program.Line
import Toolpath.Proofs.Numerals

/-!
# The grammar of a line

Which lines are accepted, what they then say, and what a refusal names. A word is judged by its first
character: `Word.Means` says what a word may say, and `Word.Malformed` what may be wrong with it. A
line is judged word by word, and refused for the first word at fault.

The law (`Line.read_grammar`) holds of every text, strictly and permissively. The words are those of
the text before the first comment mark, as `Spaced` has them, and the numbers in them are those of
the grammar of numerals, rounded to the nearest double.
-/

namespace Toolpath

open Decimal (AllDigits IsNumber digitsValue)
open Text (Preceding Spaced Trimmed)

namespace Word

/-! ## Words -/

/-- What the first character makes of a word. -/
inductive Kind where
  | motion
  | switch
  | feed
  | axis (which : Axis)
  | other

/-- The kind of a word by its first character, in either case. -/
def kind : Char → Kind
  | 'G' | 'g' => .motion
  | 'M' | 'm' => .switch
  | 'F' | 'f' => .feed
  | 'X' | 'x' => .axis .x
  | 'Y' | 'y' => .axis .y
  | 'Z' | 'z' => .axis .z
  | 'R' | 'r' => .axis .r
  | _ => .other

/-- The motion numbers that are supported. -/
def motions : List (Nat × MotionMode) :=
  [(0, .rapid), (1, .linear), (2, .clockwiseArc), (3, .counterClockwiseArc), (28, .rapid)]

/-- The switch numbers that are supported, and whether they switch the spindle on. -/
def switches : List (Nat × Bool) := [(3, true), (5, false)]

/-- A motion or switch number: digits, one at least, of a value below 2 to the 32. -/
structure IsCode (ds : List Char) (code : Nat) : Prop where
  filled : ds ≠ []
  digits : AllDigits ds
  value : code = digitsValue ds
  bound : code < 2 ^ 32

/-- A finite number. -/
structure IsReal (cs : List Char) (x : Float) : Prop where
  written : IsNumber cs x
  finite : x.isFinite = true

/-- What a word takes. -/
inductive Means : List Char → Word → Prop where
  | motion {letter : Char} {rest : List Char} {code : Nat} {mode : MotionMode}
    (first : kind letter = .motion) (number : IsCode rest code) (known : (code, mode) ∈ motions) :
    Means (letter :: rest) (.motion code mode)
  | otherMotion {letter : Char} {rest : List Char} {code : Nat} (first : kind letter = .motion)
    (number : IsCode rest code) (unknown : code ∉ motions.map Prod.fst) :
    Means (letter :: rest) (.unsupported (String.ofList (letter :: rest)))
  | spindle {letter : Char} {rest : List Char} {code : Nat} {on : Bool}
    (first : kind letter = .switch) (number : IsCode rest code) (known : (code, on) ∈ switches) :
    Means (letter :: rest) (.spindle on)
  | otherSwitch {letter : Char} {rest : List Char} {code : Nat} (first : kind letter = .switch)
    (number : IsCode rest code) (unknown : code ∉ switches.map Prod.fst) :
    Means (letter :: rest) (.unsupported (String.ofList (letter :: rest)))
  | feed {letter : Char} {rest : List Char} {rate : Float} (first : kind letter = .feed)
    (number : IsReal rest rate) (positive : 0.0 < rate) : Means (letter :: rest) (.feed rate)
  | axis {letter : Char} {rest : List Char} {which : Axis} {value : Float}
    (first : kind letter = .axis which) (number : IsReal rest value) :
    Means (letter :: rest) (.axis which value)
  | other {letter : Char} {rest : List Char} (first : kind letter = .other) :
    Means (letter :: rest) (.unsupported (String.ofList (letter :: rest)))

/-- What is wrong with a word. -/
inductive Malformed : List Char → WordFault → Prop where
  | motion {letter : Char} {rest : List Char} (first : kind letter = .motion)
    (unread : ∀ code, ¬ IsCode rest code) : Malformed (letter :: rest) .motionNumber
  | switch {letter : Char} {rest : List Char} (first : kind letter = .switch)
    (unread : ∀ code, ¬ IsCode rest code) : Malformed (letter :: rest) .switchNumber
  | feed {letter : Char} {rest : List Char} (first : kind letter = .feed)
    (unread : ∀ x, ¬ IsReal rest x) : Malformed (letter :: rest) .number
  | feedNotPositive {letter : Char} {rest : List Char} {rate : Float} (first : kind letter = .feed)
    (number : IsReal rest rate) (low : ¬ 0.0 < rate) : Malformed (letter :: rest) .feedNotPositive
  | axis {letter : Char} {rest : List Char} {which : Axis} (first : kind letter = .axis which)
    (unread : ∀ x, ¬ IsReal rest x) : Malformed (letter :: rest) .number

/-- The language has the word. -/
def Supported (w : Word) : Prop := ∀ text, w ≠ .unsupported text

/-- What a word is taken for. A strict reader takes only what the language has. -/
structure Takes (strict : Bool) (raw : List Char) (w : Word) : Prop where
  means : Means raw w
  supported : strict = true → w.Supported

/-- A word that no line is refused for. -/
def Accepted (strict : Bool) (raw : List Char) : Prop := ∃ w, Takes strict raw w

/-! ### Letters -/

theorem toNat_toUpper (c : Char) :
    c.toUpper.toNat = if 97 ≤ c.toNat ∧ c.toNat ≤ 122 then c.toNat - 32 else c.toNat := by
  unfold Char.toUpper
  by_cases lower : 'a'.val ≤ c.val ∧ c.val ≤ 'z'.val
  · have bounds : 97 ≤ c.val.toNat ∧ c.val.toNat ≤ 122 := lower
    have shift : ('A'.val - 'a'.val).toNat = 2 ^ 32 - 32 := rfl
    rw [dif_pos lower]
    show (c.val + ('A'.val - 'a'.val)).toNat =
      if 97 ≤ c.val.toNat ∧ c.val.toNat ≤ 122 then c.val.toNat - 32 else _
    rw [if_pos bounds, UInt32.toNat_add, shift]
    omega
  · have bounds : ¬ (97 ≤ c.toNat ∧ c.toNat ≤ 122) := lower
    rw [dif_neg lower, if_neg bounds]

/-- Two letters have one capital: itself and its small form. -/
theorem eq_or_eq_of_toUpper {c upper lower : Char} (capital : upper.toNat ≤ 90)
    (small : lower.toNat = upper.toNat + 32) (same : c.toUpper = upper) : c = upper ∨ c = lower := by
  have value := toNat_toUpper c
  rw [same] at value
  rw [← Char.toNat_inj, ← Char.toNat_inj]
  split_ifs at value <;> omega

/-- The reader on a word of a kind, from the characters after the first. -/
def readKind (raw rest : List Char) : Kind → Except WordFault Word
  | .motion =>
    match code? rest with
    | none => .error .motionNumber
    | some code =>
      match MotionMode.ofCode? code with
      | none => .ok (.unsupported (String.ofList raw))
      | some mode => .ok (.motion code mode)
  | .switch =>
    match code? rest with
    | none => .error .switchNumber
    | some 3 => .ok (.spindle true)
    | some 5 => .ok (.spindle false)
    | some _ => .ok (.unsupported (String.ofList raw))
  | .feed =>
    match real? rest with
    | none => .error .number
    | some rate => if rate <= 0.0 then .error .feedNotPositive else .ok (.feed rate)
  | .axis which =>
    match real? rest with
    | none => .error .number
    | some x => .ok (.axis which x)
  | .other => .ok (.unsupported (String.ofList raw))

/-- The reader judges a word by its kind. -/
theorem read_cons (letter : Char) (rest : List Char) :
    read (letter :: rest) = readKind (letter :: rest) rest (kind letter) := by
  unfold kind
  split
  case h_15 g g' m m' f f' x x' y y' z z' r r' =>
    have only {upper lower : Char} (capital : upper.toNat ≤ 90)
        (small : lower.toNat = upper.toNat + 32) (notUpper : letter ≠ upper)
        (notLower : letter ≠ lower) : letter.toUpper ≠ upper := fun same =>
      (eq_or_eq_of_toUpper capital small same).elim notUpper notLower
    have noAxis : Axis.ofLetter? letter = none := by
      unfold Axis.ofLetter?
      split
      next same => exact absurd same (only (by decide) (by decide) x x')
      next same => exact absurd same (only (by decide) (by decide) y y')
      next same => exact absurd same (only (by decide) (by decide) z z')
      next same => exact absurd same (only (by decide) (by decide) r r')
      next => rfl
    unfold read
    dsimp only
    split
    next same => exact absurd same (only (by decide) (by decide) g g')
    next same => exact absurd same (only (by decide) (by decide) m m')
    next same => exact absurd same (only (by decide) (by decide) f f')
    next =>
      rw [noAxis]
      rfl
  all_goals rfl

/-! ### Numbers -/

theorem code?_eq_some {ds : List Char} {code : Nat} : code? ds = some code ↔ IsCode ds code := by
  unfold code? Decimal.readBelow?
  constructor
  · intro read
    split at read
    next digits =>
      dsimp only at read
      split at read
      next bound =>
        cases read
        exact ⟨digits.1, List.all_eq_true.mp digits.2, rfl, bound⟩
      next => cases read
    next => cases read
  · rintro ⟨filled, digits, rfl, bound⟩
    rw [if_pos ⟨filled, List.all_eq_true.mpr digits⟩]
    exact if_pos bound

theorem code?_eq_none {ds : List Char} : code? ds = none ↔ ∀ code, ¬ IsCode ds code := by
  rw [Option.eq_none_iff_forall_ne_some]
  exact forall_congr' fun code => not_congr code?_eq_some

theorem real?_eq_some {cs : List Char} {x : Float} : real? cs = some x ↔ IsReal cs x := by
  unfold real?
  rw [Option.filter_eq_some_iff, Decimal.read?_eq_some]
  exact ⟨fun ⟨written, finite⟩ => ⟨written, finite⟩, fun ⟨written, finite⟩ => ⟨written, finite⟩⟩

theorem real?_eq_none {cs : List Char} : real? cs = none ↔ ∀ x, ¬ IsReal cs x := by
  rw [Option.eq_none_iff_forall_ne_some]
  exact forall_congr' fun x => not_congr real?_eq_some

theorem ofCode?_eq_some {code : Nat} {mode : MotionMode} :
    MotionMode.ofCode? code = some mode ↔ (code, mode) ∈ motions := by
  unfold MotionMode.ofCode? motions
  constructor
  · intro known
    split at known <;> cases known <;> decide
  · intro known
    simp only [List.mem_cons, Prod.mk.injEq, List.not_mem_nil, or_false] at known
    rcases known with ⟨rfl, rfl⟩ | ⟨rfl, rfl⟩ | ⟨rfl, rfl⟩ | ⟨rfl, rfl⟩ | ⟨rfl, rfl⟩ <;> rfl

theorem ofCode?_eq_none {code : Nat} :
    MotionMode.ofCode? code = none ↔ code ∉ motions.map Prod.fst := by
  rw [Option.eq_none_iff_forall_ne_some, List.mem_map]
  constructor
  · rintro unknown ⟨⟨_, mode⟩, known, rfl⟩
    exact unknown mode (ofCode?_eq_some.mpr known)
  · intro unknown mode known
    exact unknown ⟨(code, mode), ofCode?_eq_some.mp known, rfl⟩

/-! ### The reader -/

/-- Every word says something or has something wrong with it. -/
theorem means_or_malformed (letter : Char) (rest : List Char) :
    (∃ w, Means (letter :: rest) w) ∨ ∃ fault, Malformed (letter :: rest) fault := by
  cases first : kind letter with
  | motion =>
    by_cases read : ∃ code, IsCode rest code
    · obtain ⟨code, number⟩ := read
      cases known : MotionMode.ofCode? code with
      | none => exact .inl ⟨_, .otherMotion first number (ofCode?_eq_none.mp known)⟩
      | some mode => exact .inl ⟨_, .motion first number (ofCode?_eq_some.mp known)⟩
    · exact .inr ⟨_, .motion first (not_exists.mp read)⟩
  | switch =>
    by_cases read : ∃ code, IsCode rest code
    · obtain ⟨code, number⟩ := read
      by_cases known : code ∈ switches.map Prod.fst
      · obtain ⟨⟨_, on⟩, present, rfl⟩ := List.mem_map.mp known
        exact .inl ⟨_, .spindle first number present⟩
      · exact .inl ⟨_, .otherSwitch first number known⟩
    · exact .inr ⟨_, .switch first (not_exists.mp read)⟩
  | feed =>
    by_cases read : ∃ x, IsReal rest x
    · obtain ⟨rate, number⟩ := read
      by_cases positive : 0.0 < rate
      · exact .inl ⟨_, .feed first number positive⟩
      · exact .inr ⟨_, .feedNotPositive first number positive⟩
    · exact .inr ⟨_, .feed first (not_exists.mp read)⟩
  | axis which =>
    by_cases read : ∃ x, IsReal rest x
    · obtain ⟨value, number⟩ := read
      exact .inl ⟨_, .axis first number⟩
    · exact .inr ⟨_, .axis first (not_exists.mp read)⟩
  | other => exact .inl ⟨_, .other first⟩

/-- What a word says is what is read. -/
theorem Means.read_eq {raw : List Char} {w : Word} (means : Means raw w) : read raw = .ok w := by
  cases means with
  | motion first number known =>
    rw [read_cons, first]
    unfold readKind
    rw [code?_eq_some.mpr number]
    dsimp only
    rw [ofCode?_eq_some.mpr known]
  | otherMotion first number unknown =>
    rw [read_cons, first]
    unfold readKind
    rw [code?_eq_some.mpr number]
    dsimp only
    rw [ofCode?_eq_none.mpr unknown]
  | spindle first number known =>
    rw [read_cons, first]
    unfold readKind
    rw [code?_eq_some.mpr number]
    simp only [switches, List.mem_cons, Prod.mk.injEq, List.not_mem_nil, or_false] at known
    rcases known with ⟨rfl, rfl⟩ | ⟨rfl, rfl⟩
    · rfl
    · rfl
  | otherSwitch first number unknown =>
    rw [read_cons, first]
    unfold readKind
    rw [code?_eq_some.mpr number]
    dsimp only
    split
    next same => cases same
    next same =>
      cases same
      exact absurd (by decide) unknown
    next same =>
      cases same
      exact absurd (by decide) unknown
    next => rfl
  | feed first number positive =>
    have above := (Decimal.not_le_zero_iff number.finite).mpr positive
    rw [read_cons, first]
    unfold readKind
    rw [real?_eq_some.mpr number]
    exact if_neg above
  | axis first number =>
    rw [read_cons, first]
    unfold readKind
    rw [real?_eq_some.mpr number]
  | other first =>
    rw [read_cons, first]
    rfl

/-- What is wrong with a word is what it is refused for. -/
theorem Malformed.read_eq {raw : List Char} {fault : WordFault} (malformed : Malformed raw fault) :
    read raw = .error fault := by
  cases malformed with
  | motion first unread | switch first unread =>
    rw [read_cons, first]
    unfold readKind
    rw [code?_eq_none.mpr unread]
  | feed first unread | axis first unread =>
    rw [read_cons, first]
    unfold readKind
    rw [real?_eq_none.mpr unread]
  | feedNotPositive first number low =>
    have atMost := of_not_not ((Decimal.not_le_zero_iff number.finite).not.mpr low)
    rw [read_cons, first]
    unfold readKind
    rw [real?_eq_some.mpr number]
    exact if_pos atMost

/-- **A word is read as what it takes, and as nothing else.** -/
theorem read_eq_ok_iff {raw : List Char} (filled : raw ≠ []) {w : Word} :
    read raw = .ok w ↔ Means raw w := by
  refine ⟨fun accepted => ?_, Means.read_eq⟩
  obtain ⟨letter, rest, rfl⟩ := List.exists_cons_of_ne_nil filled
  rcases means_or_malformed letter rest with ⟨v, means⟩ | ⟨fault, malformed⟩
  · rw [means.read_eq] at accepted
    cases accepted
    exact means
  · rw [malformed.read_eq] at accepted
    cases accepted

/-- **A word is refused for what is wrong with it, and for nothing else.** -/
theorem read_eq_error_iff {raw : List Char} (filled : raw ≠ []) {fault : WordFault} :
    read raw = .error fault ↔ Malformed raw fault := by
  refine ⟨fun refused => ?_, Malformed.read_eq⟩
  obtain ⟨letter, rest, rfl⟩ := List.exists_cons_of_ne_nil filled
  rcases means_or_malformed letter rest with ⟨v, means⟩ | ⟨other, malformed⟩
  · rw [means.read_eq] at refused
    cases refused
  · rw [malformed.read_eq] at refused
    cases refused
    exact malformed

end Word

/-! ## Lines -/

namespace Line

open Word

/-- What a line is refused for, by the word at fault. -/
inductive Refused (strict : Bool) (text : String) : List Char → LineFault → Prop where
  | malformed {raw : List Char} {fault : WordFault} (wrong : Malformed raw fault) :
    Refused strict text raw (.malformed text (String.ofList raw) fault)
  | unsupported {raw : List Char} {word : String} (strictly : strict = true)
    (means : Means raw (.unsupported word)) :
    Refused strict text raw (.unsupported text (String.ofList raw))

variable {strict : Bool} {text : String} {raw : List Char} {rest raws : List (List Char)}

theorem unsupportedText?_eq_none {w : Word} : w.unsupportedText? = none ↔ w.Supported := by
  cases w with
  | unsupported text =>
    refine ⟨nofun, fun supported => ?_⟩
    exact absurd rfl (supported text)
  | motion | spindle | axis | feed => exact ⟨fun _ _ => nofun, fun _ => rfl⟩

theorem unsupportedText?_eq_some {w : Word} {word : String} :
    w.unsupportedText? = some word ↔ w = .unsupported word := by
  cases w with
  | unsupported text => exact ⟨fun same => by cases same; rfl, fun same => by cases same; rfl⟩
  | motion | spindle | axis | feed => exact ⟨nofun, nofun⟩

/-- A word is accepted, or the line is refused for it. -/
theorem accepted_or_refused (strict : Bool) (text : String) (filled : raw ≠ []) :
    Accepted strict raw ∨ ∃ fault, Refused strict text raw fault := by
  obtain ⟨letter, rest, rfl⟩ := List.exists_cons_of_ne_nil filled
  rcases means_or_malformed letter rest with ⟨w, means⟩ | ⟨fault, wrong⟩
  · cases known : w.unsupportedText? with
    | none => exact .inl ⟨w, means, fun _ => unsupportedText?_eq_none.mp known⟩
    | some word =>
      obtain rfl : w = .unsupported word := unsupportedText?_eq_some.mp known
      cases strict with
      | false => exact .inl ⟨_, means, nofun⟩
      | true => exact .inr ⟨_, .unsupported rfl means⟩
  · exact .inr ⟨_, .malformed wrong⟩

theorem readWords_cons_of_takes {w : Word} (takes : Takes strict raw w) :
    readWords strict text (raw :: rest) = (readWords strict text rest).map (w :: ·) := by
  have passes : ¬ (strict && w.unsupportedText?.isSome) = true := by
    intro stopped
    obtain ⟨strictly, kept⟩ := Bool.and_eq_true_iff.mp stopped
    rw [unsupportedText?_eq_none.mpr (takes.supported strictly)] at kept
    cases kept
  rw [readWords, takes.means.read_eq]
  exact if_neg passes

theorem Refused.readWords_cons {fault : LineFault} (refused : Refused strict text raw fault) :
    readWords strict text (raw :: rest) = .error fault := by
  cases refused with
  | malformed wrong => rw [readWords, wrong.read_eq]
  | unsupported strictly means =>
    rw [readWords, means.read_eq, strictly]
    rfl

theorem Refused.not_accepted {fault : LineFault} (refused : Refused strict text raw fault) :
    ¬ Accepted strict raw := by
  rintro ⟨w, takes⟩
  have read : readWords strict text [raw] = (readWords strict text []).map (w :: ·) :=
    readWords_cons_of_takes takes
  rw [refused.readWords_cons] at read
  cases read

/-- **The words are read one for one.** -/
theorem readWords_eq_ok_iff (filled : ∀ raw ∈ raws, raw ≠ []) {words : List Word} :
    readWords strict text raws = .ok words ↔ List.Forall₂ (Takes strict) raws words := by
  induction raws generalizing words with
  | nil =>
    constructor
    · intro read
      cases read
      exact .nil
    · rintro ⟨⟩
      rfl
  | cons raw rest ih =>
    obtain ⟨first, others⟩ := List.forall_mem_cons.mp filled
    constructor
    · intro read
      rcases accepted_or_refused strict text first with ⟨w, takes⟩ | ⟨fault, refused⟩
      · rw [readWords_cons_of_takes takes] at read
        cases tail : readWords strict text rest with
        | error fault =>
          rw [tail] at read
          cases read
        | ok ws =>
          rw [tail] at read
          cases read
          exact .cons takes ((ih others).mp tail)
      · rw [refused.readWords_cons] at read
        cases read
    · rintro (_ | ⟨takes, all⟩)
      rw [readWords_cons_of_takes takes, (ih others).mpr all]
      rfl

/-- **The words are refused for the first that is not accepted.** -/
theorem readWords_eq_error_iff (filled : ∀ raw ∈ raws, raw ≠ []) {fault : LineFault} :
    readWords strict text raws = .error fault ↔ ∃ front raw back, raws = front ++ raw :: back ∧
      (∀ r ∈ front, Accepted strict r) ∧ Refused strict text raw fault := by
  constructor
  · intro read
    induction raws with
    | nil => cases read
    | cons raw rest ih =>
      obtain ⟨first, others⟩ := List.forall_mem_cons.mp filled
      rcases accepted_or_refused strict text first with ⟨w, takes⟩ | ⟨other, refused⟩
      · rw [readWords_cons_of_takes takes] at read
        cases tail : readWords strict text rest with
        | ok ws =>
          rw [tail] at read
          cases read
        | error other =>
          rw [tail] at read
          cases read
          obtain ⟨front, culprit, back, rfl, before, refused⟩ := ih others tail
          exact ⟨raw :: front, culprit, back, rfl,
            List.forall_mem_cons.mpr ⟨⟨w, takes⟩, before⟩, refused⟩
      · rw [refused.readWords_cons] at read
        cases read
        exact ⟨[], raw, rest, rfl, nofun, refused⟩
  · rintro ⟨front, raw, back, rfl, before, refused⟩
    clear filled
    induction front with
    | nil => exact refused.readWords_cons
    | cons r front ih =>
      obtain ⟨⟨w, takes⟩, others⟩ := List.forall_mem_cons.mp before
      rw [List.cons_append, readWords_cons_of_takes takes, ih others]
      rfl

/-- Words that are read are accepted, each of them. -/
theorem accepted_of_forall₂ {words : List Word} (takes : List.Forall₂ (Takes strict) raws words) :
    ∀ raw ∈ raws, Accepted strict raw := by
  induction takes with
  | nil => exact nofun
  | cons first _ ih => exact List.forall_mem_cons.mpr ⟨⟨_, first⟩, ih⟩

/-- **The words are read where all of them are accepted.** -/
theorem exists_readWords_eq_ok_iff (strict : Bool) (text : String)
    (filled : ∀ raw ∈ raws, raw ≠ []) :
    (∃ words, readWords strict text raws = .ok words) ↔ ∀ raw ∈ raws, Accepted strict raw := by
  constructor
  · rintro ⟨words, read⟩
    exact accepted_of_forall₂ ((readWords_eq_ok_iff filled).mp read)
  · intro accepted
    cases read : readWords strict text raws with
    | ok words => exact ⟨words, rfl⟩
    | error fault =>
      obtain ⟨front, raw, back, rfl, _, refused⟩ := (readWords_eq_error_iff filled).mp read
      exact absurd (accepted raw (List.mem_append_right front List.mem_cons_self))
        refused.not_accepted

/-- The parts of a line: its text without comment and outer blanks, and the raw words before the
comment. -/
inductive Parts (source : String) : List Char → List (List Char) → Prop where
  | of {front text : List Char} {raws : List (List Char)}
    (before : Preceding ';' source.toList front) (trimmed : Trimmed front text)
    (spaced : Spaced raws front) : Parts source text raws

/-- The reader takes a line into its parts. -/
theorem parts_strip (source : String) :
    Parts source (strip source.toList) (Text.words (strip source.toList)) := by
  have before := Text.before_eq_iff.mp (Eq.refl (Text.before ';' source.toList))
  have trimmed := Text.trim_eq_iff.mp (Eq.refl (Text.trim (Text.before ';' source.toList)))
  have spaced := Text.words_eq_iff.mp (Eq.refl (Text.words (strip source.toList)))
  exact .of before trimmed (spaced.of_trimmed trimmed)

/-- Blanks at the end of a line do not count. -/
theorem strip_append_right (cs : List Char) {gap : List Char} (blank : Text.AllBlank gap) :
    strip (cs ++ gap) = strip cs := by
  obtain ⟨front, found⟩ : ∃ front, Text.before ';' cs = front := ⟨_, rfl⟩
  have trimmed : Text.Trimmed front (strip cs) := by
    rw [← found]
    exact Text.trimmed_trim _
  obtain @⟨_, rest, free, ends⟩ := Text.before_eq_iff.mp found
  cases rest with
  | nil =>
    -- there is no comment, so that the blanks are the last of the text before it
    rw [List.append_nil]
    have unmarked : ';' ∉ front ++ gap := by
      intro present
      rcases List.mem_append.mp present with inside | inside
      · exact free inside
      · cases blank _ inside
    have whole : Text.before ';' (front ++ gap) = front ++ gap :=
      Text.before_eq_iff.mpr (Text.preceding_self unmarked)
    have stripped : strip (front ++ gap) = strip (front ++ []) := by
      unfold strip
      show Text.trim (Text.before ';' (front ++ gap)) = _
      rw [whole]
      exact (trimmed.append_right blank).trim_eq
    rw [stripped, List.append_nil]
  | cons c rest =>
    have same : Text.before ';' (front ++ c :: rest ++ gap) = front := by
      rw [List.append_assoc]
      exact Text.before_eq_iff.mpr (.of free ends)
    unfold strip
    show Text.trim (Text.before ';' (front ++ c :: rest ++ gap)) =
      Text.trim (Text.before ';' (front ++ c :: rest))
    rw [same, found]

/-- A line has one text and one list of raw words. -/
theorem Parts.unique {source : String} {text : List Char} {raws : List (List Char)}
    (parts : Parts source text raws) :
    strip source.toList = text ∧ Text.words (strip source.toList) = raws := by
  obtain ⟨before, trimmed, spaced⟩ := parts
  obtain ⟨found, stripped, words⟩ := parts_strip source
  obtain rfl := (Text.before_eq_iff.mpr before).symm.trans (Text.before_eq_iff.mpr found)
  exact ⟨stripped.trim_eq.symm.trans trimmed.trim_eq, words.words_eq.symm.trans spaced.words_eq⟩

/-- Any of the raw words of a line are the raw words of a line. -/
theorem Parts.exists_of_subset {source : String} {text : List Char} {raws others : List (List Char)}
    (parts : Parts source text raws) (among : ∀ raw ∈ others, raw ∈ raws) :
    ∃ other rest, Parts other rest others := by
  obtain ⟨before, _, spaced⟩ := parts
  have written : Spaced others (others.flatMap (· ++ [' '])) :=
    Text.spaced_flatMap (fun raw present => spaced.filled raw (among raw present))
      fun raw present c inside => (spaced.of_mem raw (among raw present) c inside).1
  have unmarked : ';' ∉ others.flatMap (· ++ [' ']) := by
    intro marked
    obtain ⟨raw, present, inside⟩ := List.mem_flatMap.mp marked
    rcases List.mem_append.mp inside with inside | blank
    · exact before.unmarked (spaced.of_mem raw (among raw present) _ inside).2
    · cases List.mem_singleton.mp blank
  refine ⟨String.ofList (others.flatMap (· ++ [' '])), _, .of ?_ (Text.trimmed_trim _) written⟩
  rw [String.toList_ofList]
  exact Text.preceding_self unmarked

theorem filled_words (cs : List Char) : ∀ raw ∈ Text.words cs, raw ≠ [] :=
  (Text.words_eq_iff.mp (Eq.refl (Text.words cs))).filled

section Read

variable {source : String}

theorem read_eq_ok_iff {line : Line} : Line.read strict source = .ok line ↔
    line.text = String.ofList (strip source.toList) ∧
      readWords strict (String.ofList (strip source.toList)) (Text.words (strip source.toList)) =
        .ok line.words := by
  unfold Line.read
  generalize strip source.toList = stripped
  dsimp only
  cases readWords strict (String.ofList stripped) (Text.words stripped) with
  | error fault => exact ⟨nofun, fun ⟨_, same⟩ => nomatch same⟩
  | ok words =>
    constructor
    · intro same
      cases same
      exact ⟨rfl, rfl⟩
    · intro ⟨text, same⟩
      obtain ⟨_, _⟩ := line
      cases text
      cases same
      rfl

theorem read_eq_error_iff {fault : LineFault} : Line.read strict source = .error fault ↔
    readWords strict (String.ofList (strip source.toList)) (Text.words (strip source.toList)) =
      .error fault := by
  unfold Line.read
  generalize strip source.toList = stripped
  dsimp only
  cases readWords strict (String.ofList stripped) (Text.words stripped) with
  | error other => exact ⟨fun same => by cases same; rfl, fun same => by cases same; rfl⟩
  | ok words => exact ⟨nofun, nofun⟩

/-- The raw words that are read are taken for what is read, one for one. -/
theorem takes_of_read {line : Line} {text : List Char} {raws : List (List Char)}
    (read : Line.read strict source = .ok line) (parts : Parts source text raws) :
    List.Forall₂ (Word.Takes strict) raws line.words := by
  obtain ⟨_, words⟩ := parts.unique
  have accepted := (read_eq_ok_iff.mp read).2
  rw [readWords_eq_ok_iff (filled_words _), words] at accepted
  exact accepted

/-- A line is read as what its raw words are taken for. -/
theorem read_of_takes {text : List Char} {raws : List (List Char)} {words : List Word}
    (parts : Parts source text raws) (takes : List.Forall₂ (Word.Takes strict) raws words) :
    Line.read strict source = .ok ⟨String.ofList text, words⟩ := by
  obtain ⟨stripped, split⟩ := parts.unique
  rw [read_eq_ok_iff, stripped]
  rw [stripped] at split
  refine ⟨rfl, ?_⟩
  rw [split, readWords_eq_ok_iff (split ▸ filled_words text)]
  exact takes

end Read

/-- **The grammar of a line.** Every text has parts, and is read exactly where each of its raw words
is accepted. It is then read as its text, and as what its words say, one for one and in order. It is
refused for the first raw word that is not accepted, and for what is wrong with that word. -/
theorem read_grammar (strict : Bool) (source : String) :
    ∃ text raws, Parts source text raws ∧
      ((∃ line, Line.read strict source = .ok line) ↔ ∀ raw ∈ raws, Accepted strict raw) ∧
      (∀ line, Line.read strict source = .ok line ↔
        line.text = String.ofList text ∧ List.Forall₂ (Takes strict) raws line.words) ∧
      (∀ fault, Line.read strict source = .error fault ↔
        ∃ front raw back, raws = front ++ raw :: back ∧ (∀ r ∈ front, Accepted strict r) ∧
          Refused strict (String.ofList text) raw fault) := by
  have filled := filled_words (strip source.toList)
  refine ⟨_, _, parts_strip source, ?_, fun line => ?_, fun fault => ?_⟩
  · rw [← exists_readWords_eq_ok_iff strict (String.ofList (strip source.toList)) filled]
    constructor
    · rintro ⟨line, read⟩
      exact ⟨line.words, (read_eq_ok_iff.mp read).2⟩
    · rintro ⟨words, read⟩
      exact ⟨⟨String.ofList (strip source.toList), words⟩, read_eq_ok_iff.mpr ⟨rfl, read⟩⟩
  · rw [read_eq_ok_iff, readWords_eq_ok_iff filled]
  · rw [read_eq_error_iff, readWords_eq_error_iff filled]

/-- A feed rate that rounds to zero is refused as one that is not positive. -/
example : Line.read false " g1 F1e-400 ; slow" =
    .error (.malformed "g1 F1e-400" "F1e-400" .feedNotPositive) := by decide +kernel

end Line

end Toolpath
