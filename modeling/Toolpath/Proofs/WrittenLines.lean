import Toolpath.Arm.Simulated
import Toolpath.Proofs.ArmIndependence
import Toolpath.Proofs.LineGrammar
import Toolpath.Proofs.ShortestDecimals

/-!
# Lines that are written

The other direction of the grammar of a line. `Word.Written` says which texts write a word: a letter
in either case with its number, leading zeros allowed, or with the shortest decimal of its value,
and for an unsupported word any text that is read as one. `Line.Writes` puts the texts of words
between blanks and adds a comment. Every line so written is read as the words that it was written
for, bit for bit (`Line.Writes.read_eq`), and the axes then hold the last values written.

The last step has one exception: a line that goes home ends with its coordinates at zero, whatever
values they were given and wherever on the line.
-/

namespace Toolpath

open Decimal (digitsOf zeros plain)
open Text (AllBlank Spaced Stops Trimmed)

/-! ## Characters -/

/-- A character that stands inside a word: no blank, and no start of a comment. -/
structure Inside (c : Char) : Prop where
  unbroken : Text.isBlank c = false
  unmarked : c ≠ Word.commentMark

instance (c : Char) : Decidable (Inside c) :=
  decidable_of_iff (Text.isBlank c = false ∧ c ≠ Word.commentMark)
    ⟨fun h => ⟨h.1, h.2⟩, fun h => ⟨h.1, h.2⟩⟩

/-- Characters that stand inside words. -/
def AllInside (cs : List Char) : Prop := ∀ c ∈ cs, Inside c

instance (cs : List Char) : Decidable (AllInside cs) := List.decidableBAll Inside cs

/-- The blanks lie outside the visible characters of ASCII. -/
theorem Text.isBlank_eq_false {c : Char} (low : 33 ≤ c.toNat) (high : c.toNat ≤ 126) :
    Text.isBlank c = false := by
  unfold Text.isBlank
  simp only [Bool.or_eq_false_iff, Bool.and_eq_false_iff, decide_eq_false_iff_not,
    beq_eq_false_iff_ne]
  omega

/-- The visible characters of ASCII before the mark of a comment stand inside words, digits among
them. -/
theorem Inside.of_toNat {c : Char} (low : 33 ≤ c.toNat) (high : c.toNat ≤ 58) : Inside c := by
  refine ⟨Text.isBlank_eq_false low (by omega), ?_⟩
  rintro rfl
  exact absurd high (by decide)

theorem Inside.of_isDigit {c : Char} (digit : c.isDigit = true) : Inside c := by
  obtain ⟨low, high⟩ := Bool.and_eq_true_iff.mp digit
  have least : 48 ≤ c.toNat := of_decide_eq_true low
  have most : c.toNat ≤ 57 := of_decide_eq_true high
  exact .of_toNat (by omega) (by omega)

/-- A blank starts no comment. -/
theorem commentMark_not_mem {gap : List Char} (blank : AllBlank gap) : Word.commentMark ∉ gap := by
  intro present
  exact absurd (blank _ present) (by decide)

namespace Word

/-! ## Words -/

/-- The letters of the language stand inside words. -/
theorem inside_of_kind {letter : Char} (known : kind letter ≠ .other) : Inside letter := by
  unfold kind at known
  split at known
  case h_15 => exact absurd rfl known
  all_goals exact ⟨by decide, by decide⟩

/-- The texts that write a word. -/
inductive Written : Word → List Char → Prop where
  | motion {letter : Char} {code : Nat} {mode : MotionMode} (leading : Nat)
    (first : kind letter = .motion) (known : (code, mode) ∈ motions) :
    Written (.motion code mode) (letter :: (zeros leading ++ digitsOf code))
  | spindle {letter : Char} {code : Nat} {on : Bool} (leading : Nat)
    (first : kind letter = .switch) (known : (code, on) ∈ switches) :
    Written (.spindle on) (letter :: (zeros leading ++ digitsOf code))
  | axis {letter : Char} {which : Axis} {value : Float} (first : kind letter = .axis which)
    (finite : value.isFinite = true) : Written (.axis which value) (letter :: (plain value).toList)
  | feed {letter : Char} {rate : Float} (first : kind letter = .feed)
    (finite : rate.isFinite = true) (positive : 0.0 < rate) :
    Written (.feed rate) (letter :: (plain rate).toList)
  | unsupported {raw : List Char} {text : String} (filled : raw ≠ []) (inside : AllInside raw)
    (read : Word.read raw = .ok (.unsupported text)) : Written (.unsupported text) raw

/-- A number with zeros in front is that number. -/
theorem isCode_zeros_append {code : Nat} (bound : code < 2 ^ 32) (leading : Nat) :
    IsCode (zeros leading ++ digitsOf code) code where
  filled := List.append_ne_nil_of_right_ne_nil _ (Decimal.digitsOf_ne_nil code)
  digits := (Decimal.allDigits_zeros leading).append (Decimal.allDigits_digitsOf code)
  value := by rw [Decimal.digitsValue_zeros_append, Decimal.digitsValue_digitsOf]
  bound := bound

theorem motions_bound : ∀ known ∈ motions, known.1 < 2 ^ 32 := by decide

theorem switches_bound : ∀ known ∈ switches, known.1 < 2 ^ 32 := by decide

namespace Written

variable {w : Word} {raw : List Char}

theorem filled (written : Written w raw) : raw ≠ [] := by
  cases written with
  | unsupported filled => exact filled
  | motion | spindle | axis | feed => exact List.cons_ne_nil _ _

/-- **A text that writes a word means that word.** -/
theorem means (written : Written w raw) : Means raw w := by
  cases written with
  | motion leading first known =>
    exact .motion first (isCode_zeros_append (motions_bound _ known) leading) known
  | spindle leading first known =>
    exact .spindle first (isCode_zeros_append (switches_bound _ known) leading) known
  | axis first finite => exact .axis first ⟨Decimal.isNumber_plain finite, finite⟩
  | feed first finite positive => exact .feed first ⟨Decimal.isNumber_plain finite, finite⟩ positive
  | unsupported filled _ read => exact (read_eq_ok_iff filled).mp read

theorem inside_cons {letter : Char} {rest : List Char} (known : kind letter ≠ .other)
    (others : AllInside rest) : AllInside (letter :: rest) :=
  List.forall_mem_cons.mpr ⟨inside_of_kind known, others⟩

theorem inside_code (leading code : Nat) : AllInside (zeros leading ++ digitsOf code) :=
  fun c present => .of_isDigit
    ((Decimal.allDigits_zeros leading).append (Decimal.allDigits_digitsOf code) c present)

theorem inside_plain {x : Float} (finite : x.isFinite = true) : AllInside (plain x).toList := by
  intro c present
  rcases Decimal.mem_plain finite present with digit | rfl | rfl
  · exact .of_isDigit digit
  · exact .of_toNat (by decide) (by decide)
  · exact .of_toNat (by decide) (by decide)

/-- Nothing in the text of a word breaks it. -/
theorem inside (written : Written w raw) : AllInside raw := by
  cases written with
  | motion leading first => exact inside_cons (by rw [first]; nofun) (inside_code leading _)
  | spindle leading first => exact inside_cons (by rw [first]; nofun) (inside_code leading _)
  | axis first finite => exact inside_cons (by rw [first]; nofun) (inside_plain finite)
  | feed first finite => exact inside_cons (by rw [first]; nofun) (inside_plain finite)
  | unsupported _ inside => exact inside

end Written

end Word

namespace Line

open Word (Written)

/-! ## Lines -/

/-- The texts of words in order, with blanks between them. -/
inductive Joined : List Word → List Char → Prop where
  | none : Joined [] []
  | last {w : Word} {raw : List Char} (written : w.Written raw) : Joined [w] raw
  | more {w v : Word} {ws : List Word} {raw rest : List Char} (gap : List Char)
    (written : w.Written raw) (apart : gap ≠ []) (blank : AllBlank gap)
    (others : Joined (v :: ws) rest) :
    Joined (w :: v :: ws) (raw ++ (gap ++ rest))

/-- A line is written for words: their joined texts with blanks around, and perhaps a comment. -/
inductive Writes (words : List Word) (text : List Char) (source : String) : Prop where
  | of (lead trail comment : List Char) (joined : Joined words text) (before : AllBlank lead)
    (after : AllBlank trail) (marked : ∀ c ∈ comment.head?, c = Word.commentMark)
    (whole : source.toList = lead ++ (text ++ trail) ++ comment)

namespace Joined

variable {words : List Word} {text : List Char}

/-- The texts that were joined are the words of the whole. -/
theorem exists_spaced (joined : Joined words text) :
    ∃ raws, Spaced raws text ∧ List.Forall₂ Written words raws := by
  have nothing : AllBlank [] := fun _ present => by cases present
  induction joined with
  | none => exact ⟨[], .none nothing, .nil⟩
  | @last w raw written =>
    have spaced := Spaced.word nothing written.filled
      (fun c present => (written.inside c present).1) Text.stops_nil (.none nothing)
    rw [List.append_nil, List.nil_append] at spaced
    exact ⟨[raw], spaced, .cons written .nil⟩
  | @more w v ws raw rest gap written apart blank _ ih =>
    obtain ⟨raws, others, all⟩ := ih
    obtain ⟨c, more, rfl⟩ := List.exists_cons_of_ne_nil apart
    have ends : Stops (fun c => !Text.isBlank c) (c :: more ++ rest) :=
      Text.stops_cons (by rw [blank c List.mem_cons_self]; rfl)
    have spaced := Spaced.word nothing written.filled
      (fun c present => (written.inside c present).1) ends (others.append_left blank)
    exact ⟨raw :: raws, spaced, .cons written all⟩

theorem unmarked (joined : Joined words text) : Word.commentMark ∉ text := by
  induction joined with
  | none => exact List.not_mem_nil
  | last written => exact fun present => (written.inside _ present).2 rfl
  | more _ written _ blank _ ih =>
    intro present
    rcases List.mem_append.mp present with word | present
    · exact (written.inside _ word).2 rfl
    · exact (List.mem_append.mp present).elim (commentMark_not_mem blank) ih

/-- The whole is empty for no words only. -/
theorem filled (joined : Joined words text) (worded : words ≠ []) : text ≠ [] := by
  cases joined with
  | none => exact absurd rfl worded
  | last written => exact written.filled
  | more _ written => exact List.append_ne_nil_of_left_ne_nil written.filled _

/-- A text that starts with a word starts with no blank. -/
theorem stops_append {cs : List Char} (filled : cs ≠ []) (stops : Stops Text.isBlank cs)
    (rest : List Char) : Stops Text.isBlank (cs ++ rest) := by
  obtain ⟨c, cs, rfl⟩ := List.exists_cons_of_ne_nil filled
  exact Text.stops_cons (stops c rfl)

theorem stops_written {w : Word} {raw : List Char} (written : w.Written raw) :
    Stops Text.isBlank raw ∧ Stops Text.isBlank raw.reverse := by
  constructor
  · intro c present
    exact (written.inside c (List.mem_of_mem_head? present)).1
  · intro c present
    exact (written.inside c (List.mem_reverse.mp (List.mem_of_mem_head? present))).1

/-- The whole starts and ends with no blank. -/
theorem stops (joined : Joined words text) :
    Stops Text.isBlank text ∧ Stops Text.isBlank text.reverse := by
  induction joined with
  | none => exact ⟨Text.stops_nil, Text.stops_nil⟩
  | last written => exact stops_written written
  | @more w v ws raw rest gap written _ _ others ih =>
    refine ⟨stops_append written.filled (stops_written written).1 _, ?_⟩
    have backwards : rest.reverse ≠ [] := fun empty =>
      others.filled (List.cons_ne_nil _ _) (List.reverse_eq_nil_iff.mp empty)
    rw [List.reverse_append, List.reverse_append, List.append_assoc]
    exact stops_append backwards ih.2 _

end Joined

namespace Writes

variable {strict : Bool} {words : List Word} {text : List Char} {source : String}

/-- The reader strips a line to the texts of its words. -/
theorem strip_eq (writes : Writes words text source) : strip source.toList = text := by
  obtain ⟨lead, trail, comment, joined, before, after, marked, whole⟩ := writes
  have free : Word.commentMark ∉ lead ++ (text ++ trail) := by
    intro present
    rcases List.mem_append.mp present with blank | present
    · exact commentMark_not_mem before blank
    · exact (List.mem_append.mp present).elim joined.unmarked (commentMark_not_mem after)
  have bare : Text.before Word.commentMark source.toList = lead ++ (text ++ trail) := by
    rw [whole]
    exact Text.before_eq_iff.mpr (.of free marked)
  unfold strip
  rw [bare]
  exact (Trimmed.of before after joined.stops.1 joined.stops.2).trim_eq

/-- Words taken from their texts: a strict reader needs all of them to be supported. -/
theorem takes_of_written {raws : List (List Char)} (written : List.Forall₂ Written words raws)
    (supported : strict = true → ∀ w ∈ words, w.Supported) :
    List.Forall₂ (Word.Takes strict) raws words := by
  induction written with
  | nil => exact .nil
  | cons first _ ih =>
    have every (strictly : strict = true) := List.forall_mem_cons.mp (supported strictly)
    exact .cons ⟨first.means, fun strictly => (every strictly).1⟩
      (ih fun strictly => (every strictly).2)

/-- **A line is read as the words that it was written for.** A strict reader needs all of them to be
supported. -/
theorem read_eq (writes : Writes words text source)
    (supported : strict = true → ∀ w ∈ words, w.Supported) :
    Line.read strict source = .ok ⟨String.ofList text, words⟩ := by
  have stripped := writes.strip_eq
  obtain ⟨_, _, _, joined⟩ := writes
  obtain ⟨raws, spaced, written⟩ := joined.exists_spaced
  rw [read_eq_ok_iff, stripped, spaced.words_eq, readWords_eq_ok_iff spaced.filled]
  exact ⟨rfl, takes_of_written written supported⟩

end Writes

end Line

namespace Interpreter

open Line (Joined Writes)

variable {ρ : Type} [Arm ρ]

/-- The axes after a line that is read: home if a word says so, and else as its words name them. -/
theorem interpretLine_axes (i : Interpreter ρ) {source : String} {line : Line}
    (accepted : Line.read i.config.strict source = .ok line) :
    (i.interpretLine source).2.axes =
      if line.homes then (i.axes.named line.words).home else i.axes.named line.words := by
  have kept := congrArg Kept.axes (interpretLine_kept i source)
  have config : i.kept.config = i.config := rfl
  unfold Kept.after at kept
  rw [config, accepted] at kept
  exact kept

end Interpreter

/-- Each axis is named by the last word that names it. -/
theorem AxisState.get_named (s : AxisState Float) (words : List Word) (which : Axis) :
    (s.named words).get which = (Word.last? (Word.axisValue? which) words).getD (s.get which) := by
  cases which with
  | x | y | z | r => rfl

namespace Line

/-- **Writing and reading are inverse.** A line that is written for words, each as its letter with a
number or with the shortest decimal of its value, with any blanks between them and around them and
with any comment, is read as just these words, and by a strict reader too where all of them are
supported. So an interpreter that runs the line holds in each axis the last value written, and the
old one where there is none; a line that goes home ends with the coordinates at zero. -/
theorem written_round_trip {words : List Word} {text : List Char} {source : String}
    (writes : Writes words text source) :
    Line.read false source = .ok ⟨String.ofList text, words⟩ ∧
    ((∀ w ∈ words, w.Supported) → Line.read true source = .ok ⟨String.ofList text, words⟩) ∧
    ∀ (ρ : Type) [Arm ρ] (i : Interpreter ρ),
      (i.config.strict = true → ∀ w ∈ words, w.Supported) →
      let after := (i.interpretLine source).2.axes
      let last (which : Axis) := (Word.last? (Word.axisValue? which) words).getD (i.axes.get which)
      ((¬ ∃ mode, Word.motion 28 mode ∈ words) → ∀ which, after.get which = last which) ∧
      ((∃ mode, Word.motion 28 mode ∈ words) → after = ⟨0.0, 0.0, 0.0, last .r⟩) := by
  refine ⟨writes.read_eq nofun, fun supported => writes.read_eq fun _ => supported, ?_⟩
  intro ρ _ i supported after last
  have axes : after = _ := i.interpretLine_axes (writes.read_eq supported)
  constructor
  · intro stays which
    rw [axes, if_neg fun homes => stays (homes_iff.mp homes)]
    exact AxisState.get_named _ _ _
  · intro goesHome
    rw [axes, if_pos (homes_iff.mpr goesHome)]
    rfl

/-- An axis that is written twice, with a word between that is not supported. -/
theorem written_round_trip_twice :
    let source := " x-0.1\tT1\u3000X2 G01; Y7"
    let words : List Word := [.axis .x (-0.1), .unsupported "T1", .axis .x 2.0, .motion 1 .linear]
    let i := Interpreter.new (SimulatedArm.atPose Pose.identity)
    Writes words "x-0.1\tT1\u3000X2 G01".toList source ∧
      Line.read false source = .ok ⟨"x-0.1\tT1\u3000X2 G01", words⟩ ∧
      (i.interpretLine source).2.axes.get .x = 2.0 := by
  intro source words i
  have first : Word.Written (.axis .x (-0.1)) "x-0.1".toList := by
    rw [show "x-0.1".toList = 'x' :: (plain (-0.1)).toList by decide +kernel]
    exact .axis rfl rfl
  have second : Word.Written (.unsupported "T1") "T1".toList :=
    .unsupported (by decide) (by decide +kernel) rfl
  have third : Word.Written (.axis .x 2.0) "X2".toList := by
    rw [show "X2".toList = 'X' :: (plain 2.0).toList by decide +kernel]
    exact .axis rfl rfl
  have fourth : Word.Written (.motion 1 .linear) "G01".toList := .motion 1 rfl (by decide)
  have joined : Joined words "x-0.1\tT1\u3000X2 G01".toList :=
    .more ['\t'] first (by decide) (by decide)
      (.more ['\u3000'] second (by decide) (by decide)
        (.more [' '] third (by decide) (by decide) (.last fourth)))
  have writes : Writes words "x-0.1\tT1\u3000X2 G01".toList source :=
    .of [' '] [] [';', ' ', 'Y', '7'] joined (by decide) (by decide)
      (fun _ present => (Option.some.inj present).symm) (by decide +kernel)
  obtain ⟨read, _, runs⟩ := written_round_trip writes
  have stays : ¬ ∃ mode, Word.motion 28 mode ∈ words := by
    rintro ⟨mode, present⟩
    revert present
    cases mode with
    | rapid | linear | clockwiseArc | counterClockwiseArc => decide
  exact ⟨writes, read, (runs _ i nofun).1 stays .x⟩

/-- An axis that is written on a line that goes home does not hold what was written. -/
theorem written_then_home :
    let words : List Word := [.axis .x 5.0, .motion 28 .rapid]
    let i := Interpreter.new (SimulatedArm.atPose Pose.identity)
    Writes words "X5 G28".toList "X5 G28" ∧
      Word.last? (Word.axisValue? .x) words = some 5.0 ∧
      (i.interpretLine "X5 G28").2.axes.get .x = 0.0 ∧
      (i.interpretLine "X5 G28").2.axes.get .x ≠ 5.0 := by
  intro words i
  have first : Word.Written (.axis .x 5.0) "X5".toList := by
    rw [show "X5".toList = 'X' :: (plain 5.0).toList by decide +kernel]
    exact .axis rfl rfl
  have second : Word.Written (.motion 28 .rapid) "G28".toList := .motion 0 rfl (by decide)
  have joined : Joined words "X5 G28".toList :=
    .more [' '] first (by decide) (by decide) (.last second)
  have writes : Writes words "X5 G28".toList "X5 G28" :=
    .of [] [] [] joined (by decide) (by decide) nofun rfl
  have axes := i.interpretLine_axes (writes.read_eq nofun)
  refine ⟨writes, rfl, ?_, ?_⟩
  · rw [axes]
    rfl
  · rw [axes]
    decide +kernel

end Line

end Toolpath
