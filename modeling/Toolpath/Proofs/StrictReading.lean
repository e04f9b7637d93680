import Toolpath.Proofs.ArmIndependence
import Toolpath.Proofs.LineGrammar

/-!
# Strict and permissive reading

A strict reader refuses what a permissive one passes over, and nothing else. This module compares
the two: on a word (`Word.takes_strict_iff`), on a line, which each of them gives up at its first
word at fault, and on whole programs.

The law (`strict_refines_permissive`): strictly read lines are the permissively read ones without an
unsupported word; a line that is malformed for the permissive reader is malformed for the strict one
at the same word, unless an unsupported word stands before that; and a line refused for an
unsupported word has nothing wrong before it. So a program in which the strict reader meets no
unsupported word does the same under both, to the interpreter and to the arm. Where it meets one,
nothing is said of what follows, because the permissive reader goes on with the line.
-/

namespace Toolpath

/-! ## Words -/

namespace Word

variable {raw : List Char} {w : Word}

/-- A strict reader takes a word for what a permissive one takes it for, if the language has it. -/
theorem takes_strict_iff : Takes true raw w ↔ Takes false raw w ∧ w.Supported := by
  constructor
  · intro takes
    exact ⟨⟨takes.means, nofun⟩, takes.supported rfl⟩
  · rintro ⟨takes, supported⟩
    exact ⟨takes.means, fun _ => supported⟩

/-- An unsupported word keeps its text. -/
theorem Means.text_eq {text : String} (means : Means raw (.unsupported text)) :
    text = String.ofList raw := by
  cases means with
  | otherMotion | otherSwitch | other => rfl

/-- What a permissive reader accepts is accepted by a strict one, or unsupported. -/
theorem Accepted.strict_or_unsupported (accepted : Accepted false raw) :
    Accepted true raw ∨ Means raw (.unsupported (String.ofList raw)) := by
  obtain ⟨w, takes⟩ := accepted
  cases known : w.unsupportedText? with
  | none => exact .inl ⟨w, takes.means, fun _ => Line.unsupportedText?_eq_none.mp known⟩
  | some text =>
    obtain rfl : w = .unsupported text := Line.unsupportedText?_eq_some.mp known
    have means := takes.means
    obtain rfl := means.text_eq
    exact .inr means

theorem Accepted.permissive (accepted : Accepted true raw) : Accepted false raw := by
  obtain ⟨w, takes⟩ := accepted
  exact ⟨w, (takes_strict_iff.mp takes).1⟩

end Word

/-! ## Lines -/

namespace Line

open Word

variable {source : String} {text : String} {raws front : List (List Char)} {words : List Word}

theorem skipped_eq_nil_iff {line : Line} : line.skipped = [] ↔ ∀ w ∈ line.words, w.Supported := by
  unfold skipped
  rw [List.filterMap_eq_nil_iff]
  exact forall₂_congr fun w _ => unsupportedText?_eq_none

theorem forall₂_takes_strict_iff : List.Forall₂ (Takes true) raws words ↔
    List.Forall₂ (Takes false) raws words ∧ ∀ w ∈ words, w.Supported := by
  constructor
  · intro takes
    induction takes with
    | nil => exact ⟨.nil, nofun⟩
    | cons first _ ih =>
      obtain ⟨taken, supported⟩ := takes_strict_iff.mp first
      exact ⟨.cons taken ih.1, List.forall_mem_cons.mpr ⟨supported, ih.2⟩⟩
  · rintro ⟨takes, supported⟩
    induction takes with
    | nil => exact .nil
    | cons first _ ih =>
      obtain ⟨here, others⟩ := List.forall_mem_cons.mp supported
      exact .cons (takes_strict_iff.mpr ⟨first, here⟩) (ih others)

/-- A line is read strictly where it is read permissively and nothing of it is skipped. -/
theorem read_strict_iff {line : Line} : Line.read true source = .ok line ↔
    Line.read false source = .ok line ∧ line.skipped = [] := by
  have filled := filled_words (strip source.toList)
  rw [read_eq_ok_iff, read_eq_ok_iff, readWords_eq_ok_iff filled, readWords_eq_ok_iff filled,
    forall₂_takes_strict_iff, skipped_eq_nil_iff, and_assoc]

/-- Of words that a permissive reader accepts, a strict one accepts all, or all up to an unsupported
one. -/
theorem accepted_or_first_unsupported (accepted : ∀ r ∈ front, Accepted false r) :
    (∀ r ∈ front, Accepted true r) ∨
      ∃ before raw after, front = before ++ raw :: after ∧ (∀ r ∈ before, Accepted true r) ∧
        Means raw (.unsupported (String.ofList raw)) := by
  induction front with
  | nil => exact .inl nofun
  | cons raw rest ih =>
    obtain ⟨first, others⟩ := List.forall_mem_cons.mp accepted
    rcases first.strict_or_unsupported with strictly | unsupported
    · rcases ih others with all | ⟨before, culprit, after, rfl, passed, unsupported⟩
      · exact .inl (List.forall_mem_cons.mpr ⟨strictly, all⟩)
      · exact .inr ⟨raw :: before, culprit, after, rfl,
          List.forall_mem_cons.mpr ⟨strictly, passed⟩, unsupported⟩
    · exact .inr ⟨[], raw, rest, rfl, nofun, unsupported⟩

/-- A permissive reader refuses a line only for a malformed word. -/
theorem refused_permissive_iff {raw : List Char} {fault : LineFault} :
    Refused false text raw fault ↔
      ∃ wrong, Malformed raw wrong ∧ fault = .malformed text (String.ofList raw) wrong := by
  constructor
  · rintro (⟨wrong⟩ | ⟨strictly, _⟩)
    · exact ⟨_, wrong, rfl⟩
    · cases strictly
  · rintro ⟨wrong, malformed, rfl⟩
    exact .malformed malformed

/-- What both readers refuse a line for, if it is a malformed word, is the same. -/
theorem read_malformed_of_strict {line word : String} {wrong : WordFault}
    (refused : Line.read true source = .error (.malformed line word wrong)) :
    Line.read false source = .error (.malformed line word wrong) := by
  have filled := filled_words (strip source.toList)
  rw [read_eq_error_iff, readWords_eq_error_iff filled] at refused ⊢
  obtain ⟨front, raw, back, split, accepted, culprit⟩ := refused
  refine ⟨front, raw, back, split, fun r present => (accepted r present).permissive, ?_⟩
  cases culprit with
  | malformed malformed => exact .malformed malformed

/-- Where the permissive reader refuses a line, it is for a malformed word, and the strict one
refuses it for the same or for an unsupported word before that. -/
theorem strict_of_refused_permissive {fault : LineFault}
    (refused : Line.read false source = .error fault) :
    ∃ front raw back wrong, Text.words (strip source.toList) = front ++ raw :: back ∧
      Malformed raw wrong ∧
      fault = .malformed (String.ofList (strip source.toList)) (String.ofList raw) wrong ∧
      (Line.read true source = .error fault ∨
        ∃ before word after, front = before ++ word :: after ∧
          Means word (.unsupported (String.ofList word)) ∧
          Line.read true source =
            .error (.unsupported (String.ofList (strip source.toList)) (String.ofList word))) := by
  have filled := filled_words (strip source.toList)
  obtain ⟨front, raw, back, split, accepted, culprit⟩ :=
    (readWords_eq_error_iff filled).mp (read_eq_error_iff.mp refused)
  obtain ⟨wrong, malformed, rfl⟩ := refused_permissive_iff.mp culprit
  refine ⟨front, raw, back, wrong, split, malformed, rfl, ?_⟩
  rcases accepted_or_first_unsupported accepted with
    all | ⟨before, word, after, rfl, passed, unsupported⟩
  · left
    rw [read_eq_error_iff, readWords_eq_error_iff filled]
    exact ⟨front, raw, back, split, all, .malformed malformed⟩
  · right
    refine ⟨before, word, after, rfl, unsupported, ?_⟩
    rw [read_eq_error_iff, readWords_eq_error_iff filled]
    refine ⟨before, word, after ++ raw :: back, ?_, passed, .unsupported rfl unsupported⟩
    rw [split, List.append_assoc, List.cons_append]

/-- A line refused for an unsupported word has only supported words before it. -/
theorem supported_before_unsupported {line word : String}
    (refused : Line.read true source = .error (.unsupported line word)) :
    ∃ front raw back, Text.words (strip source.toList) = front ++ raw :: back ∧
      word = String.ofList raw ∧ Means raw (.unsupported word) ∧
      ∀ r ∈ front, ∃ w, Means r w ∧ w.Supported := by
  have filled := filled_words (strip source.toList)
  obtain ⟨front, raw, back, split, accepted, culprit⟩ :=
    (readWords_eq_error_iff filled).mp (read_eq_error_iff.mp refused)
  cases culprit with
  | unsupported _ means =>
    obtain rfl := means.text_eq
    refine ⟨front, raw, back, split, rfl, means, fun r present => ?_⟩
    obtain ⟨w, takes⟩ := accepted r present
    exact ⟨w, takes.means, takes.supported rfl⟩

end Line

/-! ## Programs -/

namespace Interpreter

variable {ρ : Type}

/-- The interpreter with a strict or a permissive reader. -/
def reading (strict : Bool) (i : Interpreter ρ) : Interpreter ρ :=
  { i with config := { i.config with strict := strict } }

theorem applyWords_reading (strict : Bool) (i : Interpreter ρ) (words : List Word) :
    (i.reading strict).applyWords words = (i.applyWords words).reading strict :=
  applyWords_through (reading strict) (fun _ w => by cases w <;> rfl) i words

variable [Arm ρ]

/-- A line that has been read is carried out in the same way whichever reader stands by for the
next. -/
theorem perform_reading (strict : Bool) (i : Interpreter ρ) (line : Line) :
    (i.reading strict).perform line =
      ((i.perform line).1, (i.perform line).2.reading strict) := by
  cases moving : Word.last? Word.mode? line.words with
  | none =>
    rw [perform_still (i.reading strict) moving, perform_still i moving, applyWords_reading]
  | some mode =>
    rcases ran : mode.dispatch i.arm (i.axes.named line.words) i.config.wait with ⟨outcome, after⟩
    rw [perform_moving (i.reading strict) moving ran, perform_moving i moving ran,
      applyWords_reading]
    rfl

/-- A line in which the strict reader meets no unsupported word does the same under both. -/
theorem interpretLine_permissive {i : Interpreter ρ} (strict : i.config.strict = true)
    {source : String}
    (known : ∀ line word, (i.interpretLine source).1 ≠ .error (.refused (.unsupported line word))) :
    (i.reading false).interpretLine source =
      ((i.interpretLine source).1, (i.interpretLine source).2.reading false) := by
  cases read : Line.read true source with
  | ok line =>
    have strictly : Line.read i.config.strict source = .ok line := strict ▸ read
    have permissively : Line.read (i.reading false).config.strict source = .ok line :=
      (Line.read_strict_iff.mp read).1
    rw [interpretLine_of_read i strictly, interpretLine_of_read (i.reading false) permissively,
      perform_reading]
  | error fault =>
    have strictly : i.interpretLine source = (.error (.refused fault), i) := by
      unfold interpretLine
      rw [strict, read]
    rw [strictly] at known ⊢
    cases fault with
    | unsupported line word => exact absurd rfl (known line word)
    | malformed line word wrong =>
      have permissively : Line.read (i.reading false).config.strict source =
          .error (.malformed line word wrong) := Line.read_malformed_of_strict read
      unfold interpretLine
      rw [permissively]

/-- No line changes which reader reads the next. -/
theorem interpretLine_config (i : Interpreter ρ) (source : String) :
    (i.interpretLine source).2.config = i.config := by
  have kept := congrArg Kept.config (interpretLine_kept i source)
  unfold Kept.after at kept
  split at kept
  · exact kept
  · exact kept

/-- A program in which the strict reader meets no unsupported word does the same under both. -/
theorem interpretLines_permissive {i : Interpreter ρ} (strict : i.config.strict = true)
    {lines : List String}
    (known : ∀ result ∈ (i.interpretLines lines).1, ∀ line word,
      result ≠ .error (.refused (.unsupported line word))) :
    (i.reading false).interpretLines lines =
      ((i.interpretLines lines).1, (i.interpretLines lines).2.reading false) := by
  induction lines generalizing i with
  | nil => rfl
  | cons source rest ih =>
    rw [interpretLines_cons] at known
    obtain ⟨first, others⟩ := List.forall_mem_cons.mp known
    have next : (i.interpretLine source).2.config.strict = true := by
      rw [interpretLine_config, strict]
    rw [interpretLines_cons, interpretLines_cons, interpretLine_permissive strict first,
      ih next others]

end Interpreter

/-! ## The law -/

namespace Line

open Word

/-- **Strict reading refines permissive reading.** A line is read strictly exactly where it is read
permissively and has no unsupported word. Where the permissive reader refuses it, for a malformed
word, the strict one refuses it for the same, or for an unsupported word before that. A line refused
for an unsupported word has only supported ones before it. And of a program in which the strict
reader refuses no line for an unsupported word, the permissive one makes the same answers, the same
interpreter and the same calls to the arm, whatever the arm is. -/
theorem strict_refines_permissive :
    (∀ source, ∃ text raws, Parts source text raws ∧
      (∀ line, Line.read true source = .ok line ↔
        Line.read false source = .ok line ∧ line.skipped = []) ∧
      (∀ fault, Line.read false source = .error fault →
        ∃ front raw back wrong, raws = front ++ raw :: back ∧ Malformed raw wrong ∧
          fault = .malformed (String.ofList text) (String.ofList raw) wrong ∧
          (Line.read true source = .error fault ∨
            ∃ before word after, front = before ++ word :: after ∧
              Means word (.unsupported (String.ofList word)) ∧
              Line.read true source =
                .error (.unsupported (String.ofList text) (String.ofList word)))) ∧
      (∀ line word, Line.read true source = .error (.unsupported line word) →
        ∃ front raw back, raws = front ++ raw :: back ∧ word = String.ofList raw ∧
          Means raw (.unsupported word) ∧ ∀ r ∈ front, ∃ w, Means r w ∧ w.Supported)) ∧
    ∀ (ρ : Type) [Arm ρ] (i : Interpreter ρ) (lines : List String),
      let strictly := (i.reading true).interpretLines lines
      let permissively := (i.reading false).interpretLines lines
      (∀ result ∈ strictly.1, ∀ line word,
        result ≠ .error (.refused (.unsupported line word))) →
      permissively.1 = strictly.1 ∧ permissively.2 = strictly.2.reading false ∧
        ((i.reading false).logged.interpretLines lines).2.arm.calls =
          ((i.reading true).logged.interpretLines lines).2.arm.calls := by
  constructor
  · intro source
    exact ⟨_, _, parts_strip source, fun _ => read_strict_iff,
      fun _ => strict_of_refused_permissive, fun _ _ => supported_before_unsupported⟩
  · intro ρ _ i lines strictly permissively known
    have same : permissively = (strictly.1, strictly.2.reading false) :=
      Interpreter.interpretLines_permissive (i := i.reading true) rfl known
    have answers : ((i.reading true).logged.interpretLines lines).1 = strictly.1 :=
      (congrArg Prod.fst (Interpreter.interpretLines_forgetLog (i.reading true).logged lines)).symm
    rw [← answers] at known
    have logged := Interpreter.interpretLines_permissive (i := (i.reading true).logged) rfl known
    obtain ⟨results, state⟩ := Prod.ext_iff.mp same
    exact ⟨results, state, congrArg (fun run => run.2.arm.calls) logged⟩

/-- A line with an unsupported word before a malformed one, which the two readers refuse for
different words, and a program with a malformed line, on which they agree. -/
theorem strict_refines_permissive_malformed :
    let i := Interpreter.new (SimulatedArm.atPose Pose.identity)
    let lines := ["G1 X2 F40", "M3 Y1e", "Z-4.5 G0 ; up"]
    Line.read false "X1 N10 Yb" = .error (.malformed "X1 N10 Yb" "Yb" .number) ∧
    Line.read true "X1 N10 Yb" = .error (.unsupported "X1 N10 Yb" "N10") ∧
    (∃ text raws front raw back, Parts "X1 N10 Yb" text raws ∧ raws = front ++ raw :: back ∧
      "N10" = String.ofList raw ∧ ∀ r ∈ front, ∃ w, Means r w ∧ w.Supported) ∧
    (∀ result ∈ ((i.reading true).interpretLines lines).1, ∀ line word,
      result ≠ .error (.refused (.unsupported line word))) ∧
    ((i.reading false).interpretLines lines).1 = ((i.reading true).interpretLines lines).1 ∧
    ((i.reading false).interpretLines lines).2.axes = ⟨2.0, 0.0, -4.5, 0.0⟩ := by
  intro i lines
  have malformed : Line.read false "X1 N10 Yb" = .error (.malformed "X1 N10 Yb" "Yb" .number) := by
    decide +kernel
  have unsupported : Line.read true "X1 N10 Yb" = .error (.unsupported "X1 N10 Yb" "N10") := by
    decide +kernel
  have refusals : ((i.reading true).interpretLines lines).1.map LineResult.refusal? =
      [none, some (.malformed "M3 Y1e" "Y1e" .number), none] := by decide +kernel
  have known : ∀ result ∈ ((i.reading true).interpretLines lines).1, ∀ line word,
      result ≠ .error (.refused (.unsupported line word)) := by
    rintro result present line word rfl
    have refused := List.mem_map_of_mem (f := LineResult.refusal?) present
    rw [refusals] at refused
    simp [LineResult.refusal?] at refused
  obtain ⟨lineLaw, programLaw⟩ := strict_refines_permissive
  obtain ⟨text, raws, parts, _, _, before⟩ := lineLaw "X1 N10 Yb"
  obtain ⟨front, raw, back, split, word, _, supported⟩ := before _ _ unsupported
  obtain ⟨answers, _, _⟩ := programLaw SimulatedArm i lines known
  exact ⟨malformed, unsupported, ⟨text, raws, front, raw, back, parts, split, word, supported⟩,
    known, answers, by decide +kernel⟩

end Line

end Toolpath
