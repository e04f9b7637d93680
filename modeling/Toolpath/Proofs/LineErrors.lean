import Toolpath.Proofs.ArmIndependence
import Toolpath.Proofs.LineGrammar

/-!
# Lines that fail

A line fails in one of three ways: it is refused, its arc cannot be drawn, or the arm does not do
its part. This module says how far each of them gets, over every arm, and that the interpreter is
ready for the next line after it.

`Interprets` lists the ways in which one line goes, with the calls that the arm gets; everything
about failures is read off it. A refused line is read to its end, or to the word that it is refused
for, before any word takes effect, so nothing of the words before that one is left.

The law (`interpretLine_error`): an error is of exactly one of the three kinds, names the line
without its comment, and leaves nothing behind but the arm after the calls and the values that the
line says. A refusal does not even leave these.
-/

namespace Toolpath

/-! ## What errors say -/

/-- No straight motion is refused by planning. -/
theorem MotionMode.isArc_of_plan {mode : MotionMode} {current : Pose Float} {axes : AxisState Float}
    {g : GeometryError Float} (planned : mode.plan current axes = .error g) : mode.isArc = true := by
  cases mode with
  | rapid | linear => cases planned
  | clockwiseArc | counterClockwiseArc => rfl

theorem ActuationError.isRetryable_iff {a : ActuationError} :
    a.isRetryable = true ↔ ∃ reason, a = .communication reason := by
  cases a with
  | communication reason => exact ⟨fun _ => ⟨reason, rfl⟩, fun _ => rfl⟩
  | rejected | unreachable | outOfReach | other => exact ⟨nofun, nofun⟩

/-- A refusal names the line without its comment, whichever word it is for. -/
theorem Line.line_of_read {strict : Bool} {source : String} {fault : LineFault}
    (read : Line.read strict source = .error fault) :
    fault.line = String.ofList (Line.strip source.toList) := by
  obtain ⟨_, _, _, _, _, refused⟩ :=
    (Line.readWords_eq_error_iff (Line.filled_words _)).mp (Line.read_eq_error_iff.mp read)
  cases refused with
  | malformed wrong => rfl
  | unsupported strictly means => rfl

namespace Interpreter

variable {ρ : Type}

/-! ## How a line goes -/

/-- An interpreter is its arm and what it keeps. -/
theorem eq_of_kept {i j : Interpreter ρ} (arm : i.arm = j.arm) (kept : i.kept = j.kept) : i = j := by
  obtain ⟨_, _, _, _, _⟩ := i
  obtain ⟨_, _, _, _, _⟩ := j
  cases arm
  cases kept
  rfl

theorem kept_logged (i : Interpreter ρ) : i.logged.kept = i.kept := rfl

theorem kept_forgetLog (i : Interpreter (Logged ρ)) : i.forgetLog.kept = i.kept := rfl

variable [Arm ρ]

/-- How one line goes: the answer, the calls that the arm gets in order, and the arm after it. -/
inductive Interprets (i : Interpreter ρ) (source : String) :
    LineResult → List ArmCall → ρ → Prop where
  /-- The line is refused. -/
  | refused {fault : LineFault} (read : Line.read i.config.strict source = .error fault) :
    Interprets i source (.error (.refused fault)) [] i.arm
  /-- The line has no motion word. -/
  | still {line : Line} (read : Line.read i.config.strict source = .ok line)
    (still : Word.last? Word.mode? line.words = none) :
    Interprets i source (.ok (stillReport line)) [] i.arm
  /-- The line moves in the mode of its last motion word. -/
  | moving {line : Line} {mode : MotionMode} {calls : List ArmCall}
    {outcome : Except MotionError (MotionCommand Float)} {after : ρ}
    (read : Line.read i.config.strict source = .ok line)
    (moving : Word.last? Word.mode? line.words = some mode)
    (went : mode.Dispatches i.arm (i.axes.named line.words) i.config.wait calls outcome after) :
    Interprets i source (report line mode outcome) calls after

/-- A refused line leaves the interpreter as it is. -/
theorem interpretLine_of_refused (i : Interpreter ρ) {source : String} {fault : LineFault}
    (refused : Line.read i.config.strict source = .error fault) :
    i.interpretLine source = (.error (.refused fault), i) := by
  unfold interpretLine
  rw [refused]

/-- **Every line goes one of these ways**, and goes the same way with a log beside the arm, which
then holds the calls of that way. -/
theorem interpretLine_logged (i : Interpreter ρ) (source : String) :
    ∃ calls, i.Interprets source (i.interpretLine source).1 calls (i.interpretLine source).2.arm ∧
      (i.logged.interpretLine source).1 = (i.interpretLine source).1 ∧
      (i.logged.interpretLine source).2.arm = ⟨(i.interpretLine source).2.arm, calls⟩ := by
  cases read : Line.read i.config.strict source with
  | error fault =>
    rw [interpretLine_of_refused i read, interpretLine_of_refused i.logged read]
    exact ⟨[], .refused read, rfl, rfl⟩
  | ok line =>
    rw [interpretLine_of_read i read, interpretLine_of_read i.logged read]
    cases moving : Word.last? Word.mode? line.words with
    | none =>
      rw [perform_still i moving, perform_still i.logged moving]
      refine ⟨[], ?_, rfl, ?_⟩
      · show i.Interprets source _ [] (i.applyWords line.words).arm
        rw [applyWords_arm]
        exact .still read moving
      · rw [applyWords_logged]
        rfl
    | some mode =>
      rcases ran : mode.dispatch i.arm (i.axes.named line.words) i.config.wait with
        ⟨outcome, after⟩
      obtain ⟨calls, went, ranLog⟩ := MotionMode.dispatch_logged ran []
      rw [perform_moving i moving ran, perform_moving i.logged moving ranLog]
      exact ⟨calls, .moving read moving went, rfl, rfl⟩

/-- A log beside the arm is all that interpreting with one adds. -/
theorem forgetLog_interpretLine (i : Interpreter ρ) (source : String) :
    (i.logged.interpretLine source).2.forgetLog = (i.interpretLine source).2 := by
  obtain ⟨calls, _, _, arm⟩ := interpretLine_logged i source
  refine eq_of_kept (congrArg Logged.arm arm) ?_
  rw [kept_forgetLog, interpretLine_kept, interpretLine_kept, kept_logged]

/-! ## A line that fails -/

/-- A line that fails is refused, or has a motion that fails. -/
theorem Interprets.error_cases {i : Interpreter ρ} {source : String} {e : InterpreterError}
    {calls : List ArmCall} {after : ρ} (went : i.Interprets source (.error e) calls after) :
    (∃ fault, Line.read i.config.strict source = .error fault ∧ e = .refused fault ∧ calls = []) ∨
    ∃ line mode cause, Line.read i.config.strict source = .ok line ∧ line.mode? = some mode ∧
      e = .motion line.text mode cause ∧
      mode.Dispatches i.arm (i.axes.named line.words) i.config.wait calls (.error cause) after := by
  generalize answered : (.error e : LineResult) = result at went
  cases went with
  | refused read =>
    cases answered
    exact .inl ⟨_, read, rfl, rfl⟩
  | still => cases answered
  | @moving line mode _ outcome _ read moving dispatched =>
    cases outcome with
    | ok command => cases answered
    | error cause =>
      cases answered
      exact .inr ⟨line, mode, cause, read, line.mode?_eq_last?.trans moving, rfl, dispatched⟩

/-- **An error stays with its line**, over every arm. It can be recovered from and names the line
without its comment, and it is of exactly one of three kinds. A refusal leaves the interpreter as it
was, with no call to the arm. A geometric error is one of an arc, before the arm is told anything.
An actuation error is what the arm itself answered, to the question for its pose or to the one
command it was told, and can be retried just where the arm could not be reached. The lines after it
find an interpreter with the arm as the calls left it and the values as the line set them, and any
such interpreter carries on in the same way. -/
theorem interpretLine_error (i : Interpreter ρ) {source : String} {e : InterpreterError}
    (failed : (i.interpretLine source).1 = .error e) :
    let after := (i.interpretLine source).2
    let logged := (i.logged.interpretLine source).2
    let calls := logged.arm.calls
    let text := String.ofList (Line.strip source.toList)
    (i.logged.interpretLine source).1 = .error e ∧ logged.forgetLog = after ∧
    e.isRecoverable = true ∧ e.line? = some text ∧
    ((e.isRefusal = true ∧ e.geometryError? = none ∧ e.actuationError? = none ∧
        after = i ∧ calls = []) ∨
      (∃ line mode g, Line.read i.config.strict source = .ok line ∧ line.mode? = some mode ∧
        e = .motion text mode (.geometry g) ∧
        e.isRefusal = false ∧ e.geometryError? = some g ∧ e.actuationError? = none ∧
        mode.isArc = true ∧ calls = [.currentPose]) ∨
      (∃ line mode a, Line.read i.config.strict source = .ok line ∧ line.mode? = some mode ∧
        e = .motion text mode (.actuation a) ∧
        e.isRefusal = false ∧ e.geometryError? = none ∧ e.actuationError? = some a ∧
        ((Arm.currentPose i.arm).1 = .error a ∧ calls = [.currentPose] ∨
          ∃ current asked command, Arm.currentPose i.arm = (.ok current, asked) ∧
            (Arm.perform asked command i.config.wait).1 = .error a ∧
            calls = [.currentPose, .perform command i.config.wait]) ∧
        (e.isRetryable = true ↔ ∃ reason, a = .communication reason))) ∧
    ∀ j : Interpreter ρ, j.arm = after.arm → j.kept = i.kept.after source →
      ∀ rest, i.interpretLines (source :: rest) =
        (.error e :: (j.interpretLines rest).1, (j.interpretLines rest).2) := by
  intro after logged calls text
  obtain ⟨noted, went, answer, arm⟩ := interpretLine_logged i source
  have calls_eq : calls = noted := congrArg Logged.calls arm
  have carriesOn : ∀ j : Interpreter ρ, j.arm = after.arm → j.kept = i.kept.after source →
      ∀ rest, i.interpretLines (source :: rest) =
        (.error e :: (j.interpretLines rest).1, (j.interpretLines rest).2) := by
    intro j sameArm sameKept rest
    obtain rfl : j = after :=
      eq_of_kept sameArm (sameKept.trans (interpretLine_kept i source).symm)
    rw [interpretLines_cons, failed]
  rw [failed] at went answer
  refine ⟨answer, forgetLog_interpretLine i source, ?_⟩
  rw [calls_eq]
  obtain ⟨fault, read, rfl, rfl⟩ | ⟨line, mode, cause, read, chosen, rfl, dispatched⟩ :=
    went.error_cases
  · have same : after = i := congrArg Prod.snd (interpretLine_of_refused i read)
    exact ⟨rfl, congrArg some (Line.line_of_read read), .inl ⟨rfl, rfl, rfl, same, rfl⟩, carriesOn⟩
  · have named : line.text = text := (Line.read_eq_ok_iff.mp read).1
    refine ⟨rfl, congrArg some named, .inr ?_, carriesOn⟩
    rw [named]
    cases cause with
    | geometry g =>
      cases dispatched with
      | unplanned _ planned =>
        exact .inl ⟨line, mode, g, read, chosen, rfl, rfl, rfl, rfl,
          MotionMode.isArc_of_plan planned, rfl⟩
    | actuation a =>
      refine .inr ⟨line, mode, a, read, chosen, rfl, rfl, rfl, rfl, ?_,
        ActuationError.isRetryable_iff⟩
      cases dispatched with
      | unread asked => exact .inl ⟨congrArg Prod.fst asked, rfl⟩
      | refused asked _ told => exact .inr ⟨_, _, _, asked, congrArg Prod.fst told, rfl⟩

/-- A lost connection: the command is told once, the same line can be tried again, and an
interpreter that was put together anew from the same values carries on as this one does. -/
theorem interpretLine_error_lost_connection :
    let i := new ((SimulatedArm.atPose Pose.identity).failNext (.communication "lost"))
    let source := "X5 G1 M3 ; away"
    let e : InterpreterError := .motion "X5 G1 M3" .linear (.actuation (.communication "lost"))
    let j : Interpreter SimulatedArm :=
      ⟨(i.interpretLine source).2.arm, .default, ⟨5.0, 0.0, 0.0, 0.0⟩, 100.0, true⟩
    (i.interpretLine source).1 = .error e ∧ e.isRetryable = true ∧
      (∃ command, (i.logged.interpretLine source).2.arm.calls =
        [.currentPose, .perform command .blocking]) ∧
      i.interpretLines [source, source] =
        (.error e :: (j.interpretLines [source]).1, (j.interpretLines [source]).2) := by
  intro i source e j
  have failed : (i.interpretLine source).1 = .error e := by decide +kernel
  obtain ⟨_, _, _, _, kinds, carriesOn⟩ := interpretLine_error i failed
  have carried := carriesOn j rfl (by decide +kernel) [source]
  refine ⟨failed, ?_, ?_, carried⟩
  · obtain ⟨refusal, _⟩ | ⟨_, _, _, _, _, _, _, geometric, _⟩ |
      ⟨_, _, _, _, _, _, _, _, actuation, _, retry⟩ := kinds
    · cases refusal
    · cases geometric
    · cases actuation
      exact retry.mpr ⟨"lost", rfl⟩
  · obtain ⟨refusal, _⟩ | ⟨_, _, _, _, _, _, _, geometric, _⟩ |
      ⟨_, _, _, _, _, _, _, _, _, told, _⟩ := kinds
    · cases refusal
    · cases geometric
    · obtain ⟨silent, _⟩ | ⟨_, _, command, _, _, calls⟩ := told
      · cases silent
      · exact ⟨command, calls⟩

end Interpreter

end Toolpath
