import Mathlib.Data.List.Forall2
import Toolpath.Proofs.LineEffect

/-!
# One program on two arms

An interpreter calls its arm and keeps nothing of what the arm answers. This module says so of whole
programs, on two arms that need have nothing in common: where two interpreters hold the same values
at the start, they hold the same after every line, and refuse the same lines for the same faults.

`Kept` is what an interpreter holds besides its arm, and `Kept.after` what a line makes of it. No
arm occurs in the latter, so that an interpreter follows it (`interpretLine_kept`) is the reason for
all the rest. Answers are `Alike` that differ at most in how a motion went.

The law (`run_independent_of_arm`): the kept values, the refusals and everything in the answers but
the outcomes of motions are decided by the program and the values at the start. A program is taken
as its lines, which is how `runProgram` takes a text. It says nothing of what the arms are told,
which depends on the poses that they answer.
-/

namespace Toolpath

/-! ## What is kept -/

/-- What an interpreter holds besides its arm. -/
@[ext]
structure Kept where
  config : InterpreterConfig
  axes : AxisState Float
  feedRate : Float
  spindleOn : Bool
deriving DecidableEq

namespace Kept

/-- What is kept after a line that is read. It goes home where a word says so, whatever comes of its
motion. -/
def performed (k : Kept) (line : Line) : Kept where
  config := k.config
  axes := if line.homes then (k.axes.named line.words).home else k.axes.named line.words
  feedRate := (Word.last? Word.feedRate? line.words).getD k.feedRate
  spindleOn := (Word.last? Word.spindle? line.words).getD k.spindleOn

/-- What is kept after a line. A refused one changes nothing. -/
def after (k : Kept) (source : String) : Kept :=
  match Line.read k.config.strict source with
  | .error _ => k
  | .ok line => k.performed line

end Kept

/-- A line without a motion word goes nowhere, home included. -/
theorem Line.homes_of_still {line : Line} (still : Word.last? Word.mode? line.words = none) :
    line.homes = false := by
  rw [← Bool.not_eq_true, Line.homes_iff]
  rintro ⟨mode, present⟩
  cases Word.last?_eq_none_iff.mp still _ present

/-! ## What answers have in common -/

namespace LineResult

/-- What a line was refused for. -/
def refusal? : LineResult → Option LineFault
  | .error (.refused fault) => some fault
  | _ => none

/-- Two answers that differ at most in how the motion of the line went. -/
inductive Alike : LineResult → LineResult → Prop where
  | same (result : LineResult) : Alike result result
  | motion (line : Line) (mode : MotionMode) (one other : Except MotionError (MotionCommand Float)) :
    Alike (Interpreter.report line mode one) (Interpreter.report line mode other)

/-- No motion ends in a refusal of its line. -/
theorem refusal?_report (line : Line) (mode : MotionMode)
    (outcome : Except MotionError (MotionCommand Float)) :
    refusal? (Interpreter.report line mode outcome) = none := by
  cases outcome with
  | error cause => rfl
  | ok command => rfl

theorem Alike.refusal?_eq {one other : LineResult} (alike : Alike one other) :
    one.refusal? = other.refusal? := by
  cases alike with
  | same => rfl
  | motion line mode went gone => rw [refusal?_report, refusal?_report]

theorem map_refusal?_of_alike {ones others : List LineResult}
    (alike : List.Forall₂ Alike ones others) : ones.map refusal? = others.map refusal? := by
  induction alike with
  | nil => rfl
  | cons first _ ih => rw [List.map_cons, List.map_cons, first.refusal?_eq, ih]

end LineResult

namespace Interpreter

/-! ## One line -/

section Line

variable {ρ σ : Type}

/-- What the interpreter holds besides its arm. -/
def kept (i : Interpreter ρ) : Kept where
  config := i.config
  axes := i.axes
  feedRate := i.feedRate
  spindleOn := i.spindleOn

variable [Arm ρ] [Arm σ]

theorem perform_kept (i : Interpreter ρ) (line : Line) :
    (i.perform line).2.kept = i.kept.performed line := by
  cases moving : Word.last? Word.mode? line.words with
  | none =>
    rw [perform_still i moving]
    unfold kept Kept.performed
    dsimp only
    rw [applyWords_config, applyWords_axes, applyWords_feedRate, applyWords_spindleOn,
      if_neg (by rw [Line.homes_of_still moving]; nofun)]
  | some mode =>
    rcases ran : mode.dispatch i.arm (i.axes.named line.words) i.config.wait with ⟨outcome, arm⟩
    rw [perform_moving i moving ran]
    unfold kept Kept.performed
    dsimp only
    rw [applyWords_config, applyWords_feedRate, applyWords_spindleOn]

/-- **What an interpreter keeps does not hang on its arm**: each way that a motion can go leaves the
values as the line alone makes them. -/
theorem interpretLine_kept (i : Interpreter ρ) (source : String) :
    (i.interpretLine source).2.kept = i.kept.after source := by
  have config : i.kept.config = i.config := rfl
  unfold Kept.after interpretLine
  rw [config]
  cases Line.read i.config.strict source with
  | error fault => rfl
  | ok line => exact perform_kept i line

/-- Two arms get the same line answered alike. -/
theorem interpretLine_alike {i : Interpreter ρ} {j : Interpreter σ} (same : i.kept = j.kept)
    (source : String) :
    LineResult.Alike (i.interpretLine source).1 (j.interpretLine source).1 := by
  have config : i.config = j.config := congrArg Kept.config same
  cases read : Line.read i.config.strict source with
  | error fault =>
    have again : Line.read j.config.strict source = .error fault := config ▸ read
    unfold interpretLine
    rw [read, again]
    exact .same _
  | ok line =>
    have again : Line.read j.config.strict source = .ok line := config ▸ read
    rw [interpretLine_of_read i read, interpretLine_of_read j again]
    cases moving : Word.last? Word.mode? line.words with
    | none =>
      rw [perform_still i moving, perform_still j moving]
      exact .same _
    | some mode =>
      rcases ran : mode.dispatch i.arm (i.axes.named line.words) i.config.wait with ⟨one, _⟩
      rcases gone : mode.dispatch j.arm (j.axes.named line.words) j.config.wait with ⟨other, _⟩
      rw [perform_moving i moving ran, perform_moving j moving gone]
      exact .motion line mode one other

end Line

/-! ## Programs -/

section Program

variable {ρ σ : Type} [Arm ρ] [Arm σ]

theorem interpretLines_cons (i : Interpreter ρ) (source : String) (rest : List String) :
    i.interpretLines (source :: rest) =
      ((i.interpretLine source).1 :: ((i.interpretLine source).2.interpretLines rest).1,
        ((i.interpretLine source).2.interpretLines rest).2) := rfl

/-- Lines after lines go on from where the first ones end. -/
theorem interpretLines_append (i : Interpreter ρ) (front back : List String) :
    i.interpretLines (front ++ back) =
      ((i.interpretLines front).1 ++ ((i.interpretLines front).2.interpretLines back).1,
        ((i.interpretLines front).2.interpretLines back).2) := by
  induction front generalizing i with
  | nil => rfl
  | cons source rest ih =>
    rw [List.cons_append, interpretLines_cons, interpretLines_cons, ih]
    rfl

/-- What is kept after a program is made of the values at the start, line by line. -/
theorem interpretLines_kept (i : Interpreter ρ) (lines : List String) :
    (i.interpretLines lines).2.kept = lines.foldl Kept.after i.kept := by
  induction lines generalizing i with
  | nil => rfl
  | cons source rest ih =>
    rw [interpretLines_cons, List.foldl_cons, ← interpretLine_kept]
    exact ih (i.interpretLine source).2

/-- Two arms get the same program answered alike, line for line. -/
theorem interpretLines_alike {i : Interpreter ρ} {j : Interpreter σ} (same : i.kept = j.kept)
    (lines : List String) :
    List.Forall₂ LineResult.Alike (i.interpretLines lines).1 (j.interpretLines lines).1 := by
  induction lines generalizing i j with
  | nil => exact .nil
  | cons source rest ih =>
    have next : (i.interpretLine source).2.kept = (j.interpretLine source).2.kept := by
      rw [interpretLine_kept, interpretLine_kept, same]
    rw [interpretLines_cons, interpretLines_cons]
    exact .cons (interpretLine_alike same source) (ih next)

/-- A line does beside a log what it does without one, whatever the log holds already. -/
theorem interpretLine_forgetLog (i : Interpreter (Logged ρ)) (source : String) :
    i.forgetLog.interpretLine source =
      ((i.interpretLine source).1, (i.interpretLine source).2.forgetLog) := by
  have config : i.forgetLog.config = i.config := rfl
  unfold interpretLine
  rw [config]
  cases Line.read i.config.strict source with
  | error fault => rfl
  | ok line =>
    dsimp only
    cases moving : Word.last? Word.mode? line.words with
    | none =>
      rw [perform_still i.forgetLog moving, perform_still i moving, applyWords_forgetLog]
    | some mode =>
      rcases ran : mode.dispatch i.arm.arm (i.axes.named line.words) i.config.wait with
        ⟨outcome, after⟩
      obtain ⟨calls, _, ranLog⟩ := MotionMode.dispatch_logged ran i.arm.calls
      rw [perform_moving i.forgetLog moving ran, perform_moving i moving ranLog,
        applyWords_forgetLog]
      rfl

/-- And so does a program. -/
theorem interpretLines_forgetLog (i : Interpreter (Logged ρ)) (lines : List String) :
    i.forgetLog.interpretLines lines =
      ((i.interpretLines lines).1, (i.interpretLines lines).2.forgetLog) := by
  induction lines generalizing i with
  | nil => rfl
  | cons source rest ih =>
    rw [interpretLines_cons, interpretLines_cons, interpretLine_forgetLog, ih]

/-- **A program does the same to the interpreter on every arm.** Whatever the two arms answer, and
however differently: after each line the settings, the axes, the feed rate and the spindle agree;
the same lines are refused, for the same faults; and two answers to one line differ at most in how
its motion went. -/
theorem run_independent_of_arm (i : Interpreter ρ) (j : Interpreter σ) (same : i.kept = j.kept)
    (lines : List String) :
    (∀ n, (i.interpretLines (lines.take n)).2.kept = (j.interpretLines (lines.take n)).2.kept) ∧
    (i.interpretLines lines).1.map LineResult.refusal? =
      (j.interpretLines lines).1.map LineResult.refusal? ∧
    List.Forall₂ LineResult.Alike (i.interpretLines lines).1 (j.interpretLines lines).1 := by
  have alike := interpretLines_alike same lines
  refine ⟨fun n => ?_, LineResult.map_refusal?_of_alike alike, alike⟩
  rw [interpretLines_kept, interpretLines_kept, same]

/-- An arm that loses its connection, and one with a log that stands elsewhere: the first motion
fails on one of them only, and both are at the same values after it, home included. -/
theorem run_independent_of_arm_lost_connection :
    let i := new ((SimulatedArm.atPose Pose.identity).failNext (.communication "lost"))
    let j := (new (SimulatedArm.atPose (Pose.displacement ⟨5.0, 0.0, 0.0⟩))).logged
    let lines := ["M3 X12abc", "X2 R5 F20 G28", "G1 Z4"]
    i.kept = j.kept ∧
    (i.interpretLines lines).1[1]? ≠ (j.interpretLines lines).1[1]? ∧
    (i.interpretLines (lines.take 2)).2.kept = (j.interpretLines (lines.take 2)).2.kept ∧
    (j.interpretLines (lines.take 2)).2.axes = ⟨0.0, 0.0, 0.0, 5.0⟩ ∧
    (i.interpretLines lines).1.map LineResult.refusal? =
      [some (.malformed "M3 X12abc" "X12abc" .number), none, none] := by
  intro i j lines
  have same : i.kept = j.kept := rfl
  obtain ⟨kept, refused, _⟩ := run_independent_of_arm i j same lines
  refine ⟨same, by decide +kernel, kept 2, by decide +kernel, refused.trans ?_⟩
  decide +kernel

end Program

end Interpreter

end Toolpath
