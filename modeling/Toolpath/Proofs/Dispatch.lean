import Toolpath.Program.Interpreter

/-!
# What a motion asks of an arm

An arm answers as it likes, so what a caller does to it is said by its calls. `Logged` puts a log
beside any arm: it answers as that arm does and writes each call down. `MotionMode.Dispatches` lists
the four ways in which one motion goes, each with its calls and its outcome.

The law (`dispatch_logged`): every dispatch goes one of the four ways, and with a log beside the
arm it goes the same way and adds those calls to the log. Nothing is assumed of the answers.
-/

namespace Toolpath

/-! ## Arms with a log -/

/-- A call to an arm, with what the caller passes. -/
inductive ArmCall where
  | currentPose
  | currentJoints
  | perform (command : MotionCommand Float) (wait : WaitPolicy)
  | setRunMode (mode : RunMode)
deriving Repr, DecidableEq

/-- An arm, and the calls made to it in order. -/
structure Logged (ρ : Type) where
  arm : ρ
  calls : List ArmCall

namespace Logged

variable {ρ : Type}

/-- The answer that the arm gave to a call, with the call written down. -/
def note {β : Type} (a : Logged ρ) (call : ArmCall) (answer : β × ρ) : β × Logged ρ :=
  (answer.1, ⟨answer.2, a.calls ++ [call]⟩)

instance [Arm ρ] : Arm (Logged ρ) where
  currentPose a := a.note .currentPose (Arm.currentPose a.arm)
  currentJoints a := a.note .currentJoints (Arm.currentJoints a.arm)
  perform a command wait := a.note (.perform command wait) (Arm.perform a.arm command wait)
  setRunMode a mode := a.note (.setRunMode mode) (Arm.setRunMode a.arm mode)

end Logged

namespace Interpreter

variable {ρ : Type}

/-- The interpreter with an empty log beside its arm. -/
def logged (i : Interpreter ρ) : Interpreter (Logged ρ) where
  arm := ⟨i.arm, []⟩
  config := i.config
  axes := i.axes
  feedRate := i.feedRate
  spindleOn := i.spindleOn

/-- The interpreter without the log beside its arm. -/
def forgetLog (i : Interpreter (Logged ρ)) : Interpreter ρ where
  arm := i.arm.arm
  config := i.config
  axes := i.axes
  feedRate := i.feedRate
  spindleOn := i.spindleOn

end Interpreter

/-! ## The kinds of motion -/

/-- What an arm can be told to do, without the poses. -/
inductive MotionKind where
  | rapid
  | linear
  | circular
deriving Repr, DecidableEq

/-- The kind of a command. -/
def MotionCommand.kind {α : Type} : MotionCommand α → MotionKind
  | rapid _ => .rapid
  | linear _ => .linear
  | circular .. => .circular

namespace MotionMode

/-- The kind of command that a mode gives. -/
def kind : MotionMode → MotionKind
  | rapid => .rapid
  | linear => .linear
  | clockwiseArc | counterClockwiseArc => .circular

/-- A planned arc leads through the arc's halfway point to the position that the axes name, with
the current turn kept. -/
theorem planArc_eq_ok {α : Type} [Scalar α] {sense : RotationSense} {current : Pose α}
    {axes : AxisState α} {command : MotionCommand α} :
    planArc sense current axes = .ok command ↔
      ∃ p, Arc.via current.position axes.target axes.radius sense = .ok p ∧
        command = .circular (current.withPosition p) (current.withPosition axes.target) := by
  unfold planArc
  cases found : Arc.via current.position axes.target axes.radius sense with
  | error e => simp [bind, Except.bind]
  | ok p => simp [bind, Except.bind, pure, Except.pure, eq_comm]

/-- A command is of the kind of the mode that it was planned for. -/
theorem kind_of_plan {α : Type} [Scalar α] {mode : MotionMode} {current : Pose α}
    {axes : AxisState α} {command : MotionCommand α}
    (planned : mode.plan current axes = .ok command) :
    command.kind = mode.kind := by
  cases mode with
  | rapid | linear =>
    cases planned
    rfl
  | clockwiseArc | counterClockwiseArc =>
    obtain ⟨p, _, rfl⟩ := planArc_eq_ok.mp planned
    rfl

/-! ## One motion -/

variable {ρ : Type} [Arm ρ]

/-- How one motion goes: the calls that the arm gets in order, the outcome, and the arm after it.
The arm is asked for its pose once, and told one command at most. -/
inductive Dispatches (mode : MotionMode) (arm : ρ) (axes : AxisState Float) (wait : WaitPolicy) :
    List ArmCall → Except MotionError (MotionCommand Float) → ρ → Prop where
  /-- The arm does not say where it is. -/
  | unread {e : ActuationError} {after : ρ} (read : Arm.currentPose arm = (.error e, after)) :
    Dispatches mode arm axes wait [.currentPose] (.error (.actuation e)) after
  /-- No command leads from there to the axes' position. -/
  | unplanned {current : Pose Float} {e : GeometryError Float} {after : ρ}
    (read : Arm.currentPose arm = (.ok current, after))
    (planned : mode.plan current axes = .error e) :
    Dispatches mode arm axes wait [.currentPose] (.error (.geometry e)) after
  /-- The arm does not carry out the command. -/
  | refused {current : Pose Float} {command : MotionCommand Float} {e : ActuationError}
    {asked after : ρ} (read : Arm.currentPose arm = (.ok current, asked))
    (planned : mode.plan current axes = .ok command)
    (told : Arm.perform asked command wait = (.error e, after)) :
    Dispatches mode arm axes wait [.currentPose, .perform command wait] (.error (.actuation e))
      after
  /-- The arm carries out the command. -/
  | done {current : Pose Float} {command : MotionCommand Float} {asked after : ρ}
    (read : Arm.currentPose arm = (.ok current, asked))
    (planned : mode.plan current axes = .ok command)
    (told : Arm.perform asked command wait = (.ok (), after)) :
    Dispatches mode arm axes wait [.currentPose, .perform command wait] (.ok command) after

/-- A command that the arm is told is of the mode's kind, and waited for as configured. -/
theorem Dispatches.told_kind {mode : MotionMode} {arm after : ρ} {axes : AxisState Float}
    {wait waited : WaitPolicy} {calls : List ArmCall} {command : MotionCommand Float}
    {outcome : Except MotionError (MotionCommand Float)}
    (went : mode.Dispatches arm axes wait calls outcome after)
    (told : .perform command waited ∈ calls) : command.kind = mode.kind ∧ waited = wait := by
  cases went with
  | unread | unplanned => simp at told
  | refused _ planned _ | done _ planned _ =>
    simp only [List.mem_cons, reduceCtorEq, ArmCall.perform.injEq, List.not_mem_nil, or_false,
      false_or] at told
    obtain ⟨rfl, rfl⟩ := told
    exact ⟨kind_of_plan planned, rfl⟩

/-- **Every dispatch goes one of the four ways**, and goes the same way with a log beside the arm,
which then ends with the calls of that way. -/
theorem dispatch_logged {mode : MotionMode} {arm after : ρ} {axes : AxisState Float}
    {wait : WaitPolicy} {outcome : Except MotionError (MotionCommand Float)}
    (ran : mode.dispatch arm axes wait = (outcome, after)) (earlier : List ArmCall) :
    ∃ calls, mode.Dispatches arm axes wait calls outcome after ∧
      mode.dispatch (⟨arm, earlier⟩ : Logged ρ) axes wait =
        (outcome, ⟨after, earlier ++ calls⟩) := by
  unfold dispatch at ran ⊢
  simp only [Arm.currentPose, Arm.perform, Logged.note]
  rcases read : Arm.currentPose arm with ⟨_ | current, asked⟩
  · rw [read] at ran
    cases ran
    exact ⟨_, .unread read, rfl⟩
  · rw [read] at ran
    cases planned : mode.plan current axes with
    | error e =>
      simp only [planned] at ran ⊢
      cases ran
      exact ⟨_, .unplanned read planned, rfl⟩
    | ok command =>
      simp only [planned] at ran ⊢
      rcases told : Arm.perform asked command wait with ⟨_ | _, moved⟩
      · rw [told] at ran
        cases ran
        exact ⟨_, .refused read planned told, by simp only [List.append_assoc, List.cons_append,
          List.nil_append]⟩
      · rw [told] at ran
        cases ran
        exact ⟨_, .done read planned told, by simp only [List.append_assoc, List.cons_append,
          List.nil_append]⟩

/-- How a dispatch goes, of a bare arm. -/
theorem dispatches_of_dispatch {mode : MotionMode} {arm after : ρ} {axes : AxisState Float}
    {wait : WaitPolicy} {outcome : Except MotionError (MotionCommand Float)}
    (ran : mode.dispatch arm axes wait = (outcome, after)) :
    ∃ calls, mode.Dispatches arm axes wait calls outcome after := by
  obtain ⟨calls, went, _⟩ := dispatch_logged ran []
  exact ⟨calls, went⟩

end MotionMode

end Toolpath
