import Toolpath.Motion

/-!
# Arms

What this library asks of a robot arm: four calls, each of which may fail and may change the arm. An
arm is a type with these calls. Nothing is assumed of the answers, so whatever is proved of every
arm holds of one that refuses, loses its connection or answers differently each time. It holds of an
arm behind a handle too, which is an arm itself.
-/

namespace Toolpath

/-- Whether a command is over when the call returns. -/
inductive WaitPolicy where
  /-- The call returns when the motion has ended. -/
  | blocking
  /-- The call returns when the command has been handed over. -/
  | fireAndForget
deriving Repr, DecidableEq

/-- What an arm does with its commands. -/
inductive RunMode where
  | simulate
  | runRobot
  | makeRobotProgram
deriving Repr, DecidableEq

/-- Why an arm did not carry out a call. `other` holds a failure of the arm's own, in its words. -/
inductive ActuationError where
  | rejected (reason : String)
  | communication (reason : String)
  | unreachable (reason : String)
  /-- A position lies further from the base than the arm reaches. -/
  | outOfReach (position : Point Float) (distance limit : Float)
  | other (failure : String)
deriving Repr, DecidableEq

namespace ActuationError

/-- The same call may succeed later. -/
def isRetryable : ActuationError → Bool
  | communication _ => true
  | rejected _ | unreachable _ | outOfReach .. | other _ => false

/-- Another target may succeed. -/
def isTargetError : ActuationError → Bool
  | unreachable _ | outOfReach .. => true
  | rejected _ | communication _ | other _ => false

/-- The wording of a failure. -/
def message : ActuationError → String
  | rejected reason => "Robot rejected the command: " ++ reason
  | communication reason => "Robot communication failed: " ++ reason
  | unreachable reason => "Target unreachable: " ++ reason
  | outOfReach position distance limit =>
    "Target unreachable: " ++ position.text ++ " is " ++ Decimal.fixed 3 distance
      ++ " mm from the base (reach " ++ Decimal.fixed 3 limit ++ " mm)"
  | other failure => failure

end ActuationError

/-- The calls of an arm. Every call returns its answer and the arm after it. -/
class Arm (ρ : Type) where
  currentPose : ρ → Except ActuationError (Pose Float) × ρ
  currentJoints : ρ → Except ActuationError (List Float) × ρ
  perform : ρ → MotionCommand Float → WaitPolicy → Except ActuationError Unit × ρ
  setRunMode : ρ → RunMode → Except ActuationError Unit × ρ

/-- What an arm may be called through instead of directly. -/
inductive Handle where
  /-- A reference to an arm that stays with its owner. -/
  | reference
  /-- A box around an arm, whatever kind of arm is in it. -/
  | box
deriving Repr, DecidableEq

/-- An arm behind a handle. -/
structure Held (handle : Handle) (ρ : Type) where
  arm : ρ

/-- What came of a call to the arm, with the handle put around the arm again. -/
def Held.rewrap (handle : Handle) {ρ β : Type} (came : β × ρ) : β × Held handle ρ :=
  (came.1, ⟨came.2⟩)

/-- A handle passes every call on. -/
instance {handle : Handle} {ρ : Type} [Arm ρ] : Arm (Held handle ρ) where
  currentPose held := Held.rewrap handle (Arm.currentPose held.arm)
  currentJoints held := Held.rewrap handle (Arm.currentJoints held.arm)
  perform held command wait := Held.rewrap handle (Arm.perform held.arm command wait)
  setRunMode held mode := Held.rewrap handle (Arm.setRunMode held.arm mode)

/-- Why a motion failed: before any command was given, or in the arm. -/
inductive MotionError where
  | geometry (error : GeometryError Float)
  | actuation (error : ActuationError)
deriving Repr, DecidableEq

namespace MotionError

/-- The motion failed before any command was given. -/
def isGeometry : MotionError → Bool
  | geometry _ => true
  | actuation _ => false

/-- The motion failed in the arm. -/
def isActuation : MotionError → Bool
  | geometry _ => false
  | actuation _ => true

/-- The wording is that of the cause. -/
def message : MotionError → String
  | geometry error => error.message
  | actuation error => error.message

end MotionError

/-- One motion: the current pose is read, the command planned, and the arm told. The answer is the
command given. -/
def MotionMode.dispatch {ρ : Type} [Arm ρ] (mode : MotionMode) (arm : ρ) (axes : AxisState Float)
    (wait : WaitPolicy) : Except MotionError (MotionCommand Float) × ρ :=
  match Arm.currentPose arm with
  | (.error e, arm) => (.error (.actuation e), arm)
  | (.ok current, arm) =>
    match mode.plan current axes with
    | .error e => (.error (.geometry e), arm)
    | .ok command =>
      match Arm.perform arm command wait with
      | (.error e, arm) => (.error (.actuation e), arm)
      | (.ok (), arm) => (.ok command, arm)

end Toolpath
