import Toolpath.Arm.Basic

/-!
# The simulated arm

An arm in memory. It writes down every command that it carries out and is then at the command's
target. A fault can be armed for the next command, and a limit set on how far from the base a
command may lead.
-/

namespace Toolpath

/-- A command carried out, and how its caller waited. -/
structure ActuationRecord where
  command : MotionCommand Float
  wait : WaitPolicy
deriving Repr, DecidableEq

/-- The state of the simulated arm. -/
structure SimulatedArm where
  pose : Pose Float
  joints : List Float
  runMode : RunMode
  reachLimit : Option Float
  fault : Option ActuationError
  records : Array ActuationRecord
deriving Repr

namespace SimulatedArm

/-- How many joints the arm has unless told otherwise. -/
def defaultJointCount : Nat := 6

/-- An arm at a pose: no limit, no fault, nothing carried out. -/
def atPose (pose : Pose Float) : SimulatedArm where
  pose := pose
  joints := List.replicate defaultJointCount 0.0
  runMode := .simulate
  reachLimit := none
  fault := none
  records := #[]

/-- The arm with a limit on the distance from its base. -/
def withReachLimit (arm : SimulatedArm) (limit : Float) : SimulatedArm :=
  { arm with reachLimit := some limit }

/-- The arm with other joint values. -/
def withJoints (arm : SimulatedArm) (joints : List Float) : SimulatedArm :=
  { arm with joints := joints }

/-- The next command will fail with this error; an earlier one still armed is forgotten. -/
def failNext (arm : SimulatedArm) (error : ActuationError) : SimulatedArm :=
  { arm with fault := some error }

/-- The arm put at a pose, without a record. -/
def setPose (arm : SimulatedArm) (pose : Pose Float) : SimulatedArm := { arm with pose := pose }

/-- The records, and the arm without them. -/
def takeRecords (arm : SimulatedArm) : Array ActuationRecord × SimulatedArm :=
  (arm.records, { arm with records := #[] })

/-- The refusal of a pose that lies beyond a limit. -/
def beyond? (limit : Float) (pose : Pose Float) : Option ActuationError :=
  let distance := pose.position.norm
  if distance > limit then some (.outOfReach pose.position distance limit) else none

/-- The refusal of a command, if the arm has a limit: the target is judged before the via pose. -/
def refusal? (reachLimit : Option Float) (command : MotionCommand Float) : Option ActuationError :=
  reachLimit.bind fun limit =>
    (beyond? limit command.target).or (command.via?.bind (beyond? limit))

/-- A command carried out: an armed fault comes first and is spent by it, then the limit. -/
def perform (arm : SimulatedArm) (command : MotionCommand Float) (wait : WaitPolicy) :
    Except ActuationError Unit × SimulatedArm :=
  match arm.fault with
  | some error => (.error error, { arm with fault := none })
  | none =>
    match refusal? arm.reachLimit command with
    | some error => (.error error, arm)
    | none =>
      (.ok (), { arm with records := arm.records.push ⟨command, wait⟩, pose := command.target })

instance : Arm SimulatedArm where
  currentPose arm := (.ok arm.pose, arm)
  currentJoints arm := (.ok arm.joints, arm)
  perform := perform
  setRunMode arm mode := (.ok (), { arm with runMode := mode })

end SimulatedArm

end Toolpath
