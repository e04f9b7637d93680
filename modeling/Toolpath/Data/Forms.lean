import Toolpath.Data.Datum
import Toolpath.Program.Config

/-!
# The types as data

How the types of this library are laid out as data: a structure is a record of its fields, and a
choice is its name. Reading is done by a library for data, which is told what fields a structure has
and what names its choices, and takes from the `Form` what else a format lets stand for them.
-/

namespace Toolpath

open Decoding

variable [Decoding]

/-- A record of numbers. -/
def Datum.ofReals (names : List String) (values : List Float) : Datum :=
  .record (names.zip (values.map .real))

/-- The name of a choice, from the list of all names. -/
def Datum.ofChoice {β : Type} [DecidableEq β] (choices : List (String × β)) (value : β) : Datum :=
  match choices.find? fun choice => decide (choice.2 = value) with
  | some (name, _) => .text name
  | none => .null

/-- The numbers of a record all of whose fields are numbers and needed. -/
def Datum.reals? (form : Form) (names : List String) (d : Datum) : Option (List Float) :=
  (Decoding.fields? form names d).bind fun fields =>
    fields.mapM fun field => field.bind Decoding.real?

/-! ## Geometry -/

namespace Point

def fieldNames : List String := ["x", "y", "z"]

def toDatum (p : Point Float) : Datum := .ofReals fieldNames p.toList

def ofDatum? (form : Form) (d : Datum) : Option (Point Float) :=
  match d.reals? form fieldNames with
  | some [x, y, z] => some ⟨x, y, z⟩
  | _ => none

end Point

namespace Quaternion

def fieldNames : List String := ["w", "x", "y", "z"]

def toDatum (q : Quaternion Float) : Datum := .ofReals fieldNames q.toList

def ofDatum? (form : Form) (d : Datum) : Option (Quaternion Float) :=
  match d.reals? form fieldNames with
  | some [w, x, y, z] => some ⟨w, x, y, z⟩
  | _ => none

end Quaternion

namespace EulerPose

def fieldNames : List String := ["x", "y", "z", "rx", "ry", "rz"]

def toDatum (e : EulerPose Float) : Datum := .ofReals fieldNames e.toList

def ofDatum? (form : Form) (d : Datum) : Option (EulerPose Float) :=
  match d.reals? form fieldNames with
  | some [x, y, z, rx, ry, rz] => some ⟨x, y, z, rx, ry, rz⟩
  | _ => none

end EulerPose

namespace RotationSense

def names : List (String × RotationSense) :=
  [("Clockwise", clockwise), ("CounterClockwise", counterClockwise)]

def toDatum : RotationSense → Datum := .ofChoice names

def ofDatum? (form : Form) : Datum → Option RotationSense := oneOf? form names

end RotationSense

/-! ## Motion -/

namespace Axis

def names : List (String × Axis) := all.map fun axis => (axis.letter.toString, axis)

def toDatum : Axis → Datum := .ofChoice names

def ofDatum? (form : Form) : Datum → Option Axis := oneOf? form names

end Axis

namespace AxisState

def fieldNames : List String := ["x", "y", "z", "r"]

def toDatum (s : AxisState Float) : Datum := .ofReals fieldNames s.toList

def ofDatum? (form : Form) (d : Datum) : Option (AxisState Float) :=
  match d.reals? form fieldNames with
  | some [x, y, z, r] => some ⟨x, y, z, r⟩
  | _ => none

end AxisState

namespace MotionMode

def names : List (String × MotionMode) :=
  [rapid, linear, clockwiseArc, counterClockwiseArc].map fun mode => (mode.name, mode)

def toDatum : MotionMode → Datum := .ofChoice names

def ofDatum? (form : Form) : Datum → Option MotionMode := oneOf? form names

end MotionMode

/-! ## Settings -/

namespace WaitPolicy

/-- The name of a policy. -/
def name : WaitPolicy → String
  | blocking => "blocking"
  | fireAndForget => "fire_and_forget"

def names : List (String × WaitPolicy) :=
  [blocking, fireAndForget].map fun wait => (wait.name, wait)

def toDatum : WaitPolicy → Datum := .ofChoice names

def ofDatum? (form : Form) : Datum → Option WaitPolicy := oneOf? form names

end WaitPolicy

namespace RunMode

/-- The name of a mode. -/
def name : RunMode → String
  | simulate => "simulate"
  | runRobot => "run_robot"
  | makeRobotProgram => "make_robot_program"

def names : List (String × RunMode) :=
  [simulate, runRobot, makeRobotProgram].map fun mode => (mode.name, mode)

def toDatum : RunMode → Datum := .ofChoice names

def ofDatum? (form : Form) : Datum → Option RunMode := oneOf? form names

end RunMode

namespace InterpreterConfig

def fieldNames : List String := ["strict", "wait", "default_feed_rate", "run_mode"]

/-- A run mode that is not set is not written. -/
def toFields (c : InterpreterConfig) : List (String × Datum) :=
  [("strict", .flag c.strict), ("wait", c.wait.toDatum),
    ("default_feed_rate", .real c.defaultFeedRate)] ++
    (c.runMode.map fun mode => ("run_mode", mode.toDatum)).toList

def toDatum (c : InterpreterConfig) : Datum := .record c.toFields

/-- Every field may be missing, and is then as in the default settings. -/
def ofDatum? (form : Form) (d : Datum) : Option InterpreterConfig :=
  match fields? form fieldNames d with
  | some [strict, wait, feedRate, runMode] => do
    let strict ← fieldOr strict default.strict flag?
    let wait ← fieldOr wait default.wait (WaitPolicy.ofDatum? form)
    let feedRate ← fieldOr feedRate default.defaultFeedRate real?
    let runMode ← fieldOr runMode default.runMode (optional? (RunMode.ofDatum? form))
    return ⟨strict, wait, feedRate, runMode⟩
  | _ => none

end InterpreterConfig

end Toolpath
