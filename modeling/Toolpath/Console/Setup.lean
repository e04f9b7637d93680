import Toolpath.Program.Settings
import Toolpath.Program.Interpreter
import Toolpath.Arm.Simulated
import Toolpath.Console.Failure

/-!
# The program's settings

The program keeps its settings in a TOML file: those of the interpreter in one section and those of
the simulated arm in another. A setting that is missing is as in the default settings.

Reading a file gives settings that are valid, and the text in a file of settings starts with a
comment that names the program.
-/

namespace Toolpath.Console

open Decoding

/-- The settings of the simulated arm. -/
structure ArmSetup where
  /-- How far from the base a command may lead. -/
  reachLimit : Option Float
  /-- Where the arm is at the start. -/
  initialPose : EulerPose Float
deriving Repr, DecidableEq

/-- The settings of the program. -/
structure Setup where
  interpreter : InterpreterConfig
  arm : ArmSetup
deriving Repr, DecidableEq

namespace ArmSetup

/-- No limit, and the arm at the origin. -/
def default : ArmSetup := ⟨none, EulerPose.zero⟩

def fieldNames : List String := ["reach_limit", "initial_pose"]

/-- A limit that is not set is not written. -/
def toFields (arm : ArmSetup) : List (String × Datum) :=
  (arm.reachLimit.map fun limit => ("reach_limit", Datum.real limit)).toList ++
    [("initial_pose", .list (arm.initialPose.toList.map .real))]

section

variable [Decoding]

/-- A pose as a list of its six numbers. -/
def pose? (form : Form) (d : Datum) : Option (EulerPose Float) := do
  match ← (← items? form 6 d).mapM real? with
  | [x, y, z, rx, ry, rz] => return ⟨x, y, z, rx, ry, rz⟩
  | _ => none

/-- Every field may be missing. -/
def ofDatum? (form : Form) (d : Datum) : Option ArmSetup :=
  match fields? form fieldNames d with
  | some [limit, pose] => do
    let limit ← fieldOr limit default.reachLimit (optional? real?)
    let pose ← fieldOr pose default.initialPose (pose? form)
    return ⟨limit, pose⟩
  | _ => none

end

end ArmSetup

namespace Setup

/-- The settings of a program that is given none. -/
def default : Setup := ⟨.default, .default⟩

def fieldNames : List String := ["interpreter", "simulator"]

/-- The fields of the settings, each of which is a section. -/
def toFields (setup : Setup) : List (String × Datum) :=
  [("interpreter", setup.interpreter.toDatum), ("simulator", .record setup.arm.toFields)]

/-- Every section may be missing. -/
def ofDatum? [Decoding] (form : Form) (d : Datum) : Option Setup :=
  match fields? form fieldNames d with
  | some [interpreter, arm] => do
    let interpreter ← fieldOr interpreter default.interpreter (InterpreterConfig.ofDatum? form)
    let arm ← fieldOr arm default.arm (ArmSetup.ofDatum? form)
    return ⟨interpreter, arm⟩
  | _ => none

/-! ## Validity -/

/-- A limit that an arm can have: finite and positive. -/
def isLimit (limit : Float) : Bool := limit.isFinite && 0.0 < limit

/-- What is wrong with settings, if anything is: the interpreter's part is judged first. -/
def defect? (setup : Setup) : Option SetupDefect :=
  match setup.interpreter.validate with
  | .error error => some (.interpreter error)
  | .ok () =>
    match setup.arm.reachLimit.filter fun limit => !isLimit limit with
    | some limit => some (.reachLimit limit)
    | none => if setup.arm.initialPose.toList.all Float.isFinite then none else some .initialPose

/-! ## Texts -/

variable [Toml.Library]

/-- The settings as TOML. -/
def toText? (setup : Setup) : Except Failure String :=
  (Toml.Library.write setup.toFields).mapError .configUnwritten

/-- The text of a file of settings. -/
def fileText? (setup : Setup) : Except Failure String :=
  setup.toText?.map fun text => "# gcode-arm CLI Configuration\n\n" ++ text

/-- The settings of a text; the path is that of the file which it was read from. -/
def ofText [Decoding] (path source : String) : Except Failure Setup :=
  match Toml.Library.read (ofDatum? Toml.Library.form) source with
  | .error reason => .error (.configMalformed path reason)
  | .ok setup =>
    match setup.defect? with
    | some defect => .error (.configUnusable defect)
    | none => .ok setup

/-! ## Use -/

/-- The arm that settings describe. -/
def startArm (setup : ArmSetup) : SimulatedArm :=
  let arm := SimulatedArm.atPose (Pose.ofEuler setup.initialPose)
  match setup.reachLimit with
  | none => arm
  | some limit => arm.withReachLimit limit

/-- An interpreter with the arm that settings describe. Being asked to be strict adds to what the
settings say. -/
def start (setup : Setup) (strict : Bool) : Except Failure (Interpreter SimulatedArm) :=
  let config := { setup.interpreter with strict := setup.interpreter.strict || strict }
  match Interpreter.withConfig (startArm setup.arm) config with
  | .error error => .error (.interpreterNotStarted error)
  | .ok i => .ok i

/-! ## Files -/

variable {m : Type → Type} [Monad m] [Disk m]

/-- The settings in a file. -/
def load [Decoding] (path : String) : m (Except Failure Setup) := do
  match ← Disk.read path with
  | .error error => return .error (.configUnread path error)
  | .ok source => return ofText path source

/-- The settings to run with: those in the file that was asked for, which has to be there, or else
those in the usual file if it is there. -/
def resolve [Decoding] (asked usual : Option String) : m (Except Failure Setup) := do
  match asked, usual with
  | some path, _ => load path
  | none, none => return .error .noConfigFolder
  | none, some path => if ← Disk.holds path then load path else return .ok default

/-- Settings written to a file, in a folder made for it if need be. -/
def save (setup : Setup) (path : String) : m (Except Failure Unit) := do
  match ← Disk.makeFolders (folderOf path) with
  | .error error => return .error (.folderNotMade error)
  | .ok () =>
    match setup.fileText? with
    | .error failure => return .error failure
    | .ok text =>
      match ← Disk.write path text with
      | .error error => return .error (.configNotWritten error)
      | .ok () => return .ok ()

end Setup

end Toolpath.Console
