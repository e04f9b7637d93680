import Toolpath.Console.Grammar
import Toolpath.Geometry.Pose
import Toolpath.Geometry.Arc

/-!
# What the program can be asked to do

The tasks of the program, and the command lines that ask for them. Two options can stand with every
command: one names the file of settings, and one asks for a log, which says nothing that the output
does not.
-/

namespace Toolpath.Console

/-- How the lines of a run are taken. -/
structure RunPolicy where
  /-- Unsupported words refuse their line, whatever the settings say. -/
  strict : Bool
  /-- The run goes on after a line that fails. -/
  keepGoing : Bool
deriving Repr, DecidableEq

/-- What the program is asked to do. -/
inductive Task where
  | showConfig
  /-- The default settings are written to a file, in place of what is there if that is forced. -/
  | initConfig (force : Bool)
  | configPath
  | runFile (path : String) (policy : RunPolicy)
  | runLines (lines : List String) (policy : RunPolicy)
  | shell (strict : Bool)
  | matrixOf (pose : EulerPose Float)
  | poseOf (rows : Nat) (entries : List Float)
  | arcOf (start target : Point Float) (radius : Float) (sense : RotationSense)
deriving Repr, DecidableEq

/-- A task, and the file of settings that was asked for. -/
structure Invocation where
  config : Option String
  task : Task
deriving Repr, DecidableEq

namespace Invocation

/-! ## Options and words -/

/-- Options that every command has. -/
def sharedOptions : List OptionRule :=
  [⟨"config", some 'c', .value (· ≠ "")⟩, ⟨"verbose", some 'v', .flag⟩, ⟨"help", some 'h', .help⟩]

/-- A flag without a letter. -/
def flag (name : String) : OptionRule := ⟨name, none, .flag⟩

/-- Flags of commands that run lines. -/
def runFlags : List OptionRule := [flag "strict", flag "continue-on-error"]

/-- Counts stay below this bound. -/
def wordBound : Nat := Nat.pow 2 64

/-- A count below the bound of a machine word; a plus sign may stand before it. -/
def count? (text : String) : Option Nat :=
  match text.toList with
  | '+' :: ds => Decimal.readBelow? wordBound ds
  | ds => Decimal.readBelow? wordBound ds

/-- A number. -/
def number? (text : String) : Option Float := Decimal.read? text.toList

/-- No words. -/
def noWords : WordRule := ⟨0, some 0, fun _ => true, false⟩

/-- So many numbers. -/
def numbers (count : Nat) : WordRule := ⟨count, some count, fun s => (number? s).isSome, true⟩

/-- The numbers that have been read. -/
def numbersOf (r : Reading) : Option (List Float) := r.words.mapM number?

/-- How lines are to be taken. -/
def policyOf (r : Reading) : RunPolicy := ⟨r.flag "strict", r.flag "continue-on-error"⟩

/-! ## Commands -/

/-- A command with its own options, and the task that a reading of it asks for. -/
def command (options : List OptionRule) (words : WordRule) (task : Reading → Option Task) :
    Grammar Invocation :=
  .command (sharedOptions ++ options) words fun r =>
    (task r).map fun task => ⟨r.value? "config", task⟩

/-- The commands about settings. -/
def configCommands : List (String × Grammar Invocation) :=
  [("show", command [] noWords fun _ => some .showConfig),
    ("init", command [⟨"force", some 'f', .flag⟩] noWords fun r =>
      some (.initConfig (r.flag "force"))),
    ("path", command [] noWords fun _ => some .configPath)]

/-- The commands about poses. -/
def poseCommands : List (String × Grammar Invocation) :=
  [("to-matrix", command [] (numbers 6) fun r =>
      match numbersOf r with
      | some [x, y, z, rx, ry, rz] => some (.matrixOf ⟨x, y, z, rx, ry, rz⟩)
      | _ => none),
    ("to-euler", command [⟨"rows", none, .value fun s => (count? s).isSome⟩]
      ⟨1, none, fun s => (number? s).isSome, true⟩ fun r => do
        let rows ← count? ((r.value? "rows").getD "4")
        return .poseOf rows (← numbersOf r))]

/-- All command lines of the program. -/
def grammar : Grammar Invocation :=
  .group (sharedOptions ++ [⟨"version", some 'V', .version⟩])
    [("config", .group sharedOptions configCommands),
      ("run", command runFlags ⟨1, some 1, (· ≠ ""), false⟩ fun r =>
        r.words.head?.map fun path => .runFile path (policyOf r)),
      ("exec", command runFlags ⟨1, none, fun _ => true, false⟩ fun r =>
        some (.runLines r.words (policyOf r))),
      ("shell", command [flag "strict"] noWords fun r => some (.shell (r.flag "strict"))),
      ("pose", .group sharedOptions poseCommands),
      ("arc", command [flag "ccw"] (numbers 7) fun r =>
        match numbersOf r with
        | some [x₀, y₀, z₀, x₁, y₁, z₁, radius] =>
          let sense := if r.flag "ccw" then .counterClockwise else .clockwise
          some (.arcOf ⟨x₀, y₀, z₀⟩ ⟨x₁, y₁, z₁⟩ radius sense)
        | _ => none)]

end Invocation

end Toolpath.Console
