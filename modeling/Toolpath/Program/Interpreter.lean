import Toolpath.Program.Settings
import Toolpath.Text.Lines

/-!
# The interpreter

An interpreter keeps the axis values, the feed rate and the spindle from line to line, and has an
arm of its own.

A line is read as a whole first. Then its words take effect in order, and if there is a motion among
them the arm is told once, in the mode of the last one. A word that sends the axes home sets the
coordinates to zero after that, whether the motion succeeded or not. A failed motion takes nothing
back.
-/

namespace Toolpath

/-- An interpreter and its arm. -/
structure Interpreter (ρ : Type) where
  arm : ρ
  config : InterpreterConfig
  axes : AxisState Float
  feedRate : Float
  spindleOn : Bool

/-- What a line did. -/
inductive LineOutcome where
  /-- The line held no word. -/
  | blank
  /-- Values were set, and nothing moved. -/
  | stateUpdated
  | moved (command : MotionCommand Float)
deriving Repr, DecidableEq

/-- The command that a line gave. -/
def LineOutcome.command? : LineOutcome → Option (MotionCommand Float)
  | moved command => some command
  | blank | stateUpdated => none

/-- What a line did, and the unsupported words that it did without. -/
structure LineReport where
  outcome : LineOutcome
  skipped : List String
deriving Repr, DecidableEq

/-- The answer to a line. -/
abbrev LineResult := Except InterpreterError LineReport

namespace Interpreter

variable {ρ : Type}

/-- An interpreter with settings taken as they are. -/
def start (arm : ρ) (config : InterpreterConfig) : Interpreter ρ where
  arm := arm
  config := config
  axes := AxisState.zero
  feedRate := config.defaultFeedRate
  spindleOn := false

/-- An interpreter with the default settings. -/
def new (arm : ρ) : Interpreter ρ := start arm .default

/-- An interpreter with the given settings, if they are valid and the arm takes the run mode. -/
def withConfig [Arm ρ] (arm : ρ) (config : InterpreterConfig) :
    Except InterpreterError (Interpreter ρ) :=
  match config.validate with
  | .error error => .error (.config error)
  | .ok () =>
    match config.runMode with
    | none => .ok (start arm config)
    | some mode =>
      match Arm.setRunMode arm mode with
      | (.error error, _) => .error (.config (.runMode mode error))
      | (.ok (), arm) => .ok (start arm config)

/-! ## One line -/

/-- The effect of one word on what is kept. -/
def applyWord (i : Interpreter ρ) : Word → Interpreter ρ
  | .axis axis value => { i with axes := i.axes.set axis value }
  | .feed rate => { i with feedRate := rate }
  | .spindle on => { i with spindleOn := on }
  | .motion .. | .unsupported _ => i

/-- The effect of words in order. -/
def applyWords (i : Interpreter ρ) (words : List Word) : Interpreter ρ := words.foldl applyWord i

/-- The motion of a line whose words have taken effect. -/
def move [Arm ρ] (i : Interpreter ρ) (line : Line) (mode : MotionMode) :
    LineResult × Interpreter ρ :=
  let (result, arm) := mode.dispatch i.arm i.axes i.config.wait
  let after := { i with arm := arm, axes := if line.homes then i.axes.home else i.axes }
  match result with
  | .error cause => (.error (.motion line.text mode cause), after)
  | .ok command => (.ok ⟨.moved command, line.skipped⟩, after)

/-- A line that has been read. -/
def perform [Arm ρ] (i : Interpreter ρ) (line : Line) : LineResult × Interpreter ρ :=
  if line.isBlank then (.ok ⟨.blank, []⟩, i)
  else
    let i := i.applyWords line.words
    match line.mode? with
    | none => (.ok ⟨.stateUpdated, line.skipped⟩, i)
    | some mode => i.move line mode

/-- A line. A refused one changes nothing. -/
def interpretLine [Arm ρ] (i : Interpreter ρ) (source : String) : LineResult × Interpreter ρ :=
  match Line.read i.config.strict source with
  | .error fault => (.error (.refused fault), i)
  | .ok line => i.perform line

/-! ## Programs -/

/-- Lines in order, each with its answer; a failing line does not stop those after it. -/
def interpretLines [Arm ρ] (i : Interpreter ρ) : List String → List LineResult × Interpreter ρ
  | [] => ([], i)
  | source :: rest =>
    let (result, i) := i.interpretLine source
    let (results, i) := interpretLines i rest
    (result :: results, i)

/-- The lines of a text. -/
def programLines (text : String) : List String := (Text.lines text.toList).map String.ofList

/-- A program. -/
def runProgram [Arm ρ] (i : Interpreter ρ) (text : String) : List LineResult × Interpreter ρ :=
  i.interpretLines (programLines text)

/-- Encoded lines in order, up to the first that is no text; what the lines before it did stays
done. -/
def interpretEncoded [Arm ρ] (i : Interpreter ρ) :
    List (List UInt8) → Except InterpreterError (List LineResult) × Interpreter ρ
  | [] => (.ok [], i)
  | bytes :: rest =>
    match Text.ofUtf8? bytes with
    | none => (.error (.reading .invalidUtf8), i)
    | some source =>
      let (result, i) := i.interpretLine source
      let (results, i) := interpretEncoded i rest
      (results.map (result :: ·), i)

/-- A program in bytes. -/
def runReader [Arm ρ] (i : Interpreter ρ) (bytes : List UInt8) :
    Except InterpreterError (List LineResult) × Interpreter ρ :=
  i.interpretEncoded (Text.byteLines bytes)

end Interpreter

end Toolpath
