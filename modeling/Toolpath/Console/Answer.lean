import Toolpath.Console.Task
import Toolpath.Console.Setup
import Toolpath.Console.Shell
import Toolpath.Console.Diagnosis
import Toolpath.Toml.InHouse

/-!
# What the program answers

A task is performed on a disk. It says something and then ends well or fails; what it has said
before a failure has been said. The program's answer is all that it says, with the report of the
failure last, and its exit code.
-/

namespace Toolpath.Console

/-- What comes of a task: what it says, and how it ends. -/
structure Outcome where
  output : List Piece
  result : Except Failure Unit

namespace Outcome

/-- A task that fails without a word. -/
def failed (failure : Failure) : Outcome := ⟨[], .error failure⟩

/-- A task that ends well. -/
def done (output : List Piece) : Outcome := ⟨output, .ok ()⟩

/-- Lines that were asked for. -/
def ofLines : Except Failure (List String) → Outcome
  | .error failure => failed failure
  | .ok lines => done (lines.map say)

/-- The outcome with something said before it. -/
def after (output : List Piece) (outcome : Outcome) : Outcome :=
  { outcome with output := output ++ outcome.output }

end Outcome

/-! ## Tasks -/

/-- Lines run and reported; `closing` is what is said of the interpreter at the end. -/
def runOutcome (i : Interpreter SimulatedArm) (keepGoing : Bool) (lines : List String)
    (closing : Interpreter SimulatedArm → List Piece) : Outcome :=
  let (processed, i) := i.runLines keepGoing lines
  let summary := RunSummary.ofLines processed
  ⟨processed.flatMap lineReport ++ summaryReport summary ++ closing i, runResult summary⟩

/-- A shell session on a text. -/
def shellOutcome (i : Interpreter SimulatedArm) (input : String) : Outcome :=
  let (said, _) := Shell.session i (Interpreter.programLines input)
  .done (Shell.greeting ++ said ++ Shell.farewell)

section

variable [Decoding] [Toml.Library] {m : Type → Type} [Monad m] [Disk m]

/-- Settings shown as their text. -/
def shown (setup : Setup) : Outcome :=
  match setup.toText? with
  | .error failure => .failed failure
  | .ok text => .done [⟨.answers, text⟩]

/-- What the settings in a file are, or the default settings if there is no such file. -/
def showConfig (path : String) : m Outcome := do
  if ← Disk.holds path then
    let heading := [say ("# 配置文件: " ++ path)]
    match ← Setup.load path with
    | .error failure => return (Outcome.failed failure).after heading
    | .ok setup => return (shown setup).after heading
  else
    return (shown .default).after [say ("# 配置文件不存在，使用默认配置: " ++ path)]

/-- The default settings written to a file. -/
def initConfig (path : String) (force : Bool) : m Outcome := do
  if (← Disk.holds path) && !force then return .failed (.configExists path)
  else
    match ← Setup.save .default path with
    | .error failure => return .failed failure
    | .ok () => return .done [say ("✅ 已写入默认配置: " ++ path)]

/-- A program file run. -/
def runFile (i : Except Failure (Interpreter SimulatedArm)) (path : String) (keepGoing : Bool) :
    m Outcome := do
  let heading := [say ("📜 加载程序: " ++ path)]
  match ← Disk.read path with
  | .error error => return (Outcome.failed (.programUnread path error)).after heading
  | .ok text =>
    match i with
    | .error failure => return (Outcome.failed failure).after heading
    | .ok i =>
      let lines := Interpreter.programLines text
      return (runOutcome i keepGoing lines fun i => [axesReport i]).after heading

/-- What is done with the settings to run with, which have to be usable. -/
def withSetup (config usual : Option String) (use : Setup → m Outcome) : m Outcome := do
  match ← Setup.resolve config usual with
  | .error failure => return .failed failure
  | .ok setup => use setup

/-- What is done with the path of the file of settings. -/
def withConfigPath (config usual : Option String) (use : String → m Outcome) : m Outcome :=
  match config.or usual with
  | none => return .failed .noConfigFolder
  | some path => use path

/-- A task performed. The usual file of settings serves where no other was asked for, and the input
is what a shell session reads. -/
def Invocation.perform (invocation : Invocation) (usual : Option String) (input : String) :
    m Outcome :=
  let config := invocation.config
  match invocation.task with
  | .showConfig => withConfigPath config usual showConfig
  | .initConfig force => withConfigPath config usual fun path => initConfig path force
  | .configPath => withConfigPath config usual fun path => return .done [say path]
  | .runFile path policy =>
    withSetup config usual fun setup => runFile (setup.start policy.strict) path policy.keepGoing
  | .runLines lines policy =>
    withSetup config usual fun setup =>
      match setup.start policy.strict with
      | .error failure => return .failed failure
      | .ok i =>
        return runOutcome i policy.keepGoing lines fun i => [axesReport i, feedReport i]
  | .shell strict =>
    withSetup config usual fun setup =>
      match setup.start strict with
      | .error failure => return .failed failure
      | .ok i => return shellOutcome i input
  | .matrixOf pose => return .done ((Diagnosis.matrixOf pose).map say)
  | .poseOf rows entries => return .ofLines (Diagnosis.poseOf rows entries)
  | .arcOf start target radius sense => return .ofLines (Diagnosis.arcOf start target radius sense)

end

/-! ## The program -/

/-- What a program says, and its exit code. -/
structure Answer where
  code : Nat
  output : List Piece
deriving Repr, DecidableEq

/-- The help page. -/
def usageLines : List String :=
  ["Usage: " ++ programName ++ " [OPTIONS] <COMMAND>",
    "",
    "Commands:",
    "  config show | init [--force] | path",
    "  run <FILE> [--strict] [--continue-on-error]",
    "  exec <LINES>... [--strict] [--continue-on-error]",
    "  shell [--strict]",
    "  pose to-matrix <X> <Y> <Z> <RX> <RY> <RZ>",
    "  pose to-euler <VALUES>... [--rows <ROWS>]",
    "  arc <X0> <Y0> <Z0> <X1> <Y1> <Z1> <RADIUS> [--ccw]",
    "  help",
    "",
    "Options:",
    "  -c, --config <CONFIG>",
    "  -v, --verbose",
    "  -h, --help",
    "  -V, --version"]

/-- The answer that an outcome makes. -/
def Answer.ofOutcome (outcome : Outcome) : Answer :=
  match outcome.result with
  | .ok () => ⟨0, outcome.output⟩
  | .error failure => ⟨1, outcome.output ++ [⟨.complaints, failure.report⟩]⟩

/-- The program: words of the command line, the path of the usual file of settings and the input. -/
def program [Decoding] [Toml.Library] {m : Type → Type} [Monad m] [Disk m] (words : List String)
    (usual : Option String) (input : String) : m Answer := do
  match Invocation.grammar.read words with
  | .help => return ⟨0, usageLines.map say⟩
  | .version => return ⟨0, [say (programName ++ " " ++ version)]⟩
  | .refused => return ⟨2, complain "error: unusable arguments" :: usageLines.map complain⟩
  | .run invocation => return .ofOutcome (← invocation.perform usual input)

/-- The path of the usual file of settings, in the folder where programs keep theirs. -/
def usualConfig (folder : String) : String := folder ++ "/gcode-arm/config.toml"

end Toolpath.Console
