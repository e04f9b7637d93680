import Toolpath.Console.Answer

/-!
# The program

The outer layer: the command line, the environment, the machine's disk and the streams. Every
decision is made in `Console.Answer` and what it stands on.
-/

namespace Toolpath.Console

/-- What a failure of the machine's disk is called here. -/
def diskErrorOf : IO.Error → DiskError
  | .noFileOrDirectory .. | .noSuchThing .. => .notFound
  | .inappropriateType _ 21 _ => .isFolder
  | .inappropriateType .. => .notFolder
  | .alreadyExists .. => .taken
  | error => .other (toString error)

/-- A call whose failure is part of its answer. -/
def attempt {β : Type} (call : IO β) : IO (Except DiskError β) := do
  match ← call.toBaseIO with
  | .error error => return .error (diskErrorOf error)
  | .ok x => return .ok x

/-- The text in a file. -/
def readText (path : String) : IO (Except DiskError String) := do
  match ← attempt (IO.FS.readBinFile path) with
  | .error error => return .error error
  | .ok bytes =>
    match String.fromUTF8? bytes with
    | none => return .error .notText
    | some text => return .ok text

/-- A folder made, with those that it is in; nothing is made where no folder is named. -/
def makeFolder (path : String) : IO Unit :=
  if path = "" then return () else IO.FS.createDirAll path

instance : Disk IO where
  read := readText
  makeFolders path := attempt (makeFolder path)
  write path text := attempt (IO.FS.writeFile path text)

/-- The folder where programs keep their settings, if the environment tells. -/
def configFolder : IO (Option String) := do
  match ← IO.getEnv "XDG_CONFIG_HOME" with
  | some folder =>
    if folder.startsWith "/" then return some folder else homeFolder
  | none => homeFolder
where
  /-- The folder below the user's. -/
  homeFolder : IO (Option String) := do
    return ((← IO.getEnv "HOME").filter (· ≠ "")).map (· ++ "/.config")

/-- Output on its streams. -/
def tell (output : List Piece) : IO Unit := do
  for piece in output do
    match piece.stream with
    | .answers => IO.print piece.text
    | .complaints => IO.eprint piece.text
  (← IO.getStdout).flush

/-- Lines of a session as they come in, until one ends it or the input does. -/
partial def converse (input : IO.FS.Stream) (i : Interpreter SimulatedArm) : IO Unit := do
  let line ← input.getLine
  if line.isEmpty then return
  else if (Text.trim line.toList).isEmpty then converse input i
  else
    match Shell.handle i line with
    | (.quit, _) => return
    | (answer, i) =>
      tell (answer.output line)
      converse input i

/-- A shell session on the standard input. -/
def shellSession (i : Interpreter SimulatedArm) : IO Outcome := do
  tell Shell.greeting
  converse (← IO.getStdin) i
  return .done Shell.farewell

/-- The program on the machine. A session is held line by line. -/
def runProgram (words : List String) : IO Answer := do
  let usual := (← configFolder).map usualConfig
  match Invocation.grammar.read words with
  | .run ⟨config, .shell strict⟩ =>
    return .ofOutcome (← withSetup config usual fun setup =>
      match setup.start strict with
      | .error failure => return .failed failure
      | .ok i => shellSession i)
  | _ => program words usual ""

end Toolpath.Console

/-- Says what the program says and returns its exit code. -/
def main (words : List String) : IO UInt32 := do
  let answer ← Toolpath.Console.runProgram words
  Toolpath.Console.tell answer.output
  return answer.code.toUInt32
