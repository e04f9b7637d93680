import Toolpath.Program.Interpreter

/-!
# Running a program line by line

A run interprets lines in order and numbers them from one. It either goes on after a line that
fails or ends with it. What a run reports is a summary of the lines that it processed, and nothing
that happened is in the summary alone.
-/

namespace Toolpath

/-- A line that a run has processed: its number, counted from one, and its answer. -/
structure ProcessedLine where
  number : Nat
  result : LineResult
deriving Repr

namespace ProcessedLine

/-- The command that the line gave to the arm. -/
def command? (line : ProcessedLine) : Option (MotionCommand Float) :=
  match line.result with
  | .ok report => report.outcome.command?
  | .error _ => none

/-- The number of a line that failed, and why it did. -/
def failure? (line : ProcessedLine) : Option (Nat × InterpreterError) :=
  match line.result with
  | .ok _ => none
  | .error error => some (line.number, error)

end ProcessedLine

/-- Lines in order from a number on. Where the run does not keep going, the first line that fails is
the last one processed. -/
def Interpreter.runFrom {ρ : Type} [Arm ρ] (keepGoing : Bool) (number : Nat) (i : Interpreter ρ) :
    List String → List ProcessedLine × Interpreter ρ
  | [] => ([], i)
  | source :: rest =>
    let (result, i) := i.interpretLine source
    if keepGoing || result.isOk then
      let (later, i) := runFrom keepGoing (number + 1) i rest
      (⟨number, result⟩ :: later, i)
    else ([⟨number, result⟩], i)

/-- Lines in order, numbered from one. -/
def Interpreter.runLines {ρ : Type} [Arm ρ] (i : Interpreter ρ) (keepGoing : Bool)
    (lines : List String) : List ProcessedLine × Interpreter ρ :=
  i.runFrom keepGoing 1 lines

/-- What a run comes to. -/
structure RunSummary where
  /-- How many lines were processed. -/
  lines : Nat
  /-- How many commands were given to the arm. -/
  moves : Nat
  /-- The lines that failed. -/
  failed : List (Nat × InterpreterError)
deriving Repr, DecidableEq

namespace RunSummary

/-- The summary of the lines processed. -/
def ofLines (processed : List ProcessedLine) : RunSummary where
  lines := processed.length
  moves := (processed.filterMap ProcessedLine.command?).length
  failed := processed.filterMap ProcessedLine.failure?

/-- No line failed. -/
def succeeded (summary : RunSummary) : Bool := summary.failed.isEmpty

end RunSummary

end Toolpath
