import Toolpath.Program.Run
import Toolpath.Console.Failure
import Toolpath.Console.Output

/-!
# The report of a run

A run of lines is reported line by line as it goes, commands and skipped words on one stream and
failures on the other, and summed up at its end.
-/

namespace Toolpath.Console

/-- The number of a line, set to the right of its column. -/
def lineLabel (number : Nat) : String := "  " ++ Text.alignRight 4 (Decimal.natural number) ++ " "

/-- The words that a line did without. -/
def skippedText (skipped : List String) : String := "⚠️  跳过: " ++ " ".intercalate skipped

/-- The command that a line gave. -/
def commandText (command : MotionCommand Float) : String := "➡️  " ++ command.text

/-- The report of a line. -/
def lineReport (line : ProcessedLine) : List Piece :=
  let label := lineLabel line.number
  match line.result with
  | .error error => [complain (label ++ "❌ " ++ error.message)]
  | .ok report =>
    let skipped := if report.skipped = [] then [] else [say (label ++ skippedText report.skipped)]
    let command := report.outcome.command?.map fun command => say (label ++ commandText command)
    skipped ++ command.toList

/-- The report of a summary: its counts, and the lines that failed. -/
def summaryReport (summary : RunSummary) : List Piece :=
  let failed := summary.failed.map fun (number, error) =>
    say ("  第 " ++ Decimal.natural number ++ " 行: " ++ error.message)
  [say "", say "📊 执行结果:", say ("  处理行数: " ++ Decimal.natural summary.lines),
    say ("  运动命令: " ++ Decimal.natural summary.moves),
    say ("  失败: " ++ Decimal.natural summary.failed.length)]
    ++ if failed = [] then [] else [say "", say "❌ 失败的行:"] ++ failed

/-- The axis values at the end. -/
def axesReport {ρ : Type} (i : Interpreter ρ) : Piece := say ("  终点轴状态: " ++ i.axes.text)

/-- The feed rate at the end. -/
def feedReport {ρ : Type} (i : Interpreter ρ) : Piece :=
  say ("  进给速度: " ++ Decimal.plain i.feedRate)

/-- A run with failed lines is a failure. -/
def runResult (summary : RunSummary) : Except Failure Unit :=
  if summary.succeeded then .ok () else .error (.linesFailed summary.failed.length)

end Toolpath.Console
