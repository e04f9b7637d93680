import Toolpath.Console.Report
import Toolpath.Arm.Simulated

/-!
# The shell

A session with one interpreter, line after line. A line that starts with a colon is a command to the
shell, which shows something or ends the session and never changes the interpreter. Every other line
is a program line. A line that fails is reported with a hint, and the session goes on.
-/

namespace Toolpath.Console.Shell

/-- Why a line of a session fails. -/
inductive LineFailure where
  | unknownCommand (name : String)
  | program (error : InterpreterError)
deriving Repr, DecidableEq

/-- The wording of a failure. -/
def LineFailure.message : LineFailure → String
  | unknownCommand name => "未知命令: :" ++ name
  | program error => error.message

/-- The answer to a line of a session. -/
inductive Answer where
  /-- Lines to show. -/
  | shown (lines : List String)
  | quit
  | failed (failure : LineFailure)
deriving Repr, DecidableEq

/-! ## What commands show -/

/-- What the interpreter keeps. -/
def stateLines (i : Interpreter SimulatedArm) : List String :=
  ["📊 解释器状态:",
    "  轴: " ++ i.axes.text,
    "  进给速度: " ++ Decimal.plain i.feedRate,
    "  主轴: " ++ (if i.spindleOn then "开" else "关"),
    "  严格模式: " ++ (if i.config.strict then "true" else "false"),
    "  已执行运动: " ++ Decimal.natural i.arm.records.size]

/-- Where the arm is. -/
def poseLines (i : Interpreter SimulatedArm) : List String :=
  let joints := i.arm.joints.map (Decimal.fixed 3)
  ["📍 当前位姿: " ++ i.arm.pose.text,
    "🧭 四元数: " ++ i.arm.pose.toQuaternion.text,
    "🦾 关节: [" ++ ", ".intercalate joints ++ "]"]

/-- The help page. -/
def helpLines : List String :=
  ["G-code:",
    "  G0/G1 X.. Y.. Z..             快速/直线运动",
    "  G2/G3 X.. Y.. R..             顺时针/逆时针圆弧",
    "  G28                           回零",
    "  M3 / M5                       主轴开/关",
    "  F..                           进给速度",
    "",
    "Shell 命令:",
    "  :state                        显示轴状态、进给、主轴",
    "  :pose                         显示机器人当前位姿",
    "  :help                         显示帮助",
    "  :quit                         退出",
    "",
    "快捷键:",
    "  Ctrl+C                        放弃当前输入",
    "  Ctrl+D                        退出",
    ""]

/-! ## One line -/

/-- The answer to a command of the shell, by its name. -/
def command (i : Interpreter SimulatedArm) (name : String) : Answer :=
  match name with
  | "quit" | "exit" | "q" => .quit
  | "state" => .shown (stateLines i)
  | "pose" => .shown (poseLines i)
  | "help" => .shown helpLines
  | other => .failed (.unknownCommand other)

/-- What is shown of a program line that was carried out. -/
def outcomeLines (i : Interpreter SimulatedArm) (report : LineReport) : List String :=
  let skipped := if report.skipped = [] then [] else [skippedText report.skipped]
  let outcome :=
    match report.outcome with
    | .moved command => [commandText command]
    | .stateUpdated => ["✅ " ++ i.axes.text]
    | .blank => []
  skipped ++ outcome

/-- The answer to a line, and the interpreter after it. Blanks around the line and around the name
of a command do not count. -/
def handle (i : Interpreter SimulatedArm) (line : String) : Answer × Interpreter SimulatedArm :=
  match Text.trim line.toList with
  | ':' :: name => (command i (String.ofList (Text.trim name)), i)
  | source =>
    match i.interpretLine (String.ofList source) with
    | (.error error, i) => (.failed (.program error), i)
    | (.ok report, i) => (.shown (outcomeLines i report), i)

/-! ## Sessions -/

/-- The hint that goes with a failure: it depends on how the line starts. -/
def hint (line : String) : String :=
  match (Text.trimStart line.toList).map Char.toUpper with
  | 'G' :: '2' :: _ | 'G' :: '3' :: _ => "💡 提示: 圆弧半径必须不小于弦长的一半，例如 'G2 X10 R5'"
  | ':' :: _ => "💡 提示: 输入 ':help' 查看所有命令"
  | _ => "💡 提示: 每个词由字母和数值组成，例如 'G1 X10 Y-2.5'"

/-- The output for an answer to a line. -/
def Answer.output (line : String) : Answer → List Piece
  | shown lines => lines.map say
  | quit => []
  | failed failure => [complain ("❌ Error: " ++ failure.message), complain (hint line)]

/-- Lines handled one after another until one of them ends the session or they are over. Blank ones
are passed over. -/
def session (i : Interpreter SimulatedArm) :
    List String → List Piece × Interpreter SimulatedArm
  | [] => ([], i)
  | line :: rest =>
    if (Text.trim line.toList).isEmpty then session i rest
    else
      match handle i line with
      | (.quit, i) => ([], i)
      | (answer, i) =>
        let (later, i) := session i rest
        (answer.output line ++ later, i)

/-- What a session starts with. -/
def greeting : List Piece :=
  [say ("gcode-arm CLI v" ++ version ++ " - 交互式 Shell"),
    say "输入 G-code 行执行，':help' 查看帮助，':quit' 退出",
    say ""]

/-- What a session ends with. -/
def farewell : List Piece := [say "👋 再见！"]

end Toolpath.Console.Shell
