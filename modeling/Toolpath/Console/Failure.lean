import Toolpath.Program.Error
import Toolpath.Console.Disk

/-!
# Why the program fails

A failure is reported with its causes, outermost first. Its own wording says what the program was
about to do, and the causes are in the words of what stood in the way.
-/

namespace Toolpath.Console

/-- Why the settings of the program cannot be used although they could be read. -/
inductive SetupDefect where
  | interpreter (error : ConfigError)
  | reachLimit (limit : Float)
  | initialPose
deriving Repr, DecidableEq

/-- The wording of unusable settings. -/
def SetupDefect.message : SetupDefect → String
  | interpreter error => error.message
  | reachLimit limit => "simulator.reach_limit 必须为正数，得到 " ++ Decimal.plain limit
  | initialPose => "simulator.initial_pose 含有非有限值"

/-- Why the program did not do what it was asked. -/
inductive Failure where
  /-- The environment names no folder for settings. -/
  | noConfigFolder
  | configUnread (path : String) (error : DiskError)
  | configMalformed (path reason : String)
  | configUnusable (defect : SetupDefect)
  | configExists (path : String)
  | folderNotMade (error : DiskError)
  /-- The settings have no text. -/
  | configUnwritten (reason : String)
  | configNotWritten (error : DiskError)
  | interpreterNotStarted (error : InterpreterError)
  | programUnread (path : String) (error : DiskError)
  | linesFailed (count : Nat)
  /-- Matrix entries that do not fill rows of one length. -/
  | raggedMatrix (entries rows : Nat)
  | matrixRefused (error : GeometryError Float)
  | matrixNotInverted (error : GeometryError Float)
  | arcWithoutVia (error : GeometryError Float)
  | arcWithoutCenter (error : GeometryError Float)
deriving Repr, DecidableEq

namespace Failure

/-- The wording of a failure and of its causes, outermost first. -/
def chain : Failure → String × List String
  | noConfigFolder => ("无法确定配置目录", [])
  | configUnread path error => ("读取配置文件失败: " ++ path, [error.message])
  | configMalformed path reason => ("解析配置文件失败: " ++ path, [reason])
  | configUnusable defect => (defect.message, [])
  | configExists path => ("配置文件已存在: " ++ path ++ "（使用 --force 覆盖）", [])
  | folderNotMade error => ("创建配置目录失败", [error.message])
  | configUnwritten reason => ("序列化配置失败", [reason])
  | configNotWritten error => ("写入配置文件失败", [error.message])
  | interpreterNotStarted error => ("创建解释器失败", [error.message])
  | programUnread path error => ("读取程序文件失败: " ++ path, [error.message])
  | linesFailed count => (Decimal.natural count ++ " 行执行失败", [])
  | raggedMatrix entries rows =>
    (Decimal.natural entries ++ " 个元素无法排成 " ++ Decimal.natural rows ++ " 行", [])
  | matrixRefused error => ("无法解析位姿矩阵", [error.message])
  | matrixNotInverted error => ("无法求逆", [error.message])
  | arcWithoutVia error => ("无法计算圆弧中间点", [error.message])
  | arcWithoutCenter error => ("无法计算圆心", [error.message])

/-- The report of a failure: its wording, and its causes below. -/
def report (failure : Failure) : String :=
  let (outermost, causes) := failure.chain
  let below := causes.map fun cause => "    " ++ cause ++ "\n"
  "Error: " ++ outermost ++ "\n"
    ++ if causes.isEmpty then "" else "\nCaused by:\n" ++ String.join below

end Failure

end Toolpath.Console
