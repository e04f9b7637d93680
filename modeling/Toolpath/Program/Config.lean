import Toolpath.Arm.Basic

/-!
# The interpreter's configuration

How strictly lines are read, how commands wait, the feed rate before the first feed word, and the
run mode to put the arm in, if any.
-/

namespace Toolpath

/-- The settings of an interpreter. -/
structure InterpreterConfig where
  /-- Unsupported words refuse their line. -/
  strict : Bool
  wait : WaitPolicy
  defaultFeedRate : Float
  /-- The run mode to set at the start. -/
  runMode : Option RunMode
deriving Repr, DecidableEq

namespace InterpreterConfig

/-- The settings of an interpreter that is given none. -/
def default : InterpreterConfig where
  strict := false
  wait := .blocking
  defaultFeedRate := 100.0
  runMode := none

/-- A feed rate that lines could have set: finite and positive. -/
def isValid (config : InterpreterConfig) : Bool :=
  config.defaultFeedRate.isFinite && !(config.defaultFeedRate <= 0.0)

/-- The same settings; feed rates are compared as numbers. -/
def same (a b : InterpreterConfig) : Bool :=
  a.strict == b.strict && a.wait == b.wait && a.defaultFeedRate == b.defaultFeedRate
    && a.runMode == b.runMode

end InterpreterConfig

end Toolpath
