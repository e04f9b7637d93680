import Toolpath.Program.Line
import Toolpath.Program.Config
import Toolpath.Data.Forms

/-!
# What can go wrong in a program

Refused lines and failed motions concern one line, and the interpreter is ready for the next.
Unusable settings and unreadable programs do not.
-/

namespace Toolpath

/-- Why settings cannot be used, or have no text. -/
inductive ConfigError where
  /-- The library for TOML refused a text, in its own words. -/
  | malformed (reason : String)
  /-- The library for TOML refused the settings. -/
  | unwritten (reason : String)
  | feedRate (value : Float)
  | runMode (mode : RunMode) (error : ActuationError)
deriving Repr, DecidableEq

/-- The wording of unusable settings. -/
def ConfigError.message : ConfigError → String
  | malformed reason => "Configuration error: invalid TOML: " ++ reason
  | unwritten reason => "Configuration error: cannot serialize: " ++ reason
  | feedRate value =>
    "Configuration error: default_feed_rate must be a positive number, got "
      ++ Decimal.plain value
  | runMode mode error =>
    "Configuration error: failed to set run mode " ++ mode.name ++ ": " ++ error.message

/-- Why a program cannot be read. -/
inductive ReadError where
  | invalidUtf8
deriving Repr, DecidableEq

/-- The wording of an unreadable program. -/
def ReadError.message : ReadError → String
  | invalidUtf8 => "stream did not contain valid UTF-8"

/-- Why an interpreter did not do what was asked. -/
inductive InterpreterError where
  /-- The line was refused, and nothing of it was done. -/
  | refused (fault : LineFault)
  /-- The line was carried out up to its motion, which failed. -/
  | motion (line : String) (mode : MotionMode) (cause : MotionError)
  | config (error : ConfigError)
  | reading (error : ReadError)
deriving Repr, DecidableEq

namespace InterpreterError

/-- The line was refused. -/
def isRefusal : InterpreterError → Bool
  | refused _ => true
  | _ => false

/-- The next line can be interpreted. -/
def isRecoverable : InterpreterError → Bool
  | refused _ | motion .. => true
  | config _ | reading _ => false

/-- The line at fault, without its comment. -/
def line? : InterpreterError → Option String
  | refused fault => some fault.line
  | motion line .. => some line
  | config _ | reading _ => none

/-- The geometric cause of a failed motion. -/
def geometryError? : InterpreterError → Option (GeometryError Float)
  | motion _ _ (.geometry error) => some error
  | _ => none

/-- The arm's part in a failed motion. -/
def actuationError? : InterpreterError → Option ActuationError
  | motion _ _ (.actuation error) => some error
  | _ => none

/-- The same line may succeed later: the arm could not be reached. -/
def isRetryable (error : InterpreterError) : Bool :=
  error.actuationError?.any ActuationError.isRetryable

/-- The wording of an error. -/
def message : InterpreterError → String
  | refused fault => fault.message
  | motion line mode cause =>
    mode.name ++ " motion failed for '" ++ line ++ "': " ++ cause.message
  | config error => error.message
  | reading error => "I/O error: " ++ error.message

end InterpreterError

end Toolpath
