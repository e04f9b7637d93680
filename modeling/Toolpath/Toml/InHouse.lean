import Toolpath.Data.Reading
import Toolpath.Program.Settings
import Toolpath.Toml.Document
import Toolpath.Toml.Writer

/-!
# TOML in this library

The library for TOML that the program runs with: documents are read by `Toml.read` and records are
written by `Toml.write`.
-/

namespace Toolpath

/-- TOML lets a list stand for a shorter record, and an empty list or table stand beside the name of
a choice. -/
def Form.toml : Form where
  extraItems := true
  isUnit d := match d with
    | .list [] | .record [] => true
    | _ => false

namespace Toml

/-- What a document says, read as something. -/
def readAs {β : Type} (decode : Datum → Option β) (source : String) : Except Fault β :=
  match read source with
  | .error fault => .error fault
  | .ok d =>
    match decode d with
    | none => .error .wrongType
    | some x => .ok x

instance : Library where
  form := .toml
  read decode source := (readAs decode source).mapError fun fault => fault.message source.toList
  write fields := .ok (write fields)

end Toml

/-- The text of an interpreter's settings; none is refused. -/
def InterpreterConfig.toText (config : InterpreterConfig) : String := Toml.write config.toFields

end Toolpath
