import Toolpath.Program.Error

/-!
# Settings as text

The interpreter's configuration is kept as a TOML document. A setting that is missing is as in the
default configuration, settings of other names do not count, and what has been read is valid.

Reading and writing TOML is the matter of a library (`Toml.Library`), as disks are of the system.
The one that the program runs with is in `Toml.InHouse`.
-/

namespace Toolpath

/-- The calls of a library for TOML. Refusals are in the library's own words. -/
class Toml.Library where
  /-- What may stand for what in its data. -/
  form : Form
  /-- What a text says, read as a value of a type by the type's own reader of data. -/
  read {β : Type} : (Datum → Option β) → String → Except String β
  /-- The text of a record. -/
  write : List (String × Datum) → Except String String

namespace InterpreterConfig

/-- Valid settings stay as they are. -/
def validate (config : InterpreterConfig) : Except ConfigError Unit :=
  if config.isValid then .ok () else .error (.feedRate config.defaultFeedRate)

variable [Toml.Library]

/-- The settings of a text. -/
def ofText [Decoding] (source : String) : Except ConfigError InterpreterConfig :=
  match Toml.Library.read (ofDatum? Toml.Library.form) source with
  | .error reason => .error (.malformed reason)
  | .ok config => config.validate.map fun _ => config

/-- The text of settings. -/
def toText? (config : InterpreterConfig) : Except ConfigError String :=
  (Toml.Library.write config.toFields).mapError .unwritten

end InterpreterConfig

end Toolpath
