import Toolpath.Decimal.Layout
import Toolpath.Data.Datum

/-!
# Writing TOML

Settings are written one to a line, the plain ones of a record before its sections. Numbers are in
positions, whatever their size, and have a fraction; a list has one item to a line.

Only what settings need is written: names are bare keys, and texts are names without characters that
a quoted text would have to escape.
-/

namespace Toolpath.Toml

/-- A number; the undefined one has no sign and the infinite ones their short names. -/
def realText (x : Float) : String :=
  if x.isNaN then "nan"
  else Decimal.layout (fun m q => (Decimal.Digits.shortest m q).fractional) x

/-- A value on one line, if it fits there. -/
def plainText? : Datum → Option String
  | .flag b => some (if b then "true" else "false")
  | .integer n =>
    some (if n < 0 then "-" ++ Decimal.natural n.natAbs else Decimal.natural n.natAbs)
  | .real x => some (realText x)
  | .text s => some ("\"" ++ s ++ "\"")
  | .null | .list _ | .record _ => none

/-- A setting: its name, and its value on the same line or, for a list, item by item below. -/
def settingText? (name : String) : Datum → Option String
  | .list items =>
    (items.mapM plainText?).map fun texts =>
      name ++ " = [\n" ++ String.join (texts.map fun text => "    " ++ text ++ ",\n") ++ "]\n"
  | d => (plainText? d).map fun text => name ++ " = " ++ text ++ "\n"

/-- The settings of a record, without its sections. -/
def settingsText (fields : List (String × Datum)) : String :=
  String.join (fields.filterMap fun (name, d) => settingText? name d)

/-- The fields that are sections. -/
def sections (fields : List (String × Datum)) : List (String × List (String × Datum)) :=
  fields.filterMap fun (name, d) =>
    match d with
    | .record inner => some (name, inner)
    | _ => none

/-- A record of settings and sections: the settings, then each section under its header, with an
empty line between them. -/
def write (fields : List (String × Datum)) : String :=
  let settings := settingsText fields
  let parts := (sections fields).map fun (name, inner) =>
    "[" ++ name ++ "]\n" ++ settingsText inner
  "\n".intercalate (if settings = "" then parts else settings :: parts)

end Toolpath.Toml
