import Toolpath.Decimal.Numeral

/-!
# Plain data

A datum is a value without a type of its own: what a configuration text or a data file holds before
it is read as anything. Formats differ in two small ways about what stands for what, and a `Form`
says which way a format goes.

How a datum is read as a value of a type is the matter of a library (`Decoding`). A type only says
which fields it has and what stands for one that is missing, so that its reader is written over
every such library (`Data.Forms`); the one that the program runs with is in `Data.Reading`.
-/

namespace Toolpath

/-- A value as data formats hold it. The fields of a record are in the order of the text. -/
inductive Datum where
  | null
  | flag (value : Bool)
  | integer (value : Int)
  | real (value : Float)
  | text (value : String)
  | list (items : List Datum)
  | record (fields : List (String × Datum))
deriving Inhabited

/-- What a format lets stand for a record and for a choice. -/
structure Form where
  /-- A list may stand for a record although it holds more items than the record has fields. -/
  extraItems : Bool
  /-- What may stand beside the name of a choice that holds nothing. -/
  isUnit : Datum → Bool

/-- The calls of a library that reads data as values of types. Each may refuse the datum. -/
class Decoding where
  /-- A truth value. -/
  flag? : Datum → Option Bool
  /-- A number. -/
  real? : Datum → Option Float
  /-- One of some choices, by its name. -/
  oneOf? {β : Type} : Form → List (String × β) → Datum → Option β
  /-- So many items. -/
  items? : Form → Nat → Datum → Option (List Datum)
  /-- The fields of a record by their names, each where it is given. -/
  fields? : Form → List String → Datum → Option (List (Option Datum))
  /-- The value of a field, or the second argument where the field is missing. -/
  fieldOr {β : Type} : Option Datum → β → (Datum → Option β) → Option β
  /-- A value or nothing. -/
  optional? {β : Type} : (Datum → Option β) → Datum → Option (Option β)

end Toolpath
