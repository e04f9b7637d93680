import Toolpath.Decimal.Layout

/-!
# Why a TOML text is refused

A fault says what went wrong, and where the text itself is at fault, how many characters were left
to read. Its wording finds the line and the column from that.
-/

namespace Toolpath.Toml

/-- Why a text is no TOML document, or none of the expected shape. -/
inductive Fault where
  /-- The grammar does not allow what stands here. -/
  | unexpected (left : Nat)
  /-- A word that is no value, or a number out of range. -/
  | badValue (word : String) (left : Nat)
  /-- Values stand too deep one in another, or a dotted key has too many parts. -/
  | tooDeep (left : Nat)
  | duplicateKey (key : String)
  /-- A key leads through something that is no table, or that is closed. -/
  | closedTable (key : String)
  /-- The document is well formed, and a value in it has the wrong type. -/
  | wrongType
deriving Repr, DecidableEq

/-- What a reader of a part of a text answers: the part's meaning and the rest of the text. -/
abbrev Answer (β : Type) := Except Fault (β × List Char)

/-- The text from here on is not what the grammar allows. -/
def unexpected {β : Type} (rest : List Char) : Except Fault β := .error (.unexpected rest.length)

/-- The line and the column, both from one, at which so many characters of a text are left. -/
def place (source : List Char) (left : Nat) : Nat × Nat :=
  let read := source.take (source.length - left)
  (1 + read.count '\n', 1 + (read.reverse.takeWhile (· != '\n')).length)

/-- The wording of a fault in a text. -/
def Fault.message (source : List Char) (fault : Fault) : String :=
  let placeText (left : Nat) : String :=
    let (line, column) := place source left
    " at line " ++ Decimal.natural line ++ ", column " ++ Decimal.natural column
  match fault with
  | unexpected left => "TOML parse error" ++ placeText left ++ ": unexpected text"
  | badValue word left => "TOML parse error" ++ placeText left ++ ": invalid value " ++ word
  | tooDeep left => "TOML parse error" ++ placeText left ++ ": nested too deeply"
  | duplicateKey key => "TOML parse error: duplicate key " ++ key
  | closedTable key => "TOML parse error: " ++ key ++ " cannot be extended"
  | wrongType => "TOML parse error: a value has the wrong type"

end Toolpath.Toml
