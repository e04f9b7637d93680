import Toolpath.Data.Datum

/-!
# Reading data

The library for data that the program runs with. It is strict about what a datum is, but for three
things that its formats do: an integer may stand for a number, a list for the record whose fields
are its items, and a record of its name alone for a choice.
-/

namespace Toolpath

namespace Datum

/-- A truth value. -/
def flag? : Datum → Option Bool
  | flag b => some b
  | _ => none

/-- The integers that can stand for a number: those of a signed or unsigned 64-bit word. -/
def isWord (n : Int) : Bool := -(Nat.pow 2 63 : Int) ≤ n && n < (Nat.pow 2 64 : Int)

/-- The double nearest to an integer. -/
def ofInteger (n : Int) : Float :=
  let magnitude := Float.ofScientific n.natAbs false 0
  if n < 0 then -magnitude else magnitude

/-- A number; an integer may stand for one. -/
def real? : Datum → Option Float
  | real x => some x
  | integer n => if isWord n then some (ofInteger n) else none
  | _ => none

/-- The name of a choice that holds nothing: a text, or a record of the name alone. -/
def choice? (form : Form) : Datum → Option String
  | text name => some name
  | record [(name, d)] => if form.isUnit d then some name else none
  | _ => none

/-- One of some choices, by its name. -/
def oneOf? {β : Type} (form : Form) (choices : List (String × β)) (d : Datum) : Option β :=
  (d.choice? form).bind fun name => List.lookup name choices

/-- The first items of a list that holds so many. It may hold more where the format lets it. -/
def items? (form : Form) (count : Nat) : Datum → Option (List Datum)
  | list items =>
    if items.length < count ∨ (count < items.length ∧ ¬ form.extraItems) then none
    else some (items.take count)
  | _ => none

/-- The fields of a record by their names, each where it is given. Fields of other names do not
count. A list stands for the record whose fields are its items in order. -/
def fields? (form : Form) (names : List String) : Datum → Option (List (Option Datum))
  | record fields => some (names.map fun name => List.lookup name fields)
  | list items =>
    if names.length < items.length && !form.extraItems then none
    else some ((List.range names.length).map fun i => items[i]?)
  | _ => none

/-- What is read where a field is given, and something else where it is not. -/
def fieldOr {β : Type} (field : Option Datum) (missing : β) (read : Datum → Option β) : Option β :=
  match field with
  | none => some missing
  | some d => read d

/-- Nothing where the datum is null, and otherwise what is read. -/
def optional? {β : Type} (read : Datum → Option β) : Datum → Option (Option β)
  | null => some none
  | d => (read d).map some

end Datum

instance : Decoding where
  flag? := Datum.flag?
  real? := Datum.real?
  oneOf? := Datum.oneOf?
  items? := Datum.items?
  fields? := Datum.fields?
  fieldOr := Datum.fieldOr
  optional? := Datum.optional?

end Toolpath
