import Toolpath.Toml.Fault
import Toolpath.Data.Datum

/-!
# Tables under construction

A TOML document builds its tables from several places: headers, dotted keys and plain keys. What may
still be added to a table depends on how it came to be, so a table under construction remembers
that.

* A table with a header has had its header, and dotted keys from elsewhere may not add to it.
* A table that a header only passed through may still get a header of its own, once.
* A table made by a dotted key may be added to by dotted keys, and never gets a header.
* A value is closed, an inline table and a written list among them.
* Tables under a double header form a list, and what is added goes to its last table.
-/

namespace Toolpath.Toml

/-- How a table came to be. -/
inductive Origin where
  | header
  | passed
  | dotted
deriving Repr, DecidableEq

/-- What a key of a table under construction holds. -/
inductive Node where
  | value (d : Datum)
  | table (origin : Origin) (entries : List (String × Node))
  | tables (items : List (List (String × Node)))

/-- The entries of a table under construction, in the order in which they were made. -/
abbrev Entries := List (String × Node)

/-- The entry of a key with another node in its place. -/
def replace (key : String) (node : Node) (entries : Entries) : Entries :=
  entries.map fun (k, old) => if k = key then (k, node) else (k, old)

/-- A change made in the table at the end of a path. Tables missing on the way are made. A dotted
path enters neither a table with a header nor a list of tables. -/
def within (dotted : Bool) (change : Entries → Except Fault Entries) :
    (path : List String) → Entries → Except Fault Entries
  | [], entries => change entries
  | key :: path, entries =>
    match entries.lookup key with
    | none =>
      (within dotted change path []).map fun inner =>
        entries ++ [(key, .table (if dotted then .dotted else .passed) inner)]
    | some (.table origin inner) =>
      if dotted && origin == .header then .error (.duplicateKey key)
      else
        (within dotted change path inner).map fun inner =>
          replace key (.table origin inner) entries
    | some (.tables items) =>
      if dotted then .error (.duplicateKey key)
      else
        match items.reverse with
        | [] => .error (.closedTable key)
        | last :: earlier =>
          (within dotted change path last).map fun last =>
            replace key (.tables (earlier.reverse ++ [last])) entries
    | some (.value _) => .error (.closedTable key)

/-- A path without its last key, and that key. -/
def splitLast : List String → Option (List String × String)
  | [] => none
  | keys => keys.getLast?.map fun key => (keys.dropLast, key)

/-- A new entry in a table. -/
def addValue (key : String) (d : Datum) (entries : Entries) : Except Fault Entries :=
  match entries.lookup key with
  | none => .ok (entries ++ [(key, .value d)])
  | some _ => .error (.duplicateKey key)

/-- A table that gets its header. -/
def addHeader (key : String) (entries : Entries) : Except Fault Entries :=
  match entries.lookup key with
  | none => .ok (entries ++ [(key, .table .header [])])
  | some (.table .passed inner) => .ok (replace key (.table .header inner) entries)
  | some _ => .error (.duplicateKey key)

/-- A new last table in a list of tables. -/
def addTable (key : String) (entries : Entries) : Except Fault Entries :=
  match entries.lookup key with
  | none => .ok (entries ++ [(key, .tables [[]])])
  | some (.tables items) => .ok (replace key (.tables (items ++ [[]])) entries)
  | some _ => .error (.duplicateKey key)

/-- A value under a dotted key, in the table at the end of a path. -/
def define (path keys : List String) (d : Datum) (entries : Entries) : Except Fault Entries :=
  match splitLast keys with
  | none => .ok entries
  | some (outer, key) => within false (within true (addValue key d) outer) path entries

/-- A header with the given keys. -/
def openTable (keys : List String) (entries : Entries) : Except Fault Entries :=
  match splitLast keys with
  | none => .ok entries
  | some (outer, key) => within false (addHeader key) outer entries

/-- A double header with the given keys. -/
def openListed (keys : List String) (entries : Entries) : Except Fault Entries :=
  match splitLast keys with
  | none => .ok entries
  | some (outer, key) => within false (addTable key) outer entries

mutual

/-- The finished value of a node. -/
def Node.finish : Node → Datum
  | .value d => d
  | .table _ entries => .record (finishEntries entries)
  | .tables items => .list (finishItems items)

/-- The finished fields of a table. -/
def finishEntries : List (String × Node) → List (String × Datum)
  | [] => []
  | (key, node) :: rest => (key, node.finish) :: finishEntries rest

/-- The finished tables of a list. -/
def finishItems : List (List (String × Node)) → List Datum
  | [] => []
  | entries :: rest => .record (finishEntries entries) :: finishItems rest

end

end Toolpath.Toml
