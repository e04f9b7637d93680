import Toolpath.Toml.Quoted
import Toolpath.Toml.Word
import Toolpath.Toml.Table

/-!
# TOML documents

A document, as TOML 1.1 has it, is a sequence of lines: a key and its value, a header, or neither.
Values nest to a limited depth, and the reader of a value recurs on the depth that is left. The
readers of lists and inline tables take the reader of what stands in them, and fuel for going on: a
text's length is always enough of it, since each item and each line takes at least one character
away.
-/

namespace Toolpath.Toml

/-- The items of a list and its closing bracket, after its opening one. A comma may stand after the
last item. -/
def listItems (item : List Char → Answer Datum) : (fuel : Nat) → List Char → Answer (List Datum)
  | 0, cs => unexpected cs
  | fuel + 1, cs =>
    match skipBlank false cs with
    | .error fault => .error fault
    | .ok (']' :: rest) => .ok ([], rest)
    | .ok cs =>
      match item cs with
      | .error fault => .error fault
      | .ok (d, rest) =>
        match skipBlank false rest with
        | .error fault => .error fault
        | .ok (']' :: rest) => .ok ([d], rest)
        | .ok (',' :: rest) =>
          (listItems item fuel rest).map fun (items, rest) => (d :: items, rest)
        | .ok rest => unexpected rest

/-- A field of an inline table. Lines may end before and after its equals sign, though not within
its key. -/
def inlineField (item : List Char → Answer Datum) (cs : List Char) :
    Answer (List String × Datum) :=
  match dottedKey deepest cs with
  | .error fault => .error fault
  | .ok (keys, rest) =>
    match skipBlank false rest with
    | .error fault => .error fault
    | .ok ('=' :: rest) =>
      match skipBlank false rest with
      | .error fault => .error fault
      | .ok rest => (item rest).map fun (d, rest) => ((keys, d), rest)
    | .ok rest => unexpected rest

/-- The fields of an inline table and its closing brace, added to those before them. A comma may
stand after the last field. -/
def inlineFields (item : List Char → Answer Datum) :
    (fuel : Nat) → Entries → List Char → Answer Entries
  | 0, _, cs => unexpected cs
  | fuel + 1, entries, cs =>
    match skipBlank false cs with
    | .error fault => .error fault
    | .ok ('}' :: rest) => .ok (entries, rest)
    | .ok cs =>
      match inlineField item cs with
      | .error fault => .error fault
      | .ok ((keys, d), rest) =>
        match define [] keys d entries with
        | .error fault => .error fault
        | .ok entries =>
          match skipBlank false rest with
          | .error fault => .error fault
          | .ok ('}' :: rest) => .ok (entries, rest)
          | .ok (',' :: rest) => inlineFields item fuel entries rest
          | .ok rest => unexpected rest

/-- A list or an inline table at the start of a text, if one starts there, given the reader of what
stands in it. -/
def bracketed? (item : List Char → Answer Datum) : List Char → Option (Answer Datum)
  | '[' :: rest =>
    some ((listItems item (rest.length + 1) rest).map fun (items, rest) => (.list items, rest))
  | '{' :: rest =>
    some ((inlineFields item (rest.length + 1) [] rest).map fun (entries, rest) =>
      (.record (finishEntries entries), rest))
  | _ => none

/-- A value that is neither a list nor an inline table. -/
def plainValue (cs : List Char) : Answer Datum :=
  match quoted? cs with
  | some answer => answer.map fun (text, rest) => (.text (String.ofList text), rest)
  | none => wordValue cs

/-- A value at the start of a text, with lists and inline tables to a given depth. -/
def value : (depth : Nat) → List Char → Answer Datum
  | 0, cs =>
    match cs with
    | '[' :: _ | '{' :: _ => .error (.tooDeep cs.length)
    | cs => plainValue cs
  | depth + 1, cs =>
    match bracketed? (value depth) cs with
    | some answer => answer
    | none => plainValue cs

/-- A dotted key, an equals sign and a value, all on one line but for line ends within the value. -/
def keyValue (cs : List Char) : Answer (List String × Datum) :=
  match dottedKey deepest cs with
  | .error fault => .error fault
  | .ok (keys, '=' :: rest) =>
    (value deepest (skipSpace rest)).map fun (d, rest) => ((keys, d), rest)
  | .ok (_, rest) => unexpected rest

/-! ## Lines -/

/-- A document being read: what has been built, and the path of the header last read. -/
structure Draft where
  entries : Entries
  path : List String

/-- A header after its brackets: the keys, the closing brackets and the end of the line. -/
def header (close : List Char) (cs : List Char) : Answer (List String) :=
  match dottedKey deepest cs with
  | .error fault => .error fault
  | .ok (keys, rest) =>
    if close.isPrefixOf rest then
      (endLine false (rest.drop close.length)).map fun rest => (keys, rest)
    else unexpected rest

/-- One line of a document: its effect on the draft, and the text after it. -/
def line (draft : Draft) (cs : List Char) : Except Fault (Draft × List Char) :=
  match skipSpace cs with
  | '[' :: '[' :: rest =>
    match header [']', ']'] rest with
    | .error fault => .error fault
    | .ok (keys, rest) =>
      (openListed keys draft.entries).map fun entries => (⟨entries, keys⟩, rest)
  | '[' :: rest =>
    match header [']'] rest with
    | .error fault => .error fault
    | .ok (keys, rest) =>
      (openTable keys draft.entries).map fun entries => (⟨entries, keys⟩, rest)
  | cs =>
    match cs with
    | [] | '\n' :: _ | '\r' :: _ | '#' :: _ => (endLine false cs).map fun rest => (draft, rest)
    | cs =>
      match keyValue cs with
      | .error fault => .error fault
      | .ok ((keys, d), rest) =>
        match define draft.path keys d draft.entries with
        | .error fault => .error fault
        | .ok entries => (endLine false rest).map fun rest => (⟨entries, draft.path⟩, rest)

/-- The lines of a document, one after another. -/
def readLines : (fuel : Nat) → Draft → List Char → Except Fault Draft
  | _, draft, [] => .ok draft
  | 0, _, cs => unexpected cs
  | fuel + 1, draft, cs =>
    match line draft cs with
    | .error fault => .error fault
    | .ok (draft, rest) => readLines fuel draft rest

/-- A text without the mark of its byte order. -/
def dropMark : List Char → List Char
  | '\ufeff' :: rest => rest
  | cs => cs

/-- The record that a document stands for. -/
def read (source : String) : Except Fault Datum :=
  let cs := dropMark source.toList
  (readLines cs.length ⟨[], []⟩ cs).map fun draft => .record (finishEntries draft.entries)

end Toolpath.Toml
