import Toolpath.Toml.Fault

/-!
# Blank space, quoted text and keys

The smallest parts of a TOML document. Quoted text comes in two kinds, with escapes between double
quotes and without them between single quotes, and each kind on one line or, between three quotes,
on several.
-/

namespace Toolpath.Toml

/-- The blanks within a line. -/
def isSpace (c : Char) : Bool := c == ' ' || c == '\t'

/-- A text without the blanks at its start. -/
def skipSpace (cs : List Char) : List Char := cs.dropWhile isSpace

/-- Any character but the control characters other than the tab. -/
def isPrintable (c : Char) : Bool := c == '\t' || (0x20 ≤ c.toNat && c.toNat != 0x7F)

/-- The rest of a text after blanks, line ends and comments; a comment may hold no control
character. -/
def skipBlank (inComment : Bool) : List Char → Except Fault (List Char)
  | [] => .ok []
  | '\n' :: rest => skipBlank false rest
  | '\r' :: '\n' :: rest => skipBlank false rest
  | c :: rest =>
    if inComment then
      if isPrintable c then skipBlank true rest else unexpected (c :: rest)
    else if isSpace c then skipBlank false rest
    else if c = '#' then skipBlank true rest
    else .ok (c :: rest)

/-- The text after the end of a line, which may have blanks and a comment before it. -/
def endLine (inComment : Bool) : List Char → Except Fault (List Char)
  | [] => .ok []
  | '\n' :: rest => .ok rest
  | '\r' :: '\n' :: rest => .ok rest
  | c :: rest =>
    if inComment then
      if isPrintable c then endLine true rest else unexpected (c :: rest)
    else if isSpace c then endLine false rest
    else if c = '#' then endLine true rest
    else unexpected (c :: rest)

/-! ## Escapes -/

/-- The value of a hexadecimal digit. -/
def hexDigit? (c : Char) : Option Nat :=
  if '0' ≤ c ∧ c ≤ '9' then some (c.toNat - '0'.toNat)
  else if 'a' ≤ c ∧ c ≤ 'f' then some (c.toNat - 'a'.toNat + 10)
  else if 'A' ≤ c ∧ c ≤ 'F' then some (c.toNat - 'A'.toNat + 10)
  else none

/-- The character of a code in hexadecimal digits. -/
def codePoint? (digits : List Char) : Option Char := do
  let ds ← digits.mapM hexDigit?
  let n := ds.foldl (fun n d => 16 * n + d) 0
  if n < 0xD800 || (0xE000 ≤ n && n < 0x110000) then some (Char.ofNat n) else none

/-- The character that a letter after a backslash stands for. -/
def escape? : Char → Option Char
  | 'b' => some '\x08'
  | 't' => some '\t'
  | 'n' => some '\n'
  | 'f' => some '\x0c'
  | 'r' => some '\r'
  | 'e' => some '\x1b'
  | '"' => some '"'
  | '\\' => some '\\'
  | _ => none

/-- A character put before the text that an answer holds. -/
def prepend (c : Char) (answer : Answer (List Char)) : Answer (List Char) :=
  answer.map fun (text, rest) => (c :: text, rest)

/-- The same for a character that may be missing, where nothing is right without it. -/
def prepend? (c : Option Char) (here : List Char) (answer : Answer (List Char)) :
    Answer (List Char) :=
  match c with
  | some c => prepend c answer
  | none => unexpected here

/-! ## Text between quotes -/

/-- Text with escapes, after its opening quote. -/
def basic : List Char → Answer (List Char)
  | [] => unexpected []
  | '"' :: rest => .ok ([], rest)
  | '\\' :: 'x' :: a :: b :: rest => prepend? (codePoint? [a, b]) rest (basic rest)
  | '\\' :: 'u' :: a :: b :: c :: d :: rest =>
    prepend? (codePoint? [a, b, c, d]) rest (basic rest)
  | '\\' :: 'U' :: a :: b :: c :: d :: e :: f :: g :: h :: rest =>
    prepend? (codePoint? [a, b, c, d, e, f, g, h]) rest (basic rest)
  | '\\' :: c :: rest => prepend? (escape? c) rest (basic rest)
  | c :: rest =>
    if isPrintable c && c != '\\' then prepend c (basic rest) else unexpected (c :: rest)

/-- Text without escapes, after its opening quote. -/
def literal : List Char → Answer (List Char)
  | [] => unexpected []
  | '\'' :: rest => .ok ([], rest)
  | c :: rest => if isPrintable c then prepend c (literal rest) else unexpected (c :: rest)

/-- Where a reader of several lines is with respect to a backslash at the end of a line: elsewhere,
before that line's end, or in the blanks after it. -/
inductive Gap where
  | none
  | before
  | after
deriving DecidableEq

/-- Text with escapes on several lines, after its opening quotes. Up to two quotes may stand before
the closing ones. A backslash at the end of a line removes it with all blanks and line ends up to
the next character. -/
def multiBasic (gap : Gap) : List Char → Answer (List Char)
  | [] => unexpected []
  | '\r' :: '\n' :: rest =>
    if gap = .none then prepend '\n' (multiBasic .none rest) else multiBasic .after rest
  | '\n' :: rest =>
    if gap = .none then prepend '\n' (multiBasic .none rest) else multiBasic .after rest
  | ' ' :: rest =>
    if gap = .none then prepend ' ' (multiBasic .none rest) else multiBasic gap rest
  | '\t' :: rest =>
    if gap = .none then prepend '\t' (multiBasic .none rest) else multiBasic gap rest
  | c :: rest =>
    if gap = .before then unexpected (c :: rest)
    else
      match c, rest with
      | '"', '"' :: '"' :: '"' :: '"' :: tail => .ok (['"', '"'], tail)
      | '"', '"' :: '"' :: '"' :: tail => .ok (['"'], tail)
      | '"', '"' :: '"' :: tail => .ok ([], tail)
      | '\\', 'x' :: p :: q :: tail =>
        prepend? (codePoint? [p, q]) tail (multiBasic .none tail)
      | '\\', 'u' :: p :: q :: r :: s :: tail =>
        prepend? (codePoint? [p, q, r, s]) tail (multiBasic .none tail)
      | '\\', 'U' :: p :: q :: r :: s :: t :: u :: v :: w :: tail =>
        prepend? (codePoint? [p, q, r, s, t, u, v, w]) tail (multiBasic .none tail)
      | '\\', '\r' :: '\n' :: tail => multiBasic .after tail
      | '\\', '\n' :: tail => multiBasic .after tail
      | '\\', d :: tail =>
        if isSpace d then multiBasic .before tail
        else prepend? (escape? d) tail (multiBasic .none tail)
      | c, tail =>
        if isPrintable c && c != '\\' then prepend c (multiBasic .none tail)
        else unexpected (c :: tail)

/-- Text without escapes on several lines, after its opening quotes. -/
def multiLiteral : List Char → Answer (List Char)
  | [] => unexpected []
  | '\'' :: '\'' :: '\'' :: '\'' :: '\'' :: rest => .ok (['\'', '\''], rest)
  | '\'' :: '\'' :: '\'' :: '\'' :: rest => .ok (['\''], rest)
  | '\'' :: '\'' :: '\'' :: rest => .ok ([], rest)
  | '\r' :: '\n' :: rest => prepend '\n' (multiLiteral rest)
  | '\n' :: rest => prepend '\n' (multiLiteral rest)
  | c :: rest => if isPrintable c then prepend c (multiLiteral rest) else unexpected (c :: rest)

/-- The line end right after opening quotes does not belong to the text. -/
def dropFirstLineEnd : List Char → List Char
  | '\r' :: '\n' :: rest => rest
  | '\n' :: rest => rest
  | rest => rest

/-- Text between quotes of any kind; nothing where no quote stands. -/
def quoted? : List Char → Option (Answer (List Char))
  | '"' :: '"' :: '"' :: rest => some (multiBasic .none (dropFirstLineEnd rest))
  | '\'' :: '\'' :: '\'' :: rest => some (multiLiteral (dropFirstLineEnd rest))
  | '"' :: rest => some (basic rest)
  | '\'' :: rest => some (literal rest)
  | _ => none

/-! ## Keys -/

/-- The characters of a key without quotes. -/
def isBareKey (c : Char) : Bool := c.isAlphanum || c == '_' || c == '-'

/-- One key: between quotes on one line, or bare. -/
def simpleKey : List Char → Answer String
  | '"' :: rest => (basic rest).map fun (key, rest) => (String.ofList key, rest)
  | '\'' :: rest => (literal rest).map fun (key, rest) => (String.ofList key, rest)
  | cs =>
    let key := cs.takeWhile isBareKey
    if key = [] then unexpected cs else .ok (String.ofList key, cs.dropWhile isBareKey)

/-- How many values may stand one in another, and how many keys in a dotted key. -/
def deepest : Nat := 80

/-- At most so many keys with points between them, with blanks around each. -/
def dottedKey : (most : Nat) → List Char → Answer (List String)
  | 0, cs => .error (.tooDeep cs.length)
  | most + 1, cs =>
    match simpleKey (skipSpace cs) with
    | .error fault => .error fault
    | .ok (key, rest) =>
      match skipSpace rest with
      | '.' :: rest => (dottedKey most rest).map fun (keys, rest) => (key :: keys, rest)
      | rest => .ok ([key], rest)

end Toolpath.Toml
