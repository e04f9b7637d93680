/-!
# Lines

A line ends at a line feed, and a carriage return right before that line feed belongs to the end and
not to the line. What follows the last line feed is a line too unless it is empty. The rule is the
same for characters and for bytes, so it is written once for both.
-/

namespace Toolpath.Text

variable {β : Type} [DecidableEq β]

/-- A line without the carriage return at its end, if it has one. -/
def dropReturn (ret : β) : List β → List β
  | [] => []
  | [b] => if b = ret then [] else [b]
  | b :: rest => b :: dropReturn ret rest

/-- The lines of a sequence, given the two marks that end a line and the part of the current line
already read, last element first. -/
def linesFrom (feed ret : β) : (read : List β) → List β → List (List β)
  | [], [] => []
  | read@(_ :: _), [] => [read.reverse]
  | read, b :: rest =>
    if b = feed then dropReturn ret read.reverse :: linesFrom feed ret [] rest
    else linesFrom feed ret (b :: read) rest

/-- The lines of a text. -/
def lines (text : List Char) : List (List Char) := linesFrom '\n' '\r' [] text

/-- The lines of a byte sequence. -/
def byteLines (bytes : List UInt8) : List (List UInt8) := linesFrom 10 13 [] bytes

/-- The text that a byte sequence encodes in UTF-8, if it does. -/
def ofUtf8? (bytes : List UInt8) : Option String := String.fromUTF8? (ByteArray.mk bytes.toArray)

end Toolpath.Text
