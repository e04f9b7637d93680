/-!
# What a program says

The output of a program is a list of texts, each bound for one of two streams, in the order in
which they are said. What a stream holds in the end is the concatenation of its texts.
-/

namespace Toolpath.Console

/-- What the program is called. -/
def programName : String := "gcode-arm-cli"

/-- Which version of the program this is. -/
def version : String := "0.1.0"

/-- Where a text goes. -/
inductive Stream where
  /-- What the program was asked for. -/
  | answers
  /-- What went wrong. -/
  | complaints
deriving Repr, DecidableEq

/-- A text and its stream. -/
structure Piece where
  stream : Stream
  text : String
deriving Repr, DecidableEq

/-- A line of the answer. -/
def say (text : String) : Piece := ⟨.answers, text ++ "\n"⟩

/-- A line of complaint. -/
def complain (text : String) : Piece := ⟨.complaints, text ++ "\n"⟩

/-- What a stream holds after some output. -/
def streamText (stream : Stream) (output : List Piece) : String :=
  String.join ((output.filter (·.stream = stream)).map Piece.text)

end Toolpath.Console
