import Toolpath.Motion
import Toolpath.Decimal.Numeral
import Toolpath.Text.Blank

/-!
# Lines of a program

A line is words between blanks, and a comment after the first semicolon. A word is a letter, in
either case, and a number. A line is read as a whole before anything is done: one malformed word and
none of its words counts.

Words that this language does not know are kept as unsupported. A permissive reader lets them pass,
a strict one refuses the line.
-/

namespace Toolpath

/-- One word of a line. -/
inductive Word where
  /-- A motion, with the number it was written by. -/
  | motion (code : Nat) (mode : MotionMode)
  | spindle (on : Bool)
  | axis (axis : Axis) (value : Float)
  | feed (value : Float)
  | unsupported (text : String)
deriving Repr, DecidableEq

/-- What is wrong with a word. -/
inductive WordFault where
  | motionNumber
  | switchNumber
  | number
  | feedNotPositive
deriving Repr, DecidableEq

/-- Why a line is refused. The line is given without its comment. -/
inductive LineFault where
  | malformed (line word : String) (fault : WordFault)
  | unsupported (line word : String)
deriving Repr, DecidableEq

/-- The wording of a fault, to stand after the word. -/
def WordFault.message : WordFault → String
  | motionNumber => "has no valid G-code number"
  | switchNumber => "has no valid M-code number"
  | number => "is not a valid number"
  | feedNotPositive => "must be a positive feed rate"

/-- The line that was refused. -/
def LineFault.line : LineFault → String
  | malformed line .. | unsupported line _ => line

/-- The wording of a refusal. -/
def LineFault.message : LineFault → String
  | malformed line word fault =>
    "Parse error in '" ++ line ++ "': word '" ++ word ++ "' " ++ fault.message
  | unsupported line word => "Unsupported word '" ++ word ++ "' in '" ++ line ++ "'"

namespace Word

/-- The character that starts a comment. -/
def commentMark : Char := ';'

/-- Motion and switch numbers stay below this bound. -/
def codeBound : Nat := Nat.pow 2 32

/-- A finite number. -/
def real? (cs : List Char) : Option Float := (Decimal.read? cs).filter Float.isFinite

/-- The number of a motion or a switch: digits alone. -/
def code? (cs : List Char) : Option Nat := Decimal.readBelow? codeBound cs

/-- A word, judged by its first character. -/
def read (raw : List Char) : Except WordFault Word :=
  let unsupported : Word := .unsupported (String.ofList raw)
  match raw with
  | [] => .ok unsupported
  | letter :: value =>
    match letter.toUpper with
    | 'G' =>
      match code? value with
      | none => .error .motionNumber
      | some code =>
        match MotionMode.ofCode? code with
        | none => .ok unsupported
        | some mode => .ok (.motion code mode)
    | 'M' =>
      match code? value with
      | none => .error .switchNumber
      | some 3 => .ok (.spindle true)
      | some 5 => .ok (.spindle false)
      | some _ => .ok unsupported
    | 'F' =>
      match real? value with
      | none => .error .number
      | some rate => if rate <= 0.0 then .error .feedNotPositive else .ok (.feed rate)
    | _ =>
      match Axis.ofLetter? letter with
      | none => .ok unsupported
      | some which =>
        match real? value with
        | none => .error .number
        | some x => .ok (.axis which x)

/-- The word sends the axes home. -/
def isHome : Word → Bool
  | motion code _ => code == MotionMode.homeCode
  | _ => false

/-- The mode that the word chooses. -/
def mode? : Word → Option MotionMode
  | motion _ mode => some mode
  | _ => none

/-- The text of a word that is not supported. -/
def unsupportedText? : Word → Option String
  | unsupported text => some text
  | _ => none

end Word

/-- A line read: its text without comment and outer blanks, and its words in order. -/
structure Line where
  text : String
  words : List Word
deriving Repr, DecidableEq

namespace Line

/-- The line holds no word. -/
def isBlank (line : Line) : Bool := line.words.isEmpty

/-- The mode of a line is that of its last motion word. -/
def mode? (line : Line) : Option MotionMode := line.words.reverse.findSome? Word.mode?

/-- Any word of the line sends the axes home. -/
def homes (line : Line) : Bool := line.words.any Word.isHome

/-- The texts of the unsupported words. -/
def skipped (line : Line) : List String := line.words.filterMap Word.unsupportedText?

/-- The text of a line before its comment, without outer blanks. -/
def strip (cs : List Char) : List Char := Text.trim (Text.before Word.commentMark cs)

/-- The words of a line in order, up to the first that the line is refused for. -/
def readWords (strict : Bool) (text : String) : List (List Char) → Except LineFault (List Word)
  | [] => .ok []
  | raw :: rest =>
    match Word.read raw with
    | .error fault => .error (.malformed text (String.ofList raw) fault)
    | .ok word =>
      if strict && word.unsupportedText?.isSome then
        .error (.unsupported text (String.ofList raw))
      else (readWords strict text rest).map (word :: ·)

/-- A line read, strictly or permissively. -/
def read (strict : Bool) (source : String) : Except LineFault Line :=
  let stripped := strip source.toList
  let text := String.ofList stripped
  (readWords strict text (Text.words stripped)).map fun words => ⟨text, words⟩

end Line

end Toolpath
