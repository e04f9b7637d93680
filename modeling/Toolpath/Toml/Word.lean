import Toolpath.Toml.Fault
import Toolpath.Data.Datum

/-!
# Values of one word

The values of TOML that are neither quoted nor bracketed: truth values, integers in four bases,
floats, dates and times. A word is read as a whole: the characters that could belong to one are
collected first, and then have to be one.

Digits may have single underscores between them, which do not count. A date or a time is checked
and kept as its text, in a record with one field, since nothing here computes with it.
-/

namespace Toolpath.Toml

/-- The characters of a value without quotes and brackets. -/
def isWordChar (c : Char) : Bool :=
  c.isAlphanum || c == '_' || c == '-' || c == '+' || c == '.' || c == ':'

/-- Digits without the underscores between them. -/
def ungroup? (isDigit : Char → Bool) : List Char → Option (List Char)
  | [] => none
  | [c] => if isDigit c then some [c] else none
  | c :: '_' :: rest => if isDigit c then (ungroup? isDigit rest).map (c :: ·) else none
  | c :: rest => if isDigit c then (ungroup? isDigit rest).map (c :: ·) else none

/-! ## Integers -/

/-- The value of a digit in any base up to sixteen. -/
def digitIn (c : Char) : Nat :=
  if c.isDigit then c.toNat - '0'.toNat else c.toLower.toNat - 'a'.toNat + 10

/-- An integer in a base, from its grouped digits. -/
def inBase? (base : Nat) (cs : List Char) : Option Int :=
  let isDigit (c : Char) : Bool := c.isAlphanum && digitIn c < base
  (ungroup? isDigit cs).map fun ds => ((ds.foldl (fun n d => base * n + digitIn d) 0 : Nat) : Int)

/-- Decimal digits as they may start a number: grouped, and without a zero before others. -/
def decimal? (cs : List Char) : Option (List Char) :=
  if 1 < cs.length ∧ cs.head? = some '0' then none else ungroup? Char.isDigit cs

/-- The integers that fit into a signed or unsigned 128-bit word. -/
def isDoubleWord (n : Int) : Bool := -(Nat.pow 2 127 : Int) ≤ n && n < (Nat.pow 2 128 : Int)

/-- An integer. Only a decimal one may have a sign. -/
def integer? (cs : List Char) : Option Int :=
  let n := match cs with
    | '0' :: 'x' :: ds => inBase? 16 ds
    | '0' :: 'o' :: ds => inBase? 8 ds
    | '0' :: 'b' :: ds => inBase? 2 ds
    | cs =>
      let (negative, ds) := Decimal.splitSign cs
      (decimal? ds).map fun ds =>
        let n : Int := Decimal.digitsValue ds
        if negative then -n else n
  n.filter isDoubleWord

/-! ## Floats -/

/-- The exponent after the letter `e`, with grouped digits; zero where the number ends. -/
def floatExponent? : List Char → Option Int
  | [] => some 0
  | c :: rest =>
    if c = 'e' ∨ c = 'E' then
      let (negative, ds) := Decimal.splitSign rest
      (ungroup? Char.isDigit ds).map fun ds =>
        let n : Int := Decimal.digitsValue ds
        if negative then -n else n
    else none

/-- A float without its sign: a decimal integer with a fraction, an exponent or both. -/
def magnitude? (cs : List Char) : Option Float := do
  let isPart (c : Char) : Bool := c != '.' && c != 'e' && c != 'E'
  let whole ← decimal? (cs.takeWhile isPart)
  match cs.dropWhile isPart with
  | [] => none
  | '.' :: rest =>
    let fraction ← ungroup? Char.isDigit (rest.takeWhile isPart)
    let e ← floatExponent? (rest.dropWhile isPart)
    return Decimal.Numeral.toFloat ⟨whole ++ fraction, e - fraction.length⟩
  | rest =>
    let e ← floatExponent? rest
    return Decimal.Numeral.toFloat ⟨whole, e⟩

/-- A float, with the names of the infinite and the undefined ones. Digits whose value is beyond the
largest double are refused. -/
def float? (cs : List Char) : Option Float :=
  let (negative, rest) := Decimal.splitSign cs
  let magnitude :=
    if rest = "inf".toList then some (1.0 / 0.0)
    else if rest = "nan".toList then some (0.0 / 0.0)
    else (magnitude? rest).filter Float.isFinite
  magnitude.map fun x => if negative then -x else x

/-! ## Dates and times -/

/-- The value of exactly so many digits, if it lies between two bounds. -/
def field? (width low high : Nat) (cs : List Char) : Option Nat :=
  let n := Decimal.digitsValue cs
  if cs.length = width ∧ cs.all Char.isDigit ∧ low ≤ n ∧ n ≤ high then some n else none

/-- How many days a month has. -/
def daysIn (year month : Nat) : Nat :=
  if month = 2 then
    if year % 4 = 0 ∧ (year % 100 ≠ 0 ∨ year % 400 = 0) then 29 else 28
  else if month = 4 ∨ month = 6 ∨ month = 9 ∨ month = 11 then 30
  else 31

/-- A day of the calendar: year, month and day with hyphens between them. -/
def isDate : List Char → Bool
  | [y₁, y₂, y₃, y₄, '-', m₁, m₂, '-', d₁, d₂] =>
    match field? 4 0 9999 [y₁, y₂, y₃, y₄], field? 2 1 12 [m₁, m₂] with
    | some year, some month => (field? 2 1 (daysIn year month) [d₁, d₂]).isSome
    | _, _ => false
  | _ => false

/-- A fraction of a second if a point stands here, followed by what ends the time. -/
def isFractionThen (isEnd : List Char → Bool) : List Char → Bool
  | '.' :: rest => !(rest.takeWhile Char.isDigit).isEmpty && isEnd (rest.dropWhile Char.isDigit)
  | rest => isEnd rest

/-- A time of the day to the minute, the second or finer, followed by what ends it. -/
def isTimeThen (isEnd : List Char → Bool) : List Char → Bool
  | h₁ :: h₂ :: ':' :: m₁ :: m₂ :: rest =>
    (field? 2 0 23 [h₁, h₂]).isSome && (field? 2 0 59 [m₁, m₂]).isSome
      && match rest with
        | ':' :: s₁ :: s₂ :: rest => (field? 2 0 60 [s₁, s₂]).isSome && isFractionThen isEnd rest
        | rest => isEnd rest
  | _ => false

/-- What may follow a time after a date: nothing, the letter `z`, or an offset in hours and
minutes. -/
def isOffset : List Char → Bool
  | [] => true
  | [c] => c == 'Z' || c == 'z'
  | [sign, h₁, h₂, ':', m₁, m₂] =>
    (sign == '+' || sign == '-') && (field? 2 0 23 [h₁, h₂]).isSome
      && (field? 2 0 59 [m₁, m₂]).isSome
  | _ => false

/-- A date, a time, or a date and a time with a letter or a blank between them. -/
def isMoment (cs : List Char) : Bool :=
  isDate cs || isTimeThen List.isEmpty cs
    || (isDate (cs.take 10)
      && match cs.drop 10 with
        | c :: time => (c == 'T' || c == 't' || c == ' ') && isTimeThen isOffset time
        | [] => false)

/-- The one field of the record that holds a date or a time. -/
def momentField : String := "datetime"

/-! ## Words -/

/-- The value of a word. -/
def wordValue? (cs : List Char) : Option Datum :=
  if cs = "true".toList then some (.flag true)
  else if cs = "false".toList then some (.flag false)
  else
    ((integer? cs).map Datum.integer).or <| ((float? cs).map Datum.real).or <|
      if isMoment cs then some (.record [(momentField, .text (String.ofList cs))]) else none

/-- A word at the start of a text, and the rest. A date draws the time after one blank to it. -/
def splitWord (cs : List Char) : List Char × List Char :=
  let word := cs.takeWhile isWordChar
  let rest := cs.dropWhile isWordChar
  match rest with
  | ' ' :: d :: tail =>
    if isDate word && d.isDigit then
      (word ++ ' ' :: (d :: tail).takeWhile isWordChar, (d :: tail).dropWhile isWordChar)
    else (word, rest)
  | _ => (word, rest)

/-- A value of one word. -/
def wordValue (cs : List Char) : Answer Datum :=
  let (word, rest) := splitWord cs
  match wordValue? word with
  | some d => .ok (d, rest)
  | none => .error (.badValue (String.ofList word) cs.length)

end Toolpath.Toml
