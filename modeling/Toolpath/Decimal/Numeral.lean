import Toolpath.Decimal.Binary

/-!
# Reading numerals

A numeral is an optional sign and then either a name for an infinite or an undefined number, in any
case, or digits. The digits may have a point among them or at either end, with a digit on at least
one side, and an exponent after them. The value is the double nearest to the written number.
-/

namespace Toolpath.Decimal

/-- The value of a run of digits. -/
def digitsValue (ds : List Char) : Nat :=
  ds.foldl (fun n d => 10 * n + (d.toNat - '0'.toNat)) 0

/-- A sign at the start, and what follows it. -/
def splitSign : List Char → Bool × List Char
  | '-' :: rest => (true, rest)
  | '+' :: rest => (false, rest)
  | rest => (false, rest)

/-- A written number without its sign: the digits of a coefficient and a power of ten. -/
structure Numeral where
  digits : List Char
  exponent : Int
deriving Repr, DecidableEq

/-- What stands after the digits: nothing, or the letter `e` with an exponent. -/
def exponent? : List Char → Option Int
  | [] => some 0
  | c :: rest =>
    if c = 'e' ∨ c = 'E' then
      let (negative, ds) := splitSign rest
      if ds ≠ [] ∧ ds.all Char.isDigit then
        some (if negative then -(digitsValue ds : Int) else digitsValue ds)
      else none
    else none

/-- The digits after a point, if one stands here, and what follows them. -/
def splitFraction : List Char → List Char × List Char
  | '.' :: rest => (rest.takeWhile Char.isDigit, rest.dropWhile Char.isDigit)
  | rest => ([], rest)

/-- Digits with at most one point and an optional exponent. The digits of the fraction lower the
power of ten by their number. -/
def Numeral.read? (cs : List Char) : Option Numeral :=
  let whole := cs.takeWhile Char.isDigit
  let (fraction, rest) := splitFraction (cs.dropWhile Char.isDigit)
  if whole ++ fraction = [] then none
  else (exponent? rest).map fun e => ⟨whole ++ fraction, e - fraction.length⟩

/-- The double nearest to a numeral. Magnitudes far outside the range are decided by the place of
the leading digit, so that no power of ten of their size is ever built. -/
def Numeral.toFloat (n : Numeral) : Float :=
  let coefficient := digitsValue n.digits
  let top : Int := digitCount coefficient + n.exponent
  if coefficient = 0 then 0.0
  else if 310 < top then 1.0 / 0.0
  else if top < -330 then 0.0
  else Float.ofScientific coefficient (n.exponent < 0) n.exponent.natAbs

/-- The names of the numbers that have no digits. -/
def named? (cs : List Char) : Option Float :=
  let name := cs.map Char.toLower
  if name = "inf".toList ∨ name = "infinity".toList then some (1.0 / 0.0)
  else if name = "nan".toList then some (0.0 / 0.0)
  else none

/-- The double that a numeral stands for. -/
def read? (cs : List Char) : Option Float :=
  let (negative, rest) := splitSign cs
  let magnitude := (named? rest).or ((Numeral.read? rest).map Numeral.toFloat)
  magnitude.map fun x => if negative then -x else x

/-- Digits and nothing else, with a value below a bound. Leading zeros do not count. -/
def readBelow? (bound : Nat) (cs : List Char) : Option Nat :=
  if cs ≠ [] ∧ cs.all Char.isDigit then
    let n := digitsValue cs
    if n < bound then some n else none
  else none

end Toolpath.Decimal
