import Toolpath.Decimal.Shortest

/-!
# How decimals are written

Four layouts of a double. `plain` and `tagged` write its shortest decimal, the first always in
positions and the second in a form that shows it to be no integer; `fixed` and `scientific` round
the exact binary value to a number of places, a tie going to the even neighbour. The sign of a zero
is written in all of them.
-/

namespace Toolpath.Decimal

/-- The decimal digits of an integer. -/
def digitsOf (n : Nat) : List Char := Nat.toDigits 10 n

/-- The text of an integer. -/
def natural (n : Nat) : String := String.ofList (digitsOf n)

/-- So many zeros. -/
def zeros (n : Nat) : List Char := List.replicate n '0'

/-- An integer with a point set before its last `places` digits; zeros fill up what is missing. -/
def withPoint (n places : Nat) : List Char :=
  if places = 0 then digitsOf n
  else
    let ds := digitsOf n
    let padded := zeros (places + 1 - ds.length) ++ ds
    padded.take (padded.length - places) ++ '.' :: padded.drop (padded.length - places)

/-- The digits of a decimal in their positions, without a point where it has no fraction. -/
def Digits.positional (d : Digits) : List Char :=
  if 0 ≤ d.exponent then
    if d.coefficient = 0 then ['0'] else digitsOf d.coefficient ++ zeros d.exponent.toNat
  else withPoint d.coefficient (-d.exponent).toNat

/-- The place of the leading digit of a decimal. -/
def Digits.leadingPlace (d : Digits) : Int := (digitCount d.coefficient : Int) - 1 + d.exponent

/-- An exponent as it follows the letter `e`: no sign when it is positive. -/
def exponentText (e : Int) : List Char :=
  if e < 0 then '-' :: digitsOf (-e).toNat else digitsOf e.toNat

/-- One digit, a point and the rest, then the exponent; a lone digit has no point. -/
def Digits.exponential (d : Digits) : List Char :=
  withPoint d.coefficient (digitCount d.coefficient - 1) ++ 'e' :: exponentText d.leadingPlace

/-- The text of a double, given how its magnitude is written. -/
def layout (magnitude : (mantissa : Nat) → (exponent : Int) → List Char) (x : Float) : String :=
  match Binary.ofFloat x with
  | .undefined => "NaN"
  | .infinite negative => if negative then "-inf" else "inf"
  | .finite negative mantissa exponent =>
    let text := magnitude mantissa exponent
    String.ofList (if negative then '-' :: text else text)

/-- The shortest decimal, always in positions. -/
def plain : Float → String := layout fun m q => (Digits.shortest m q).positional

/-- The shortest decimal in positions, with a fraction even where it is zero. -/
def Digits.fractional (d : Digits) : List Char :=
  if 0 ≤ d.exponent then d.positional ++ ['.', '0'] else d.positional

/-- The shortest decimal with a fraction from one ten-thousandth up to below ten to the sixteenth
and for zero, and with an exponent elsewhere. -/
def tagged : Float → String := layout fun m q =>
  let d := Digits.shortest m q
  if d.coefficient = 0 ∨ (-4 ≤ d.leadingPlace ∧ d.leadingPlace < 16) then d.fractional
  else d.exponential

/-- The exact value rounded to so many places after the point. -/
def fixed (places : Nat) : Float → String := layout fun m q =>
  withPoint ((Ratio.ofBinary m q).shift (-places)).round places

/-- The exact value rounded to so many digits after the leading one, with its exponent. A value
that rounds up to the next power of ten takes the next exponent. -/
def scientific (places : Nat) : Float → String := layout fun m q =>
  if m = 0 then withPoint 0 places ++ ['e', '0']
  else
    let r := Ratio.ofBinary m q
    let top := r.leadingPlace
    let n := (r.shift (top - places)).round
    if n = Nat.pow 10 (places + 1) then
      withPoint (Nat.pow 10 places) places ++ 'e' :: exponentText (top + 1)
    else withPoint n places ++ 'e' :: exponentText top

end Toolpath.Decimal
