/-!
# Doubles taken apart

A double is an integer times a power of two. Everything this library says about the decimal text of
a double starts from that integer and that power, in exact arithmetic, and never from another
printer's output.
-/

namespace Toolpath.Decimal

/-- What the bits of a double say: undefined, infinite, or `mantissa` times two to the
`exponent`. -/
inductive Binary where
  | undefined
  | infinite (negative : Bool)
  | finite (negative : Bool) (mantissa : Nat) (exponent : Int)
deriving Repr, DecidableEq, Inhabited

/-- The exponent that belongs to the last place of the smallest doubles. -/
def leastExponent : Int := -1074

/-- The mantissa at which the spacing of the doubles below is half the spacing above. -/
def firstNormalMantissa : Nat := Nat.pow 2 52

/-- The parts of a double. A biased exponent of zero has no hidden bit; the largest one holds the
infinities and the undefined numbers. -/
def Binary.ofFloat (x : Float) : Binary :=
  let bits := x.toBits.toNat
  let negative := bits / Nat.pow 2 63 == 1
  let biased := bits / Nat.pow 2 52 % Nat.pow 2 11
  let fraction := bits % Nat.pow 2 52
  if biased = 2047 then
    if fraction = 0 then .infinite negative else .undefined
  else if biased = 0 then .finite negative fraction leastExponent
  else .finite negative (firstNormalMantissa + fraction) (leastExponent + (biased - 1 : Nat))

/-- A non-negative quotient: what a double without its sign is worth. -/
structure Ratio where
  num : Nat
  den : Nat
deriving Repr, DecidableEq, Inhabited

/-- An integer times a power of two, as a quotient of integers. -/
def Ratio.ofBinary (mantissa : Nat) (exponent : Int) : Ratio :=
  if 0 ≤ exponent then ⟨mantissa * Nat.pow 2 exponent.toNat, 1⟩
  else ⟨mantissa, Nat.pow 2 (-exponent).toNat⟩

/-- A quotient divided by a power of ten. -/
def Ratio.shift (r : Ratio) (place : Int) : Ratio :=
  if 0 ≤ place then ⟨r.num, r.den * Nat.pow 10 place.toNat⟩
  else ⟨r.num * Nat.pow 10 (-place).toNat, r.den⟩

/-- The integer nearest to a quotient; of two equally near, the even one. -/
def Ratio.round (r : Ratio) : Nat :=
  let whole := r.num / r.den
  let twice := 2 * (r.num % r.den)
  if twice < r.den then whole
  else if r.den < twice then whole + 1
  else if whole % 2 = 0 then whole
  else whole + 1

/-- How many decimal digits an integer has; one for zero. -/
def digitCount (n : Nat) : Nat := (Nat.toDigits 10 n).length

/-- The place of the leading decimal digit of a positive quotient: zero for one to below ten. The
difference of the digit counts is this place or one more. -/
def Ratio.leadingPlace (r : Ratio) : Int :=
  let guess : Int := (digitCount r.num : Int) - digitCount r.den
  let s := r.shift guess
  if s.den ≤ s.num then guess else guess - 1

end Toolpath.Decimal
