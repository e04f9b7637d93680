import Toolpath.Decimal.Binary

/-!
# The shortest decimal of a double

Every double is the nearest one to a whole interval of real numbers. The shortest decimal of a
double is the decimal in that interval with the fewest digits, and of those the nearest to the
double; of two equally near, the larger.

The search looks at decimal grids from coarse to fine. On one grid only the two neighbours of the
double need a look: if any point of the grid lies in the interval, one of these two does.
-/

namespace Toolpath.Decimal

/-- A non-negative decimal: `coefficient` times ten to the `exponent`. -/
structure Digits where
  coefficient : Nat
  exponent : Int
deriving Repr, DecidableEq, Inhabited

/-- The interval of reals that round to a double, with the double itself, in quarters of its last
place. The interval reaches half a place to each side, and only a quarter below a power of two; its
ends belong to it when the mantissa is even. -/
structure Interval where
  low : Nat
  value : Nat
  high : Nat
  exponent : Int
  closed : Bool
deriving Repr

/-- The interval of a positive double. -/
def Interval.ofBinary (mantissa : Nat) (exponent : Int) : Interval where
  low := 4 * mantissa - (if mantissa = firstNormalMantissa ∧ leastExponent < exponent then 1 else 2)
  value := 4 * mantissa
  high := 4 * mantissa + 2
  exponent := exponent - 2
  closed := mantissa % 2 == 0

/-- One integer is below another, or level with it where that counts. -/
def reaches (closed : Bool) (m n : Nat) : Bool := m < n || (closed && m == n)

/-- The nearest point of the grid of step ten to the `place` that lies in the interval. -/
def Interval.nearest? (i : Interval) (place : Int) : Option Nat :=
  let value := (Ratio.ofBinary i.value i.exponent).shift place
  let low := ((Ratio.ofBinary i.low i.exponent).shift place).num
  let high := ((Ratio.ofBinary i.high i.exponent).shift place).num
  let below := value.num / value.den
  let lowerFits := reaches i.closed low (below * value.den)
  let upperFits := reaches i.closed ((below + 1) * value.den) high
  match lowerFits, upperFits with
  | true, true => some (if 2 * (value.num % value.den) < value.den then below else below + 1)
  | true, false => some below
  | false, true => some (below + 1)
  | false, false => none

/-- The first grid with a point in the interval, from `place` down; the double's own neighbour
below where `fuel` grids hold none. -/
def Interval.search (i : Interval) : (fuel : Nat) → (place : Int) → Digits
  | 0, place =>
    let value := (Ratio.ofBinary i.value i.exponent).shift place
    ⟨value.num / value.den, place⟩
  | fuel + 1, place =>
    match i.nearest? place with
    | some n => ⟨n, place⟩
    | none => i.search fuel (place - 1)

/-- A decimal without the zeros at the end of its coefficient, `fuel` of them at most. -/
def Digits.trim : (fuel : Nat) → Digits → Digits
  | 0, d => d
  | fuel + 1, d =>
    if d.coefficient ≠ 0 ∧ d.coefficient % 10 = 0 then
      Digits.trim fuel ⟨d.coefficient / 10, d.exponent + 1⟩
    else d

/-- The most digits that a double needs to be told from its neighbours. -/
def mostDigits : Nat := 17

/-- The shortest decimal of a finite double without its sign. -/
def Digits.shortest (mantissa : Nat) (exponent : Int) : Digits :=
  if mantissa = 0 then ⟨0, 0⟩
  else
    let i := Interval.ofBinary mantissa exponent
    let top := (Ratio.ofBinary i.value i.exponent).leadingPlace
    Digits.trim (mostDigits + 1) (i.search mostDigits top)

end Toolpath.Decimal
