import Dcr.Double

/-! The fewest decimal digits that identify a number of double precision: a decimal identifies the
number that it is rounded to, and of the shortest ones the nearest is taken. -/

namespace Dcr.Double

/-- A power of ten over another number: `num * 10 ^ -exponent / (den * 10 ^ exponent)`, whichever of the
two powers is whole. -/
def overPower (num den : Nat) (exponent : Int) : Nat × Nat :=
  (num * Nat.pow 10 (-exponent).toNat, den * Nat.pow 10 exponent.toNat)

/-- Whether `digits * 10 ^ exponent` is rounded to `mantissa * 2 ^ binary`. It lies between the points
halfway to the neighbours, on one of them only if the mantissa is even; below a power of two the
neighbour is half as far away. -/
def identifies (mantissa : Nat) (binary : Int) (digits : Nat) (exponent : Int) : Bool :=
  let narrow := mantissa == Nat.pow 2 52 && leastExponent < binary
  let low := if narrow then 4 * mantissa - 1 else 4 * mantissa - 2
  let high := 4 * mantissa + 2
  let unit := binary - 2
  let value := digits * Nat.pow 10 exponent.toNat * Nat.pow 2 (-unit).toNat
  let scale := Nat.pow 2 unit.toNat * Nat.pow 10 (-exponent).toNat
  if mantissa % 2 = 0 then low * scale ≤ value && value ≤ high * scale
  else low * scale < value && value < high * scale

/-- The place of the point before which all digits of a quotient stand: the least power of ten above
it. -/
def pointOf (num den : Nat) : Int :=
  let guess : Int := (Nat.toDigits 10 num).length - (Nat.toDigits 10 den).length
  let (above, below) := overPower num den guess
  if above < below then guess else guess + 1

/-- The decimal of so many digits that identifies a number, the nearest one if there are two. -/
def decimalOf? (mantissa : Nat) (binary : Int) (point : Int) (length : Nat) : Option Nat :=
  let exponent := point - length
  let (num, den) :=
    overPower (mantissa * Nat.pow 2 binary.toNat) (Nat.pow 2 (-binary).toNat) exponent
  let floor := num / den
  match identifies mantissa binary floor exponent, identifies mantissa binary (floor + 1) exponent with
  | true, true => some (nearest num den)
  | true, false => some floor
  | false, true => some (floor + 1)
  | false, false => none

/-- The fewest digits that identify a number other than zero, without zeros at the end, and the place
of the point among them. Seventeen digits identify every number. -/
def shortest (mantissa : Nat) (binary : Int) : List Char × Int :=
  let point := pointOf (mantissa * Nat.pow 2 binary.toNat) (Nat.pow 2 (-binary).toNat)
  let found := (List.range 17).findSome? fun i =>
    (decimalOf? mantissa binary point (i + 1)).map fun digits => (digits, point - (i + 1))
  let (digits, exponent) := found.getD (0, 0)
  let digits := Nat.toDigits 10 digits
  ((digits.reverse.dropWhile (· == '0')).reverse, digits.length + exponent)

end Dcr.Double
