import Dcr.Double.Shortest

/-! The written form of a number of double precision. -/

namespace Dcr.Double

def zeros (n : Nat) : List Char := List.replicate n '0'

/-- A power of ten, with its sign and at least two digits. -/
def powerText (n : Int) : List Char :=
  let digits := Nat.toDigits 10 n.natAbs
  'e' :: (if n < 0 then '-' else '+') :: zeros (2 - digits.length) ++ digits

/-- Digits with a point in its place: in full from four places after the point up to sixteen before it,
and otherwise with a power of ten after the first digit. -/
def layout (digits : List Char) (point : Int) : List Char :=
  if -4 < point ∧ point ≤ 16 then
    if point ≤ 0 then '0' :: '.' :: zeros (-point).toNat ++ digits
    else if (digits.length : Int) ≤ point then
      digits ++ zeros (point.toNat - digits.length) ++ ['.', '0']
    else digits.take point.toNat ++ '.' :: digits.drop point.toNat
  else
    digits.take 1 ++ (if digits.length = 1 then [] else '.' :: digits.drop 1) ++ powerText (point - 1)

def signed (negative : Bool) (text : String) : String := if negative then "-" ++ text else text

/-- A number with the fewest digits that identify it. -/
def render : Double → String
  | finite negative mantissa exponent =>
    if mantissa = 0 then signed negative "0.0"
    else
      let (digits, point) := shortest mantissa exponent
      signed negative (String.ofList (layout digits point))
  | infinite negative => signed negative "inf"
  | undefined => "nan"

end Dcr.Double
