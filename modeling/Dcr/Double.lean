/-! Numbers of double precision, rounded from decimals. A finite one is a whole number of at most 53
bits times a power of two. -/

namespace Dcr

/-- A finite number is `mantissa * 2 ^ exponent`. The mantissa fills 53 bits unless the exponent is the
least one. -/
inductive Double where
  | finite (negative : Bool) (mantissa : Nat) (exponent : Int)
  | infinite (negative : Bool)
  | undefined
  deriving DecidableEq, Inhabited, Repr

namespace Double

def leastExponent : Int := -1074

def greatestExponent : Int := 971

def zero (negative : Bool) : Double := finite negative 0 leastExponent

def isZero : Double → Bool
  | finite _ mantissa _ => mantissa == 0
  | _ => false

/-- The whole number nearest to a quotient, and of two equally near ones the even one. -/
def nearest (num den : Nat) : Nat :=
  let floor := num / den
  let rest := num % den
  if 2 * rest < den ∨ 2 * rest = den ∧ floor % 2 = 0 then floor else floor + 1

/-- The exponent that leaves 53 bits before the point of a quotient. -/
def exponentOf (num den : Nat) : Int :=
  let guess : Int := (num.log2 : Int) - den.log2 - 53
  if Nat.pow 2 53 * den * Nat.pow 2 guess.toNat ≤ num * Nat.pow 2 (-guess).toNat then guess + 1
  else guess

/-- The number nearest to a quotient that is not zero. -/
def ofRatio (negative : Bool) (num den : Nat) : Double :=
  let exponent := max leastExponent (exponentOf num den)
  let mantissa := nearest (num * Nat.pow 2 (-exponent).toNat) (den * Nat.pow 2 exponent.toNat)
  let (mantissa, exponent) :=
    if mantissa = Nat.pow 2 53 then (Nat.pow 2 52, exponent + 1) else (mantissa, exponent)
  if greatestExponent < exponent then infinite negative else finite negative mantissa exponent

/-- The number nearest to `digits * 10 ^ exponent`. What has its first digit far outside the range of
finite numbers is infinite or zero. -/
def ofDecimal (negative : Bool) (digits : Nat) (exponent : Int) : Double :=
  let point : Int := (Nat.toDigits 10 digits).length + exponent
  if digits = 0 ∨ point < -330 then zero negative
  else if 310 < point then infinite negative
  else ofRatio negative (digits * Nat.pow 10 exponent.toNat) (Nat.pow 10 (-exponent).toNat)

end Double

end Dcr
