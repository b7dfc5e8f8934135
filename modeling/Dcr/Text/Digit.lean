import Dcr.Text.DigitTable

/-! Digits of every script, and the numbers written with them. -/

namespace Dcr.Text

/-- The value of a decimal digit of any script. -/
def decimalValue? (c : Char) : Option Nat :=
  (zeros.find? fun start => start ≤ c.toNat ∧ c.toNat ≤ start + 9).map (c.toNat - ·)

/-- Whether a character has a digit value, be it decimal or, like a superscript, not. -/
def isDigit (c : Char) : Bool :=
  (decimalValue? c).isSome ||
    otherDigits.any fun (first, last) => first ≤ c.toNat && c.toNat ≤ last

/-- The number that some decimal digits write, most significant first; `none` without digits or
with any other character. -/
def number? : List Char → Option Nat
  | [] => none
  | cs => cs.foldl (fun total c => do return 10 * (← total) + (← decimalValue? c)) (some 0)

/-- A number is written with no more digits than this. -/
def mostDigits : Nat := 4300

/-- What is told about a number of too many digits. -/
def tooManyDigits (count : Nat) : String :=
  "Exceeds the limit (" ++ toString mostDigits ++ " digits) for integer string conversion: value has "
    ++ toString count ++ " digits; use sys.set_int_max_str_digits() to increase the limit"

end Dcr.Text
