/-! Hexadecimal codes of a fixed width. -/

namespace Dcr.Text

def hexDigit (n : Nat) : Char := Nat.digitChar n

/-- The last `width` hexadecimal digits of a number, in lower case. -/
def hexCode (width n : Nat) : List Char :=
  match width with
  | 0 => []
  | w + 1 => hexCode w (n / 16) ++ [hexDigit (n % 16)]

def hexValue? (c : Char) : Option Nat :=
  if '0' ≤ c ∧ c ≤ '9' then some (c.toNat - 48)
  else if 'a' ≤ c ∧ c ≤ 'f' then some (c.toNat - 87)
  else if 'A' ≤ c ∧ c ≤ 'F' then some (c.toNat - 55)
  else none

end Dcr.Text
