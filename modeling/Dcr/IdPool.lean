import Dcr.Text.Digit
import Dcr.Text.Quoted

/-! Identifier pools. An identifier is a stem and a number; a pool hands out the smallest released
number first and otherwise counts on. -/

namespace Dcr

/-- The released numbers stand in ascending order, all of them below the counter. Only a counter that
was set there is below zero. -/
structure IdPool where
  stem : String
  next : Int := 0
  free : List Int := []
  deriving DecidableEq, Repr

/-- Why a text is no identifier of a pool. -/
inductive IdError where
  | foreign (ident stem : String)
  | notDecimal (digits : String)
  | tooManyDigits (count : Nat)
  deriving DecidableEq, Repr

/-- The message of an error; a long text is cut off in it. -/
def IdError.message : IdError → String
  | foreign ident stem => "'" ++ ident ++ "' is not a '" ++ stem ++ "' identifier"
  | notDecimal digits =>
    "invalid literal for int() with base 10: " ++ String.ofList ((Text.quoted digits).toList.take 200)
  | tooManyDigits count => Text.tooManyDigits count

namespace IdPool

/-- The text after the stem. -/
def afterStem (stem ident : String) : String := String.ofList (ident.toList.drop stem.length)

/-- Whether an identifier is the stem followed by digits of any script. -/
def owns (p : IdPool) (ident : String) : Bool :=
  let rest := (afterStem p.stem ident).toList
  p.stem.isPrefixOf ident && !rest.isEmpty && rest.all Text.isDigit

/-- The number in an identifier of the pool, however many digits write it. -/
def value? (p : IdPool) (ident : String) : Option Nat :=
  if p.owns ident then Text.number? (afterStem p.stem ident).toList else none

/-- The number of an identifier. A digit without a place in decimal notation writes none, and there are
not too many digits before it. -/
def number (p : IdPool) (ident : String) : Except IdError Nat :=
  if p.owns ident then
    let digits := (afterStem p.stem ident).toList
    let count := (digits.takeWhile fun c => (Text.decimalValue? c).isSome).length
    if Text.mostDigits < count then .error (.tooManyDigits count)
    else match Text.number? digits with
      | some n => .ok n
      | none => .error (.notDecimal (afterStem p.stem ident))
  else .error (.foreign ident p.stem)

def ident (p : IdPool) (n : Int) : String := p.stem ++ toString n

/-- The number handed out next, and the pool without it. -/
def allocate (p : IdPool) : Int × IdPool :=
  match p.free with
  | n :: rest => (n, { p with free := rest })
  | [] => (p.next, { p with next := p.next + 1 })

/-- A number put in its place among others in ascending order. -/
def place (n : Int) : List Int → List Int
  | [] => [n]
  | m :: rest => if n ≤ m then n :: m :: rest else m :: place n rest

/-- Takes a number back, unless it was never handed out or is back already. -/
def release (p : IdPool) (n : Int) : IdPool :=
  if p.next ≤ n ∨ n ∈ p.free then p else { p with free := place n p.free }

/-- The pool in which exactly the given numbers are taken. -/
def ofUsed (stem : String) (used : List Int) : IdPool :=
  let next := match used with
    | [] => 0
    | n :: rest => rest.foldl max n + 1
  let below := (List.range next.toNat).map fun (n : Nat) => (n : Int)
  { stem, next, free := below.filter fun n => !used.contains n }

/-- The numbers that come next, ending at the counter. -/
def pending (p : IdPool) : List Int := p.free ++ [p.next]

end IdPool

end Dcr
