import Dcr.Json
import Dcr.Text.Digit
import Dcr.Text.Hex

/-! Reading JSON text. Only spaces, tabs and line breaks separate, a text holds no control character
unescaped, and the words for infinity and not-a-number are numbers. Of members with one name the last
counts, in the place of the first. -/

namespace Dcr.Json

/-- The lists and objects, which can be inside one another. -/
inductive Nesting where
  | list
  | object
  deriving DecidableEq, Repr

def Nesting.name : Nesting → String
  | list => "array"
  | object => "object"

/-- Why a text is not read. The first fault on the way through it counts. -/
inductive ReadFault where
  | malformed
  | tooManyDigits (count : Nat)
  | tooDeep (nesting : Nesting)
  deriving DecidableEq, Repr

/-- So many lists and objects may be inside one another. -/
def deepest : Nat := 987

abbrev ReadM := Except ReadFault

/-- What is read if there is something to read. -/
def wellFormed {α : Type} (x : Option α) : ReadM α := x.elim (.error .malformed) .ok

/-- The rest of a text from its first character that does not separate. -/
def skipSpace (cs : List Char) : List Char :=
  cs.dropWhile fun c => c == ' ' || c == '\t' || c == '\n' || c == '\r'

/-- The number that four hexadecimal digits write. -/
def hexFour? (a b c d : Char) : Option Nat := do
  return 4096 * (← Text.hexValue? a) + 256 * (← Text.hexValue? b) + 16 * (← Text.hexValue? c)
    + (← Text.hexValue? d)

def escaped? (c : Char) : Option Char :=
  match c with
  | '"' => some '"'
  | '\\' => some '\\'
  | '/' => some '/'
  | 'b' => some '\x08'
  | 'f' => some '\x0c'
  | 'n' => some '\n'
  | 'r' => some '\r'
  | 't' => some '\t'
  | _ => none

def isHighSurrogate (n : Nat) : Bool := 0xD800 ≤ n && n < 0xDC00

def isLowSurrogate (n : Nat) : Bool := 0xDC00 ≤ n && n < 0xE000

/-- The character of a code; half a surrogate pair is replaced. -/
def codeChar (n : Nat) : Char :=
  if isHighSurrogate n || isLowSurrogate n then '\uFFFD' else Char.ofNat n

/-- Reads a text up to its closing quote; `done` is what it holds so far, in reverse. -/
def readText (done : List Char) : List Char → Option (String × List Char)
  | '"' :: rest => some (String.ofList done.reverse, rest)
  | '\\' :: 'u' :: a :: b :: c :: d :: '\\' :: 'u' :: e :: f :: g :: h :: rest => do
    let high ← hexFour? a b c d
    match hexFour? e f g h with
    | some low =>
      if isHighSurrogate high && isLowSurrogate low then
        readText (Char.ofNat (0x10000 + 1024 * (high - 0xD800) + (low - 0xDC00)) :: done) rest
      else readText (codeChar high :: done) ('\\' :: 'u' :: e :: f :: g :: h :: rest)
    | none => none
  | '\\' :: 'u' :: a :: b :: c :: d :: rest => do
    readText (codeChar (← hexFour? a b c d) :: done) rest
  | '\\' :: c :: rest => do readText ((← escaped? c) :: done) rest
  | c :: rest => if c.toNat < 0x20 then none else readText (c :: done) rest
  | [] => none
termination_by cs => cs.length

/-- The digits at the front of a text. -/
def spanDigits (cs : List Char) : List Char × List Char :=
  (cs.takeWhile Char.isDigit, cs.dropWhile Char.isDigit)

/-- The fraction at the front of a text: a point and digits. -/
def spanFraction (cs : List Char) : List Char × List Char :=
  match cs with
  | '.' :: rest =>
    let (digits, rest) := spanDigits rest
    if digits.isEmpty then ([], cs) else ('.' :: digits, rest)
  | _ => ([], cs)

/-- The exponent at the front of a text: a letter, perhaps a sign, and digits. -/
def spanExponent (cs : List Char) : List Char × List Char :=
  match cs with
  | c :: rest =>
    if c = 'e' ∨ c = 'E' then
      let (sign, rest) := match rest with
        | '+' :: rest => (['+'], rest)
        | '-' :: rest => (['-'], rest)
        | rest => ([], rest)
      let (digits, rest) := spanDigits rest
      if digits.isEmpty then ([], cs) else (c :: sign ++ digits, rest)
    else ([], cs)
  | [] => ([], cs)

/-- The number that is written after a sign by whole digits, a fraction and an exponent. -/
def realOf (negative : Bool) (digits fraction exponent : List Char) : Double :=
  let places := fraction.drop 1
  let power := match exponent.drop 1 with
    | '-' :: rest => -(Nat.ofDigitChars 10 rest 0 : Int)
    | '+' :: rest => Nat.ofDigitChars 10 rest 0
    | rest => Nat.ofDigitChars 10 rest 0
  .ofDecimal negative (Nat.ofDigitChars 10 (digits ++ places) 0) (power - places.length)

/-- Reads a number after its sign. A zero in front stands alone, and a whole number has not too many
digits. -/
def readNumber (negative : Bool) (cs : List Char) : ReadM (Json × List Char) :=
  let (digits, rest) := match cs with
    | '0' :: rest => (['0'], rest)
    | cs => spanDigits cs
  if digits.isEmpty then .error .malformed
  else
    let (fraction, rest) := spanFraction rest
    let (exponent, rest) := spanExponent rest
    if !fraction.isEmpty || !exponent.isEmpty then
      .ok (real (realOf negative digits fraction exponent), rest)
    else if Text.mostDigits < digits.length then .error (.tooManyDigits digits.length)
    else
      let n := Nat.ofDigitChars 10 digits 0
      .ok (int (if negative then -(n : Int) else n), rest)

/-- Adds a member; one of the same name keeps its place and loses its value. -/
def putMember (key : String) (value : Json) : List (String × Json) → List (String × Json)
  | [] => [(key, value)]
  | (k, v) :: rest => if k = key then (k, value) :: rest else (k, v) :: putMember key value rest

/-- Takes a word off the front of a text. -/
def takeWord? (word : String) (cs : List Char) : Option (List Char) :=
  if word.toList.isPrefixOf cs then some (cs.drop word.length) else none

/-- The values that are words. -/
def words : List (String × Json) :=
  [("null", null), ("true", bool true), ("false", bool false), ("NaN", real .undefined),
    ("Infinity", real (.infinite false)), ("-Infinity", real (.infinite true))]

mutual

/-- Reads a value whose first character is at the front; so many nested steps may be taken, and so many
lists and objects opened inside one another. -/
def readValue : Nat → Nat → List Char → ReadM (Json × List Char)
  | 0, _, _ => .error .malformed
  | steps + 1, room, cs =>
    match words.findSome? fun (word, value) => (takeWord? word cs).map fun rest => (value, rest) with
    | some found => .ok found
    | none =>
      match cs, room with
      | '"' :: rest, _ => (wellFormed (readText [] rest)).map fun (s, rest) => (str s, rest)
      | '[' :: _, 0 => .error (.tooDeep .list)
      | '[' :: rest, room + 1 =>
        match skipSpace rest with
        | ']' :: rest => .ok (arr [], rest)
        | rest => readItems steps room [] rest
      | '\x7b' :: _, 0 => .error (.tooDeep .object)
      | '\x7b' :: rest, room + 1 =>
        match skipSpace rest with
        | '\x7d' :: rest => .ok (obj [], rest)
        | rest => readMembers steps room [] rest
      | '-' :: rest, _ => readNumber true rest
      | rest, _ => readNumber false rest

/-- Reads the items of a list from the next one on. -/
def readItems : Nat → Nat → List Json → List Char → ReadM (Json × List Char)
  | 0, _, _, _ => .error .malformed
  | steps + 1, room, items, cs => do
    let (item, rest) ← readValue steps room cs
    match skipSpace rest with
    | ',' :: rest => readItems steps room (item :: items) (skipSpace rest)
    | ']' :: rest => .ok (arr (item :: items).reverse, rest)
    | _ => .error .malformed

/-- Reads the members of an object from the next one on. -/
def readMembers : Nat → Nat → List (String × Json) → List Char → ReadM (Json × List Char)
  | 0, _, _, _ => .error .malformed
  | steps + 1, room, members, cs => do
    let '"' :: rest := cs | .error .malformed
    let (key, rest) ← wellFormed (readText [] rest)
    let ':' :: rest := skipSpace rest | .error .malformed
    let (value, rest) ← readValue steps room (skipSpace rest)
    match skipSpace rest with
    | ',' :: rest => readMembers steps room (putMember key value members) (skipSpace rest)
    | '\x7d' :: rest => .ok (obj (putMember key value members), rest)
    | _ => .error .malformed

end

/-- The value that a text writes. Each nested step takes at least one character. -/
def read (text : String) : ReadM Json := do
  let cs := skipSpace text.toList
  let (value, rest) ← readValue (cs.length + 1) deepest cs
  if (skipSpace rest).isEmpty then .ok value else .error .malformed

end Dcr.Json
