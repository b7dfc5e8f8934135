import Dcr.EventLine.Parties
import Dcr.Event
import Dcr.Shape.Reading
import Dcr.Text.Quoted

/-! Reading an event line back. -/

namespace Dcr.EventLine

open FreeText (ofText)

variable {τ : Type} [FreeText τ]

/-- What keeps a line from being an event line. -/
inductive ParseError where
  | malformed (line : String)
  | shape (error : Shape.ParseError)
  deriving DecidableEq, Repr

def ParseError.message : ParseError → String
  | malformed line => "Malformed event line: " ++ Text.quoted line
  | shape error => error.message

/-- Takes a character off the front of a text if it is there. -/
def takeMark (mark : Char) : List Char → Bool × List Char
  | [] => (false, [])
  | c :: rest => if c = mark then (true, rest) else (false, c :: rest)

/-- Whether a line is meant as an event line: blanks aside, it opens a parenthesis, after the marks
if it has any. -/
def isCandidate (line : List Char) : Bool :=
  (takeMark '!' (takeMark '%' (Text.trim line)).2).2.head? == some '('

/-- The parts of an event line as they are written. -/
structure Parts where
  excluded : Bool
  pending : Bool
  label : List Char
  name : List Char
  security : List Char
  value : List Char
  parties : List Char
  deriving DecidableEq, Repr

/-- A text that ends in a bracketed part free of brackets, cut into what precedes that part and a
bracket before it, and the part. -/
def cutLast (cs : List Char) : Option (List Char × List Char) :=
  match cs.reverse with
  | ']' :: back =>
    match back.dropWhile fun c => c != '[' && c != ']' with
    | '[' :: ' ' :: ']' :: before =>
      some (before.reverse, (back.takeWhile fun c => c != '[' && c != ']').reverse)
    | _ => none
  | _ => none

/-- The parts of a line. The label ends at a colon and the name at a parenthesis; the security label
goes to the first closing parenthesis before a bracket, and neither it nor the value breaks the
line. -/
def parts? (line : List Char) : Option Parts := do
  let (excluded, line) := takeMark '%' line
  let (pending, line) := takeMark '!' line
  let '(' :: line := line | none
  let label := line.takeWhile fun c => c != ':' && c != '(' && c != ')'
  let ':' :: line := line.drop label.length | none
  let name := line.takeWhile fun c => c != '(' && c != ')'
  let ')' :: ' ' :: '(' :: line := line.drop name.length | none
  let (middle, parties) ← cutLast line
  if middle.contains '\n' then none
  else
    let (security, value) ← Text.cutAt ") [".toList middle
    return { excluded, pending, label, name, security, value, parties }

/-- The value of a line: an input if it begins with a question mark, a computation otherwise. -/
def parseValue (value : List Char) : Except ParseError (EventValue τ) :=
  if value.head? = some '?' then
    match Shape.parse (String.ofList value) with
    | .ok shape => .ok (.input shape)
    | .error e => .error (.shape e)
  else .ok (.computation (ofText (String.ofList value)))

def Parts.content (p : Parts) (value : EventValue τ) : EventContent τ where
  label := ofText (String.ofList p.label)
  name := ofText (String.ofList p.name)
  security := ofText (String.ofList p.security)
  value := value
  initiators := (splitParties p.parties).1.map ofText
  receivers := (splitParties p.parties).2.map ofText
  included := !p.excluded
  pending := p.pending

/-- Reads a line, without the blanks around it. -/
def parse (line : List Char) : Except ParseError (EventContent τ) :=
  match parts? (Text.trim line) with
  | none => .error (.malformed (String.ofList (Text.trim line)))
  | some p =>
    match parseValue p.value with
    | .ok value => .ok (p.content value)
    | .error e => .error e

/-- The notices that go with reading a line. -/
def parseNotices (line : List Char) : List Notice :=
  match parts? (Text.trim line) with
  | some p => if p.value.head? = some '?' then Shape.parseNotices (String.ofList p.value) else []
  | none => []

end Dcr.EventLine
