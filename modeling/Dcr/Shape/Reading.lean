import Dcr.Log
import Dcr.Shape
import Dcr.Shape.Token

/-! Reading a value clause: a question mark, alone or with a colon and then a type name, or the
fields of a record in braces, separated by semicolons. The first token with no place in a clause is
reported, or the first illegal character if that comes earlier. -/

namespace Dcr.Shape

open FreeText (ofText)

variable {τ : Type} [FreeText τ]

/-- What keeps a text from being a value clause. -/
inductive ParseError where
  | illegal (char : Char) (position : Nat)
  | unexpected (token : Token) (position : Nat)
  | unexpectedEnd
  deriving DecidableEq, Repr

def ParseError.message : ParseError → String
  | illegal c position =>
    "Illegal character '" ++ c.toString ++ "' in value shape at position " ++ toString position
  | unexpected token position =>
    "Syntax error near '" ++ token.text ++ "' (type: " ++ token.className ++ ") at position "
      ++ toString position
  | unexpectedEnd => "Syntax error: unexpected end of value shape"

/-- How much of a clause has been read. The fields are those completed so far, in order. -/
inductive Progress (τ : Type) where
  | start
  | question
  | colon
  | typed (name : String)
  | opened
  | var (fields : List (Field τ)) (name : String)
  | varColon (fields : List (Field τ)) (name : String)
  | field (fields : List (Field τ))
  | separator (fields : List (Field τ))
  | closed (fields : List (Field τ))
  deriving DecidableEq, Repr

namespace Progress

/-- What one more token leads to, if it has a place here. -/
def next? : Progress τ → Token → Option (Progress τ)
  | start, .question => some question
  | question, .colon => some colon
  | colon, .name name => some (typed name)
  | colon, .opening => some opened
  | opened, .closing => some (closed [])
  | opened, .name name => some (var [] name)
  | var fields name, .colon => some (varColon fields name)
  | varColon fields name, .name type => some (field (fields ++ [⟨ofText name, ofText type⟩]))
  | field fields, .semicolon => some (separator fields)
  | field fields, .closing => some (closed fields)
  | separator fields, .name name => some (var fields name)
  | _, _ => none

/-- The shape, if the clause may end here. -/
def shape? : Progress τ → Option (Shape τ)
  | question => some .unit
  | typed name => some (.ofType (ofText name) [])
  | closed fields => some (.record fields)
  | _ => none

/-- Reads the rest of a clause. -/
def run (illegal : Option (Char × Nat)) : Progress τ → List Lexeme → Except ParseError (Shape τ)
  | p, [] =>
    match illegal with
    | some (c, position) => .error (.illegal c position)
    | none =>
      match p.shape? with
      | some s => .ok s
      | none => .error .unexpectedEnd
  | p, l :: rest =>
    match p.next? l.token with
    | some q => run illegal q rest
    | none => .error (.unexpected l.token l.position)

end Progress

def parse (text : String) : Except ParseError (Shape τ) :=
  Progress.run (scan text).illegal .start (scan text).lexemes

/-- The notices that go with reading a clause. -/
def parseNotices (text : String) : List Notice :=
  .debug ("Parsing value shape: " ++ text) ::
    match (parse text : Except ParseError (Shape String)) with
    | .ok _ => []
    | .error (.illegal c position) =>
      [.debug ("Illegal character '" ++ c.toString ++ "' at position " ++ toString position),
        .debug "Parse error encountered"]
    | .error _ => [.debug "Parse error encountered"]

end Dcr.Shape
