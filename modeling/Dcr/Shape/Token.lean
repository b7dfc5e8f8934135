/-! Tokens of a value clause. Spaces and tabs separate; any other character that begins no token is
illegal and ends the scan. -/

namespace Dcr.Shape

inductive Token where
  | question
  | colon
  | opening
  | closing
  | semicolon
  | name (text : String)
  deriving DecidableEq, Repr

namespace Token

def text : Token → String
  | question => "?"
  | colon => ":"
  | opening => "\x7b"
  | closing => "\x7d"
  | semicolon => ";"
  | name text => text

/-- The name of a token's class in messages. -/
def className : Token → String
  | question => "QUESTION"
  | colon => "COLON"
  | opening => "LBRACE"
  | closing => "RBRACE"
  | semicolon => "SEMI"
  | name _ => "NAME"

def punctuation? (c : Char) : Option Token :=
  if c = '?' then some question
  else if c = ':' then some colon
  else if c = '\x7b' then some opening
  else if c = '\x7d' then some closing
  else if c = ';' then some semicolon
  else none

/-- A name begins with an ASCII letter or an underscore. -/
def beginsName (c : Char) : Bool := c.isAlpha || c == '_'

/-- A name goes on with ASCII letters, digits and underscores. -/
def continuesName (c : Char) : Bool := c.isAlphanum || c == '_'

end Token

/-- A token and the position of its first character. -/
structure Lexeme where
  token : Token
  position : Nat
  deriving DecidableEq, Repr

/-- The lexemes of a text, up to its first illegal character if it has one. -/
structure Scan where
  lexemes : List Lexeme
  illegal : Option (Char × Nat)
  deriving DecidableEq, Repr

def Scan.cons (l : Lexeme) (s : Scan) : Scan := { s with lexemes := l :: s.lexemes }

/-- Scans a text whose first character has the given position. -/
def scanFrom (position : Nat) : List Char → Scan
  | [] => ⟨[], none⟩
  | c :: rest =>
    if c = ' ' ∨ c = '\t' then scanFrom (position + 1) rest
    else match Token.punctuation? c with
      | some token => (scanFrom (position + 1) rest).cons ⟨token, position⟩
      | none =>
        if Token.beginsName c then
          let word := rest.takeWhile Token.continuesName
          (scanFrom (position + 1 + word.length) (rest.dropWhile Token.continuesName)).cons
            ⟨.name (String.ofList (c :: word)), position⟩
        else ⟨[], some (c, position)⟩
termination_by cs => cs.length
decreasing_by
  · simp
  · simp
  · exact Nat.lt_succ_of_le (List.dropWhile_suffix _).length_le

def scan (text : String) : Scan := scanFrom 0 text.toList

end Dcr.Shape
