/-! Lines of a text. A line ends at a line feed, a carriage return (one boundary together with a
line feed after it), a vertical tab, a form feed, one of the separators U+001C to U+001E, a next-line
character, or a line or paragraph separator. -/

namespace Dcr.Text

/-- The characters that end a line. -/
def lineEnds : List Nat := [0xA, 0xB, 0xC, 0xD, 0x1C, 0x1D, 0x1E, 0x85, 0x2028, 0x2029]

def isLineEnd (c : Char) : Bool := lineEnds.contains c.toNat

/-- The lines of a text, without their boundaries; `line` is what the first one has so far, in
reverse. Nothing follows the last boundary if the text ends there. -/
def linesFrom (line : List Char) : List Char → List (List Char)
  | [] => if line.isEmpty then [] else [line.reverse]
  | '\r' :: '\n' :: rest => line.reverse :: linesFrom [] rest
  | c :: rest => if isLineEnd c then line.reverse :: linesFrom [] rest else linesFrom (c :: line) rest

def lines (cs : List Char) : List (List Char) := linesFrom [] cs

/-- A text with every carriage return, alone or before a line feed, read as one line feed. -/
def unifyNewlines : List Char → List Char
  | [] => []
  | '\r' :: '\n' :: rest => '\n' :: unifyNewlines rest
  | c :: rest => (if c = '\r' then '\n' else c) :: unifyNewlines rest

end Dcr.Text
