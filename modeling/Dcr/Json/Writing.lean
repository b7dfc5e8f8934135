import Dcr.Json
import Dcr.Text.Hex

/-! Writing JSON text: on one line, or indented by two spaces a level. Everything but printable ASCII
is escaped, by UTF-16 units where no short form exists. -/

namespace Dcr.Json

/-- A UTF-16 unit escaped. -/
def unitEscape (n : Nat) : List Char := '\\' :: 'u' :: Text.hexCode 4 n

def escapeChar (c : Char) : List Char :=
  if c = '"' then ['\\', '"']
  else if c = '\\' then ['\\', '\\']
  else if c = '\n' then ['\\', 'n']
  else if c = '\r' then ['\\', 'r']
  else if c = '\t' then ['\\', 't']
  else if c = '\x08' then ['\\', 'b']
  else if c = '\x0c' then ['\\', 'f']
  else if 0x20 ≤ c.toNat ∧ c.toNat ≤ 0x7E then [c]
  else if c.toNat < 0x10000 then unitEscape c.toNat
  else
    unitEscape (0xD800 + (c.toNat - 0x10000) / 1024)
      ++ unitEscape (0xDC00 + (c.toNat - 0x10000) % 1024)

def writeText (s : String) : String :=
  String.ofList ('"' :: s.toList.flatMap escapeChar ++ ['"'])

/-- A number of double precision; those that are not finite are words. -/
def realText (x : Double) : String :=
  match x with
  | .undefined => "NaN"
  | .infinite false => "Infinity"
  | .infinite true => "-Infinity"
  | x => x.render

mutual

/-- A value on one line. -/
def compact : Json → String
  | null => "null"
  | bool true => "true"
  | bool false => "false"
  | int n => toString n
  | real x => realText x
  | str s => writeText s
  | arr items => "[" ++ ", ".intercalate (compactItems items) ++ "]"
  | obj members => "\x7b" ++ ", ".intercalate (compactMembers members) ++ "\x7d"

def compactItems : List Json → List String
  | [] => []
  | j :: rest => j.compact :: compactItems rest

def compactMembers : List (String × Json) → List String
  | [] => []
  | (key, j) :: rest => (writeText key ++ ": " ++ j.compact) :: compactMembers rest

end

/-- The parts of a list or object between its brackets, each on a line of its own. -/
def block (opening closing indent : String) (parts : List String) : String :=
  if parts.isEmpty then opening ++ closing
  else
    opening ++ "\n" ++ indent ++ "  " ++ (",\n" ++ indent ++ "  ").intercalate parts ++ "\n" ++ indent
      ++ closing

mutual

/-- A value over several lines, of which all but the first begin with the indentation. -/
def indentedBy (indent : String) : Json → String
  | null => "null"
  | bool true => "true"
  | bool false => "false"
  | int n => toString n
  | real x => realText x
  | str s => writeText s
  | arr items => block "[" "]" indent (indentedItems (indent ++ "  ") items)
  | obj members => block "\x7b" "\x7d" indent (indentedMembers (indent ++ "  ") members)

def indentedItems (indent : String) : List Json → List String
  | [] => []
  | j :: rest => j.indentedBy indent :: indentedItems indent rest

def indentedMembers (indent : String) : List (String × Json) → List String
  | [] => []
  | (key, j) :: rest =>
    (writeText key ++ ": " ++ j.indentedBy indent) :: indentedMembers indent rest

end

/-- A value over several lines. -/
def indented (j : Json) : String := j.indentedBy ""

end Dcr.Json
