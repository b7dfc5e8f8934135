import Dcr.Text.Digit

/-! The words of a command line: switches, which begin with a dash, and plain words. A switch may be
abbreviated and may carry its value; switches of one letter may share a dash. -/

namespace Dcr.CommandLine

/-- A switch with its long name and its letter; one without a letter has none but the long name. -/
structure Switch where
  long : String
  letter : Option Char
  takesValue : Bool
  deriving DecidableEq, Repr

/-- A switch as it is written: by its letter or by its long name, perhaps with a text attached. -/
structure Use where
  switch : Switch
  byLetter : Bool
  attached : Option (List Char)
  deriving DecidableEq, Repr

inductive Word where
  | plain (text : String)
  | separator
  | switch (use : Use)
  | unknown
  | ambiguous
  deriving DecidableEq, Repr

def separatorText : String := "--"

def Word.text : Word → String
  | plain text => text
  | _ => separatorText

namespace Switch

/-- The use of a switch that a name stands for when it is spelled out. -/
def spelled? (switches : List Switch) (name : List Char) (attached : Option (List Char)) :
    Option Use :=
  switches.findSome? fun s =>
    if name = '-' :: '-' :: s.long.toList then some ⟨s, false, attached⟩
    else if s.letter.any fun c => name = ['-', c] then some ⟨s, true, attached⟩
    else none

/-- The parts of a text before and after the first equals sign. -/
def cutAtEquals (cs : List Char) : List Char × Option (List Char) :=
  (cs.takeWhile (· != '='), (cs.dropWhile (· != '=')).tail?)

/-- The long names that begin with a text. -/
def completions (switches : List Switch) (start : List Char) : List Switch :=
  switches.filter fun s => start.isPrefixOf s.long.toList

def allDigits (cs : List Char) : Bool :=
  !cs.isEmpty && cs.all fun c => (Text.decimalValue? c).isSome

/-- Whether a text is a number below zero, which may end in a line break. -/
def isNegativeNumber (cs : List Char) : Bool :=
  let number := if cs.getLast? = some '\n' then cs.dropLast else cs
  let whole := (number.drop 1).takeWhile fun c => c != '.'
  match number.drop (whole.length + 1) with
  | [] => allDigits whole
  | _ :: places => (whole.isEmpty || allDigits whole) && allDigits places

/-- What a text that begins with a dash and spells out no name is. A number below zero is a plain
word, and so is what has a space in it. -/
def guess (switches : List Switch) (cs : List Char) : Word :=
  match cs with
  | '-' :: '-' :: rest =>
    let (start, value) := cutAtEquals rest
    match completions switches start with
    | [s] => .switch ⟨s, false, value⟩
    | _ :: _ :: _ => .ambiguous
    | [] => if cs.contains ' ' then .plain (String.ofList cs) else .unknown
  | '-' :: c :: rest =>
    match switches.find? fun s => s.letter = some c with
    | some s => .switch ⟨s, true, some rest⟩
    | none =>
      if isNegativeNumber cs || cs.contains ' ' then .plain (String.ofList cs) else .unknown
  | _ => .plain (String.ofList cs)

def word (switches : List Switch) (text : String) : Word :=
  let cs := text.toList
  if cs.head? != some '-' || cs == ['-'] then .plain text
  else match spelled? switches cs none with
    | some use => .switch use
    | none =>
      match cutAtEquals cs with
      | (name, some value) =>
        match spelled? switches name (some value) with
        | some use => .switch use
        | none => guess switches cs
      | (_, none) => guess switches cs

/-- The words of a command line; after the first separator all of them are plain. -/
def words (switches : List Switch) : List String → List Word
  | [] => []
  | text :: rest =>
    if text = separatorText then .separator :: rest.map Word.plain
    else word switches text :: words switches rest

end Switch

namespace Use

/-- Reads a text attached to a switch: its value if it takes one, and otherwise further letters that
share the dash of its own. Nothing else may be attached. The answer has the switches, each with its
value if that is there. -/
def spread (switches : List Switch) (byLetter : Bool) (s : Switch) :
    List Char → Option (List (Switch × Option String))
  | [] => if s.takesValue then some [(s, some "")] else none
  | c :: rest =>
    if s.takesValue then some [(s, some (String.ofList (c :: rest)))]
    else if !byLetter then none
    else match switches.find? fun t => t.letter = some c with
      | none => none
      | some t =>
        if rest.isEmpty then some [(s, none), (t, none)]
        else ((s, none) :: ·) <$> spread switches true t rest

/-- The switches that a word uses, each with its value if one is attached. -/
def expand (switches : List Switch) (use : Use) : Option (List (Switch × Option String)) :=
  match use.attached with
  | none => some [(use.switch, none)]
  | some text => spread switches use.byLetter use.switch text

end Use

end Dcr.CommandLine
