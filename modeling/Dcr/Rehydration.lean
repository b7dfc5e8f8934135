import Dcr.EventLine.Reading
import Dcr.Text.Lines

/-! Rehydration: reading the event lines of edited code back. The lines are matched with the event
lines of the last generation by position, and an event that has several keeps the first. -/

namespace Dcr.Rehydration

variable {τ : Type} [FreeText τ]

/-- The contents read for events, in the order of their first lines. -/
abbrev Records (τ : Type) [FreeText τ] := List (String × EventContent τ)

/-- The lines of a text that are meant as event lines. -/
def candidates (text : String) : List (List Char) :=
  (Text.lines text.toList).filter EventLine.isCandidate

/-- Reads lines for the ids beside them, after some records. -/
def readFrom (records : Records τ) :
    List (String × List Char) → Logged (Except EventLine.ParseError (Records τ))
  | [] => pure (.ok records)
  | (id, line) :: rest => do
    Logged.tell (EventLine.parseNotices line)
    match (EventLine.parse line : Except EventLine.ParseError (EventContent τ)) with
    | .error e => return .error e
    | .ok content =>
      if records.any fun record => record.1 == id then do
        Logged.tell [.debug ("    " ++ id ++ " repeated, kept first line")]
        readFrom records rest
      else do
        Logged.tell [.debug ("    " ++ id ++ " <- " ++ String.ofList (Text.trim line))]
        readFrom (records ++ [(id, content)]) rest

/-- Warns when the numbers of lines differ. -/
def countNotices (found generated : Nat) : List Notice :=
  if found = generated then []
  else [.warning ("Rehydration found " ++ toString found ++ " event lines for "
    ++ toString generated ++ " generated ones; content is matched by position")]

/-- Reads edited text against the event lines of a generation. -/
def read (text : String) (rendered : List (String × String)) :
    Logged (Except EventLine.ParseError (Records τ)) := do
  let lines := candidates text
  Logged.tell (countNotices lines.length rendered.length)
  readFrom [] ((rendered.map Prod.fst).zip lines)

end Dcr.Rehydration
