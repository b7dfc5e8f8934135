import Dcr.Choreography
import Dcr.Text.Column

/-! Tables of the markings of events, in columns of fixed width. -/

namespace Dcr.MarkingTable

variable {τ : Type} [FreeText τ]

/-- One row: the id, the label, and a column for each flag. -/
def row (id label included pending executable executed : String) : String :=
  Text.padRight 8 id ++ label ++ Text.padRight 6 included ++ Text.padRight 6 pending
    ++ Text.padRight 6 executable ++ Text.padRight 6 executed

def header : String := row "event" (Text.padRight 16 "label") "incl" "pend" "exec" "done"

/-- A flag that is set shows as a cross. -/
def cross (flag : Bool) : String := if flag then "x" else ""

def eventRow (e : Event τ) : Except Misfit String := do
  return row e.id (← FreeText.column 16 e.label) (cross e.marking.included) (cross e.marking.pending)
    (cross e.marking.executable) (cross e.marking.executed)

/-- The header, a rule as long as it, and a row for each event. -/
def render (c : Choreography τ) : Except Misfit String := do
  let rows ← c.events.entries.mapM eventRow
  return "\n".intercalate (header :: String.ofList (List.replicate header.length '-') :: rows)

end Dcr.MarkingTable
