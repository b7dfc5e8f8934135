import Dcr.Event

/-! Event lines, the form in which generated code shows an event. -/

namespace Dcr.EventLine

open FreeText (shown joined)

variable {τ : Type} [FreeText τ]

/-- The initiators and, after an arrow, the receivers if there are any. -/
def renderParties (initiators receivers : List τ) : Except Misfit String := do
  let initiators ← joined ", " initiators
  if receivers.isEmpty then return initiators
  else return initiators ++ " -> " ++ (← joined ", " receivers)

/-- A percent sign for an excluded event and an exclamation mark for a pending one, then label and
name, security label, value and parties. The texts stand as they are, line breaks included; parties
that are no texts cannot stand there. -/
def render (c : EventContent τ) : Except Misfit String := do
  let parties ← renderParties c.initiators c.receivers
  return (if c.included then "" else "%") ++ (if c.pending then "!" else "")
    ++ "(" ++ shown c.label ++ ":" ++ shown c.name ++ ") (" ++ shown c.security ++ ") ["
    ++ c.value.render ++ "] [" ++ parties ++ "]"

end Dcr.EventLine
