import Dcr.Change
import Dcr.Containment.Exclusions

/-! Edits of events. -/

namespace Dcr

open FreeText (ofText orText)

variable {τ : Type} [FreeText τ]

/-- A new event as it is asked for. Without a label it is labelled with its id. -/
structure NewEvent (τ : Type) [FreeText τ] where
  value : EventValue τ
  initiators : List τ
  receivers : List τ := []
  name : τ := ofText ""
  security : τ := ofText ""
  parent : Option String := none
  label : Option τ := none
  deriving DecidableEq, Repr

namespace NewEvent

def event (n : NewEvent τ) (id : String) : Event τ where
  id := id
  label := orText n.label id
  name := n.name
  security := n.security
  value := n.value
  initiators := n.initiators
  receivers := n.receivers
  parent := n.parent

end NewEvent

namespace Choreography

/-- Adds an event under a new id. -/
def addEvent (c : Choreography τ) (n : NewEvent τ) : Logged (Choreography τ × String) := do
  let (id, ids) := c.ids.allocate .event
  Logged.tell [.advice (n.value.kind.title ++ " event added: " ++ id ++ ".")]
  let c := { c with events := c.events.insert (n.event id), ids }
  let c ← match n.parent with
    | none => pure c
    | some parent => c.syncExclusions parent
  return (c, id)

/-- Adds an event, unless nobody initiates it or its parent is no container. -/
def createEvent (c : Choreography τ) (n : NewEvent τ) : Logged (Choreography τ × Verdict String) :=
  if n.initiators.isEmpty then refuse c .noInitiators "Cannot add event"
  else match n.parent.filter fun parent => !c.containers.contains parent with
    | some parent => refuse c .notAContainer ("Invalid parent " ++ parent ++ " for new event")
    | none => do
      let (c, id) ← c.addEvent n
      return (c, .done id)

/-- Replaces the content of an event, unless nobody initiates it then. -/
def updateEvent (c : Choreography τ) (id : String) (content : EventContent τ) :
    Logged (Choreography τ × Verdict Unit) :=
  if content.initiators.isEmpty then refuse c .noInitiators ("Cannot update " ++ id)
  else
    ⟨({ c with events := c.events.modify id fun e => e.withContent content }, .done ()),
      [.advice ("Event " ++ id ++ " updated.")]⟩

end Choreography

end Dcr
