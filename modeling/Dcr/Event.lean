import Dcr.Marking
import Dcr.Shape
import Dcr.Store

/-! Events: interactions that receive a value, and computations that evaluate an expression. -/

namespace Dcr

open FreeText (ofText shown orText)

variable {τ : Type} [FreeText τ]

/-- The two kinds of event. -/
inductive EventKind where
  | input
  | computation
  deriving DecidableEq, Repr

namespace EventKind

def code : EventKind → String
  | input => "i"
  | computation => "c"

def ofCode? : String → Option EventKind
  | "i" => some input
  | "c" => some computation
  | _ => none

def title : EventKind → String
  | input => "Input"
  | computation => "Computation"

end EventKind

/-- What an event receives or computes. -/
inductive EventValue (τ : Type) [FreeText τ] where
  | input (shape : Shape τ)
  | computation (expression : τ)
  deriving DecidableEq, Repr

namespace EventValue

def kind : EventValue τ → EventKind
  | input _ => .input
  | computation _ => .computation

def shape? : EventValue τ → Option (Shape τ)
  | input shape => some shape
  | computation _ => none

def expression? : EventValue τ → Option τ
  | input _ => none
  | computation expression => some expression

/-- The value of an event of a kind: an input receives the unit unless told otherwise, and a
computation has the empty expression. What belongs to the other kind is left out. -/
def ofKind (kind : EventKind) (shape : Option (Shape τ)) (expression : Option τ) :
    EventValue τ :=
  match kind with
  | .input => .input (shape.getD .unit)
  | .computation => .computation (orText expression "")

/-- The free texts in a value. -/
def freeTexts : EventValue τ → List τ
  | input shape => shape.freeTexts
  | computation expression => [expression]

/-- The value as an event line shows it. -/
def render : EventValue τ → String
  | input shape => shape.render
  | computation expression => shown expression

end EventValue

/-- All that an event line tells about an event. -/
structure EventContent (τ : Type) [FreeText τ] where
  label : τ
  name : τ := ofText ""
  security : τ := ofText ""
  value : EventValue τ := .input .unit
  initiators : List τ := []
  receivers : List τ := []
  included : Bool := true
  pending : Bool := false
  deriving DecidableEq, Repr

/-- An event under its id, inside the container `parent` if it has one. -/
structure Event (τ : Type) [FreeText τ] where
  id : String
  label : τ
  name : τ := ofText ""
  security : τ := ofText ""
  value : EventValue τ := .input .unit
  initiators : List τ := []
  receivers : List τ := []
  marking : Marking := {}
  parent : Option String := none
  deriving DecidableEq, Repr

instance : Keyed (Event τ) := ⟨Event.id⟩

namespace Event

def content (e : Event τ) : EventContent τ where
  label := e.label
  name := e.name
  security := e.security
  value := e.value
  initiators := e.initiators
  receivers := e.receivers
  included := e.marking.included
  pending := e.marking.pending

/-- The event with new content; its id, its parent and the state of a run stay. -/
def withContent (e : Event τ) (c : EventContent τ) : Event τ where
  id := e.id
  label := c.label
  name := c.name
  security := c.security
  value := c.value
  initiators := c.initiators
  receivers := c.receivers
  marking := { e.marking with included := c.included, pending := c.pending }
  parent := e.parent

/-- A new event with some content. -/
def ofContent (id : String) (parent : Option String) (c : EventContent τ) : Event τ :=
  { id, label := ofText "", parent : Event τ }.withContent c

/-- The free texts of an event. -/
def freeTexts (e : Event τ) : List τ :=
  [e.label, e.name, e.security] ++ e.value.freeTexts ++ e.initiators ++ e.receivers

def render (e : Event τ) : String :=
  e.id ++ "(" ++ shown e.label ++ ":" ++ shown e.name ++ ")" ++ e.marking.render

end Event

end Dcr
