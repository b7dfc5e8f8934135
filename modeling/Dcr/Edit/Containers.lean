import Dcr.Containment.Conversion
import Dcr.Containment.Deletion
import Dcr.Edit.Events

/-! Edits of containers and of containment. -/

namespace Dcr

open FreeText (orText)

variable {τ : Type} [FreeText τ]

/-- The marking of an event after a container has been given one: included and pending follow if the
event is right inside it. -/
def Event.markingInside (e : Event τ) (id : String) (m : Marking) : Marking :=
  if e.parent = some id then { e.marking with included := m.included, pending := m.pending }
  else e.marking

/-- A new container as it is asked for, around nodes that are there already. -/
structure NewContainer (τ : Type) where
  form : ContainerForm
  children : List String
  parent : Option String := none
  label : Option τ := none
  deriving DecidableEq, Repr

namespace NewContainer

def kind (n : NewContainer τ) : ContainerKind := n.form.kind

/-- The nodes to wrap, each one once. -/
def wrapped (n : NewContainer τ) : List String := n.children.eraseDups

def container (n : NewContainer τ) (id : String) : Container τ where
  id := id
  label := orText n.label id
  form := n.form
  parent := n.parent

end NewContainer

namespace Choreography

/-- Why a container for some nodes cannot go into a parent, if it cannot. -/
def wrapRejection? (c : Choreography τ) (children : List String) (parent : Option String) :
    Option Rejection :=
  match parent with
  | none => none
  | some id =>
    if id ∈ children then some .selfParent
    else if !c.containers.contains id then some .notAContainer
    else children.findSome? fun child => c.parentRejection? child parent

/-- Moves nodes into a container, up to the first one that is not there any more. -/
def adopt (c : Choreography τ) (container : String) :
    List String → Logged (Choreography τ × Verdict Unit)
  | [] => pure (c, .done ())
  | child :: rest => do
    let (c, verdict) ← c.reparent child (some container)
    match verdict with
    | .stopped o => return (c, .stopped o)
    | _ => c.adopt container rest

/-- Puts a new container around nodes. -/
def wrap (c : Choreography τ) (n : NewContainer τ) : Logged (Choreography τ × Verdict String) := do
  let (id, ids) := c.ids.allocate n.kind.node
  Logged.tell [.advice (n.kind.title ++ " added: " ++ id ++ ".")]
  let c := { c with containers := c.containers.insert (n.container id), ids }
  let (c, verdict) ← c.adopt id n.wrapped
  match verdict with
  | .stopped o => return (c, .stopped o)
  | _ =>
    let c ← c.syncExclusions id
    let c ← match n.parent with
      | none => pure c
      | some parent => c.syncExclusions parent
    return (c, .done id)

/-- Puts a new container around nodes, unless there are none or the parent does not suit. -/
def createContainer (c : Choreography τ) (n : NewContainer τ) :
    Logged (Choreography τ × Verdict String) :=
  match n.wrapped.find? fun child => !c.hasNode child with
  | some child => pure (c, .stopped (.missing child))
  | none =>
    if n.wrapped.isEmpty then refuse c .emptyContainer ("Cannot add " ++ n.kind.name)
    else match c.wrapRejection? n.wrapped n.parent with
      | some reason =>
        refuse c reason ("Invalid parent " ++ n.parent.getD "" ++ " for new " ++ n.kind.name)
      | none => c.wrap n

/-- Gives a container a label or a marking. Included and pending also go to the events right inside
it. -/
def updateContainer (c : Choreography τ) (x : Container τ) (label : Option τ)
    (marking : Option Marking) : Logged (Choreography τ × Verdict Unit) :=
  let labelled := match label with
    | none => c
    | some label => { c with containers := c.containers.modify x.id fun x => { x with label } }
  let marked := match marking with
    | none => labelled
    | some m =>
      { labelled with
        containers := labelled.containers.modify x.id fun x => { x with marking := m.persistent }
        events := labelled.events.update fun e => { e with marking := e.markingInside x.id m } }
  ⟨(marked, .done ()), [.advice (x.kind.title ++ " " ++ x.id ++ " updated.")]⟩

end Choreography

end Dcr
