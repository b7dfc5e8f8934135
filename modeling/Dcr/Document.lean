import Dcr.Choreography

/-! Choreography documents: a choreography as it is stored, without what can be computed again. What
refers to a node may be any value until it is looked up. -/

namespace Dcr

open FreeText (ofText holds orText)

variable {τ : Type} [FreeText τ]

structure EventEntry (τ : Type) [FreeText τ] where
  id : String
  parent : Option Json
  content : EventContent τ
  deriving DecidableEq

structure ContainerEntry (τ : Type) where
  id : String
  parent : Option Json
  label : τ
  form : ContainerForm
  included : Bool
  pending : Bool
  deriving DecidableEq

/-- A node. One whose id is no text can stand in a document but cannot be loaded. -/
inductive NodeEntry (τ : Type) [FreeText τ] where
  | event (e : EventEntry τ)
  | container (x : ContainerEntry τ)
  | nameless (isEvent : Bool)
  deriving DecidableEq

structure EdgeEntry (τ : Type) where
  id : String
  source : Json
  target : Json
  type : RelationType
  guard : τ
  scope : Option Json
  hidden : Bool
  deriving DecidableEq

structure Document (τ : Type) [FreeText τ] where
  nodes : List (NodeEntry τ)
  edges : List (EdgeEntry τ)
  security : τ
  documentation : τ
  roles : List (Role τ)
  deriving DecidableEq

instance : Keyed (EventEntry τ) := ⟨EventEntry.id⟩

instance : Keyed (ContainerEntry τ) := ⟨ContainerEntry.id⟩

instance : Keyed (EdgeEntry τ) := ⟨EdgeEntry.id⟩

/-- A reference as it is stored; an empty one is the same as none. -/
def reference (id : Option String) : Option Json := (id.filter fun id => id != "").map .str

namespace EventEntry

def ofEvent (e : Event τ) : EventEntry τ := ⟨e.id, reference e.parent, e.content⟩

/-- The event of an entry inside a container. Without a label it is labelled with its id. -/
def event (e : EventEntry τ) (parent : Option String) : Event τ :=
  .ofContent e.id parent { e.content with label := orText (some e.content.label) e.id }

end EventEntry

namespace ContainerEntry

def ofContainer (x : Container τ) : ContainerEntry τ where
  id := x.id
  parent := reference x.parent
  label := x.label
  form := x.form
  included := x.marking.included
  pending := x.marking.pending

/-- The container of an entry inside another one. Without a label it is labelled with its id. -/
def container (x : ContainerEntry τ) (parent : Option String) : Container τ where
  id := x.id
  label := orText (some x.label) x.id
  form := x.form
  marking := { included := x.included, pending := x.pending }
  parent := parent

end ContainerEntry

namespace NodeEntry

def event? : NodeEntry τ → Option (EventEntry τ)
  | event e => some e
  | _ => none

def container? : NodeEntry τ → Option (ContainerEntry τ)
  | container x => some x
  | _ => none

def isEvent : NodeEntry τ → Bool
  | event _ => true
  | container _ => false
  | nameless isEvent => isEvent

end NodeEntry

namespace EdgeEntry

/-- The edge of a relation; a guard that says nothing is empty. -/
def ofRelation (r : Relation τ) : EdgeEntry τ where
  id := r.id
  source := .str r.source
  target := .str r.target
  type := r.type
  guard := if holds r.guard then r.guard else ofText ""
  scope := reference r.scope
  hidden := r.hidden

/-- The relation of an edge between two nodes; its id tells whether it was generated. -/
def relation (e : EdgeEntry τ) (source target : String) (scope : Option String) : Relation τ where
  id := e.id
  source := source
  target := target
  type := e.type
  guard := e.guard
  scope := scope
  hidden := e.hidden
  generated := Relation.isGeneratedId e.id

end EdgeEntry

/-- The document of a choreography: containers before events, each store in its order. -/
def Choreography.document (c : Choreography τ) : Document τ where
  nodes := c.containers.entries.map (fun x => .container (.ofContainer x))
    ++ c.events.entries.map (fun e => .event (.ofEvent e))
  edges := c.relations.entries.map .ofRelation
  security := c.security
  documentation := c.documentation
  roles := c.roles

end Dcr
