import Dcr.Container
import Dcr.Event
import Dcr.IdPool
import Dcr.Relation
import Dcr.Role

/-! Choreographies: events, containers, relations and roles, the security lattice and a
documentation text, and the pools that new ids come from. -/

namespace Dcr

open FreeText (ofText)

variable {τ : Type} [FreeText τ]

/-- The kinds of node; each has a pool of ids to itself. -/
inductive NodeKind where
  | event
  | nest
  | subprocess
  deriving DecidableEq, Repr

def ContainerKind.node : ContainerKind → NodeKind
  | nest => .nest
  | subprocess => .subprocess

/-- One pool of ids for each kind of node. -/
structure IdPools where
  event : IdPool := { stem := "e" }
  nest : IdPool := { stem := "n" }
  subprocess : IdPool := { stem := "s" }
  deriving DecidableEq, Repr

namespace IdPools

def get (p : IdPools) : NodeKind → IdPool
  | .event => p.event
  | .nest => p.nest
  | .subprocess => p.subprocess

def set (p : IdPools) (kind : NodeKind) (pool : IdPool) : IdPools :=
  match kind with
  | .event => { p with event := pool }
  | .nest => { p with nest := pool }
  | .subprocess => { p with subprocess := pool }

/-- A new id of a kind, and the pools without it. -/
def allocate (p : IdPools) (kind : NodeKind) : String × IdPools :=
  let (n, pool) := (p.get kind).allocate
  ((p.get kind).ident n, p.set kind pool)

/-- Takes an id of a kind back; a text that is no id of the kind changes nothing. -/
def release (p : IdPools) (kind : NodeKind) (id : String) : IdPools :=
  match (p.get kind).value? id with
  | some n => p.set kind ((p.get kind).release n)
  | none => p

end IdPools

/-- An event or a container. -/
inductive Node (τ : Type) [FreeText τ] where
  | event (e : Event τ)
  | container (c : Container τ)
  deriving DecidableEq, Repr

namespace Node

def id : Node τ → String
  | event e => e.id
  | container c => c.id

def label : Node τ → τ
  | event e => e.label
  | container c => c.label

def parent : Node τ → Option String
  | event e => e.parent
  | container c => c.parent

def marking : Node τ → Marking
  | event e => e.marking
  | container c => c.marking

def kind : Node τ → NodeKind
  | event _ => .event
  | container c => c.kind.node

def render : Node τ → String
  | event e => e.render
  | container c => c.render

end Node

/-- A choreography with free texts of a type. -/
structure Choreography (τ : Type) [FreeText τ] where
  events : Store (Event τ) := ∅
  containers : Store (Container τ) := ∅
  relations : Store (Relation τ) := ∅
  roles : List (Role τ) := []
  security : τ := ofText ""
  documentation : τ := ofText ""
  ids : IdPools := {}
  deriving DecidableEq

namespace Choreography

/-- The containers and then the events, each in the order of their store. -/
def nodes (c : Choreography τ) : List (Node τ) :=
  c.containers.entries.map Node.container ++ c.events.entries.map Node.event

/-- The node with an id; an event comes before a container. -/
def node? (c : Choreography τ) (id : String) : Option (Node τ) :=
  match c.events.get? id with
  | some e => some (.event e)
  | none => (c.containers.get? id).map .container

def hasNode (c : Choreography τ) (id : String) : Bool := (c.node? id).isSome

/-- The number of nodes. -/
def size (c : Choreography τ) : Nat := c.events.size + c.containers.size

/-- The ids of the nodes right inside a container. -/
def children (c : Choreography τ) (id : String) : List String :=
  (c.nodes.filter fun n => n.parent == some id).map Node.id

def role? (c : Choreography τ) (name : String) : Option (Role τ) :=
  c.roles.find? fun r => r.isNamed name

/-- The relation of a type between two nodes, the first one if there are several. -/
def relationBetween? (c : Choreography τ) (source target : String) (type : RelationType) :
    Option (Relation τ) :=
  c.relations.entries.find? fun r => r.joins source target type

def outgoing (c : Choreography τ) (id : String) : List (Relation τ) :=
  c.relations.entries.filter fun r => r.source == id

def incoming (c : Choreography τ) (id : String) : List (Relation τ) :=
  c.relations.entries.filter fun r => r.target == id

/-- The relations that belong to a container. -/
def scopedTo (c : Choreography τ) (id : String) : List (Relation τ) :=
  c.relations.entries.filter fun r => r.scope == some id

/-- All free texts of a choreography. -/
def freeTexts (c : Choreography τ) : List τ :=
  c.events.entries.flatMap Event.freeTexts ++ c.containers.entries.map Container.label
    ++ c.relations.entries.map Relation.guard ++ c.roles.flatMap Role.freeTexts
    ++ [c.security, c.documentation]

/-- The choreography with the parent of one node set, and nothing else. -/
def setParent (c : Choreography τ) (id : String) (parent : Option String) : Choreography τ :=
  if c.events.contains id then { c with events := c.events.modify id fun e => { e with parent } }
  else { c with containers := c.containers.modify id fun x => { x with parent } }

/-- The choreography with the marking of one node changed. -/
def updateMarking (c : Choreography τ) (id : String) (f : Marking → Marking) :
    Choreography τ :=
  if c.events.contains id then
    { c with events := c.events.modify id fun e => { e with marking := f e.marking } }
  else
    { c with containers := c.containers.modify id fun x => { x with marking := f x.marking } }

end Choreography

end Dcr
