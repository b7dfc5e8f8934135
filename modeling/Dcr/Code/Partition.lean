import Dcr.Choreography

/-! The elements of a choreography by the container right around them. A relation belongs to its scope
if it has one and otherwise with its source. -/

namespace Dcr

variable {τ : Type} [FreeText τ]

/-- The elements right inside one container, or at the top level. -/
structure Part (τ : Type) [FreeText τ] where
  events : List (Event τ) := []
  relations : List (Relation τ) := []
  nests : List (Container τ) := []
  subprocesses : List (Container τ) := []
  deriving DecidableEq, Repr

namespace Choreography

/-- The name of the top level. -/
def topLevel : String := "global"

/-- Where something with a parent is; no parent and an empty one both stand for the top level. -/
def home (parent : Option String) : String := (parent.filter fun p => p != "").getD topLevel

/-- Where a relation is, unless its source is looked for and not there. -/
def relationHome (c : Choreography τ) (r : Relation τ) : Except String String :=
  match r.scope.filter fun s => s != "" with
  | some scope => .ok scope
  | none =>
    match c.node? r.source with
    | some node => .ok (home node.parent)
    | none => .error r.source

/-- The top level and then the containers. -/
def scopes (c : Choreography τ) : List String := topLevel :: c.containers.keys

/-- A scope that is not there, if an element is said to be in one. -/
def absent? (c : Choreography τ) (scope : String) : Option String :=
  if c.scopes.contains scope then none else some scope

/-- The first id that a partition looks for in vain. -/
def misplaced? (c : Choreography τ) : Option String :=
  (c.containers.entries.findSome? fun x => c.absent? (home x.parent))
    <|> (c.events.entries.findSome? fun e => c.absent? (home e.parent))
    <|> (c.relations.entries.findSome? fun r =>
      match c.relationHome r with
      | .ok scope => c.absent? scope
      | .error source => some source)

/-- Whether a relation is in a scope. -/
def liesIn (c : Choreography τ) (r : Relation τ) (scope : String) : Bool :=
  match c.relationHome r with
  | .ok here => here == scope
  | .error _ => false

def part (c : Choreography τ) (scope : String) : Part τ :=
  let inside := c.containers.entries.filter fun x => home x.parent == scope
  { events := c.events.entries.filter fun e => home e.parent == scope
    relations := c.relations.entries.filter fun r => c.liesIn r scope
    nests := inside.filter fun x => !x.isSubprocess
    subprocesses := inside.filter Container.isSubprocess }

/-- Every scope with its part, or the id that is looked for in vain. -/
def partition (c : Choreography τ) : Except String (List (String × Part τ)) :=
  match c.misplaced? with
  | some id => .error id
  | none => .ok (c.scopes.map fun scope => (scope, c.part scope))

end Choreography

end Dcr
