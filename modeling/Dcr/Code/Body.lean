import Dcr.Code.Partition

/-! Process bodies. A nest is no process of its own: its elements belong to the process around it. -/

namespace Dcr

variable {τ : Type} [FreeText τ]

/-- The events and relations of a process. -/
structure Body (τ : Type) [FreeText τ] where
  events : List (Event τ) := []
  relations : List (Relation τ) := []
  deriving DecidableEq, Repr

namespace Body

def append (a b : Body τ) : Body τ := ⟨a.events ++ b.events, a.relations ++ b.relations⟩

instance : Append (Body τ) := ⟨append⟩

end Body

namespace Choreography

/-- The body of a scope with the nests inside it, so many levels deep. -/
def bodyWithin (c : Choreography τ) : Nat → String → Body τ
  | 0, _ => {}
  | depth + 1, scope =>
    let part := c.part scope
    part.nests.foldl (fun body nest => body ++ c.bodyWithin depth nest.id)
      { events := part.events, relations := part.relations }

/-- The body of a scope. Each level below it is a further container, so there are at most as many
levels as containers. -/
def body (c : Choreography τ) (scope : String) : Body τ := c.bodyWithin (c.containers.size + 1) scope

/-- How many nests are inside one another in a scope, counted so many levels deep. -/
def nestingWithin (c : Choreography τ) : Nat → String → Nat
  | 0, _ => 0
  | depth + 1, scope =>
    (c.part scope).nests.foldl (fun deepest nest => max deepest (c.nestingWithin depth nest.id + 1)) 0

end Choreography

end Dcr
