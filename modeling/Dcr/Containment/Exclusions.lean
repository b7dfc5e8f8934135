import Dcr.Choreography
import Dcr.Log

/-! The exclusions of choices. A choice owns one hidden exclusion for each ordered pair of its
children and no other relation; any other container owns none. An exclusion that already joins a
pair is adopted, and goes back to being a plain one when the pair has no use for it; those made for
the choice are taken away instead. -/

namespace Dcr.Choreography

variable {τ : Type} [FreeText τ]

/-- The children between which a container owns exclusions. -/
def rivals (c : Choreography τ) (id : String) : List String :=
  match c.containers.get? id with
  | some x => if x.isChoice then c.children id else []
  | none => []

/-- The ordered pairs of distinct members. -/
def orderedPairs (members : List String) : List (String × String) :=
  members.flatMap fun a => (members.filter fun b => b != a).map fun b => (a, b)

/-- How far a container has come in taking hold of its exclusions: the pairs still without one, and
the numbers of relations let go, adopted and made. -/
structure Upkeep (τ : Type) [FreeText τ] where
  relations : Store (Relation τ)
  lacking : List (String × String)
  released : Nat := 0
  adopted : Nat := 0
  created : Nat := 0

namespace Upkeep

/-- Looks at a relation that the container owns so far: it stays if it is the exclusion of an open
pair. -/
def review (u : Upkeep τ) (r : Relation τ) : Upkeep τ :=
  if r.type = .exclusion ∧ r.pair ∈ u.lacking then
    { u with lacking := u.lacking.filter fun pair => pair != r.pair }
  else if r.generated then
    { u with relations := u.relations.erase r.id, released := u.released + 1 }
  else
    { u with
      relations := u.relations.modify r.id fun r => { r with scope := none, hidden := false }
      released := u.released + 1 }

/-- The exclusion made for a pair of a choice. -/
def made (owner : String) (pair : String × String) : Relation τ where
  id := Relation.idFor pair.1 pair.2 .exclusion true
  source := pair.1
  target := pair.2
  type := .exclusion
  scope := some owner
  hidden := true
  generated := true

/-- Gives an open pair its exclusion: the one that joins it, or a new one. -/
def supply (owner : String) (u : Upkeep τ) (pair : String × String) : Upkeep τ :=
  match u.relations.entries.find? fun r => r.joins pair.1 pair.2 .exclusion with
  | some r =>
    { u with
      relations := u.relations.modify r.id fun r => { r with scope := some owner, hidden := true }
      adopted := u.adopted + 1 }
  | none => { u with relations := u.relations.insert (made owner pair), created := u.created + 1 }

def notices (owner : String) (u : Upkeep τ) : List Notice :=
  if u.released = 0 ∧ u.adopted = 0 ∧ u.created = 0 then []
  else [.debug ("Choice exclusions for " ++ owner ++ ": +" ++ toString u.created ++ " created, "
    ++ toString u.adopted ++ " adopted, -" ++ toString u.released ++ " released")]

end Upkeep

/-- The upkeep of a container's exclusions: a review of what it owns, and then a supply of what it
lacks. -/
def upkeep (c : Choreography τ) (id : String) : Upkeep τ :=
  let reviewed := (c.scopedTo id).foldl Upkeep.review
    { relations := c.relations, lacking := orderedPairs (c.rivals id) }
  reviewed.lacking.foldl (Upkeep.supply id) reviewed

/-- The choreography in which a container owns what it should. -/
def syncExclusions (c : Choreography τ) (id : String) : Logged (Choreography τ) :=
  ⟨{ c with relations := (c.upkeep id).relations }, (c.upkeep id).notices id⟩

end Dcr.Choreography
