import Dcr.Change
import Dcr.Containment.Exclusions
import Dcr.Containment.Lineage

/-! Moving nodes. A container that loses its last child goes, and its parent is looked at in turn;
the first one that keeps a child has its exclusions looked after. -/

namespace Dcr.Choreography

variable {τ : Type} [FreeText τ]

/-- The choreography without a container and the relations at it; its id is free again. -/
def dropContainer (c : Choreography τ) (x : Container τ) : Choreography τ :=
  { c with
    containers := c.containers.erase x.id
    relations := c.relations.filter fun r => !r.touches x.id
    ids := c.ids.release x.kind.node x.id }

/-- Looks after a container that may have lost children; the answer lists the containers that go,
innermost first. -/
def settle (c : Choreography τ) (id : String) : Logged (Choreography τ × List String) :=
  match _found : c.containers.get? id with
  | none => pure (c, [])
  | some x =>
    if (c.children id).isEmpty then do
      Logged.tell [.advice ("Removed empty " ++ x.kind.name ++ ": " ++ x.id ++ ".")]
      match x.parent with
      | none => return (c.dropContainer x, [x.id])
      | some parent =>
        let (c, removed) ← (c.dropContainer x).settle parent
        return (c, x.id :: removed)
    else do
      let c ← c.syncExclusions id
      return (c, [])
termination_by c.containers.size
decreasing_by
  have named : x.id = id := by simpa [Keyed.key] using List.find?_some _found
  show (c.containers.erase x.id).size < c.containers.size
  exact Store.erase_size_lt (named ▸ _found)

/-- A parent as log lines name it. -/
def placeName (parent : Option String) : String :=
  match parent with
  | none => "top level"
  | some id => if id = "" then "top level" else id

/-- Moves a node into a container, or to the top level. The exclusions of the container it leaves and
of the one it enters are looked after. -/
def reparent (c : Choreography τ) (id : String) (parent : Option String) :
    Logged (Choreography τ × Verdict Unit) :=
  match c.node? id with
  | none => pure (c, .stopped (.missing id))
  | some node =>
    match c.parentRejection? id parent with
    | some reason =>
      refuse c reason ("Invalid parent for " ++ id ++ ": " ++ parent.getD "")
    | none =>
      if node.parent = parent then pure (c, .done ())
      else do
        Logged.tell
          [.debug ("Reparented " ++ id ++ ": " ++ placeName node.parent ++ " → " ++ placeName parent)]
        let c := c.setParent id parent
        let c ← match node.parent with
          | none => pure c
          | some old => Prod.fst <$> c.settle old
        let c ← match parent with
          | none => pure c
          | some new => c.syncExclusions new
        return (c, .done ())

end Dcr.Choreography
