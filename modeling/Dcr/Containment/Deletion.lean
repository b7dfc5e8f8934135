import Dcr.Containment.Settling
import Dcr.Text.Quoted

/-! Deleting nodes. What is below a node goes with it, and so do the relations at any of them and the
containers left empty. -/

namespace Dcr.Choreography

variable {τ : Type} [FreeText τ]

/-- Ids in ascending order of their characters. -/
def ascending (ids : List String) : List String := ids.mergeSort fun a b => decide (a ≤ b)

/-- A node and, in ascending order, what is below it. -/
def subtree (c : Choreography τ) (id : String) : List String :=
  id :: if c.containers.contains id then ascending (c.family id) else []

/-- The nodes that go with some listed ones, or the first listed id that names no node. -/
def doomed (c : Choreography τ) : List String → List String → Except String (List String)
  | found, [] => .ok found
  | found, id :: rest =>
    if c.hasNode id then
      c.doomed (found ++ (c.subtree id).filter fun x => !found.contains x) rest
    else .error id

/-- The parents that lose a child to a deletion and stay themselves, without repetition. -/
def bereaved (c : Choreography τ) (doomed : List String) : List String :=
  (doomed.filterMap fun id => (c.node? id).bind Node.parent).filter (fun p => !doomed.contains p)
    |>.eraseDups

/-- The choreography without a node, which keeps its relations and its place in the pool. -/
def eraseNode (c : Choreography τ) (id : String) : Choreography τ :=
  if c.events.contains id then { c with events := c.events.erase id }
  else { c with containers := c.containers.erase id }

/-- Takes nodes out one by one, up to the first id that names none. -/
def eraseNodes (c : Choreography τ) : List String → Choreography τ × Verdict (List (Node τ))
  | [] => (c, .done [])
  | id :: rest =>
    match c.node? id with
    | none => (c, .stopped (.missing id))
    | some node =>
      let (c, verdict) := (c.eraseNode id).eraseNodes rest
      (c, verdict.map (node :: ·))

/-- Gives the ids of nodes back. -/
def releaseNodes (c : Choreography τ) (nodes : List (Node τ)) : Choreography τ :=
  { c with ids := nodes.foldl (fun ids (n : Node τ) => ids.release n.kind n.id) c.ids }

/-- Settles containers one after the other. -/
def settleAll (c : Choreography τ) : List String → Logged (Choreography τ × List String)
  | [] => pure (c, [])
  | id :: rest => do
    let (c, removed) ← c.settle id
    let (c, more) ← c.settleAll rest
    return (c, removed ++ more)

/-- Deletes nodes with all that is below them; the answer lists every node that is gone, the
containers left empty after the rest. -/
def deleteNodes (c : Choreography τ) (ids : List String) :
    Logged (Choreography τ × Verdict (List String)) :=
  match c.doomed [] ids with
  | .error id => pure (c, .stopped (.missing id))
  | .ok doomed =>
    let parents := c.bereaved doomed
    let c := { c with
      relations := c.relations.filter fun r => !doomed.contains r.source && !doomed.contains r.target }
    match c.eraseNodes doomed with
    | (c, .done nodes) => do
      let (c, emptied) ← (c.releaseNodes nodes).settleAll parents
      Logged.tell [.debug ("Deleted nodes " ++ Text.quotedList doomed ++ "; cascade removed "
        ++ Text.quotedList emptied)]
      return (c, .done (doomed ++ emptied))
    | (c, .refused) => pure (c, .refused)
    | (c, .stopped o) => pure (c, .stopped o)

/-- Settles every container that is there at the start and has not gone meanwhile; the answer lists
those that go. -/
def normalize (c : Choreography τ) : Logged (Choreography τ × List String) :=
  c.settleAll c.containers.keys

end Dcr.Choreography
