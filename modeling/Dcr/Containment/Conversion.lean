import Dcr.Containment.Exclusions

/-! Changing what a container is. A nest switches between group and choice in place. Between nest and
subprocess the container gets an id of its new kind, and everything that names it follows. -/

namespace Dcr

open FreeText (ofText isText)

variable {τ : Type} [FreeText τ]

/-- An id after a container has been renamed. -/
def renameId (old new id : String) : String := if id = old then new else id

/-- A relation after a container has been renamed. One that ends at the container gets the id that
goes with its ends. -/
def Relation.rename (r : Relation τ) (old new : String) : Relation τ :=
  let source := renameId old new r.source
  let target := renameId old new r.target
  { r with
    id := if r.touches old then Relation.idFor source target r.type r.generated else r.id
    source
    target
    scope := r.scope.map (renameId old new) }

/-- A label after a container has been renamed: it follows if it was the id. -/
def relabel (old new : String) (label : τ) : τ := if isText label old then ofText new else label

/-- A container after one has been renamed. Its label follows if it was the id. -/
def Container.rename (x : Container τ) (old new : String) : Container τ :=
  let parent := x.parent.map (renameId old new)
  if x.id = old then { x with id := new, label := relabel old new x.label, parent }
  else { x with parent }

namespace Choreography

/-- The choreography with a container renamed everywhere. -/
def renameContainer (c : Choreography τ) (old new : String) : Choreography τ :=
  { c with
    containers := Store.ofList (c.containers.entries.map fun x => x.rename old new)
    events := c.events.update fun e => { e with parent := e.parent.map (renameId old new) }
    relations := Store.ofList (c.relations.entries.map fun r => r.rename old new) }

/-- Takes away the spawns that lead to a container. -/
def dropSpawns (c : Choreography τ) (id : String) : Logged (Choreography τ) :=
  let spawns := (c.incoming id).filter fun r => r.type == .spawn
  ⟨{ c with relations := spawns.foldl (fun s r => s.erase r.id) c.relations },
    spawns.map fun r =>
      .advice ("Removed spawn relation from " ++ r.source ++ ": " ++ id
        ++ " is no longer a subprocess.")⟩

/-- Makes a container one of the other kind, under a new id. -/
def convert (c : Choreography τ) (x : Container τ) (form : ContainerForm) :
    Logged (Choreography τ × String) := do
  let (new, ids) := c.ids.allocate form.kind.node
  let c := { c with
    containers := c.containers.modify x.id fun x => { x with form }
    ids := ids.release x.kind.node x.id }
  let c ← (c.renameContainer x.id new).syncExclusions new
  let c ← if form.kind = .nest then c.dropSpawns new else pure c
  Logged.tell [.advice ("Converted " ++ x.id ++ " into " ++ form.kind.name ++ " " ++ new ++ ".")]
  return (c, new)

/-- Gives a container a kind and, if it is a nest, a type; without one a nest keeps its type, and
what becomes a nest is a group. The answer is its id afterwards. -/
def changeContainerType (c : Choreography τ) (x : Container τ) (kind : ContainerKind)
    (type : Option NestType) : Logged (Choreography τ × String) :=
  if x.kind = kind then
    match kind, type with
    | .nest, some type =>
      if x.form = .nest type then pure (c, x.id)
      else do
        let c := { c with
          containers := c.containers.modify x.id fun x => { x with form := .nest type } }
        let c ← c.syncExclusions x.id
        return (c, x.id)
    | _, _ => pure (c, x.id)
  else c.convert x (.ofKind kind type)

end Choreography

end Dcr
