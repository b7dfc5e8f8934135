import Dcr.Containment.Deletion
import Dcr.Document.Error
import Dcr.Document.Reading

/-! Loading a document. The pools are made anew from the ids in use, every reference is looked up, and
then empty containers go and the exclusions of choices are looked after. Of two entries with one id
the later one counts. -/

namespace Dcr

variable {τ : Type} [FreeText τ]

/-- The pools in which exactly some numbers are taken. -/
def IdPools.ofUsed (used : List (NodeKind × Nat)) : IdPools :=
  let ofKind (kind : NodeKind) : IdPool :=
    .ofUsed (IdPools.get {} kind).stem ((used.filter fun n => n.1 == kind).map fun n => (n.2 : Int))
  { event := ofKind .event, nest := ofKind .nest, subprocess := ofKind .subprocess }

/-- The kind and the number of a node under an id. -/
def NodeKind.numbered (kind : NodeKind) (id : String) : DocumentM (NodeKind × Nat) :=
  match (IdPools.get {} kind).number id with
  | .ok n => .ok (kind, n)
  | .error e => .error (.badId e)

/-- Looks up what a reference names. -/
def Json.resolve (known : String → Bool) (unknown : String → DocumentError) (j : Json) :
    DocumentM String :=
  match j with
  | str id => if known id then .ok id else .error (unknown id)
  | j => .error (if j.isCompound then .misfit (.unkeyed j.kindName) else unknown j.quoted)

/-- The nodes of a document that count. -/
structure Roster (τ : Type) [FreeText τ] where
  containers : Store (ContainerEntry τ)
  events : Store (EventEntry τ)

namespace Roster

def ofNodes (nodes : List (NodeEntry τ)) : Roster τ where
  containers := .ofList (nodes.filterMap NodeEntry.container?)
  events := .ofList (nodes.filterMap NodeEntry.event?)

def hasNode (r : Roster τ) (id : String) : Bool := r.events.contains id || r.containers.contains id

/-- Whether a node is a subprocess. -/
def hasSubprocess (r : Roster τ) (id : String) : Bool :=
  (r.containers.get? id).any fun x => x.form == .subprocess

/-- The kind and the number of the node that counts for an entry. -/
def numberOf (r : Roster τ) : NodeEntry τ → DocumentM (NodeKind × Nat)
  | .event e => NodeKind.event.numbered e.id
  | .container x => ((r.containers.get? x.id).getD x).form.kind.node.numbered x.id
  | .nameless _ => .error .wrongType

/-- The numbers in use, or the first id that is none of its kind, containers before events. -/
def numbersInUse (r : Roster τ) (nodes : List (NodeEntry τ)) : DocumentM (List (NodeKind × Nat)) :=
  ((nodes.filter fun n => !n.isEvent) ++ nodes.filter NodeEntry.isEvent).mapM r.numberOf

/-- The container that a node is said to be in. -/
def place (r : Roster τ) (id : String) (parent : Option Json) : DocumentM (Option String) :=
  parent.mapM (Json.resolve r.containers.contains (.unknownParent id))

def container (r : Roster τ) (x : ContainerEntry τ) : DocumentM (Container τ) :=
  x.container <$> r.place x.id x.parent

def event (r : Roster τ) (e : EventEntry τ) : DocumentM (Event τ) :=
  e.event <$> r.place e.id e.parent

/-- The relation of an edge, after those that precede it. -/
def relation (r : Roster τ) (before : List (Relation τ)) (e : EdgeEntry τ) :
    DocumentM (Relation τ) := do
  let source ← e.source.resolve r.hasNode (.unknownEnd e.id)
  let target ← e.target.resolve r.hasNode (.unknownEnd e.id)
  match before.find? fun b => b.joins source target e.type with
  | some first => .error (.duplicate e.id first.id)
  | none =>
    if e.type = .spawn ∧ !r.hasSubprocess target then .error (.spawnTarget e.id)
    else
      let scope ← e.scope.mapM (Json.resolve r.containers.contains (.unknownScope e.id))
      return e.relation source target scope

/-- The relations of some edges, after those that precede them. -/
def relations (r : Roster τ) (before : List (Relation τ)) :
    List (EdgeEntry τ) → DocumentM (List (Relation τ))
  | [] => .ok before
  | e :: rest => do r.relations (before ++ [← r.relation before e]) rest

end Roster

namespace Document

/-- The choreography of a document with its pools, if every id and every reference is in order. -/
def check (d : Document τ) : DocumentM (Choreography τ) := do
  let nodes := Roster.ofNodes d.nodes
  let used ← nodes.numbersInUse d.nodes
  let containers ← nodes.containers.entries.mapM nodes.container
  let events ← nodes.events.entries.mapM nodes.event
  let relations ← nodes.relations [] (Store.ofList d.edges).entries
  return {
    events := .ofList events
    containers := .ofList containers
    relations := .ofList relations
    roles := d.roles
    security := d.security
    documentation := d.documentation
    ids := .ofUsed used }

def load (d : Document τ) : Logged (Except DocumentError (Choreography τ)) :=
  match d.check with
  | .error e => pure (.error e)
  | .ok c => do
    let (c, removed) ← c.normalize
    if removed ≠ [] then
      Logged.tell [.warning ("Dropped empty containers on load: " ++ ", ".intercalate removed)]
    Logged.tell [.debug ("Loaded " ++ toString c.events.size ++ " events, "
      ++ toString c.containers.size ++ " containers, " ++ toString c.relations.size ++ " relations")]
    return .ok c

end Document

/-- Loads the document in a JSON value. -/
def loadJson (j : Json) : Logged (Except DocumentError (Choreography τ)) :=
  match Document.ofJson j with
  | .error e => pure (.error e)
  | .ok d => d.load

end Dcr
