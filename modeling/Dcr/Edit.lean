import Dcr.Edit.Containers
import Dcr.Edit.Relations
import Dcr.Edit.Roles

/-! Edits. An edit first looks for the things it is about; it is refused while a simulation runs, and
otherwise carried out. -/

namespace Dcr

variable {τ : Type} [FreeText τ]

inductive Edit (τ : Type) [FreeText τ] where
  | createEvent (n : NewEvent τ)
  | updateEvent (id : String) (content : EventContent τ)
  | deleteEvent (id : String)
  | createContainer (n : NewContainer τ)
  | updateContainer (id : String) (label : Option τ) (marking : Option Marking)
  | changeContainerType (id : String) (kind : ContainerKind) (type : Option NestType)
  | moveNode (id : String) (parent : Option String)
  | deleteNodes (ids : List String)
  | createRelation (source target : String) (type : RelationType) (guard : τ)
  | updateRelation (id : String) (type : Option RelationType) (guard : Option τ)
  | deleteRelation (id : String)
  | addRole (name : String) (label : Option τ) (parameters : List (Parameter τ))
  | removeRole (name : String)
  | addParticipant (role : String) (bindings : List (String × String))
  | removeParticipant (role participant : String)
  | setSecurity (text : τ)
  | setDocumentation (text : τ)
  deriving DecidableEq, Repr

/-- What a completed edit answers. -/
inductive Answer (τ : Type) where
  | done
  | name (s : String)
  | participant (x : τ)
  | ids (xs : List String)
  | role (r : Role τ)
  deriving DecidableEq, Repr

namespace Edit

/-- The first of some ids that names no node. -/
def absentNode? (c : Choreography τ) (ids : List String) : Option String :=
  ids.find? fun id => !c.hasNode id

/-- An id, unless it names something. -/
def absentUnless (found : Bool) (id : String) : Option String := if found then none else some id

/-- The first id that an edit looks for in vain before anything else. -/
def absent? (c : Choreography τ) : Edit τ → Option String
  | createEvent _ => none
  | updateEvent id _ => absentUnless (c.events.contains id) id
  | deleteEvent id => absentUnless (c.events.contains id) id
  | createContainer _ => none
  | updateContainer id _ _ => absentUnless (c.containers.contains id) id
  | changeContainerType id _ _ => absentUnless (c.containers.contains id) id
  | moveNode id _ => absentNode? c [id]
  | deleteNodes ids => absentNode? c ids
  | createRelation source target _ _ => absentNode? c [source, target]
  | updateRelation id _ _ => absentUnless (c.relations.contains id) id
  | deleteRelation id => absentUnless (c.relations.contains id) id
  | addRole _ _ _ => none
  | removeRole name => absentUnless (c.role? name).isSome name
  | addParticipant role _ => absentUnless (c.role? role).isSome role
  | removeParticipant role _ => absentUnless (c.role? role).isSome role
  | setSecurity _ => none
  | setDocumentation _ => none

/-- What a running simulation keeps from being done. -/
def attempt : Edit τ → String
  | createEvent _ => "add an event"
  | updateEvent id _ => "update " ++ id
  | deleteEvent _ => "delete nodes"
  | createContainer _ => "add a container"
  | updateContainer id _ _ => "update " ++ id
  | changeContainerType id _ _ => "change the type of " ++ id
  | moveNode id _ => "move " ++ id
  | deleteNodes _ => "delete nodes"
  | createRelation _ _ _ _ => "add a relation"
  | updateRelation id _ _ => "update " ++ id
  | deleteRelation id => "delete " ++ id
  | addRole _ _ _ => "add a role"
  | removeRole name => "remove role " ++ name
  | addParticipant role _ => "add a participant to " ++ role
  | removeParticipant role _ => "remove a participant from " ++ role
  | setSecurity _ => "change the security lattice"
  | setDocumentation _ => "change the documentation"

/-- A change with its answer told in another way. -/
def answer {α : Type} (f : α → Answer τ) (x : Logged (Choreography τ × Verdict α)) :
    Logged (Choreography τ × Verdict (Answer τ)) :=
  ⟨(x.value.1, x.value.2.map f), x.log⟩

/-- Deletes nodes and tells which ones went. -/
def deleteNodesAloud (c : Choreography τ) (ids : List String) :
    Logged (Choreography τ × Verdict (Answer τ)) := do
  let (c, verdict) ← c.deleteNodes ids
  match verdict with
  | .done removed =>
    Logged.tell [.advice ("Deleted nodes: " ++ ", ".intercalate removed ++ ".")]
    return (c, .done (.ids removed))
  | verdict => return (c, verdict.map .ids)

/-- A change of something that has to be there. -/
def withFound {α : Type} (c : Choreography τ) (found : Option α) (id : String)
    (change : α → Logged (Choreography τ × Verdict (Answer τ))) :
    Logged (Choreography τ × Verdict (Answer τ)) :=
  match found with
  | some x => change x
  | none => pure (c, .stopped (.missing id))

/-- Carries an edit out. -/
def perform (c : Choreography τ) : Edit τ → Logged (Choreography τ × Verdict (Answer τ))
  | createEvent n => answer .name (c.createEvent n)
  | updateEvent id content => answer (fun _ => .done) (c.updateEvent id content)
  | deleteEvent id => deleteNodesAloud c [id]
  | createContainer n => answer .name (c.createContainer n)
  | updateContainer id label marking =>
    withFound c (c.containers.get? id) id fun x =>
      answer (fun _ => .done) (c.updateContainer x label marking)
  | changeContainerType id kind type =>
    withFound c (c.containers.get? id) id fun x => do
      let (c, id) ← c.changeContainerType x kind type
      return (c, .done (.name id))
  | moveNode id parent => answer (fun _ => .done) (c.reparent id parent)
  | deleteNodes ids => deleteNodesAloud c ids
  | createRelation source target type guard =>
    answer .name (c.createRelation source target type guard)
  | updateRelation id type guard =>
    withFound c (c.relations.get? id) id fun r => answer .name (c.updateRelation r type guard)
  | deleteRelation id =>
    withFound c (c.relations.get? id) id fun r => answer (fun _ => .done) (c.deleteRelation r)
  | addRole name label parameters => answer .role (c.addRole name label parameters)
  | removeRole name => answer (fun _ => .done) (c.removeRole name)
  | addParticipant role bindings =>
    withFound c (c.role? role) role fun r =>
      answer .participant (c.addParticipant role r bindings)
  | removeParticipant role participant =>
    answer (fun _ => .done) (c.removeParticipant role participant)
  | setSecurity text => answer (fun _ => .done) (c.setSecurity text)
  | setDocumentation text => answer (fun _ => .done) (c.setDocumentation text)

end Edit

end Dcr
