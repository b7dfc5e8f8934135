import Dcr.Document
import Dcr.Document.Error

/-! Reading a document from a JSON value. Fields that say nothing may be left out or null; unknown
fields are passed over. The first error in the order of the fields is reported. -/

namespace Dcr

open DocumentError

open FreeText (ofText isText holds)

variable {τ : Type} [FreeText τ]

abbrev DocumentM := Except DocumentError

namespace Json

/-- A member that has to be there. -/
def needed (j : Json) (key : String) : DocumentM Json :=
  match j with
  | obj members => (members.lookup key).elim (.error (missingKey key)) .ok
  | _ => .error wrongType

/-- A member that may be left out. -/
def optional (j : Json) (key : String) (default : Json) : DocumentM Json :=
  match j with
  | obj members => .ok ((members.lookup key).getD default)
  | _ => .error memberless

def text : Json → DocumentM String
  | str s => .ok s
  | _ => .error wrongType

/-- A value as a free text. -/
def free (j : Json) : DocumentM τ := (FreeText.ofJson? j).elim (.error wrongType) .ok

/-- A value as a free text, which is empty if the value says nothing. -/
def freeOrEmpty (j : Json) : DocumentM τ := if j.holds then j.free else .ok (ofText "")

def elements (j : Json) : DocumentM (List Json) := j.elements?.elim (.error wrongType) .ok

def frees (j : Json) : DocumentM (List τ) := do (← j.elements).mapM free

/-- A reference that may be left out. -/
def place (j : Json) : Option Json := if j.holds then some j else none

/-- A value of an enumeration, by its name. -/
def choice {α : Type} (j : Json) (category : String) (ofName? : String → Option α) : DocumentM α :=
  match j with
  | str s => (ofName? s).elim (.error (unknownName (Text.quoted s) category)) .ok
  | j => .error (unknownName j.quoted category)

end Json

def EventKind.ofJson (j : Json) : DocumentM EventKind := j.choice "EventKind" ofCode?

def ContainerKind.ofJson (j : Json) : DocumentM ContainerKind := j.choice "ContainerKind" ofName?

def NestType.ofJson (j : Json) : DocumentM NestType := j.choice "NestType" ofName?

def RelationType.ofJson (j : Json) : DocumentM RelationType := j.choice "RelationType" ofName?

def Field.ofJson (j : Json) : DocumentM (Field τ) := do
  return ⟨← (← j.needed "var").free, ← (← j.needed "type").free⟩

/-- A shape; only a record has its fields looked at. -/
def Shape.ofJson (j : Json) : DocumentM (Shape τ) := do
  let type : τ ← (← j.optional "type" (.str "Unit")).free
  if isText type "Record" then
    return .record (← (← (← j.optional "record" (.arr [])).elements).mapM Field.ofJson)
  else return .ofType type []

/-- The flags of a marking that belong to the model. -/
def markingFlags (j : Json) : DocumentM (Bool × Bool) := do
  return ((← j.optional "included" (.bool true)).holds, (← j.optional "pending" (.bool false)).holds)

/-- The entry of a node, if its id is a text; another id is passed over, but it must be one that can
name something. -/
def NodeEntry.under (id : Json) (event : Bool) (entry : String → NodeEntry τ) :
    DocumentM (NodeEntry τ) :=
  match id with
  | .str id => .ok (entry id)
  | id => if id.isCompound then .error wrongType else .ok (.nameless event)

def NodeEntry.ofEventJson (j : Json) : DocumentM (NodeEntry τ) := do
  let data ← j.needed "data"
  let kind ← EventKind.ofJson (← data.optional "type" (.str "i"))
  let input ← data.optional "input" .null
  let shape ← if input.holds then some <$> Shape.ofJson input else .ok none
  let id ← j.needed "id"
  let label ← (← data.optional "label" .null).freeOrEmpty
  let name ← (← data.optional "name" (.str "")).free
  let security ← (← data.optional "security" (.str "")).free
  let expression ← match kind with
    | .input => .ok none
    | .computation => some <$> (← data.optional "expression" .null).freeOrEmpty
  let initiators ← (← data.optional "initiators" (.arr [])).frees
  let receivers ← (← data.optional "receivers" (.arr [])).frees
  let (included, pending) ← markingFlags (← data.optional "marking" (.obj []))
  let parent := (← j.optional "parent" .null).place
  let value := .ofKind kind shape expression
  under id true fun id =>
    .event ⟨id, parent, { label, name, security, value, initiators, receivers, included, pending }⟩

def NodeEntry.ofContainerJson (j : Json) : DocumentM (NodeEntry τ) := do
  let data ← j.optional "data" (.obj [])
  let kind ← ContainerKind.ofJson (← j.needed "kind")
  let type ← data.optional "nestType" .null
  let type ← if type.holds then some <$> NestType.ofJson type else .ok none
  let id ← j.needed "id"
  let label ← (← data.optional "label" .null).freeOrEmpty
  let (included, pending) ← markingFlags (← data.optional "marking" (.obj []))
  let parent := (← j.optional "parent" .null).place
  under id false fun id =>
    .container { id, parent, label, form := .ofKind kind type, included, pending }

def NodeEntry.ofJson (j : Json) : DocumentM (NodeEntry τ) := do
  match ← j.needed "kind" with
  | .str "event" => ofEventJson j
  | _ => ofContainerJson j

def EdgeEntry.ofJson (j : Json) : DocumentM (EdgeEntry τ) := do
  let id ← j.needed "id"
  let source ← j.needed "source"
  let target ← j.needed "target"
  let type ← RelationType.ofJson (← j.needed "kind")
  let guard ← (← j.optional "guard" (.str "")).free
  let scope := (← j.optional "scope" .null).place
  let hidden := (← j.optional "hidden" .null).holds
  return ⟨← id.text, source, target, type, guard, scope, hidden⟩

def Parameter.ofJson (j : Json) : DocumentM (Parameter τ) := do
  return ⟨← (← j.needed "var").free, ← (← j.needed "type").free⟩

def Role.ofJson (j : Json) : DocumentM (Role τ) := do
  let name : τ ← (← j.needed "role").free
  let label ← (← j.optional "label" .null).freeOrEmpty
  let parameters ← (← (← j.optional "types" (.arr [])).elements).mapM Parameter.ofJson
  let participants ← (← j.optional "participants" (.arr [])).frees
  return { name, label := if holds label then label else name, parameters, participants }

def Document.ofJson (j : Json) : DocumentM (Document τ) := do
  let nodes ← (← (← j.optional "nodes" (.arr [])).elements).mapM NodeEntry.ofJson
  let edges ← (← (← j.optional "edges" (.arr [])).elements).mapM EdgeEntry.ofJson
  let roles ← (← (← j.optional "roles" (.arr [])).elements).mapM Role.ofJson
  let security ← (← j.optional "security" (.str "")).free
  let documentation ← (← j.optional "documentation" (.str "")).free
  return { nodes, edges, security, documentation, roles }

end Dcr
