import Dcr.Change

/-! Edits of relations. Those that belong to a container are not touched. -/

namespace Dcr.Choreography

open FreeText (ofText)

variable {τ : Type} [FreeText τ]

/-- Why there can be no relation of a type between two nodes, if there cannot. -/
def relationRejection? (c : Choreography τ) (source target : String) (type : RelationType) :
    Option Rejection :=
  if (c.relationBetween? source target type).isSome then some .duplicateRelation
  else if type = .spawn ∧ !(c.containers.get? target).any Container.isSubprocess then
    some .spawnTarget
  else none

def invalidRelation (source target : String) (type : RelationType) : String :=
  "Invalid " ++ type.name ++ " relation from " ++ source ++ " to " ++ target

/-- A relation as it is added; a spawn has no guard. -/
def newRelation (source target : String) (type : RelationType) (guard : τ) : Relation τ where
  id := Relation.idFor source target type false
  source := source
  target := target
  type := type
  guard := if type = .spawn then ofText "" else guard

def createRelation (c : Choreography τ) (source target : String) (type : RelationType)
    (guard : τ) : Logged (Choreography τ × Verdict String) :=
  match c.relationRejection? source target type with
  | some reason => refuse c reason (invalidRelation source target type)
  | none =>
    let r := newRelation source target type guard
    ⟨({ c with relations := c.relations.insert r }, .done r.id),
      [.advice
        (if source = target then "Added self-exclusion edge to node " ++ source
        else "Added " ++ type.name ++ " relation from " ++ source ++ " to " ++ target)]⟩

/-- A relation with another type, and the id that goes with it. -/
def retype (r : Relation τ) (type : RelationType) : Relation τ :=
  { r with type, id := Relation.idFor r.source r.target type false }

/-- A relation with another guard, if one is given; a spawn has none. -/
def reguard (r : Relation τ) (guard : Option τ) : Relation τ :=
  { r with guard := if r.type = .spawn then ofText "" else guard.getD r.guard }

/-- The relation as it stands after an update, and the store with it. A new type moves it to the
end. -/
def updated (c : Choreography τ) (r : Relation τ) (type : RelationType) (guard : Option τ) :
    Store (Relation τ) × Relation τ :=
  if type = r.type then
    (c.relations.modify r.id (fun r => reguard r guard), reguard r guard)
  else
    let r' := reguard (retype r type) guard
    ((c.relations.erase r.id).insert r', r')

def updateRelation (c : Choreography τ) (r : Relation τ) (type : Option RelationType)
    (guard : Option τ) : Logged (Choreography τ × Verdict String) :=
  if r.scope.isSome then refuse c .protectedRelation ("Cannot update " ++ r.id)
  else
    let type := type.getD r.type
    match if type = r.type then none else c.relationRejection? r.source r.target type with
    | some reason => refuse c reason (invalidRelation r.source r.target type)
    | none =>
      let (relations, r) := c.updated r type guard
      ⟨({ c with relations }, .done r.id),
        [.advice ("Updated " ++ r.type.name ++ " relation between " ++ r.source ++ " and "
          ++ r.target ++ ".")]⟩

def deleteRelation (c : Choreography τ) (r : Relation τ) : Logged (Choreography τ × Verdict Unit) :=
  if r.scope.isSome then refuse c .protectedRelation ("Cannot delete " ++ r.id)
  else
    ⟨({ c with relations := c.relations.erase r.id }, .done ()),
      [.advice ("Deleted edges: " ++ r.id ++ ".")]⟩

end Dcr.Choreography
