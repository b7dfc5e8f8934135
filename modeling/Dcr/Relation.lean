import Dcr.FreeText
import Dcr.Store

/-! Relations between nodes. At most one relation of a type joins an ordered pair of nodes, and its
id is made of the type and the pair. -/

namespace Dcr

open FreeText (ofText shown holds)

variable {τ : Type} [FreeText τ]

inductive RelationType where
  | condition
  | response
  | inclusion
  | exclusion
  | milestone
  | spawn
  deriving DecidableEq, Repr

namespace RelationType

def name : RelationType → String
  | condition => "condition"
  | response => "response"
  | inclusion => "include"
  | exclusion => "exclude"
  | milestone => "milestone"
  | spawn => "spawn"

def ofName? : String → Option RelationType
  | "condition" => some condition
  | "response" => some response
  | "include" => some inclusion
  | "exclude" => some exclusion
  | "milestone" => some milestone
  | "spawn" => some spawn
  | _ => none

/-- The arrow of generated code. -/
def arrow : RelationType → String
  | condition => "-->*"
  | response => "*-->"
  | inclusion => "-->+"
  | exclusion => "-->%"
  | milestone => "--<>"
  | spawn => "-->>"

def initial : RelationType → String
  | condition => "c"
  | response => "r"
  | inclusion => "i"
  | exclusion => "e"
  | milestone => "m"
  | spawn => "s"

end RelationType

/-- A relation. The one with a scope belongs to that container; a generated one was made for a
choice and goes when the choice has no use for it. -/
structure Relation (τ : Type) [FreeText τ] where
  id : String
  source : String
  target : String
  type : RelationType
  guard : τ := ofText ""
  scope : Option String := none
  hidden : Bool := false
  generated : Bool := false
  deriving DecidableEq, Repr

instance : Keyed (Relation τ) := ⟨Relation.id⟩

namespace Relation

/-- The id of a relation: a mark and its ends. A self-exclusion names its node once. -/
def idFor (source target : String) (type : RelationType) (generated : Bool) : String :=
  if generated then "x-" ++ source ++ "-" ++ target
  else if source = target ∧ type = .exclusion then "se-" ++ source
  else type.initial ++ "-" ++ source ++ "-" ++ target

/-- Whether an id is that of a generated relation. -/
def isGeneratedId (id : String) : Bool := "x-".isPrefixOf id

def pair (r : Relation τ) : String × String := (r.source, r.target)

/-- Whether the relation joins these nodes with this type. -/
def joins (r : Relation τ) (source target : String) (type : RelationType) : Bool :=
  r.source == source && r.target == target && r.type == type

def touches (r : Relation τ) (node : String) : Bool := r.source == node || r.target == node

/-- A guard as it stands after a relation. -/
def guardText (r : Relation τ) : String :=
  if holds r.guard then " [" ++ shown r.guard ++ "]" else ""

def render (r : Relation τ) : String :=
  r.source ++ " " ++ r.type.arrow ++ " " ++ r.target ++ r.guardText

end Relation

end Dcr
