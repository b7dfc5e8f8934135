import Dcr.FreeText

/-! Value shapes: what an input event receives. -/

namespace Dcr

open FreeText (ofText shown isText)

variable {τ : Type} [FreeText τ]

/-- A named, typed field of a record. -/
structure Field (τ : Type) where
  var : τ
  type : τ
  deriving DecidableEq, Repr

def Field.render (f : Field τ) : String := shown f.var ++ ":" ++ shown f.type

/-- Nothing, one value of a named type, or a record. The two type names that stand for the other
shapes name no type of their own. -/
inductive Shape (τ : Type) [FreeText τ] where
  | unit
  | named (type : τ) (plain : isText type "Unit" = false ∧ isText type "Record" = false)
  | record (fields : List (Field τ))
  deriving DecidableEq, Repr

namespace Shape

/-- The shape with a type name; only a record has use for the fields. -/
def ofType (type : τ) (fields : List (Field τ)) : Shape τ :=
  if nothing : isText type "Unit" then .unit
  else if compound : isText type "Record" then .record fields
  else .named type ⟨by simpa using nothing, by simpa using compound⟩

def typeName : Shape τ → τ
  | unit => ofText "Unit"
  | named type _ => type
  | record _ => ofText "Record"

def fields : Shape τ → List (Field τ)
  | record fields => fields
  | _ => []

/-- The free texts in a shape. -/
def freeTexts : Shape τ → List τ
  | unit => []
  | named type _ => [type]
  | record fields => fields.flatMap fun f => [f.var, f.type]

def isUnit (s : Shape τ) : Bool := isText s.typeName "Unit"

def isRecord (s : Shape τ) : Bool := isText s.typeName "Record"

/-- The value clause of a shape: a question mark, and after a colon the type or the fields. -/
def render : Shape τ → String
  | unit => "?"
  | named type _ => "?:" ++ shown type
  | record fields => "?:\x7b" ++ "; ".intercalate (fields.map Field.render) ++ "\x7d"

end Shape

end Dcr
