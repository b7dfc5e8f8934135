import Dcr.Document
import Dcr.Json.Writing

/-! Documents as JSON. Guard, scope and the hidden flag of an edge are written only when set. -/

namespace Dcr

open Json (str bool arr obj)

open FreeText (toJson holds)

variable {τ : Type} [FreeText τ]

def Field.toJson (f : Field τ) : Json :=
  obj [("var", FreeText.toJson f.var), ("type", FreeText.toJson f.type)]

def Shape.toJson (s : Shape τ) : Json :=
  obj (("type", FreeText.toJson s.typeName) ::
    if s.isRecord then [("record", arr (s.fields.map Field.toJson))] else [])

/-- The part of a marking that belongs to the model. -/
def markingJson (included pending : Bool) : Json :=
  obj [("included", bool included), ("pending", bool pending)]

/-- The receiving or computing side of an event. -/
def EventValue.member : EventValue τ → String × Json
  | input shape => ("input", shape.toJson)
  | computation expression => ("expression", toJson expression)

def EventContent.toJson (c : EventContent τ) : Json :=
  obj [("label", FreeText.toJson c.label), ("name", FreeText.toJson c.name),
    ("security", FreeText.toJson c.security), ("type", str c.value.kind.code),
    ("initiators", arr (c.initiators.map FreeText.toJson)),
    ("receivers", arr (c.receivers.map FreeText.toJson)),
    ("marking", markingJson c.included c.pending), c.value.member]

/-- A node of a document. -/
def nodeJson (id : Json) (kind : String) (parent : Option Json) (data : Json) : Json :=
  obj [("id", id), ("kind", str kind), ("parent", parent.getD (str "")), ("data", data)]

def ContainerEntry.data (x : ContainerEntry τ) : Json :=
  obj ([("label", toJson x.label), ("marking", markingJson x.included x.pending)]
    ++ (x.form.nestType?.map fun type => ("nestType", str type.name)).toList)

def NodeEntry.toJson : NodeEntry τ → Json
  | event e => nodeJson (str e.id) "event" e.parent e.content.toJson
  | container x => nodeJson (str x.id) x.form.kind.name x.parent x.data
  | nameless isEvent => nodeJson .null (if isEvent then "event" else "nest") none (obj [])

def EdgeEntry.toJson (e : EdgeEntry τ) : Json :=
  obj ([("id", str e.id), ("source", e.source), ("target", e.target), ("kind", str e.type.name)]
    ++ (if holds e.guard then [("guard", FreeText.toJson e.guard)] else [])
    ++ (e.scope.map fun s => ("scope", s)).toList
    ++ (if e.hidden then [("hidden", bool true)] else []))

def Parameter.toJson (p : Parameter τ) : Json :=
  obj [("var", FreeText.toJson p.var), ("type", FreeText.toJson p.type)]

def Role.toJson (r : Role τ) : Json :=
  obj [("role", FreeText.toJson r.name), ("label", FreeText.toJson r.label),
    ("types", arr (r.parameters.map Parameter.toJson)),
    ("participants", arr (r.participants.map FreeText.toJson))]

def Document.toJson (d : Document τ) : Json :=
  obj [("nodes", arr (d.nodes.map NodeEntry.toJson)), ("edges", arr (d.edges.map EdgeEntry.toJson)),
    ("security", FreeText.toJson d.security), ("documentation", FreeText.toJson d.documentation),
    ("roles", arr (d.roles.map Role.toJson))]

end Dcr
