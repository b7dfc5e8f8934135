import Dcr.Choreography

/-! The choreography that a fresh session opens with: a prosumer reads a document and submits it to a
second one, who accepts it. -/

namespace Dcr.Sample

open FreeText (ofText)

variable {τ : Type} [FreeText τ]

def readDocument : Event τ where
  id := "e0"
  label := ofText "e0"
  name := ofText "readDocument"
  security := ofText "Public"
  value := .input (.record [⟨ofText "size", ofText "Integer"⟩, ⟨ofText "name", ofText "String"⟩])
  initiators := [ofText "P(id=1)"]

def submit : Event τ where
  id := "e1"
  label := ofText "e1"
  name := ofText "submit"
  security := ofText "Public"
  initiators := [ofText "P(id=1)"]
  receivers := [ofText "P(id=2)"]

def accept : Event τ where
  id := "e2"
  label := ofText "e2"
  name := ofText "accept"
  security := ofText "Public"
  initiators := [ofText "P(id=2)"]
  receivers := [ofText "P(id=1)"]

/-- A relation as a user would add it. -/
def relation (source target : String) (type : RelationType) : Relation τ :=
  { id := Relation.idFor source target type false, source, target, type }

def prosumer : Role τ where
  name := ofText "Prosumer"
  label := ofText "P"
  parameters := [⟨ofText "id", ofText "Integer"⟩]
  participants := [ofText "P(id=1)", ofText "P(id=2)"]

def everyone : Role τ where
  name := ofText "Public"
  label := ofText "Public"

def choreography : Choreography τ where
  events := .ofList [readDocument, submit, accept]
  relations := .ofList [relation "e0" "e1" .condition, relation "e1" "e2" .response]
  roles := [prosumer, everyone]
  security := ofText "Public flows P"
  ids := { event := { stem := "e", next := 3 } }

end Dcr.Sample
