import Dcr.Change
import Dcr.Text.Quoted

/-! Runs of a choreography. A run works on a snapshot: it starts with every included event
executable that no condition or milestone leads to, and each fired event has an effect along each of
its outgoing relations. -/

namespace Dcr

variable {τ : Type} [FreeText τ]

/-- What a relation does to the marking of its target. -/
inductive Effect where
  | excluded
  | included
  | enabled
  | pending
  deriving DecidableEq, Repr

namespace Effect

def word : Effect → String
  | excluded => "excluded"
  | included => "included"
  | enabled => "enabled"
  | pending => "pending"

def apply : Effect → Marking → Marking
  | excluded, m => { m with included := false, executable := false }
  | included, m => { m with included := true, executable := true }
  | enabled, m => { m with executable := true }
  | pending, m => { m with pending := true }

end Effect

/-- The effect of a type of relation. A milestone only holds its target back at the start, and a spawn
has no effect on a marking. -/
def RelationType.effect? : RelationType → Option Effect
  | condition => some .enabled
  | response => some .pending
  | inclusion => some .included
  | exclusion => some .excluded
  | milestone => none
  | spawn => none

/-- Whether relations of a type hold their targets back at the start. -/
def RelationType.gates (type : RelationType) : Bool := type == condition || type == milestone

/-- A run: its snapshot, and the events fired so far. -/
structure Run (τ : Type) [FreeText τ] where
  model : Choreography τ
  history : List String := []
  deriving DecidableEq

namespace Run

/-- Whether some relation holds a node back at the start. -/
def isGated (c : Choreography τ) (id : String) : Bool :=
  c.relations.entries.any fun r => r.type.gates && r.target == id

def initialMarking (c : Choreography τ) (e : Event τ) : Marking :=
  { e.marking with
    executable := e.marking.included && !isGated c e.id
    executed := false }

/-- So many lists and objects may be inside one another in what a snapshot holds. -/
def deepest : Nat := 490

/-- Whether a snapshot can hold a choreography: none of its free texts is too deep. -/
def fits (c : Choreography τ) : Bool := c.freeTexts.all fun x => FreeText.depth x ≤ deepest

/-- A choreography whose free texts are texts always fits. -/
@[simp] theorem fits_texts (c : Choreography String) : fits c = true :=
  List.all_eq_true.2 fun _ _ => by simp [FreeText.depth, FreeText.toJson, Json.depth]

/-- The run that begins with a choreography. -/
def start (c : Choreography τ) : Run τ where
  model := { c with events := c.events.update fun e => { e with marking := initialMarking c e } }

/-- The events that may be fired. -/
def executable (r : Run τ) : List String :=
  (r.model.events.entries.filter fun e => e.marking.executable).map Event.id

/-- Brings the effects of some relations to their targets, up to the first target that is not
there. -/
def deliver (c : Choreography τ) :
    List (Relation τ) → Choreography τ × Verdict (List (String × Effect))
  | [] => (c, .done [])
  | r :: rest =>
    if c.hasNode r.target then
      match r.type.effect? with
      | some effect =>
        let (c, verdict) := deliver (c.updateMarking r.target effect.apply) rest
        (c, verdict.map ((r.target, effect) :: ·))
      | none => deliver c rest
    else (c, .stopped (.missing r.target))

/-- What is told about a fired event. -/
def firedText (id : String) (effects : List (String × Effect)) : String :=
  let told := ", ".intercalate (effects.map fun (target, effect) => target ++ " " ++ effect.word)
  "    🔥 " ++ id ++ " fired → " ++ if effects.isEmpty then "no effects" else told

/-- Fires an event if it is executable. -/
def fire (r : Run τ) (id : String) : Logged (Run τ × Verdict Unit) :=
  match r.model.events.get? id with
  | none => pure (r, .stopped (.missing id))
  | some e =>
    if e.marking.executable then
      match deliver r.model (r.model.outgoing id) with
      | (model, .done effects) =>
        let events := model.events.modify id fun e =>
          { e with marking := { e.marking with executed := true } }
        ⟨({ model := { model with events }, history := r.history ++ [id] }, .done ()),
          [.debug (firedText id effects)]⟩
      | (model, .refused) => pure ({ r with model }, .refused)
      | (model, .stopped o) => pure ({ r with model }, .stopped o)
    else
      ⟨(r, .refused), [.debug ("    " ++ id ++ " is not executable; firing ignored")]⟩

/-- The notices that go with the start of a run. -/
def startNotices (r : Run τ) : List Notice :=
  [.advice "Simulation started", .debug ("Initially executable: " ++ Text.quotedList r.executable)]

end Run

end Dcr
