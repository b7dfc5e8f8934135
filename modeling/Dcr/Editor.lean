import Dcr.Code.Generation
import Dcr.Edit
import Dcr.Rehydration
import Dcr.Simulation

/-! Editors: a choreography with the simulation that may run on it and the code last generated from
it. While a simulation runs every edit is refused. -/

namespace Dcr

variable {τ : Type} [FreeText τ]

structure Editor (τ : Type) [FreeText τ] where
  choreography : Choreography τ := {}
  run : Option (Run τ) := none
  code : Option GeneratedCode := none
  deriving DecidableEq

namespace Editor

/-- The model that a look at markings sees: the snapshot while a simulation runs. -/
def shown (e : Editor τ) : Choreography τ := (e.run.map Run.model).getD e.choreography

/-- The events fired in the current simulation. -/
def history (e : Editor τ) : List String := (e.run.map Run.history).getD []

/-- The events that may be fired now. -/
def executable (e : Editor τ) : List String := (e.run.map Run.executable).getD []

/-- Refuses an edit because a simulation runs. -/
def freeze (e : Editor τ) (edit : Edit τ) : Logged (Editor τ × Verdict (Answer τ)) :=
  ⟨(e, .refused), [.refusal .simulationRunning ("Cannot " ++ edit.attempt)]⟩

def edit (e : Editor τ) (edit : Edit τ) : Logged (Editor τ × Verdict (Answer τ)) :=
  match edit.absent? e.choreography with
  | some id => pure (e, .stopped (.missing id))
  | none =>
    if e.run.isSome then e.freeze edit
    else do
      let (choreography, verdict) ← edit.perform e.choreography
      return ({ e with choreography }, verdict)

/-- Starts a simulation, if none runs. One of a choreography that no snapshot can hold does not
start. -/
def start (e : Editor τ) : Logged (Editor τ × Verdict Unit) :=
  match e.run with
  | some _ => pure (e, .done ())
  | none =>
    if Run.fits e.choreography then
      let run := Run.start e.choreography
      ⟨({ e with run }, .done ()), run.startNotices⟩
    else pure (e, .stopped .tooDeep)

/-- Ends the simulation, if one runs. -/
def stop (e : Editor τ) : Logged (Editor τ) :=
  match e.run with
  | some _ => ⟨{ e with run := none }, [.advice "Simulation stopped"]⟩
  | none => pure e

/-- Fires an event in the simulation that runs; without one nothing happens. -/
def fire (e : Editor τ) (id : String) : Logged (Editor τ × Verdict Unit) :=
  match e.run with
  | some run => do
    let (run, verdict) ← run.fire id
    return ({ e with run }, verdict)
  | none => pure (e, .refused)

/-- Generates the code of the choreography and remembers it. -/
def generate (e : Editor τ) : Logged (Editor τ × Except Obstacle GeneratedCode) := do
  match ← e.choreography.generate with
  | .ok code => return ({ e with code }, .ok code)
  | .error o => return (e, .error o)

/-- Reads edited text against the code last generated. -/
def rehydrate (e : Editor τ) (text : String) :
    Logged (Except EventLine.ParseError (Rehydration.Records τ)) :=
  Rehydration.read text ((e.code.map GeneratedCode.rendered).getD [])

/-- Updates the events whose content differs from what was read for them; the answer lists those
updated. -/
def applyRecords [DecidableEq τ] (e : Editor τ) :
    Rehydration.Records τ → Logged (Editor τ × List String)
  | [] => pure (e, [])
  | (id, content) :: rest =>
    match e.choreography.events.get? id with
    | none => do
      Logged.tell [.warning ("Skipping rehydrated record for unknown event " ++ id)]
      e.applyRecords rest
    | some event =>
      if event.content = content then e.applyRecords rest
      else do
        let (e, verdict) ← e.edit (.updateEvent id content)
        let (e, updated) ← e.applyRecords rest
        match verdict with
        | .done _ => return (e, id :: updated)
        | _ => return (e, updated)

/-- The number of events and the names of the roles. -/
def summary (e : Editor τ) : Except Misfit String := do
  let listed ← FreeText.joined ", " (e.choreography.roles.map Role.name)
  return toString e.choreography.events.size ++ " events, roles: "
    ++ if listed = "" then "-" else listed

/-- A call that may change an editor. -/
inductive Call (τ : Type) [FreeText τ] where
  | edit (edit : Edit τ)
  | start
  | stop
  | fire (id : String)
  | generate
  | applyRecords (records : Rehydration.Records τ)
  deriving DecidableEq, Repr

/-- The editor after a call, whatever the call answers. -/
def call [DecidableEq τ] (e : Editor τ) : Call τ → Logged (Editor τ)
  | .edit edit => Prod.fst <$> e.edit edit
  | .start => Prod.fst <$> e.start
  | .stop => e.stop
  | .fire id => Prod.fst <$> e.fire id
  | .generate => Prod.fst <$> e.generate
  | .applyRecords records => Prod.fst <$> e.applyRecords records

end Editor

end Dcr
