import Dcr.Change
import Dcr.Text.Upper

/-! Edits of roles and their participants, and of the two texts. -/

namespace Dcr.Choreography

open FreeText (ofText isText orText shown)

variable {τ : Type} [FreeText τ]

/-- Declares a role. Its name is capitalized, and its label is its name unless told otherwise. -/
def addRole (c : Choreography τ) (name : String) (label : Option τ)
    (parameters : List (Parameter τ)) : Logged (Choreography τ × Verdict (Role τ)) :=
  let name := Text.capitalize name
  if (c.role? name).isSome then refuse c .duplicateRole ("Cannot add role " ++ name)
  else
    let role : Role τ := { name := ofText name, label := orText label name, parameters }
    ⟨({ c with roles := c.roles ++ [role] }, .done role), [.advice ("Role added: " ++ name ++ ".")]⟩

/-- The roles with the first one of a name changed. -/
def modifyRole (name : String) (f : Role τ → Role τ) : List (Role τ) → List (Role τ)
  | [] => []
  | r :: rest => if r.isNamed name then f r :: rest else r :: modifyRole name f rest

def removeRole (c : Choreography τ) (name : String) : Logged (Choreography τ × Verdict Unit) :=
  ⟨({ c with roles := c.roles.eraseP fun r => r.isNamed name }, .done ()),
    [.advice ("Role removed: " ++ name ++ ".")]⟩

/-- Adds a participant to a role, unless some parameter has no binding. -/
def addParticipant (c : Choreography τ) (name : String) (role : Role τ)
    (bindings : List (String × String)) : Logged (Choreography τ × Verdict τ) :=
  match role.participant bindings with
  | .error o => pure (c, .stopped o)
  | .ok participant =>
    let roles := modifyRole name
      (fun r => { r with participants := r.participants ++ [participant] }) c.roles
    ⟨({ c with roles }, .done participant),
      [.advice ("Participant added: " ++ shown participant ++ ".")]⟩

/-- Removes a participant from a role wherever it stands. -/
def removeParticipant (c : Choreography τ) (role participant : String) :
    Logged (Choreography τ × Verdict Unit) :=
  let roles := modifyRole role
    (fun r => { r with participants := r.participants.filter fun p => !isText p participant }) c.roles
  ⟨({ c with roles }, .done ()), [.advice ("Participant removed: " ++ participant ++ ".")]⟩

def setSecurity (c : Choreography τ) (security : τ) : Logged (Choreography τ × Verdict Unit) :=
  ⟨({ c with security }, .done ()), [.debug "Security lattice updated"]⟩

def setDocumentation (c : Choreography τ) (documentation : τ) :
    Logged (Choreography τ × Verdict Unit) :=
  ⟨({ c with documentation }, .done ()), [.debug "Documentation updated"]⟩

end Dcr.Choreography
