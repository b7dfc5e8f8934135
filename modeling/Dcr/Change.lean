import Dcr.Choreography
import Dcr.Log

/-! Changes of a choreography. -/

namespace Dcr

/-- How a change ends. A refusal leaves the choreography as it was; an obstacle may be met midway. -/
inductive Verdict (α : Type) where
  | done (value : α)
  | refused
  | stopped (o : Obstacle)
  deriving DecidableEq, Repr

def Verdict.map {α β : Type} (f : α → β) : Verdict α → Verdict β
  | done value => done (f value)
  | refused => refused
  | stopped o => stopped o

/-- A refused attempt, which leaves the choreography as it is. -/
def refuse {α τ : Type} [FreeText τ] (c : Choreography τ) (reason : Rejection) (attempt : String) :
    Logged (Choreography τ × Verdict α) :=
  ⟨(c, .refused), [.refusal reason attempt]⟩

end Dcr
