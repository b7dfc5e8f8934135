/-! Markings: the state of an event or container in the condition-response semantics. -/

namespace Dcr

/-- Being included and pending belongs to the model; being executable and executed belongs to a
run. -/
structure Marking where
  included : Bool := true
  pending : Bool := false
  executable : Bool := false
  executed : Bool := false
  deriving DecidableEq, Repr

namespace Marking

/-- The marking without the state of a run. -/
def persistent (m : Marking) : Marking := { included := m.included, pending := m.pending }

/-- The words for the flags that are set, and for not being included. -/
def words (m : Marking) : List String :=
  [if m.included then "included" else "excluded"]
    ++ (if m.pending then ["pending"] else [])
    ++ (if m.executable then ["executable"] else [])
    ++ (if m.executed then ["executed"] else [])

def render (m : Marking) : String := "\x7b" ++ ", ".intercalate m.words ++ "\x7d"

end Marking

end Dcr
