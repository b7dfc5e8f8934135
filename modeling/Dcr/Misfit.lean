import Dcr.Text.Quoted

/-! What keeps a call from its end although it was not refused: a value of a kind that does not fit
where it is used, an id that names nothing, or values too deep inside one another. -/

namespace Dcr

/-- A value that does not fit, by its kind. -/
inductive Misfit where
  | unjoined (position : Nat) (kind : String)
  | unkeyed (kind : String)
  | unpadded (kind : String)
  deriving DecidableEq, Repr

/-- Only texts can be joined, only what is not made of other values can name something, and only texts
and numbers can stand in a column. -/
def Misfit.message : Misfit → String
  | unjoined position kind =>
    "sequence item " ++ toString position ++ ": expected str instance, " ++ kind ++ " found"
  | unkeyed kind => "unhashable type: '" ++ kind ++ "'"
  | unpadded kind => "unsupported format string passed to " ++ kind ++ ".__format__"

inductive Obstacle where
  | missing (id : String)
  | misfit (m : Misfit)
  | tooDeep
  deriving DecidableEq, Repr

def Obstacle.message : Obstacle → String
  | missing id => Text.quoted id
  | misfit m => m.message
  | tooDeep => "maximum recursion depth exceeded while calling a Python object"

end Dcr
