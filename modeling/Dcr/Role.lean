import Dcr.FreeText

/-! Roles, which are classes of actors with parameters, and their participants. -/

namespace Dcr

open FreeText (ofText shown isText)

variable {τ : Type} [FreeText τ]

structure Parameter (τ : Type) where
  var : τ
  type : τ
  deriving DecidableEq, Repr

def Parameter.render (p : Parameter τ) : String := shown p.var ++ ":" ++ shown p.type

structure Role (τ : Type) where
  name : τ
  label : τ
  parameters : List (Parameter τ) := []
  participants : List τ := []
  deriving DecidableEq, Repr

namespace Role

def isNamed (r : Role τ) (name : String) : Bool := isText r.name name

/-- The free texts of a role. -/
def freeTexts (r : Role τ) : List τ :=
  [r.name, r.label] ++ r.parameters.flatMap (fun p => [p.var, p.type]) ++ r.participants

/-- The label with something for each parameter, or the label alone if there are no parameters. -/
def instantiated (r : Role τ) (separator : String) (arguments : List String) : τ :=
  if r.parameters.isEmpty then r.label
  else ofText (shown r.label ++ "(" ++ separator.intercalate arguments ++ ")")

/-- The declaration of a role. -/
def signature (r : Role τ) : τ := r.instantiated "; " (r.parameters.map Parameter.render)

/-- One argument of a participant. -/
def argument (bindings : List (String × String)) (p : Parameter τ) : Except Obstacle String :=
  (shown p.var ++ "=" ++ ·) <$> FreeText.bound bindings p.var

/-- The participant with a binding for every parameter, or what is wrong with the first parameter
without one. -/
def participant (r : Role τ) (bindings : List (String × String)) : Except Obstacle τ :=
  r.instantiated ", " <$> r.parameters.mapM (argument bindings)

end Role

end Dcr
