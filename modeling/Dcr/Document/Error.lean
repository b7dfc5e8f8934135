import Dcr.IdPool
import Dcr.Misfit

/-! What can be wrong with a document. -/

namespace Dcr

/-- What is wrong with a document. A value is memberless if it is asked for a member that may be left
out and is no object. -/
inductive DocumentError where
  | missingKey (key : String)
  | unknownName (shown category : String)
  | badId (error : IdError)
  | wrongType
  | memberless
  | unknownParent (node parent : String)
  | unknownEnd (relation node : String)
  | duplicate (relation first : String)
  | spawnTarget (relation : String)
  | unknownScope (relation scope : String)
  | misfit (m : Misfit)
  | unreadable (path : String)
  | notAnObject (path : String)
  deriving DecidableEq, Repr

namespace DocumentError

/-- A value outside an enumeration. -/
def unknownText (shown category : String) : String := shown ++ " is not a valid " ++ category

/-- An error met while the entries are read. -/
def invalid (cause : String) : String := "Invalid choreography document: " ++ cause

/-- The message of an error. Where the cause has no settled wording a star stands for it. -/
def message : DocumentError → String
  | missingKey key => invalid ("KeyError(" ++ Text.quoted key ++ ")")
  | unknownName shown category =>
    invalid ("ValueError(" ++ Text.quoted (unknownText shown category) ++ ")")
  | badId error => invalid ("ValueError(" ++ Text.quoted error.message ++ ")")
  | wrongType => invalid "*"
  | memberless => invalid "*"
  | unknownParent node parent => "Node " ++ node ++ " has unknown parent " ++ parent
  | unknownEnd relation node => "Relation " ++ relation ++ " references unknown node " ++ node
  | duplicate relation first => "Relation " ++ relation ++ " duplicates " ++ first
  | spawnTarget relation => "Spawn relation " ++ relation ++ " does not target a subprocess"
  | unknownScope relation scope =>
    "Relation " ++ relation ++ " is scoped to unknown container " ++ scope
  | misfit m => m.message
  | unreadable path => "Invalid JSON in " ++ path ++ ": *"
  | notAnObject path => "Document root must be an object: " ++ path

end DocumentError

end Dcr
