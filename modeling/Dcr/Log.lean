/-! What an editing session tells its user: notices of several kinds, the lines they print, and the
advisory history they leave. -/

namespace Dcr

/-- Why an edit is refused. -/
inductive Rejection where
  | duplicateRelation
  | spawnTarget
  | protectedRelation
  | selfParent
  | cyclicParent
  | notAContainer
  | emptyContainer
  | noInitiators
  | duplicateRole
  | simulationRunning
  deriving DecidableEq, Repr

def Rejection.name : Rejection → String
  | duplicateRelation => "DUPLICATE_RELATION"
  | spawnTarget => "SPAWN_TARGET"
  | protectedRelation => "PROTECTED_RELATION"
  | selfParent => "SELF_PARENT"
  | cyclicParent => "CYCLIC_PARENT"
  | notAContainer => "NOT_A_CONTAINER"
  | emptyContainer => "EMPTY_CONTAINER"
  | noInitiators => "NO_INITIATORS"
  | duplicateRole => "DUPLICATE_ROLE"
  | simulationRunning => "SIMULATION_RUNNING"

def Rejection.text : Rejection → String
  | duplicateRelation => "duplicate relation"
  | spawnTarget => "spawn target is not a subprocess"
  | protectedRelation => "relation is owned by a choice"
  | selfParent => "node cannot contain itself"
  | cyclicParent => "parent is a descendant of the node"
  | notAContainer => "parent is not a container"
  | emptyContainer => "container needs at least one child"
  | noInitiators => "event needs at least one initiator"
  | duplicateRole => "role already exists"
  | simulationRunning => "simulation is running"

/-- How important a line is, in ascending order. -/
inductive Level where
  | debug
  | info
  | warning
  | error
  deriving DecidableEq, Repr

def Level.rank : Level → Nat
  | debug => 0
  | info => 1
  | warning => 2
  | error => 3

/-- One thing told to the user. Advice and refusals also enter the advisory history. -/
inductive Notice where
  | debug (text : String)
  | info (text : String)
  | warning (text : String)
  | error (text : String)
  | advice (text : String)
  | refusal (reason : Rejection) (attempt : String)
  deriving DecidableEq, Repr

namespace Notice

def level : Notice → Level
  | debug _ => .debug
  | info _ => .info
  | warning _ => .warning
  | error _ => .error
  | advice _ => .info
  | refusal _ _ => .warning

/-- A refused attempt with its reason. -/
def refusalText (reason : Rejection) (attempt : String) : String :=
  attempt ++ " (" ++ reason.text ++ ")."

/-- The entry in the advisory history. -/
def advisory? : Notice → Option String
  | advice text => some text
  | refusal reason attempt => some (refusalText reason attempt)
  | _ => none

/-- The printed line: advice and information stand alone, the rest names its level. -/
def line : Notice → String
  | debug text => "[DEBUG] " ++ text
  | info text => text
  | warning text => "[WARNING] " ++ text
  | error text => "[ERROR] " ++ text
  | advice text => text
  | refusal reason attempt =>
    "[WARNING] Rejected (" ++ reason.name ++ "): " ++ refusalText reason attempt

/-- The lines of the notices that reach a level, each one ended. -/
def print (least : Level) (notices : List Notice) : String :=
  String.join ((notices.filter fun n => least.rank ≤ n.level.rank).map fun n => n.line ++ "\n")

def history (notices : List Notice) : List String := notices.filterMap advisory?

end Notice

/-- A value with the notices given on the way to it. -/
structure Logged (α : Type) where
  value : α
  log : List Notice := []
  deriving Repr

namespace Logged

variable {α β : Type}

instance : Monad Logged where
  pure a := ⟨a, []⟩
  bind x f := ⟨(f x.value).value, x.log ++ (f x.value).log⟩

/-- Gives some notices. -/
def tell (notices : List Notice) : Logged Unit := ⟨(), notices⟩

@[simp] theorem value_pure (a : α) : (pure a : Logged α).value = a := rfl

@[simp] theorem log_pure (a : α) : (pure a : Logged α).log = [] := rfl

@[simp] theorem value_bind (x : Logged α) (f : α → Logged β) :
    (x >>= f).value = (f x.value).value := rfl

@[simp] theorem log_bind (x : Logged α) (f : α → Logged β) :
    (x >>= f).log = x.log ++ (f x.value).log := rfl

@[simp] theorem value_map (f : α → β) (x : Logged α) : (f <$> x).value = f x.value := rfl

@[simp] theorem log_map (f : α → β) (x : Logged α) : (f <$> x).log = x.log :=
  List.append_nil x.log

end Logged

end Dcr
