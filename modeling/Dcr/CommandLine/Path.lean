/-! Paths and the places they lead to. A path starts from the working directory unless it is anchored
at the root. -/

namespace Dcr.CommandLine

/-- A path without the steps that stay where they are. -/
structure Path where
  anchor : String
  steps : List String
  deriving DecidableEq, Repr

namespace Path

/-- The slashes at the front of a path: two are kept, any other number counts as one. -/
def anchorOf (text : String) : String :=
  if text.startsWith "/" then
    if text.startsWith "//" && !text.startsWith "///" then "//" else "/"
  else ""

def ofText (text : String) : Path where
  anchor := anchorOf text
  steps := (text.splitOn "/").filter fun step => step != "" && step != "."

/-- A path as it is shown; the one without an anchor or a step is a dot. -/
def text (p : Path) : String :=
  let text := p.anchor ++ "/".intercalate p.steps
  if text = "" then "." else text

end Path

/-- Where the steps to a place begin: at the root, or so many levels above the working directory. -/
inductive Base where
  | root
  | above (levels : Nat)
  deriving DecidableEq, Repr

structure Location where
  base : Base
  steps : List String
  deriving DecidableEq, Repr

namespace Location

/-- A place below the working directory. -/
def below (steps : List String) : Location := ⟨.above 0, steps⟩

/-- Where a path starts. -/
def start (p : Path) : Location := if p.anchor = "" then below [] else ⟨.root, []⟩

def enter (l : Location) (step : String) : Location := { l with steps := l.steps ++ [step] }

/-- The place right above; there is none above the root. -/
def up : Location → Location
  | ⟨.root, []⟩ => ⟨.root, []⟩
  | ⟨.above levels, []⟩ => ⟨.above (levels + 1), []⟩
  | ⟨base, steps⟩ => ⟨base, steps.dropLast⟩

/-- Whether a place lies somewhere inside another one. -/
def isInside (l outer : Location) : Bool :=
  l.base == outer.base && outer.steps.isPrefixOf l.steps && l.steps != outer.steps

/-- The place after one more step. -/
def step (l : Location) (name : String) : Location := if name = ".." then l.up else l.enter name

/-- A path that leads to a place. -/
def text (l : Location) : String :=
  match l.base with
  | .root => "/" ++ "/".intercalate l.steps
  | .above levels => "/".intercalate (List.replicate levels ".." ++ l.steps)

end Location

end Dcr.CommandLine
