import Dcr.CommandLine.Path
import Dcr.Text.Quoted

/-! Files by their places. A directory is there if some file lies inside it; so are the working
directory, the root and whatever is on the way from one to the other. -/

namespace Dcr.CommandLine

/-- What is wrong with a path. -/
inductive PathFault where
  | notFound
  | notADirectory
  | isADirectory
  | nameTooLong
  deriving DecidableEq, Repr

def PathFault.message : PathFault → String
  | notFound => "[Errno 2] No such file or directory"
  | notADirectory => "[Errno 20] Not a directory"
  | isADirectory => "[Errno 21] Is a directory"
  | nameTooLong => "[Errno 36] File name too long"

/-- Why a file cannot be opened. -/
inductive FileError where
  | nullByte
  | fault (f : PathFault) (path : Path)
  deriving DecidableEq, Repr

def FileError.message : FileError → String
  | nullByte => "embedded null byte"
  | fault f path => f.message ++ ": " ++ Text.quoted path.text

/-- The files, each with its text. -/
abbrev Files := List (Location × String)

namespace Files

/-- The bytes that a path may have, and those that one of its steps may have. -/
def mostBytes : Nat := 4095

def mostStepBytes : Nat := 255

def isDirectory (files : Files) (l : Location) : Bool :=
  l.steps.isEmpty || files.any fun file => file.1.isInside l

/-- Why a place is not a directory. -/
def noDirectory (files : Files) (l : Location) : PathFault :=
  if (files.lookup l).isSome then .notADirectory else .notFound

/-- Takes some steps, every one of them from a directory. -/
def walk (files : Files) (here : Location) : List String → Except PathFault Location
  | [] => .ok here
  | step :: rest =>
    if !files.isDirectory here then .error (files.noDirectory here)
    else if mostStepBytes < step.utf8ByteSize then .error .nameTooLong
    else files.walk (here.step step) rest

/-- The place that a path leads to. -/
def locate (files : Files) (path : Path) : Except FileError Location :=
  if path.text.contains '\x00' then .error .nullByte
  else if mostBytes < path.text.utf8ByteSize then .error (.fault .nameTooLong path)
  else match files.walk (.start path) path.steps with
    | .ok l => .ok l
    | .error f => .error (.fault f path)

def read (files : Files) (path : Path) : Except FileError String := do
  let l ← files.locate path
  match files.lookup l with
  | some text => .ok text
  | none => .error (.fault (if files.isDirectory l then .isADirectory else .notFound) path)

/-- The files with the text of one replaced, or with a new one at the end. -/
def put (l : Location) (text : String) : Files → Files
  | [] => [(l, text)]
  | file :: rest => if file.1 = l then (l, text) :: rest else file :: put l text rest

def write (files : Files) (path : Path) (text : String) : Except FileError Files := do
  let l ← files.locate path
  if (files.lookup l).isNone && files.isDirectory l then .error (.fault .isADirectory path)
  else .ok (files.put l text)

/-- The files that are not among others with the same text. -/
def changedFrom (files before : Files) : Files :=
  files.filter fun file => before.lookup file.1 != some file.2

/-- Files below the working directory by their names. -/
def ofNames (named : List (String × String)) : Files :=
  named.map fun (name, text) => (.below (Path.ofText name).steps, text)

/-- The files below the working directory, each under its name. -/
def named (files : Files) : List (String × String) :=
  (files.filter fun file => file.1.base == .above 0).map fun (l, text) => (l.text, text)

end Files

end Dcr.CommandLine
