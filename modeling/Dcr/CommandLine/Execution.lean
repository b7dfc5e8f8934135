import Dcr.CommandLine.Arguments
import Dcr.CommandLine.Files
import Dcr.Document.Loading
import Dcr.Document.Writing
import Dcr.Editor
import Dcr.Json.Reading
import Dcr.MarkingTable
import Dcr.Sample

/-! Carrying out commands: on some files, with what is printed and told in its order. -/

namespace Dcr.CommandLine

/-- What keeps a command from ending well. -/
inductive CommandError where
  | document (e : DocumentError)
  | code (e : EventLine.ParseError)
  | file (e : FileError)
  | number (digits : Nat)
  | nesting (n : Json.Nesting)
  | stopped (o : Obstacle)
  | levels
  | noPath
  deriving DecidableEq, Repr

namespace CommandError

/-- The error that a document makes of a command. -/
def ofDocument : DocumentError → CommandError
  | .misfit m => stopped (.misfit m)
  | e => document e

/-- The error that the text of a document makes of a command. -/
def ofFault (path : Path) : Json.ReadFault → CommandError
  | .malformed => document (.unreadable path.text)
  | .tooManyDigits digits => number digits
  | .tooDeep n => nesting n

/-- What is wrong with something that no command looks out for. -/
def unexpected (cause : String) : String := "Unexpected error: " ++ cause

def message : CommandError → String
  | document e => "Document error: " ++ e.message
  | code e => "Code parsing error: " ++ e.message
  | file .nullByte => unexpected FileError.nullByte.message
  | file e => "File error: " ++ e.message
  | number digits => unexpected (Text.tooManyDigits digits)
  | nesting n =>
    unexpected ("maximum recursion depth exceeded while decoding a JSON " ++ n.name
      ++ " from a unicode string")
  | stopped o => unexpected o.message
  | levels => unexpected "maximum recursion depth exceeded"
  | noPath => unexpected "expected str, bytes or os.PathLike object, not list"

def exitCode : CommandError → Nat
  | document _ => 1
  | code _ => 2
  | file (.fault _ _) => 3
  | _ => 5

end CommandError

/-- Something that appears on the screen: a printed text, or a notice if it is important enough. -/
inductive Output where
  | printed (text : String)
  | noticed (n : Notice)
  deriving DecidableEq, Repr

def Output.show (least : Level) : Output → String
  | printed text => text ++ "\n"
  | noticed n => Notice.print least [n]

/-- The files at hand and what has appeared so far. -/
structure Console where
  files : Files
  output : List Output := []
  deriving DecidableEq, Repr

abbrev CommandM := ExceptT CommandError (StateM Console)

namespace Command

def say (text : String) : CommandM Unit :=
  modify fun c => { c with output := c.output ++ [.printed text] }

def tell (notices : List Notice) : CommandM Unit :=
  modify fun c => { c with output := c.output ++ notices.map .noticed }

/-- A value with its notices told. -/
def logged {α : Type} (x : Logged α) : CommandM α := do
  tell x.log
  return x.value

/-- A value, unless there is an obstacle to it. -/
def unobstructed {α : Type} (x : Except Obstacle α) : CommandM α :=
  match x with
  | .ok a => return a
  | .error o => throw (.stopped o)

def fitting {α : Type} (x : Except Misfit α) : CommandM α := unobstructed (x.mapError .misfit)

/-- The text of a file, each of its line breaks a line feed. -/
def readText (path : Path) : CommandM String := do
  match (← get).files.read path with
  | .ok text => return String.ofList (Text.unifyNewlines text.toList)
  | .error e => throw (.file e)

def writeText (path : Path) (text : String) : CommandM Unit := do
  match (← get).files.write path text with
  | .ok files => modify fun c => { c with files }
  | .error e => throw (.file e)

/-- The choreography of the document at a path. -/
def readDocument (path : Path) : CommandM (Choreography Json) := do
  tell [.debug ("Reading choreography document: " ++ path.text)]
  match Json.read (← readText path) with
  | .ok (.obj members) =>
    match ← logged (loadJson (.obj members)) with
    | .ok c => return c
    | .error e => throw (.ofDocument e)
  | .ok _ => throw (.document (.notAnObject path.text))
  | .error fault => throw (.ofFault path fault)

def writeDocument (c : Choreography Json) (path : Path) : CommandM Unit := do
  writeText path c.document.toJson.indented
  tell [.debug ("Wrote choreography document: " ++ path.text)]

/-- The path in a place for one. -/
def pathIn (given : GivenPath) : CommandM Path :=
  match given with
  | .path p => return p
  | .vacant => throw .noPath

/-- So many processes and nests may be inside one another where a command makes code. -/
def deepestLevel : Nat := 986

/-- The code of a choreography. All parents and scopes have to be there before any depth counts. -/
def generated (c : Choreography Json) : CommandM GeneratedCode := do
  if c.misplaced? = none ∧ deepestLevel < c.depth then throw .levels
  unobstructed (← logged c.generate)

def runGenerate (document : Path) (output : Option GivenPath) : CommandM Nat := do
  let c ← readDocument document
  let code ← generated c
  match output with
  | none => say code.text
  | some given =>
    let path ← pathIn given
    writeText path (code.text ++ "\n")
    tell [.info ("Wrote " ++ path.text)]
  return 0

def sayMarkings (e : Editor Json) : CommandM Unit := do
  say (← fitting (MarkingTable.render e.shown))

/-- Fires events one after the other, up to the first one that is not there. -/
def fireAll (e : Editor Json) : List String → CommandM Nat
  | [] => do
    let _ ← logged e.stop
    return 0
  | id :: rest => do
    say ""
    if !e.shown.events.contains id then
      tell [.error ("Unknown event: " ++ id)]
      let _ ← logged e.stop
      return 1
    else
      let (e, verdict) ← logged (e.fire id)
      match verdict with
      | .stopped o => throw (.stopped o)
      | .done _ => say ("fired " ++ id)
      | .refused => tell [.warning (id ++ " is not executable")]
      sayMarkings e
      fireAll e rest

def runSimulate (document : Path) (events : List String) : CommandM Nat := do
  let c ← readDocument document
  let (e, verdict) ← logged (Editor.start { choreography := c })
  match verdict with
  | .stopped o => throw (.stopped o)
  | _ =>
    sayMarkings e
    fireAll e events

def runSummary (document : Path) : CommandM Nat := do
  let c ← readDocument document
  say ("Events: " ++ toString c.events.size)
  say ("Roles: " ++ (← fitting (FreeText.joined ", " (c.roles.map Role.name))))
  return 0

def runSample (output : Option Path) : CommandM Nat := do
  match output with
  | none => say (Sample.choreography : Choreography Json).document.toJson.indented
  | some path =>
    writeDocument Sample.choreography path
    tell [.info ("Wrote " ++ path.text)]
  return 0

def runRehydrate (document : Path) (code : GivenPath) (output : Option Path) : CommandM Nat := do
  let c ← readDocument document
  let g ← generated c
  let text ← readText (← pathIn code)
  let e : Editor Json := { choreography := c, code := some g }
  match ← logged (e.rehydrate text) with
  | .error error => throw (.code error)
  | .ok records =>
    let (e, updated) ← logged (e.applyRecords records)
    let listed := ", ".intercalate updated
    tell [.info ("Updated events: " ++ if listed = "" then "none" else listed)]
    let path := output.getD document
    writeDocument e.choreography path
    tell [.info ("Wrote " ++ path.text)]
    return 0

def run : Command → CommandM Nat
  | generate document output => runGenerate document output
  | simulate document events => runSimulate document events
  | summary document => runSummary document
  | sample output => runSample output
  | rehydrate document code output => runRehydrate document code output

end Command

/-- How important a notice has to be to appear. -/
def Invocation.level (i : Invocation) : Level :=
  if i.debug then .debug else if i.verbose then .info else .warning

/-- The end of a command: its exit code, what appeared, and the files. -/
structure Outcome where
  exitCode : Nat
  screen : String
  files : Files
  deriving DecidableEq, Repr

def Invocation.run (files : Files) (i : Invocation) : Outcome :=
  let (result, console) := i.command.run.run { files }
  let (exitCode, output) := match result with
    | .ok code => (code, console.output)
    | .error e => (e.exitCode, console.output ++ [Output.noticed (.error e.message)])
  { exitCode, screen := String.join (output.map (Output.show i.level)), files := console.files }

/-- Carries out a command line. A misused one ends with code 2, and nothing appears for it here. -/
def execute (files : Files) (arguments : List String) : Outcome :=
  match parse arguments with
  | .ok i => i.run files
  | .error .usage => { exitCode := 2, screen := "", files }
  | .error .help => { exitCode := 0, screen := "", files }

end Dcr.CommandLine
