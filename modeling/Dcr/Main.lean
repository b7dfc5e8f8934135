import Dcr.CommandLine.Execution

/-! The program: it gathers the files that a command line names, carries the command out, shows what
appears and stores the files that changed. -/

namespace Dcr.CommandLine

/-- The paths that a command names. -/
def Command.paths : Command → List Path
  | generate document output => document :: (output.bind GivenPath.path?).toList
  | simulate document _ => [document]
  | summary document => [document]
  | sample output => output.toList
  | rehydrate document code output => document :: code.path?.toList ++ output.toList

/-- A path cut off after so many steps, and the place where it leads then. -/
def Path.upTo (p : Path) (count : Nat) : Path × Location :=
  ({ p with steps := p.steps.take count }, (p.steps.take count).foldl .step (.start p))

/-- What is at a place: a file, a directory as a file inside it, or nothing. -/
def gather (path : Path) (l : Location) : IO Files := do
  match ← (IO.FS.readFile path.text).toBaseIO with
  | .ok text => return [(l, text)]
  | .error (.inappropriateType _ 21 _) => return [(l.enter "", "")]
  | .error _ => return []

/-- What is on the way along a path. -/
def gatherAlong (p : Path) : IO Files :=
  (List.range (p.steps.length + 1)).flatMapM fun count =>
    let (path, l) := p.upTo count
    gather path l

def usageText : String :=
  "usage: dcr [-h] [-v] [--debug] \x7bgenerate,simulate,summary,sample,rehydrate\x7d ..."

end Dcr.CommandLine

open Dcr.CommandLine

def main (arguments : List String) : IO UInt32 := do
  match parse arguments with
  | .error .help =>
    IO.println usageText
    return 0
  | .error .usage =>
    IO.eprintln usageText
    return 2
  | .ok i =>
    let files ← i.command.paths.flatMapM gatherAlong
    let outcome := i.run files
    IO.print outcome.screen
    for (l, text) in outcome.files.changedFrom files do
      IO.FS.writeFile l.text text
    return UInt32.ofNat outcome.exitCode
