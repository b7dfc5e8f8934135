import Dcr.CommandLine.Path
import Dcr.CommandLine.Words

/-! Command lines: general switches, the name of a command, and its own switches and plain words. -/

namespace Dcr.CommandLine

/-- A path as a command line gives it. A separator in the place of one is taken away, and then there
is a place but no path in it. -/
inductive GivenPath where
  | path (p : Path)
  | vacant
  deriving DecidableEq, Repr

namespace GivenPath

/-- The path, if there is one. -/
def path? : GivenPath → Option Path
  | path p => some p
  | vacant => none

/-- The path, or the one whose name is a pair of brackets. -/
def orBrackets : GivenPath → Path
  | path p => p
  | vacant => .ofText "[]"

end GivenPath

inductive Command where
  | generate (document : Path) (output : Option GivenPath)
  | simulate (document : Path) (events : List String)
  | summary (document : Path)
  | sample (output : Option Path)
  | rehydrate (document : Path) (code : GivenPath) (output : Option Path)
  deriving DecidableEq, Repr

structure Invocation where
  verbose : Bool
  debug : Bool
  command : Command
  deriving DecidableEq, Repr

/-- Why nothing is carried out. -/
inductive Stop where
  | usage
  | help
  deriving DecidableEq, Repr

def helpSwitch : Switch := ⟨"help", some 'h', false⟩

def verboseSwitch : Switch := ⟨"verbose", some 'v', false⟩

def debugSwitch : Switch := ⟨"debug", none, false⟩

def outputSwitch : Switch := ⟨"output", some 'o', true⟩

/-- What a command takes: its switches, a number of plain words, and perhaps any number of further
ones. -/
structure Usage where
  switches : List Switch
  plain : Nat
  further : Bool
  deriving DecidableEq, Repr

def usage? : String → Option Usage
  | "generate" => some ⟨[helpSwitch, outputSwitch], 1, false⟩
  | "simulate" => some ⟨[helpSwitch], 1, true⟩
  | "summary" => some ⟨[helpSwitch], 1, false⟩
  | "sample" => some ⟨[helpSwitch, outputSwitch], 0, false⟩
  | "rehydrate" => some ⟨[helpSwitch, outputSwitch], 2, false⟩
  | _ => none

/-- The path that a word gives. -/
def GivenPath.ofText (text : String) : GivenPath :=
  if text = separatorText then .vacant else .path (.ofText text)

/-- What has been read of a command: its plain words, all of them paths, the further ones once they have
been looked for, the output, and whether some word has no place. -/
structure Reading where
  plain : List GivenPath := []
  further : Option (List String) := none
  output : Option GivenPath := none
  misplaced : Bool := false
  deriving DecidableEq, Repr

def isPlain : Word → Bool
  | .plain _ => true
  | .separator => true
  | _ => false

/-- Takes one plain word, with a separator on either side of it. One that looks like a separator is a
path only behind a real one. -/
def takePlain : List Word → Option (GivenPath × List Word)
  | .separator :: .plain text :: rest => some (.path (.ofText text), rest)
  | .plain text :: rest => some (.ofText text, rest.dropWhile (· == .separator))
  | _ => none

/-- Takes as many plain words as are due from a run of words without switches. -/
def takePlains : Nat → List Word → List GivenPath × List Word
  | 0, words => ([], words)
  | due + 1, words =>
    match takePlain words with
    | none => ([], words)
    | some (path, rest) =>
      let (paths, rest) := takePlains due rest
      (path :: paths, rest)

/-- Puts a run of words without switches in its place. The further words follow the last one that is
due, in the same run. -/
def Reading.takeRun (usage : Usage) (r : Reading) (run : List Word) : Reading :=
  let (paths, rest) := takePlains (usage.plain - r.plain.length) run
  let r := { r with plain := r.plain ++ paths }
  if usage.further && r.further.isNone && r.plain.length == usage.plain then
    { r with further := some ((rest.map Word.text).erase separatorText) }
  else { r with misplaced := r.misplaced || !rest.isEmpty }

/-- The switches of a word with the value of the last one, which may be the word that follows. -/
def completed : List (Switch × Option String) → List Word →
    Except Stop (List (Switch × String) × List Word)
  | [], rest => .ok ([], rest)
  | (s, value) :: more, rest => do
    let (value, rest) ← match value, s.takesValue, rest with
      | some value, _, rest => .ok (value, rest)
      | none, false, rest => .ok ("", rest)
      | none, true, .plain value :: rest => .ok (value, rest)
      | none, true, _ => .error .usage
    let (uses, rest) ← completed more rest
    return ((s, value) :: uses, rest)

/-- Notes a switch of a command with its value. -/
def Reading.note (r : Reading) (use : Switch × String) : Except Stop Reading :=
  if use.1 = helpSwitch then .error .help else .ok { r with output := some (.ofText use.2) }

/-- Reads the words of a command; each step takes at least one word. -/
def Reading.read (usage : Usage) : Nat → Reading → List Word → Except Stop Reading
  | _, r, [] => .ok r
  | 0, r, _ => .ok r
  | steps + 1, r, word :: rest =>
    match word with
    | .ambiguous => .error .usage
    | .unknown => Reading.read usage steps { r with misplaced := true } rest
    | .switch use =>
      match use.expand usage.switches with
      | none => .error .usage
      | some uses => do
        let (uses, rest) ← completed uses rest
        Reading.read usage steps (← uses.foldlM Reading.note r) rest
    | _ =>
      Reading.read usage steps (r.takeRun usage ((word :: rest).takeWhile isPlain))
        ((word :: rest).dropWhile isPlain)

/-- The command of a name with what has been read of it. -/
def command? (name : String) (r : Reading) : Option Command :=
  match name, r.plain with
  | "generate", [.path document] => some (.generate document r.output)
  | "simulate", [.path document] => some (.simulate document (r.further.getD []))
  | "summary", [.path document] => some (.summary document)
  | "sample", [] => some (.sample (r.output.map GivenPath.orBrackets))
  | "rehydrate", [.path document, code] =>
    some (.rehydrate document code (r.output.bind GivenPath.path?))
  | _, _ => none

/-- Reads the words after the name of a command. -/
def readCommand (name : String) (texts : List String) : Except Stop Command :=
  match usage? name with
  | none => .error .usage
  | some usage =>
    let words := Switch.words usage.switches texts
    if words.contains .ambiguous then .error .usage
    else do
      let r ← Reading.read usage words.length {} words
      if r.misplaced then .error .usage
      else (command? name r).elim (.error .usage) .ok

def generalSwitches : List Switch := [helpSwitch, verboseSwitch, debugSwitch]

/-- Reads a command line. An unknown switch spoils it in the end, but help comes first. -/
def readInvocation (verbose debug spoiled : Bool) : List String → Except Stop Invocation
  | [] => .error .usage
  | text :: rest =>
    if text = separatorText then .error .usage
    else match Switch.word generalSwitches text with
    | .plain name => do
      let command ← readCommand name rest
      if spoiled then .error .usage else .ok { verbose, debug, command }
    | .switch use =>
      match use.expand generalSwitches with
      | none => .error .usage
      | some uses =>
        let used (s : Switch) : Bool := uses.any fun u => u.1 = s
        if used helpSwitch then .error .help
        else readInvocation (verbose || used verboseSwitch) (debug || used debugSwitch) spoiled rest
    | .unknown => readInvocation verbose debug true rest
    | _ => .error .usage

/-- The invocation that a command line asks for. An ambiguous switch comes before everything else. -/
def parse (arguments : List String) : Except Stop Invocation :=
  if (Switch.words generalSwitches arguments).contains .ambiguous then .error .usage
  else readInvocation false false false arguments

end Dcr.CommandLine
