import Dcr.Text.Blank
import Dcr.Text.Split

/-! Reading the parties of an event line. -/

namespace Dcr.EventLine

/-- The participants in the rest of a list: `depth` parentheses are open, and `current` is what the
participant at hand has so far, in reverse. A last participant that is blank is left out. -/
def participantsFrom (depth : Int) (current : List Char) : List Char → List (List Char)
  | [] =>
    let last := Text.trim current.reverse
    if last.isEmpty then [] else [last]
  | c :: rest =>
    let depth := if c = '(' then depth + 1 else if c = ')' then depth - 1 else depth
    if c = ',' ∧ depth = 0 then Text.trim current.reverse :: participantsFrom depth [] rest
    else participantsFrom depth (c :: current) rest

/-- The participants of a list separated by the commas outside parentheses. -/
def splitParticipants (cs : List Char) : List String :=
  (participantsFrom 0 [] cs).map String.ofList

/-- The initiators before the first arrow and the receivers after it. -/
def splitParties (cs : List Char) : List String × List String :=
  match Text.cutAt " -> ".toList cs with
  | some (initiators, receivers) => (splitParticipants initiators, splitParticipants receivers)
  | none => (splitParticipants cs, [])

end Dcr.EventLine
