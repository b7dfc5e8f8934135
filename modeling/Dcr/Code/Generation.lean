import Dcr.Code.Body
import Dcr.EventLine
import Dcr.Log

/-! Generated code: the roles, the security lattice, and the process at the top level. A process is
its event lines, a terminator and its relations; a spawn shows the process of its target in braces,
one tab deeper, and leaves it empty if that process is being shown already. -/

namespace Dcr

open FreeText (ofText shown)

variable {τ : Type} [FreeText τ]

/-- Generated code, with the event lines in it, each one under the id of its event. -/
structure GeneratedCode where
  text : String
  rendered : List (String × String)
  deriving DecidableEq, Repr

/-- The pairs with the first value under each key. -/
def firstPairs (pairs : List (String × String)) : List (String × String) :=
  pairs.foldl (fun firsts pair =>
    if firsts.any fun first => first.1 == pair.1 then firsts else firsts ++ [pair]) []

/-- The first line of each event. -/
def GeneratedCode.eventLines (g : GeneratedCode) : List (String × String) := firstPairs g.rendered

/-- A line of a process, the place where a spawn is left empty, or what keeps a process from being
shown any further. -/
inductive Piece where
  | event (id line : String)
  | text (line : String)
  | recursion (target source : String)
  | obstacle (o : Obstacle)
  deriving DecidableEq, Repr

namespace Piece

def line? : Piece → Option String
  | event _ line => some line
  | text line => some line
  | _ => none

def eventLine? : Piece → Option (String × String)
  | event id line => some (id, line)
  | _ => none

def notice? : Piece → Option Notice
  | recursion target source =>
    some (.warning ("Recursive spawn of " ++ target ++ " from " ++ source ++ " left empty"))
  | _ => none

def obstacle? : Piece → Option Obstacle
  | obstacle o => some o
  | _ => none

end Piece

namespace Choreography

def terminator : String := ";"

/-- The label of a node as it is shown, if the node is there. -/
def label (c : Choreography τ) (id : String) : Except Obstacle String :=
  match c.node? id with
  | some node => .ok (shown node.label)
  | none => .error (.missing id)

/-- An event of a process. -/
def eventPiece (indent : String) (e : Event τ) : Piece :=
  match EventLine.render e.content with
  | .ok line => .event e.id (indent ++ line)
  | .error m => .obstacle (.misfit m)

/-- A relation of a process other than a spawn. -/
def relationPiece (c : Choreography τ) (indent : String) (r : Relation τ) : Piece :=
  match c.label r.source, c.label r.target with
  | .ok source, .ok target =>
    .text (indent ++ source ++ " " ++ r.type.arrow ++ " " ++ target ++ r.guardText)
  | .error o, _ => .obstacle o
  | _, .error o => .obstacle o

/-- A spawn around the process that it shows. -/
def spawnPieces (c : Choreography τ) (indent : String) (r : Relation τ) (inner : List Piece) :
    List Piece :=
  match c.label r.source with
  | .ok source =>
    .text (indent ++ source ++ " " ++ r.type.arrow ++ " \x7b") :: inner
      ++ [.text (indent ++ "\x7d")]
  | .error o => [.obstacle o]

/-- The process of a scope. The scopes in `active` are being shown already, and so many further
levels may open. -/
def process (c : Choreography τ) : Nat → List String → String → String → List Piece
  | 0, _, _, _ => []
  | levels + 1, active, indent, scope =>
    (c.body scope).events.map (eventPiece indent) ++ .text (indent ++ terminator) ::
      (c.body scope).relations.flatMap fun r =>
        if r.type = .spawn then
          c.spawnPieces indent r (
            if r.target = scope ∨ r.target ∈ active then [.recursion r.target r.source]
            else if r.target ∈ c.scopes then
              c.process levels (scope :: active) (indent ++ "\t") r.target
            else [])
        else [c.relationPiece indent r]

/-- The pieces of the process at the top level. The scopes on the way to a process are distinct, so
there are at most as many levels as scopes. -/
def pieces (c : Choreography τ) : List Piece :=
  match c.misplaced? with
  | some id => [.obstacle (.missing id)]
  | none => c.process (c.containers.size + 1) [] "" topLevel

/-- How many processes and nests are inside one another in the process of a scope, counted so many
processes deep. The scopes in `active` are being shown already. -/
def depthWithin (c : Choreography τ) : Nat → List String → String → Nat
  | 0, _, _ => 0
  | levels + 1, active, scope =>
    (c.body scope).relations.foldl (fun deepest r =>
        if r.type = .spawn ∧ ¬ (r.target = scope ∨ r.target ∈ active) ∧ r.target ∈ c.scopes then
          max deepest (c.depthWithin levels (scope :: active) r.target + 1)
        else deepest)
      (c.nestingWithin (c.containers.size + 1) scope)

/-- How many processes and nests are inside one another below the top level. -/
def depth (c : Choreography τ) : Nat := c.depthWithin (c.containers.size + 1) [] topLevel

/-- The lines before the process: the roles and the security lattice, each one ended. -/
def preamble (c : Choreography τ) : List τ :=
  c.roles.map Role.signature ++ [ofText terminator, c.security, ofText terminator]

/-- The code that some pieces without an obstacle make after the lines before the process. -/
def codeOf (preamble : List String) (pieces : List Piece) : GeneratedCode where
  text := "\n".intercalate (preamble ++ pieces.filterMap Piece.line?)
  rendered := pieces.filterMap Piece.eventLine?

/-- Tells how many lines there are. -/
def sizeNotice (preamble : List τ) (pieces : List Piece) : Notice :=
  .debug ("Generated " ++ toString (preamble.length + (pieces.filterMap Piece.line?).length)
    ++ " lines, " ++ toString (pieces.filterMap Piece.eventLine?).length ++ " event lines")

/-- The code of a choreography, or the first obstacle on the way to it; the lines before the process
come last. -/
def generate (c : Choreography τ) : Logged (Except Obstacle GeneratedCode) := do
  let reached := c.pieces.takeWhile fun p => p.obstacle?.isNone
  Logged.tell (reached.filterMap Piece.notice?)
  match c.pieces.findSome? Piece.obstacle? with
  | some o => return .error o
  | none =>
    Logged.tell [sizeNotice c.preamble c.pieces]
    match FreeText.textsFrom 0 c.preamble with
    | .ok preamble => return .ok (codeOf preamble c.pieces)
    | .error m => return .error (.misfit m)

end Choreography

end Dcr
