import Dcr.Text.UpperTable

/-! Upper case, one character of which may become several. -/

namespace Dcr.Text

def UpperRun.covers (run : UpperRun) (code : Nat) : Bool :=
  run.first ≤ code && code ≤ run.last && (code - run.first) % run.stride == 0

/-- The upper-case form of a character: itself if it has none of its own. -/
def upper (c : Char) : List Char :=
  match upperSequences.find? fun row => row.1 == c.toNat with
  | some (_, codes) => codes.map Char.ofNat
  | none =>
    match upperRuns.find? fun run => run.covers c.toNat with
    | some run => [Char.ofNat (c.toNat + run.shift).toNat]
    | none => [c]

/-- The text with its first character in upper case and the rest as it is. -/
def capitalize (s : String) : String :=
  match s.toList with
  | [] => s
  | c :: rest => String.ofList (upper c ++ rest)

end Dcr.Text
