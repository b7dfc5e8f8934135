/-! Cutting a text at a separator. -/

namespace Dcr.Text

/-- The parts before and after the first occurrence of a separator, if it occurs. -/
def cutAt (separator : List Char) : List Char → Option (List Char × List Char)
  | [] => if separator.isEmpty then some ([], []) else none
  | c :: rest =>
    if separator.isPrefixOf (c :: rest) then some ([], (c :: rest).drop separator.length)
    else (cutAt separator rest).map fun (before, after) => (c :: before, after)

end Dcr.Text
