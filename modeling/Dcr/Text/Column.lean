/-! Columns of a fixed width. -/

namespace Dcr.Text

/-- The text filled up with spaces on the right; a longer text stays as it is. -/
def padRight (width : Nat) (s : String) : String :=
  s ++ String.ofList (List.replicate (width - s.length) ' ')

end Dcr.Text
