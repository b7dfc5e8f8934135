import Dcr.Json
import Dcr.Misfit

/-! Free texts: labels, names, guards and whatever else is kept as it comes. An edited choreography has
texts there; a document may have any JSON value. -/

namespace Dcr

/-- A type for free texts. Its values are JSON values, and every text is one of them. -/
class FreeText (τ : Type) where
  ofText : String → τ
  toJson : τ → Json
  ofJson? : Json → Option τ
  toJson_ofText : ∀ s, toJson (ofText s) = .str s
  ofJson?_toJson : ∀ x, ofJson? (toJson x) = some x

namespace FreeText

/-- The text in a JSON value that is one. -/
def text? : Json → Option String
  | .str s => some s
  | _ => none

instance : FreeText String where
  ofText s := s
  toJson := .str
  ofJson? := text?
  toJson_ofText _ := rfl
  ofJson?_toJson _ := rfl

instance : FreeText Json where
  ofText := .str
  toJson j := j
  ofJson? := some
  toJson_ofText _ := rfl
  ofJson?_toJson _ := rfl

variable {τ : Type} [FreeText τ]

/-- A free text as it appears inside another text. -/
def shown (x : τ) : String := (toJson x).shown

/-- Whether a free text counts as given. -/
def holds (x : τ) : Bool := (toJson x).holds

/-- Whether a free text is a certain text. -/
def isText (x : τ) (s : String) : Bool := toJson x == .str s

/-- How many lists and objects are inside one another in a free text. -/
def depth (x : τ) : Nat := (toJson x).depth

@[simp] theorem shown_ofText (s : String) : shown (ofText s : τ) = s := by
  simp [shown, toJson_ofText, Json.shown]

@[simp] theorem holds_ofText (s : String) : holds (ofText s : τ) = (s != "") := by
  simp [holds, toJson_ofText, Json.holds]

@[simp] theorem isText_ofText (s t : String) : isText (ofText s : τ) t = (s == t) :=
  Bool.eq_iff_iff.2 (by simp [isText, toJson_ofText])

@[simp] theorem depth_ofText (s : String) : depth (ofText s : τ) = 0 := by
  simp [depth, toJson_ofText, Json.depth]

/-- A free text that is given, or a text in its place. -/
def orText (x : Option τ) (s : String) : τ := (x.filter holds).getD (ofText s)

/-- The texts in a list from some position on, if each one is a text. -/
def textsFrom (position : Nat) : List τ → Except Misfit (List String)
  | [] => .ok []
  | x :: rest =>
    match toJson x with
    | .str s => (s :: ·) <$> textsFrom (position + 1) rest
    | j => .error (.unjoined position j.kindName)

/-- A list of texts with a separator between them. -/
def joined (separator : String) (xs : List τ) : Except Misfit String :=
  separator.intercalate <$> textsFrom 0 xs

/-- A column of a fixed width. Of values other than texts only numbers can stand in one, and the truth
values, which count as one and zero. -/
def column (width : Nat) (x : τ) : Except Misfit String :=
  match toJson x with
  | .str s => .ok (Text.padRight width s)
  | .int n => .ok (Text.padRight width (toString n))
  | .real y => .ok (Text.padRight width y.render)
  | .bool b => .ok (Text.padRight width (if b then "1" else "0"))
  | j => .error (.unpadded j.kindName)

/-- The value bound to a name. Nothing is bound to what is no text, and what is made of other values
names nothing. -/
def bound (bindings : List (String × String)) (x : τ) : Except Obstacle String :=
  match toJson x with
  | .str s => (bindings.lookup s).elim (.error (.missing s)) .ok
  | j => .error (if j.isCompound then .misfit (.unkeyed j.kindName) else .missing j.quoted)

end FreeText

end Dcr
