import Dcr.Double.Notation
import Dcr.Text.Column
import Dcr.Text.Quoted

/-! JSON values. Whole numbers of any size are apart from numbers of double precision, and the members
of an object are in their order. -/

namespace Dcr

inductive Json where
  | null
  | bool (b : Bool)
  | int (n : Int)
  | real (x : Double)
  | str (s : String)
  | arr (items : List Json)
  | obj (members : List (String × Json))
  deriving Inhabited

namespace Json

mutual

/-- Whether two values are the same, kind by kind. -/
def same : Json → Json → Bool
  | null, null => true
  | bool a, bool b => a == b
  | int m, int n => m == n
  | real x, real y => x == y
  | str s, str t => s == t
  | arr xs, arr ys => sameItems xs ys
  | obj xs, obj ys => sameMembers xs ys
  | _, _ => false

def sameItems : List Json → List Json → Bool
  | [], [] => true
  | x :: xs, y :: ys => same x y && sameItems xs ys
  | _, _ => false

def sameMembers : List (String × Json) → List (String × Json) → Bool
  | [], [] => true
  | (k, x) :: xs, (l, y) :: ys => k == l && same x y && sameMembers xs ys
  | _, _ => false

end

mutual

theorem eq_of_same : ∀ {a b : Json}, same a b = true → a = b
  | null, b, h | bool _, b, h | int _, b, h | real _, b, h | str _, b, h => by
    cases b <;> simp_all [same]
  | arr xs, b, h => by
    cases b with
    | arr ys =>
      have h : sameItems xs ys = true := by simpa [same] using h
      rw [eq_of_sameItems h]
    | _ => simp [same] at h
  | obj xs, b, h => by
    cases b with
    | obj ys =>
      have h : sameMembers xs ys = true := by simpa [same] using h
      rw [eq_of_sameMembers h]
    | _ => simp [same] at h

theorem eq_of_sameItems : ∀ {xs ys : List Json}, sameItems xs ys = true → xs = ys
  | [], ys, h => by cases ys <;> simp_all [sameItems]
  | x :: xs, ys, h => by
    cases ys with
    | nil => simp [sameItems] at h
    | cons y ys =>
      have ⟨first, rest⟩ : same x y = true ∧ sameItems xs ys = true := by
        simpa [sameItems] using h
      rw [eq_of_same first, eq_of_sameItems rest]

theorem eq_of_sameMembers :
    ∀ {xs ys : List (String × Json)}, sameMembers xs ys = true → xs = ys
  | [], ys, h => by cases ys <;> simp_all [sameMembers]
  | (k, x) :: xs, ys, h => by
    cases ys with
    | nil => simp [sameMembers] at h
    | cons y ys =>
      obtain ⟨l, y⟩ := y
      have ⟨⟨key, first⟩, rest⟩ : (k = l ∧ same x y = true) ∧ sameMembers xs ys = true := by
        simpa [sameMembers] using h
      rw [key, eq_of_same first, eq_of_sameMembers rest]

end

mutual

theorem same_self : ∀ a : Json, same a a = true
  | null | bool _ | int _ | real _ | str _ => by simp [same]
  | arr xs => by simp [same, sameItems_self xs]
  | obj xs => by simp [same, sameMembers_self xs]

theorem sameItems_self : ∀ xs : List Json, sameItems xs xs = true
  | [] => by simp [sameItems]
  | x :: xs => by simp [sameItems, same_self x, sameItems_self xs]

theorem sameMembers_self : ∀ xs : List (String × Json), sameMembers xs xs = true
  | [] => by simp [sameMembers]
  | (k, x) :: xs => by simp [sameMembers, same_self x, sameMembers_self xs]

end

instance : DecidableEq Json := fun a b =>
  decidable_of_iff (same a b = true) ⟨eq_of_same, fun h => h ▸ same_self a⟩

/-- The value of a member of an object. -/
def get? (j : Json) (key : String) : Option Json :=
  match j with
  | obj members => members.lookup key
  | _ => none

/-- Whether a value counts as set: everything but null, false, zero, and an empty text, list or
object. -/
def holds : Json → Bool
  | null => false
  | bool b => b
  | int n => n != 0
  | real x => !x.isZero
  | str s => s != ""
  | arr items => !items.isEmpty
  | obj members => !members.isEmpty

mutual

/-- A value as messages quote it. -/
def quoted : Json → String
  | null => "None"
  | bool true => "True"
  | bool false => "False"
  | int n => toString n
  | real x => x.render
  | str s => Text.quoted s
  | arr items => "[" ++ ", ".intercalate (quotedItems items) ++ "]"
  | obj members => "\x7b" ++ ", ".intercalate (quotedMembers members) ++ "\x7d"

def quotedItems : List Json → List String
  | [] => []
  | j :: rest => j.quoted :: quotedItems rest

def quotedMembers : List (String × Json) → List String
  | [] => []
  | (key, j) :: rest => (Text.quoted key ++ ": " ++ j.quoted) :: quotedMembers rest

end

mutual

/-- How many lists and objects are inside one another in a value. -/
def depth : Json → Nat
  | arr items => depthItems items + 1
  | obj members => depthMembers members + 1
  | _ => 0

def depthItems : List Json → Nat
  | [] => 0
  | j :: rest => max j.depth (depthItems rest)

def depthMembers : List (String × Json) → Nat
  | [] => 0
  | (_, j) :: rest => max j.depth (depthMembers rest)

end

/-- A value as it appears inside a text: a text as it is, anything else quoted. -/
def shown : Json → String
  | str s => s
  | j => j.quoted

/-- The kind of a value as messages name it. -/
def kindName : Json → String
  | null => "NoneType"
  | bool _ => "bool"
  | int _ => "int"
  | real _ => "float"
  | str _ => "str"
  | arr _ => "list"
  | obj _ => "dict"

/-- Whether a value is made of others. -/
def isCompound : Json → Bool
  | arr _ => true
  | obj _ => true
  | _ => false

/-- What a list stands for when it is gone through; an object stands for its keys and a text for its
characters. -/
def elements? : Json → Option (List Json)
  | arr items => some items
  | obj members => some (members.map fun pair => str pair.1)
  | str s => some (s.toList.map fun c => str c.toString)
  | _ => none

end Json

end Dcr
