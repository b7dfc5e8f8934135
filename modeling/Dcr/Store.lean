/-! Stores: collections in insertion order with at most one entry under each key. Replacing an entry
keeps its place; a new one goes to the end. -/

namespace Dcr

/-- Values that carry their own key. -/
class Keyed (α : Type) where
  key : α → String

open Keyed (key)

/-- Entries in insertion order, no two under one key. -/
structure Store (α : Type) [Keyed α] where
  entries : List α
  distinct : (entries.map key).Nodup

namespace Store

variable {α : Type} [Keyed α]

instance : Inhabited (Store α) := ⟨⟨[], List.nodup_nil⟩⟩

def empty : Store α := ⟨[], List.nodup_nil⟩

instance : EmptyCollection (Store α) := ⟨empty⟩

@[ext] theorem ext {s t : Store α} (h : s.entries = t.entries) : s = t := by
  cases s; cases t; cases h; rfl

instance [DecidableEq α] : DecidableEq (Store α) := fun s t =>
  decidable_of_iff (s.entries = t.entries) ⟨ext, fun h => h ▸ rfl⟩

def keys (s : Store α) : List String := s.entries.map key

def size (s : Store α) : Nat := s.entries.length

def get? (s : Store α) (k : String) : Option α := s.entries.find? fun x => key x == k

def contains (s : Store α) (k : String) : Bool := (s.get? k).isSome

/-- The entries that pass a test. -/
def filter (s : Store α) (keep : α → Bool) : Store α :=
  ⟨s.entries.filter keep, s.distinct.sublist (List.filter_sublist.map key)⟩

/-- The store without the entry under a key. -/
def erase (s : Store α) (k : String) : Store α := s.filter fun x => key x != k

/-- Every entry changed, the keys kept. -/
def update (s : Store α) (f : α → α) (same : ∀ x, key (f x) = key x := by intro _; rfl) : Store α :=
  ⟨s.entries.map f, by
    have h : (s.entries.map f).map key = s.entries.map key := by simp [same]
    exact h ▸ s.distinct⟩

theorem key_ite (k : String) (f : α → α) (same : ∀ x, key (f x) = key x) (x : α) :
    key (if key x == k then f x else x) = key x := by
  split
  · exact same x
  · rfl

/-- The entry under a key changed, its key kept. -/
def modify (s : Store α) (k : String) (f : α → α)
    (same : ∀ x, key (f x) = key x := by intro _; rfl) : Store α :=
  s.update (fun x => if key x == k then f x else x) (key_ite k f same)

/-- The entries with one put in the place of the entry under its key, or at the end. -/
def put (x : α) : List α → List α
  | [] => [x]
  | y :: rest => if key y = key x then x :: rest else y :: put x rest

theorem mem_keys_put {x : α} {k : String} :
    ∀ {xs : List α}, k ∈ (put x xs).map key → k = key x ∨ k ∈ xs.map key
  | [], h => by simpa [put] using h
  | y :: rest, h => by
    unfold put at h
    split at h
    · next same => simpa [same] using h
    · rcases List.mem_cons.1 h with h | h
      · exact .inr (List.mem_cons.2 (.inl h))
      · exact (mem_keys_put h).imp id fun h => List.mem_cons.2 (.inr h)

theorem nodup_put (x : α) : ∀ {xs : List α}, (xs.map key).Nodup → ((put x xs).map key).Nodup
  | [], _ => by simp [put]
  | y :: rest, h => by
    have ⟨fresh, h⟩ := List.nodup_cons.1 h
    unfold put
    split
    · next same => exact List.nodup_cons.2 ⟨same ▸ fresh, h⟩
    · next other =>
      refine List.nodup_cons.2 ⟨fun hy => ?_, nodup_put x h⟩
      exact (mem_keys_put hy).elim other fresh

/-- Adds an entry, in the place of the one under its key if there is one. -/
def insert (s : Store α) (x : α) : Store α := ⟨put x s.entries, nodup_put x s.distinct⟩

/-- A store of some entries; the later of two under one key wins, in the earlier one's place. -/
def ofList (xs : List α) : Store α := xs.foldl insert empty

theorem erase_size_lt {s : Store α} {k : String} {x : α} (h : s.get? k = some x) :
    (s.erase k).size < s.size := by
  have member := List.mem_of_find?_eq_some h
  have named : key x = k := by simpa using List.find?_some h
  refine List.length_filter_lt_length_iff_exists.2 ⟨x, member, ?_⟩
  simp [named]

end Store

end Dcr
